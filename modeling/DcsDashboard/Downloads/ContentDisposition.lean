/-
# The header of a download

`content_disposition` (`routes/downloads.rs`) names the file a browser saves twice: in a quoted
parameter that is cut down to ASCII, one character for each of the name, and in an extended
parameter with the bytes of the name percent-encoded.

Whatever the name, the header is printable, both parameters can be read off it, and the second is
the name (`contentDisposition_reads`).
-/
import DcsDashboard.Lib.PercentEncoding
import DcsDashboard.Lib.RustText

namespace DcsDashboard.Downloads

open Lib Lua

/-! ## 1. The header -/

/-- `is_ascii() && !is_ascii_control()`. -/
def isPrintable (c : Char) : Bool := decide (c.toNat < 128) && decide (32 ≤ c.toNat ∧ c.toNat ≠ 127)

/-- A character of the ASCII-only fallback. -/
def fallbackChar (c : Char) : Char :=
  if isPrintable c ∧ c ≠ '"' ∧ c ≠ '\\' then c else '_'

/-- The characters `percent_encode` keeps (RFC 5987 `attr-char`). -/
def isAttrChar (c : Char) : Bool :=
  c.isAlphanum || c ∈ ['!', '#', '$', '&', '+', '-', '.', '^', '_', '`', '|', '~']

/-- `percent_encode`. -/
def percentEncode (value : List Char) : List Char := Percent.encode isAttrChar (utf8Bytes value)

/-- What `content_disposition` writes before the fallback. -/
def attachment : List Char := "attachment; filename=\"".toList

/-- What `content_disposition` writes before the encoded name. -/
def extended : List Char := "\"; filename*=UTF-8''".toList

/-- `content_disposition`. -/
def contentDisposition (filename : List Char) : List Char :=
  attachment ++ filename.map fallbackChar ++ extended ++ percentEncode filename

/-! ## 2. Reading it -/

/-- A text after another one. -/
def afterText (text s : List Char) : Option (List Char) :=
  if text <+: s then some (s.drop text.length) else none

/-- The two parameters of a header: the first goes up to its closing quote, the second to the
end. -/
def parameters (header : List Char) : Option (List Char × List Char) := do
  let rest ← afterText attachment header
  let encoded ← afterText extended (rest.dropWhile (· ≠ '"'))
  return (rest.takeWhile (· ≠ '"'), encoded)

theorem afterText_append (text s : List Char) : afterText text (text ++ s) = some s := by
  rw [afterText, if_pos (List.prefix_append text s), List.drop_left]

theorem fallbackChar_spec (c : Char) :
    isPrintable (fallbackChar c) = true ∧ fallbackChar c ≠ '"' ∧ fallbackChar c ≠ '\\' := by
  unfold fallbackChar
  split
  · rename_i h
    exact h
  · decide

theorem isAlphanum_printable {c : Char} (h : c.isAlphanum = true) :
    32 ≤ c.toNat ∧ c.toNat < 127 ∧ c ≠ '%' := by
  have hrange : 48 ≤ c.toNat ∧ c.toNat < 127 := by
    delta Char.isAlphanum Char.isAlpha Char.isUpper Char.isLower Char.isDigit at h
    simp only [Bool.or_eq_true, Bool.and_eq_true, decide_eq_true_eq, UInt32.le_iff_toNat_le,
      ge_iff_le] at h
    have hval : c.toNat = c.val.toNat := rfl
    have hbounds : 'Z'.val.toNat = 90 ∧ 'z'.val.toNat = 122 ∧ '9'.val.toNat = 57 ∧
        'A'.val.toNat = 65 ∧ 'a'.val.toNat = 97 ∧ '0'.val.toNat = 48 := by decide
    omega
  refine ⟨by omega, hrange.2, ?_⟩
  rintro rfl
  exact absurd hrange.1 (by decide)

theorem isAttrChar_spec {c : Char} (h : isAttrChar c = true) :
    32 ≤ c.toNat ∧ c.toNat < 127 ∧ c ≠ '%' := by
  rcases (Bool.or_eq_true _ _).mp h with halnum | hmem
  · exact isAlphanum_printable halnum
  · have hall : ∀ c ∈ ['!', '#', '$', '&', '+', '-', '.', '^', '_', '`', '|', '~'],
        32 ≤ c.toNat ∧ c.toNat < 127 ∧ c ≠ '%' := by simp
    exact hall c (of_decide_eq_true hmem)

/-- The fallback has neither quotes nor backslashes. -/
theorem fallback_notMem (filename : List Char) :
    '"' ∉ filename.map fallbackChar ∧ '\\' ∉ filename.map fallbackChar := by
  constructor
  · intro hmem
    obtain ⟨d, -, hd⟩ := List.mem_map.mp hmem
    exact (fallbackChar_spec d).2.1 hd
  · intro hmem
    obtain ⟨d, -, hd⟩ := List.mem_map.mp hmem
    exact (fallbackChar_spec d).2.2 hd

/-- **The parameters of a header** are the fallback and the encoded name. -/
theorem parameters_contentDisposition (filename : List Char) :
    parameters (contentDisposition filename) =
      some (filename.map fallbackChar, percentEncode filename) := by
  have hquote := decide_ne_of_notMem (fallback_notMem filename).1
  obtain ⟨rest, hclosing⟩ : ∃ rest, extended = '"' :: rest := ⟨_, rfl⟩
  have htake : (filename.map fallbackChar ++ (extended ++ percentEncode filename)).takeWhile
      (· ≠ '"') = filename.map fallbackChar := by
    rw [List.takeWhile_append_of_pos hquote, hclosing]
    simp
  have hdrop : (filename.map fallbackChar ++ (extended ++ percentEncode filename)).dropWhile
      (· ≠ '"') = extended ++ percentEncode filename := by
    rw [List.dropWhile_append_of_pos hquote, hclosing]
    simp
  simp only [parameters, contentDisposition, List.append_assoc, afterText_append,
    Option.bind_eq_bind, Option.bind_some, htake, hdrop, Option.pure_def]

theorem utf8Bytes_injective {s t : List Char} (h : utf8Bytes s = utf8Bytes t) : s = t := by
  have htext := congrArg toStr h
  rw [toStr_utf8Bytes, toStr_utf8Bytes] at htext
  exact String.ofList_injective (Option.some.inj htext)

theorem decode_percentEncode (value : List Char) :
    Percent.decode (percentEncode value) = some (utf8Bytes value) := by
  refine Percent.decode_encode (fun c hc => ?_) _
  obtain ⟨-, hlt, hne⟩ := isAttrChar_spec hc
  exact ⟨hne, by omega⟩

theorem contentDisposition_printable {filename : List Char} {c : Char}
    (hc : c ∈ contentDisposition filename) : 32 ≤ c.toNat ∧ c.toNat < 127 := by
  have hfixed : (attachment ++ extended).all (fun c => 32 ≤ c.toNat ∧ c.toNat < 127) = true := by
    decide +kernel
  simp only [List.all_append, Bool.and_eq_true, List.all_eq_true, decide_eq_true_eq] at hfixed
  simp only [contentDisposition, List.mem_append] at hc
  rcases hc with ((hc | hc) | hc) | hc
  · exact hfixed.1 c hc
  · obtain ⟨d, -, rfl⟩ := List.mem_map.mp hc
    have hprintable := (fallbackChar_spec d).1
    simp only [isPrintable, Bool.and_eq_true, decide_eq_true_eq] at hprintable
    omega
  · exact hfixed.2 c hc
  · refine Percent.encode_printable (fun c hc => ?_) hc
    obtain ⟨hle, hlt, -⟩ := isAttrChar_spec hc
    exact ⟨hle, hlt⟩

/-- **The header of a download** is printable ASCII, and its parameters can be read off it: one
without quotes and backslashes, with a character for each of the name, and one that is decoded to
the bytes of the name.  No two names have the same header. -/
theorem contentDisposition_reads :
    (∀ filename, (∀ c ∈ contentDisposition filename, 32 ≤ c.toNat ∧ c.toNat < 127) ∧
      ∃ quoted encoded, parameters (contentDisposition filename) = some (quoted, encoded) ∧
        ('"' ∉ quoted ∧ '\\' ∉ quoted ∧ quoted.length = filename.length) ∧
        Percent.decode encoded = some (utf8Bytes filename)) ∧
    Function.Injective contentDisposition := by
  constructor
  · intro filename
    obtain ⟨hquote, hbackslash⟩ := fallback_notMem filename
    exact ⟨fun c hc => contentDisposition_printable hc, _, _,
      parameters_contentDisposition filename, ⟨hquote, hbackslash, by simp⟩,
      decode_percentEncode filename⟩
  · intro filename filename' h
    have hparameters := congrArg parameters h
    rw [parameters_contentDisposition, parameters_contentDisposition] at hparameters
    have hencoded := congrArg Percent.decode (Prod.mk.inj (Option.some.inj hparameters)).2
    rw [decode_percentEncode, decode_percentEncode] at hencoded
    exact utf8Bytes_injective (Option.some.inj hencoded)

example : contentDisposition "Ü \"1\".miz".toList =
    "attachment; filename=\"_ _1_.miz\"; filename*=UTF-8''%C3%9C%20%221%22.miz".toList := by
  decide +kernel

end DcsDashboard.Downloads
