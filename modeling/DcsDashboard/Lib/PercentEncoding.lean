/-
# Percent-encoding

A byte is written as its ASCII character where a set of characters keeps it, and as `%` and two
hexadecimal digits elsewhere.  Where the set has neither `%` nor characters beyond ASCII, decoding
gives the bytes back (`decode_encode`), so that different bytes have different encodings.
-/
import DcsDashboard.Lib.LuaLexer

namespace DcsDashboard.Lib.Percent

/-- `*byte as char`. -/
def byteChar (b : UInt8) : Char := Char.ofNat b.toNat

/-- A digit of `{:02X}`. -/
def upperHex (n : Nat) : Char := if n < 10 then Char.ofNat (48 + n) else Char.ofNat (55 + n)

def hexValue (c : Char) : Option Nat :=
  if '0' ≤ c ∧ c ≤ '9' then some (c.toNat - 48)
  else if 'A' ≤ c ∧ c ≤ 'F' then some (c.toNat - 55)
  else if 'a' ≤ c ∧ c ≤ 'f' then some (c.toNat - 87)
  else none

def encodeByte (keeps : Char → Bool) (b : UInt8) : List Char :=
  if keeps (byteChar b) then [byteChar b]
  else ['%', upperHex (b.toNat / 16), upperHex (b.toNat % 16)]

def encode (keeps : Char → Bool) (bytes : List UInt8) : List Char :=
  bytes.flatMap (encodeByte keeps)

/-- Any character but `%` stands for its byte. -/
def decode : List Char → Option (List UInt8)
  | [] => some []
  | '%' :: hi :: lo :: s => do
    let hi ← hexValue hi
    let lo ← hexValue lo
    return UInt8.ofNat (16 * hi + lo) :: (← decode s)
  | c :: s =>
    if c = '%' ∨ 128 ≤ c.toNat then none
    else (decode s).map (UInt8.ofNat c.toNat :: ·)

theorem hexValue_upperHex {n : Nat} (h : n < 16) : hexValue (upperHex n) = some n := by
  have hall : ∀ n < 16, hexValue (upperHex n) = some n := by decide
  exact hall n h

/-- A hexadecimal digit is printable. -/
theorem upperHex_printable {n : Nat} (h : n < 16) :
    32 ≤ (upperHex n).toNat ∧ (upperHex n).toNat < 127 := by
  have hall : ∀ n < 16, 32 ≤ (upperHex n).toNat ∧ (upperHex n).toNat < 127 := by decide
  exact hall n h

theorem byteChar_toNat (b : UInt8) : (byteChar b).toNat = b.toNat := by
  have hvalid : Nat.isValidChar b.toNat := .inl (by have := b.toNat_lt; omega)
  rw [byteChar, Char.toNat, Char.ofNat, dif_pos hvalid]
  rfl

section
variable {keeps : Char → Bool}

/-- A kept character is decoded as itself. -/
theorem decode_cons {c : Char} (hc : c ≠ '%' ∧ c.toNat < 128) (s : List Char) :
    decode (c :: s) = (decode s).map (UInt8.ofNat c.toNat :: ·) := by
  have hstep : decode (c :: s) = if c = '%' ∨ 128 ≤ c.toNat then none
      else (decode s).map (UInt8.ofNat c.toNat :: ·) := by
    rw [decode]
    exact fun _ _ _ hpercent _ => hc.1 hpercent
  rw [hstep, if_neg]
  rintro (hpercent | hbeyond)
  · exact hc.1 hpercent
  · omega

theorem decode_encodeByte (hkeeps : ∀ c, keeps c = true → c ≠ '%' ∧ c.toNat < 128) (b : UInt8)
    (s : List Char) : decode (encodeByte keeps b ++ s) = (decode s).map (b :: ·) := by
  unfold encodeByte
  split
  · rename_i hkept
    have hbyte : UInt8.ofNat (byteChar b).toNat = b := by rw [byteChar_toNat, UInt8.ofNat_toNat]
    rw [List.singleton_append, decode_cons (hkeeps _ hkept), hbyte]
  · have hlt : b.toNat < 256 := b.toNat_lt
    have hhi : b.toNat / 16 < 16 := by omega
    have hlo : b.toNat % 16 < 16 := by omega
    have hbyte : UInt8.ofNat (16 * (b.toNat / 16) + b.toNat % 16) = b := by
      rw [show 16 * (b.toNat / 16) + b.toNat % 16 = b.toNat by omega, UInt8.ofNat_toNat]
    simp only [List.cons_append, List.nil_append, decode, hexValue_upperHex hhi,
      hexValue_upperHex hlo, Option.bind_eq_bind, Option.bind_some, hbyte]
    cases decode s <;> rfl

/-- **The bytes are decoded again.** -/
theorem decode_encode (hkeeps : ∀ c, keeps c = true → c ≠ '%' ∧ c.toNat < 128)
    (bytes : List UInt8) : decode (encode keeps bytes) = some bytes := by
  unfold encode
  induction bytes with
  | nil => rfl
  | cons b bytes ih =>
    rw [List.flatMap_cons, decode_encodeByte hkeeps, ih]
    rfl

/-- An encoding is printable where the kept characters are. -/
theorem encode_printable (hkeeps : ∀ c, keeps c = true → 32 ≤ c.toNat ∧ c.toNat < 127)
    {bytes : List UInt8} {c : Char} (hc : c ∈ encode keeps bytes) :
    32 ≤ c.toNat ∧ c.toNat < 127 := by
  obtain ⟨b, -, hc⟩ := List.mem_flatMap.mp hc
  have hlt : b.toNat < 256 := b.toNat_lt
  unfold encodeByte at hc
  split at hc
  · rename_i hkept
    rw [List.mem_singleton.mp hc]
    exact hkeeps _ hkept
  · simp only [List.mem_cons, List.not_mem_nil, or_false] at hc
    rcases hc with rfl | rfl | rfl
    · decide
    · exact upperHex_printable (by omega)
    · exact upperHex_printable (by omega)

end

end DcsDashboard.Lib.Percent
