/-
# Broadcast channels

A channel takes values in, for any number of receivers, and keeps at most `capacity` of them.  A
receiver gets what is sent after it has subscribed, one value at a time; one that has fallen behind
what is kept is told so once, and goes on with the oldest value that is.

How channels are made is a parameter (`Channels`).  `Reads` says of a receiver how far it has read
of what was sent since it subscribed, by the operations that have been made, and `Lawful` that the
channels tell it what follows there.  `Ring` is one way to make them.

`Follows` is what a receiver has then got: in order and each value once, some of the first `n`
values, and from one position on all of them.  That position is the start of the subscription, or
lies at least `capacity` before the end.  Hence a receiver that has caught up has got the last
`capacity` values whatever it missed before (`Follows.suffix_of_caughtUp`), and reading on long
enough it does catch up (`readTo_lt`).
-/
import Mathlib.Data.List.Basic

namespace DcsDashboard.Lib.Broadcast

universe u

variable {α : Type u}

/-! ## 1. Channels -/

/-- What a receiver reads. -/
inductive Reading (α : Type*)
  | value (a : α)
  | lagged (missed : Nat)
  | nothing

/-- Channels of values, and what can be done with them. -/
structure Channels (α : Type u) where
  Channel : Type u
  Receiver : Type
  new : Nat → Channel
  send : Channel → α → Channel
  subscribe : Channel → Receiver
  recv : Channel → Receiver → Reading α × Receiver

/-- What a receiver is told that has read the first `n` of the values. -/
def told (capacity : Nat) (log : List α) (n : Nat) : Reading α :=
  if n + capacity < log.length then .lagged (log.length - capacity - n)
  else match log[n]? with
    | some a => .value a
    | none => .nothing

/-- How far it has read then. -/
def readTo (capacity : Nat) (log : List α) (n : Nat) : Nat :=
  if n + capacity < log.length then log.length - capacity
  else if n < log.length then n + 1 else n

variable (B : Channels α) (capacity : Nat)

/-- A channel of the given capacity on which values have been sent. -/
inductive Made : B.Channel → Prop
  | new : Made (B.new capacity)
  | send {c : B.Channel} (h : Made c) (a : α) : Made (B.send c a)

/-- Since the receiver subscribed to the channel `log` was sent, of which it has read `n`. -/
inductive Reads : B.Channel → B.Receiver → List α → Nat → Prop
  | subscribe {c : B.Channel} (h : Made B capacity c) : Reads c (B.subscribe c) [] 0
  | send {c : B.Channel} {r : B.Receiver} {log : List α} {n : Nat} (h : Reads c r log n) (a : α) :
      Reads (B.send c a) r (log ++ [a]) n
  | recv {c : B.Channel} {r : B.Receiver} {log : List α} {n : Nat} (h : Reads c r log n) :
      Reads c (B.recv c r).2 log (readTo capacity log n)

/-- The contract: a receiver is told what follows. -/
def Channels.Lawful : Prop :=
  ∀ ⦃c : B.Channel⦄ ⦃r : B.Receiver⦄ ⦃log : List α⦄ ⦃n : Nat⦄, Reads B capacity c r log n →
    (B.recv c r).1 = told capacity log n

/-! ## 2. One receiver -/

/-- A receiver that subscribed before `log` was sent has read its first `n` values and got
`received`: some of the first `m`, then all the others. -/
def Follows (capacity : Nat) (log : List α) (n : Nat) (received : List α) : Prop :=
  n ≤ log.length ∧ ∃ m old, m ≤ n ∧ (m = 0 ∨ m + capacity ≤ log.length) ∧
    old.Sublist (log.take m) ∧ received = old ++ (log.take n).drop m

variable {capacity n : Nat} {log received : List α}

/-- A new receiver. -/
theorem follows_new (capacity : Nat) : Follows capacity ([] : List α) 0 [] :=
  ⟨Nat.le_refl _, 0, [], Nat.le_refl _, .inl rfl, List.Sublist.refl _, rfl⟩

/-- Sending does nothing to a receiver. -/
theorem Follows.send (h : Follows capacity log n received) (a : α) :
    Follows capacity (log ++ [a]) n received := by
  obtain ⟨hn, m, old, hm, hlag, hold, hreceived⟩ := h
  refine ⟨by simp; omega, m, old, hm, ?_, ?_, ?_⟩
  · rcases hlag with hlag | hlag
    · exact .inl hlag
    · right; simp; omega
  · rwa [List.take_append_of_le_length (Nat.le_trans hm hn)]
  · rwa [List.take_append_of_le_length hn]

/-- The receiver gets the next value. -/
theorem Follows.value (h : Follows capacity log n received) {a : α} (ha : log[n]? = some a) :
    Follows capacity log (n + 1) (received ++ [a]) := by
  obtain ⟨hn, m, old, hm, hlag, hold, rfl⟩ := h
  have hlt : n < log.length := (List.getElem?_eq_some_iff.mp ha).1
  have htake : log.take (n + 1) = log.take n ++ [a] := by
    rw [List.take_add_one, ha, Option.toList_some]
  refine ⟨hlt, m, old, Nat.le_succ_of_le hm, hlag, hold, ?_⟩
  rw [htake, List.drop_append_of_le_length (by rw [List.length_take]; omega), List.append_assoc]

/-- **In order, each once.**  A receiver gets some of the values it has read past. -/
theorem Follows.sublist (h : Follows capacity log n received) : received.Sublist (log.take n) := by
  obtain ⟨-, m, old, hm, -, hold, rfl⟩ := h
  have htake : (log.take n).take m = log.take m := by rw [List.take_take, Nat.min_eq_left hm]
  rw [← htake] at hold
  simpa using hold.append (List.Sublist.refl ((log.take n).drop m))

/-- The receiver goes on with the oldest value held. -/
theorem Follows.lagged (h : Follows capacity log n received) (hlag : n < log.length - capacity) :
    Follows capacity log (log.length - capacity) received := by
  refine ⟨Nat.sub_le _ _, log.length - capacity, received, Nat.le_refl _, .inr (by omega), ?_, ?_⟩
  · exact h.sublist.trans (List.take_sublist_take_left (Nat.le_of_lt hlag))
  · rw [List.drop_of_length_le (by rw [List.length_take]; omega), List.append_nil]

/-- **A receiver that has caught up** has got the last `capacity` values. -/
theorem Follows.suffix_of_caughtUp (h : Follows capacity log log.length received) :
    log.drop (log.length - capacity) <:+ received := by
  obtain ⟨-, m, old, -, hlag, -, rfl⟩ := h
  rw [List.take_length]
  have hm : m ≤ log.length - capacity := by omega
  exact (List.drop_suffix_drop_left log hm).trans (List.suffix_append _ _)

/-- **One reading.** -/
theorem Follows.recv (h : Follows capacity log n received) :
    match told capacity log n with
    | .value a => Follows capacity log (readTo capacity log n) (received ++ [a])
    | _ => Follows capacity log (readTo capacity log n) received := by
  unfold told readTo
  by_cases hlag : n + capacity < log.length
  · simp only [if_pos hlag]
    exact h.lagged (by omega)
  · simp only [if_neg hlag]
    by_cases hlt : n < log.length
    · simp only [List.getElem?_eq_getElem hlt, if_pos hlt]
      exact h.value (List.getElem?_eq_getElem hlt)
    · simp only [List.getElem?_eq_none (Nat.not_lt.mp hlt), if_neg hlt]
      exact h

/-- Reading goes on until the end. -/
theorem readTo_lt (hpos : 0 < capacity) (hlt : n < log.length) :
    n < readTo capacity log n ∧ readTo capacity log n ≤ log.length := by
  unfold readTo
  split <;> omega

/-- Only who has caught up is told nothing. -/
theorem eq_length_of_told (hn : n ≤ log.length) (h : told capacity log n = .nothing) :
    n = log.length := by
  unfold told at h
  split at h
  · cases h
  · split at h
    · cases h
    · rename_i hnone
      exact Nat.le_antisymm hn (List.getElem?_eq_none_iff.mp hnone)

theorem told_length (log : List α) : told capacity log log.length = .nothing := by
  unfold told
  rw [if_neg (by omega), List.getElem?_eq_none (Nat.le_refl _)]

/-! ## 3. A receiver of a channel -/

/-- The receiver has got `received` of what was sent since it subscribed. -/
def Receives (B : Channels α) (capacity : Nat) (c : B.Channel) (log : List α) (r : B.Receiver)
    (received : List α) : Prop :=
  ∃ n, Reads B capacity c r log n ∧ Follows capacity log n received

variable {B : Channels α} {c : B.Channel} {r : B.Receiver}

theorem receives_subscribe (h : Made B capacity c) :
    Receives B capacity c [] (B.subscribe c) [] :=
  ⟨0, .subscribe h, follows_new capacity⟩

theorem Receives.send (h : Receives B capacity c log r received) (a : α) :
    Receives B capacity (B.send c a) (log ++ [a]) r received := by
  obtain ⟨n, hreads, hfollows⟩ := h
  exact ⟨n, hreads.send a, hfollows.send a⟩

/-- **One reading.**  A receiver gets the next value, or skips what is no longer kept, or has
caught up. -/
theorem Receives.recv (hB : B.Lawful capacity) (h : Receives B capacity c log r received) :
    match (B.recv c r).1 with
    | .value a => Receives B capacity c log (B.recv c r).2 (received ++ [a])
    | _ => Receives B capacity c log (B.recv c r).2 received := by
  obtain ⟨n, hreads, hfollows⟩ := h
  have hrecv := hfollows.recv
  rw [hB hreads]
  cases htold : told capacity log n <;> rw [htold] at hrecv <;> exact ⟨_, hreads.recv, hrecv⟩

/-- What a receiver has got, of all that was sent since it subscribed. -/
theorem Receives.sublist (h : Receives B capacity c log r received) : received.Sublist log := by
  obtain ⟨n, -, hfollows⟩ := h
  exact hfollows.sublist.trans (List.take_sublist n log)

/-- **A receiver that is told nothing** has got the last `capacity` values. -/
theorem Receives.suffix_of_nothing (hB : B.Lawful capacity)
    (h : Receives B capacity c log r received) (hend : (B.recv c r).1 = .nothing) :
    log.drop (log.length - capacity) <:+ received := by
  obtain ⟨n, hreads, hfollows⟩ := h
  rw [hB hreads] at hend
  obtain rfl := eq_length_of_told hfollows.1 hend
  exact hfollows.suffix_of_caughtUp

/-! ## 4. A ring -/

/-- A ring with the values it keeps, and how many were dropped before them. -/
structure Ring (α : Type u) where
  capacity : Nat
  oldest : Nat
  held : List α

/-- Sends a value; the oldest one makes room for it. -/
def Ring.send (c : Ring α) (a : α) : Ring α :=
  if c.held.length < c.capacity then { c with held := c.held ++ [a] }
  else { c with oldest := c.oldest + 1, held := c.held.tail ++ [a] }

/-- Reads at a position; also the position to read next. -/
def Ring.recv (c : Ring α) (next : Nat) : Reading α × Nat :=
  if next < c.oldest then (.lagged (c.oldest - next), c.oldest)
  else match c.held[next - c.oldest]? with
    | some a => (.value a, next + 1)
    | none => (.nothing, next)

/-- Channels that are rings; a receiver is the position it reads next. -/
def rings (α : Type u) : Channels α where
  Channel := Ring α
  Receiver := Nat
  new capacity := ⟨capacity, 0, []⟩
  send := Ring.send
  subscribe c := c.oldest + c.held.length
  recv := Ring.recv

/-- The ring `c` holds the end of `log`. -/
structure Holds (capacity : Nat) (log : List α) (c : Ring α) : Prop where
  capacity_eq : c.capacity = capacity
  oldest : c.oldest = log.length - capacity
  held : c.held = log.drop c.oldest

theorem Holds.length_held {c : Ring α} (h : Holds capacity log c) :
    c.held.length = log.length - (log.length - capacity) := by
  rw [h.held, List.length_drop, h.oldest]

/-- **Sending extends the log.** -/
theorem Holds.send {c : Ring α} (hpos : 0 < capacity) (h : Holds capacity log c) (a : α) :
    Holds capacity (log ++ [a]) (c.send a) := by
  have hcapacity := h.capacity_eq
  have hlength := h.length_held
  have holdest := h.oldest
  unfold Ring.send
  split
  · rename_i hroom
    have hle : c.oldest ≤ log.length := by omega
    refine ⟨hcapacity, ?_, ?_⟩
    · simp only [List.length_append, List.length_singleton]
      omega
    · simp only [h.held, List.drop_append_of_le_length hle]
  · rename_i hfull
    have hle : c.oldest + 1 ≤ log.length := by omega
    refine ⟨hcapacity, ?_, ?_⟩
    · simp only [List.length_append, List.length_singleton]
      omega
    · simp only [h.held, List.tail_drop, List.drop_append_of_le_length hle]

/-- Reading is what the contract says. -/
theorem Holds.recv {c : Ring α} {past : List α} (h : Holds capacity (past ++ log) c) (n : Nat) :
    c.recv (past.length + n) =
      (told capacity log n, past.length + readTo capacity log n) := by
  have holdest := h.oldest
  rw [List.length_append] at holdest
  unfold Ring.recv told readTo
  by_cases hlag : n + capacity < log.length
  · rw [if_pos (by omega), if_pos hlag, if_pos hlag]
    exact Prod.ext (congrArg Reading.lagged (by omega)) (by simp only; omega)
  · have hget : c.held[past.length + n - c.oldest]? = log[n]? := by
      rw [h.held, List.getElem?_drop, Nat.add_sub_cancel' (by omega),
        List.getElem?_append_right (by omega), Nat.add_sub_cancel_left]
    rw [if_neg (by omega), if_neg hlag, if_neg hlag, hget]
    by_cases hlt : n < log.length
    · simp only [List.getElem?_eq_getElem hlt, if_pos hlt]
      rfl
    · simp only [List.getElem?_eq_none (Nat.not_lt.mp hlt), if_neg hlt]

theorem holds_of_made (hpos : 0 < capacity) {c : (rings α).Channel} (h : Made (rings α) capacity c) :
    ∃ log, Holds capacity log c := by
  induction h with
  | new => exact ⟨[], rfl, (Nat.zero_sub capacity).symm, rfl⟩
  | send _ a ih =>
    obtain ⟨log, hlog⟩ := ih
    exact ⟨log ++ [a], hlog.send hpos a⟩

/-- A receiver is where it has read to. -/
theorem holds_of_reads (hpos : 0 < capacity) {c : (rings α).Channel} {next : (rings α).Receiver}
    (h : Reads (rings α) capacity c next log n) :
    n ≤ log.length ∧ ∃ past, Holds capacity (past ++ log) c ∧ next = past.length + n := by
  induction h with
  | @subscribe c hmade =>
    obtain ⟨past, hpast⟩ := holds_of_made hpos hmade
    refine ⟨Nat.le_refl 0, past, by rwa [List.append_nil], ?_⟩
    have hlength := hpast.length_held
    have holdest := hpast.oldest
    show c.oldest + c.held.length = past.length + 0
    omega
  | send _ a ih =>
    obtain ⟨hn, past, hpast, hnext⟩ := ih
    refine ⟨by simp; omega, past, ?_, hnext⟩
    rw [← List.append_assoc]
    exact hpast.send hpos a
  | recv _ ih =>
    obtain ⟨hn, past, hpast, rfl⟩ := ih
    refine ⟨?_, past, hpast, ?_⟩
    · unfold readTo
      split
      · omega
      · split <;> omega
    · exact congrArg Prod.snd (hpast.recv _)

/-- **Rings are channels.** -/
theorem rings_lawful (α : Type u) (capacity : Nat) (hpos : 0 < capacity) :
    (rings α).Lawful capacity := by
  intro c next log n h
  obtain ⟨hn, past, hpast, rfl⟩ := holds_of_reads hpos h
  exact congrArg Prod.fst (hpast.recv _)

end DcsDashboard.Lib.Broadcast
