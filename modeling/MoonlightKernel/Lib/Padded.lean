import Mathlib.Data.List.Basic

/-!
# Texts in cleared buffers

A buffer of `n` cells that held the end mark `z` only and into which a text has been written from the
front: the text, then end marks.  Such a buffer ends its text by itself, so that a text may be
lengthened cell by cell and its length read back at any time.

* `putAt` — a store, `none` outside the buffer; `textLength` — the distance to the first end mark,
  `none` when there is none in the buffer;
* `padded` — the buffer with a text; `putAt_padded`, `putAt_end`, `textLength_padded` — what the two
  operations do to it.
-/

set_option autoImplicit false

namespace Sys

variable {α : Type*}

/-- A store into a buffer. -/
def putAt (buff : List α) (i : Nat) (c : α) : Option (List α) :=
  if i < buff.length then some (buff.set i c) else none

/-- The number of cells before the first end mark. -/
def textLength [DecidableEq α] (z : α) : List α → Option Nat
  | [] => none
  | c :: buff => if c = z then some 0 else (textLength z buff).map (· + 1)

/-- A buffer of `n` cells with the text `s`. -/
def padded (z : α) (n : Nat) (s : List α) : List α := s ++ List.replicate (n - s.length) z

variable {z : α} {n : Nat} {s : List α}

theorem padded_length (h : s.length ≤ n) : (padded z n s).length = n := by
  unfold padded
  rw [List.length_append, List.length_replicate]
  omega

/-- The cell after the text is an end mark. -/
theorem padded_of_lt (h : s.length < n) :
    padded z n s = s ++ z :: List.replicate (n - s.length - 1) z := by
  unfold padded
  rw [← List.replicate_succ, Nat.sub_add_cancel (by omega)]

/-- **A text grows** by a store after its end. -/
theorem putAt_padded (h : s.length < n) (c : α) :
    putAt (padded z n s) s.length c = some (padded z n (s ++ [c])) := by
  unfold putAt
  rw [if_pos (by rwa [padded_length (Nat.le_of_lt h)]), padded_of_lt h,
    List.set_append_right _ _ (Nat.le_refl _), Nat.sub_self, List.set_cons_zero]
  unfold padded
  rw [List.length_append, List.length_singleton, Nat.sub_add_eq, List.append_assoc,
    List.singleton_append]

/-- The end mark is there already. -/
theorem putAt_end (h : s.length < n) : putAt (padded z n s) s.length z = some (padded z n s) := by
  unfold putAt
  rw [if_pos (by rwa [padded_length (Nat.le_of_lt h)]), padded_of_lt h,
    List.set_append_right _ _ (Nat.le_refl _), Nat.sub_self, List.set_cons_zero]

theorem textLength_append [DecidableEq α] (hs : z ∉ s) (rest : List α) :
    textLength z (s ++ z :: rest) = some s.length := by
  induction s with
  | nil => exact if_pos rfl
  | cons c s ih =>
    have hc : c ≠ z := fun hc => hs (hc ▸ List.mem_cons_self)
    rw [List.cons_append, textLength, if_neg hc, ih fun h => hs (List.mem_cons_of_mem c h)]
    rfl

/-- **The length of a text** is read back. -/
theorem textLength_padded [DecidableEq α] (h : s.length < n) (hs : z ∉ s) :
    textLength z (padded z n s) = some s.length := by
  rw [padded_of_lt h, textLength_append hs]

end Sys
