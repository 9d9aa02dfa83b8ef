import Mathlib.Data.List.Basic
import Mathlib.Logic.Function.Basic

/-!
# Ring buffers with one slot kept empty

A ring buffer is an array of `N` cells with two indices: values are taken at `pos` and stored at
`fin`, and the buffer is empty when the two agree.  Its contents are the cells from `pos` on, up to
`fin`, once around at most.

* `length_contents` — there are never more than `N - 1` values;
* `contents_eq_cons` — taking the value at `pos`;
* `contents_store`, `contents_extend` — the two halves of storing a value behind the others;
* `contents_eq_nil_iff`, `full_iff` — the two ends of the range.
-/

set_option autoImplicit false

namespace Sys.RingBuffer

variable {α : Type*} {N pos fin : Nat} {buff : Nat → α}

/-- The number of values in the buffer. -/
def length (N pos fin : Nat) : Nat := (fin + N - pos) % N

/-- The values in the buffer, the oldest first. -/
def contents (N : Nat) (buff : Nat → α) (pos fin : Nat) : List α :=
  (List.range (length N pos fin)).map fun i => buff ((pos + i) % N)

@[simp] theorem length_contents (N : Nat) (buff : Nat → α) (pos fin : Nat) :
    (contents N buff pos fin).length = length N pos fin := by
  simp [contents]

theorem length_lt (hN : 0 < N) : length N pos fin < N := Nat.mod_lt _ hN

/-- Without a wrap the difference of the indices, otherwise that and `N`. -/
theorem length_eq (hp : pos < N) (hf : fin < N) :
    length N pos fin = if pos ≤ fin then fin - pos else fin + N - pos := by
  unfold length
  split
  · rw [show fin + N - pos = fin - pos + N by omega, Nat.add_mod_right, Nat.mod_eq_of_lt (by omega)]
  · exact Nat.mod_eq_of_lt (by omega)

theorem length_eq_zero_iff (hp : pos < N) (hf : fin < N) : length N pos fin = 0 ↔ pos = fin := by
  rw [length_eq hp hf]
  split <;> omega

theorem contents_eq_nil_iff (hp : pos < N) (hf : fin < N) :
    contents N buff pos fin = [] ↔ pos = fin := by
  rw [← List.length_eq_zero_iff, length_contents, length_eq_zero_iff hp hf]

theorem succ_mod (hp : pos < N) : (pos + 1) % N = if pos + 1 = N then 0 else pos + 1 := by
  split
  · rename_i h
    rw [h, Nat.mod_self]
  · exact Nat.mod_eq_of_lt (by omega)

/-- The buffer is full when only the slot in front of `pos` is left. -/
theorem full_iff (hp : pos < N) (hf : fin < N) :
    length N pos fin = N - 1 ↔ pos = (fin + 1) % N := by
  rw [length_eq hp hf, succ_mod hf]
  split <;> split <;> omega

/-- **Taking** a value leaves the others. -/
theorem contents_eq_cons (hp : pos < N) (hf : fin < N) (hne : pos ≠ fin) :
    contents N buff pos fin = buff pos :: contents N buff ((pos + 1) % N) fin := by
  have hlen : length N pos fin = length N ((pos + 1) % N) fin + 1 := by
    have hnext : (pos + 1) % N < N := Nat.mod_lt _ (by omega)
    rw [length_eq hp hf, length_eq hnext hf, succ_mod hp]
    split <;> split <;> split <;> omega
  unfold contents
  rw [hlen, List.range_succ_eq_map, List.map_cons, Nat.add_zero, Nat.mod_eq_of_lt hp, List.map_map]
  refine congrArg _ (List.map_congr_left fun i _ => ?_)
  simp only [Function.comp_apply, Nat.mod_add_mod]
  congr 2
  omega

/-- The slot at `fin` is not part of the contents. -/
theorem contents_store (hp : pos < N) (hf : fin < N) (v : α) :
    contents N (Function.update buff fin v) pos fin = contents N buff pos fin := by
  refine List.map_congr_left fun i hi => Function.update_of_ne ?_ ..
  rw [List.mem_range, length_eq hp hf] at hi
  intro he
  by_cases hlt : pos + i < N
  · rw [Nat.mod_eq_of_lt hlt] at he
    split at hi <;> omega
  · rw [Nat.mod_eq_sub_mod (by omega), Nat.mod_eq_of_lt (by split at hi <;> omega)] at he
    split at hi <;> omega

/-- Moving `fin` on adds the value in its slot behind the others. -/
theorem contents_extend (hp : pos < N) (hf : fin < N) (hfull : pos ≠ (fin + 1) % N) :
    contents N buff pos ((fin + 1) % N) = contents N buff pos fin ++ [buff fin] := by
  have hnext : (fin + 1) % N < N := Nat.mod_lt _ (by omega)
  have hlen : length N pos ((fin + 1) % N) = length N pos fin + 1 := by
    rw [succ_mod hf] at hfull hnext ⊢
    rw [length_eq hp hf, length_eq hp hnext]
    by_cases hwrap : fin + 1 = N
    · rw [if_pos hwrap] at hfull ⊢
      split <;> split <;> omega
    · rw [if_neg hwrap] at hfull ⊢
      split <;> split <;> omega
  have hlast : (pos + length N pos fin) % N = fin := by
    rw [length_eq hp hf]
    split
    · rw [show pos + (fin - pos) = fin by omega, Nat.mod_eq_of_lt hf]
    · rw [show pos + (fin + N - pos) = fin + N by omega, Nat.add_mod_right, Nat.mod_eq_of_lt hf]
  unfold contents
  rw [hlen, List.range_succ, List.map_append, List.map_singleton, hlast]

end Sys.RingBuffer
