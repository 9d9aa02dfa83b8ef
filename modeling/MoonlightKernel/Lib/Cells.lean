import Mathlib.Logic.Function.Basic

/-!
# Arrays with a record of their stores

An array of which nothing is assumed about its bounds: a function from indices to values, with the
list of the indices that were stored into.  That a program stays inside its array is then a
statement about the list.

* `storeRange` — a loop that stores a value of its own at each index of a range;
* `Within` — every index stored into is below a bound;
* `copyForward`, `copyBackward` — loops that copy cell by cell; `copyForward_val` and
  `copyBackward_val` say on which side of the source an overlapping target may lie.
-/

set_option autoImplicit false

namespace Sys

variable {α : Type*}

/-- An array and the indices stored into, the last one first. -/
structure Cells (α : Type*) where
  val : Nat → α
  written : List Nat

namespace Cells

/-- Stores `v` at `i`. -/
def store (a : Cells α) (i : Nat) (v : α) : Cells α := ⟨Function.update a.val i v, i :: a.written⟩

/-- `for k < n: a[base + k] = v (base + k)`. -/
def storeRange (base : Nat) (v : Nat → α) : Nat → Cells α → Cells α
  | 0, a => a
  | n + 1, a => (storeRange base v n a).store (base + n) (v (base + n))

/-- `for k < n: a[dst + k] = a[src + k]`. -/
def copyForward (dst src : Nat) : Nat → Cells α → Cells α
  | 0, a => a
  | n + 1, a =>
    let b := copyForward dst src n a
    b.store (dst + n) (b.val (src + n))

/-- `for k = n - 1, …, 0: a[dst + k] = a[src + k]`. -/
def copyBackward (dst src : Nat) : Nat → Cells α → Cells α
  | 0, a => a
  | n + 1, a => copyBackward dst src n (a.store (dst + n) (a.val (src + n)))

@[simp] theorem store_written (a : Cells α) (i : Nat) (v : α) :
    (a.store i v).written = i :: a.written := rfl

theorem store_val (a : Cells α) (i : Nat) (v : α) (j : Nat) :
    (a.store i v).val j = if j = i then v else a.val j := Function.update_apply ..

@[simp] theorem store_val_self (a : Cells α) (i : Nat) (v : α) : (a.store i v).val i = v :=
  Function.update_self ..

theorem storeRange_val (base : Nat) (v : Nat → α) (n : Nat) (a : Cells α) (j : Nat) :
    (storeRange base v n a).val j = if base ≤ j ∧ j < base + n then v j else a.val j := by
  induction n with
  | zero => rw [storeRange, if_neg (by omega)]
  | succ n ih =>
    rw [storeRange, store_val, ih]
    by_cases hlast : j = base + n
    · rw [if_pos hlast, if_pos (by omega), hlast]
    · rw [if_neg hlast]
      by_cases hin : base ≤ j ∧ j < base + n
      · rw [if_pos hin, if_pos (by omega)]
      · rw [if_neg hin, if_neg (by omega)]

theorem mem_storeRange_written (base : Nat) (v : Nat → α) (n : Nat) (a : Cells α) (i : Nat) :
    i ∈ (storeRange base v n a).written ↔ (base ≤ i ∧ i < base + n) ∨ i ∈ a.written := by
  induction n with
  | zero =>
    rw [storeRange]
    exact ⟨.inr, fun h => h.resolve_left (by omega)⟩
  | succ n ih =>
    rw [storeRange, store_written, List.mem_cons, ih, ← or_assoc]
    refine or_congr_left ?_
    omega

/-- **Copying forward** moves the source, as it was, to a target that does not lie behind it. -/
theorem copyForward_val {dst src : Nat} (h : dst ≤ src) (n : Nat) (a : Cells α) (j : Nat) :
    (copyForward dst src n a).val j =
      if dst ≤ j ∧ j < dst + n then a.val (src + (j - dst)) else a.val j := by
  induction n generalizing j with
  | zero => rw [copyForward, if_neg (by omega)]
  | succ n ih =>
    simp only [copyForward]
    rw [store_val, ih, ih]
    by_cases hlast : j = dst + n
    · -- the cell that the source gives has not been overwritten yet
      rw [if_pos hlast, if_neg (by omega), if_pos (by omega), hlast, Nat.add_sub_cancel_left]
    · rw [if_neg hlast]
      by_cases hin : dst ≤ j ∧ j < dst + n
      · rw [if_pos hin, if_pos (by omega)]
      · rw [if_neg hin, if_neg (by omega)]

/-- **Copying backward** moves the source, as it was, to a target that does not lie in front of it. -/
theorem copyBackward_val {dst src : Nat} (h : src ≤ dst) (n : Nat) (a : Cells α) (j : Nat) :
    (copyBackward dst src n a).val j =
      if dst ≤ j ∧ j < dst + n then a.val (src + (j - dst)) else a.val j := by
  induction n generalizing a with
  | zero => rw [copyBackward, if_neg (by omega)]
  | succ n ih =>
    rw [copyBackward, ih, store_val, store_val]
    by_cases hlast : j = dst + n
    · rw [if_neg (by omega), if_pos hlast, if_pos (by omega), hlast, Nat.add_sub_cancel_left]
    · rw [if_neg hlast]
      by_cases hin : dst ≤ j ∧ j < dst + n
      · -- the cell that was stored into first is behind all that are read now
        rw [if_pos hin, if_neg (by omega), if_pos (by omega)]
      · rw [if_neg hin, if_neg (by omega)]

theorem mem_copyForward_written (dst src n : Nat) (a : Cells α) (i : Nat) :
    i ∈ (copyForward dst src n a).written ↔ (dst ≤ i ∧ i < dst + n) ∨ i ∈ a.written := by
  induction n with
  | zero =>
    rw [copyForward]
    exact ⟨.inr, fun h => h.resolve_left (by omega)⟩
  | succ n ih =>
    simp only [copyForward]
    rw [store_written, List.mem_cons, ih, ← or_assoc]
    refine or_congr_left ?_
    omega

/-- Every index stored into is below `n`. -/
def Within (n : Nat) (a : Cells α) : Prop := ∀ i ∈ a.written, i < n

theorem Within.store {n : Nat} {a : Cells α} (h : a.Within n) {i : Nat} (hi : i < n) (v : α) :
    (a.store i v).Within n := by
  intro k hk
  rw [store_written, List.mem_cons] at hk
  rcases hk with rfl | hk
  · exact hi
  · exact h k hk

theorem Within.storeRange {n : Nat} {a : Cells α} (h : a.Within n) {base m : Nat}
    (hm : base + m ≤ n) (v : Nat → α) : (Cells.storeRange base v m a).Within n := by
  intro k hk
  rw [mem_storeRange_written] at hk
  rcases hk with hk | hk
  · omega
  · exact h k hk

theorem Within.copyForward {n : Nat} {a : Cells α} (h : a.Within n) {dst m : Nat}
    (hm : dst + m ≤ n) (src : Nat) : (Cells.copyForward dst src m a).Within n := by
  intro k hk
  rw [mem_copyForward_written] at hk
  rcases hk with hk | hk
  · omega
  · exact h k hk

end Cells

end Sys
