import Mathlib.Data.List.Lex
import Mathlib.Data.List.Chain
import Mathlib.Data.List.Perm.Basic
import Mathlib.Order.Lattice

/-!
# Sorting by swaps of neighbours

A list whose elements have keys in a linear order, and neighbours that are swapped when their keys
are in the wrong order.  Each swap takes away one inversion, so that no run of swaps is longer than
the number of inversions, and no swap moves two elements of the same key past each other.

* `Rearranges` — the same elements, those of each key in the same order;
* `Swap` — one swap; `inversions` — the pairs in the wrong order; `Swap.inversions`;
* `Swap.rearranges` — a swap rearranges.
-/

set_option autoImplicit false

namespace Sys

variable {α L : Type*}

/-- The elements of the one list in another order, where those of the same key keep theirs. -/
structure Rearranges [DecidableEq L] (key : α → L) (l l' : List α) : Prop where
  perm : l'.Perm l
  stable : ∀ k, l'.filter (fun a => key a = k) = l.filter (fun a => key a = k)

namespace Rearranges

variable [DecidableEq L] {key : α → L} {l l' l'' : List α}

theorem refl : Rearranges key l l := ⟨List.Perm.refl l, fun _ => rfl⟩

theorem trans (h : Rearranges key l l') (h' : Rearranges key l' l'') : Rearranges key l l'' :=
  ⟨h'.perm.trans h.perm, fun k => (h'.stable k).trans (h.stable k)⟩

end Rearranges

variable [LinearOrder L] (key : α → L)

/-- One swap of neighbours in the wrong order. -/
inductive Swap : List α → List α → Prop
  | swap (front : List α) {a b : α} (back : List α) (h : key b < key a) :
      Swap (front ++ a :: b :: back) (front ++ b :: a :: back)

/-- The number of pairs in the wrong order. -/
def inversions : List α → Nat
  | [] => 0
  | a :: l => l.countP (fun b => key b < key a) + inversions l

variable {key} {l l' : List α}

/-- **A swap takes away one inversion.** -/
theorem Swap.inversions (h : Swap key l l') :
    Sys.inversions key l = Sys.inversions key l' + 1 := by
  cases h with
  | @swap front a b back h =>
    induction front with
    | nil =>
      have hno : ¬ key a < key b := not_lt_of_gt h
      rw [List.nil_append, List.nil_append, Sys.inversions, Sys.inversions, Sys.inversions,
        Sys.inversions, List.countP_cons, List.countP_cons, if_pos (decide_eq_true h),
        if_neg fun h => hno (of_decide_eq_true h)]
      omega
    | cons c front ih =>
      have hcount : (front ++ a :: b :: back).countP (fun e => key e < key c) =
          (front ++ b :: a :: back).countP (fun e => key e < key c) :=
        ((List.Perm.swap b a back).append_left front).countP_eq _
      rw [List.cons_append, List.cons_append, Sys.inversions, Sys.inversions, hcount, ih]
      rfl

/-- **A swap rearranges**: its two elements have different keys. -/
theorem Swap.rearranges [DecidableEq L] (h : Swap key l l') : Rearranges key l l' := by
  cases h with
  | @swap front a b back h =>
    refine ⟨(List.Perm.swap a b back).append_left front, fun k => ?_⟩
    simp only [List.filter_append, List.filter_cons, decide_eq_true_eq]
    by_cases ha : key a = k
    · have hb : key b ≠ k := fun hb => absurd h (by rw [ha, hb]; exact lt_irrefl k)
      rw [if_neg hb, if_pos ha, if_neg hb, if_pos ha]
    · rw [if_neg ha, if_neg ha]

end Sys
