import MoonlightKernel.Lib.SwapSort
import Mathlib.Tactic.Ring

/-!
# Sorting strings: `lib/str/strcmp.c`, `lib/sstr/sstrsort.c`

`sstrsort` goes through an array of pointers that a null pointer ends, swaps the first two
neighbours that are in the wrong order, and starts again.  The strings are not written.

* `strcmp`, `sstrsort` — the functions; `none` is a read behind a buffer, or that the steps ran out;
* `strcmp_spec` — the sign of the difference orders strings as rows of characters;
* `sstrsortLoop_sorts` — the loop ends: a swap takes an inversion away, a pass moves the index;
* `sstrsort_sorts` — the whole function.
-/

set_option autoImplicit false

namespace Moonlight

open Sys

/-- `strcmp`. -/
def strcmp : List UInt8 → List UInt8 → Option Int
  | c :: s1, d :: s2 =>
    if c ≠ 0 ∧ d ≠ 0 ∧ c = d then strcmp s1 s2 else some ((c.toNat : Int) - d.toNat)
  | _, _ => none

/-- The loop of `sstrsort`, for some number of steps. -/
def sstrsortLoop (cmp : Nat → Nat → Option Int) : Nat → Nat → List Nat → Option (List Nat)
  | 0, _, _ => none
  | steps + 1, i, list => do
    let p ← list[i]?
    if p = 0 then return list
    else
      let q ← list[i + 1]?
      if q = 0 then return list
      else
        let c ← cmp p q
        if 0 < c then sstrsortLoop cmp steps 0 ((list.set i q).set (i + 1) p)
        else sstrsortLoop cmp steps (i + 1) list

/-- `sstrsort`. -/
def sstrsort (cmp : Nat → Nat → Option Int) (steps : Nat) (list : List Nat) : Option (List Nat) :=
  sstrsortLoop cmp steps 0 list

/-! ## The order -/

/-- The characters of a string, as numbers. -/
def text (s : List UInt8) : List Nat := (s.takeWhile (· ≠ 0)).map UInt8.toNat

/-- **`strcmp`** is positive exactly when the second string comes first. -/
theorem strcmp_spec {s t : List UInt8} (hs : 0 ∈ s) (ht : 0 ∈ t) :
    ∃ c, strcmp s t = some c ∧ (0 < c ↔ text t < text s) := by
  induction s generalizing t with
  | nil => exact absurd hs List.not_mem_nil
  | cons c s ih =>
    cases t with
    | nil => exact absurd ht List.not_mem_nil
    | cons d t =>
      have hcons : ∀ (e : UInt8) (u : List UInt8),
          text (e :: u) = if e = 0 then [] else e.toNat :: text u := by
        intro e u
        unfold text
        by_cases he : e = 0
        · rw [List.takeWhile_cons_of_neg (by simpa using he), if_pos he, List.map_nil]
        · rw [List.takeWhile_cons_of_pos (by simpa using he), if_neg he, List.map_cons]
      have hzero : ∀ e : UInt8, e ≠ 0 → 0 < e.toNat := fun e he =>
        Nat.pos_of_ne_zero fun h => he (UInt8.toNat_inj.mp h)
      rw [strcmp, hcons, hcons]
      by_cases hgo : c ≠ 0 ∧ d ≠ 0 ∧ c = d
      · obtain ⟨hc, hd, rfl⟩ := hgo
        obtain ⟨r, hr, hsign⟩ := ih ((List.mem_cons.mp hs).resolve_left (Ne.symm hc))
          ((List.mem_cons.mp ht).resolve_left (Ne.symm hc))
        refine ⟨r, (if_pos ⟨hc, hd, rfl⟩).trans hr, ?_⟩
        rw [if_neg hc, if_neg hc, List.cons_lt_cons_iff, hsign]
        exact ⟨fun h => .inr ⟨rfl, h⟩, fun h => h.elim (fun h => absurd h (lt_irrefl _)) And.right⟩
      · refine ⟨_, if_neg hgo, ?_⟩
        by_cases hc : c = 0
        · subst hc
          rw [if_pos rfl]
          refine iff_of_false (by rw [UInt8.toNat_zero]; omega) (List.not_lt_nil _)
        · rw [if_neg hc]
          by_cases hd : d = 0
          · subst hd
            rw [if_pos rfl]
            have := hzero c hc
            exact iff_of_true (by rw [UInt8.toNat_zero]; omega) (List.nil_lt_cons _ _)
          · have hne : c.toNat ≠ d.toNat := fun h => hgo ⟨hc, hd, UInt8.toNat_inj.mp h⟩
            rw [if_neg hd, List.cons_lt_cons_iff]
            constructor
            · intro h
              exact .inl (by omega)
            · rintro (h | h)
              · omega
              · exact absurd h.1.symm hne

/-! ## The loop -/

section steps

variable {cmp : Nat → Nat → Option Int} {steps : Nat} {front back : List Nat} {p q : Nat}

/-- At the end of the array. -/
theorem sstrsortLoop_end :
    sstrsortLoop cmp (steps + 1) front.length (front ++ 0 :: back) = some (front ++ 0 :: back) := by
  simp [sstrsortLoop]

/-- At the last pointer. -/
theorem sstrsortLoop_last : sstrsortLoop cmp (steps + 1) front.length (front ++ p :: 0 :: back) =
    some (front ++ p :: 0 :: back) := by
  simp [sstrsortLoop]

/-- **One step** at two neighbours: they are swapped, or passed. -/
theorem sstrsortLoop_step (cmp : Nat → Nat → Option Int) (front back : List Nat) {c : Int}
    (hp : p ≠ 0) (hq : q ≠ 0) (hc : cmp p q = some c) (steps : Nat) :
    sstrsortLoop cmp (steps + 1) front.length (front ++ p :: q :: back) =
      if 0 < c then sstrsortLoop cmp steps 0 (front ++ q :: p :: back)
      else sstrsortLoop cmp steps (front ++ [p]).length (front ++ [p] ++ q :: back) := by
  have hfirst : (front ++ p :: q :: back)[front.length]? = some p := by simp
  have hsecond : (front ++ p :: q :: back)[front.length + 1]? = some q := by simp
  have hswap : ((front ++ p :: q :: back).set front.length q).set (front.length + 1) p =
      front ++ q :: p :: back := by
    rw [List.set_append_right _ _ (Nat.le_refl _), Nat.sub_self, List.set_cons_zero,
      List.set_append_right _ _ (Nat.le_add_right _ 1), Nat.add_sub_cancel_left, List.set_cons_succ,
      List.set_cons_zero]
  rw [sstrsortLoop, hfirst]
  simp only [bind, Option.bind_some, pure, if_neg hp, if_neg hq, hsecond, hc, hswap,
    List.length_append, List.length_singleton, List.append_assoc, List.singleton_append]

end steps

section sorts

variable {mem : Nat → List UInt8}

/-- A pointer to a string: `mem` is what is read from an address on. -/
def PointsToString (mem : Nat → List UInt8) (p : Nat) : Prop := p ≠ 0 ∧ 0 ∈ mem p

/-- The strings at two pointers are in order, as `cmp` sees them. -/
def InOrder (mem : Nat → List UInt8) (p q : Nat) : Prop :=
  ∃ c, strcmp (mem p) (mem q) = some c ∧ c ≤ 0

theorem isChain_take_one (l : List Nat) : (l.take 1).IsChain (InOrder mem) := by
  cases l with
  | nil => exact .nil
  | cons p l => exact .singleton p

/-- **The loop ends, and sorts**: in front of the index everything is in order, a swap takes an
inversion away, and a pass leaves less behind the index. -/
theorem sstrsortLoop_sorts (rest : List Nat) (n : Nat) (front back : List Nat)
    (hptr : ∀ p ∈ front ++ back, PointsToString mem p)
    (horder : (front ++ back.take 1).IsChain (InOrder mem))
    (hn : inversions (text ∘ mem) (front ++ back) * ((front ++ back).length + 1) + back.length ≤ n) :
    ∃ sorted, Rearranges (text ∘ mem) (front ++ back) sorted ∧ sorted.IsChain (InOrder mem) ∧
      ∀ steps ≥ n, sstrsortLoop (fun p q => strcmp (mem p) (mem q)) (steps + 1) front.length
        (front ++ (back ++ 0 :: rest)) = some (sorted ++ 0 :: rest) := by
  induction n using Nat.strong_induction_on generalizing front back with
  | _ n ih =>
    match back with
    | [] =>
      rw [List.take_nil, List.append_nil] at horder
      rw [List.append_nil]
      exact ⟨front, Rearranges.refl, horder, fun steps _ => sstrsortLoop_end⟩
    | [p] =>
      refine ⟨front ++ [p], Rearranges.refl, horder, fun steps _ => ?_⟩
      rw [List.append_assoc]
      exact sstrsortLoop_last
    | p :: q :: back =>
      obtain ⟨hp, hmp⟩ := hptr p (by simp)
      obtain ⟨hq, hmq⟩ := hptr q (by simp)
      obtain ⟨c, hc, hsign⟩ := strcmp_spec hmp hmq
      obtain ⟨m, rfl⟩ : ∃ m, n = m + 1 := ⟨n - 1, by rw [List.length_cons] at hn; omega⟩
      have hstep := sstrsortLoop_step (fun p q => strcmp (mem p) (mem q)) front (back ++ 0 :: rest)
        hp hq hc
      by_cases hgt : 0 < c
      · have hswap : Swap (text ∘ mem) (front ++ p :: q :: back) (front ++ q :: p :: back) :=
          .swap front back (hsign.mp hgt)
        have hperm := hswap.rearranges.perm
        rw [hswap.inversions, ← hperm.length_eq, Nat.add_mul] at hn
        obtain ⟨sorted, hre, hchain, hloop⟩ := ih m (Nat.lt_succ_self m) []
          (front ++ q :: p :: back) (fun r hr => hptr r (hperm.mem_iff.mp hr))
          (by rw [List.nil_append]; exact isChain_take_one _)
          (by rw [List.nil_append]; omega)
        refine ⟨sorted, hswap.rearranges.trans hre, hchain, fun steps hsteps => ?_⟩
        obtain ⟨k, rfl⟩ := Nat.exists_eq_add_of_le' hsteps
        have hrun := hloop (k + m) (Nat.le_add_left m k)
        rw [List.nil_append, List.append_assoc] at hrun
        exact ((hstep _).trans (if_pos hgt)).trans hrun
      · have hpass : InOrder mem p q := ⟨c, hc, not_lt.mp hgt⟩
        have hsplit : front ++ p :: q :: back = front ++ [p] ++ q :: back := by simp
        rw [hsplit] at hptr hn ⊢
        obtain ⟨sorted, hre, hchain, hloop⟩ := ih m (Nat.lt_succ_self m) (front ++ [p]) (q :: back)
          hptr (by
            rw [List.take_succ_cons, List.take_zero, List.append_assoc, List.singleton_append]
            exact List.isChain_append_cons_cons.mpr ⟨horder, hpass, .singleton q⟩)
          (by rw [List.length_cons] at hn; omega)
        refine ⟨sorted, hre, hchain, fun steps hsteps => ?_⟩
        obtain ⟨k, rfl⟩ := Nat.exists_eq_add_of_le' hsteps
        exact ((hstep _).trans (if_neg hgt)).trans (hloop (k + m) (Nat.le_add_left m k))

end sorts

/-- **`sstrsort` sorts and stops**, for every array of pointers to strings and what is behind it: the
same pointers are left, every two neighbours in order, and those of equal strings as they were. -/
theorem sstrsort_sorts (mem : Nat → List UInt8) (list rest : List Nat)
    (hptr : ∀ p ∈ list, PointsToString mem p) :
    ∃ sorted : List Nat,
      (∃ n, ∀ steps ≥ n, sstrsort (fun p q => strcmp (mem p) (mem q)) steps (list ++ 0 :: rest) =
        some (sorted ++ 0 :: rest)) ∧
      sorted.Perm list ∧ sorted.IsChain (InOrder mem) ∧
      ∀ s, sorted.filter (fun p => text (mem p) = s) = list.filter (fun p => text (mem p) = s) := by
  obtain ⟨n, hn⟩ : ∃ n, inversions (text ∘ mem) list * (list.length + 1) + list.length = n :=
    ⟨_, rfl⟩
  obtain ⟨sorted, hre, hchain, hloop⟩ := sstrsortLoop_sorts rest n [] list hptr
    (isChain_take_one list) hn.le
  refine ⟨sorted, ⟨n + 1, fun steps hsteps => ?_⟩, hre.perm, hchain, hre.stable⟩
  obtain ⟨k, rfl⟩ := Nat.exists_eq_add_of_le' hsteps
  exact hloop (k + n) (Nat.le_add_left n k)

/-- `"b"`, `"a"` and another `"b"`. -/
theorem sstrsort_sorts_three : ∃ sorted : List Nat,
    (∃ n, ∀ steps ≥ n, sstrsort (fun p q => strcmp (if p = 2 then [97, 0] else [98, 0])
      (if q = 2 then [97, 0] else [98, 0])) steps [1, 2, 3, 0] = some (sorted ++ [0])) ∧
    sorted.Perm [1, 2, 3] := by
  obtain ⟨sorted, hrun, hperm, -⟩ := sstrsort_sorts (fun p => if p = 2 then [97, 0] else [98, 0])
    [1, 2, 3] [] (by
      intro p hp
      rcases List.mem_cons.mp hp with rfl | hp
      · exact ⟨by decide, by decide⟩
      rcases List.mem_cons.mp hp with rfl | hp
      · exact ⟨by decide, by decide⟩
      rw [List.mem_singleton.mp hp]
      exact ⟨by decide, by decide⟩)
  exact ⟨sorted, hrun, hperm⟩

example : sstrsort (fun p q => strcmp (if p = 2 then [97, 0] else [98, 0])
    (if q = 2 then [97, 0] else [98, 0])) 4 [1, 2, 3, 0] = some [2, 1, 3, 0] := by decide

end Moonlight
