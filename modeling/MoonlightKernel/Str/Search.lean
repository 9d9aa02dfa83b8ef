import MoonlightKernel.Lib.Padded
import Mathlib.Data.List.Infix

/-!
# Searching in a string: `lib/str/strlen.c`, `lib/str/strstr.c`, `lib/str/strnstr.c`

Both searches try the positions of the long string one after the other, and compare character by
character at each.  A pointer into a string is the rest of its buffer; a read behind the buffer is
`none`, and a null pointer that is returned is an inner `none`.

* `matchLoop`, `searchLoop` — the two loops, with what `strnstr` tests in addition;
* `matchLoop_spec`, `searchLoop_spec` — what they find;
* `strstr_first`, `strnstr_first` — the first occurrence;
* `search_agrees_iff` — both at once, and that they agree: everywhere but for two empty strings.
-/

set_option autoImplicit false

namespace Moonlight

open Sys

/-! ## The functions -/

/-- `strlen`. -/
def strlen (s : List UInt8) : Option Nat := textLength 0 s

/-- The loop over `j`: `more` is the test of `i + j` that `strnstr` has. -/
def matchLoop (more : Nat → Bool) (i : Nat) : List UInt8 → List UInt8 → Nat → Option Nat
  | [], _, _ => none
  | c :: big, little, j =>
    if c = 0 then some j
    else match little with
      | [] => none
      | d :: little =>
        if d ≠ 0 ∧ c = d ∧ more (i + j) then matchLoop more i big little (j + 1) else some j

/-- The loop over `i`: `accept` is the test of `j` that `strnstr` has. -/
def searchLoop (more accept : Nat → Bool) (little : List UInt8) :
    List UInt8 → Nat → Option (Option Nat)
  | [], _ => none
  | c :: big, i =>
    if c = 0 then some none
    else do
      let j ← matchLoop more i (c :: big) little 0
      let d ← little[j]?
      if d = 0 ∨ accept j then return some i else searchLoop more accept little big (i + 1)

/-- `strstr`: the offset of the pointer that it returns. -/
def strstr (big little : List UInt8) : Option (Option Nat) := do
  let n ← strlen little
  if n = 0 then return some 0
  else searchLoop (fun _ => true) (fun _ => false) little big 0

/-- `strnstr`: the offset of the pointer that it returns. -/
def strnstr (big little : List UInt8) (len : Nat) : Option (Option Nat) := do
  let c ← big[0]?
  let n ← strlen little
  if c ≠ 0 ∧ n = 0 then return some 0
  else if len < n then return none
  else searchLoop (fun k => k < len) (fun j => j = len) little big 0

/-! ## The first occurrence -/

/-- The place of `t` in `s`. -/
def OccursAt (t s : List UInt8) (i : Nat) : Prop := i ≤ s.length ∧ t <+: s.drop i

/-- The first place with a property, or the news that there is none. -/
def IsFirst (P : Nat → Prop) : Option Nat → Prop
  | some i => P i ∧ ∀ k < i, ¬ P k
  | none => ∀ i, ¬ P i

theorem IsFirst.unique {P : Nat → Prop} {o o' : Option Nat} (h : IsFirst P o) (h' : IsFirst P o') :
    o = o' := by
  cases o with
  | none =>
    cases o' with
    | none => rfl
    | some i' => exact absurd h'.1 (h i')
  | some i =>
    cases o' with
    | none => exact absurd h.1 (h' i)
    | some i' =>
      rcases lt_trichotomy i i' with hlt | heq | hlt
      · exact absurd h.1 (h'.2 i hlt)
      · exact congrArg some heq
      · exact absurd h'.1 (h.2 i' hlt)

theorem IsFirst.congr {P Q : Nat → Prop} {o : Option Nat} (h : IsFirst P o) (heq : ∀ i, P i ↔ Q i) :
    IsFirst Q o := by
  rwa [← show P = Q from funext fun i => propext (heq i)]

/-- A place further on, when the first one has not got the property. -/
theorem IsFirst.succ {P : Nat → Prop} {o : Option Nat} (h0 : ¬ P 0)
    (h : IsFirst (fun i => P (i + 1)) o) : IsFirst P (o.map (· + 1)) := by
  cases o with
  | none =>
    intro i
    cases i with
    | zero => exact h0
    | succ i => exact h i
  | some n =>
    refine ⟨h.1, fun i hi => ?_⟩
    cases i with
    | zero => exact h0
    | succ i => exact h.2 i (Nat.lt_of_succ_lt_succ hi)

/-! ## The loops -/

section loops

variable {s t : List UInt8} (rest rest' : List UInt8) (more : Nat → Bool)

/-- **The comparison** at a place stops inside the short string, and at its end exactly when it is
there and all its places may be looked at. -/
theorem matchLoop_spec (hs : 0 ∉ s) (ht : 0 ∉ t) (i j : Nat) :
    ∃ n ≤ t.length, matchLoop more i (s ++ 0 :: rest) (t ++ 0 :: rest') j = some (j + n) ∧
      (n = t.length ↔ t <+: s ∧ ∀ k < t.length, more (i + (j + k))) := by
  induction s generalizing t j with
  | nil =>
    refine ⟨0, Nat.zero_le _, if_pos rfl, ?_⟩
    rw [List.prefix_nil]
    constructor
    · intro h
      have hnil := List.eq_nil_of_length_eq_zero h.symm
      subst hnil
      exact ⟨rfl, fun k hk => absurd hk (Nat.not_lt_zero k)⟩
    · rintro ⟨rfl, -⟩
      rfl
  | cons c s ih =>
    have hc : c ≠ 0 := fun h => hs (h ▸ List.mem_cons_self)
    rw [List.cons_append, matchLoop.eq_def]
    dsimp only
    rw [if_neg hc]
    cases t with
    | nil =>
      refine ⟨0, Nat.zero_le _, ?_, ?_⟩
      · exact if_neg fun h => h.1 rfl
      · exact iff_of_true rfl ⟨List.nil_prefix, fun k hk => absurd hk (Nat.not_lt_zero k)⟩
    | cons d t =>
      have hd : d ≠ 0 := fun h => ht (h ▸ List.mem_cons_self)
      rw [List.cons_append]
      dsimp only
      by_cases hgo : c = d ∧ more (i + j) = true
      · obtain ⟨n, hn, hloop, hend⟩ := ih (fun h => hs (List.mem_cons_of_mem c h))
          (fun h => ht (List.mem_cons_of_mem d h)) (j + 1)
        refine ⟨n + 1, by rw [List.length_cons]; omega, ?_, ?_⟩
        · rw [if_pos ⟨hd, hgo⟩, hloop]
          congr 1
          omega
        · rw [List.length_cons, Nat.add_right_cancel_iff, hend, List.cons_prefix_cons]
          constructor
          · rintro ⟨hpre, hmore⟩
            refine ⟨⟨hgo.1.symm, hpre⟩, fun k hk => ?_⟩
            cases k with
            | zero => exact hgo.2
            | succ k =>
              rw [show j + (k + 1) = j + 1 + k by omega]
              exact hmore k (by omega)
          · rintro ⟨⟨-, hpre⟩, hmore⟩
            refine ⟨hpre, fun k hk => ?_⟩
            rw [show j + 1 + k = j + (k + 1) by omega]
            exact hmore (k + 1) (by omega)
      · refine ⟨0, Nat.zero_le _, if_neg fun h => hgo h.2, ?_⟩
        refine iff_of_false (by rw [List.length_cons]; omega) ?_
        rintro ⟨hpre, hmore⟩
        rw [List.cons_prefix_cons] at hpre
        exact hgo ⟨hpre.1.symm, hmore 0 (by rw [List.length_cons]; omega)⟩

/-- The characters up to the end of a string: the end mark is the last one. -/
theorem exists_char_upto (ht : 0 ∉ t) {n : Nat} (hn : n ≤ t.length) :
    ∃ d, (t ++ 0 :: rest')[n]? = some d ∧ (d = 0 ↔ n = t.length) := by
  rcases Nat.lt_or_eq_of_le hn with hlt | rfl
  · refine ⟨t[n], ?_, iff_of_false (fun h => ht (h ▸ List.getElem_mem hlt)) (Nat.ne_of_lt hlt)⟩
    rw [List.getElem?_append_left hlt, List.getElem?_eq_getElem hlt]
  · refine ⟨0, ?_, iff_of_true rfl rfl⟩
    rw [List.getElem?_append_right (Nat.le_refl _), Nat.sub_self, List.getElem?_cons_zero]

/-- **The search** finds the first place where the comparison gets to the end. -/
theorem searchLoop_spec (accept : Nat → Bool) (hs : 0 ∉ s) (ht : 0 ∉ t) (hne : t ≠ [])
    (haccept : ∀ n ≤ t.length, accept n = true → n = t.length) (i : Nat) :
    ∃ o, searchLoop more accept (t ++ 0 :: rest') (s ++ 0 :: rest) i = some (o.map (i + ·)) ∧
      IsFirst (fun k => t <+: s.drop k ∧ ∀ m < t.length, more (i + k + m)) o := by
  induction s generalizing i with
  | nil =>
    refine ⟨none, if_pos rfl, fun k hk => hne ?_⟩
    have hpre : t <+: [].drop k := hk.1
    rwa [List.drop_nil, List.prefix_nil] at hpre
  | cons c s ih =>
    have hc : c ≠ 0 := fun h => hs (h ▸ List.mem_cons_self)
    obtain ⟨n, hn, hloop, hend⟩ := matchLoop_spec rest rest' more hs ht i 0
    obtain ⟨d, hd, hzero⟩ := exists_char_upto rest' ht hn
    simp only [Nat.zero_add] at hloop hend
    rw [List.cons_append] at hloop
    rw [List.cons_append, searchLoop, if_neg hc, hloop]
    simp only [bind, Option.bind_some, pure, hd]
    by_cases heq : n = t.length
    · rw [if_pos (.inl (hzero.mpr heq))]
      exact ⟨some 0, rfl, hend.mp heq, fun k hk => absurd hk (Nat.not_lt_zero k)⟩
    · obtain ⟨o, hrest, hfirst⟩ := ih (fun h => hs (List.mem_cons_of_mem c h)) (i + 1)
      have hgo : ¬ (d = 0 ∨ accept n = true) := fun h =>
        heq (h.elim hzero.mp (haccept n hn))
      rw [if_neg hgo]
      refine ⟨o.map (· + 1), ?_, IsFirst.succ (fun h => heq (hend.mpr h)) (hfirst.congr fun k => ?_)⟩
      · rw [hrest, Option.map_map]
        congr 2
        funext k
        exact (Nat.add_right_comm i 1 k).trans (Nat.add_assoc i k 1)
      · rw [List.drop_succ_cons]
        simp only [show i + 1 + k = i + (k + 1) by omega]

end loops

/-! ## The functions -/

section functions

variable {s t : List UInt8} (rest rest' : List UInt8)

/-- A string that is not empty ends inside the one that it occurs in. -/
theorem occursAt_iff (hne : t ≠ []) {i : Nat} : OccursAt t s i ↔ t <+: s.drop i := by
  refine ⟨fun h => h.2, fun h => ⟨?_, h⟩⟩
  have hlen := h.length_le
  have hpos := List.length_pos_of_ne_nil hne
  rw [List.length_drop] at hlen
  omega

/-- An occurrence among the first characters. -/
theorem occursAt_take_iff (hne : t ≠ []) {len i : Nat} :
    OccursAt t (s.take len) i ↔ t <+: s.drop i ∧ ∀ m < t.length, i + m < len := by
  have hpos := List.length_pos_of_ne_nil hne
  rw [occursAt_iff hne, List.drop_take, List.prefix_take_iff]
  refine and_congr_right fun _ => ⟨fun h m hm => by omega, fun h => ?_⟩
  have := h (t.length - 1) (by omega)
  omega

theorem occursAt_nil_zero : IsFirst (OccursAt [] s) (some 0) :=
  ⟨⟨Nat.zero_le _, List.nil_prefix⟩, fun k hk => absurd hk (Nat.not_lt_zero k)⟩

/-- **`strstr`** returns the first occurrence. -/
theorem strstr_first (hs : 0 ∉ s) (ht : 0 ∉ t) :
    ∃ o, strstr (s ++ 0 :: rest) (t ++ 0 :: rest') = some o ∧ IsFirst (OccursAt t s) o := by
  unfold strstr strlen
  rw [textLength_append ht]
  simp only [bind, Option.bind_some, pure]
  by_cases hne : t = []
  · subst hne
    exact ⟨some 0, if_pos rfl, occursAt_nil_zero⟩
  · rw [if_neg fun h => hne (List.eq_nil_of_length_eq_zero h)]
    obtain ⟨o, hloop, hfirst⟩ := searchLoop_spec rest rest' (fun _ => true)
      (fun _ => false) hs ht hne (fun n _ h => absurd h Bool.false_ne_true) 0
    refine ⟨o, ?_, hfirst.congr fun i => ?_⟩
    · rw [hloop]
      congr 1
      simp
    · rw [occursAt_iff hne]
      exact and_iff_left fun _ _ => rfl

/-- **`strnstr`** returns the first occurrence among the first characters, unless both strings are
empty. -/
theorem strnstr_first (hs : 0 ∉ s) (ht : 0 ∉ t) (len : Nat) (hne : ¬ (s = [] ∧ t = [])) :
    ∃ o, strnstr (s ++ 0 :: rest) (t ++ 0 :: rest') len = some o ∧
      IsFirst (OccursAt t (s.take len)) o := by
  obtain ⟨c, hc, hzero⟩ := exists_char_upto rest hs (Nat.zero_le s.length)
  unfold strnstr strlen
  rw [textLength_append ht, hc]
  simp only [bind, Option.bind_some, pure]
  by_cases ht0 : t = []
  · subst ht0
    have hc0 : c ≠ 0 := fun h => hne ⟨List.eq_nil_of_length_eq_zero (hzero.mp h).symm, rfl⟩
    exact ⟨some 0, if_pos ⟨hc0, rfl⟩, occursAt_nil_zero⟩
  · rw [if_neg fun h => ht0 (List.eq_nil_of_length_eq_zero h.2)]
    by_cases hlen : len < t.length
    · refine ⟨none, if_pos hlen, fun i hi => ?_⟩
      have := ((occursAt_take_iff ht0).mp hi).2 (t.length - 1)
      omega
    · rw [if_neg hlen]
      obtain ⟨o, hloop, hfirst⟩ := searchLoop_spec rest rest' (fun k => k < len)
        (fun j => j = len) hs ht ht0 (fun n hn h => by have := of_decide_eq_true h; omega) 0
      refine ⟨o, ?_, hfirst.congr fun i => ?_⟩
      · rw [hloop]
        congr 1
        simp
      · rw [occursAt_take_iff ht0]
        simp only [Nat.zero_add, decide_eq_true_eq]

/-- In two empty strings no place is tried. -/
theorem strnstr_empty (len : Nat) : strnstr (0 :: rest) (0 :: rest') len = some none := rfl

end functions

/-- **Both searches return the first occurrence, and agree** when the bound is no shorter than the
string, exactly when the strings are not both empty. -/
theorem search_agrees_iff (s t rest rest' : List UInt8) (hs : 0 ∉ s) (ht : 0 ∉ t) (len : Nat) :
    ((∃ o, strstr (s ++ 0 :: rest) (t ++ 0 :: rest') = some o ∧ IsFirst (OccursAt t s) o) ∧
      (∃ o, strnstr (s ++ 0 :: rest) (t ++ 0 :: rest') len = some o ∧
        IsFirst (OccursAt t (s.take len)) o) ∧
      (s.length ≤ len → strnstr (s ++ 0 :: rest) (t ++ 0 :: rest') len =
        strstr (s ++ 0 :: rest) (t ++ 0 :: rest'))) ↔ ¬ (s = [] ∧ t = []) := by
  constructor
  · rintro ⟨-, ⟨o, hsearch, hfirst⟩, -⟩ ⟨rfl, rfl⟩
    rw [List.nil_append, List.nil_append, strnstr_empty] at hsearch
    cases hsearch
    exact hfirst 0 occursAt_nil_zero.1
  · intro hne
    obtain ⟨o, hstr, hfirst⟩ := strstr_first rest rest' hs ht
    obtain ⟨o', hstrn, hfirst'⟩ := strnstr_first rest rest' hs ht len hne
    refine ⟨⟨o, hstr, hfirst⟩, ⟨o', hstrn, hfirst'⟩, fun hlen => ?_⟩
    rw [List.take_of_length_le hlen] at hfirst'
    rw [hstr, hstrn, hfirst'.unique hfirst]

/-- `"aab"` in `"aaab"`, cut after three characters and not cut. -/
theorem search_agrees_overlap :
    (∃ o, strnstr [97, 97, 97, 98, 0] [97, 97, 98, 0] 3 = some o ∧
      IsFirst (OccursAt [97, 97, 98] [97, 97, 97]) o) ∧
    strnstr [97, 97, 97, 98, 0] [97, 97, 98, 0] 4 = strstr [97, 97, 97, 98, 0] [97, 97, 98, 0] :=
  ⟨((search_agrees_iff [97, 97, 97, 98] [97, 97, 98] [] [] (by decide) (by decide) 3).mpr
      (by decide)).2.1,
    ((search_agrees_iff [97, 97, 97, 98] [97, 97, 98] [] [] (by decide) (by decide) 4).mpr
      (by decide)).2.2 (by decide)⟩

/-- The empty string in the empty string: `strstr` finds it, and `strnstr` does not. -/
theorem empty_not_found : OccursAt [] (List.take 1 []) 0 ∧ strstr [0] [0] = some (some 0) ∧
    strnstr [0] [0] 1 = some none :=
  ⟨⟨Nat.zero_le _, List.nil_prefix⟩, rfl, rfl⟩

end Moonlight
