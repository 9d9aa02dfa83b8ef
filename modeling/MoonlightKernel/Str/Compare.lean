import MoonlightKernel.Str.Sort

/-!
# Comparing a number of characters: `lib/str/strncmp.c`

* `strncmp` — the function; `none` is a read behind a buffer;
* `strncmp_spec` — the sign of the difference orders the first characters of two strings;
* `strncmp_prefix` — a comparison over the length of one string tells whether the other begins with
  it.
-/

set_option autoImplicit false

namespace Moonlight

open Sys

/-- `strncmp`. -/
def strncmp : List UInt8 → List UInt8 → Nat → Option Int
  | _, _, 0 => some 0
  | c :: s1, d :: s2, n + 1 =>
    if c ≠ 0 ∧ d ≠ 0 ∧ c = d then strncmp s1 s2 n else some ((c.toNat : Int) - d.toNat)
  | _, _, _ + 1 => none

section compare

variable {s t : List UInt8}

theorem text_cons (c : UInt8) (s : List UInt8) :
    text (c :: s) = if c = 0 then [] else c.toNat :: text s := by
  unfold text
  by_cases hc : c = 0
  · rw [List.takeWhile_cons_of_neg (by simpa using hc), if_pos hc, List.map_nil]
  · rw [List.takeWhile_cons_of_pos (by simpa using hc), if_neg hc, List.map_cons]

/-- The text of a string, with whatever is behind its end. -/
theorem text_append (hs : 0 ∉ s) (rest : List UInt8) :
    text (s ++ 0 :: rest) = s.map UInt8.toNat := by
  induction s with
  | nil => rfl
  | cons c s ih =>
    obtain ⟨hc, hs⟩ := not_or.mp (mt List.mem_cons.mpr hs)
    rw [List.cons_append, text_cons, if_neg (Ne.symm hc), ih hs, List.map_cons]

theorem uint8_pos {c : UInt8} (hc : c ≠ 0) : 0 < c.toNat :=
  Nat.pos_of_ne_zero fun h => hc (UInt8.toNat_inj.mp h)

/-- **`strncmp`** is positive exactly when the first characters of the second string come first, and
zero exactly when they are those of the first string. -/
theorem strncmp_spec (hs : 0 ∈ s) (ht : 0 ∈ t) (n : Nat) :
    ∃ c, strncmp s t n = some c ∧ (0 < c ↔ (text t).take n < (text s).take n) ∧
      (c = 0 ↔ (text s).take n = (text t).take n) := by
  induction n generalizing s t with
  | zero =>
    refine ⟨0, by unfold strncmp; rfl, iff_of_false (lt_irrefl _) ?_, iff_of_true rfl rfl⟩
    rw [List.take_zero, List.take_zero]
    exact List.not_lt_nil []
  | succ n ih =>
    cases s with
    | nil => exact absurd hs List.not_mem_nil
    | cons c s =>
      cases t with
      | nil => exact absurd ht List.not_mem_nil
      | cons d t =>
        rw [strncmp, text_cons, text_cons]
        by_cases hgo : c ≠ 0 ∧ d ≠ 0 ∧ c = d
        · obtain ⟨hc, hd, rfl⟩ := hgo
          obtain ⟨r, hr, hsign, hzero⟩ := ih ((List.mem_cons.mp hs).resolve_left (Ne.symm hc))
            ((List.mem_cons.mp ht).resolve_left (Ne.symm hc))
          refine ⟨r, (if_pos ⟨hc, hd, rfl⟩).trans hr, ?_, ?_⟩
          · rw [if_neg hc, if_neg hc, List.take_succ_cons, List.take_succ_cons, hsign,
              List.cons_lt_cons_iff]
            exact ⟨fun h => .inr ⟨rfl, h⟩, fun h => h.elim (absurd · (lt_irrefl _)) And.right⟩
          · rw [if_neg hc, if_neg hc, List.take_succ_cons, List.take_succ_cons, hzero,
              List.cons_inj_right]
        · refine ⟨_, if_neg hgo, ?_⟩
          by_cases hc : c = 0
          · subst hc
            rw [if_pos rfl, UInt8.toNat_zero]
            by_cases hd : d = 0
            · subst hd
              simp
            · have hpos := uint8_pos hd
              rw [if_neg hd, List.take_succ_cons]
              refine ⟨iff_of_false (by omega) (List.not_lt_nil _), ?_⟩
              rw [List.take_nil]
              exact iff_of_false (by omega) (List.cons_ne_nil _ _).symm
          · have hcpos := uint8_pos hc
            rw [if_neg hc, List.take_succ_cons]
            by_cases hd : d = 0
            · subst hd
              rw [if_pos rfl, UInt8.toNat_zero, List.take_nil]
              exact ⟨iff_of_true (by omega) (List.nil_lt_cons _ _),
                iff_of_false (by omega) (List.cons_ne_nil _ _)⟩
            · have hne : c.toNat ≠ d.toNat := fun h => hgo ⟨hc, hd, UInt8.toNat_inj.mp h⟩
              rw [if_neg hd, List.take_succ_cons, List.cons_lt_cons_iff]
              refine ⟨⟨fun h => .inl (by omega), fun h => ?_⟩, iff_of_false (by omega) fun h => ?_⟩
              · rcases h with h | h
                · omega
                · exact absurd h.1.symm hne
              · exact hne (List.cons.inj h).1

/-- **The second string begins with the first one**, exactly when a comparison over its length finds
no difference. -/
theorem strncmp_prefix (hs : 0 ∉ s) (ht : 0 ∉ t) (rest rest' : List UInt8) :
    ∃ c, strncmp (s ++ 0 :: rest) (t ++ 0 :: rest') s.length = some c ∧ (c = 0 ↔ s <+: t) := by
  obtain ⟨c, hc, -, hzero⟩ := strncmp_spec (s := s ++ 0 :: rest) (t := t ++ 0 :: rest')
    (by simp) (by simp) s.length
  refine ⟨c, hc, hzero.trans ?_⟩
  rw [text_append hs, text_append ht, ← List.map_take, ← List.map_take, List.take_length,
    List.prefix_iff_eq_take]
  exact List.map_inj_right fun _ _ => UInt8.toNat_inj.mp

end compare

end Moonlight
