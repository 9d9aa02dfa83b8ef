import Mathlib.Data.List.Induction

/-!
# What has held since an event

In the history `l` of a system, the newest entry last, `Since P Q l` says that some entry had the
property `P` when it came in and that no later entry has the property `Q`.  `P` may look at the
history before its entry, so that one such formula can stand inside another.

* `Since.concat_iff` — what one more entry does to it;
* `latch`, `latch_iff` — a flag that one kind of entry sets and another kind clears.
-/

set_option autoImplicit false

namespace Sys

variable {α : Type*}

/-- An entry with `P` came in, and none with `Q` after it. -/
def Since (P : List α → α → Prop) (Q : α → Prop) (l : List α) : Prop :=
  ∃ before a after, l = before ++ a :: after ∧ P before a ∧ ∀ b ∈ after, ¬ Q b

namespace Since

variable {P : List α → α → Prop} {Q : α → Prop} {l : List α} {c : α}

@[simp] theorem nil_iff : Since P Q [] ↔ False := by
  refine iff_false_intro ?_
  rintro ⟨before, a, after, h, -⟩
  exact absurd h.symm (List.append_ne_nil_of_right_ne_nil _ (List.cons_ne_nil _ _))

/-- The newest entry starts the formula, or does not end it. -/
theorem concat_iff : Since P Q (l ++ [c]) ↔ P l c ∨ (¬ Q c ∧ Since P Q l) := by
  constructor
  · rintro ⟨before, a, after, h, hP, hQ⟩
    rcases List.eq_nil_or_concat after with rfl | ⟨after, b, rfl⟩
    · obtain ⟨rfl, hc⟩ := List.append_inj' h rfl
      cases hc
      exact .inl hP
    · rw [List.concat_eq_append, ← List.cons_append, ← List.append_assoc] at h
      obtain ⟨rfl, hc⟩ := List.append_inj' h rfl
      cases hc
      rw [List.concat_eq_append] at hQ
      exact .inr ⟨hQ c (by simp), before, a, after, rfl, hP, fun b hb => hQ b (by simp [hb])⟩
  · rintro (hP | ⟨hc, before, a, after, rfl, hP, hQ⟩)
    · exact ⟨l, c, [], rfl, hP, by simp⟩
    · refine ⟨before, a, after ++ [c], by simp, hP, fun b hb => ?_⟩
      rcases List.mem_append.mp hb with hb | hb
      · exact hQ b hb
      · rw [List.mem_singleton.mp hb]
        exact hc

end Since

/-- A flag: `set` raises it, `reset` lowers it, in this order. -/
def latch (set reset : α → Bool) (flag : Bool) (c : α) : Bool :=
  if reset c then false else if set c then true else flag

/-- **A latch remembers** whether it was set since it was last reset. -/
theorem latch_iff {set reset : α → Bool} (h : ∀ c, set c = true → reset c = false) (l : List α) :
    l.foldl (latch set reset) false = true ↔
      Since (fun _ c => set c = true) (fun c => reset c = true) l := by
  induction l using List.reverseRecOn with
  | nil => simp
  | append_singleton l c ih =>
    rw [List.foldl_append, List.foldl_cons, List.foldl_nil, Since.concat_iff, ← ih]
    unfold latch
    cases hr : reset c with
    | true =>
      have hs : ¬ set c = true := fun hs => by rw [h c hs] at hr; cases hr
      simp [hs]
    | false => cases hs : set c <;> simp

end Sys
