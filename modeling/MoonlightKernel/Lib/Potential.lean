import MoonlightKernel.Lib.Run

/-!
# Runs that pay for their steps

* `Run.charged` — steps of one kind are paid out of a potential, into which steps of another kind
  pay;
* `Run.good_or` — every state of a run is good, or the run comes to one that is not.
-/

set_option autoImplicit false

namespace Sys.Run

variable {σ α : Type*} {step : σ → α → σ → Prop}

/-- **Potential rule.**  `Φ n s` bounds how many steps that cost can follow on `s` when `n` steps that
pay are among them. -/
theorem charged (Inv : σ → Prop) (cost gain : α → Bool) (Φ : Nat → σ → Nat)
    (hinv : ∀ s a t, Inv s → step s a t → Inv t)
    (hstep : ∀ n s a t, Inv s → step s a t → (cost a).toNat + Φ n t ≤ Φ (n + (gain a).toNat) s)
    {s t : σ} {as : List α} (h : Run step s as t) (hs : Inv s) :
    as.countP cost + Φ 0 t ≤ Φ (as.countP gain) s := by
  have hcons : ∀ (b : α → Bool) (a : α) (as : List α),
      (a :: as).countP b = as.countP b + (b a).toNat := fun b a as => by
    rw [List.countP_cons]
    cases b a <;> rfl
  induction h with
  | nil s => exact Nat.le_of_eq (Nat.zero_add _)
  | @cons s t _ a as ha _ ih =>
    have hrest := ih (hinv _ _ _ hs ha)
    have hfirst := hstep (as.countP gain) s a t hs ha
    rw [hcons, hcons]
    omega

/-- The states after the first one are good, or the run passes one that is not. -/
theorem good_or (good : σ → Prop) {s t : σ} {as : List α} (h : Run step s as t) :
    Run (fun s a t => step s a t ∧ good t) s as t ∨
      ∃ bs u cs, as = bs ++ cs ∧ Run step s bs u ∧ Run step u cs t ∧ ¬ good u := by
  induction h with
  | nil s => exact .inl (.nil s)
  | @cons s t _ a as ha hrest ih =>
    by_cases hg : good t
    · refine ih.imp (.cons ⟨ha, hg⟩) ?_
      rintro ⟨bs, u, cs, rfl, hbefore, hafter, hno⟩
      exact ⟨a :: bs, u, cs, rfl, .cons ha hbefore, hafter, hno⟩
    · exact .inr ⟨[a], t, as, rfl, .single ha, hrest, hg⟩

end Sys.Run
