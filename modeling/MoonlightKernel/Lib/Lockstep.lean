import Mathlib.Data.Option.Basic

/-!
# Two runs in lockstep

A deterministic system: an operation gives a result and a state, or fails.  Two of its runs go in
lockstep through a relation of states when related states give the same results and related states.

* `results` — the results of a sequence of operations, and the last state;
* `Guarded` — every operation of the run is allowed in the state where it comes;
* `results_rel` — related states give the same results along a guarded run.
-/

set_option autoImplicit false

namespace Sys

variable {σ α ρ : Type*}

/-- The results of the operations, one after the other, and the state that they leave. -/
def results (step : α → σ → Option (ρ × σ)) : List α → σ → Option (List ρ × σ)
  | [], s => some ([], s)
  | a :: as, s => (step a s).bind fun r =>
      (results step as r.2).map fun rest => (r.1 :: rest.1, rest.2)

/-- Each operation is allowed in the state that it starts from. -/
def Guarded (step : α → σ → Option (ρ × σ)) (guard : α → σ → Prop) : List α → σ → Prop
  | [], _ => True
  | a :: as, s => guard a s ∧ ∀ r ∈ step a s, Guarded step guard as r.2

variable {step : α → σ → Option (ρ × σ)} {guard : α → σ → Prop} {R : σ → σ → Prop}

/-- Both have a value, and these are related, or none has. -/
theorem rel_iff {β γ : Type*} {r : β → γ → Prop} {x : Option β} {y : Option γ} :
    Option.Rel r x y ↔ (x = none ∧ y = none) ∨ ∃ a b, x = some a ∧ y = some b ∧ r a b := by
  cases x <;> cases y <;> simp

/-- **Lockstep**: what one operation keeps, a run keeps. -/
theorem results_rel
    (hstep : ∀ a s t, R s t → guard a s →
      Option.Rel (fun x y => x.1 = y.1 ∧ R x.2 y.2) (step a s) (step a t))
    {as : List α} {s t : σ} (h : R s t) (hguard : Guarded step guard as s) :
    Option.Rel (fun x y => x.1 = y.1 ∧ R x.2 y.2) (results step as s) (results step as t) := by
  induction as generalizing s t with
  | nil => exact .some ⟨rfl, h⟩
  | cons a as ih =>
    obtain ⟨ha, has⟩ := hguard
    unfold results
    rcases rel_iff.mp (hstep a s t h ha) with ⟨hs, ht⟩ | ⟨x, y, hs, ht, hresult, hrel⟩
    · rw [hs, ht]
      exact .none
    · rw [hs, ht, Option.bind_some, Option.bind_some]
      rcases rel_iff.mp (ih hrel (has x hs)) with ⟨hx, hy⟩ | ⟨u, v, hx, hy, hlist, hlast⟩
      · rw [hx, hy]
        exact .none
      · rw [hx, hy]
        exact .some ⟨congrArg₂ List.cons hresult hlist, hlast⟩

end Sys
