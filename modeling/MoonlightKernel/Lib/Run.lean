import Mathlib.Logic.Relation

/-!
# Runs of a labelled transition relation

A system is a relation `step : σ → α → σ → Prop`.  `Run step s as t` is a finite sequence of
steps from `s` to `t` with labels `as`.  The file has the rules that the run proofs of the development
go through:

* `Run.invariant` — what one step preserves, a run preserves;
* `Run.avoids` — what rules a label out, and is kept by each step, keeps the label out of the run;
* `Run.guard_or` — a run meets a guard at every step, or there is a first step that does not;
* `Run.guard_or_spoiled` — when a step off the guard spoils the state for good, a run meets the
  guard or ends in a spoiled state;
* `Run.simulates` — a system whose steps are matched by runs of another one is matched in its runs.
-/

set_option autoImplicit false

namespace Sys

variable {σ τ α β : Type*}

/-- Finite runs, with the list of their labels. -/
inductive Run (step : σ → α → σ → Prop) : σ → List α → σ → Prop
  | nil (s : σ) : Run step s [] s
  | cons {s t u : σ} {a : α} {as : List α} :
      step s a t → Run step t as u → Run step s (a :: as) u

namespace Run

variable {step : σ → α → σ → Prop}

theorem single {s t : σ} {a : α} (h : step s a t) : Run step s [a] t := .cons h (.nil t)

theorem append {s t u : σ} {as bs : List α} (h : Run step s as t) (h' : Run step t bs u) :
    Run step s (as ++ bs) u := by
  induction h with
  | nil => exact h'
  | cons hs _ ih => exact .cons hs (ih h')

/-- A run of a finer system is one of the coarser. -/
theorem imp {step' : σ → α → σ → Prop} (hst : ∀ s a t, step s a t → step' s a t) {s t : σ}
    {as : List α} (h : Run step s as t) : Run step' s as t := by
  induction h with
  | nil => exact .nil _
  | cons hs _ ih => exact .cons (hst _ _ _ hs) ih

/-- **Invariant rule.** -/
theorem invariant (Inv : σ → Prop) (hstep : ∀ s a t, Inv s → step s a t → Inv t)
    {s t : σ} {as : List α} (h : Run step s as t) (hs : Inv s) : Inv t := by
  induction h with
  | nil => exact hs
  | cons ha _ ih => exact ih (hstep _ _ _ hs ha)

/-- **Avoidance rule.**  In a run whose labels are all allowed, no label is bad. -/
theorem avoids (Inv : σ → Prop) (allowed bad : α → Prop)
    (hstep : ∀ s a t, Inv s → step s a t → allowed a → ¬ bad a ∧ Inv t)
    {s t : σ} {as : List α} (h : Run step s as t) (hall : ∀ a ∈ as, allowed a) (hs : Inv s) :
    (∀ a ∈ as, ¬ bad a) ∧ Inv t := by
  induction h with
  | nil => exact ⟨fun a ha => absurd ha List.not_mem_nil, hs⟩
  | cons ha _ ih =>
    obtain ⟨hgood, ht⟩ := hstep _ _ _ hs ha (hall _ List.mem_cons_self)
    obtain ⟨hrest, hend⟩ := ih (fun c hc => hall c (List.mem_cons_of_mem _ hc)) ht
    refine ⟨fun b hb => ?_, hend⟩
    rcases List.mem_cons.mp hb with rfl | hb
    · exact hgood
    · exact hrest b hb

/-- **Guard rule.**  Every step of a run meets the guard, or the run has a first step that does
not. -/
theorem guard_or (guard : σ → α → Prop) {s t : σ} {as : List α} (h : Run step s as t) :
    Run (fun s a t => step s a t ∧ guard s a) s as t ∨
      ∃ u a v bs cs, Run (fun s a t => step s a t ∧ guard s a) s bs u ∧ step u a v ∧
        ¬ guard u a ∧ Run step v cs t := by
  induction h with
  | nil s => exact .inl (.nil s)
  | @cons s t u a as hs hrest ih =>
    by_cases hg : guard s a
    · refine ih.imp (.cons ⟨hs, hg⟩) ?_
      rintro ⟨u, b, v, bs, cs, h1, h2⟩
      exact ⟨u, b, v, a :: bs, cs, .cons ⟨hs, hg⟩ h1, h2⟩
    · exact .inr ⟨s, a, t, [], as, .nil s, hs, hg, hrest⟩

/-- **Spoiling rule.**  Steps that meet the guard keep the state good, the others spoil it, and no
step repairs it. -/
theorem guard_or_spoiled (guard : σ → α → Prop) (good bad : σ → Prop)
    (hkeep : ∀ s a t, good s → step s a t → guard s a → good t)
    (hspoil : ∀ s a t, good s → step s a t → ¬ guard s a → bad t)
    (hstay : ∀ s a t, bad s → step s a t → bad t) {s t : σ} {as : List α} (h : Run step s as t)
    (hs : good s) : (Run (fun s a t => step s a t ∧ guard s a) s as t ∧ good t) ∨ bad t := by
  rcases h.guard_or guard with hg | ⟨u, a, v, bs, cs, hbefore, hstep, hno, hafter⟩
  · exact .inl ⟨hg, hg.invariant good (fun s a t hs ha => hkeep s a t hs ha.1 ha.2) hs⟩
  · have hu := hbefore.invariant good (fun s a t hs ha => hkeep s a t hs ha.1 ha.2) hs
    exact .inr (hafter.invariant bad hstay (hspoil u a v hu hstep hno))

/-- **Simulation rule.**  Related states stay related, and the two runs show the same. -/
theorem simulates {γ : Type*} {step' : τ → β → τ → Prop} (shown : α → List γ)
    (shown' : β → List γ) (R : σ → τ → Prop)
    (hstep : ∀ s a t u, R s u → step s a t →
      ∃ bs v, Run step' u bs v ∧ R t v ∧ bs.flatMap shown' = shown a)
    {s t : σ} {as : List α} {u : τ} (h : Run step s as t) (hu : R s u) :
    ∃ bs v, Run step' u bs v ∧ R t v ∧ bs.flatMap shown' = as.flatMap shown := by
  induction h generalizing u with
  | nil s => exact ⟨[], u, .nil u, hu, rfl⟩
  | @cons s t _ a as ha _ ih =>
    obtain ⟨bs, v, hrun, hv, hshow⟩ := hstep s a t u hu ha
    obtain ⟨cs, w, hrest, hw, hshow'⟩ := ih hv
    refine ⟨bs ++ cs, w, hrun.append hrest, hw, ?_⟩
    rw [List.flatMap_append, List.flatMap_cons, hshow, hshow']

end Run

end Sys
