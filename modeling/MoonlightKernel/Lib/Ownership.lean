import Mathlib.Logic.Basic

/-!
# Exclusive ownership

A pool of resources, some of which are free, and holders that have taken others from it.
`Exclusive free holds` says that no free resource is held and none is held twice.  One rule covers
whatever a holder does that concerns only what is free and what it holds itself:

* `Exclusive.nobody` — the start, `Exclusive.exchange` — a holder takes free resources, gives its
  own back, or loses either;
* `Circulates` — a resource is free or held, `Circulates.exchange` — an exchange brings none in.
-/

set_option autoImplicit false

namespace Sys

variable {ο ρ : Type*}

/-- The resource is free or held: it may be handed out, now or later. -/
def Circulates (free : ρ → Prop) (holds : ο → ρ → Prop) (r : ρ) : Prop := free r ∨ ∃ o, holds o r

/-- **An exchange brings nothing in.** -/
theorem Circulates.exchange {free free' : ρ → Prop} {holds holds' : ο → ρ → Prop} (a : ο)
    (hothers : ∀ o r, o ≠ a → holds' o r → holds o r)
    (hself : ∀ r, holds' a r → holds a r ∨ free r)
    (hfree : ∀ r, free' r → free r ∨ holds a r) {r : ρ} (h : Circulates free' holds' r) :
    Circulates free holds r := by
  rcases h with hr | ⟨o, ho⟩
  · exact (hfree r hr).imp_right fun ha => ⟨a, ha⟩
  by_cases hoa : o = a
  · subst hoa
    rcases hself r ho with hold | hr
    · exact .inr ⟨o, hold⟩
    · exact .inl hr
  · exact .inr ⟨o, hothers o r hoa ho⟩

/-- No holder has a free resource, and no two holders have the same one. -/
structure Exclusive (free : ρ → Prop) (holds : ο → ρ → Prop) : Prop where
  taken : ∀ {o r}, holds o r → ¬ free r
  sole : ∀ {o o' r}, holds o r → holds o' r → o = o'

namespace Exclusive

variable {free free' : ρ → Prop} {holds holds' : ο → ρ → Prop}

/-- Nobody holds anything. -/
theorem nobody (h : ∀ o r, ¬ holds o r) : Exclusive free holds :=
  ⟨fun hr _ => h _ _ hr, fun hr _ => absurd hr (h _ _)⟩

/-- **Exchange rule.**  What the holder `a` has gained was free, and what has become free was its
own and is so no longer; the other holders have gained nothing. -/
theorem exchange (h : Exclusive free holds) (a : ο)
    (hothers : ∀ o r, o ≠ a → holds' o r → holds o r)
    (hself : ∀ r, holds' a r → holds a r ∨ free r)
    (hfree : ∀ r, free' r → free r ∨ holds a r)
    (hkept : ∀ r, holds' a r → ¬ free' r) : Exclusive free' holds' := by
  have hno : ∀ o r, o ≠ a → holds' o r → ¬ holds' a r := fun o r hne hr ha => by
    have hold := hothers o r hne hr
    rcases hself r ha with hs | hf
    · exact hne (h.sole hold hs)
    · exact h.taken hold hf
  constructor
  · intro o r hr hf
    by_cases ho : o = a
    · exact hkept r (ho ▸ hr) hf
    · have hold := hothers o r ho hr
      rcases hfree r hf with hfr | hs
      · exact h.taken hold hfr
      · exact ho (h.sole hold hs)
  · intro o o' r hr hr'
    by_cases ho : o = a
    · by_cases ho' : o' = a
      · rw [ho, ho']
      · exact absurd (ho ▸ hr) (hno o' r ho' hr')
    · by_cases ho' : o' = a
      · exact absurd (ho' ▸ hr') (hno o r ho hr)
      · exact h.sole (hothers o r ho hr) (hothers o' r ho' hr')

end Exclusive

end Sys
