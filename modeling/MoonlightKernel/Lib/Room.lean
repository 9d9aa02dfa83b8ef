import Mathlib.Order.Lattice.Nat

/-!
# Room for a run of cells

A search for `n` consecutive free cells that goes down from a starting cell, counting the free
cells it has just passed, and then once more from the top down to where it started.

* `Rooms` — the cells at which `n` free cells between two bounds start;
* `Scan` — what a search that goes down knows, with one lemma for each of its moves;
* `Settles` — the place such a search settles on: the highest room below its start, or else the
  highest one above;
* `exists_settles` — it settles whenever there is a room on one side of its start.
-/

set_option autoImplicit false

namespace Sys

variable {free : Nat → Prop} {n lo hi s m : Nat}

/-- The cells at which `n` free cells start, none below `lo` and none from `hi` on. -/
def Rooms (free : Nat → Prop) (n lo hi : Nat) : Set Nat :=
  {a | 0 < n ∧ lo ≤ a ∧ a + n ≤ hi ∧ ∀ i < n, free (a + i)}

theorem Rooms.lower {lo' a : Nat} (h : a ∈ Rooms free n lo hi) (hlo : lo' ≤ lo) :
    a ∈ Rooms free n lo' hi :=
  ⟨h.1, hlo.trans h.2.1, h.2.2⟩

theorem rooms_self (free : Nat → Prop) (n lo : Nat) : Rooms free n lo lo = ∅ := by
  refine Set.eq_empty_of_forall_notMem fun a h => ?_
  obtain ⟨hn, hlo, hhi, -⟩ := h
  omega

/-- What a search that has come down from below `top` knows when cell `c` is next: the `find` cells
above are free, no more than these are in one run, and no room has been passed. -/
structure Scan (free : Nat → Prop) (n top c find : Nat) : Prop where
  run : ∀ i < find, free (c + 1 + i)
  fits : c + 1 + find ≤ top
  stop : c + 1 + find = top ∨ ¬ free (c + 1 + find)
  short : 0 < n → find < n
  none : Rooms free n (c + 1) top = ∅

namespace Scan

variable {top c find : Nat}

theorem start (free : Nat → Prop) (n c : Nat) : Scan free n (c + 1) c 0 where
  run := fun i hi => absurd hi (Nat.not_lt_zero i)
  fits := Nat.le_refl _
  stop := .inl rfl
  short := fun hn => hn
  none := rooms_self free n (c + 1)

/-- The last free cell of a run has come up. -/
theorem found (h : Scan free n top c find) (hc : free c) (hn : find + 1 = n) (hlo : lo ≤ c) :
    IsGreatest (Rooms free n lo top) c := by
  have hfits := h.fits
  refine ⟨⟨by omega, hlo, by omega, fun i hi => ?_⟩, fun a ha => ?_⟩
  · cases i with
    | zero => exact hc
    | succ i =>
      rw [Nat.add_comm i 1, ← Nat.add_assoc]
      exact h.run i (by omega)
  · by_contra hlt
    have hroom : a ∈ Rooms free n (c + 1) top := ⟨ha.1, by omega, ha.2.2⟩
    rw [h.none] at hroom
    exact hroom

/-- The cell is free, and the run is not long enough yet. -/
theorem down (h : Scan free n top (c + 1) find) (hc : free (c + 1)) (hn : find + 1 ≠ n) :
    Scan free n top c (find + 1) := by
  have hnext : c + 1 + (find + 1) = c + 1 + 1 + find := by omega
  refine ⟨fun i hi => ?_, hnext ▸ h.fits, hnext ▸ h.stop, fun hpos => ?_, ?_⟩
  · cases i with
    | zero => exact hc
    | succ i =>
      have hi' : c + 1 + (i + 1) = c + 1 + 1 + i := by omega
      rw [hi']
      exact h.run i (by omega)
  · have hshort := h.short hpos
    omega
  · refine Set.eq_empty_of_forall_notMem fun a ha => ?_
    obtain ⟨hpos, hlo, hhi, hfree⟩ := ha
    have hshort := h.short hpos
    by_cases ha : a = c + 1
    · -- the room would go on past the end of the run
      subst ha
      rcases h.stop with hstop | hstop
      · omega
      · refine hstop ?_
        rw [← hnext]
        exact hfree (find + 1) (by omega)
    · have hroom : a ∈ Rooms free n (c + 1 + 1) top := ⟨hpos, by omega, hhi, hfree⟩
      rw [h.none] at hroom
      exact hroom

/-- The cell is taken: no room reaches over it. -/
theorem reset (h : Scan free n top (c + 1) find) (hc : ¬ free (c + 1)) : Scan free n top c 0 := by
  have hfits := h.fits
  refine ⟨fun i hi => absurd hi (Nat.not_lt_zero i), by omega, .inr hc, fun hn => hn, ?_⟩
  refine Set.eq_empty_of_forall_notMem fun a ha => ?_
  obtain ⟨hpos, hlo, hhi, hfree⟩ := ha
  by_cases ha : a = c + 1
  · subst ha
    exact hc (hfree 0 hpos)
  · have hroom : a ∈ Rooms free n (c + 1 + 1) top := ⟨hpos, by omega, hhi, hfree⟩
    rw [h.none] at hroom
    exact hroom

end Scan

/-- The place that a search of the cells from 1 to `m` settles on which starts at cell `s`. -/
def Settles (free : Nat → Prop) (n s m a : Nat) : Prop :=
  IsGreatest (Rooms free n 1 (s + 1)) a ∨
    Rooms free n 1 (s + 1) = ∅ ∧ IsGreatest (Rooms free n (s + 1) (m + 1)) a

theorem Settles.mem {a : Nat} (h : Settles free n s m a) (hs : s ≤ m) :
    a ∈ Rooms free n 1 (m + 1) := by
  rcases h with h | ⟨-, h⟩
  · obtain ⟨hn, hlo, hhi, hfree⟩ := h.1
    exact ⟨hn, hlo, by omega, hfree⟩
  · exact Rooms.lower h.1 (by omega)

theorem Settles.unique {a b : Nat} (h : Settles free n s m a) (h' : Settles free n s m b) :
    a = b := by
  rcases h with h | ⟨hnone, h⟩
  · rcases h' with h' | ⟨hnone', -⟩
    · exact h.unique h'
    · rw [hnone'] at h
      exact absurd h.1 (Set.notMem_empty a)
  · rcases h' with h' | ⟨-, h'⟩
    · rw [hnone] at h'
      exact absurd h'.1 (Set.notMem_empty b)
    · exact h.unique h'

/-- A search settles as soon as there is a room on one side of the start. -/
theorem exists_settles {b : Nat}
    (h : b ∈ Rooms free n 1 (s + 1) ∨ b ∈ Rooms free n (s + 1) (m + 1)) :
    ∃ a, Settles free n s m a := by
  have hgreatest (lo hi : Nat) (hne : (Rooms free n lo hi).Nonempty) :
      ∃ a, IsGreatest (Rooms free n lo hi) a := by
    have hbdd : BddAbove (Rooms free n lo hi) := ⟨hi, fun a ha => by
      have hfits := ha.2.2.1
      omega⟩
    exact ⟨_, Nat.sSup_mem hne hbdd, fun a ha => le_csSup hbdd ha⟩
  by_cases hlow : (Rooms free n 1 (s + 1)).Nonempty
  · obtain ⟨a, ha⟩ := hgreatest _ _ hlow
    exact ⟨a, .inl ha⟩
  · have hempty := Set.not_nonempty_iff_eq_empty.mp hlow
    rcases h with h | h
    · exact absurd ⟨b, h⟩ hlow
    · obtain ⟨a, ha⟩ := hgreatest _ _ ⟨b, h⟩
      exact ⟨a, .inr ⟨hempty, ha⟩⟩

/-- Without a room on either side of the start there is no place to settle on. -/
theorem not_settles_of_empty {a : Nat} (h : Rooms free n 1 (s + 1) = ∅)
    (h' : Rooms free n (s + 1) (m + 1) = ∅) : ¬ Settles free n s m a := by
  rintro (hs | ⟨-, hs⟩)
  · rw [h] at hs
    exact hs.1
  · rw [h'] at hs
    exact hs.1

end Sys
