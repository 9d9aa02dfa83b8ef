import MoonlightKernel.Ledger

/-!
# A run of pages is mapped

`page_map_range` with `PAGE_PRESENT`, when it succeeds: the pages of the run translate to the
frames of the run, and every page outside whose table was there keeps its translation.

* `RunMapped`, `RunMapped.cons` — the effect on a run, and how it is made of single pages;
* `pageMapRange_mapped` — a successful `page_map_range` has it;
* `pageMapRange_aligned` — the arguments of a successful call are aligned.
-/

set_option autoImplicit false

namespace Moonlight

open Sys

/-- What `m'` is after the `n` pages from `va` on have been mapped in `m`, the `i`-th to the
address `pa i`. -/
structure RunMapped (L : Layout) (m : Machine) (va : Nat) (pa : Nat → Nat) (n : Nat)
    (m' : Machine) : Prop where
  view : ∀ i < n, entryView (slot L m' (va + i * 4096)) = some (pa i)
  others : ∀ v, PageDir (dirIndex v) → ¬ InPages va n v → HasTable m (dirIndex v) →
    entryView (slot L m' v) = entryView (slot L m v)
  dir : ∀ d, HasTable m d → m'.pageDirectory d = m.pageDirectory d

theorem RunMapped.nil (L : Layout) (m : Machine) (va : Nat) (pa : Nat → Nat) :
    RunMapped L m va pa 0 m :=
  ⟨fun i hi => absurd hi (Nat.not_lt_zero i), fun _ _ _ _ => rfl, fun _ _ => rfl⟩

theorem RunMapped.cons {L : Layout} {m m₁ m' : Machine} {va n : Nat} {pa : Nat → Nat}
    (hva : PageDir (dirIndex va)) (h₁ : Mapped L m va (pa 0) m₁)
    (h : RunMapped L m₁ (va + 4096) (fun i => pa (i + 1)) n m') :
    RunMapped L m va pa (n + 1) m' := by
  have hkeep : ∀ d, HasTable m d → m₁.pageDirectory d = m.pageDirectory d :=
    fun d hd => h₁.dir d (.inr hd)
  have htab : ∀ d, HasTable m d → HasTable m₁ d := fun d hd => (hasTable_congr (hkeep d hd)).mpr hd
  refine ⟨fun i hi => ?_, fun v hv hout ht => ?_, fun d hd => ?_⟩
  · cases i with
    | zero =>
      have hout : ¬ InPages (va + 4096) n va := by
        unfold InPages
        omega
      rw [Nat.zero_mul, Nat.add_zero, h.others va hva hout h₁.hasTable]
      exact h₁.view
    | succ i =>
      have hnext : va + (i + 1) * 4096 = va + 4096 + i * 4096 := by omega
      rw [hnext]
      exact h.view i (by omega)
  · rw [inPages_succ, not_or] at hout
    rw [h.others v hv hout.2 (htab _ ht), h₁.others v hv hout.1 ht]
  · rw [h.dir d (htab d hd), hkeep d hd]

section mapped

variable {L : Layout} {pa va flag : Nat}

theorem pageMapLoop_mapped (hflag : flag &&& PAGE_PRESENT ≠ 0) (n : Nat) :
    ∀ {i : Nat} {m : Machine}, PagingOk L m →
      (∀ w, InPages (va + i * 4096) n w → PageDir (dirIndex w)) →
      (pageMapLoop L pa va flag n i m).1 = 0 →
        RunMapped L m (va + i * 4096) (fun j => add32 pa ((i + j) * 4096)) n
          (pageMapLoop L pa va flag n i m).2.2 := by
  induction n with
  | zero =>
    intro i m _ _ _
    exact .nil L m _ _
  | succ n ih =>
    intro i m hm hdirs h
    have hd : PageDir (dirIndex (va + i * 4096)) := hdirs _ (by unfold InPages; omega)
    rw [pageMapLoop, shiftLeft_page, add32_of_lt hd.lt] at h ⊢
    by_cases hok : (pageMap L (add32 pa (i * 4096)) (va + i * 4096) flag m).1 = 0
    · rw [if_neg (not_not_intro hok)] at h ⊢
      have hmap := pageMap_mapped hm.toTablesOk hd (add32_lt _ _) hflag (Prod.ext hok rfl)
      have hmoved : Moved L m (pageMap L (add32 pa (i * 4096)) (va + i * 4096) flag m).2 :=
        moved_pageMap hm hd (add32_lt pa (i * 4096))
      have hnext : va + i * 4096 + 4096 = va + (i + 1) * 4096 := by omega
      refine .cons hd hmap ?_
      have hrest := ih hmoved.paging (fun w hw => hdirs w ?_) h
      · have hidx : (fun j => add32 pa ((i + 1 + j) * 4096)) =
            fun j => add32 pa ((i + (j + 1)) * 4096) := by
          funext j
          rw [Nat.add_right_comm, Nat.add_assoc]
        rw [hnext, ← hidx]
        exact hrest
      · rw [inPages_succ, hnext]
        exact .inr hw
    · rw [if_pos hok] at h
      exact absurd h hok

/-- **A successful mapping of a run of pages.** -/
theorem pageMapRange_mapped {n : Nat} {m m' : Machine} (hm : PagingOk L m)
    (hflag : flag &&& PAGE_PRESENT ≠ 0) (hdirs : ∀ w, InPages va n w → PageDir (dirIndex w))
    (h : pageMapRange L pa va flag n m = (0, m')) :
    RunMapped L m va (fun i => add32 pa (i * 4096)) n m' := by
  unfold pageMapRange at h
  dsimp only at h
  split at h
  · rename_i herr
    exact absurd (congrArg Prod.fst h) herr
  · rename_i hok
    have hrun : RunMapped L m (va + 0 * 4096) (fun j => add32 pa ((0 + j) * 4096)) n
        (pageMapLoop L pa va flag n 0 m).2.2 :=
      pageMapLoop_mapped hflag n hm (by simpa using hdirs) (not_not.mp hok)
    cases h
    simpa using hrun

/-- A call that maps a page has aligned arguments. -/
theorem pageMapRange_aligned {n : Nat} {m m' : Machine} (hflag : flag &&& PAGE_PRESENT ≠ 0)
    (hn : 0 < n) (hva : va < 2 ^ 32) (h : pageMapRange L pa va flag n m = (0, m')) :
    va % 4096 = 0 ∧ pa % 4096 = 0 ∧ flag &&& PAGE_ADDR = 0 := by
  obtain ⟨n, rfl⟩ := Nat.exists_eq_succ_of_ne_zero (Nat.ne_of_gt hn)
  have hva₀ : add32 va 0 = va := add32_of_lt hva
  unfold pageMapRange at h
  rw [pageMapLoop, shiftLeft_page, Nat.zero_mul, hva₀] at h
  by_cases hok : (pageMap L (add32 pa 0) va flag m).1 = 0
  · obtain ⟨hpa, hva', hfa, -⟩ := pageMap_ok hflag (Prod.ext hok rfl)
    refine ⟨hva', ?_, hfa⟩
    unfold add32 at hpa
    omega
  · rw [if_pos hok] at h
    dsimp only at h
    rw [if_pos hok] at h
    exact absurd (congrArg Prod.fst h) hok

end mapped

end Moonlight
