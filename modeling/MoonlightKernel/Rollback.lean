import MoonlightKernel.Opening

/-!
# When `page_map_range` is all or nothing

On its error path `page_map_range` unmaps every page before the one that failed.  This restores the
pages that were absent, not those that were present before, and it gives back every table in which
no page is left, not only those that the call has opened.

* `Restored` — what a failing call ought to leave, `Intact` — what the state before must satisfy;
* `restored_iff` — the two are the same, for a call that fails at page `s`;
* `firstFailure_iff` — at which page a call fails, told from the state before it;
* `map_range_all_or_nothing_iff` — over every call.
-/

set_option autoImplicit false

namespace Moonlight

open Sys Sys.Bitmap

/-- Paging in good order, with the kernel image in place. -/
structure KernelPaged (L : Layout) (m : Machine) : Prop extends PagingSafe L m where
  hasKernel : HasTable m (KERNEL_POS >>> 22)
  image : ∃ v, v / 1024 = KERNEL_POS >>> 22 ∧ v ≠ L.swapPage ∧ pageView L m v ≠ none

/-- Every page outside the window is translated as before, and the same frames are allocated. -/
structure Restored (L : Layout) (m m' : Machine) : Prop where
  pages : ∀ v < 2 ^ 32, v / 4096 ≠ L.pageSwap / 4096 →
    (pageIsPresent L v m').1 = (pageIsPresent L v m).1 ∧
      (pageGetPhys L v m').1 = (pageGetPhys L v m).1
  frames : ∀ f < MAX_RAM_PAGE, isFree m'.mmBitmap f = isFree m.mmBitmap f

/-- `page_map_range` has its whole effect, or it fails and has none. -/
def AllOrNothing (L : Layout) (phyAddr virtAddr flags size : Nat) (m : Machine) : Prop :=
  (pageMapRange L phyAddr virtAddr flags size m).1 ≠ 0 →
    Restored L m (pageMapRange L phyAddr virtAddr flags size m).2

/-! ## The state before -/

/-- Unmapping the first `s` pages of a run is what it takes to undo their mapping. -/
structure Intact (L : Layout) (m : Machine) (va s : Nat) : Prop where
  /-- None of them was present before. -/
  absent : ∀ j < s, runPage va j / 4096 ≠ L.swapPage → ¬ Present L m (runPage va j)
  /-- Each table that was there before has a present page outside the run. -/
  tables : ∀ j < s, HasTable m (dirIndex (runPage va j)) →
    ¬ Emptied L m (AmongFirst va s) (dirIndex (runPage va j))
  /-- The frame of each table that is opened holds no present entry outside the run. -/
  clean : ∀ j < s, OpensTable m va j →
    ∀ v, v / 1024 = dirIndex (runPage va j) → ¬ AmongFirst va s v →
      m.ram (nextTable (missing m va 0 j).card m.mmBitmap) (v % 1024) &&& PAGE_PRESENT = 0

/-- The page `j` of a run can be unmapped after those before it. -/
def CanUnmap (L : Layout) (m : Machine) (va j : Nat) : Prop :=
  HasTable m (dirIndex (runPage va j)) ∧ ¬ Emptied L m (AmongFirst va j) (dirIndex (runPage va j))

/-- The page at which `page_map_range` fails. -/
def FailsAt (L : Layout) (m : Machine) (va flags s : Nat) : Prop :=
  if flags &&& PAGE_PRESENT = 0 then (∀ j < s, CanUnmap L m va j) ∧ ¬ CanUnmap L m va s
  else RunFits m va 0 s ∧ ¬ RunFits m va 0 (s + 1)

/-! ## A call that fails at page `s` -/

section restored

variable {L : Layout} {m m₁ m' : Machine} {va s d : Nat} {Q : Nat → Prop}

/-- A table that was there before is emptied as if nothing had been mapped. -/
theorem Opened.emptied_iff (ho : Opened L m va s Q m₁) (hd : d < 1024) (ht : HasTable m d) :
    Emptied L m₁ Q d ↔ Emptied L m Q d := by
  by_cases hk : d = KERNEL_POS >>> 22
  · rw [hk, emptied_kernel, emptied_kernel, frameZeroClear_congr ho.zero]
  · rw [Moonlight.emptied_iff hk, Moonlight.emptied_iff hk]
    refine and_congr_right fun _ => forall_congr' fun v => forall₂_congr fun hv hQ => ?_
    rw [ho.kept v (by omega) (by rwa [hv]) hQ]

/-- A table that has been opened is emptied when its frame was clean. -/
theorem Opened.emptied_new_iff (ho : Opened L m va s (AmongFirst va s) m₁)
    (hk : HasTable m (KERNEL_POS >>> 22)) (hd : d ∈ missing m va 0 s) :
    Emptied L m₁ (AmongFirst va s) d ↔ ∀ v, v / 1024 = d → ¬ AmongFirst va s v →
      m.ram (tableFrame m₁ d) (v % 1024) &&& PAGE_PRESENT = 0 := by
  obtain ⟨⟨j, hj, hjd⟩, habs⟩ := mem_missing.mp hd
  have hne : d ≠ KERNEL_POS >>> 22 := fun he => hk.1 (by rwa [← he])
  have hlt : d < 1024 := by
    rw [← hjd]
    exact dirIndex_lt (runPage_lt va j)
  have hpage : ∃ v, v / 1024 = d ∧ AmongFirst va s v :=
    ⟨runPage va j / 4096, by rw [← hjd, dirIndex_eq], j, by omega, rfl⟩
  rw [Moonlight.emptied_iff hne, and_iff_right hpage]
  refine forall_congr' fun v => forall₂_congr fun hv hQ => ?_
  rw [ho.shown v (by omega) (by rwa [hv]) hQ, entryView_eq_none_iff, hv]

theorem pageView_eq_none_iff {v : Nat} : pageView L m (v / 4096) = none ↔ ¬ Present L m v := by
  rw [pageView_page, entryView_eq_none_iff, present_iff, not_not]

theorem restored_pages_iff : (∀ v < 2 ^ 32, v / 4096 ≠ L.pageSwap / 4096 →
      (pageIsPresent L v m').1 = (pageIsPresent L v m).1 ∧
        (pageGetPhys L v m').1 = (pageGetPhys L v m).1) ↔
    ∀ v < 2 ^ 20, v ≠ L.swapPage → pageView L m' v = pageView L m v := by
  constructor
  · intro h v hv hs
    have hdiv : v * 4096 / 4096 = v := Nat.mul_div_cancel v (by decide)
    rw [pageView, pageView, ← same_translation_iff]
    exact h (v * 4096) (by omega) (by rwa [hdiv])
  · intro h v hv hs
    rw [same_translation_iff, ← pageView_page, ← pageView_page]
    exact h (v / 4096) (by omega) hs

theorem intact_of_restored (hm : KernelPaged L m) (ho : Opened L m va s (AmongFirst va s) m₁)
    (hs : Swept L m₁ (AmongFirst va s) m') (h : Restored L m m') : Intact L m va s := by
  have hview := restored_pages_iff.mp h.pages
  have hfree : ∀ d < 1024, HasTable m₁ d → Emptied L m₁ (AmongFirst va s) d →
      isFree m.mmBitmap (tableFrame m₁ d) = true := fun d hd ht he => by
    have hlt : tableFrame m₁ d < MAX_RAM_PAGE := tableFrame_lt m₁ d
    rw [← h.frames _ hlt, hs.free]
    exact .inr ⟨d, hd, ht, he, rfl⟩
  refine ⟨fun j hj hne => ?_, fun j hj ht he => ?_, fun j hj hopens => ?_⟩
  · have hlt := runPage_lt va j
    rw [← pageView_eq_none_iff, ← hview _ (by omega) hne]
    exact hs.gone _ (by omega) ⟨j, hj, rfl⟩ hne
  · have hd := dirIndex_lt (runPage_lt va j)
    have ht₁ : HasTable m₁ (dirIndex (runPage va j)) := (ho.table _).mpr (.inl ht)
    have he₁ := (ho.emptied_iff hd ht).mpr he
    by_cases hk : dirIndex (runPage va j) = KERNEL_POS >>> 22
    · -- the kernel image is gone
      obtain ⟨v, hv, hne, hpres⟩ := hm.image
      have hno : ¬ HasTable m' (v / 1024) := fun ht' => by
        rw [hv, ← hk] at ht'
        exact ((hs.table _ hd).mp ht').2 he₁
      refine hpres ?_
      rw [← hview v (by rw [hk] at hd; omega) hne]
      exact pageView_of_not_hasTable hno
    · have htaken := hm.taken _ ⟨hd, hk⟩ ht
      rw [← tableFrame_congr (ho.dir _ ht), hfree _ hd ht₁ he₁] at htaken
      exact Bool.noConfusion htaken
  · have hin : dirIndex (runPage va j) ∈ missing m va 0 s :=
      mem_missing.mpr ⟨⟨j, by omega, rfl⟩, hopens.1⟩
    have hd := dirIndex_lt (runPage_lt va j)
    have ht₁ : HasTable m₁ (dirIndex (runPage va j)) := (ho.table _).mpr (.inr hin)
    have hback : isFree m'.mmBitmap (tableFrame m₁ (dirIndex (runPage va j))) = true := by
      rw [h.frames _ (tableFrame_lt m₁ _)]
      exact ho.fresh _ hin
    -- the frame is free again, so the table has been given back
    rw [hs.free, ho.free] at hback
    rw [← ho.frame j hj hopens]
    rcases hback with hf | ⟨e, he, hte, hempty, hf⟩
    · exact absurd rfl (hf.2 _ hin)
    · rw [ho.safe.frame_inj he hd hte ht₁ hf] at hempty
      exact (ho.emptied_new_iff hm.hasKernel hin).mp hempty

theorem restored_of_intact (hm : KernelPaged L m) (ho : Opened L m va s (AmongFirst va s) m₁)
    (hs : Swept L m₁ (AmongFirst va s) m') (h : Intact L m va s) : Restored L m m' := by
  have hnot : ∀ d < 1024, HasTable m d → ¬ Emptied L m₁ (AmongFirst va s) d := fun d hd ht he => by
    obtain ⟨v, hv, j, hj, hjv⟩ := he.exists_page
    have hdj : dirIndex (runPage va j) = d := by rw [dirIndex_eq, hjv, hv]
    rw [ho.emptied_iff hd ht, ← hdj] at he
    exact h.tables j hj (hdj ▸ ht) he
  have hnew : ∀ d ∈ missing m va 0 s, Emptied L m₁ (AmongFirst va s) d := fun d hd => by
    obtain ⟨j, hj, hopens, rfl⟩ := exists_opensTable hd
    rw [ho.emptied_new_iff hm.hasKernel hd, ho.frame j hj hopens]
    exact h.clean j hj hopens
  have hlt : ∀ d ∈ missing m va 0 s, d < 1024 := fun d hd => by
    obtain ⟨⟨j, -, rfl⟩, -⟩ := mem_missing.mp hd
    exact dirIndex_lt (runPage_lt va j)
  refine ⟨restored_pages_iff.mpr fun v hv hne => ?_, fun f _ => ?_⟩
  · have hd : v / 1024 < 1024 := by omega
    by_cases ht : HasTable m (v / 1024)
    · by_cases hQ : AmongFirst va s v
      · rw [hs.gone v hv hQ hne]
        obtain ⟨j, hj, rfl⟩ := hQ
        exact (pageView_eq_none_iff.mpr (h.absent j hj hne)).symm
      · rw [hs.kept v hv hQ (hnot _ hd ht), ho.kept v hv ht hQ]
    · have hno : ¬ HasTable m' (v / 1024) := fun ht' => by
        obtain ⟨ht₁, he⟩ := (hs.table _ hd).mp ht'
        exact he (hnew _ (((ho.table _).mp ht₁).resolve_left ht))
      rw [pageView_of_not_hasTable hno, pageView_of_not_hasTable ht]
  · rw [Bool.eq_iff_iff, hs.free, ho.free]
    constructor
    · rintro (hf | ⟨d, hd, ht, he, rfl⟩)
      · exact hf.1
      · rcases (ho.table d).mp ht with htm | hin
        · exact absurd he (hnot d hd htm)
        · exact ho.fresh d hin
    · intro hf
      by_cases hin : ∃ d ∈ missing m va 0 s, tableFrame m₁ d = f
      · obtain ⟨d, hd, hdf⟩ := hin
        exact .inr ⟨d, hlt d hd, (ho.table d).mpr (.inr hd), hnew d hd, hdf⟩
      · exact .inl ⟨hf, fun d hd hdf => hin ⟨d, hd, hdf⟩⟩

/-- **A failing call restores the state** exactly when this was intact. -/
theorem restored_iff (hm : KernelPaged L m) (ho : Opened L m va s (AmongFirst va s) m₁)
    (hs : Swept L m₁ (AmongFirst va s) m') : Restored L m m' ↔ Intact L m va s :=
  ⟨intact_of_restored hm ho hs, restored_of_intact hm ho hs⟩

end restored

/-! ## Where a call fails -/

section loop

variable {L : Layout} {m : Machine} {pa va flag : Nat}

/-- The state after the first `k` pages of a run, whatever `page_map` answers. -/
def mapFirst (L : Layout) (phyAddr virtAddr flags : Nat) (m : Machine) : Nat → Machine
  | 0 => m
  | k + 1 => (pageMap L (runPage phyAddr k) (runPage virtAddr k) flags
      (mapFirst L phyAddr virtAddr flags m k)).2

/-- The page `j` of a run is mapped after those before it. -/
def Maps (L : Layout) (phyAddr virtAddr flags : Nat) (m : Machine) (j : Nat) : Prop :=
  (pageMap L (runPage phyAddr j) (runPage virtAddr j) flags
    (mapFirst L phyAddr virtAddr flags m j)).1 = 0

theorem pageMapLoop_maps {n i : Nat} (h : Maps L pa va flag m i) :
    pageMapLoop L pa va flag (n + 1) i (mapFirst L pa va flag m i) =
      pageMapLoop L pa va flag n (i + 1) (mapFirst L pa va flag m (i + 1)) := by
  rw [pageMapLoop_succ]
  exact if_neg (not_not.mpr h)

theorem pageMapLoop_fails_here {n i : Nat} (h : ¬ Maps L pa va flag m i) : ∃ e, e ≠ 0 ∧
    pageMapLoop L pa va flag (n + 1) i (mapFirst L pa va flag m i) =
      (e, i, mapFirst L pa va flag m (i + 1)) := by
  rw [pageMapLoop_succ]
  exact ⟨_, h, if_pos h⟩

/-- The loop fails at the first page that is not mapped. -/
theorem pageMapLoop_fails (n : Nat) : ∀ i,
    ((∀ j, i ≤ j → j < i + n → Maps L pa va flag m j) ∧
      (pageMapLoop L pa va flag n i (mapFirst L pa va flag m i)).1 = 0) ∨
    ∃ s, (i ≤ s ∧ s < i + n) ∧ (∀ j, i ≤ j → j < s → Maps L pa va flag m j) ∧
      ¬ Maps L pa va flag m s ∧ ∃ e, e ≠ 0 ∧
      pageMapLoop L pa va flag n i (mapFirst L pa va flag m i) =
        (e, s, mapFirst L pa va flag m (s + 1)) := by
  induction n with
  | zero =>
    intro i
    exact .inl ⟨fun j h1 h2 => by omega, rfl⟩
  | succ n ih =>
    intro i
    by_cases hok : Maps L pa va flag m i
    · have hall : ∀ {k}, (∀ j, i + 1 ≤ j → j < k → Maps L pa va flag m j) →
          ∀ j, i ≤ j → j < k → Maps L pa va flag m j := fun hk j h1 h2 => by
        by_cases hji : j = i
        · rw [hji]
          exact hok
        · exact hk j (by omega) h2
      rw [pageMapLoop_maps hok]
      rcases ih (i + 1) with ⟨hmaps, hzero⟩ | ⟨s, hs, hmaps, hfail⟩
      · exact .inl ⟨hall fun j h1 h2 => hmaps j h1 (by omega), hzero⟩
      · exact .inr ⟨s, by omega, hall hmaps, hfail⟩
    · exact .inr ⟨i, by omega, fun j h1 h2 => by omega, hok, pageMapLoop_fails_here hok⟩

/-- The page `s` is the first that is not mapped. -/
def FirstFailure (L : Layout) (phyAddr virtAddr flags : Nat) (m : Machine) (s : Nat) : Prop :=
  (∀ j < s, Maps L phyAddr virtAddr flags m j) ∧ ¬ Maps L phyAddr virtAddr flags m s

/-- A call that fails at the page `s` unmaps the pages before it. -/
theorem pageMapRange_fails {n s : Nat} (hs : s < n) (h : FirstFailure L pa va flag m s) :
    (pageMapRange L pa va flag n m).1 ≠ 0 ∧ (pageMapRange L pa va flag n m).2 =
      pageUnmapBack L va s (mapFirst L pa va flag m (s + 1)) := by
  rcases pageMapLoop_fails (L := L) (m := m) n 0 with ⟨hall, -⟩ | ⟨t, -, hall, hno, e, he, hloop⟩
  · exact absurd (hall s (Nat.zero_le s) (by omega)) h.2
  · obtain rfl : t = s := by
      rcases Nat.lt_trichotomy t s with hlt | heq | hgt
      · exact absurd (h.1 t hlt) hno
      · exact heq
      · exact absurd (hall s (Nat.zero_le s) hgt) h.2
    rw [mapFirst] at hloop
    unfold pageMapRange
    dsimp only
    rw [hloop, if_pos he]
    exact ⟨he, rfl⟩

theorem exists_firstFailure {n : Nat} (h : (pageMapRange L pa va flag n m).1 ≠ 0) :
    ∃ s < n, FirstFailure L pa va flag m s := by
  rcases pageMapLoop_fails (L := L) (m := m) n 0 with ⟨-, hzero⟩ | ⟨s, hs, hall, hno, -⟩
  · unfold pageMapRange at h
    rw [mapFirst] at hzero
    dsimp only at h
    rw [if_neg (not_not.mpr hzero)] at h
    exact absurd rfl h
  · exact ⟨s, by omega, fun j hj => hall j (Nat.zero_le j) hj, hno⟩

/-- A call is all or nothing when each page at which it can fail leaves the state restored. -/
theorem allOrNothing_iff_failures {n : Nat} : AllOrNothing L pa va flag n m ↔
    ∀ s < n, FirstFailure L pa va flag m s →
      Restored L m (pageUnmapBack L va s (mapFirst L pa va flag m (s + 1))) := by
  constructor
  · intro h s hs hfail
    obtain ⟨he, hstate⟩ := pageMapRange_fails hs hfail
    rw [← hstate]
    exact h he
  · intro h he
    obtain ⟨s, hs, hfail⟩ := exists_firstFailure he
    rw [(pageMapRange_fails hs hfail).2]
    exact h s hs hfail

theorem mapFirst_succ (L : Layout) (pa va flag : Nat) (m : Machine) (k : Nat) :
    mapFirst L pa va flag m (k + 1) =
      (pageMap L (runPage pa k) (runPage va k) flag (mapFirst L pa va flag m k)).2 := rfl

/-! ### With `PAGE_PRESENT` -/

theorem opened_mapFirst (hm : PagingSafe L m) (hkernel : HasTable m (KERNEL_POS >>> 22))
    (hflag : flag &&& PAGE_PRESENT ≠ 0) (k : Nat) (h : ∀ j < k, Maps L pa va flag m j) :
    Opened L m va k (AmongFirst va k) (mapFirst L pa va flag m k) := by
  induction k with
  | zero => exact .nil hm va
  | succ k ih =>
    have hprev := ih fun j hj => h j (by omega)
    have hpair : pageMap L (runPage pa k) (runPage va k) flag (mapFirst L pa va flag m k) =
        (0, mapFirst L pa va flag m (k + 1)) := Prod.ext (h k (by omega)) rfl
    obtain ⟨-, -, -, t, m₁, hopen, he⟩ := pageMap_ok hflag hpair
    rw [he]
    exact hprev.mapped hkernel hopen

/-- The pages that are mapped before the failure are those that fit. -/
theorem maps_iff_runFits (hpa : pa % 4096 = 0) (hva : va % 4096 = 0) (hfa : flag &&& PAGE_ADDR = 0)
    (hflag : flag &&& PAGE_PRESENT ≠ 0) (s : Nat) :
    (∀ j < s, Maps L pa va flag m j) ↔ RunFits m va 0 s := by
  rw [← pageMapLoop_ok_iff (L := L) hpa hva hfa hflag s 0 m]
  rcases @pageMapLoop_fails L m pa va flag s 0 with
    ⟨hall, hzero⟩ | ⟨t, ht, -, hno, e, he, hloop⟩
  · exact iff_of_true (fun j hj => hall j (Nat.zero_le j) (by omega)) hzero
  · refine iff_of_false (fun hall => hno (hall t (by omega))) ?_
    rw [mapFirst] at hloop
    rw [hloop]
    exact he

/-! ### Without `PAGE_PRESENT` -/

theorem pageUnmap_ok_iff (hva : va % 4096 = 0) :
    (pageUnmap L va flag m).1 = 0 ↔ HasTable m (dirIndex va) := by
  by_cases ht : HasTable m (dirIndex va)
  · refine iff_of_true ?_ ht
    rcases pageUnmap_table flag hva ht with ⟨-, he⟩ | ⟨-, he⟩
    · rw [he]
    · rw [he]
  · refine iff_of_false ?_ ht
    rw [pageUnmap_refused flag fun h => ht h.2]
    show ¬ -EINVAL = 0
    decide

theorem swept_mapFirst (hm : PagingSafe L m) (hpa : pa % 4096 = 0) (hva : va % 4096 = 0)
    (hfa : flag &&& PAGE_ADDR = 0) (hflag : flag &&& PAGE_PRESENT = 0) (k : Nat) :
    Swept L m (AmongFirst va k) (mapFirst L pa va flag m k) := by
  induction k with
  | zero => exact (Swept.nil hm).congr fun v => (iff_false_intro not_amongFirst_zero).symm
  | succ k ih =>
    have hva' := runPage_aligned hva k
    have hone : Swept L (mapFirst L pa va flag m k) (fun v => v = runPage va k / 4096)
        (mapFirst L pa va flag m (k + 1)) := by
      rw [mapFirst_succ, pageMap_unmaps (runPage_aligned hpa k) hva' hfa hflag]
      exact swept_pageUnmap ih.safe (runPage_lt va k) hva' hflag
    exact (ih.trans hone).congr fun v => amongFirst_succ.symm

theorem maps_iff_canUnmap (hm : PagingSafe L m) (hpa : pa % 4096 = 0) (hva : va % 4096 = 0)
    (hfa : flag &&& PAGE_ADDR = 0) (hflag : flag &&& PAGE_PRESENT = 0) (j : Nat) :
    Maps L pa va flag m j ↔ CanUnmap L m va j := by
  have hva' := runPage_aligned hva j
  rw [Maps, pageMap_unmaps (runPage_aligned hpa j) hva' hfa hflag, pageUnmap_ok_iff hva',
    (swept_mapFirst hm hpa hva hfa hflag j).table _ (dirIndex_lt (runPage_lt va j)), CanUnmap]

/-- A page that cannot be unmapped leaves the state alone. -/
theorem mapFirst_of_not_maps (hpa : pa % 4096 = 0) (hva : va % 4096 = 0)
    (hfa : flag &&& PAGE_ADDR = 0) (hflag : flag &&& PAGE_PRESENT = 0) {s : Nat}
    (h : ¬ Maps L pa va flag m s) :
    mapFirst L pa va flag m (s + 1) = mapFirst L pa va flag m s := by
  have hva' := runPage_aligned hva s
  rw [Maps, pageMap_unmaps (runPage_aligned hpa s) hva' hfa hflag, pageUnmap_ok_iff hva'] at h
  rw [mapFirst_succ, pageMap_unmaps (runPage_aligned hpa s) hva' hfa hflag,
    pageUnmap_refused flag fun hh => h hh.2]

/-! ### Both -/

/-- With `PAGE_PRESENT`, a call fails at the first page for which there is no table. -/
theorem firstFailure_iff_runFits (hpa : pa % 4096 = 0) (hva : va % 4096 = 0)
    (hfa : flag &&& PAGE_ADDR = 0) (hflag : flag &&& PAGE_PRESENT ≠ 0) (s : Nat) :
    FirstFailure L pa va flag m s ↔ RunFits m va 0 s ∧ ¬ RunFits m va 0 (s + 1) := by
  have hrun := maps_iff_runFits (L := L) (m := m) hpa hva hfa hflag
  rw [FirstFailure, ← hrun s, ← hrun (s + 1)]
  refine and_congr_right fun hall => not_congr ⟨fun hs j hj => ?_, fun h => h s (by omega)⟩
  by_cases hjs : j = s
  · rw [hjs]
    exact hs
  · exact hall j (by omega)

/-- **The page at which a call fails** is known before the call. -/
theorem firstFailure_iff (hm : KernelPaged L m) (hpa : pa % 4096 = 0) (hva : va % 4096 = 0)
    (hfa : flag &&& PAGE_ADDR = 0) (s : Nat) :
    FirstFailure L pa va flag m s ↔ FailsAt L m va flag s := by
  by_cases hflag : flag &&& PAGE_PRESENT = 0
  · have hone := maps_iff_canUnmap hm.toPagingSafe hpa hva hfa hflag
    rw [FirstFailure, FailsAt, if_pos hflag, hone]
    exact and_congr_left fun _ => forall₂_congr fun j _ => hone j
  · rw [FailsAt, if_neg hflag]
    exact firstFailure_iff_runFits hpa hva hfa hflag s

/-- A call that fails at the page `s` restores the state exactly when this was intact. -/
theorem failure_restored_iff (hm : KernelPaged L m) (hpa : pa % 4096 = 0) (hva : va % 4096 = 0)
    (hfa : flag &&& PAGE_ADDR = 0) {s : Nat} (h : FirstFailure L pa va flag m s) :
    Restored L m (pageUnmapBack L va s (mapFirst L pa va flag m (s + 1))) ↔ Intact L m va s := by
  by_cases hflag : flag &&& PAGE_PRESENT = 0
  · -- the pages are unmapped twice
    have hfirst := swept_mapFirst hm.toPagingSafe hpa hva hfa hflag s
    have hone := maps_iff_canUnmap hm.toPagingSafe hpa hva hfa hflag
    have htables : ∀ j < s, HasTable m (dirIndex (runPage va j)) := fun j hj =>
      ((hone j).mp (h.1 j hj)).1
    rw [mapFirst_of_not_maps hpa hva hfa hflag h.2]
    refine restored_iff hm (.of_tables hm.toPagingSafe htables) ?_
    exact (hfirst.trans (swept_pageUnmapBack hva s hfirst.safe)).congr fun v => or_self_iff
  · have hopened :=
      (opened_mapFirst hm.toPagingSafe hm.hasKernel hflag s h.1).failed hflag h.2
    exact restored_iff hm hopened (swept_pageUnmapBack hva s hopened.safe)

theorem pageMap_badFlags (L : Layout) (pa va : Nat) (m : Machine) (hfa : flag &&& PAGE_ADDR ≠ 0) :
    pageMap L pa va flag m = (-EINVAL, m) := by
  unfold pageMap
  rw [if_pos hfa, ite_self, ite_self]

/-- Flags with address bits are refused at the first page. -/
theorem allOrNothing_badFlags {n : Nat} (hfa : flag &&& PAGE_ADDR ≠ 0) :
    AllOrNothing L pa va flag n m := by
  rw [allOrNothing_iff_failures]
  intro s _ hfail
  have hno : ¬ Maps L pa va flag m 0 := by
    rw [Maps, pageMap_badFlags L _ _ _ hfa]
    show ¬ -EINVAL = 0
    decide
  obtain rfl : s = 0 := Nat.eq_zero_of_not_pos fun hs => hno (hfail.1 0 hs)
  rw [mapFirst_succ, pageMap_badFlags L _ _ _ hfa]
  exact ⟨fun _ _ _ => ⟨rfl, rfl⟩, fun _ _ => rfl⟩

/-- **`page_map_range` is all or nothing** exactly when its flags are refused at once, or the state
is intact up to the page at which it fails. -/
theorem map_range_all_or_nothing_iff (L : Layout) (m : Machine) (phyAddr virtAddr flags size : Nat)
    (hm : KernelPaged L m) (hpa : phyAddr % 4096 = 0) (hva : virtAddr % 4096 = 0) :
    AllOrNothing L phyAddr virtAddr flags size m ↔ flags &&& PAGE_ADDR ≠ 0 ∨
      ∀ s < size, FailsAt L m virtAddr flags s → Intact L m virtAddr s := by
  by_cases hfa : flags &&& PAGE_ADDR = 0
  · rw [or_iff_right (not_not.mpr hfa), allOrNothing_iff_failures]
    refine forall₂_congr fun s _ => ?_
    rw [← firstFailure_iff hm hpa hva hfa s]
    exact forall_congr' fun hfail => failure_restored_iff hm hpa hva hfa hfail
  · exact iff_of_true (allOrNothing_badFlags hfa) (.inl hfa)

end loop

/-! ## Two calls -/

/-- No frame is free, the last page of the directory entry 256 is absent, and the entry 257 is a
page of four megabytes. -/
def Machine.crowded : Machine where
  mmBitmap := fun _ => 0
  pageDirectory := fun d =>
    if d = 768 then 0x110001 else if d = 257 then 0x83 else if d = 256 then 0x500007 else 0
  ram := fun f i => if f = 0x110 then 0x100003 else if f = 0x500 ∧ i < 1023 then 0x600003 else 0

theorem crowded_hasTable {d : Nat} (h : HasTable .crowded d) : d = 768 ∨ d = 256 := by
  by_contra hno
  rw [not_or] at hno
  obtain ⟨hp, hs⟩ := h
  simp only [Machine.crowded, hno.1, hno.2, ↓reduceIte] at hp hs
  split at hs
  · exact absurd hs (by decide)
  · rename_i h257
    rw [if_neg h257] at hp
    exact hp (by decide)

theorem crowded_kernelPaged : KernelPaged .sample .crowded := by
  have honly : ∀ d, PageDir d → HasTable .crowded d → d = 256 := fun d hd ht =>
    (crowded_hasTable ht).resolve_left hd.2
  refine ⟨⟨⟨⟨fun d _ _ => ?_, fun d hd ht => ?_, fun d e hd he htd hte _ => ?_⟩, fun _ => ?_⟩,
    fun d hd ht => ?_⟩, by decide, 786432, by decide, by decide, by decide⟩
  · exact BitVec.getLsbD_zero
  · rw [honly d hd ht]
    decide
  · rw [honly d hd htd, honly e he hte]
  · decide
  · rw [honly d hd ht]
    decide

/-- Two pages of which the first was absent: the call fails at the second and restores the
state. -/
theorem absent_page_is_restored :
    (pageMapRange .sample 0x700000 0x403FF000 3 2 .crowded).1 ≠ 0 ∧
      AllOrNothing .sample 0x700000 0x403FF000 3 2 .crowded := by
  refine ⟨by decide +kernel, (map_range_all_or_nothing_iff .sample .crowded 0x700000 0x403FF000 3 2
    crowded_kernelPaged (by decide) (by decide)).mpr (.inr fun s hs _ => ?_)⟩
  have hpage : ∀ j < s, runPage 0x403FF000 j = 0x403FF000 := fun j hj => by
    obtain rfl : j = 0 := by omega
    decide +kernel
  have hdir : dirIndex 0x403FF000 = 256 := by decide
  refine ⟨fun j hj _ => ?_, fun j hj _ hempty => ?_, fun j hj hopens => ?_⟩
  · rw [hpage j hj]
    decide +kernel
  · -- the page before it is present
    rw [hpage j hj, hdir, emptied_iff (by decide)] at hempty
    have hview := hempty.2 0x403FE (by decide) ?_
    · revert hview
      decide +kernel
    · rintro ⟨k, hk, he⟩
      rw [hpage k hk] at he
      exact absurd he (by decide)
  · rw [OpensTable, hpage j hj] at hopens
    exact absurd hopens.1 (by decide)

/-- Three pages of which the first was present: the call fails at the third, and the first is
gone. -/
theorem present_page_is_lost :
    KernelPaged .sample .crowded ∧
      (pageMapRange .sample 0x700000 0x403FE000 3 3 .crowded).1 = -EINVAL ∧
      (pageIsPresent .sample 0x403FE000 .crowded).1 = true ∧
      (pageIsPresent .sample 0x403FE000
        (pageMapRange .sample 0x700000 0x403FE000 3 3 .crowded).2).1 = false ∧
      ¬ AllOrNothing .sample 0x700000 0x403FE000 3 3 .crowded := by
  have herr : (pageMapRange .sample 0x700000 0x403FE000 3 3 .crowded).1 = -EINVAL := by
    decide +kernel
  have hbefore : (pageIsPresent .sample 0x403FE000 .crowded).1 = true := by decide +kernel
  have hafter : (pageIsPresent .sample 0x403FE000
      (pageMapRange .sample 0x700000 0x403FE000 3 3 .crowded).2).1 = false := by decide +kernel
  refine ⟨crowded_kernelPaged, herr, hbefore, hafter, fun h => ?_⟩
  have hpages := (h (by rw [herr]; decide)).pages 0x403FE000 (by decide) (by decide)
  rw [hafter, hbefore] at hpages
  exact Bool.noConfusion hpages.1

end Moonlight
