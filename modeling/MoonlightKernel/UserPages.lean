import MoonlightKernel.Rollback

/-!
# The pages below the kernel

What a call that gives up leaves in user space is told from the pages that are present, whatever
becomes of their tables.

* `SameUserPages` — the same pages below the kernel are present, and `SameUserPages.of_tables` —
  so it is as long as nobody writes to their tables;
* `Unmarked` — what the state before must satisfy, `sameUserPages_iff` — for a `page_map_range`
  that fails at page `s`;
* `pageMapRange_userPages_iff` — the same for a call, told from the state before it.
-/

set_option autoImplicit false

namespace Moonlight

open Sys Sys.Bitmap

/-- The same pages below the kernel are present. -/
def SameUserPages (L : Layout) (m m' : Machine) : Prop :=
  ∀ v < KERNEL_POS, Present L m' v ↔ Present L m v

/-- Unmapping the first `s` pages of a run takes away what their mapping has brought, and nothing
else. -/
structure Unmarked (L : Layout) (m : Machine) (va s : Nat) : Prop where
  /-- None of them was present before. -/
  absent : ∀ j < s, ¬ Present L m (runPage va j)
  /-- The frame of each table that is opened holds no present entry outside the run. -/
  clean : ∀ j < s, OpensTable m va j →
    ∀ v, v / 1024 = dirIndex (runPage va j) → ¬ AmongFirst va s v →
      m.ram (nextTable (missing m va 0 j).card m.mmBitmap) (v % 1024) &&& PAGE_PRESENT = 0

section user

variable {L : Layout} {m m₁ m' : Machine} {va s v : Nat}

theorem dirIndex_user (hv : v < KERNEL_POS) :
    dirIndex v < KERNEL_POS >>> 22 ∧ PageDir (dirIndex v) := by
  have hk : KERNEL_POS >>> 22 = 768 := by decide
  have hlt : dirIndex v < 768 := by
    rw [dirIndex_eq]
    unfold KERNEL_POS at hv
    omega
  exact ⟨by omega, by omega, by omega⟩

namespace SameUserPages

theorem refl (L : Layout) (m : Machine) : SameUserPages L m m := fun _ _ => Iff.rfl

theorem trans (h : SameUserPages L m m₁) (h' : SameUserPages L m₁ m') : SameUserPages L m m' :=
  fun v hv => (h' v hv).trans (h v hv)

/-- Nobody has written to the tables below the kernel. -/
theorem of_tables (hm : PagingOk L m) (hdir : m'.pageDirectory = m.pageDirectory)
    (hram : ∀ d < KERNEL_POS >>> 22, HasTable m d →
      m'.ram (tableFrame m d) = m.ram (tableFrame m d)) : SameUserPages L m m' := by
  intro v hv
  obtain ⟨hlt, hd⟩ := dirIndex_user hv
  have hentry := congrFun hdir (dirIndex v)
  rw [present_iff, present_iff]
  by_cases ht : HasTable m (dirIndex v)
  · have ht' := (hasTable_congr hentry).mpr ht
    have hframe := tableFrame_congr hentry
    have hk := hm.notKernel _ hd ht
    rw [slot_of_table ht hk, slot_of_table ht' (by rwa [hframe]), hframe, hram _ hlt ht]
  · rw [slot_of_not_hasTable ht, slot_of_not_hasTable fun h => ht ((hasTable_congr hentry).mp h)]

/-- The same, in terms of the numbers of the pages. -/
theorem iff_view : SameUserPages L m m' ↔
    ∀ w < KERNEL_POS / 4096, pageView L m' w = none ↔ pageView L m w = none := by
  constructor
  · intro h w hw
    have hlt : w * 4096 < KERNEL_POS := by
      unfold KERNEL_POS at hw ⊢
      omega
    have hdiv : w * 4096 / 4096 = w := Nat.mul_div_cancel w (by decide)
    rw [← hdiv, pageView_eq_none_iff, pageView_eq_none_iff]
    exact not_congr (h _ hlt)
  · intro h v hv
    have hlt : v / 4096 < KERNEL_POS / 4096 := by
      unfold KERNEL_POS at hv ⊢
      omega
    rw [← not_iff_not, ← pageView_eq_none_iff, ← pageView_eq_none_iff]
    exact h _ hlt

end SameUserPages

/-- The number of a page below the kernel. -/
theorem userPage_dir (hv : v < KERNEL_POS / 4096) :
    v < 2 ^ 20 ∧ v / 1024 < 1024 ∧ v / 1024 ≠ KERNEL_POS >>> 22 ∧ v ≠ L.swapPage := by
  have hk : KERNEL_POS >>> 22 = 768 := by decide
  have hdir := L.swapPage_dir
  rw [hk] at hdir ⊢
  unfold KERNEL_POS at hv
  refine ⟨by omega, by omega, by omega, ?_⟩
  rintro rfl
  omega

theorem runPage_user (h : runPage va s < KERNEL_POS) : runPage va s / 4096 < KERNEL_POS / 4096 := by
  unfold KERNEL_POS at h ⊢
  omega

theorem unmarked_of_sameUserPages (hk : HasTable m (KERNEL_POS >>> 22))
    (ho : Opened L m va s (AmongFirst va s) m₁) (hs : Swept L m₁ (AmongFirst va s) m')
    (huser : ∀ j < s, runPage va j < KERNEL_POS) (h : SameUserPages L m m') :
    Unmarked L m va s := by
  refine ⟨fun j hj => ?_, fun j hj hopens v hv hQ => ?_⟩
  · have hpage := runPage_user (huser j hj)
    obtain ⟨hlt, -, -, hne⟩ := userPage_dir (L := L) hpage
    rw [← pageView_eq_none_iff, ← SameUserPages.iff_view.mp h _ hpage]
    exact hs.gone _ hlt ⟨j, hj, rfl⟩ hne
  · have hin : dirIndex (runPage va j) ∈ missing m va 0 s :=
      mem_missing.mpr ⟨⟨j, by omega, rfl⟩, hopens.1⟩
    have hpage : v < KERNEL_POS / 4096 := by
      have hj' := huser j hj
      rw [dirIndex_eq] at hv
      unfold KERNEL_POS at hj' ⊢
      omega
    obtain ⟨hlt, -, -, -⟩ := userPage_dir (L := L) hpage
    have habsent : pageView L m v = none :=
      pageView_of_not_hasTable fun ht => ht.1 (by rw [hv]; exact hopens.1)
    rw [← SameUserPages.iff_view.mp h v hpage] at habsent
    rw [← ho.frame j hj hopens]
    by_cases he : Emptied L m₁ (AmongFirst va s) (dirIndex (runPage va j))
    · exact (ho.emptied_new_iff hk hin).mp he v hv hQ
    · rw [hs.kept v hlt hQ (by rwa [hv]), ho.shown v hlt (by rwa [hv]) hQ, hv,
        entryView_eq_none_iff] at habsent
      exact habsent

theorem sameUserPages_of_unmarked (hk : HasTable m (KERNEL_POS >>> 22))
    (ho : Opened L m va s (AmongFirst va s) m₁) (hs : Swept L m₁ (AmongFirst va s) m')
    (h : Unmarked L m va s) : SameUserPages L m m' := by
  refine SameUserPages.iff_view.mpr fun v hpage => ?_
  obtain ⟨hlt, hd, hdk, hne⟩ := userPage_dir (L := L) hpage
  by_cases hQ : AmongFirst va s v
  · refine iff_of_true (hs.gone v hlt hQ hne) ?_
    obtain ⟨j, hj, rfl⟩ := hQ
    exact pageView_eq_none_iff.mpr (h.absent j hj)
  by_cases ht : HasTable m (v / 1024)
  · by_cases he : Emptied L m₁ (AmongFirst va s) (v / 1024)
    · -- the table has been given back with no page in it
      refine iff_of_true (pageView_of_not_hasTable fun ht' => ((hs.table _ hd).mp ht').2 he) ?_
      rw [ho.emptied_iff hd ht, emptied_iff hdk] at he
      exact he.2 v rfl hQ
    · rw [hs.kept v hlt hQ he, ho.kept v hlt ht hQ]
  · refine iff_of_true (pageView_of_not_hasTable fun ht' => ?_) (pageView_of_not_hasTable ht)
    obtain ⟨ht₁, he⟩ := (hs.table _ hd).mp ht'
    have hin := ((ho.table _).mp ht₁).resolve_left ht
    obtain ⟨j, hj, hopens, hjd⟩ := exists_opensTable hin
    refine he ((ho.emptied_new_iff hk hin).mpr fun w hw hwQ => ?_)
    rw [← hjd, ho.frame j hj hopens]
    exact h.clean j hj hopens w (by rw [hw, hjd]) hwQ

/-- **A call that fails at page `s`** leaves the same pages in user space exactly when the state
before was unmarked. -/
theorem sameUserPages_iff (hk : HasTable m (KERNEL_POS >>> 22))
    (ho : Opened L m va s (AmongFirst va s) m₁) (hs : Swept L m₁ (AmongFirst va s) m')
    (huser : ∀ j < s, runPage va j < KERNEL_POS) : SameUserPages L m m' ↔ Unmarked L m va s :=
  ⟨unmarked_of_sameUserPages hk ho hs huser, sameUserPages_of_unmarked hk ho hs⟩

end user

/-! ## A call that fails -/

section range

variable {L : Layout} {m m' : Machine} {pa va flag n s : Nat}

theorem runPage_below (hn : va + n * 4096 ≤ KERNEL_POS) (hs : s < n) : runPage va s < KERNEL_POS := by
  unfold KERNEL_POS at hn ⊢
  rw [runPage, shiftLeft_page, add32_of_lt (by omega)]
  omega

/-- **`page_map_range` of pages below the kernel**, when it fails. -/
theorem pageMapRange_userPages_iff (hm : PagingSafe L m) (hk : HasTable m (KERNEL_POS >>> 22))
    (hpa : pa % 4096 = 0) (hva : va % 4096 = 0) (hfa : flag &&& PAGE_ADDR = 0)
    (hflag : flag &&& PAGE_PRESENT ≠ 0) (hn : va + n * 4096 ≤ KERNEL_POS)
    (h : (pageMapRange L pa va flag n m).1 ≠ 0) :
    SameUserPages L m (pageMapRange L pa va flag n m).2 ↔
      ∃ s < n, (RunFits m va 0 s ∧ ¬ RunFits m va 0 (s + 1)) ∧ Unmarked L m va s := by
  have hone (s : Nat) (hs : s < n) (hfail : FirstFailure L pa va flag m s) :
      SameUserPages L m (pageMapRange L pa va flag n m).2 ↔ Unmarked L m va s := by
    have hopened := (opened_mapFirst hm hk hflag s hfail.1).failed hflag hfail.2
    rw [(pageMapRange_fails hs hfail).2]
    exact sameUserPages_iff hk hopened (swept_pageUnmapBack hva s hopened.safe) fun j hj =>
      runPage_below hn (by omega)
  constructor
  · intro hsame
    obtain ⟨s, hs, hfail⟩ := exists_firstFailure h
    exact ⟨s, hs, (firstFailure_iff_runFits hpa hva hfa hflag s).mp hfail, (hone s hs hfail).mp hsame⟩
  · rintro ⟨s, hs, hfits, hclear⟩
    exact (hone s hs ((firstFailure_iff_runFits hpa hva hfa hflag s).mpr hfits)).mpr hclear

/-- The frames that become tables were free. -/
theorem isFree_of_takeTables {bm : Bytes} {f : Nat} (k : Nat)
    (h : isFree (takeTables k bm) f = true) : isFree bm f = true := by
  induction k with
  | zero => exact h
  | succ k ih =>
    refine ih ?_
    rw [takeTables] at h
    rcases getPhysBlock_spec 1 (takeTables k bm) with hg | ⟨p, hg, -, -, -⟩
    · rwa [hg] at h
    · rw [hg, isFree, isSet_clearRun, Bool.and_eq_true] at h
      exact h.1

/-- The next table is frame 0 when no frame is left, and a free frame above the kernel otherwise. -/
theorem nextTable_cases (k : Nat) (bm : Bytes) : nextTable k bm = 0 ∨
    1272 ≤ nextTable k bm ∧ isFree bm (nextTable k bm) = true := by
  rw [nextTable]
  rcases getPhysBlock_spec 1 (takeTables k bm) with hg | ⟨p, hg, hlo, -, hfree⟩
  · rw [hg]
    exact .inl (Nat.zero_div 4096)
  · rw [hg, Nat.mul_div_cancel p (by decide)]
    exact .inr ⟨hlo, isFree_of_takeTables k (hfree p (Nat.le_refl p) (Nat.lt_succ_self p))⟩

/-- What matters of a state: the directory, the bitmap, the user pages, and what is in frame 0 and
in the free frames above the kernel. -/
theorem unmarked_congr (hdir : m'.pageDirectory = m.pageDirectory)
    (hbm : m'.mmBitmap = m.mmBitmap) (hpages : SameUserPages L m m')
    (hram : ∀ f, f = 0 ∨ 1272 ≤ f ∧ isFree m.mmBitmap f = true → m'.ram f = m.ram f)
    (huser : ∀ j < s, runPage va j < KERNEL_POS) : Unmarked L m' va s ↔ Unmarked L m va s := by
  have hmissing : ∀ j, missing m' va 0 j = missing m va 0 j := fun j => by
    unfold missing
    rw [hdir]
  have hopens : ∀ j, OpensTable m' va j ↔ OpensTable m va j := fun j => by
    rw [OpensTable, OpensTable, hdir, hmissing]
  have hnext : ∀ k, m'.ram (nextTable k m'.mmBitmap) = m.ram (nextTable k m.mmBitmap) := fun k => by
    rw [hbm, hram _ (nextTable_cases k m.mmBitmap)]
  constructor
  · intro h
    refine ⟨fun j hj => ?_, fun j hj ho v hv hQ => ?_⟩
    · rw [← hpages _ (huser j hj)]
      exact h.absent j hj
    · rw [← hnext, ← hmissing]
      exact h.clean j hj ((hopens j).mpr ho) v hv hQ
  · intro h
    refine ⟨fun j hj => ?_, fun j hj ho v hv hQ => ?_⟩
    · rw [hpages _ (huser j hj)]
      exact h.absent j hj
    · rw [hnext, hmissing]
      exact h.clean j hj ((hopens j).mp ho) v hv hQ

end range

end Moonlight
