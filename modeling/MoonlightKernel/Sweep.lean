import MoonlightKernel.Ledger
import MoonlightKernel.MapLimits

/-!
# Sweeping pages out of the tables

A set of pages is unmapped one after the other, whether they are present or not: this is the
unmapping loop of `page_map_range` as well as its error path.  The result does not depend on the
order, nor on how often a page is visited.

* `pageView` — how a page, given by its number, is translated;
* `Emptied` — the tables that are given back, with the special case of the window `page_swap`,
  whose own slot makes the scan look at frame 0;
* `Swept` — the effect, `Swept.trans` — two sweeps are one;
* `swept_pageUnmap`, `swept_pageUnmapBack` — one page, and the error path.
-/

set_option autoImplicit false

namespace Moonlight

open Sys Sys.Bitmap

/-- The number of the page `page_swap`. -/
def Layout.swapPage (L : Layout) : Nat := L.pageSwap / 4096

/-- How the page with the number `v` is translated. -/
def pageView (L : Layout) (m : Machine) (v : Nat) : Option Nat := entryView (slot L m (v * 4096))

theorem dirIndex_number (v : Nat) : dirIndex (v * 4096) = v / 1024 := by
  rw [dirIndex_eq, Nat.mul_div_cancel _ (by decide)]

theorem tableIndex_number (v : Nat) : tableIndex (v * 4096) = v % 1024 := by
  rw [tableIndex_eq, Nat.mul_div_cancel _ (by decide)]

theorem pageView_page (L : Layout) (m : Machine) (va : Nat) :
    pageView L m (va / 4096) = entryView (slot L m va) := by
  rw [pageView, slot_page]

theorem Layout.swapPage_dir (L : Layout) : L.swapPage / 1024 = KERNEL_POS >>> 22 := by
  have hmem := L.pageSwap_mem
  have hend := L.kernelEnd_le
  have hk : KERNEL_POS >>> 22 = 768 := by decide
  rw [hk, Layout.swapPage]
  omega

theorem Layout.swapPage_index (L : Layout) : L.swapPage % 1024 = windowIndex L.pageSwap := by
  have hmem := L.pageSwap_mem
  have hend := L.kernelEnd_le
  rw [windowIndex, shiftRight_page, KERNEL_GET_REAL, KERNEL_POS, Layout.swapPage]
  omega

theorem Layout.kernelFrame_ne_zero (L : Layout) : L.kernelFrame ≠ 0 := by
  have hmem := L.kernelPage_mem
  rw [Layout.kernelFrame, shiftRight_page, KERNEL_GET_REAL, KERNEL_POS]
  omega

theorem pageView_of_not_hasTable {L : Layout} {m : Machine} {v : Nat}
    (h : ¬ HasTable m (v / 1024)) : pageView L m v = none := by
  rw [pageView, slot_of_not_hasTable (by rwa [dirIndex_number]), entryView_zero]

/-- The tables have frames of their own, none of them frame 0. -/
structure PagingSafe (L : Layout) (m : Machine) : Prop extends PagingOk L m where
  low : ∀ d, PageDir d → HasTable m d → tableFrame m d ≠ 0

namespace PagingSafe

variable {L : Layout} {m m' : Machine} {d e : Nat}

theorem frame_ne_zero (h : PagingSafe L m) (hd : d < 1024) (ht : HasTable m d) :
    tableFrame m d ≠ 0 := by
  by_cases hk : d = KERNEL_POS >>> 22
  · subst hk
    rw [h.kernel ht]
    exact L.kernelFrame_ne_zero
  · exact h.low d ⟨hd, hk⟩ ht

/-- The kernel image has the only table in `kernel_page`. -/
theorem eq_kernel (h : PagingSafe L m) (hd : d < 1024) (ht : HasTable m d)
    (hf : tableFrame m d = L.kernelFrame) : d = KERNEL_POS >>> 22 := by
  by_contra hk
  exact h.notKernel d ⟨hd, hk⟩ ht hf

theorem frame_inj (h : PagingSafe L m) (hd : d < 1024) (he : e < 1024) (htd : HasTable m d)
    (hte : HasTable m e) (hf : tableFrame m d = tableFrame m e) : d = e := by
  by_cases hk : e = KERNEL_POS >>> 22
  · subst hk
    rw [h.kernel hte] at hf
    exact h.eq_kernel hd htd hf
  · by_contra hne
    exact h.frame_ne ⟨he, hk⟩ hd hne hte htd hf

/-- No table has been added or moved. -/
theorem of_paging (h : PagingSafe L m) (hm : PagingOk L m')
    (hdir : ∀ d, HasTable m' d → m'.pageDirectory d = m.pageDirectory d) : PagingSafe L m' := by
  refine ⟨hm, fun d hd ht => ?_⟩
  rw [tableFrame_congr (hdir d ht)]
  exact h.low d hd ((hasTable_congr (hdir d ht)).mp ht)

theorem of_tables (h : PagingSafe L m)
    (hdir : ∀ d, HasTable m' d → m'.pageDirectory d = m.pageDirectory d)
    (hbm : m'.mmBitmap = m.mmBitmap) : PagingSafe L m' :=
  h.of_paging (h.toPagingOk.of_tables hdir hbm) hdir

theorem congr (h : PagingSafe L m) (hdir : m'.pageDirectory = m.pageDirectory)
    (hbm : m'.mmBitmap = m.mmBitmap) : PagingSafe L m' :=
  h.of_tables (fun d _ => congrFun hdir d) hbm

end PagingSafe

/-! ## What a sweep does -/

/-- Frame 0 holds no word that looks like a present entry. -/
def FrameZeroClear (m : Machine) : Prop := ∀ i < 1024, m.ram 0 i &&& PAGE_PRESENT = 0

/-- The table `d` is given back when the pages `Q` are unmapped: one of them is its own, and no
other page of it is present.  The kernel's table is given back when `page_swap` itself is unmapped
and frame 0 looks like an empty table. -/
def Emptied (L : Layout) (m : Machine) (Q : Nat → Prop) (d : Nat) : Prop :=
  if d = KERNEL_POS >>> 22 then Q L.swapPage ∧ FrameZeroClear m
  else (∃ v, v / 1024 = d ∧ Q v) ∧ ∀ v, v / 1024 = d → ¬ Q v → pageView L m v = none

/-- What `m'` is after the pages `Q` have been unmapped in `m`. -/
structure Swept (L : Layout) (m : Machine) (Q : Nat → Prop) (m' : Machine) : Prop where
  safe : PagingSafe L m'
  gone : ∀ v < 2 ^ 20, Q v → v ≠ L.swapPage → pageView L m' v = none
  kept : ∀ v < 2 ^ 20, ¬ Q v → ¬ Emptied L m Q (v / 1024) → pageView L m' v = pageView L m v
  table : ∀ d < 1024, HasTable m' d ↔ HasTable m d ∧ ¬ Emptied L m Q d
  dir : ∀ d < 1024, HasTable m' d → m'.pageDirectory d = m.pageDirectory d
  free : ∀ f, isFree m'.mmBitmap f = true ↔ isFree m.mmBitmap f = true ∨
    ∃ d < 1024, HasTable m d ∧ Emptied L m Q d ∧ tableFrame m d = f
  zero : m'.ram 0 = m.ram 0

section emptied

variable {L : Layout} {m m₁ m' : Machine} {P Q : Nat → Prop} {d : Nat}

theorem emptied_kernel : Emptied L m Q (KERNEL_POS >>> 22) ↔ Q L.swapPage ∧ FrameZeroClear m := by
  rw [Emptied, if_pos rfl]

theorem emptied_iff (hd : d ≠ KERNEL_POS >>> 22) : Emptied L m Q d ↔
    (∃ v, v / 1024 = d ∧ Q v) ∧ ∀ v, v / 1024 = d → ¬ Q v → pageView L m v = none := by
  rw [Emptied, if_neg hd]

/-- A table that is given back has one of the pages. -/
theorem Emptied.exists_page (h : Emptied L m Q d) : ∃ v, v / 1024 = d ∧ Q v := by
  by_cases hd : d = KERNEL_POS >>> 22
  · subst hd
    exact ⟨L.swapPage, L.swapPage_dir, (emptied_kernel.mp h).1⟩
  · exact ((emptied_iff hd).mp h).1

theorem frameZeroClear_congr (h : m'.ram 0 = m.ram 0) : FrameZeroClear m' ↔ FrameZeroClear m := by
  unfold FrameZeroClear
  rw [h]

/-- A table given back in two sweeps is given back in the first or in the second. -/
theorem Swept.emptied_or_iff (h : Swept L m P m₁) (hd : d < 1024) :
    Emptied L m (fun v => P v ∨ Q v) d ↔ Emptied L m P d ∨ Emptied L m₁ Q d := by
  by_cases hk : d = KERNEL_POS >>> 22
  · subst hk
    rw [emptied_kernel, emptied_kernel, emptied_kernel, frameZeroClear_congr h.zero,
      or_and_right]
  have hlt : ∀ {v}, v / 1024 = d → v < 2 ^ 20 := fun {v} hv => by omega
  have hne : ∀ {v}, v / 1024 = d → v ≠ L.swapPage := fun {v} hv hs => hk (by
    rw [← hv, hs, L.swapPage_dir])
  rw [emptied_iff hk, emptied_iff hk, emptied_iff hk]
  have hfirst : ((∃ v, v / 1024 = d ∧ P v) ∧ ∀ v, v / 1024 = d → ¬ P v → pageView L m v = none) ∨
      ¬ Emptied L m P d := by
    by_cases he : Emptied L m P d
    · exact .inl ((emptied_iff hk).mp he)
    · exact .inr he
  constructor
  · rintro ⟨⟨v, hv, hvQ⟩, hnone⟩
    rcases hfirst with he | he
    · exact .inl he
    refine .inr ⟨?_, fun w hw hwQ => ?_⟩
    · -- otherwise the first sweep would have been enough
      by_contra hno
      have hPv : ∀ w, w / 1024 = d → ¬ Q w := fun w hw hwQ => hno ⟨w, hw, hwQ⟩
      refine he ((emptied_iff hk).mpr ⟨⟨v, hv, hvQ.resolve_right (hPv v hv)⟩, fun w hw hwP => ?_⟩)
      exact hnone w hw fun hor => hor.elim hwP (hPv w hw)
    · by_cases hwP : P w
      · exact h.gone w (hlt hw) hwP (hne hw)
      · rw [h.kept w (hlt hw) hwP (by rwa [hw])]
        exact hnone w hw fun hor => hor.elim hwP hwQ
  · rintro (⟨⟨v, hv, hvP⟩, hnone⟩ | ⟨⟨v, hv, hvQ⟩, hnone⟩)
    · exact ⟨⟨v, hv, .inl hvP⟩, fun w hw hor => hnone w hw fun hwP => hor (.inl hwP)⟩
    · refine ⟨⟨v, hv, .inr hvQ⟩, fun w hw hor => ?_⟩
      rcases hfirst with he | he
      · exact he.2 w hw fun hwP => hor (.inl hwP)
      · rw [← h.kept w (hlt hw) (fun hwP => hor (.inl hwP)) (by rwa [hw])]
        exact hnone w hw fun hwQ => hor (.inr hwQ)

end emptied

namespace Swept

variable {L : Layout} {m m₁ m' : Machine} {P Q : Nat → Prop}

/-- Nothing is left to sweep. -/
theorem of_nothing (hm : PagingSafe L m)
    (hgone : ∀ v < 2 ^ 20, Q v → v ≠ L.swapPage → pageView L m v = none)
    (hno : ∀ d < 1024, HasTable m d → ¬ Emptied L m Q d) : Swept L m Q m where
  safe := hm
  gone := hgone
  kept := fun _ _ _ _ => rfl
  table := fun d hd => (and_iff_left_of_imp (hno d hd)).symm
  dir := fun _ _ _ => rfl
  free := by
    intro f
    refine (or_iff_left ?_).symm
    rintro ⟨d, hd, ht, he, -⟩
    exact hno d hd ht he
  zero := rfl

theorem nil (hm : PagingSafe L m) : Swept L m (fun _ => False) m := by
  refine of_nothing hm (fun _ _ hv => hv.elim) fun d _ _ he => ?_
  obtain ⟨v, -, hv⟩ := he.exists_page
  exact hv

theorem congr (h : Swept L m P m') (hQ : ∀ v, P v ↔ Q v) : Swept L m Q m' := by
  have hPQ : P = Q := funext fun v => propext (hQ v)
  rw [← hPQ]
  exact h

/-- **Two sweeps are one.** -/
theorem trans (h : Swept L m P m₁) (h' : Swept L m₁ Q m') :
    Swept L m (fun v => P v ∨ Q v) m' where
  safe := h'.safe
  gone := by
    intro v hv hor hs
    by_cases hQ : Q v
    · exact h'.gone v hv hQ hs
    have hP : P v := hor.resolve_right hQ
    by_cases he : Emptied L m₁ Q (v / 1024)
    · have hd : v / 1024 < 1024 := by omega
      exact pageView_of_not_hasTable fun ht => ((h'.table _ hd).mp ht).2 he
    · rw [h'.kept v hv hQ he]
      exact h.gone v hv hP hs
  kept := by
    intro v hv hno he
    rw [h.emptied_or_iff (by omega), not_or] at he
    rw [not_or] at hno
    rw [h'.kept v hv hno.2 he.2, h.kept v hv hno.1 he.1]
  table := by
    intro d hd
    rw [h'.table d hd, h.table d hd, h.emptied_or_iff hd, not_or, and_assoc]
  dir := by
    intro d hd ht
    rw [h'.dir d hd ht, h.dir d hd ((h'.table d hd).mp ht).1]
  free := by
    intro f
    rw [h'.free, h.free, or_assoc]
    refine or_congr_right ⟨?_, ?_⟩
    · rintro (⟨d, hd, ht, he, hf⟩ | ⟨d, hd, ht, he, hf⟩)
      · exact ⟨d, hd, ht, (h.emptied_or_iff hd).mpr (.inl he), hf⟩
      · rw [tableFrame_congr (h.dir d hd ht)] at hf
        exact ⟨d, hd, ((h.table d hd).mp ht).1, (h.emptied_or_iff hd).mpr (.inr he), hf⟩
    · rintro ⟨d, hd, ht, he, hf⟩
      by_cases hP : Emptied L m P d
      · exact .inl ⟨d, hd, ht, hP, hf⟩
      · have ht₁ : HasTable m₁ d := (h.table d hd).mpr ⟨ht, hP⟩
        refine .inr ⟨d, hd, ht₁, ((h.emptied_or_iff hd).mp he).resolve_left hP, ?_⟩
        rwa [tableFrame_congr (h.dir d hd ht₁)]
  zero := h'.zero.trans h.zero

end Swept

/-! ## One page -/

section page

variable {L : Layout} {m : Machine} {va flag v : Nat}

theorem dirIndex_lt (hva : va < 2 ^ 32) : dirIndex va < 1024 := by
  rw [dirIndex_eq]
  omega

theorem emptied_one {d : Nat} (h : Emptied L m (fun w => w = v) d) : d = v / 1024 := by
  obtain ⟨w, hw, rfl⟩ := h.exists_page
  exact hw.symm

theorem slot_cleared_of_ne (hm : PagingSafe L m) (hva : va < 2 ^ 32) (ht : HasTable m (dirIndex va))
    (hv : v < 2 ^ 20) (hne : v ≠ va / 4096) :
    slot L (m.cleared L va) (v * 4096) = slot L m (v * 4096) := by
  rw [Machine.cleared, slot_write, slot_swapTo, if_neg]
  rintro ⟨htv, hf, hi, -⟩
  rw [dirIndex_number] at htv hf
  rw [tableIndex_number, tableIndex_eq] at hi
  have hd : v / 1024 = dirIndex va := hm.frame_inj (by omega) (dirIndex_lt hva) htv ht hf
  rw [dirIndex_eq] at hd
  omega

theorem pageView_cleared (hm : PagingSafe L m) (hva : va < 2 ^ 32) (ht : HasTable m (dirIndex va))
    (hs : va / 4096 ≠ L.swapPage) : pageView L (m.cleared L va) (va / 4096) = none := by
  have hwin : ¬ (tableFrame m (dirIndex va) = L.kernelFrame ∧
      tableIndex va = windowIndex L.pageSwap) := by
    rintro ⟨hf, hi⟩
    have hk := hm.eq_kernel (dirIndex_lt hva) ht hf
    have hdir := L.swapPage_dir
    have hidx := L.swapPage_index
    rw [dirIndex_eq] at hk
    rw [tableIndex_eq] at hi
    omega
  rw [pageView_page, Machine.cleared, slot_write, if_pos ⟨ht, rfl, rfl, hwin⟩, entryView_zero]

theorem ram_cleared_zero (hm : PagingSafe L m) (hva : va < 2 ^ 32) (ht : HasTable m (dirIndex va)) :
    (m.cleared L va).ram 0 = m.ram 0 := by
  have hf := hm.frame_ne_zero (dirIndex_lt hva) ht
  have hk := L.kernelFrame_ne_zero
  funext i
  rw [Machine.cleared, Machine.write]
  dsimp only
  rw [if_neg fun h => hf h.1.symm, ram_swapTo, if_neg fun h => hk h.1.symm]

/-- The table is given back exactly when the scan comes to its end. -/
theorem scanClear_iff_emptied (hm : PagingSafe L m) (hva : va < 2 ^ 32)
    (ht : HasTable m (dirIndex va)) :
    ScanClear L (m.cleared L va) ↔ Emptied L m (fun w => w = va / 4096) (dirIndex va) := by
  by_cases hk : dirIndex va = KERNEL_POS >>> 22
  · have hf : tableFrame m (dirIndex va) = L.kernelFrame := by
      rw [hk] at ht ⊢
      exact hm.kernel ht
    have hdir := L.swapPage_dir
    have hidx := L.swapPage_index
    rw [ScanClear, windowFrame_cleared, hf, hk, emptied_kernel]
    rw [dirIndex_eq] at hk
    by_cases hi : tableIndex va = windowIndex L.pageSwap
    · -- the window is made to show frame 0
      rw [if_pos ⟨rfl, hi⟩, ram_cleared_zero hm hva ht]
      rw [tableIndex_eq] at hi
      exact (and_iff_right (by omega)).symm
    · -- the window's own slot is present
      rw [if_neg fun h => hi h.2]
      refine iff_of_false (fun hclear => ?_) fun hs => ?_
      · have hwin := hclear (windowIndex L.pageSwap) (windowIndex_lt L.pageSwap_mem)
        rw [Machine.cleared, Machine.write] at hwin
        dsimp only at hwin
        rw [if_neg fun h => hi h.2.symm, ram_swapTo, if_pos ⟨rfl, rfl⟩,
          and_PAGE_PRESENT_or (by omega)] at hwin
        exact absurd hwin (by decide)
      · refine hi ?_
        rw [tableIndex_eq, ← hs.1]
        exact hidx
  · rw [scanClear_iff_lastEntry hm.toPagingOk ⟨(dirIndex_lt hva), hk⟩ ht, emptied_iff hk]
    have hown : ∃ v, v / 1024 = dirIndex va ∧ v = va / 4096 :=
      ⟨va / 4096, (dirIndex_eq va).symm, rfl⟩
    rw [and_iff_right hown]
    constructor
    · intro hlast v hv hne
      rw [pageView, entryView_eq_none_iff]
      by_contra hp
      refine hlast (v * 4096) (by rw [dirIndex_number, hv]) ?_ (present_iff.mpr hp)
      rwa [Nat.mul_div_cancel _ (by decide)]
    · intro hnone w hd hne hp
      have hview := hnone (w / 4096) (by rw [← hd, dirIndex_eq]) hne
      rw [pageView_page, entryView_eq_none_iff] at hview
      exact present_iff.mp hp hview

/-- A slot has been cleared, and the table stays. -/
theorem swept_cleared (hm : PagingSafe L m) (hva : va < 2 ^ 32) (ht : HasTable m (dirIndex va))
    (hno : ¬ Emptied L m (fun v => v = va / 4096) (dirIndex va)) :
    Swept L m (fun v => v = va / 4096) (m.cleared L va) := by
  have hnone : ∀ d, ¬ Emptied L m (fun v => v = va / 4096) d := fun d he => by
    rw [emptied_one he, ← dirIndex_eq] at he
    exact hno he
  refine ⟨hm.congr rfl rfl, fun v _ hv hs => ?_, fun v hv hne _ => ?_, fun d _ => ?_,
    fun _ _ _ => rfl, fun f => ?_, ram_cleared_zero hm hva ht⟩
  · subst hv
    exact pageView_cleared hm hva ht hs
  · rw [pageView, slot_cleared_of_ne hm hva ht hv hne, pageView]
  · exact (and_iff_left (hnone d)).symm
  · refine (or_iff_left ?_).symm
    rintro ⟨d, -, -, he, -⟩
    exact hnone d he

/-- A slot has been cleared, and the table given back. -/
theorem swept_dropTable (hm : PagingSafe L m) (hva : va < 2 ^ 32) (ht : HasTable m (dirIndex va))
    (hflag : flag &&& PAGE_PRESENT = 0)
    (he : Emptied L m (fun v => v = va / 4096) (dirIndex va)) :
    Swept L m (fun v => v = va / 4096) (m.dropTable L va flag) := by
  have hiff : ∀ d, Emptied L m (fun v => v = va / 4096) d ↔ d = dirIndex va := fun d => by
    constructor
    · intro hd
      rw [emptied_one hd, ← dirIndex_eq]
    · intro hd
      rwa [hd]
  have htable : ∀ d, HasTable (m.dropTable L va flag) d ↔ HasTable m d ∧ d ≠ dirIndex va := fun d =>
    dropTable_hasTable_iff hflag
  refine ⟨⟨dropTable_paging hm.toPagingOk (dirIndex_lt hva) ht hflag, fun d hd h => ?_⟩,
    fun v _ hv _ => ?_, fun v hv hne hno => ?_, fun d _ => ?_, fun d _ h => ?_, fun f => ?_,
    ram_cleared_zero hm hva ht⟩
  · obtain ⟨h1, h2⟩ := (htable d).mp h
    rw [tableFrame_congr (dropTable_dir h2)]
    exact hm.low d hd h1
  · subst hv
    refine pageView_of_not_hasTable fun h => ((htable _).mp h).2 ?_
    rw [dirIndex_eq]
  · rw [hiff] at hno
    have hdir : dirIndex (v * 4096) ≠ dirIndex va := by rwa [dirIndex_number]
    have hslot : slot L (m.dropTable L va flag) (v * 4096) = slot L (m.cleared L va) (v * 4096) :=
      slot_congr (dropTable_dir hdir) rfl
    rw [pageView, hslot, slot_cleared_of_ne hm hva ht hv hne, pageView]
  · rw [htable, hiff]
  · exact dropTable_dir ((htable d).mp h).2
  · rw [dropTable_isFree]
    refine or_congr_right ?_
    constructor
    · intro hf
      exact ⟨dirIndex va, dirIndex_lt hva, ht, he, hf.symm⟩
    · rintro ⟨d, -, -, hd, hf⟩
      rw [← hf, (hiff d).mp hd]

/-- **One `page_unmap`**, whatever it answers. -/
theorem swept_pageUnmap (hm : PagingSafe L m) (hva : va < 2 ^ 32) (hal : va % 4096 = 0)
    (hflag : flag &&& PAGE_PRESENT = 0) :
    Swept L m (fun v => v = va / 4096) (pageUnmap L va flag m).2 := by
  by_cases ht : HasTable m (dirIndex va)
  · have hscan := scanClear_iff_emptied hm hva ht
    rcases pageUnmap_table flag hal ht with ⟨hclear, he⟩ | ⟨hclear, he⟩
    · rw [he]
      exact swept_dropTable hm hva ht hflag (hscan.mp hclear)
    · rw [he]
      exact swept_cleared hm hva ht fun hempty => hclear (hscan.mpr hempty)
  · rw [pageUnmap_refused flag fun h => ht h.2]
    rw [dirIndex_eq] at ht
    refine .of_nothing hm (fun v _ hv _ => ?_) fun d _ htd he => ?_
    · rw [hv]
      exact pageView_of_not_hasTable ht
    · rw [emptied_one he] at htd
      exact ht htd

end page

/-! ## A run of pages -/

/-- The page `v` is among the first `n` pages of the run at `va`. -/
def AmongFirst (va n v : Nat) : Prop := ∃ j < n, runPage va j / 4096 = v

theorem amongFirst_succ {va n v : Nat} :
    AmongFirst va (n + 1) v ↔ AmongFirst va n v ∨ v = runPage va n / 4096 := by
  constructor
  · rintro ⟨j, hj, hv⟩
    by_cases hjn : j = n
    · subst hjn
      exact .inr hv.symm
    · exact .inl ⟨j, by omega, hv⟩
  · rintro (⟨j, hj, hv⟩ | hv)
    · exact ⟨j, by omega, hv⟩
    · exact ⟨n, by omega, hv.symm⟩

theorem not_amongFirst_zero {va v : Nat} : ¬ AmongFirst va 0 v := by
  rintro ⟨j, hj, -⟩
  omega

theorem runPage_lt (va i : Nat) : runPage va i < 2 ^ 32 := add32_lt va (i <<< 12)

theorem pageUnmapBack_succ (L : Layout) (va i : Nat) (m : Machine) : pageUnmapBack L va (i + 1) m =
    pageUnmapBack L va i (pageUnmap L (runPage va i) PAGE_NOTHING m).2 := rfl

/-- **The error path of `page_map_range`** unmaps the pages before the one that failed. -/
theorem swept_pageUnmapBack {L : Layout} {va : Nat} (hva : va % 4096 = 0) (i : Nat) :
    ∀ {m : Machine}, PagingSafe L m → Swept L m (AmongFirst va i) (pageUnmapBack L va i m) := by
  induction i with
  | zero =>
    intro m hm
    exact (Swept.nil hm).congr fun v => (iff_false_intro not_amongFirst_zero).symm
  | succ i ih =>
    intro m hm
    have hone : Swept L m (fun v => v = runPage va i / 4096)
        (pageUnmap L (runPage va i) PAGE_NOTHING m).2 :=
      swept_pageUnmap hm (runPage_lt va i) (runPage_aligned hva i) (by decide)
    rw [pageUnmapBack_succ]
    exact (hone.trans (ih hone.safe)).congr fun v => by rw [amongFirst_succ, or_comm]

end Moonlight
