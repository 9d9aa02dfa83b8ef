import MoonlightKernel.TableFrames

/-!
# Taking pages out of the page tables

`page_unmap` clears one slot; when the table has no present entry left it gives the table's frame
back.  `page_map_range` with `PAGE_NOTHING` does this page by page.

* `Present` — what `page_is_present` answers;
* `PagingOk` — `TablesOk`, and the kernel image is translated by `kernel_page`;
* `pageUnmap_unmapped` — one page;
* `pageMapRange_unmapped` — a run of pages: exactly they stop being present, and a table is given
  back exactly when no other page of it is present.
-/

set_option autoImplicit false

namespace Moonlight

open Sys Sys.Bitmap

/-- What `page_is_present` answers. -/
abbrev Present (L : Layout) (m : Machine) (v : Nat) : Prop := (pageIsPresent L v m).1 = true

theorem present_iff {L : Layout} {m : Machine} {v : Nat} :
    Present L m v ↔ slot L m v &&& PAGE_PRESENT ≠ 0 := by
  rw [Present, pageIsPresent_eq, decide_eq_true_iff]

/-- Presence does not depend on `mm_bitmap`. -/
theorem present_setBitmap {L : Layout} {m : Machine} {bm : Bytes} {v : Nat} :
    Present L (m.setBitmap bm) v ↔ Present L m v := by
  have hslot : slot L (m.setBitmap bm) v = slot L m v := slot_congr rfl rfl
  rw [present_iff, present_iff, hslot]

theorem present_congr {L : Layout} {m : Machine} {v w : Nat} (h : v / 4096 = w / 4096) :
    Present L m v ↔ Present L m w := by
  rw [present_iff, present_iff, ← slot_page L m v, ← slot_page L m w, h]

/-- Page tables have frames of their own, and the kernel image has `kernel_page`. -/
structure PagingOk (L : Layout) (m : Machine) : Prop extends TablesOk L m where
  kernel : HasTable m (KERNEL_POS >>> 22) → tableFrame m (KERNEL_POS >>> 22) = L.kernelFrame

namespace PagingOk

variable {L : Layout} {m : Machine}

/-- Another directory entry has another table. -/
theorem frame_ne (h : PagingOk L m) {d e : Nat} (hd : PageDir d) (he : e < 1024) (hne : e ≠ d)
    (htd : HasTable m d) (hte : HasTable m e) : tableFrame m e ≠ tableFrame m d := by
  by_cases hk : e = KERNEL_POS >>> 22
  · subst hk
    rw [h.kernel hte]
    exact (h.notKernel d hd htd).symm
  · exact fun heq => hne (h.apart e d ⟨he, hk⟩ hd hte htd heq)

end PagingOk

/-! ## One page -/

/-- No page of the table of `va` but `va` itself is present. -/
def LastEntry (L : Layout) (m : Machine) (va : Nat) : Prop :=
  ∀ v, dirIndex v = dirIndex va → v / 4096 ≠ va / 4096 → ¬ Present L m v

/-- What `m'` is after `page_unmap` of `va` in `m`. -/
structure Unmapped (L : Layout) (m : Machine) (va : Nat) (m' : Machine) : Prop where
  hasTable : HasTable m (dirIndex va)
  present : ∀ v < 2 ^ 32, Present L m' v ↔ Present L m v ∧ v / 4096 ≠ va / 4096
  bitmap : ∀ f, isFree m'.mmBitmap f = true ↔
    isFree m.mmBitmap f = true ∨ (f = tableFrame m (dirIndex va) ∧ LastEntry L m va)
  dir : ∀ d, d ≠ dirIndex va ∨ ¬ LastEntry L m va → m'.pageDirectory d = m.pageDirectory d
  gone : LastEntry L m va → ¬ HasTable m' (dirIndex va)
  paging : PagingOk L m'

theorem slot_of_table {L : Layout} {m : Machine} {v : Nat} (h : HasTable m (dirIndex v))
    (hk : tableFrame m (dirIndex v) ≠ L.kernelFrame) :
    slot L m v = m.ram (tableFrame m (dirIndex v)) (tableIndex v) := by
  rw [slot_eq_ram h, if_neg fun hw => hk hw.1]

/-- The page that the slot `i` of the table `d` translates. -/
theorem dirIndex_slot {d i : Nat} (hi : i < 1024) : dirIndex ((d * 1024 + i) * 4096) = d ∧
    tableIndex ((d * 1024 + i) * 4096) = i := by
  rw [dirIndex_eq, tableIndex_eq, Nat.mul_div_cancel _ (by decide)]
  omega

/-- The state after the slot of `va` has been cleared. -/
def Machine.cleared (L : Layout) (m : Machine) (va : Nat) : Machine :=
  (m.swapTo L (tableFrame m (dirIndex va))).write (tableFrame m (dirIndex va)) (tableIndex va) 0

section cleared

variable {L : Layout} {m : Machine} {va : Nat}

theorem cleared_present (hm : PagingOk L m) (hva : PageDir (dirIndex va))
    (ht : HasTable m (dirIndex va)) {v : Nat} (hv : v < 2 ^ 32) :
    Present L (m.cleared L va) v ↔ Present L m v ∧ v / 4096 ≠ va / 4096 := by
  have hk := hm.notKernel _ hva ht
  rw [present_iff, present_iff, Machine.cleared, slot_write, slot_swapTo]
  by_cases hd : dirIndex v = dirIndex va
  · by_cases hi : tableIndex v = tableIndex va
    · rw [if_pos ⟨hd ▸ ht, congrArg _ hd, hi, fun h => hk h.1⟩]
      simp [(page_eq_iff v va).mpr ⟨hd, hi⟩]
    · rw [if_neg fun h => hi h.2.2.1]
      exact (and_iff_left fun h => hi ((page_eq_iff v va).mp h).2).symm
  · have hvd : dirIndex v < 1024 := by rw [dirIndex_eq]; omega
    rw [if_neg]
    · exact (and_iff_left fun h => hd ((page_eq_iff v va).mp h).1).symm
    · rintro ⟨htv, hf, -⟩
      exact hm.frame_ne hva hvd hd ht htv hf

/-- The scan of the table sees the present pages other than `va`. -/
theorem cleared_scan (hm : PagingOk L m) (hva : PageDir (dirIndex va))
    (ht : HasTable m (dirIndex va)) :
    ((List.range 1024).any fun i =>
      (m.cleared L va).ram (tableFrame m (dirIndex va)) i &&& PAGE_PRESENT ≠ 0) = false ↔
      LastEntry L m va := by
  have hk := hm.notKernel _ hva ht
  have hram : ∀ i, (m.cleared L va).ram (tableFrame m (dirIndex va)) i =
      if i = tableIndex va then 0 else m.ram (tableFrame m (dirIndex va)) i := fun i => by
    simp only [Machine.cleared, Machine.write, true_and, ram_swapTo]
    split
    · rfl
    · rw [if_neg fun h => hk h.1]
  rw [List.any_eq_false]
  simp only [List.mem_range, hram, decide_eq_true_eq, not_not]
  constructor
  · intro h v hd hne hp
    have hi : tableIndex v ≠ tableIndex va := fun hi => hne ((page_eq_iff v va).mpr ⟨hd, hi⟩)
    have hz := h (tableIndex v) (tableIndex_lt v)
    rw [if_neg hi] at hz
    have htv : HasTable m (dirIndex v) := hd.symm ▸ ht
    have hkv : tableFrame m (dirIndex v) ≠ L.kernelFrame := hd.symm ▸ hk
    rw [present_iff, slot_of_table htv hkv, hd] at hp
    exact hp hz
  · intro h i hi
    split
    · rfl
    · rename_i hne
      obtain ⟨hd, hti⟩ := dirIndex_slot (d := dirIndex va) hi
      by_contra hz
      refine h _ hd (fun he => hne ?_) ?_
      · rw [← hti]; exact ((page_eq_iff _ _).mp he).2
      · rw [present_iff, slot_of_table (by rw [hd]; exact ht) (by rw [hd]; exact hk), hd, hti]
        exact hz

theorem cleared_paging (hm : PagingOk L m) : PagingOk L (m.cleared L va) :=
  ⟨hm.toTablesOk.congr rfl hm.taken, hm.kernel⟩

end cleared

/-- The state after the emptied table of `va` has been given back. -/
def Machine.dropTable (L : Layout) (m : Machine) (va flag : Nat) : Machine :=
  ((m.cleared L va).setBitmap
    (freePhysBlock (tableFrame m (dirIndex va) * 4096) 1 m.mmBitmap)).setDir (dirIndex va) flag

/-- `page_unmap` refuses an address that is not aligned or has no table. -/
theorem pageUnmap_refused {L : Layout} {va : Nat} {m : Machine} (flag : Nat)
    (h : ¬ (va % 4096 = 0 ∧ HasTable m (dirIndex va))) : pageUnmap L va flag m = (-EINVAL, m) := by
  unfold pageUnmap
  rw [and_PAGE_FLAG]
  by_cases hal : va % 4096 = 0
  · rw [if_neg (not_not.mpr hal)]
    dsimp only
    by_cases hsize : m.pageDirectory (dirIndex va) &&& PAGE_SIZE = 0
    · rw [if_neg (not_not.mpr hsize), if_pos]
      by_contra hpres
      exact h ⟨hal, hpres, hsize⟩
    · rw [if_pos hsize]
  · rw [if_pos hal]

/-- The window shows the table whose slot has been cleared, unless the slot is the window's own:
then it shows frame 0. -/
theorem windowFrame_cleared (L : Layout) (m : Machine) (va : Nat) :
    windowFrame L L.pageSwap (m.cleared L va) =
      if tableFrame m (dirIndex va) = L.kernelFrame ∧ tableIndex va = windowIndex L.pageSwap then 0
      else tableFrame m (dirIndex va) := by
  by_cases hwin : tableFrame m (dirIndex va) = L.kernelFrame ∧
      tableIndex va = windowIndex L.pageSwap
  · rw [if_pos hwin]
    unfold windowFrame Machine.cleared Machine.write
    dsimp only
    rw [if_pos ⟨hwin.1.symm, hwin.2.symm⟩]
    rfl
  · have hshown := windowFrame_swapTo L (tableFrame_lt m (dirIndex va)) m
    rw [if_neg hwin, ← hshown]
    unfold windowFrame Machine.cleared Machine.write
    dsimp only
    rw [if_neg fun h => hwin ⟨h.1.symm, h.2.symm⟩]

/-- The scan of `page_unmap` meets no present entry. -/
def ScanClear (L : Layout) (m : Machine) : Prop :=
  ∀ i < 1024, m.ram (windowFrame L L.pageSwap m) i &&& PAGE_PRESENT = 0

/-- **`page_unmap` of an aligned page under a table** clears its slot, and gives the table back
when the scan meets no present entry. -/
theorem pageUnmap_table {L : Layout} {va : Nat} {m : Machine} (flag : Nat) (hal : va % 4096 = 0)
    (ht : HasTable m (dirIndex va)) :
    (ScanClear L (m.cleared L va) ∧ pageUnmap L va flag m = (0, m.dropTable L va flag)) ∨
      (¬ ScanClear L (m.cleared L va) ∧ pageUnmap L va flag m = (0, m.cleared L va)) := by
  generalize hr : pageUnmap L va flag m = r
  unfold pageUnmap at hr
  rw [and_PAGE_FLAG, if_neg (not_not.mpr hal)] at hr
  dsimp only at hr
  rw [if_neg (not_not.mpr ht.2), if_neg ht.1, PAGE_GET_ADDR_dir, accessTable_pageSwap] at hr
  simp only [ne_eq, not_true_eq_false, ↓reduceIte,
    windowFrame_swapTo L (tableFrame_lt m _)] at hr
  have hset : pageEntrySet (tableFrame m (dirIndex va)) (tableIndex va) 0 PAGE_NOTHING
      (m.swapTo L (tableFrame m (dirIndex va))) = (0, m.cleared L va) := by
    unfold pageEntrySet
    rw [if_neg (by decide), if_neg (by decide), if_neg (Nat.not_le.mpr (tableIndex_lt va))]
    rfl
  have haddr : PAGE_GET_ADDR ((m.cleared L va).pageDirectory (dirIndex va) &&& 0xFFFFFFFE) =
      tableFrame m (dirIndex va) * 4096 := by
    rw [← PAGE_GET_ADDR_dir, PAGE_GET_ADDR, PAGE_GET_ADDR, Nat.and_assoc]
    rfl
  simp only [hset, haddr, not_true_eq_false, ↓reduceIte] at hr
  have hscan : ((List.range 1024).any fun i => decide (¬ (m.cleared L va).ram
      (windowFrame L L.pageSwap (m.cleared L va)) i &&& PAGE_PRESENT = 0)) = false ↔
      ScanClear L (m.cleared L va) := by
    rw [List.any_eq_false, ScanClear]
    simp only [List.mem_range, decide_eq_true_eq, not_not]
  generalize ((List.range 1024).any fun i => decide (¬ (m.cleared L va).ram
    (windowFrame L L.pageSwap (m.cleared L va)) i &&& PAGE_PRESENT = 0)) = scan at hscan hr
  cases scan with
  | true => exact .inr ⟨fun hclear => Bool.noConfusion (hscan.mpr hclear), hr.symm⟩
  | false => exact .inl ⟨hscan.mp rfl, hr.symm⟩

/-- Outside the kernel's table, the scan sees the present pages other than `va`. -/
theorem scanClear_iff_lastEntry {L : Layout} {va : Nat} {m : Machine} (hm : PagingOk L m)
    (hva : PageDir (dirIndex va)) (ht : HasTable m (dirIndex va)) :
    ScanClear L (m.cleared L va) ↔ LastEntry L m va := by
  rw [ScanClear, windowFrame_cleared, if_neg fun h => hm.notKernel _ hva ht h.1,
    ← cleared_scan hm hva ht, List.any_eq_false]
  simp only [List.mem_range, decide_eq_true_eq, not_not]

/-- **The three outcomes of `page_unmap`.** -/
theorem pageUnmap_spec {L : Layout} {va : Nat} {m : Machine} (hm : PagingOk L m)
    (hva : PageDir (dirIndex va)) (flag : Nat) :
    (pageUnmap L va flag m = (-EINVAL, m) ∧ ¬ (va % 4096 = 0 ∧ HasTable m (dirIndex va))) ∨
      (va % 4096 = 0 ∧ HasTable m (dirIndex va) ∧
        ((¬ LastEntry L m va ∧ pageUnmap L va flag m = (0, m.cleared L va)) ∨
          (LastEntry L m va ∧ pageUnmap L va flag m = (0, m.dropTable L va flag)))) := by
  by_cases hok : va % 4096 = 0 ∧ HasTable m (dirIndex va)
  · obtain ⟨hal, ht⟩ := hok
    refine .inr ⟨hal, ht, ?_⟩
    rw [← scanClear_iff_lastEntry hm hva ht]
    exact (pageUnmap_table flag hal ht).symm
  · exact .inl ⟨pageUnmap_refused flag hok, hok⟩

theorem dropTable_dir {L : Layout} {m : Machine} {va flag d : Nat} (hd : d ≠ dirIndex va) :
    (m.dropTable L va flag).pageDirectory d = m.pageDirectory d := Function.update_of_ne hd ..

theorem dropTable_hasTable_iff {L : Layout} {m : Machine} {va flag d : Nat}
    (hflag : flag &&& PAGE_PRESENT = 0) :
    HasTable (m.dropTable L va flag) d ↔ HasTable m d ∧ d ≠ dirIndex va := by
  by_cases hd : d = dirIndex va
  · refine iff_of_false (fun h => h.1 ?_) fun h => h.2 hd
    rw [hd]
    simp only [Machine.dropTable, Machine.setDir, Function.update_self]
    exact hflag
  · rw [hasTable_congr (dropTable_dir hd), and_iff_left hd]

theorem dropTable_present {L : Layout} {m : Machine} {va flag : Nat} (hm : PagingOk L m)
    (hva : PageDir (dirIndex va)) (hl : LastEntry L m va) (ht : HasTable m (dirIndex va))
    (hflag : flag &&& PAGE_PRESENT = 0) {v : Nat} (hv : v < 2 ^ 32) :
    Present L (m.dropTable L va flag) v ↔ Present L m v ∧ v / 4096 ≠ va / 4096 := by
  by_cases hd : dirIndex v = dirIndex va
  · have hno : ¬ HasTable (m.dropTable L va flag) (dirIndex v) := fun h =>
      ((dropTable_hasTable_iff hflag).mp h).2 hd
    rw [present_iff, slot_of_not_hasTable hno]
    refine iff_of_false (fun h => h (Nat.zero_and _)) fun h => ?_
    exact hl v hd h.2 h.1
  · have hslot : slot L (m.dropTable L va flag) v = slot L (m.cleared L va) v :=
      slot_congr (dropTable_dir hd) rfl
    rw [present_iff, hslot, ← present_iff, cleared_present hm hva ht hv]

theorem dropTable_isFree {L : Layout} {m : Machine} {va flag f : Nat} :
    isFree (m.dropTable L va flag).mmBitmap f = true ↔
      isFree m.mmBitmap f = true ∨ f = tableFrame m (dirIndex va) := by
  have hlt := tableFrame_lt m (dirIndex va)
  show isFree (freePhysBlock (tableFrame m (dirIndex va) * 4096) 1 m.mmBitmap) f = true ↔ _
  rw [isFree_freePhysBlock (by omega), Bool.or_eq_true, decide_eq_true_eq,
    Nat.mul_div_cancel _ (by decide)]
  exact or_congr_right (by omega)

theorem dropTable_paging {L : Layout} {m : Machine} {va flag : Nat} (hm : PagingOk L m)
    (hva : dirIndex va < 1024) (ht : HasTable m (dirIndex va))
    (hflag : flag &&& PAGE_PRESENT = 0) : PagingOk L (m.dropTable L va flag) := by
  have hold : ∀ {d}, HasTable (m.dropTable L va flag) d → d ≠ dirIndex va ∧ HasTable m d ∧
      tableFrame (m.dropTable L va flag) d = tableFrame m d := fun {d} h => by
    obtain ⟨h1, hd⟩ := (dropTable_hasTable_iff hflag).mp h
    exact ⟨hd, h1, tableFrame_congr (dropTable_dir hd)⟩
  refine ⟨⟨fun d hd h => ?_, fun d hd h => ?_, fun d e hd he h h' heq => ?_⟩, fun h => ?_⟩
  · obtain ⟨hne, h1, h2⟩ := hold h
    rw [h2, ← Bool.not_eq_true, dropTable_isFree, hm.taken d hd h1]
    rintro (hf | hf)
    · cases hf
    · exact hm.frame_ne hd hva hne.symm h1 ht hf.symm
  · obtain ⟨-, h1, h2⟩ := hold h
    rw [h2]; exact hm.notKernel d hd h1
  · obtain ⟨-, h1, h2⟩ := hold h
    obtain ⟨-, h3, h4⟩ := hold h'
    exact hm.apart d e hd he h1 h3 (by rw [← h2, ← h4]; exact heq)
  · obtain ⟨-, h1, h2⟩ := hold h
    rw [h2]; exact hm.kernel h1

/-- **A successful `page_unmap`.** -/
theorem pageUnmap_unmapped {L : Layout} {va flag : Nat} {m m' : Machine} (hm : PagingOk L m)
    (hva : PageDir (dirIndex va)) (hflag : flag &&& PAGE_PRESENT = 0)
    (h : pageUnmap L va flag m = (0, m')) : Unmapped L m va m' := by
  rcases pageUnmap_spec hm hva flag with ⟨he, -⟩ | ⟨-, ht, ⟨hl, he⟩ | ⟨hl, he⟩⟩
  · rw [he] at h; cases h
  · rw [he] at h
    cases h
    exact ⟨ht, fun v hv => cleared_present hm hva ht hv, fun f => by simp [hl]; rfl,
      fun d _ => rfl, fun h => absurd h hl, cleared_paging hm⟩
  · rw [he] at h
    cases h
    refine ⟨ht, fun v hv => dropTable_present hm hva hl ht hflag hv, fun f => ?_, fun d hd => ?_,
      fun _ h => ?_, dropTable_paging hm hva.1 ht hflag⟩
    · rw [dropTable_isFree, and_iff_left hl]
    · exact Function.update_of_ne (hd.resolve_right fun h => h hl) ..
    · refine h.1 ?_
      simp only [Machine.dropTable, Machine.setDir, Function.update_self]
      exact hflag

/-! ## A run of pages -/

/-- Page `i` of the run at `va`. -/
def runPage (va i : Nat) : Nat := add32 va (i <<< 12)

/-- The page of `v` is one of the `n` pages from `va` on. -/
def InPages (va n v : Nat) : Prop := va / 4096 ≤ v / 4096 ∧ v / 4096 < va / 4096 + n

/-- Every present page in the table of `w` belongs to the run. -/
def OnlyRun (L : Layout) (m : Machine) (va n w : Nat) : Prop :=
  ∀ v, dirIndex v = dirIndex w → Present L m v → InPages va n v

/-- What `m'` is after the pages of a run have been unmapped in `m`. -/
structure RunUnmapped (L : Layout) (m : Machine) (va n : Nat) (m' : Machine) : Prop where
  hasTable : ∀ w, InPages va n w → HasTable m (dirIndex w)
  present : ∀ v < 2 ^ 32, Present L m' v ↔ Present L m v ∧ ¬ InPages va n v
  bitmap : ∀ f, isFree m'.mmBitmap f = true ↔ isFree m.mmBitmap f = true ∨
    ∃ w, InPages va n w ∧ f = tableFrame m (dirIndex w) ∧ OnlyRun L m va n w
  paging : PagingOk L m'

theorem inPages_succ {va n v : Nat} :
    InPages va (n + 1) v ↔ v / 4096 = va / 4096 ∨ InPages (va + 4096) n v := by
  unfold InPages
  omega

theorem dirIndex_congr {v w : Nat} (h : v / 4096 = w / 4096) : dirIndex v = dirIndex w := by
  rw [dirIndex_eq, dirIndex_eq, h]

theorem PageDir.lt {v : Nat} (h : PageDir (dirIndex v)) : v < 2 ^ 32 := by
  have := h.1
  rw [dirIndex_eq] at this
  omega

/-- A table that is still there after one page of it has been unmapped was not given back. -/
theorem Unmapped.dir_of_hasTable {L : Layout} {m m₁ : Machine} {va d : Nat}
    (h : Unmapped L m va m₁) (ht : HasTable m₁ d) : m₁.pageDirectory d = m.pageDirectory d := by
  by_cases hd : d = dirIndex va
  · exact h.dir d (.inr fun hl => h.gone hl (hd ▸ ht))
  · exact h.dir d (.inl hd)

theorem RunUnmapped.cons {L : Layout} {m m₁ m' : Machine} {va n : Nat}
    (hdirs : ∀ w, InPages va (n + 1) w → PageDir (dirIndex w)) (h₁ : Unmapped L m va m₁)
    (h : RunUnmapped L m₁ (va + 4096) n m') : RunUnmapped L m va (n + 1) m' := by
  have hva : InPages va (n + 1) va := by unfold InPages; omega
  -- the tables of the remaining pages are those of `m`
  have hdir : ∀ w, InPages (va + 4096) n w → m₁.pageDirectory (dirIndex w) =
      m.pageDirectory (dirIndex w) := fun w hw => h₁.dir_of_hasTable (h.hasTable w hw)
  have hpres₁ : ∀ {v w}, InPages va (n + 1) w → dirIndex v = dirIndex w →
      (Present L m₁ v ↔ Present L m v ∧ v / 4096 ≠ va / 4096) := fun hw hd =>
    h₁.present _ (PageDir.lt (by rw [hd]; exact hdirs _ hw))
  refine ⟨fun w hw => ?_, fun v hv => ?_, fun f => ?_, h.paging⟩
  · rcases inPages_succ.mp hw with hp | hr
    · rw [dirIndex_congr hp]; exact h₁.hasTable
    · exact (hasTable_congr (hdir w hr)).mp (h.hasTable w hr)
  · rw [h.present v hv, h₁.present v hv, inPages_succ, not_or, and_assoc]
  · rw [h.bitmap, h₁.bitmap, or_assoc]
    refine or_congr_right ⟨?_, ?_⟩
    · rintro (⟨rfl, hl⟩ | ⟨w, hw, rfl, honly⟩)
      · refine ⟨va, hva, rfl, fun v hd hp => inPages_succ.mpr (.inl ?_)⟩
        by_contra hne
        exact hl v hd hne hp
      · have hw' := inPages_succ.mpr (.inr hw)
        refine ⟨w, hw', tableFrame_congr (hdir w hw), fun v hd hp => inPages_succ.mpr ?_⟩
        by_cases hpv : v / 4096 = va / 4096
        · exact .inl hpv
        · exact .inr (honly v hd ((hpres₁ hw' hd).mpr ⟨hp, hpv⟩))
    · rintro ⟨w, hw, rfl, honly⟩
      -- a page of the table of `w` that is unmapped after `va`, if there is one
      by_cases hlater : ∃ w', InPages (va + 4096) n w' ∧ dirIndex w' = dirIndex w
      · obtain ⟨w', hw', hd⟩ := hlater
        refine .inr ⟨w', hw', ?_, fun v hdv hp => ?_⟩
        · rw [tableFrame_congr (hdir w' hw'), hd]
        · have hr := (hpres₁ (inPages_succ.mpr (.inr hw')) hdv).mp hp
          exact (inPages_succ.mp (honly v (hdv.trans hd) hr.1)).resolve_left hr.2
      · have hdw : dirIndex w = dirIndex va := by
          rcases inPages_succ.mp hw with hp | hr
          · exact dirIndex_congr hp
          · exact absurd ⟨w, hr, rfl⟩ hlater
        refine .inl ⟨by rw [hdw], fun v hd hne hp => hlater ⟨v, ?_, hd.trans hdw.symm⟩⟩
        exact (inPages_succ.mp (honly v (hd.trans hdw.symm) hp)).resolve_left hne

theorem add32_page {pa : Nat} (hpa : pa % 4096 = 0) (i : Nat) :
    add32 pa (i * 4096) % 4096 = 0 := by
  unfold add32
  omega

/-- `page_map` without `PAGE_PRESENT` is `page_unmap`. -/
theorem pageMap_unmaps {L : Layout} {pa va flag : Nat} {m : Machine} (hpa : pa % 4096 = 0)
    (hva : va % 4096 = 0) (hfa : flag &&& PAGE_ADDR = 0) (hflag : flag &&& PAGE_PRESENT = 0) :
    pageMap L pa va flag m = pageUnmap L va flag m := by
  unfold pageMap
  rw [and_PAGE_FLAG, and_PAGE_FLAG, if_neg (by omega), if_neg (by omega),
    if_neg (fun h => h hfa), if_pos hflag]

section absent

variable {L : Layout} {pa va flag : Nat}

theorem pageMapLoop_unmapped (hpa : pa % 4096 = 0) (hva : va % 4096 = 0)
    (hfa : flag &&& PAGE_ADDR = 0) (hflag : flag &&& PAGE_PRESENT = 0) (n : Nat) :
    ∀ {i j : Nat} {m m' : Machine}, PagingOk L m →
      (∀ w, InPages (va + i * 4096) n w → PageDir (dirIndex w)) →
      pageMapLoop L pa va flag n i m = (0, j, m') →
        RunUnmapped L m (va + i * 4096) n m' := by
  induction n with
  | zero =>
    intro i j m m' hm _ h
    rw [pageMapLoop] at h
    cases h
    have hno : ∀ w, ¬ InPages (va + i * 4096) 0 w := fun w hw => by unfold InPages at hw; omega
    exact ⟨fun w hw => absurd hw (hno w), fun v _ => (and_iff_left (hno v)).symm,
      fun f => by simp [hno], hm⟩
  | succ n ih =>
    intro i j m m' hm hdirs h
    have hd : PageDir (dirIndex (va + i * 4096)) := hdirs _ (by unfold InPages; omega)
    have hlt := hd.lt
    rw [pageMapLoop, shiftLeft_page, add32_of_lt hlt,
      pageMap_unmaps (add32_page hpa i) (by omega) hfa hflag] at h
    split at h
    · rename_i herr
      exact absurd (congrArg Prod.fst h) herr
    · rename_i hok
      have hu := pageUnmap_unmapped hm hd hflag (Prod.ext (by simpa using hok) rfl)
      refine .cons hdirs hu ?_
      have hnext : va + i * 4096 + 4096 = va + (i + 1) * 4096 := by omega
      rw [hnext]
      refine ih hu.paging (fun w hw => hdirs w ?_) h
      rw [inPages_succ, hnext]
      exact .inr hw

/-- **A successful unmapping of a run of pages.** -/
theorem pageMapRange_unmapped {n : Nat} {m m' : Machine} (hm : PagingOk L m) (hpa : pa % 4096 = 0)
    (hva : va % 4096 = 0) (hfa : flag &&& PAGE_ADDR = 0) (hflag : flag &&& PAGE_PRESENT = 0)
    (hdirs : ∀ w, InPages va n w → PageDir (dirIndex w))
    (h : pageMapRange L pa va flag n m = (0, m')) : RunUnmapped L m va n m' := by
  unfold pageMapRange at h
  dsimp only at h
  split at h
  · rename_i herr
    exact absurd (congrArg Prod.fst h) herr
  · rename_i hok
    cases h
    have hrun := pageMapLoop_unmapped hpa hva hfa hflag n (i := 0)
      (j := (pageMapLoop L pa va flag n 0 m).2.1) hm (by simpa using hdirs)
      (Prod.ext (by simpa using hok) rfl)
    simpa using hrun

theorem hasTable_of_present {m : Machine} {v : Nat} (h : Present L m v) :
    HasTable m (dirIndex v) := by
  by_contra hno
  rw [present_iff, slot_of_not_hasTable hno] at h
  exact h (Nat.zero_and _)

/-- A page that is present can be unmapped. -/
theorem pageUnmap_present {m : Machine} (hm : PagingOk L m) (hd : PageDir (dirIndex va))
    (hva : va % 4096 = 0) (h : Present L m va) : (pageUnmap L va flag m).1 = 0 := by
  rcases pageUnmap_spec hm hd flag with ⟨-, hno⟩ | ⟨-, -, ⟨-, he⟩ | ⟨-, he⟩⟩
  · exact absurd ⟨hva, hasTable_of_present h⟩ hno
  · rw [he]
  · rw [he]

theorem pageMapLoop_unmaps (hpa : pa % 4096 = 0) (hva : va % 4096 = 0)
    (hfa : flag &&& PAGE_ADDR = 0) (hflag : flag &&& PAGE_PRESENT = 0) (n : Nat) :
    ∀ {i : Nat} {m : Machine}, PagingOk L m →
      (∀ j, i ≤ j → j < i + n → PageDir (dirIndex (va + j * 4096)) ∧ Present L m (va + j * 4096)) →
      (pageMapLoop L pa va flag n i m).1 = 0 := by
  induction n with
  | zero => intro i m _ _; rfl
  | succ n ih =>
    intro i m hm hpages
    obtain ⟨hd, hp⟩ := hpages i (Nat.le_refl i) (by omega)
    have hok : (pageUnmap L (va + i * 4096) flag m).1 = 0 := pageUnmap_present hm hd (by omega) hp
    have hu := pageUnmap_unmapped hm hd hflag (Prod.ext hok rfl)
    rw [pageMapLoop, shiftLeft_page, add32_of_lt hd.lt,
      pageMap_unmaps (add32_page hpa i) (by omega) hfa hflag, if_neg (by rw [hok]; decide)]
    -- the pages that are left are still present, so their tables are there
    refine ih hu.paging fun j hj hjn => ?_
    obtain ⟨hdj, hpj⟩ := hpages j (by omega) (by omega)
    exact ⟨hdj, (hu.present _ hdj.lt).mpr ⟨hpj, by omega⟩⟩

/-- **The unmapping of a run of present pages succeeds.** -/
theorem pageMapRange_unmaps {n : Nat} {m : Machine} (hm : PagingOk L m) (hpa : pa % 4096 = 0)
    (hva : va % 4096 = 0) (hfa : flag &&& PAGE_ADDR = 0) (hflag : flag &&& PAGE_PRESENT = 0)
    (hpages : ∀ i < n, PageDir (dirIndex (va + i * 4096)) ∧ Present L m (va + i * 4096)) :
    (pageMapRange L pa va flag n m).1 = 0 := by
  have hok := pageMapLoop_unmaps (i := 0) hpa hva hfa hflag n hm fun j _ hj => hpages j (by omega)
  unfold pageMapRange
  dsimp only
  rw [if_neg (by rw [hok]; decide)]

end absent

end Moonlight
