import MoonlightKernel.Sweep

/-!
# Mapping the first pages of a run

`page_map_range` with `PAGE_PRESENT` has mapped some pages when it fails.  Up to then it has opened
a table for each directory entry that had none, in frames that `get_phys_block` hands out one after
the other; what these frames contained is still there, outside the slots of the run.

* `nextTable` — the frames that become tables, told from `mm_bitmap` alone;
* `Opened` — the state after the tables of the first pages have been opened and some pages mapped;
* `Opened.opened`, `Opened.stored` — one more table, one more page;
* `Opened.mapped`, `Opened.failed` — a `page_map` that succeeds, and one that fails.
-/

set_option autoImplicit false

namespace Moonlight

open Sys Sys.Bitmap

/-- `mm_bitmap` after `k` tables have been taken from it. -/
def takeTables : Nat → Bytes → Bytes
  | 0, mmBitmap => mmBitmap
  | k + 1, mmBitmap => (getPhysBlock 1 (takeTables k mmBitmap)).2

/-- The frame of the table that is taken after `k` others. -/
def nextTable (k : Nat) (mmBitmap : Bytes) : Nat :=
  (getPhysBlock 1 (takeTables k mmBitmap)).1 / 4096

/-- The page `j` of a run is the first one whose directory entry has no table. -/
def OpensTable (m : Machine) (va j : Nat) : Prop :=
  m.pageDirectory (dirIndex (runPage va j)) &&& PAGE_PRESENT = 0 ∧
    dirIndex (runPage va j) ∉ missing m va 0 j

/-- What `m'` is after the tables of the first `i` pages of the run at `va` have been opened in `m`
and the pages `Q` mapped. -/
structure Opened (L : Layout) (m : Machine) (va i : Nat) (Q : Nat → Prop) (m' : Machine) :
    Prop where
  safe : PagingSafe L m'
  table : ∀ d, HasTable m' d ↔ HasTable m d ∨ d ∈ missing m va 0 i
  absent : ∀ d, m'.pageDirectory d &&& PAGE_PRESENT = 0 ↔
    m.pageDirectory d &&& PAGE_PRESENT = 0 ∧ d ∉ missing m va 0 i
  dir : ∀ d, HasTable m d → m'.pageDirectory d = m.pageDirectory d
  bitmap : m'.mmBitmap = takeTables (missing m va 0 i).card m.mmBitmap
  frame : ∀ j < i, OpensTable m va j →
    tableFrame m' (dirIndex (runPage va j)) = nextTable (missing m va 0 j).card m.mmBitmap
  fresh : ∀ d ∈ missing m va 0 i, isFree m.mmBitmap (tableFrame m' d) = true
  free : ∀ f, isFree m'.mmBitmap f = true ↔
    isFree m.mmBitmap f = true ∧ ∀ d ∈ missing m va 0 i, tableFrame m' d ≠ f
  kept : ∀ v < 2 ^ 20, HasTable m (v / 1024) → ¬ Q v → pageView L m' v = pageView L m v
  shown : ∀ v < 2 ^ 20, v / 1024 ∈ missing m va 0 i → ¬ Q v →
    pageView L m' v = entryView (m.ram (tableFrame m' (v / 1024)) (v % 1024))
  ram : ∀ f, f ≠ L.kernelFrame → isFree m'.mmBitmap f = true → m'.ram f = m.ram f
  zero : m'.ram 0 = m.ram 0

/-! ## The directory entries that want a table -/

section missing

variable {m : Machine} {va i d : Nat}

theorem missing_zero (m : Machine) (va : Nat) : missing m va 0 0 = ∅ := by
  refine Finset.eq_empty_of_forall_notMem fun d hd => ?_
  obtain ⟨⟨j, hj, -⟩, -⟩ := mem_missing.mp hd
  omega

theorem mem_missing_succ : d ∈ missing m va 0 (i + 1) ↔ d ∈ missing m va 0 i ∨
    (d = dirIndex (runPage va i) ∧ m.pageDirectory d &&& PAGE_PRESENT = 0) := by
  rw [mem_missing, mem_missing, Nat.zero_add, Nat.zero_add]
  constructor
  · rintro ⟨⟨j, hj, he⟩, habs⟩
    by_cases hji : j = i
    · subst hji
      exact .inr ⟨he.symm, habs⟩
    · exact .inl ⟨⟨j, by omega, he⟩, habs⟩
  · rintro (⟨⟨j, hj, he⟩, habs⟩ | ⟨he, habs⟩)
    · exact ⟨⟨j, by omega, he⟩, habs⟩
    · exact ⟨⟨i, by omega, he.symm⟩, habs⟩

/-- A page that opens no table adds none. -/
theorem missing_succ_of_not (h : ¬ OpensTable m va i) :
    missing m va 0 (i + 1) = missing m va 0 i := by
  ext d
  rw [mem_missing_succ, or_iff_left_iff_imp]
  rintro ⟨rfl, habs⟩
  by_contra hno
  exact h ⟨habs, hno⟩

theorem missing_succ_of_opens (h : OpensTable m va i) :
    missing m va 0 (i + 1) = insert (dirIndex (runPage va i)) (missing m va 0 i) := by
  ext d
  rw [mem_missing_succ, Finset.mem_insert, or_comm]
  refine or_congr_left ⟨fun hd => hd.1, fun hd => ⟨hd, ?_⟩⟩
  rw [hd]
  exact h.1

theorem card_missing_succ (h : OpensTable m va i) :
    (missing m va 0 (i + 1)).card = (missing m va 0 i).card + 1 := by
  rw [missing_succ_of_opens h, Finset.card_insert_of_notMem h.2]

/-- A directory entry without a table is opened by the first page under it. -/
theorem exists_opensTable (h : d ∈ missing m va 0 i) :
    ∃ j < i, OpensTable m va j ∧ dirIndex (runPage va j) = d := by
  induction i with
  | zero =>
    rw [missing_zero] at h
    exact absurd h (Finset.notMem_empty d)
  | succ i ih =>
    by_cases hin : d ∈ missing m va 0 i
    · obtain ⟨j, hj, ho⟩ := ih hin
      exact ⟨j, by omega, ho⟩
    · obtain ⟨rfl, habs⟩ := (mem_missing_succ.mp h).resolve_left hin
      exact ⟨i, by omega, ⟨habs, hin⟩, rfl⟩

end missing

/-! ## The first pages -/

theorem OpenTable.safe {L : Layout} {m m₁ : Machine} {d t : Nat} (h : OpenTable m d t m₁)
    (hm : PagingSafe L m) (hd : d < 1024) (hk : HasTable m (KERNEL_POS >>> 22)) :
    PagingSafe L m₁ := by
  rcases h.eq_or_fresh with ⟨-, rfl⟩ | ⟨habs, hlo, -⟩
  · exact hm
  have hne : d ≠ KERNEL_POS >>> 22 := by
    rintro rfl
    exact hk.1 habs
  have hkernel := h.dir_of_ne hne.symm
  refine ⟨⟨h.tablesOk hm.toTablesOk ⟨hd, hne⟩, fun _ => ?_⟩, fun e he hte => ?_⟩
  · rw [tableFrame_congr hkernel]
    exact hm.kernel hk
  · by_cases hed : e = d
    · rw [hed, h.hasTable.2]
      omega
    · rw [tableFrame_congr (h.dir_of_ne hed)]
      exact hm.low e he ((hasTable_congr (h.dir_of_ne hed)).mp hte)

/-- The frame of a new table, and the bitmap without it. -/
theorem OpenTable.taken {m m₁ : Machine} {d t : Nat} (h : OpenTable m d t m₁)
    (habs : m.pageDirectory d &&& PAGE_PRESENT = 0) :
    t = (getPhysBlock 1 m.mmBitmap).1 / 4096 ∧ m₁.mmBitmap = (getPhysBlock 1 m.mmBitmap).2 := by
  cases h with
  | present ht => exact absurd habs ht.1
  | fresh _ _ hget =>
    rw [hget]
    exact ⟨(Nat.mul_div_cancel t (by decide)).symm, rfl⟩

namespace Opened

variable {L : Layout} {m m₁ m₂ : Machine} {va i t w : Nat} {Q Q' : Nat → Prop}

/-- Nothing has been opened when every page has its table. -/
theorem of_tables (hm : PagingSafe L m) (h : ∀ j < i, HasTable m (dirIndex (runPage va j))) :
    Opened L m va i Q m := by
  have hnone : missing m va 0 i = ∅ := by
    refine Finset.eq_empty_of_forall_notMem fun d hd => ?_
    obtain ⟨⟨j, hj, rfl⟩, habs⟩ := mem_missing.mp hd
    exact (h j (by omega)).1 habs
  refine ⟨hm, fun d => ?_, fun d => ?_, fun _ _ => rfl, ?_, fun j hj ho => ?_, fun d hd => ?_,
    fun f => ?_, fun _ _ _ _ => rfl, fun v _ hd _ => ?_, fun _ _ _ => rfl, rfl⟩
  · simp [hnone]
  · simp [hnone]
  · rw [hnone]
    rfl
  · exact absurd ho.1 (h j hj).1
  · rw [hnone] at hd
    exact absurd hd (Finset.notMem_empty d)
  · simp [hnone]
  · rw [hnone] at hd
    exact absurd hd (Finset.notMem_empty _)

theorem nil (hm : PagingSafe L m) (va : Nat) : Opened L m va 0 Q m :=
  of_tables hm fun j hj => absurd hj (Nat.not_lt_zero j)

theorem congr (h : Opened L m va i Q m₁) (hQ : ∀ v, Q v ↔ Q' v) : Opened L m va i Q' m₁ := by
  have hQQ : Q = Q' := funext fun v => propext (hQ v)
  rw [← hQQ]
  exact h

/-- The directory entry of the next page has a table. -/
theorem next (h : Opened L m va i Q m₁) (ht : HasTable m₁ (dirIndex (runPage va i))) :
    Opened L m va (i + 1) Q m₁ := by
  have hno : ¬ OpensTable m va i := fun ho => ht.1 ((h.absent _).mpr ho)
  have hmiss := missing_succ_of_not hno
  refine ⟨h.safe, fun d => ?_, fun d => ?_, h.dir, ?_, fun j hj ho => ?_, fun d hd => ?_,
    fun f => ?_, h.kept, fun v hv hd => ?_, h.ram, h.zero⟩
  · rw [hmiss]
    exact h.table d
  · rw [hmiss]
    exact h.absent d
  · rw [hmiss]
    exact h.bitmap
  · by_cases hji : j = i
    · exact absurd (hji ▸ ho) hno
    · exact h.frame j (by omega) ho
  · rw [hmiss] at hd
    exact h.fresh d hd
  · rw [hmiss]
    exact h.free f
  · rw [hmiss] at hd
    exact h.shown v hv hd

/-- A table is opened for the next page. -/
theorem opened (h : Opened L m va i Q m₁) (hk : HasTable m (KERNEL_POS >>> 22))
    (hd : dirIndex (runPage va i) < 1024)
    (habs : m₁.pageDirectory (dirIndex (runPage va i)) &&& PAGE_PRESENT = 0)
    (hopen : OpenTable m₁ (dirIndex (runPage va i)) t m₂) : Opened L m va (i + 1) Q m₂ := by
  have ho : OpensTable m va i := (h.absent _).mp habs
  have hmem : ∀ d, d ∈ missing m va 0 (i + 1) ↔
      d = dirIndex (runPage va i) ∨ d ∈ missing m va 0 i := fun d => by
    rw [missing_succ_of_opens ho, Finset.mem_insert]
  have hkernel : HasTable m₁ (KERNEL_POS >>> 22) := (h.table _).mpr (.inl hk)
  have hsafe := hopen.safe h.safe hd hkernel
  have hdk : dirIndex (runPage va i) ≠ KERNEL_POS >>> 22 := fun hdk => hkernel.1 (by rwa [← hdk])
  -- nothing has changed under the other entries
  have hkeep : ∀ d, HasTable m₁ d → m₂.pageDirectory d = m₁.pageDirectory d := fun d htd =>
    hopen.dir_of_ne fun hde => htd.1 (by rwa [hde])
  have hframe : ∀ d ∈ missing m va 0 i, tableFrame m₂ d = tableFrame m₁ d := fun d hdm =>
    tableFrame_congr (hkeep d ((h.table d).mpr (.inr hdm)))
  have hview : ∀ v, HasTable m₁ (v / 1024) → pageView L m₂ v = pageView L m₁ v := fun v htv => by
    have hslot : slot L m₂ (v * 4096) = slot L m₁ (v * 4096) :=
      slot_congr (by rw [dirIndex_number]; exact hkeep _ htv) hopen.ram_eq
    rw [pageView, hslot, pageView]
  have hfresh : isFree m₁.mmBitmap t = true := by
    rcases hopen.eq_or_fresh with ⟨htd, -⟩ | ⟨-, -, hf⟩
    · exact absurd habs htd.1
    · exact hf
  have hfree : ∀ f, isFree m₂.mmBitmap f = true ↔ isFree m₁.mmBitmap f = true ∧ f ≠ t := fun f => by
    rw [hopen.isFree_iff, or_iff_right fun htd : HasTable m₁ _ => htd.1 habs]
  have ht₂ := hopen.hasTable
  have htk : t ≠ L.kernelFrame := fun htk => hdk (hsafe.eq_kernel hd ht₂.1 (ht₂.2.trans htk))
  refine ⟨hsafe, fun d => ?_, fun d => ?_, fun d htd => ?_, ?_, fun j hj hoj => ?_, fun d hdm => ?_,
    fun f => ?_, fun v hv htv hQ => ?_, fun v hv hdm hQ => ?_, fun f hfk hf => ?_, ?_⟩
  · rw [hmem]
    by_cases hde : d = dirIndex (runPage va i)
    · exact iff_of_true (hde ▸ ht₂.1) (.inr (.inl hde))
    · rw [hasTable_congr (hopen.dir_of_ne hde), h.table]
      tauto
  · rw [hmem, not_or]
    by_cases hde : d = dirIndex (runPage va i)
    · exact iff_of_false (hde ▸ ht₂.1.1) fun hno => hno.2.1 hde
    · rw [hopen.dir_of_ne hde, h.absent]
      tauto
  · rw [hkeep d ((h.table d).mpr (.inl htd)), h.dir d htd]
  · rw [card_missing_succ ho, takeTables, ← h.bitmap]
    exact (hopen.taken habs).2
  · by_cases hji : j = i
    · subst hji
      rw [ht₂.2, (hopen.taken habs).1, h.bitmap, nextTable]
    · have hin : dirIndex (runPage va j) ∈ missing m va 0 i :=
        mem_missing.mpr ⟨⟨j, by omega, rfl⟩, hoj.1⟩
      rw [hframe _ hin, h.frame j (by omega) hoj]
  · rcases (hmem d).mp hdm with rfl | hdm
    · rw [ht₂.2]
      exact ((h.free t).mp hfresh).1
    · rw [hframe d hdm]
      exact h.fresh d hdm
  · rw [hfree, h.free, and_assoc]
    refine and_congr_right fun _ => ⟨fun hno d hdm => ?_, fun hno => ⟨fun d hdm => ?_, ?_⟩⟩
    · rcases (hmem d).mp hdm with rfl | hdm
      · rw [ht₂.2]
        exact hno.2.symm
      · rw [hframe d hdm]
        exact hno.1 d hdm
    · rw [← hframe d hdm]
      exact hno d ((hmem d).mpr (.inr hdm))
    · rw [← ht₂.2]
      exact (hno _ ((hmem _).mpr (.inl rfl))).symm
  · rw [hview v ((h.table _).mpr (.inl htv)), h.kept v hv htv hQ]
  · rcases (hmem _).mp hdm with hde | hdm
    · -- the old contents of the frame
      have htv : HasTable m₂ (dirIndex (v * 4096)) := by
        rw [dirIndex_number, hde]
        exact ht₂.1
      rw [pageView, slot_eq_ram htv, dirIndex_number, tableIndex_number, hde, ht₂.2,
        if_neg fun hw => htk hw.1, hopen.ram_eq, h.ram t htk hfresh]
    · rw [hview v ((h.table _).mpr (.inr hdm)), h.shown v hv hdm hQ, hframe _ hdm]
  · rw [hopen.ram_eq]
    exact h.ram f hfk ((hfree f).mp hf).1
  · rw [hopen.ram_eq, h.zero]

/-- A word is stored in the slot of a page. -/
theorem stored (h : Opened L m va i Q m₁) {v : Nat} (hv : v < 2 ^ 32)
    (ht : HasTable m₁ (dirIndex v)) (htf : tableFrame m₁ (dirIndex v) = t) :
    Opened L m va i (fun w => Q w ∨ w = v / 4096) ((m₁.swapTo L t).write t (tableIndex v) w) := by
  have hd := dirIndex_lt hv
  have hview : ∀ u < 2 ^ 20, u ≠ v / 4096 →
      pageView L ((m₁.swapTo L t).write t (tableIndex v) w) u = pageView L m₁ u := by
    intro u hu hne
    rw [pageView, slot_write, slot_swapTo, if_neg, pageView]
    rintro ⟨htu, hf, hidx, -⟩
    rw [dirIndex_number] at htu hf
    have hde : u / 1024 = dirIndex v := h.safe.frame_inj (by omega) hd htu ht (hf.trans htf.symm)
    rw [dirIndex_eq] at hde
    rw [tableIndex_number, tableIndex_eq] at hidx
    omega
  have hram : ∀ f, f ≠ L.kernelFrame → f ≠ t →
      ((m₁.swapTo L t).write t (tableIndex v) w).ram f = m₁.ram f := by
    intro f hfk hft
    funext j
    simp only [Machine.write, Machine.swapTo, hfk, hft, false_and, ↓reduceIte]
  refine ⟨h.safe.congr rfl rfl, h.table, h.absent, h.dir, h.bitmap, h.frame, h.fresh, h.free,
    fun u hu htu hQ => ?_, fun u hu hdm hQ => ?_, fun f hfk hf => ?_, ?_⟩
  · rw [not_or] at hQ
    rw [hview u hu hQ.2, h.kept u hu htu hQ.1]
  · rw [not_or] at hQ
    rw [hview u hu hQ.2]
    exact h.shown u hu hdm hQ.1
  · -- a table of `m₁` is not free, unless it is the kernel's
    have hft : f ≠ t := by
      rintro rfl
      by_cases hdk : dirIndex v = KERNEL_POS >>> 22
      · refine hfk ?_
        rw [← htf, hdk]
        exact h.safe.kernel (hdk ▸ ht)
      · have htaken := h.safe.taken _ ⟨hd, hdk⟩ ht
        have hfree : isFree m₁.mmBitmap f = true := hf
        rw [htf, hfree] at htaken
        exact Bool.noConfusion htaken
    rw [hram f hfk hft]
    exact h.ram f hfk hf
  · have ht0 : 0 ≠ t := by
      rw [← htf]
      exact (h.safe.frame_ne_zero hd ht).symm
    rw [hram 0 L.kernelFrame_ne_zero.symm ht0, h.zero]

/-- **A `page_map` that succeeds.** -/
theorem mapped (h : Opened L m va i (AmongFirst va i) m₁) (hk : HasTable m (KERNEL_POS >>> 22))
    (hopen : OpenTable m₁ (dirIndex (runPage va i)) t m₂) :
    Opened L m va (i + 1) (AmongFirst va (i + 1))
      ((m₂.swapTo L t).write t (tableIndex (runPage va i)) w) := by
  have hnext : Opened L m va (i + 1) (AmongFirst va i) m₂ := by
    cases hopen with
    | present ht => exact h.next ht
    | fresh habs hsize hget hlo hhi hfree =>
      exact h.opened hk (dirIndex_lt (runPage_lt va i)) habs (.fresh habs hsize hget hlo hhi hfree)
  have ht := hopen.hasTable
  exact (hnext.stored (runPage_lt va i) ht.1 ht.2).congr fun v => amongFirst_succ.symm

/-- **A `page_map` that fails** leaves no trace in the tables. -/
theorem failed (h : Opened L m va i Q m₁) {pa v flag : Nat} (hflag : flag &&& PAGE_PRESENT ≠ 0)
    (herr : (pageMap L pa v flag m₁).1 ≠ 0) : Opened L m va i Q (pageMap L pa v flag m₁).2 := by
  rcases pageMap_spec L pa v m₁ hflag with he | ⟨habs, he⟩ | ⟨-, -, -, t, m₂, -, he⟩
  · rw [he]
    exact h
  · have hdir : ∀ d, HasTable m₁ d →
        (m₁.setDir (dirIndex v) 0).pageDirectory d = m₁.pageDirectory d := fun d ht =>
      setDir_absent_dir habs ht
    have htab : ∀ d, HasTable (m₁.setDir (dirIndex v) 0) d ↔ HasTable m₁ d := fun d =>
      setDir_absent_hasTable habs
    have hframe : ∀ d ∈ missing m va 0 i,
        tableFrame (m₁.setDir (dirIndex v) 0) d = tableFrame m₁ d := fun d hd =>
      tableFrame_congr (hdir d ((h.table d).mpr (.inr hd)))
    have hview : ∀ u, HasTable m₁ (u / 1024) →
        pageView L (m₁.setDir (dirIndex v) 0) u = pageView L m₁ u := fun u hu => by
      have hslot : slot L (m₁.setDir (dirIndex v) 0) (u * 4096) = slot L m₁ (u * 4096) :=
        slot_congr (by rw [dirIndex_number]; exact hdir _ hu) rfl
      rw [pageView, hslot, pageView]
    rw [he]
    refine ⟨h.safe.of_tables (fun d ht => hdir d ((htab d).mp ht)) rfl, fun d => ?_, fun d => ?_,
      fun d ht => ?_, h.bitmap, fun j hj ho => ?_, fun d hd => ?_, fun f => ?_,
      fun u hu hd hQ => ?_, fun u hu hd hQ => ?_, h.ram, h.zero⟩
    · rw [htab, h.table]
    · by_cases hd : d = dirIndex v
      · subst hd
        refine iff_of_true ?_ ((h.absent _).mp habs)
        simp [Machine.setDir]
      · rw [← h.absent d]
        exact iff_of_eq (congrArg (· &&& PAGE_PRESENT = 0) (Function.update_of_ne hd ..))
    · rw [hdir d ((h.table d).mpr (.inl ht)), h.dir d ht]
    · rw [hframe _ (mem_missing.mpr ⟨⟨j, by omega, rfl⟩, ho.1⟩)]
      exact h.frame j hj ho
    · rw [hframe d hd]
      exact h.fresh d hd
    · rw [show isFree (m₁.setDir (dirIndex v) 0).mmBitmap f = isFree m₁.mmBitmap f from rfl, h.free]
      exact and_congr_right fun _ => forall₂_congr fun d hd => by rw [hframe d hd]
    · rw [hview u ((h.table _).mpr (.inl hd))]
      exact h.kept u hu hd hQ
    · rw [hview u ((h.table _).mpr (.inr hd)), hframe _ hd]
      exact h.shown u hu hd hQ
  · rw [he] at herr
    exact absurd rfl herr

end Opened

end Moonlight
