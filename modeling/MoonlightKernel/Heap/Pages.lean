import MoonlightKernel.Heap.Frames
import MoonlightKernel.Ledger

/-!
# The pages of the heap window

Which frame does a page of the heap window name in the page tables, and what do the calls of the
heap do to that?  A call of `page_map` may open a page table, and a table shows what its frame
contained before.

* `Names` — a page is present and translates to a frame;
* `Opens` — what calls of `get_phys_block` and `page_map` do: `opens_pageMap`,
  `opens_pageMapLoop`, `opens_vmallocMap`;
* `Unmaps` — what calls of `page_unmap` do: `unmaps_pageUnmapBack`;
* `GivesBack` — what calls of `free_phys_block` do: `givesBack_run`, `givesBack_freeMapped`;
* `Holds` — the pages of a set name frames of their own, at the disposal of nobody else.
-/

set_option autoImplicit false

namespace Moonlight

open Sys Sys.Bitmap

/-! ## Names -/

/-- Page `v` is present and names frame `f`. -/
def Names (L : Layout) (m : Machine) (v f : Nat) : Prop :=
  entryView (slot L m (v * 4096)) = some (f * 4096)

section names

variable {L : Layout} {m m' : Machine} {v f g : Nat}

theorem Names.unique (h : Names L m v f) (h' : Names L m v g) : f = g := by
  have := Option.some.inj (h.symm.trans h')
  omega

theorem Names.hasTable (h : Names L m v f) : HasTable m (dirIndex (v * 4096)) := hasTable_of_view h

theorem Names.lt (h : Names L m v f) : f < 2 ^ 20 := by
  unfold Names entryView at h
  split at h
  · have := Option.some.inj h
    rw [PAGE_GET_ADDR_eq] at this
    omega
  · cases h

/-- `page_get_phys` answers the frame. -/
theorem Names.phys (h : Names L m v f) : (pageGetPhys L (v * 4096) m).1 = f * 4096 :=
  pageGetPhys_of_entryView h

/-- A present page names a frame. -/
theorem names_of_present (h : Present L m (v * 4096)) : ∃ f, Names L m v f := by
  rw [present_iff] at h
  refine ⟨slot L m (v * 4096) / 4096 % 2 ^ 20, ?_⟩
  rw [Names, entryView, if_pos h, PAGE_GET_ADDR_eq]

theorem Names.congr (hdir : m'.pageDirectory = m.pageDirectory) (hram : m'.ram = m.ram) :
    Names L m' v f ↔ Names L m v f := by
  unfold Names
  rw [slot_congr (congrFun hdir _) hram]

theorem Names.swapTo (t : Nat) : Names L (m.swapTo L t) v f ↔ Names L m v f := by
  unfold Names
  rw [slot_swapTo]

theorem HeapPage.lt (h : HeapPage L v) : v < 2 ^ 20 := by
  have := HEAP_START_bounds L
  unfold HeapPage at h
  omega

end names

/-- A table that is new in `m'` shows no present page `w` in what its frame contained in `m`. -/
def ClearSlot (m m' : Machine) (w : Nat) : Prop :=
  ¬ HasTable m (dirIndex (w * 4096)) → HasTable m' (dirIndex (w * 4096)) →
    m.ram (tableFrame m' (dirIndex (w * 4096))) (tableIndex (w * 4096)) &&& PAGE_PRESENT = 0

/-! ## Pages mapped -/

/-- `m'` is `m` after frames have been taken and pages mapped: the frames in `T` were taken for
pages, and the pages outside `P` name what they named, or what a new table shows. -/
structure Opens (L : Layout) (m m' : Machine) (P T : Nat → Prop) : Prop where
  paging : PagingOk L m'
  avail : ∀ f, Avail m' f ↔ Avail m f ∧ ¬ T f
  bitmap : ∀ f, isFree m'.mmBitmap f = true → isFree m.mmBitmap f = true
  dir : ∀ d, HasTable m d → m'.pageDirectory d = m.pageDirectory d
  ram : ∀ f, f ≠ L.kernelFrame → ¬ IsTableFrame m' f → m'.ram f = m.ram f
  keeps : ∀ w g, HeapPage L w → ¬ P w → Names L m w g → Names L m' w g
  adds : ∀ w g, HeapPage L w → ¬ P w → ClearSlot m m' w → Names L m' w g → Names L m w g

namespace Opens

variable {L : Layout} {m m₁ m' : Machine} {P P' T T' : Nat → Prop}

theorem refl (h : PagingOk L m) : Opens L m m (fun _ => False) fun _ => False where
  paging := h
  avail _ := by simp
  bitmap _ hf := hf
  dir _ _ := rfl
  ram _ _ _ := rfl
  keeps _ _ _ _ hw := hw
  adds _ _ _ _ _ hw := hw

theorem congr (h : Opens L m m' P T) (hP : ∀ w, P' w ↔ P w) (hT : ∀ f, T' f ↔ T f) :
    Opens L m m' P' T' where
  paging := h.paging
  avail f := by rw [h.avail, hT]
  bitmap := h.bitmap
  dir := h.dir
  ram := h.ram
  keeps w g hw hp := h.keeps w g hw fun k => hp ((hP w).mpr k)
  adds w g hw hp := h.adds w g hw fun k => hp ((hP w).mpr k)

theorem hasTable (h : Opens L m m' P T) {d : Nat} (ht : HasTable m d) : HasTable m' d :=
  (hasTable_congr (h.dir d ht)).mpr ht

theorem tableFrame_eq (h : Opens L m m' P T) {d : Nat} (ht : HasTable m d) :
    tableFrame m' d = tableFrame m d := tableFrame_congr (h.dir d ht)

theorem isTableFrame (h : Opens L m m' P T) {f : Nat} (hf : IsTableFrame m f) : IsTableFrame m' f := by
  obtain ⟨d, hd, ht, rfl⟩ := hf
  exact ⟨d, hd, h.hasTable ht, h.tableFrame_eq ht⟩

/-- A table that is opened later had the same contents before. -/
theorem ram_of_new (h : Opens L m m₁ P T) (h' : Opens L m₁ m' P' T') {d : Nat} (hd : PageDir d)
    (hno : ¬ HasTable m₁ d) (ht : HasTable m' d) :
    m₁.ram (tableFrame m' d) = m.ram (tableFrame m' d) := by
  refine h.ram _ (h'.paging.notKernel d hd ht) ?_
  rintro ⟨e, he, hte, heq⟩
  obtain rfl := h'.paging.apart e d he hd (h'.hasTable hte) ht ((h'.tableFrame_eq hte).trans heq)
  exact hno hte

theorem trans (h : Opens L m m₁ P T) (h' : Opens L m₁ m' P' T') :
    Opens L m m' (fun w => P w ∨ P' w) fun f => T f ∨ T' f where
  paging := h'.paging
  avail f := by rw [h'.avail, h.avail, not_or, and_assoc]
  bitmap f hf := h.bitmap f (h'.bitmap f hf)
  dir d hd := (h'.dir d (h.hasTable hd)).trans (h.dir d hd)
  ram f hk hf := (h'.ram f hk hf).trans (h.ram f hk fun ht => hf (h'.isTableFrame ht))
  keeps w g hw hp hn :=
    h'.keeps w g hw (fun k => hp (.inr k)) (h.keeps w g hw (fun k => hp (.inl k)) hn)
  adds w g hw hp hc hn := by
    rw [not_or] at hp
    refine h.adds w g hw hp.1 (fun hno ht => ?_) (h'.adds w g hw hp.2 (fun hno ht => ?_) hn)
    · rw [← h'.tableFrame_eq ht]
      exact hc hno (h'.hasTable ht)
    · rw [h.ram_of_new h' hw.pageDir hno ht]
      exact hc (fun k => hno (h.hasTable k)) ht

end Opens

section calls

variable {L : Layout} {m m' : Machine}

/-- **`get_phys_block`** that finds frames. -/
theorem opens_take (hm : PagingOk L m) {p n : Nat}
    (hfree : ∀ q, p ≤ q → q < p + n → isFree m.mmBitmap q = true) :
    Opens L m (m.setBitmap (clearRun p n m.mmBitmap)) (fun _ => False)
      fun f => p ≤ f ∧ f < p + n where
  paging := hm.taken_run p n
  avail := Avail.taken_run hm hfree
  bitmap f hf := by
    have hset : isSet (clearRun p n m.mmBitmap) f = true := hf
    rw [isSet_clearRun, Bool.and_eq_true] at hset
    exact hset.1
  dir _ _ := rfl
  ram _ _ _ := rfl
  keeps _ _ _ _ hw := (Names.congr rfl rfl).mpr hw
  adds _ _ _ _ _ hw := (Names.congr rfl rfl).mp hw

/-- A `page_map` that fails leaves every page as it is. -/
theorem opens_pageMap_error (hm : PagingOk L m) {v pa : Nat} (hv : HeapPage L v) (hpa : pa < 2 ^ 32)
    (he : (pageMap L pa (v * 4096) (PAGE_WRITE ||| PAGE_PRESENT) m).1 ≠ 0) :
    Opens L m (pageMap L pa (v * 4096) (PAGE_WRITE ||| PAGE_PRESENT) m).2 (fun _ => False)
      fun _ => False := by
  have hmoved : Moved L m (pageMap L pa (v * 4096) (PAGE_WRITE ||| PAGE_PRESENT) m).2 :=
    moved_pageMap hm hv.pageDir hpa
  have hflag : (PAGE_WRITE ||| PAGE_PRESENT) &&& PAGE_PRESENT ≠ 0 := by decide
  rcases pageMap_spec L pa (v * 4096) m hflag with hr | ⟨habs, hr⟩ | ⟨-, -, -, t, m₁, -, hr⟩
  · rw [hr]
    exact .refl hm
  · rw [hr] at hmoved ⊢
    -- an entry that has a table is another one
    have hdir : ∀ d, HasTable m d →
        (m.setDir (dirIndex (v * 4096)) 0).pageDirectory d = m.pageDirectory d := fun d ht =>
      Function.update_of_ne (by rintro rfl; exact ht.1 habs) ..
    have hold : ∀ d, HasTable (m.setDir (dirIndex (v * 4096)) 0) d → HasTable m d := fun d ht => by
      by_cases hd : d = dirIndex (v * 4096)
      · subst hd
        exact absurd (by simp [Machine.setDir]) ht.1
      · exact (hasTable_congr (Function.update_of_ne hd ..)).mp ht
    refine ⟨hmoved.paging, fun f => ?_, fun _ hf => hf, hdir, fun _ _ _ => rfl,
      fun w g _ _ hw => ?_, fun w g _ _ _ hw => ?_⟩
    · rw [hmoved.avail, not_false_eq_true, and_true]
    · unfold Names at hw ⊢
      rw [slot_congr (hdir _ (hasTable_of_view hw)) rfl]
      exact hw
    · unfold Names at hw ⊢
      rw [slot_congr (hdir _ (hold _ (hasTable_of_view hw))) rfl] at hw
      exact hw
  · rw [hr] at he
    exact absurd rfl he

/-- **A successful `page_map`.** -/
theorem opens_pageMap (hm : PagingOk L m) {v f : Nat} (hv : HeapPage L v) (hf : f < 2 ^ 20)
    (h : pageMap L (f * 4096) (v * 4096) (PAGE_WRITE ||| PAGE_PRESENT) m = (0, m')) :
    Opens L m m' (fun w => w = v) (fun _ => False) ∧ Names L m' v f := by
  have hmap := pageMap_mapped hm.toTablesOk hv.pageDir (by omega) (by decide) h
  have hmoved := hmap.moved hm hv.pageDir
  have hne : ∀ {w}, w ≠ v → w * 4096 / 4096 ≠ v * 4096 / 4096 := by
    intro w hw
    omega
  refine ⟨⟨hmoved.paging, fun g => ?_, fun g hg => ((hmap.bitmap g).mp hg).1,
    fun d hd => hmap.dir d (.inr hd), fun g hk hg => hmap.ram g hk fun he => ?_,
    fun w g hw hp hn => ?_, fun w g hw hp hc hn => ?_⟩, hmap.view⟩
  · rw [hmoved.avail, not_false_eq_true, and_true]
  · exact hg ⟨_, hv.pageDir, hmap.hasTable, he.symm⟩
  · have ht := hn.hasTable
    unfold Names at hn ⊢
    rw [hmap.others _ hw.pageDir (hne hp) ht]
    exact hn
  · by_cases ht : HasTable m (dirIndex (w * 4096))
    · unfold Names at hn ⊢
      rw [hmap.others _ hw.pageDir (hne hp) ht] at hn
      exact hn
    · -- the page is in the new table, and its word there is an old one
      have hclear := hc ht hn.hasTable
      have hd : dirIndex (w * 4096) = dirIndex (v * 4096) := by
        by_contra hd
        exact ht ((hasTable_congr (hmap.dir _ (.inl hd))).mp hn.hasTable)
      have hidx : tableIndex (w * 4096) ≠ tableIndex (v * 4096) := fun hi =>
        hne hp ((page_eq_iff _ _).mpr ⟨hd, hi⟩)
      obtain ⟨-, -, -, t, m₁, hopen, rfl⟩ := pageMap_ok (by decide) h
      have htab := hopen.hasTable
      have hk := hopen.frame_ne_kernel hm.toTablesOk hv.pageDir
      have hframe : tableFrame ((m₁.swapTo L t).write t (tableIndex (v * 4096))
          (f * 4096 ||| (PAGE_WRITE ||| PAGE_PRESENT))) (dirIndex (w * 4096)) = t := by
        rw [hd]
        exact htab.2
      rw [hframe, ← hopen.ram_eq] at hclear
      have htw : HasTable m₁ (dirIndex (w * 4096)) := by rw [hd]; exact htab.1
      have hfw : tableFrame m₁ (dirIndex (w * 4096)) = t := by rw [hd]; exact htab.2
      unfold Names at hn
      rw [slot_pageMap hopen, if_neg fun k => hidx k.2.2.1, slot_of_table htw (hfw ▸ hk), hfw,
        entryView_eq_none_iff.mpr hclear] at hn
      cases hn

/-- **The loop of `page_map_range`** maps the pages up to the one where it stops. -/
theorem opens_pageMapLoop {v p : Nat} : ∀ (k i : Nat) {m : Machine}, PagingOk L m →
    (∀ w, InRun v (i + k) w → HeapPage L w) → p + i + k ≤ 2 ^ 20 →
    let r := pageMapLoop L (p * 4096) (v * 4096) (PAGE_WRITE ||| PAGE_PRESENT) k i m
    i ≤ r.2.1 ∧ r.2.1 ≤ i + k ∧ (r.1 = 0 → r.2.1 = i + k) ∧
      Opens L m r.2.2 (fun w => v + i ≤ w ∧ w < v + r.2.1) (fun _ => False) ∧
      ∀ w, v + i ≤ w → w < v + r.2.1 → Names L r.2.2 w (p + (w - v)) := by
  intro k
  induction k with
  | zero =>
    intro i m hm _ _
    unfold pageMapLoop
    refine ⟨Nat.le_refl _, Nat.le_refl _, fun _ => rfl, (Opens.refl hm).congr ?_ fun _ => Iff.rfl, ?_⟩
    · exact fun w => iff_of_false (fun h => Nat.not_lt.mpr h.1 h.2) id
    · exact fun w h1 h2 => absurd h2 (Nat.not_lt.mpr h1)
  | succ k ih =>
    intro i m hm hheap hp
    have hv : HeapPage L (v + i) := hheap _ (by unfold InRun; omega)
    have hlt := hv.lt
    have hpa : add32 (p * 4096) (i <<< 12) = (p + i) * 4096 := by
      rw [shiftLeft_page, add32_of_lt (by omega), Nat.add_mul]
    have hva : add32 (v * 4096) (i <<< 12) = (v + i) * 4096 := by
      rw [shiftLeft_page, add32_of_lt (by omega), Nat.add_mul]
    dsimp only
    rw [pageMapLoop, hpa, hva]
    split
    · rename_i hne
      dsimp only
      refine ⟨Nat.le_refl _, by omega, fun h => absurd h hne, ?_, ?_⟩
      · refine (opens_pageMap_error hm hv (by omega) hne).congr (fun w => ?_) fun _ => Iff.rfl
        exact iff_of_false (fun h => Nat.not_lt.mpr h.1 h.2) id
      · exact fun w h1 h2 => absurd h2 (Nat.not_lt.mpr h1)
    · rename_i hz
      have hok := eq_of_fst_eq_zero (not_not.mp hz)
      obtain ⟨hone, hname⟩ := opens_pageMap hm hv (by omega) hok
      obtain ⟨h1, h2, h3, h4, h5⟩ := ih (i + 1) hone.paging
        (fun w hw => hheap w (by unfold InRun at hw ⊢; omega)) (by omega)
      refine ⟨by omega, by omega, fun h => by have := h3 h; omega, (hone.trans h4).congr ?_ ?_, ?_⟩
      · exact fun w => by omega
      · exact fun _ => (or_self_iff).symm
      · intro w hlo hhi
        by_cases hw : w = v + i
        · subst hw
          have hkeep := h4.keeps (v + i) (p + i) hv (by omega) hname
          rwa [show p + (v + i - v) = p + i by omega]
        · exact h5 w (by omega) hhi

end calls

/-! ## Pages unmapped -/

/-- `m'` is `m` after the pages in `P` have been unmapped. -/
structure Unmaps (L : Layout) (m m' : Machine) (P : Nat → Prop) : Prop where
  moved : Moved L m m'
  dir : ∀ d, HasTable m' d → m'.pageDirectory d = m.pageDirectory d
  names : ∀ w g, HeapPage L w → (Names L m' w g ↔ Names L m w g ∧ ¬ P w)

section unmaps

variable {L : Layout} {m m₁ m' : Machine} {P P' : Nat → Prop}

theorem Unmaps.refl (h : PagingOk L m) : Unmaps L m m fun _ => False :=
  ⟨.refl h, fun _ _ => rfl, fun w g _ => by simp⟩

theorem Unmaps.trans (h : Unmaps L m m₁ P) (h' : Unmaps L m₁ m' P') :
    Unmaps L m m' fun w => P w ∨ P' w where
  moved := h.moved.trans h'.moved
  dir d hd :=
    have hdir := h'.dir d hd
    hdir.trans (h.dir d ((hasTable_congr hdir).mp hd))
  names w g hw := by rw [h'.names w g hw, h.names w g hw, not_or, and_assoc]

/-- **`page_unmap`**, whatever it answers. -/
theorem unmaps_pageUnmap (hm : PagingOk L m) {v : Nat} (hv : HeapPage L v) :
    Unmaps L m (pageUnmap L (v * 4096) PAGE_NOTHING m).2 fun w => w = v := by
  have hmoved : Moved L m (pageUnmap L (v * 4096) PAGE_NOTHING m).2 :=
    moved_pageUnmap hm hv.pageDir (by decide)
  have hvlt := hv.lt
  rcases pageUnmap_spec hm hv.pageDir PAGE_NOTHING with ⟨he, hno⟩ | ⟨-, ht, hcase⟩
  · -- no table, so the page is not present
    rw [he]
    refine ⟨.refl hm, fun _ _ => rfl, fun w g _ => (and_iff_left_of_imp fun hn => ?_).symm⟩
    rintro rfl
    exact hno ⟨by omega, hn.hasTable⟩
  obtain ⟨m', he⟩ : ∃ m', pageUnmap L (v * 4096) PAGE_NOTHING m = (0, m') := by
    rcases hcase with ⟨-, he⟩ | ⟨-, he⟩ <;> exact ⟨_, he⟩
  have hu := pageUnmap_unmapped hm hv.pageDir (by decide) he
  rw [he] at hmoved ⊢
  refine ⟨hmoved, fun d hd => hu.dir_of_hasTable hd, fun w g hw => ?_⟩
  have hwlt := hw.lt
  by_cases hwv : w = v
  · subst hwv
    refine iff_of_false (fun hn => ?_) fun h => h.2 rfl
    have hp : Present L m' (w * 4096) := by
      rw [present_iff]
      intro hz
      have := entryView_eq_none_iff.mpr hz
      rw [hn] at this
      cases this
    exact ((hu.present _ (by omega)).mp hp).2 rfl
  · unfold Names
    rw [pageUnmap_view hm hv.pageDir (by decide) he (v := w * 4096) (by omega) (by omega)]
    exact (and_iff_left hwv).symm

/-- **The error path of `page_map_range`.** -/
theorem unmaps_pageUnmapBack {v : Nat} : ∀ (i : Nat) {m : Machine}, PagingOk L m →
    (∀ w, InRun v i w → HeapPage L w) →
    Unmaps L m (pageUnmapBack L (v * 4096) i m) fun w => InRun v i w := by
  intro i
  induction i with
  | zero =>
    intro m hm _
    refine ⟨.refl hm, fun _ _ => rfl, fun w g _ => (and_iff_left fun h => ?_).symm⟩
    unfold InRun at h
    omega
  | succ i ih =>
    intro m hm hheap
    have hv : HeapPage L (v + i) := hheap _ (by unfold InRun; omega)
    have hlt := hv.lt
    have hva : add32 (v * 4096) (i <<< 12) = (v + i) * 4096 := by
      rw [shiftLeft_page, add32_of_lt (by omega), Nat.add_mul]
    rw [pageUnmapBack, hva]
    have hone := unmaps_pageUnmap hm hv
    have hrest := hone.trans (ih hone.moved.paging fun w hw => hheap w (by
      unfold InRun at hw ⊢
      omega))
    refine ⟨hrest.moved, hrest.dir, fun w g hw => ?_⟩
    rw [hrest.names w g hw]
    refine and_congr_right fun _ => not_congr ?_
    unfold InRun
    omega

end unmaps

/-! ## Frames given back -/

/-- `m'` is `m` after the frames in `R` have been given back. -/
structure GivesBack (L : Layout) (m m' : Machine) (R : Nat → Prop) : Prop where
  paging : PagingOk L m'
  bitmap : ∀ f, isFree m'.mmBitmap f = true ↔ isFree m.mmBitmap f = true ∨ R f
  dir : m'.pageDirectory = m.pageDirectory
  names : ∀ w g, Names L m' w g ↔ Names L m w g

section givesBack

variable {L : Layout} {m m₁ m' : Machine} {R R' : Nat → Prop} {word : Machine → Nat → Nat}

theorem GivesBack.avail (h : GivesBack L m m' R) (f : Nat) : Avail m' f ↔ Avail m f ∨ R f := by
  unfold Avail
  rw [h.bitmap, isTableFrame_congr h.dir, or_right_comm]

theorem GivesBack.congr (h : GivesBack L m m' R) (hR : ∀ f, R' f ↔ R f) : GivesBack L m m' R' :=
  ⟨h.paging, fun f => by rw [h.bitmap, hR], h.dir, h.names⟩

theorem GivesBack.trans (h : GivesBack L m m₁ R) (h' : GivesBack L m₁ m' R') :
    GivesBack L m m' fun f => R f ∨ R' f :=
  ⟨h'.paging, fun f => by rw [h'.bitmap, h.bitmap, or_assoc], h'.dir.trans h.dir,
    fun w g => (h'.names w g).trans (h.names w g)⟩

/-- `page_get_phys` gives nothing back. -/
theorem givesBack_query (hm : PagingOk L m) (a : Nat) :
    GivesBack L m (pageGetPhys L a m).2 fun _ => False := by
  have hsame : GivesBack L m m fun _ => False := ⟨hm, fun f => by simp, rfl, fun _ _ => Iff.rfl⟩
  rw [pageGetPhys_state]
  split
  · exact ⟨⟨hm.toTablesOk.congr rfl hm.taken, hm.kernel⟩, hsame.bitmap, rfl,
      fun _ _ => Names.swapTo _⟩
  · exact hsame

/-- **`free_phys_block`** on frames that hold no page table. -/
theorem givesBack_run (hm : PagingOk L m) {p n : Nat} (hp : p + n ≤ 2 ^ 20)
    (htab : ∀ f, p ≤ f → f < p + n → ¬ IsTableFrame m f) :
    GivesBack L m (m.setBitmap (freePhysBlock (p * 4096) n m.mmBitmap))
      fun f => p ≤ f ∧ f < p + n := by
  have hdiv : p * 4096 / 4096 = p := Nat.mul_div_cancel _ (by decide)
  have hbm : ∀ f, isFree (freePhysBlock (p * 4096) n m.mmBitmap) f = true ↔
      isFree m.mmBitmap f = true ∨ p ≤ f ∧ f < p + n := fun f => by
    rw [isFree_freePhysBlock (by omega), hdiv, Bool.or_eq_true, decide_eq_true_eq]
  refine ⟨hm.setBitmap fun f hf => ?_, hbm, rfl, fun _ _ => Names.congr rfl rfl⟩
  rw [← Bool.not_eq_true, hbm]
  rintro (hfree | hrun)
  · obtain ⟨d, hd, ht, rfl⟩ := hf
    rw [hm.taken d hd ht] at hfree
    cases hfree
  · exact htab f hrun.1 hrun.2 hf

/-- **The release page by page**: `free_phys_block(page_get_phys(a), 1)`. -/
theorem givesBack_freeMapped (word : Machine → Nat → Nat) : ∀ (n : Nat) {v : Nat} {m : Machine},
    PagingOk L m →
    (∀ w, InRun v n w → ∃ f, Names L m w f ∧ ¬ IsTableFrame m f) →
    GivesBack L m (freeMapped (machineBacking L word) n (v * 4096) m)
      fun f => ∃ w, InRun v n w ∧ Names L m w f := by
  intro n
  induction n with
  | zero =>
    intro v m hm _
    refine ⟨hm, fun f => (or_iff_left ?_).symm, rfl, fun _ _ => Iff.rfl⟩
    rintro ⟨w, hw, -⟩
    unfold InRun at hw
    omega
  | succ n ih =>
    intro v m hm hnamed
    obtain ⟨p, hp, htab⟩ := hnamed v (by unfold InRun; omega)
    have hplt := hp.lt
    have hquery := givesBack_query hm (v * 4096)
    have htab' : ∀ {m₁ : Machine} {R : Nat → Prop}, GivesBack L m m₁ R → ∀ f,
        IsTableFrame m₁ f ↔ IsTableFrame m f := fun h f => isTableFrame_congr h.dir f
    have hone := hquery.trans (givesBack_run (p := p) (n := 1) hquery.paging (by omega)
      fun f h1 h2 => by
        obtain rfl : f = p := by omega
        rwa [htab' hquery])
    have hrest := hone.trans (ih (v := v + 1) hone.paging fun w hw => by
      obtain ⟨f, hf, hft⟩ := hnamed w (by unfold InRun at hw ⊢; omega)
      exact ⟨f, (hone.names w f).mpr hf, by rwa [htab' hone]⟩)
    rw [Nat.add_mul, Nat.one_mul, ← hp.phys] at hrest
    refine hrest.congr fun f => ?_
    constructor
    · rintro ⟨w, hw, hf⟩
      by_cases hwv : w = v
      · subst hwv
        have := hf.unique hp
        exact .inl (.inr (by omega))
      · exact .inr ⟨w, by unfold InRun at hw ⊢; omega, (hone.names w f).mpr hf⟩
    · rintro ((hf | hf) | ⟨w, hw, hf⟩)
      · exact hf.elim
      · obtain rfl : f = p := by omega
        exact ⟨v, by unfold InRun; omega, hp⟩
      · exact ⟨w, by unfold InRun at hw ⊢; omega, (hone.names w f).mp hf⟩

/-- **The release in one call**, for pages that name consecutive frames. -/
theorem givesBack_kdrop (hm : PagingOk L m) {v n p : Nat} (hn : 0 < n)
    (hnames : ∀ i, i < n → Names L m (v + i) (p + i) ∧ ¬ IsTableFrame m (p + i)) :
    GivesBack L m (KDrop (machineBacking L word) (v * 4096) n m)
      fun f => ∃ w, InRun v n w ∧ Names L m w f := by
  have hlast := (hnames (n - 1) (by omega)).1.lt
  have hquery := givesBack_query hm (v * 4096)
  have hall := hquery.trans (givesBack_run (p := p) (n := n) hquery.paging (by omega)
    fun f h1 h2 => by
      have := (hnames (f - p) (by omega)).2
      rw [Nat.add_sub_cancel' h1] at this
      rwa [isTableFrame_congr hquery.dir])
  have hfirst := (hnames 0 hn).1.phys
  rw [Nat.add_zero, Nat.add_zero] at hfirst
  rw [← hfirst] at hall
  refine hall.congr fun f => ?_
  constructor
  · rintro ⟨w, hw, hf⟩
    unfold InRun at hw
    have hname := (hnames (w - v) (by omega)).1
    rw [Nat.add_sub_cancel' hw.1] at hname
    have := hf.unique hname
    exact .inr (by omega)
  · rintro (hf | ⟨h1, h2⟩)
    · exact hf.elim
    · have hname := (hnames (f - p) (by omega)).1
      rw [Nat.add_sub_cancel' h1] at hname
      exact ⟨v + (f - p), by unfold InRun; omega, hname⟩

end givesBack

end Moonlight
