import MoonlightKernel.Heap.ShortBlocks
import MoonlightKernel.Heap.Holds

/-!
# Heap pages that map freed frames

No heap call takes a page out of the page tables when its frame goes back to the allocator: the
coalescers drop a region and leave its pages present, and so does a `vmalloc` that gives mapped
pages back.  And a page table is not cleared when it is made.

* `PagesOwnFrames` — every present page of the heap window names an allocated frame of its own;
* `heapCallStep` — the calls of clients from `page_setup` and `heap_setup` on;
* `MappingsKept` — the step takes none of the three branches above;
* `heap_pages_own_frames` — over every run of such steps.
-/

set_option autoImplicit false

namespace Moonlight

open Sys Sys.Bitmap

variable {L : Layout} {word : Machine → Nat → Nat}

/-- Every present page of the heap window names an allocated frame, and no two name the same. -/
structure PagesOwnFrames (L : Layout) (m : Machine) : Prop where
  allocated : ∀ a, HEAP_START L ≤ a → a < HEAP_END L → Present L m a →
    isFree m.mmBitmap ((pageGetPhys L a m).1 / 4096) = false
  distinct : ∀ a b, HEAP_START L ≤ a → a < HEAP_END L → HEAP_START L ≤ b → b < HEAP_END L →
    a / 4096 ≠ b / 4096 → Present L m a → Present L m b →
      (pageGetPhys L a m).1 ≠ (pageGetPhys L b m).1

/-! ## Steps -/

/-- Clients write to the heap, through the page tables. -/
def StoresInHeap (L : Layout) (s t : Client Machine) : Prop :=
  (∀ f i, t.heap.low.ram f i ≠ s.heap.low.ram f i →
    ∃ v, HeapPage L v ∧ Names L s.heap.low v f) ∧
  t.heap = { s.heap with mem := t.heap.mem, low := { s.heap.low with ram := t.heap.low.ram } } ∧
  t.live = s.live

/-- One step: a call of the heap with any size, a write, or a move of the window `page_swap`. -/
def heapCallStep (L : Layout) (word : Machine → Nat → Nat) (s : Client Machine) :
    HeapOp → Client Machine → Prop
  | .store, t => StoresInHeap L s t
  | .other, t => (∃ f, t.heap = { s.heap with low := s.heap.low.swapTo L f }) ∧ t.live = s.live
  | op, t => requestStep L (machineBacking L word) s op t

/-- The release of `p` drops its region: the last test of `vdefrag` and `kdefrag`. -/
def DropsRegion {σ : Type} (p : Nat) (h : Heap σ) : Prop :=
  ∃ e head, lookup p h.mem h.heapList = some (e, head) ∧
    coversRegion e (defragMem e (h.mem.setTop1 head 1)) = true

/-- A `vmalloc` of `n` bytes fails, and the loop that gives frames back has some to give. -/
def UnwindsMapped (L : Layout) (word : Machine → Nat → Nat) (n : Nat) (h : Heap Machine) : Prop :=
  let v := (findFreeVirtAddr L (regionSize n) h.mmVirtHeap).1
  n ≠ 0 ∧ firstFitHead 1 n h.mem h.heapList = none ∧
    ∃ last m, vmallocMap (machineBacking L word) (regionSize n / 4096) v v h.low = .error (last, m) ∧
      v < last

/-- The step makes no page table in a frame that shows a page of the heap window. -/
def TablesMadeClear (L : Layout) (s t : Client Machine) : Prop :=
  ∀ w, HeapPage L w → ClearSlot s.heap.low t.heap.low w

/-- The step gives no frame of a present page back, and makes no page table that shows one. -/
def MappingsKept (L : Layout) (word : Machine → Nat → Nat) (s : Client Machine) :
    HeapOp → Client Machine → Prop
  | .kmalloc _, t => TablesMadeClear L s t
  | .vmalloc n, t => TablesMadeClear L s t ∧ ¬ UnwindsMapped L word n s.heap
  | .kfree p, _ => ¬ DropsRegion p s.heap
  | .vfree p, _ => ¬ DropsRegion p s.heap
  | .store, _ => True
  | .other, _ => True

/-! ## The invariant -/

/-- A page of the heap window that is present. -/
def MappedPage (L : Layout) (m : Machine) (v : Nat) : Prop := HeapPage L v ∧ ∃ f, Names L m v f

/-- The present pages of the heap window hold their frames. -/
abbrev HoldsAll (L : Layout) (m : Machine) : Prop := Holds L m (MappedPage L m)

/-- The addresses of the heap window by their pages. -/
theorem heapPage_of_window {a : Nat} (hlo : HEAP_START L ≤ a) (hhi : a < HEAP_END L) :
    HeapPage L (a / 4096) := by
  have := HEAP_START_bounds L
  constructor <;> omega

/-- **The invariant contains what is claimed of a state.** -/
theorem HoldsAll.pagesOwnFrames {m : Machine} (h : HoldsAll L m) : PagesOwnFrames L m := by
  -- a present address names a frame through its page
  have hnames : ∀ a, HEAP_START L ≤ a → a < HEAP_END L → Present L m a →
      ∃ f, MappedPage L m (a / 4096) ∧ Names L m (a / 4096) f ∧
        (pageGetPhys L a m).1 = f * 4096 := by
    intro a hlo hhi hp
    have hp' : Present L m (a / 4096 * 4096) := (present_congr (by omega)).mp hp
    obtain ⟨f, hf⟩ := names_of_present hp'
    refine ⟨f, ⟨heapPage_of_window hlo hhi, f, hf⟩, hf, ?_⟩
    rw [pageGetPhys_eq, ← slot_page, ← pageGetPhys_eq, hf.phys]
  constructor
  · intro a hlo hhi hp
    obtain ⟨f, hmapped, hf, hphys⟩ := hnames a hlo hhi hp
    rw [hphys, Nat.mul_div_cancel _ (by decide), ← Bool.not_eq_true]
    exact fun hfree => h.kept _ f hmapped hf (.inl hfree)
  · intro a b halo hahi hblo hbhi hne hpa hpb heq
    obtain ⟨f, hma, hf, hphys⟩ := hnames a halo hahi hpa
    obtain ⟨g, hmb, hg, hphys'⟩ := hnames b hblo hbhi hpb
    obtain rfl : f = g := by omega
    exact hne (h.apart _ _ f hma hmb hf hg)

/-- Right after `page_setup` no page of the heap window is present. -/
theorem HoldsAll.start {m : Machine} (h : SetUp L m) : HoldsAll L m := by
  have hno : ∀ v, ¬ MappedPage L m v := by
    rintro v ⟨hv, f, hf⟩
    refine hf.hasTable.1 ?_
    rw [h.empty _ hv.pageDir]
    rfl
  exact ⟨(LedgerInv.start h).paging, fun v hv => absurd hv (hno v), fun v hv => absurd hv (hno v),
    fun v _ hv => absurd hv (hno v), fun v _ _ hv => absurd hv (hno v)⟩

theorem HoldsAll.backed {m m' : Machine} (h : HoldsAll L m) {v n : Nat} (hb : BacksRun L m m' v n)
    (hheap : ∀ w, InRun v n w → HeapPage L w)
    (hclear : ∀ w, HeapPage L w → ClearSlot m m' w) : HoldsAll L m' := by
  have hall := Holds.backed h hb hheap
  refine hall.spared (.refl hall.paging fun _ => False) (fun w hw => ?_) (fun w hw => hw.2)
    fun w f _ hn => hn
  by_cases hin : InRun v n w
  · exact .inr hin
  · obtain ⟨hheap, f, hf⟩ := hw
    exact .inl ⟨hheap, f, hb.opens.adds w f hheap hin (hclear w hheap) hf⟩

theorem HoldsAll.spared {m m' : Machine} (h : HoldsAll L m) {P : Nat → Prop}
    (hs : Spares L m m' P) (hless : NamesLess L m m')
    (hclear : ∀ w, HeapPage L w → ClearSlot m m' w) : HoldsAll L m' := by
  have hback : ∀ w f, MappedPage L m' w → Names L m' w f → Names L m w f := fun w f hw hn =>
    hless w f hw.1 (hclear w hw.1) hn
  refine Holds.spared h hs (fun w hw => ?_) (fun w hw => hw.2) hback
  obtain ⟨f, hf⟩ := hw.2
  exact ⟨hw.1, f, hback w f hw hf⟩

/-- A state in which every page of the window names the same. -/
theorem HoldsAll.congr {m m' : Machine} (h : HoldsAll L m) (hm : PagingOk L m')
    (hav : ∀ f, Avail m' f ↔ Avail m f)
    (hnames : ∀ w f, HeapPage L w → (Names L m' w f ↔ Names L m w f)) : HoldsAll L m' := by
  have hmapped : ∀ w, MappedPage L m' w → MappedPage L m w := fun w hw =>
    ⟨hw.1, hw.2.imp fun f hf => (hnames w f hw.1).mp hf⟩
  have hall := Holds.congr h hm hav fun w f hw => hnames w f hw.1
  exact hall.spared (.refl hm fun _ => False) hmapped (fun w hw => hw.2) fun w f _ hn => hn

theorem HoldsAll.store {s t : Client Machine} (h : HoldsAll L s.heap.low) (ht : StoresInHeap L s t) :
    HoldsAll L t.heap.low := by
  obtain ⟨th, tl⟩ := t
  obtain ⟨hram, hheap, -⟩ := ht
  dsimp only at hram hheap
  have hdir : th.low.pageDirectory = s.heap.low.pageDirectory := by rw [hheap]
  have hbm : th.low.mmBitmap = s.heap.low.mmBitmap := by rw [hheap]
  refine h.congr (h.paging.congr hdir hbm) (fun f => ?_) fun w f hw =>
    names_of_store h.paging hdir (fun g hg => ?_) hw
  · unfold Avail
    rw [hbm, isTableFrame_congr hdir]
  · funext i
    by_contra hne
    obtain ⟨v, hv, hname⟩ := hram g i hne
    exact h.kept v g ⟨hv, g, hname⟩ hname (.inr hg)

/-- An allocation, by what its calls do to the pages. -/
theorem HoldsAll.outcome {B : Backing Machine} {Grow : Nat → Nat → Machine → Machine → Prop}
    {Fail : Nat → Nat → Nat → Machine → Machine → Prop} {virtual n p : Nat} {h h' : Heap Machine}
    (hh : HoldsAll L h.low) (ho : Outcome L B Grow Fail virtual n h p h')
    (hclear : ∀ w, HeapPage L w → ClearSlot h.low h'.low w)
    (hgrow : ∀ {v k : Nat} {m' : Machine}, (∀ w, InRun v k w → HeapPage L w) →
      Grow (v * 4096) k h.low m' → BacksRun L h.low m' v k)
    (hfail : ∀ {v : Nat} {m' : Machine}, n ≠ 0 → firstFitHead virtual n h.mem h.heapList = none →
      (findFreeVirtAddr L (regionSize n) h.mmVirtHeap).1 = v * 4096 →
      (∀ w, InRun v (regionSize n / 4096) w → HeapPage L w) →
      Fail (v * 4096) (regionSize n / 4096) (PAGE_ALIGN n / 4096) h.low m' →
      (∀ w, HeapPage L w → ClearSlot h.low m' w) → HoldsAll L m') : HoldsAll L h'.low := by
  cases ho with
  | nothing => exact hh
  | served => exact hh
  | @failed v s hn hnone hfind hrun hf =>
    obtain ⟨w, rfl⟩ : ∃ w, v = w * 4096 := ⟨v / 4096, by have := hrun.aligned; omega⟩
    have hheap := fun u => hrun.heapPage (w := u)
    rw [Nat.mul_div_cancel _ (by decide)] at hheap
    exact hfail hn hnone hfind hheap hf hclear
  | @grown v s hrun hnone hg =>
    obtain ⟨w, rfl⟩ : ∃ w, v = w * 4096 := ⟨v / 4096, by have := hrun.aligned; omega⟩
    have hheap := fun u => hrun.heapPage (w := u)
    rw [Nat.mul_div_cancel _ (by decide)] at hheap
    exact hh.backed (hgrow hheap hg) hheap hclear

theorem HoldsAll.kmalloc {n : Nat} {h : Heap Machine} (hh : HoldsAll L h.low) (hn : n < 2 ^ 32)
    (hclear : ∀ w, HeapPage L w →
      ClearSlot h.low (kmalloc L (machineBacking L word) n h).2.low w) :
    HoldsAll L (kmalloc L (machineBacking L word) n h).2.low := by
  refine hh.outcome (kmalloc_outcome L _ n h) hclear (fun hheap hg => (kgrow_backs hh.paging hheap hg).1)
    fun _ _ _ hheap hf hclear => ?_
  have hk : regionSize n / 4096 ≠ 0 → PAGE_ALIGN n / 4096 ≤ regionSize n / 4096 := fun hne =>
    ((requestable_iff hn).mpr fun hl => hne (by rw [regionSize_of_lost hl])).covers
  obtain ⟨hs, hless⟩ := kfail_spares hh.paging hheap hk hf
  exact hh.spared hs hless hclear

theorem HoldsAll.vmalloc {n : Nat} {h : Heap Machine} (hh : HoldsAll L h.low)
    (hclear : ∀ w, HeapPage L w →
      ClearSlot h.low (vmalloc L (machineBacking L word) n h).2.low w)
    (hno : ¬ UnwindsMapped L word n h) :
    HoldsAll L (vmalloc L (machineBacking L word) n h).2.low := by
  refine hh.outcome (vmalloc_outcome L _ n h) hclear (fun hheap hg => vgrow_backs hh.paging hheap hg)
    fun hn hnone hfind hheap hf hclear => ?_
  obtain ⟨i, m₁, hi, hb, rfl, last, he, hlast⟩ := vfail_backs hh.paging hheap hf
  -- one page at most has been mapped, so no frame is given back
  have hone : i - 1 = 0 := by
    by_contra h2
    refine hno ⟨hn, hnone, last, m₁, ?_, ?_⟩
    · rw [hfind]
      exact he
    · rw [hfind]
      exact hlast.mpr (by omega)
  rw [hone] at hclear ⊢
  exact hh.backed hb (fun w hw => hheap w (by unfold InRun at hw ⊢; omega)) hclear

/-- A release that drops no region leaves the page tables and the frames alone. -/
theorem free_low {σ : Type} {drop : Nat → Nat → σ → σ} {defrag : Nat → Heap σ → Heap σ} {p : Nat}
    {h : Heap σ} (hdefrag : Defrags L drop defrag) (hno : ¬ DropsRegion p h) :
    (free defrag p h).low = h.low := by
  unfold free
  split
  · rfl
  cases hl : lookup p h.mem h.heapList with
  | none => rfl
  | some f =>
    obtain ⟨e, head⟩ := f
    dsimp only
    rw [hdefrag, if_neg fun hc => hno ⟨e, head, hl, hc⟩]

/-- **One step keeps the invariant.** -/
theorem HoldsAll.step {s t : Client Machine} {op : HeapOp} (h : HoldsAll L s.heap.low)
    (hs : heapCallStep L word s op t) (hop : MappingsKept L word s op t) : HoldsAll L t.heap.low := by
  obtain ⟨th, tl⟩ := t
  cases op with
  | kmalloc n =>
    obtain ⟨hn, hth, -⟩ := hs
    dsimp only at hth
    subst hth
    exact h.kmalloc hn hop
  | vmalloc n =>
    obtain ⟨hn, hth, -⟩ := hs
    dsimp only at hth
    subst hth
    exact h.vmalloc hop.1 hop.2
  | kfree p =>
    obtain ⟨-, hth, -⟩ := hs
    have hlow : (kfree L (machineBacking L word) p s.heap).low = s.heap.low :=
      free_low (kdefrag_defrags L _) hop
    rw [hth, hlow]
    exact h
  | vfree p =>
    obtain ⟨-, hth, -⟩ := hs
    have hlow : (vfree L (machineBacking L word) p s.heap).low = s.heap.low :=
      free_low (vdefrag_defrags L _) hop
    rw [hth, hlow]
    exact h
  | store => exact h.store hs
  | other =>
    obtain ⟨⟨f, hth⟩, -⟩ := hs
    rw [hth]
    exact h.congr (h.paging.congr rfl rfl) (fun _ => Iff.rfl) fun _ _ _ => Names.swapTo f

/-- **No heap page maps a freed frame**, in every state that calls of the heap reach from
`page_setup` and `heap_setup`, as long as no frame of a present page is given back and no page
table is made in a frame that shows a page. -/
theorem heap_pages_own_frames (L : Layout) (word : Machine → Nat → Nat) (kernelPage : Nat → Nat)
    (bm : Bytes) (m₀ : Machine) (hboot : m₀.pageDirectory = bootDirectory) (mem : Mem)
    (virtHeap : Bytes) (ops : List HeapOp) (s : Client Machine)
    (h : Run (fun s op t => heapCallStep L word s op t ∧ MappingsKept L word s op t)
      (.start mem virtHeap (pageSetup L kernelPage bm m₀)) ops s) :
    PagesOwnFrames L s.heap.low := by
  have hs := h.invariant (fun s => HoldsAll L s.heap.low)
    (fun _ _ _ hs hstep => HoldsAll.step hs hstep.1 hstep.2)
    (HoldsAll.start (setUp_pageSetup L kernelPage bm hboot))
  exact hs.pagesOwnFrames

/-- The kernel after `page_setup` and `heap_setup`, with every frame free and memory zeroed. -/
def Client.setUp : Client Machine := .start (fun _ => 0) (fun _ => 0) .setUp

/-- The same after `kmalloc` of 100 bytes. -/
def Client.oneBlock : Client Machine :=
  let r := kmalloc .sample (machineBacking .sample fun _ _ => 0) 100 Client.setUp.heap
  ⟨r.2, record 0 100 r.1 r.2 []⟩

/-- And after `kfree` of the block. -/
def Client.blockFreed : Client Machine :=
  ⟨kfree .sample (machineBacking .sample fun _ _ => 0) 0xC0780030 Client.oneBlock.heap,
    forget 0xC0780030 Client.oneBlock.live⟩

theorem Client.setUp_ram (f i : Nat) : Client.setUp.heap.low.ram f i = 0 := by
  show (if f = _ then 0 else 0) = 0
  exact ite_self 0

theorem run_oneBlock : Run (fun s op t => heapCallStep .sample (fun _ _ => 0) s op t ∧
    MappingsKept .sample (fun _ _ => 0) s op t) .setUp [.kmalloc 100] .oneBlock := by
  refine .single ⟨⟨by decide, rfl, rfl⟩, fun w _ _ _ => ?_⟩
  rw [Client.setUp_ram, Nat.zero_and]

/-- The pages of one block own their frames. -/
theorem one_block_owns_its_frame : PagesOwnFrames .sample Client.oneBlock.heap.low :=
  heap_pages_own_frames .sample (fun _ _ => 0) (fun _ => 0) (fun _ => 0xFF)
    ⟨fun _ => 0xFF, bootDirectory, fun _ _ => 0⟩ rfl (fun _ => 0) (fun _ => 0) [.kmalloc 100]
    .oneBlock run_oneBlock

/-- The release drops the region and leaves its page present, though its frame is free again. -/
theorem freed_region_stays_mapped :
    Run (heapCallStep .sample fun _ _ => 0) .setUp [.kmalloc 100, .kfree 0xC0780030] .blockFreed ∧
      Present .sample Client.blockFreed.heap.low 0xC0780000 ∧
      ¬ PagesOwnFrames .sample Client.blockFreed.heap.low := by
  have hfree : MayFree Client.oneBlock 0 0xC0780030 := .inr (by decide +kernel)
  have hp : Present .sample Client.blockFreed.heap.low 0xC0780000 := by decide +kernel
  refine ⟨.cons ⟨by decide, rfl, rfl⟩ (.single ⟨hfree, rfl, rfl⟩), hp, fun h => ?_⟩
  have hfrees : isFree Client.blockFreed.heap.low.mmBitmap
      ((pageGetPhys .sample 0xC0780000 Client.blockFreed.heap.low).1 / 4096) = true := by
    decide +kernel
  rw [h.allocated 0xC0780000 (by decide) (by decide) hp] at hfrees
  cases hfrees

end Moonlight
