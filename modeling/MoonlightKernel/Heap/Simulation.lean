import MoonlightKernel.Heap.Region

/-!
# The heap operations on the list of regions

Each operation of the faithful heap is simulated by one on the list of regions:

* `kmalloc_simulates`, `vmalloc_simulates` — an allocation fails, is served from a region that
  is there, or from a new one (`Allocated`);
* `free_simulates` — a release coalesces the blocks of one region and drops
  the region when a single free block is left (`Released`).

The calls into the frame allocator and the page tables appear in these results as they stand in
the source, so that a user of the simulation can say what they do for his own `Backing`.
-/

set_option autoImplicit false

namespace Moonlight

open Sys Sys.Bitmap Sys.Tiling Region

variable {L : Layout} {σ : Type}

/-! ## The virtual page bitmap -/

theorem heapPage_next {a : Nat} (h : HEAP_START L ≤ a) :
    heapPage L (a + 4096) = heapPage L a + 1 := by
  unfold heapPage; omega

theorem heapPage_shift (L : Layout) (a : Nat) : (a - HEAP_START L) >>> 15 = heapPage L a / 8 ∧
    (a - HEAP_START L) >>> 12 = heapPage L a := by
  rw [Nat.shiftRight_eq_div_pow, shiftRight_page, heapPage, Nat.div_div_eq_div_mul]
  exact ⟨rfl, rfl⟩

theorem allocVirtBlock_eq (size : Nat) : ∀ (start : Nat) (bm : Bytes), HEAP_START L ≤ start →
    allocVirtBlock L start size bm = clearRun (heapPage L start) size bm := by
  induction size with
  | zero => intro start bm _; rfl
  | succ size ih =>
    intro start bm h
    rw [allocVirtBlock, clearRun, ih _ _ (by omega), heapPage_next h, (heapPage_shift L start).1,
      (heapPage_shift L start).2]

theorem freeVirtBlock_eq (size : Nat) : ∀ (start : Nat) (bm : Bytes), HEAP_START L ≤ start →
    freeVirtBlock L start size bm = setRun (heapPage L start) size bm := by
  induction size with
  | zero => intro start bm _; rfl
  | succ size ih =>
    intro start bm h
    rw [freeVirtBlock, setRun, ih _ _ (by omega), heapPage_next h, (heapPage_shift L start).1,
      (heapPage_shift L start).2]

/-- `n` pages from `v` on lie in the heap window and are free in `bm`. -/
structure FreeRun (L : Layout) (bm : Bytes) (v n : Nat) : Prop where
  aligned : v % 4096 = 0
  lo : HEAP_START L ≤ v
  hi : v + n * 4096 < HEAP_END L
  free : ∀ q, heapPage L v ≤ q → q < heapPage L v + n → isSet bm q = true

/-- **`find_free_virt_addr`** finds nothing, or reserves a run of free pages of the window. -/
theorem findFreeVirtAddr_spec (L : Layout) {size : Nat} (hsize : size % 4096 = 0) (bm : Bytes) :
    findFreeVirtAddr L size bm = (0, bm) ∨
      ∃ v, findFreeVirtAddr L size bm = (v, clearRun (heapPage L v) (size / 4096) bm) ∧
        FreeRun L bm v (size / 4096) := by
  have hL := HEAP_START_bounds L
  unfold findFreeVirtAddr
  rw [PAGE_ALIGN_of_dvd hsize, shiftRight_page]
  dsimp only
  split
  · rename_i p hp
    rw [scanBytes_eq] at hp
    obtain ⟨-, h2, h3⟩ := findRun_some 0 (by decide)
      (fun q hq hq' => absurd hq (by omega)) hp
    have h2' : p + size / 4096 < 4096 := Nat.lt_of_lt_of_eq h2 (by decide)
    rw [shiftLeft_page]
    have hpage : heapPage L (p * 4096 + HEAP_START L) = p := by unfold heapPage; omega
    refine .inr ⟨p * 4096 + HEAP_START L, by rw [allocVirtBlock_eq _ _ _ (by omega)],
      by omega, by omega, by omega, ?_⟩
    rw [hpage]
    exact fun q => h3 q
  · exact .inl rfl

/-- A reserved run ends in the address space. -/
theorem FreeRun.size_le {bm : Bytes} {v size : Nat} (h : FreeRun L bm v (size / 4096))
    (hsize : size % 4096 = 0) : v + size ≤ 2 ^ 32 := by
  have h1 := h.hi
  have h2 := HEAP_START_bounds L
  omega

/-- `find_free_virt_addr` succeeds on a run of free pages, if the run does not end with the last
page of the window. -/
theorem findFreeVirtAddr_ne_zero_iff {size : Nat} (hsize : size % 4096 = 0) (bm : Bytes) :
    (findFreeVirtAddr L size bm).1 ≠ 0 ↔ HasRun bm 0 (HEAP_SIZE / 4096 - 1) (size / 4096) := by
  have hL := HEAP_START_bounds L
  have hscan : scanBytes bm (size / 4096) (HEAP_SIZE / (8 * 4096)) 0 0 ≠ none ↔
      HasRun bm 0 (HEAP_SIZE / 4096 - 1) (size / 4096) := scanBytes_ne_none_iff (by decide)
  rw [← hscan, findFreeVirtAddr, PAGE_ALIGN_of_dvd hsize, shiftRight_page]
  cases scanBytes bm (size / 4096) (HEAP_SIZE / (8 * 4096)) 0 0 with
  | none => simp
  | some p =>
    simp only [ne_eq, reduceCtorEq, not_false_eq_true, iff_true]
    omega

theorem regionSize_aligned (n : Nat) : regionSize n % 4096 = 0 := by
  unfold regionSize PAGE_ALIGN add32
  split <;> omega

/-- A request whose region size is a positive number of pages: it has not wrapped to zero. -/
structure Requestable (n : Nat) : Prop where
  aligned : regionSize n % 4096 = 0
  pos : 4096 ≤ regionSize n
  covers : PAGE_ALIGN n / 4096 ≤ regionSize n / 4096

theorem requestable_of_le {n : Nat} (h : n ≤ 2 ^ 32 - 8192) : Requestable n := by
  have h1 := PAGE_ALIGN_spec (p := n) (by omega)
  have h2 := PAGE_ALIGN_spec (p := n + 48) (by omega)
  have h3 : regionSize n = PAGE_ALIGN (n + 48) := by
    have h4 : add32 n heapListSize = n + 32 := add32_of_lt (by unfold heapListSize; omega)
    have h5 : add32 (n + 32) headerSize = n + 48 := add32_of_lt (by unfold headerSize; omega)
    rw [regionSize, h4, h5]
  constructor <;> rw [h3] <;> omega

/-! ## Allocation -/

/-- The calls by which `kmalloc` backs a new region. -/
def KGrow (B : Backing σ) (v pages : Nat) (s t : σ) : Prop :=
  (B.getPhysBlock pages s).1 ≠ 0 ∧
    B.pageMapRange (B.getPhysBlock pages s).1 v (PAGE_WRITE ||| PAGE_PRESENT) pages
      (B.getPhysBlock pages s).2 = (0, t)

/-- The calls by which `vmalloc` backs a new region. -/
def VGrow (B : Backing σ) (v pages : Nat) (s t : σ) : Prop := vmallocMap B pages v v s = .ok t

/-- The calls of a `kmalloc` that cannot back a new region: no frames, or no mapping, after which
`back` of the frames are given back. -/
def KFail (B : Backing σ) (v pages back : Nat) (s t : σ) : Prop :=
  ((B.getPhysBlock pages s).1 = 0 ∧ t = (B.getPhysBlock pages s).2) ∨
    ((B.getPhysBlock pages s).1 ≠ 0 ∧
      (B.pageMapRange (B.getPhysBlock pages s).1 v (PAGE_WRITE ||| PAGE_PRESENT) pages
        (B.getPhysBlock pages s).2).1 ≠ 0 ∧
      t = B.freePhysBlock (B.getPhysBlock pages s).1 back
        (B.pageMapRange (B.getPhysBlock pages s).1 v (PAGE_WRITE ||| PAGE_PRESENT) pages
          (B.getPhysBlock pages s).2).2)

/-- The calls of a `vmalloc` that cannot back a new region. -/
def VFail (B : Backing σ) (v pages _back : Nat) (s t : σ) : Prop :=
  ∃ last s', vmallocMap B pages v v s = .error (last, s') ∧
    t = freeMapped B ((last - v) >>> 12) v s'

/-- What an allocation of `n` bytes comes to in a heap `h`, by the pointer it returns; `Grow` and
`Fail` are how the backing of a new region succeeds and fails. -/
inductive Outcome (L : Layout) (B : Backing σ) (Grow : Nat → Nat → σ → σ → Prop)
    (Fail : Nat → Nat → Nat → σ → σ → Prop) (virtual n : Nat) (h : Heap σ) : Nat → Heap σ → Prop
  | nothing : Outcome L B Grow Fail virtual n h 0 h
  | served {e y : Nat} (hfit : firstFitHead virtual n h.mem h.heapList = some (e, y)) :
      Outcome L B Grow Fail virtual n h (y + headerSize)
        { h with mem := place (MALLOC_ALIGN n) y h.mem }
  | failed {v : Nat} {s : σ} (hn : n ≠ 0)
      (hnone : firstFitHead virtual n h.mem h.heapList = none)
      (hfind : (findFreeVirtAddr L (regionSize n) h.mmVirtHeap).1 = v)
      (hrun : FreeRun L h.mmVirtHeap v (regionSize n / 4096))
      (hfail : Fail v (regionSize n / 4096) (PAGE_ALIGN n / 4096) h.low s) :
      Outcome L B Grow Fail virtual n h 0
        ⟨h.mem, freeVirtBlock L v (PAGE_ALIGN n / 4096)
          (clearRun (heapPage L v) (regionSize n / 4096) h.mmVirtHeap), h.heapList, s⟩
  | grown {v : Nat} {s : σ} (hrun : FreeRun L h.mmVirtHeap v (regionSize n / 4096))
      (hnone : firstFitHead virtual n h.mem h.heapList = none)
      (hgrow : Grow v (regionSize n / 4096) h.low s) :
      Outcome L B Grow Fail virtual n h
        (addRegion B virtual v n
          ⟨h.mem, clearRun (heapPage L v) (regionSize n / 4096) h.mmVirtHeap, h.heapList, s⟩).1
        (addRegion B virtual v n
          ⟨h.mem, clearRun (heapPage L v) (regionSize n / 4096) h.mmVirtHeap, h.heapList, s⟩).2

/-- **`kmalloc`** by its branches. -/
theorem kmalloc_outcome (L : Layout) (B : Backing σ) (n : Nat) (h : Heap σ) :
    Outcome L B (KGrow B) (KFail B) 0 n h (kmalloc L B n h).1 (kmalloc L B n h).2 := by
  unfold kmalloc
  split
  · exact .nothing
  rename_i hn
  rw [firstFit_eq]
  cases hfit : firstFitHead 0 n h.mem h.heapList with
  | some f => exact .served hfit
  | none =>
    dsimp only [Option.map_none]
    rw [shiftRight_page, shiftRight_page]
    rcases findFreeVirtAddr_spec L (regionSize_aligned n) h.mmVirtHeap with hv | ⟨v, hv, hrun⟩
    · rw [hv, if_pos rfl]
      exact .nothing
    · have hlo := hrun.lo
      have hL := HEAP_START_bounds L
      rw [hv, if_neg (by dsimp only; omega)]
      dsimp only
      split
      · rename_i hphys
        exact .failed hn hfit (congrArg Prod.fst hv) hrun (.inl ⟨hphys, rfl⟩)
      rename_i hphys
      split
      · rename_i hmap
        exact .failed hn hfit (congrArg Prod.fst hv) hrun (.inr ⟨hphys, hmap, rfl⟩)
      rename_i hmap
      exact .grown hrun hfit ⟨hphys, Prod.ext (not_not.mp hmap) rfl⟩

/-- **`vmalloc`** by its branches. -/
theorem vmalloc_outcome (L : Layout) (B : Backing σ) (n : Nat) (h : Heap σ) :
    Outcome L B (VGrow B) (VFail B) 1 n h (vmalloc L B n h).1 (vmalloc L B n h).2 := by
  unfold vmalloc
  split
  · exact .nothing
  rename_i hn
  rw [firstFit_eq]
  cases hfit : firstFitHead 1 n h.mem h.heapList with
  | some f => exact .served hfit
  | none =>
    dsimp only [Option.map_none]
    rw [shiftRight_page, shiftRight_page]
    rcases findFreeVirtAddr_spec L (regionSize_aligned n) h.mmVirtHeap with hv | ⟨v, hv, hrun⟩
    · rw [hv, if_pos rfl]
      exact .nothing
    · have hlo := hrun.lo
      have hL := HEAP_START_bounds L
      rw [hv, if_neg (by dsimp only; omega)]
      dsimp only
      split
      · rename_i hmap
        exact .failed hn hfit (congrArg Prod.fst hv) hrun ⟨_, _, hmap, rfl⟩
      · rename_i s hmap
        exact .grown hrun hfit hmap

/-- What an allocation of `n` bytes does to a heap `h` with the regions `rs`, by the pointer it
returns; `Grow` is how a new region is backed. -/
inductive Allocated (Grow : Nat → Nat → σ → σ → Prop) (virtual n : Nat) (h : Heap σ)
    (rs : List (Region L)) : Nat → Heap σ → List (Region L) → Prop
  /-- Nothing was found. -/
  | failed (h' : Heap σ) : Allocated Grow virtual n h rs 0 h' rs
  /-- A new region was set up, but it has no room either. -/
  | kept {r : Region L} (h' : Heap σ) : Allocated Grow virtual n h rs 0 h' (r :: rs)
  | served {l t : List (Region L)} {r r' : Region L} {bl bt : List Block} {b : Block} (h' : Heap σ)
      (hrs : rs = l ++ r :: t) (hv : r.virtual = virtual)
      (hfit : firstFitHead virtual n h.mem h.heapList = some (r.base, r.base + 32 + span 16 bl))
      (hh : Handed (MALLOC_ALIGN n) r r' bl b bt)
      (hbm : h'.mmVirtHeap = h.mmVirtHeap) (hlow : h'.low = h.low) :
      Allocated Grow virtual n h rs (r.base + 32 + span 16 bl + 16) h' (l ++ r' :: t)
  | grown {r r' : Region L} {bl bt : List Block} {b : Block} (h' : Heap σ)
      (hfit : firstFitHead virtual n h.mem h.heapList = none)
      (hv : r.virtual = virtual) (hb : r.blocks = [⟨regionSize n - 48, true⟩])
      (hh : Handed (MALLOC_ALIGN n) r r' bl b bt)
      (hrun : FreeRun L h.mmVirtHeap r.base (regionSize n / 4096))
      (hbm : h'.mmVirtHeap = clearRun (heapPage L r.base) (regionSize n / 4096) h.mmVirtHeap)
      (hlow : Grow r.base (regionSize n / 4096) h.low h'.low) :
      Allocated Grow virtual n h rs (r.base + 32 + span 16 bl + 16) h' (r' :: rs)

/-- The region that `init_new_allocated_block` sets up. -/
def freshRegion {bm : Bytes} {v n : Nat} (virtual : Nat) (hn : Requestable n)
    (hrun : FreeRun L bm v (regionSize n / 4096)) : Region L where
  base := v
  virtual := virtual
  blocks := [⟨regionSize n - 48, true⟩]
  sizes := by
    have h1 := hn.aligned
    have h2 := hn.pos
    simp only [List.mem_singleton, forall_eq]; omega
  aligned := hrun.aligned
  pages := by
    have h1 := hn.aligned
    have h2 := hn.pos
    simp only [span_cons, span_nil]; omega
  lo := hrun.lo
  hi := by
    have h1 := hn.aligned
    have h2 := hn.pos
    have h3 := hrun.hi
    simp only [span_cons, span_nil]; omega

theorem freshRegion_stop {bm : Bytes} {v n : Nat} (virtual : Nat) (hn : Requestable n)
    (hrun : FreeRun L bm v (regionSize n / 4096)) :
    (freshRegion virtual hn hrun).stop = v + regionSize n := by
  have h1 := hn.pos
  unfold stop size freshRegion
  simp only [span_cons, span_nil]; omega

/-- The headers that `init_new_allocated_block` writes. -/
theorem initNewAllocatedBlock_headers {v size virtual : Nat} (hv : virtual < 2) (hlo : 48 ≤ size)
    (hhi : size < 2 ^ 31) (mem : Mem) :
    low31 (initNewAllocatedBlock v size virtual mem v) = size - 32 ∧
      top1 (initNewAllocatedBlock v size virtual mem v) = virtual ∧
      (initNewAllocatedBlock v size virtual mem).header (v + 32) = ⟨size - 48, true⟩ ∧
      ∀ a, a ≠ v → a ≠ v + 32 → initNewAllocatedBlock v size virtual mem a = mem a := by
  have hne : v ≠ v + heapListSize := by unfold heapListSize; omega
  unfold initNewAllocatedBlock
  rw [headerSize, sub32_of_le (b := heapListSize) (by unfold heapListSize; omega) (by omega),
    sub32_of_le (by unfold heapListSize; omega) (by omega)]
  dsimp only
  refine ⟨?_, ?_, ?_, fun a ha ha' => ?_⟩
  · rw [setTop1_of_ne hne, setLow31_of_ne hne, low31_setTop1, low31_setLow31]
    unfold heapListSize
    omega
  · rw [setTop1_of_ne hne, setLow31_of_ne hne, top1_setTop1]
    omega
  · show Mem.header _ (v + heapListSize) = ⟨size - 48, true⟩
    rw [header_setTop1, header_setLow31, Nat.mod_eq_of_lt (by unfold heapListSize; omega)]
    refine congrArg₂ Block.mk ?_ rfl
    unfold heapListSize
    dsimp only
    omega
  · unfold heapListSize at hne ⊢
    rw [setTop1_of_ne ha', setLow31_of_ne ha', setTop1_of_ne ha, setLow31_of_ne ha]

/-- `init_new_allocated_block` writes the headers of the new region and nothing else. -/
theorem shown_initNewAllocatedBlock {bm : Bytes} {v n virtual : Nat} (hv : virtual < 2)
    (hn : Requestable n) (hrun : FreeRun L bm v (regionSize n / 4096)) (mem : Mem) :
    (freshRegion virtual hn hrun).Shown (initNewAllocatedBlock v (regionSize n) virtual mem) ∧
      ∀ a, (a < v ∨ v + regionSize n ≤ a) →
        initNewAllocatedBlock v (regionSize n) virtual mem a = mem a := by
  have h1 := hn.pos
  have h5 := hn.aligned
  have h2 := hrun.hi
  have h3 := HEAP_START_bounds L
  have h4 := hrun.lo
  have hlt : regionSize n < 2 ^ 31 := by omega
  obtain ⟨hsize, hkind, hhead, hframe⟩ :=
    initNewAllocatedBlock_headers (v := v) hv (by omega) hlt mem
  refine ⟨⟨?_, hkind, ⟨hhead, trivial⟩⟩, fun a ha => hframe a (by omega) (by omega)⟩
  show low31 (initNewAllocatedBlock v (regionSize n) virtual mem v) = span 16 [_]
  rw [hsize, span_cons, span_nil]
  dsimp only
  omega

/-- Free pages are pages of no region. -/
theorem freshRegion_apart {h : Heap σ} {rs : List (Region L)} (hh : Refines h rs) {v n : Nat}
    (virtual : Nat) (hn : Requestable n)
    (hrun : FreeRun L h.mmVirtHeap v (regionSize n / 4096)) :
    ∀ s ∈ rs, (freshRegion virtual hn hrun).Apart s := by
  intro s hs
  have hstop := freshRegion_stop virtual hn hrun
  have h1 := hn.pos
  have h0 := hn.aligned
  unfold Apart
  rw [hstop]
  show v + regionSize n ≤ s.base ∨ s.stop ≤ v
  by_contra hc
  rw [not_or, Nat.not_le, Nat.not_le] at hc
  -- the larger of the two bases is a page of both
  have hboth : ∀ a, v ≤ a → a < v + regionSize n → s.base ≤ a → a < s.stop → False := by
    intro a h2 h3 h4 h5
    have hlo := hrun.lo
    have hal := hrun.aligned
    have hL := HEAP_START_bounds L
    have h6 := hrun.free (heapPage L a) (by unfold heapPage; omega) (by unfold heapPage; omega)
    rw [hh.taken s hs a h4 h5] at h6
    exact Bool.noConfusion h6
  have hss := s.base_lt_stop
  by_cases hvb : v ≤ s.base
  · exact hboth s.base hvb hc.1 (Nat.le_refl _) hss
  · exact hboth v (Nat.le_refl _) (by omega) (by omega) hc.2

/-- The end of `kmalloc` and `vmalloc` sets up a region on the pages that were reserved, and serves
the request from it if it has the room. -/
theorem addRegion_fresh {Grow : Nat → Nat → σ → σ → Prop} {h : Heap σ} {rs : List (Region L)}
    (hh : Refines h rs) (B : Backing σ) {v n virtual : Nat} (hv : virtual < 2)
    (hn : Requestable n) (hrun : FreeRun L h.mmVirtHeap v (regionSize n / 4096)) {s : σ}
    (hlow : Grow v (regionSize n / 4096) h.low s)
    (hnone : firstFitHead virtual n h.mem h.heapList = none) {h₁ : Heap σ}
    (h₁eq : h₁ = ⟨h.mem, clearRun (heapPage L v) (regionSize n / 4096) h.mmVirtHeap,
      h.heapList, s⟩) :
    ∃ r' : Region L, (r'.base = v ∧ r'.stop = v + regionSize n ∧ r'.virtual = virtual) ∧
      Refines (addRegion B virtual v n h₁).2 (r' :: rs) ∧
      Allocated Grow virtual n h rs (addRegion B virtual v n h₁).1
        (addRegion B virtual v n h₁).2 (r' :: rs) := by
  subst h₁eq
  have hsz := hn.pos
  have hal := hn.aligned
  have hL := HEAP_START_bounds L
  unfold addRegion
  dsimp only
  rw [tryAllocate_eq]
  generalize hm : reveal B s v (regionSize n) h.mem = m₀
  have hm₀ : ∀ a, (a < v ∨ v + regionSize n ≤ a) → m₀ a = h.mem a := fun a ha => by
    rw [← hm, reveal, if_neg (by omega)]
  obtain ⟨hs, hframe⟩ := shown_initNewAllocatedBlock hv hn hrun m₀
  generalize hm' : initNewAllocatedBlock v (regionSize n) virtual m₀ = m₁ at *
  have hstop := freshRegion_stop virtual hn hrun
  -- the heap with the new region, before the request is served
  have hh₁ : Refines (⟨m₁, clearRun (heapPage L v) (regionSize n / 4096) h.mmVirtHeap,
      v :: h.heapList, s⟩ : Heap σ) (freshRegion virtual hn hrun :: rs) := by
    refine hh.insert rfl (freshRegion_apart hh virtual hn hrun) hs (fun a ha => ?_)
      (fun q hq => ?_) fun a h1 h2 => ?_
    · rw [hstop] at ha
      exact (hframe a ha).trans (hm₀ a ha)
    · rw [isSet_clearRun, hq, Bool.false_and]
    · rw [hstop] at h2
      have h3 : v ≤ a := h1
      have hlo := hrun.lo
      have hal := hrun.aligned
      rw [isSet_clearRun, decide_eq_true (by unfold heapPage; omega), Bool.not_true, Bool.and_false]
  rcases entryFit_spec hs n with hfit | ⟨r', bl, b, bt, hhand, hfit, hs', hframe'⟩
  · rw [show entryFit v n m₁ = none from hfit]
    exact ⟨_, ⟨rfl, hstop, rfl⟩, hh₁, .kept _⟩
  · rw [show entryFit v n m₁ = some (v + 32 + span 16 bl) from hfit]
    refine ⟨r', ⟨hhand.base, hhand.stop_eq.trans hstop, hhand.virtual⟩,
      hh₁.update (l := []) hhand.base hhand.stop_eq rfl rfl hs' fun a ha => ?_,
      .grown _ hnone rfl rfl hhand hrun rfl hlow⟩
    refine hframe' a ?_
    omega

/-- The new region is one of the list. -/
theorem addRegion_simulates {Grow : Nat → Nat → σ → σ → Prop} {h : Heap σ} {rs : List (Region L)}
    (hh : Refines h rs) (B : Backing σ) {v n virtual : Nat} (hv : virtual < 2)
    (hn : Requestable n) (hrun : FreeRun L h.mmVirtHeap v (regionSize n / 4096)) {s : σ}
    (hlow : Grow v (regionSize n / 4096) h.low s)
    (hnone : firstFitHead virtual n h.mem h.heapList = none) {h₁ : Heap σ}
    (h₁eq : h₁ = ⟨h.mem, clearRun (heapPage L v) (regionSize n / 4096) h.mmVirtHeap,
      h.heapList, s⟩) :
    ∃ rs', Refines (addRegion B virtual v n h₁).2 rs' ∧
      Allocated Grow virtual n h rs (addRegion B virtual v n h₁).1
        (addRegion B virtual v n h₁).2 rs' := by
  obtain ⟨r', -, hh', ha⟩ := addRegion_fresh hh B hv hn hrun hlow hnone h₁eq
  exact ⟨r' :: rs, hh', ha⟩

/-- A request that a region has room for. -/
theorem served_simulates {Grow : Nat → Nat → σ → σ → Prop} {h : Heap σ} {rs : List (Region L)}
    (hh : Refines h rs) {n virtual e y : Nat}
    (hfit : firstFitHead virtual n h.mem h.heapList = some (e, y)) :
    ∃ rs', Refines { h with mem := place (MALLOC_ALIGN n) y h.mem } rs' ∧
      Allocated Grow virtual n h rs (y + headerSize)
        { h with mem := place (MALLOC_ALIGN n) y h.mem } rs' := by
  have hfit' := hfit
  rw [hh.list] at hfit'
  rcases firstFitHead_spec virtual n hh.shown with hnone | ⟨l, r, t, z, rfl, hv, hz, hsome⟩
  · rw [hnone] at hfit'; cases hfit'
  · rw [hsome] at hfit'
    cases hfit'
    rcases entryFit_spec (hh.shown r (by simp)) n with hnone | ⟨r', bl, b, bt, hhand, hy, hs, hframe⟩
    · rw [hnone] at hz; cases hz
    · rw [hz] at hy
      cases hy
      exact ⟨l ++ r' :: t, hh.update hhand.base hhand.stop_eq rfl rfl hs
          fun a ha => hframe a (by omega), .served _ rfl hv hfit hhand rfl rfl⟩

/-- Pages that a failed allocation gives back were pages of no region. -/
theorem release_reserved {h : Heap σ} {rs : List (Region L)} (hh : Refines h rs) {v k j : Nat}
    (hrun : FreeRun L h.mmVirtHeap v k) (hj : j ≤ k) {h' : Heap σ} (hl : h'.heapList = h.heapList)
    (hm : h'.mem = h.mem)
    (hbm : h'.mmVirtHeap = freeVirtBlock L v j (clearRun (heapPage L v) k h.mmVirtHeap)) :
    Refines h' rs := by
  refine hh.congr hl (by rw [hm]; exact hh.shown) fun q hq => ?_
  rw [hbm, freeVirtBlock_eq _ _ _ hrun.lo, isSet_setRun, isSet_clearRun, hq, Bool.false_and,
    Bool.false_or]
  refine decide_eq_false fun hc => ?_
  have := hrun.free q hc.1 (by omega)
  rw [hq] at this
  exact Bool.noConfusion this

/-- An allocation of either kind on the list of regions. -/
theorem Outcome.simulates {B : Backing σ} {Grow : Nat → Nat → σ → σ → Prop}
    {Fail : Nat → Nat → Nat → σ → σ → Prop} {h h' : Heap σ} {rs : List (Region L)}
    {virtual n p : Nat} (ho : Outcome L B Grow Fail virtual n h p h') (hh : Refines h rs)
    (hv : virtual < 2) (hn : Requestable n) :
    ∃ rs', Refines h' rs' ∧ Allocated Grow virtual n h rs p h' rs' := by
  cases ho with
  | nothing => exact ⟨rs, hh, .failed _⟩
  | served hfit => exact served_simulates hh hfit
  | failed _ _ _ hrun _ => exact ⟨rs, release_reserved hh hrun hn.covers rfl rfl rfl, .failed _⟩
  | grown hrun hnone hgrow => exact addRegion_simulates hh B hv hn hrun hgrow hnone rfl

/-- **`kmalloc`** on the list of regions. -/
theorem kmalloc_simulates {h : Heap σ} {rs : List (Region L)} (hh : Refines h rs) (B : Backing σ)
    {n : Nat} (hn : Requestable n) :
    ∃ rs', Refines (kmalloc L B n h).2 rs' ∧
      Allocated (KGrow B) 0 n h rs (kmalloc L B n h).1 (kmalloc L B n h).2 rs' :=
  (kmalloc_outcome L B n h).simulates hh (by decide) hn

/-- **`vmalloc`** on the list of regions. -/
theorem vmalloc_simulates {h : Heap σ} {rs : List (Region L)} (hh : Refines h rs) (B : Backing σ)
    {n : Nat} (hn : Requestable n) :
    ∃ rs', Refines (vmalloc L B n h).2 rs' ∧
      Allocated (VGrow B) 1 n h rs (vmalloc L B n h).1 (vmalloc L B n h).2 rs' :=
  (vmalloc_outcome L B n h).simulates hh (by decide) hn

/-! ## Release -/

/-- Region `r` becomes `r'` when the used block of `s` bytes behind the blocks `bl` is marked
free and the blocks are coalesced. -/
structure Merged (r r' : Region L) (bl : List Block) (s : Nat) (bt : List Block) : Prop where
  before : r.blocks = bl ++ ⟨s, false⟩ :: bt
  after : r'.blocks = coalesce 16 32 (bl ++ ⟨s, true⟩ :: bt)
  base : r'.base = r.base
  virtual : r'.virtual = r.virtual

namespace Merged

variable {r r' : Region L} {bl bt : List Block} {s : Nat}

theorem size_eq (h : Merged r r' bl s bt) : r'.size = r.size := by
  rw [size, size, h.after, h.before, span_coalesce, span_append, span_append, span_cons, span_cons]

theorem stop_eq (h : Merged r r' bl s bt) : r'.stop = r.stop := by
  rw [stop, stop, h.size_eq, h.base]

/-- The used blocks afterwards are those of before without the released one. -/
theorem has_used_iff (h : Merged r r' bl s bt) (y m : Nat) :
    r'.Has y ⟨m, false⟩ ↔ r.Has y ⟨m, false⟩ ∧ y ≠ r.base + 32 + span 16 bl := by
  rw [Has, Has, h.after, h.before, h.base, at_coalesce_used, at_append, at_append, at_cons, at_cons]
  simp only [Block.mk.injEq, Bool.false_eq_true, and_false, false_or, and_true]
  constructor
  · rintro (hy | hy)
    · have := hy.bounds; exact ⟨.inl hy, by omega⟩
    · have := hy.bounds; exact ⟨.inr (.inr hy), by omega⟩
  · rintro ⟨hy | hy | hy, hne⟩
    · exact .inl hy
    · exact absurd hy.1 hne
    · exact .inr hy

end Merged

/-- What the release of the block at `y` does to a heap with the regions `rs`; `drop` is how the
pages of a region are given back. -/
inductive Released (drop : Nat → Nat → σ → σ) (h : Heap σ) (rs : List (Region L)) (y : Nat) :
    Heap σ → List (Region L) → Prop
  | merged {l t : List (Region L)} {r r' : Region L} {bl bt : List Block} {s : Nat} (h' : Heap σ)
      (hrs : rs = l ++ r :: t) (hm : Merged r r' bl s bt) (hy : y = r.base + 32 + span 16 bl)
      (hkeep : ∀ c, r'.blocks ≠ [⟨c, true⟩])
      (hbm : h'.mmVirtHeap = h.mmVirtHeap) (hlow : h'.low = h.low) :
      Released drop h rs y h' (l ++ r' :: t)
  | dropped {l t : List (Region L)} {r r' : Region L} {bl bt : List Block} {s c : Nat}
      (h' : Heap σ) (hrs : rs = l ++ r :: t) (hm : Merged r r' bl s bt)
      (hy : y = r.base + 32 + span 16 bl) (hone : r'.blocks = [⟨c, true⟩])
      (hbm : h'.mmVirtHeap = setRun (heapPage L r.base) ((32 + r.size) / 4096) h.mmVirtHeap)
      (hlow : h'.low = drop r.base ((32 + r.size) / 4096) h.low) :
      Released drop h rs y h' (l ++ t)

/-- What `vdefrag` and `kdefrag` have in common: they coalesce, and drop a region that is a
single free block; they differ in how the pages are given back. -/
def Defrags (L : Layout) (drop : Nat → Nat → σ → σ) (defrag : Nat → Heap σ → Heap σ) : Prop :=
  ∀ e h, defrag e h =
    if coversRegion e (defragMem e h.mem) then
      let pages := PAGE_ALIGN (low31 (defragMem e h.mem e)) >>> 12
      ⟨defragMem e h.mem, freeVirtBlock L e pages h.mmVirtHeap, h.heapList.erase e,
        drop e pages h.low⟩
    else { h with mem := defragMem e h.mem }

def KDrop (B : Backing σ) (e pages : Nat) (s : σ) : σ :=
  B.freePhysBlock (B.pageGetPhys e s).1 pages (B.pageGetPhys e s).2

def VDrop (B : Backing σ) (e pages : Nat) (s : σ) : σ := freeMapped B pages e s

theorem kdefrag_defrags (L : Layout) (B : Backing σ) : Defrags L (KDrop B) (kdefrag L B) :=
  fun _ _ => rfl

theorem vdefrag_defrags (L : Layout) (B : Backing σ) : Defrags L (VDrop B) (vdefrag L B) :=
  fun _ _ => rfl

/-- The test of the coalescers: one free block covers the region. -/
theorem coversRegion_iff {r : Region L} {mem : Mem} (hr : r.Shown mem) :
    coversRegion r.base mem = true ↔ ∃ c, r.blocks = [⟨c, true⟩] := by
  have hsz := r.size_bounds
  have ht := hr.tiles
  unfold coversRegion
  rw [hr.pageSize, heapListSize, headerSize, decide_eq_true_iff]
  unfold size at hsz ⊢
  cases hb : r.blocks with
  | nil => rw [hb] at hsz; simp at hsz
  | cons b bs =>
    rw [hb] at ht
    rw [size_of_header ht.1, free_of_header ht.1, span_cons]
    obtain ⟨s, fb⟩ := b
    cases bs with
    | nil => simp; omega
    | cons c cs => simp; omega

/-- **`_free`** on the list of regions. -/
theorem free_simulates {drop : Nat → Nat → σ → σ} {defrag : Nat → Heap σ → Heap σ}
    (hdef : Defrags L drop defrag) {h : Heap σ} {l t : List (Region L)} {r : Region L}
    (hh : Refines h (l ++ r :: t)) {y s : Nat} (hy : r.Has y ⟨s, false⟩)
    (hlt : y < r.base + r.size) :
    ∃ rs', Refines (free defrag (y + 16) h) rs' ∧
      Released drop h (l ++ r :: t) y (free defrag (y + 16) h) rs' := by
  have hr := hh.shown r (by simp)
  have hsz := r.size_bounds
  have hlook := lookup_used hh.shown hh.apart hy hlt
  rw [← hh.list] at hlook
  unfold free
  rw [if_neg (by omega), hlook]
  dsimp only
  obtain ⟨bl, bt, hbs, rfl⟩ := At.split hy
  have hspan : r.size = span 16 bl + (16 + s + span 16 bt) := by
    rw [size, hbs, span_append, span_cons]
  -- the memory in which the block is marked free
  generalize hm : h.mem.setTop1 (r.base + 32 + span 16 bl) 1 = m₁
  have hm₁ : ∀ a, a ≠ r.base + 32 + span 16 bl → m₁ a = h.mem a := fun a ha => by
    rw [← hm]; exact setTop1_of_ne ha
  have ht := hr.tiles
  rw [hbs, tiles_append] at ht
  have ht₁ : Tiles 16 m₁.header (r.base + 32) (bl ++ ⟨s, true⟩ :: bt) := by
    rw [tiles_append]
    refine ⟨ht.1.congr fun z c hz => header_congr (hm₁ z ?_), ?_,
      ht.2.2.congr fun z c hz => header_congr (hm₁ z ?_)⟩
    · have := hz.bounds; omega
    · rw [← hm, header_setTop1, ht.2.1]; rfl
    · have := hz.bounds; omega
  have hspan₁ : span 16 (bl ++ ⟨s, true⟩ :: bt) = r.size := by
    rw [span_append, span_cons, hspan]
  obtain ⟨hco, hframe⟩ := @defragLoop_spec (r.base + r.size) r.size (r.base + 32) _ m₁ ht₁
    (by omega) (by omega) (by omega)
  have hbase₁ : m₁ r.base = h.mem r.base := hm₁ _ (by omega)
  have hmem : defragMem r.base m₁ =
      defragLoop (r.base + r.size) r.size (r.base + 32) m₁ := by
    unfold defragMem walkEnd
    rw [hbase₁, ← walkEnd, hr.walkEnd_eq, hr.pageSize]
    rfl
  rw [← hmem] at hco hframe
  generalize hm₂ : defragMem r.base m₁ = m₂ at *
  have hframe₂ : ∀ a, (a < r.base + 32 ∨ r.stop ≤ a) → m₂ a = h.mem a := fun a ha => by
    unfold stop at ha
    rw [hframe a (by omega), hm₁ a (by omega)]
  have hspan₂ : span 16 (coalesce 16 32 (bl ++ ⟨s, true⟩ :: bt)) = r.size := by
    rw [span_coalesce, hspan₁]
  have hsizes : ∀ c ∈ coalesce 16 32 (bl ++ ⟨s, true⟩ :: bt), 16 ∣ c.size := by
    refine dvd_size_coalesce (by decide) fun c hc => ?_
    rcases mem_append_cons.mp hc with rfl | hc
    · exact r.sizes ⟨s, false⟩ (by rw [hbs]; simp)
    · exact r.sizes c (by rw [hbs]; exact mem_append_cons.mpr (.inr hc))
  have hs₂ := hr.withBlocks hspan₂ hsizes hco (hframe₂ _ (by omega))
  have hmerged : Merged r (r.withBlocks _ hspan₂ hsizes) bl s bt := ⟨hbs, rfl, rfl, rfl⟩
  have hcov := coversRegion_iff hs₂
  have hbase₂ : m₂ r.base = h.mem r.base := hframe₂ _ (by omega)
  rw [hdef, hm₂, hbase₂, hr.pageSize]
  have hpages : PAGE_ALIGN r.size >>> 12 = (32 + r.size) / 4096 := by
    have := PAGE_ALIGN_spec (p := r.size) (by omega)
    rw [shiftRight_page]; omega
  split
  · rename_i hc
    obtain ⟨c, hone⟩ := hcov.mp hc
    rw [hpages]
    dsimp only
    rw [freeVirtBlock_eq _ _ _ r.lo]
    refine ⟨l ++ t, hh.remove rfl (fun a ha => hframe₂ a (by omega)) fun q hq => ?_,
      .dropped _ rfl hmerged rfl hone rfl rfl⟩
    dsimp only
    have hal := r.aligned
    have hlo := r.lo
    have hL := HEAP_START_bounds L
    unfold heapPage stop at hq
    unfold heapPage
    rw [isSet_setRun, decide_eq_false (by omega), Bool.or_false]
  · rename_i hc
    exact ⟨_, hh.update hmerged.base hmerged.stop_eq rfl rfl hs₂ fun a ha => hframe₂ a (by omega),
      .merged _ rfl hmerged rfl (fun c he => hc (hcov.mpr ⟨c, he⟩)) rfl rfl⟩

end Moonlight
