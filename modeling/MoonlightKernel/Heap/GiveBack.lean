import MoonlightKernel.Heap.Frames

/-!
# What the heap gives back

Once every result has been released, has the heap released its regions?  The coalescers stop 32
bytes before the end of a region, so a trailing block of 0 or 16 bytes is never merged, and a
region with such a sliver is never dropped.

* `GiveInv.step`, `GiveInv.givenBack` — in a run in which no allocation leaves a sliver, a state
  without live results has no region, no taken virtual page and no frame of a region;
* `Slivered.step` — a sliver, once there, stays for the rest of the run;
* `heap_given_back_iff` — the two together.

`GiveInv` adds to the safety invariant that every region has a used block, that used blocks are
live results, that the walks see every block, and the account of pages and frames.
-/

set_option autoImplicit false

namespace Moonlight

open Sys Sys.Bitmap Sys.Tiling Region

variable {L : Layout} {m₀ : Machine} {word : Machine → Nat → Nat}

/-! ## Requests that succeed -/

theorem requestable_or_huge {n : Nat} (h : n < 2 ^ 32) :
    Requestable n ∨ 2 ^ 31 ≤ MALLOC_ALIGN n := by
  by_cases h1 : n ≤ 2 ^ 32 - 8192
  · exact .inl (requestable_of_le h1)
  by_cases h2 : n ≤ 2 ^ 32 - 16
  · right
    unfold MALLOC_ALIGN
    split
    · rw [add32_of_lt (by omega)]; omega
    · omega
  · -- the size wraps to one page, and the rounded request to zero bytes
    left
    have h3 : add32 (add32 n heapListSize) headerSize = n + 48 - 2 ^ 32 := by
      unfold add32 heapListSize headerSize; omega
    have h4 : regionSize n = 4096 := by
      have := PAGE_ALIGN_spec (p := n + 48 - 2 ^ 32) (by omega)
      rw [regionSize, h3]; omega
    have h5 : PAGE_ALIGN n = 0 := by
      unfold PAGE_ALIGN add32
      rw [if_pos (by omega)]; omega
    constructor <;> omega

theorem fitHead_huge {limit allocSize : Nat} (h : 2 ^ 31 ≤ allocSize) (mem : Mem) :
    ∀ (fuel head : Nat), fitHead limit allocSize mem fuel head = none := by
  intro fuel
  induction fuel with
  | zero => intro head; rfl
  | succ fuel ih =>
    intro head
    have hlt : low31 (mem head) < 2 ^ 31 := Nat.mod_lt _ (by decide)
    rw [fitHead]
    split
    · rw [if_neg fun k => by omega]; exact ih _
    · rfl

theorem firstFitHead_huge {virtual n : Nat} (h : 2 ^ 31 ≤ MALLOC_ALIGN n) (mem : Mem)
    (entries : List Nat) : firstFitHead virtual n mem entries = none := by
  induction entries with
  | nil => rfl
  | cons e rest ih =>
    rw [firstFitHead, entryFit, fitHead_huge h]
    split <;> exact ih

theorem addRegion_huge {σ : Type} {n : Nat} (h : 2 ^ 31 ≤ MALLOC_ALIGN n) (B : Backing σ)
    (virtual v : Nat) (hp : Heap σ) : (addRegion B virtual v n hp).1 = 0 := by
  unfold addRegion
  dsimp only
  rw [tryAllocate_eq, entryFit, fitHead_huge h]

theorem kmalloc_huge {σ : Type} {n : Nat} (h : 2 ^ 31 ≤ MALLOC_ALIGN n) (B : Backing σ)
    (hp : Heap σ) : (kmalloc L B n hp).1 = 0 := by
  unfold kmalloc
  rw [firstFit_eq, firstFitHead_huge h]
  dsimp only [Option.map_none]
  split
  · rfl
  split
  · rfl
  split
  · rfl
  split
  · rfl
  · exact addRegion_huge h B _ _ _

theorem vmalloc_huge {σ : Type} {n : Nat} (h : 2 ^ 31 ≤ MALLOC_ALIGN n) (B : Backing σ)
    (hp : Heap σ) : (vmalloc L B n hp).1 = 0 := by
  unfold vmalloc
  rw [firstFit_eq, firstFitHead_huge h]
  dsimp only [Option.map_none]
  split
  · rfl
  split
  · rfl
  split
  · rfl
  · exact addRegion_huge h B _ _ _

/-! ## Runs of successful calls -/

/-- A client writes inside a payload, and with it to the frames that back the payload. -/
def StoresThrough (L : Layout) (s t : Client Machine) : Prop :=
  ∃ l ∈ s.live,
    (∀ a, t.heap.mem a ≠ s.heap.mem a → l.ptr ≤ a ∧ a < l.ptr + ksize l.ptr s.heap) ∧
    (∀ f i, t.heap.low.ram f i ≠ s.heap.low.ram f i → ∃ a, (l.ptr ≤ a ∧
      a < l.ptr + ksize l.ptr s.heap) ∧ (pageGetPhys L a s.heap.low).1 = f * 4096) ∧
    t.heap = { s.heap with mem := t.heap.mem, low := { s.heap.low with ram := t.heap.low.ram } } ∧
    t.live = s.live

/-- One step of a run over the real frames and tables in which every allocation succeeds; the
rest of the kernel uses the window `page_swap`. -/
def giveStep (L : Layout) (word : Machine → Nat → Nat) (s : Client Machine) :
    HeapOp → Client Machine → Prop
  | .kmalloc n, t => n < 2 ^ 32 ∧ (kmalloc L (machineBacking L word) n s.heap).1 ≠ 0 ∧
      t.heap = (kmalloc L (machineBacking L word) n s.heap).2 ∧
      t.live = record 0 n (kmalloc L (machineBacking L word) n s.heap).1 t.heap s.live
  | .vmalloc n, t => n < 2 ^ 32 ∧ (vmalloc L (machineBacking L word) n s.heap).1 ≠ 0 ∧
      t.heap = (vmalloc L (machineBacking L word) n s.heap).2 ∧
      t.live = record 1 n (vmalloc L (machineBacking L word) n s.heap).1 t.heap s.live
  | .kfree p, t => MayFree s 0 p ∧ t.heap = kfree L (machineBacking L word) p s.heap ∧
      t.live = forget p s.live
  | .vfree p, t => MayFree s 1 p ∧ t.heap = vfree L (machineBacking L word) p s.heap ∧
      t.live = forget p s.live
  | .store, t => StoresThrough L s t
  | .other, t => (∃ f, t.heap = { s.heap with low := s.heap.low.swapTo L f }) ∧ t.live = s.live

/-- The request will split the last block of a region, or the block of a new region, with less
than 32 bytes remaining. -/
def LeavesSliver {σ : Type} (h : Heap σ) (virtual n : Nat) : Prop :=
  match firstFitHead virtual n h.mem h.heapList with
  | some (e, y) => 32 < low31 (h.mem y) ∧ low31 (h.mem y) < MALLOC_ALIGN n + 48 ∧
      y + headerSize + low31 (h.mem y) = e + heapListSize + low31 (h.mem e)
  | none => regionSize n - 48 < MALLOC_ALIGN n + 48

/-- The step is no allocation that leaves a sliver. -/
def NoSliver (s : Client Machine) : HeapOp → Prop
  | .kmalloc n => ¬ LeavesSliver s.heap 0 n
  | .vmalloc n => ¬ LeavesSliver s.heap 1 n
  | _ => True

/-- Everything is given back: no region, no taken virtual page, and every frame is free that was
free at the start, up to the page tables of the heap window. -/
structure GivenBack (m₀ : Machine) (h : Heap Machine) : Prop where
  list : h.heapList = []
  virtHeap : ∀ q, q < HEAP_SIZE / 4096 → isSet h.mmVirtHeap q = true
  frames : ∀ f, isFree h.low.mmBitmap f = true ↔
    isFree m₀.mmBitmap f = true ∧ NotTable m₀ h.low f

theorem SafeInv.storeThrough {s t : Client Machine} {rs : List (Region L)} (hs : SafeInv s rs)
    (h : StoresThrough L s t) : SafeInv t rs := by
  obtain ⟨x, hx, hmem, -, hheap, hlive⟩ := h
  obtain ⟨th, tl⟩ := t
  dsimp only at hmem hheap hlive
  subst hlive
  have hwr : SafeInv ⟨{ s.heap with mem := th.mem }, s.live⟩ rs := hs.store ⟨x, hx, hmem⟩ rfl
  refine ⟨hwr.refines.congr ?_ (fun r hr => hwr.refines.shown r hr) fun p hb => ?_, hs.live,
    hs.asked, hs.distinct⟩
  · rw [hheap]
  · rw [hheap]; exact hb

/-! ## Pages of the regions -/

/-- The number of pages of a region. -/
def Region.pageCount (r : Region L) : Nat := (32 + r.size) / 4096

/-- Virtual page `v` belongs to one of the regions. -/
def Pages (rs : List (Region L)) (v : Nat) : Prop :=
  ∃ r ∈ rs, InRun (r.base / 4096) r.pageCount v

theorem Region.pages_disjoint {r s : Region L} (h : r.Apart s) {v : Nat}
    (hr : InRun (r.base / 4096) r.pageCount v) : ¬ InRun (s.base / 4096) s.pageCount v := by
  have h1 := r.aligned
  have h2 := s.aligned
  have h3 := r.size_bounds
  have h4 := s.size_bounds
  unfold Apart stop at h
  unfold InRun pageCount at *
  omega

theorem Region.run_heapPage (r : Region L) {v : Nat} (h : InRun (r.base / 4096) r.pageCount v) :
    HeapPage L v := by
  have h1 := r.aligned
  have h2 := r.size_bounds
  have h3 := r.lo
  have h4 := r.hi
  have h5 := HEAP_START_bounds L
  unfold size at h2
  unfold InRun pageCount size at h
  unfold HeapPage
  omega

theorem Region.base_eq (r : Region L) : r.base / 4096 * 4096 = r.base := by
  have := r.aligned; omega

theorem pages_update {l t : List (Region L)} {r r' : Region L} (hb : r'.base = r.base)
    (hs : r'.size = r.size) (v : Nat) : Pages (l ++ r' :: t) v ↔ Pages (l ++ r :: t) v := by
  unfold Pages pageCount
  simp only [mem_append_cons, exists_eq_or_imp, hb, hs]

theorem pages_remove {l t : List (Region L)} {r : Region L} (hap : (l ++ r :: t).Pairwise Apart)
    (v : Nat) : Pages (l ++ t) v ↔
      Pages (l ++ r :: t) v ∧ ¬ InRun (r.base / 4096) r.pageCount v := by
  constructor
  · rintro ⟨s, hs, hv⟩
    have hs' := List.mem_append.mp hs
    exact ⟨⟨s, mem_append_cons.mpr (.inr hs'), hv⟩,
      pages_disjoint (apart_of_mem hap s hs').symm hv⟩
  · rintro ⟨⟨s, hs, hv⟩, hno⟩
    rcases mem_append_cons.mp hs with rfl | hs
    · exact absurd hv hno
    · exact ⟨s, List.mem_append.mpr hs, hv⟩

/-! ## The invariant -/

structure GiveInv (m₀ : Machine) (s : Client Machine) (rs : List (Region L)) (F : Nat → Nat) :
    Prop where
  safe : SafeInv s rs
  used : ∀ r ∈ rs, ∃ y m, r.Has y ⟨m, false⟩
  liveUsed : ∀ r ∈ rs, ∀ y m, r.Has y ⟨m, false⟩ → ∃ l ∈ s.live, l.ptr = y + 16
  seen : ∀ r ∈ rs, Seen 16 32 r.blocks
  taken : ∀ q, q < HEAP_SIZE / 4096 → isSet s.heap.mmVirtHeap q = false →
    ∃ r ∈ rs, InRun (heapPage L r.base) r.pageCount q
  backed : Backed L m₀ s.heap.low (Pages rs) F fun f => ∃ v, Pages rs v ∧ F v = f
  inj : ∀ v w, Pages rs v → Pages rs w → F v = F w → v = w
  run : ∀ r ∈ rs, r.virtual = 0 →
    ∀ i, i < r.pageCount → F (r.base / 4096 + i) = F (r.base / 4096) + i

/-- How a new region is backed, in the account of the frames. -/
def GrowsBacked (L : Layout) (m₀ : Machine) (virtual : Nat)
    (Grow : Nat → Nat → Machine → Machine → Prop) : Prop :=
  ∀ {m m' : Machine} {D : Nat → Prop} {F : Nat → Nat} {Own : Nat → Prop} {v n : Nat},
    Backed L m₀ m D F Own → (∀ w, InRun v n w → HeapPage L w) → v + n < 2 ^ 20 →
    Grow (v * 4096) n m m' →
    ∃ F', Grown L m₀ m' D F Own v n F' ∧ (virtual = 0 → ∀ i, i < n → F' (v + i) = F' v + i)

/-- How the frames of a region are given back. -/
def DropsBacked (L : Layout) (m₀ : Machine) (virtual : Nat)
    (drop : Nat → Nat → Machine → Machine) : Prop :=
  ∀ {m : Machine} {D : Nat → Prop} {F : Nat → Nat} {Own : Nat → Prop} {v n : Nat},
    Backed L m₀ m D F Own → 0 < n → (∀ w, InRun v n w → D w) →
    (∀ w w', D w → D w' → F w = F w' → w = w') →
    (virtual = 0 → ∀ i, i < n → F (v + i) = F v + i) →
    Backed L m₀ (drop (v * 4096) n m) (fun w => D w ∧ ¬ InRun v n w) F
      fun f => Own f ∧ ∀ w, InRun v n w → F w ≠ f

theorem kgrow_backed (L : Layout) (m₀ : Machine) (word : Machine → Nat → Nat) :
    GrowsBacked L m₀ 0 (KGrow (machineBacking L word)) := by
  intro m m' D F Own v n h hheap hv hg
  obtain ⟨F', hF', hrun⟩ := h.kgrow hheap hv hg
  exact ⟨F', hF', fun _ => hrun⟩

theorem vgrow_backed (L : Layout) (m₀ : Machine) (word : Machine → Nat → Nat) :
    GrowsBacked L m₀ 1 (VGrow (machineBacking L word)) := by
  intro m m' D F Own v n h hheap _ hg
  obtain ⟨F', hF'⟩ := h.vgrow n hheap hg
  exact ⟨F', hF', fun h => absurd h (by decide)⟩

theorem kdrop_backed (L : Layout) (m₀ : Machine) (word : Machine → Nat → Nat) :
    DropsBacked L m₀ 0 (KDrop (machineBacking L word)) :=
  fun h hn hD hinj hrun => h.kdrop hn hD hinj (hrun rfl)

theorem vdrop_backed (L : Layout) (m₀ : Machine) (word : Machine → Nat → Nat) :
    DropsBacked L m₀ 1 (VDrop (machineBacking L word)) :=
  fun h _ hD hinj _ => h.vdrop word _ hD hinj

/-- The only block of a new region is the one that is handed out. -/
theorem Handed.only_block {allocSize : Nat} {r r' : Region L} {l t : List Block} {b c : Block}
    (h : Handed allocSize r r' l b t) (hc : r.blocks = [c]) : b = c := by
  have hmem : b ∈ r.blocks := by
    rw [h.before]
    exact List.mem_append_right _ List.mem_cons_self
  rwa [hc, List.mem_singleton] at hmem

/-- The walks see every block afterwards, unless a sliver is left at the end. -/
theorem Handed.seen_after {allocSize : Nat} {r r' : Region L} {l t : List Block} {b : Block}
    (h : Handed allocSize r r' l b t) (hseen : Seen 16 32 r.blocks)
    (hno : t = [] → 32 < b.size → allocSize + 48 ≤ b.size) : Seen 16 32 r'.blocks := by
  rw [h.before, seen_append (by simp)] at hseen
  rw [h.after]
  cases t with
  | nil =>
    rw [List.append_nil]
    have hspan := hseen.1
    rw [span_cons, span_nil] at hspan
    unfold splitBlock
    split
    · rename_i hk
      have := hno rfl hk
      rw [seen_append (by simp)]
      refine ⟨?_, ?_, trivial⟩ <;> simp only [span_cons, span_nil] <;> omega
    · rw [seen_append (by simp)]
      exact ⟨by simpa using hspan, trivial⟩
  | cons c t =>
    rw [seen_append (by simp), seen_append (by simp)]
    exact hseen.2

/-- A region that is not a single free block keeps a used block. -/
theorem Merged.used_after {r r' : Region L} {bl bt : List Block} {s : Nat}
    (h : Merged r r' bl s bt) (hseen : Seen 16 32 r.blocks) (hkeep : ∀ c, r'.blocks ≠ [⟨c, true⟩]) :
    Seen 16 32 r'.blocks ∧ ∃ y m, r'.Has y ⟨m, false⟩ := by
  have hseen' : Seen 16 32 (bl ++ ⟨s, true⟩ :: bt) := by
    rw [h.before, seen_append (by simp)] at hseen
    rw [seen_append (by simp)]
    exact hseen
  refine ⟨h.after ▸ seen_coalesce hseen', ?_⟩
  by_contra hno
  -- every block is free, so coalescing leaves one
  have hfree : ∀ c ∈ bl ++ ⟨s, true⟩ :: bt, c.free = true := by
    intro c hc
    obtain ⟨y, hy⟩ := @exists_at 16 _ _ (r.base + 32) hc
    by_contra hf
    obtain ⟨m, fc⟩ := c
    obtain rfl : fc = false := by simpa using hf
    refine hno ⟨y, m, ?_⟩
    rw [Has, h.base, h.after, at_coalesce_used]
    exact hy
  obtain ⟨c, cs, hcs⟩ : ∃ c cs, bl ++ (⟨s, true⟩ :: bt : List Block) = c :: cs := by
    cases bl with
    | nil => exact ⟨_, _, rfl⟩
    | cons c bl => exact ⟨_, _, rfl⟩
  rw [hcs] at hseen' hfree
  obtain ⟨k, hk⟩ := coalesce_all_free hseen' hfree
  exact hkeep k (by rw [h.after, hcs, hk])

namespace GiveInv

variable {s : Client Machine} {rs rs' : List (Region L)} {F : Nat → Nat}

/-- One region changes its blocks and nothing else. -/
theorem update {l t : List (Region L)} {r r' : Region L} {t' : Client Machine}
    (hs : GiveInv m₀ s (l ++ r :: t) F) (hsafe : SafeInv t' (l ++ r' :: t))
    (hbase : r'.base = r.base) (hsize : r'.size = r.size) (hvirt : r'.virtual = r.virtual)
    (hused : ∃ y m, r'.Has y ⟨m, false⟩)
    (hlive' : ∀ y m, r'.Has y ⟨m, false⟩ → ∃ x ∈ t'.live, x.ptr = y + 16)
    (hlive : ∀ q, (q ∈ l ∨ q ∈ t) → ∀ y m, q.Has y ⟨m, false⟩ → ∃ x ∈ t'.live, x.ptr = y + 16)
    (hseen : Seen 16 32 r'.blocks) (hbm : t'.heap.mmVirtHeap = s.heap.mmVirtHeap)
    (hlow : t'.heap.low = s.heap.low) : GiveInv m₀ t' (l ++ r' :: t) F := by
  have hpc : r'.pageCount = r.pageCount := by unfold pageCount; rw [hsize]
  have hpages := pages_update (l := l) (t := t) hbase hsize
  have hmem : ∀ q, (q ∈ l ∨ q ∈ t) → q ∈ l ++ r :: t := fun q hq => mem_append_cons.mpr (.inr hq)
  refine ⟨hsafe, fun q hq => ?_, fun q hq => ?_, fun q hq => ?_, fun p hp hset => ?_, ?_,
    fun v w hv hw => hs.inj v w ((hpages v).mp hv) ((hpages w).mp hw), fun q hq => ?_⟩
  · rcases mem_append_cons.mp hq with rfl | hq
    · exact hused
    · exact hs.used q (hmem q hq)
  · rcases mem_append_cons.mp hq with rfl | hq
    · exact hlive'
    · exact hlive q hq
  · rcases mem_append_cons.mp hq with rfl | hq
    · exact hseen
    · exact hs.seen q (hmem q hq)
  · rw [hbm] at hset
    obtain ⟨q, hq, hin⟩ := hs.taken p hp hset
    rcases mem_append_cons.mp hq with rfl | hq
    · exact ⟨r', by simp, by rw [hbase, hpc]; exact hin⟩
    · exact ⟨q, mem_append_cons.mpr (.inr hq), hin⟩
  · rw [hlow]
    exact hs.backed.congr hpages (fun _ _ => rfl) fun f => by simp only [hpages]
  · rcases mem_append_cons.mp hq with rfl | hq
    · rw [hvirt, hbase, hpc]; exact hs.run r (by simp)
    · exact hs.run q (hmem q hq)

theorem live_record {virtual n p y : Nat} {h' : Heap Machine} (hp : p ≠ 0)
    (h : ∃ x ∈ s.live, x.ptr = y + 16) : ∃ x ∈ record virtual n p h' s.live, x.ptr = y + 16 := by
  obtain ⟨x, hx, hxy⟩ := h
  rw [record, if_neg hp]
  exact ⟨x, List.mem_cons_of_mem _ hx, hxy⟩

theorem new_record {virtual n y : Nat} {h' : Heap Machine} :
    ∃ x ∈ record virtual n (y + 16) h' s.live, x.ptr = y + 16 := by
  rw [record, if_neg (Nat.succ_ne_zero _)]
  exact ⟨_, List.mem_cons_self, rfl⟩

/-- A region serves the request. -/
theorem allocated_served {virtual n : Nat} {l t : List (Region L)} {r r' : Region L}
    {bl bt : List Block} {b : Block} (hs : GiveInv m₀ s (l ++ r :: t) F) {h' : Heap Machine}
    (hsafe : SafeInv ⟨h', record virtual n (r.base + 32 + span 16 bl + 16) h' s.live⟩ (l ++ r' :: t))
    (hfit : firstFitHead virtual n s.heap.mem s.heap.heapList =
      some (r.base, r.base + 32 + span 16 bl))
    (hhand : Handed (MALLOC_ALIGN n) r r' bl b bt) (hbm : h'.mmVirtHeap = s.heap.mmVirtHeap)
    (hlow : h'.low = s.heap.low) (hno : ¬ LeavesSliver s.heap virtual n) :
    GiveInv m₀ ⟨h', record virtual n (r.base + 32 + span 16 bl + 16) h' s.live⟩ (l ++ r' :: t) F := by
  have hshown := hs.safe.refines.shown r (by simp)
  have hblk := size_of_header (tiles_iff.mp hshown.tiles _ _ hhand.has_block)
  have hold : ∀ {y : Nat}, (∃ x ∈ s.live, x.ptr = y + 16) → ∃ x ∈
      record virtual n (r.base + 32 + span 16 bl + 16) h' s.live, x.ptr = y + 16 :=
    live_record (Nat.succ_ne_zero _)
  refine hs.update hsafe hhand.base hhand.size_eq hhand.virtual ?_ (fun y m hy => ?_)
    (fun q hq y m hy => hold (hs.liveUsed q (mem_append_cons.mpr (.inr hq)) y m hy))
    (hhand.seen_after (hs.seen r (by simp)) fun ht hk => ?_) hbm hlow
  · obtain ⟨m, -, hm⟩ := hhand.has_new
    exact ⟨_, m, hm⟩
  · rcases (hhand.has_used_iff y m).mp hy with hy | ⟨rfl, -⟩
    · exact hold (hs.liveUsed r (by simp) y m hy)
    · exact new_record
  · unfold LeavesSliver at hno
    rw [hfit] at hno
    dsimp only at hno
    rw [hblk, hshown.pageSize] at hno
    have hspan : r.size = span 16 bl + (16 + b.size) := by
      rw [size, hhand.before, ht, span_append, span_cons, span_nil, Nat.add_zero]
    unfold headerSize heapListSize at hno
    omega

/-- A new region serves the request. -/
theorem allocated_grown {Grow : Nat → Nat → Machine → Machine → Prop} {virtual n : Nat}
    {r r' : Region L} {bl bt : List Block} {b : Block} (hgrow : GrowsBacked L m₀ virtual Grow)
    (hs : GiveInv m₀ s rs F) {h' : Heap Machine} (hh' : Refines h' (r' :: rs))
    (hsafe : SafeInv ⟨h', record virtual n (r.base + 32 + span 16 bl + 16) h' s.live⟩ (r' :: rs))
    (hfit : firstFitHead virtual n s.heap.mem s.heap.heapList = none) (hv : r.virtual = virtual)
    (hb : r.blocks = [⟨regionSize n - 48, true⟩]) (hhand : Handed (MALLOC_ALIGN n) r r' bl b bt)
    (hrun : FreeRun L s.heap.mmVirtHeap r.base (regionSize n / 4096))
    (hbm : h'.mmVirtHeap = clearRun (heapPage L r.base) (regionSize n / 4096) s.heap.mmVirtHeap)
    (hlow : Grow r.base (regionSize n / 4096) s.heap.low h'.low) (hn : Requestable n)
    (hno : ¬ LeavesSliver s.heap virtual n) :
    ∃ F', GiveInv m₀ ⟨h', record virtual n (r.base + 32 + span 16 bl + 16) h' s.live⟩ (r' :: rs)
      F' := by
  have hap := (List.pairwise_cons.mp hh'.apart).1
  have hal := hn.aligned
  have hpos := hn.pos
  have hsize : 32 + r.size = regionSize n := by
    rw [size, hb, span_cons, span_nil]
    dsimp only
    omega
  have hpc : r'.pageCount = regionSize n / 4096 := by
    unfold pageCount
    rw [hhand.size_eq, hsize]
  have hin : ∀ w, InRun (r.base / 4096) (regionSize n / 4096) w →
      InRun (r'.base / 4096) r'.pageCount w := fun w hw => by rw [hhand.base, hpc]; exact hw
  have hheap : ∀ w, InRun (r.base / 4096) (regionSize n / 4096) w → HeapPage L w :=
    fun w hw => r'.run_heapPage (hin w hw)
  have hlt : r.base / 4096 + regionSize n / 4096 < 2 ^ 20 := by
    have h1 := hrun.hi
    have h2 := HEAP_START_bounds L
    omega
  rw [← r.base_eq] at hlow
  obtain ⟨F', hF', hcont⟩ := hgrow hs.backed hheap hlt hlow
  -- pages of the regions that were there keep their frames
  have hnew : ∀ v, Pages rs v → ¬ InRun (r.base / 4096) (regionSize n / 4096) v := by
    rintro v ⟨q, hq, hv⟩ hv'
    exact pages_disjoint (hap q hq) (hin v hv') hv
  have hpages : ∀ v, Pages (r' :: rs) v ↔
      Pages rs v ∨ InRun (r.base / 4096) (regionSize n / 4096) v := fun v => by
    unfold Pages
    simp only [List.mem_cons, exists_eq_or_imp, hhand.base, hpc]
    exact or_comm
  have hframes := hF'.frame_iff hnew fun _ => Iff.rfl
  simp only [← hpages] at hframes
  refine ⟨F', hsafe, List.forall_mem_cons.mpr ⟨?_, hs.used⟩,
    List.forall_mem_cons.mpr ⟨fun y m hy => ?_, fun q hq y m hy =>
      live_record (Nat.succ_ne_zero _) (hs.liveUsed q hq y m hy)⟩,
    List.forall_mem_cons.mpr ⟨hhand.seen_after ?_ fun _ _ => ?_, hs.seen⟩, fun q hq hset => ?_,
    hF'.backed.congr hpages (fun _ _ => rfl) hframes, fun v w hv hw =>
      hF'.injective hnew (fun _ => Iff.rfl) hs.inj ((hpages v).mp hv) ((hpages w).mp hw),
    List.forall_mem_cons.mpr ⟨fun h0 i hi => ?_, fun q hq h0 i hi => ?_⟩⟩
  · obtain ⟨m, -, hm⟩ := hhand.has_new
    exact ⟨_, m, hm⟩
  · rcases (hhand.has_used_iff y m).mp hy with hy | ⟨rfl, -⟩
    · rw [Has, hb, at_cons] at hy
      simp at hy
    · exact new_record
  · rw [hb]
    exact ⟨by rw [span_cons, span_nil]; dsimp only; omega, trivial⟩
  · unfold LeavesSliver at hno
    rw [hfit] at hno
    rw [hhand.only_block hb]
    dsimp only at hno ⊢
    omega
  · dsimp only at hset
    rw [hbm, isSet_clearRun, Bool.and_eq_false_iff] at hset
    rcases hset with hset | hset
    · obtain ⟨q', hq', hin'⟩ := hs.taken q hq hset
      exact ⟨q', List.mem_cons_of_mem _ hq', hin'⟩
    · refine ⟨r', List.mem_cons_self, ?_⟩
      rw [hhand.base, hpc]
      simpa [InRun] using hset
  · rw [hhand.base]
    exact hcont (hv.symm.trans (hhand.virtual.symm.trans h0)) i (by rw [← hpc]; exact hi)
  · have hkeep : ∀ j, j < q.pageCount → F' (q.base / 4096 + j) = F (q.base / 4096 + j) :=
      fun j hj => hF'.old _ (hnew _ ⟨q, hq, by unfold InRun; omega⟩)
    have h00 := hkeep 0 (by omega)
    rw [Nat.add_zero] at h00
    rw [hkeep i hi, h00]
    exact hs.run q hq h0 i hi

/-- **A successful allocation** that leaves no sliver. -/
theorem allocated {Grow : Nat → Nat → Machine → Machine → Prop} {virtual n p : Nat}
    (hgrow : GrowsBacked L m₀ virtual Grow) (hs : GiveInv m₀ s rs F) {h' : Heap Machine}
    (hh' : Refines h' rs') (ha : Allocated Grow virtual n s.heap rs p h' rs') (hp : p ≠ 0)
    (hn : Requestable n) (hno : ¬ LeavesSliver s.heap virtual n) :
    ∃ F', GiveInv m₀ ⟨h', record virtual n p h' s.live⟩ rs' F' := by
  have hsafe := hs.safe.allocated hh' ha
  cases ha with
  | failed => exact absurd rfl hp
  | kept => exact absurd rfl hp
  | served _ hrs hv hfit hhand hbm hlow =>
    subst hrs
    exact ⟨F, allocated_served hs hsafe hfit hhand hbm hlow hno⟩
  | grown _ hfit hv hb hhand hrun hbm hlow =>
    exact allocated_grown hgrow hs hh' hsafe hfit hv hb hhand hrun hbm hlow hn hno

/-- **A release.** -/
theorem released {drop : Nat → Nat → Machine → Machine} {virtual y : Nat}
    (hdrop : DropsBacked L m₀ virtual drop) (hs : GiveInv m₀ s rs F) {h' : Heap Machine}
    (hh' : Refines h' rs') (hr : Released drop s.heap rs y h' rs')
    (hv : ∀ r ∈ rs, ∀ m, r.Has y ⟨m, false⟩ → r.virtual = virtual) :
    GiveInv m₀ ⟨h', forget (y + 16) s.live⟩ rs' F := by
  have hsafe := hs.safe.released hh' hr
  have hold : ∀ {z : Nat}, z ≠ y → (∃ x ∈ s.live, x.ptr = z + 16) →
      ∃ x ∈ forget (y + 16) s.live, x.ptr = z + 16 := by
    rintro z hz ⟨x, hx, hxz⟩
    exact ⟨x, by simp [forget, hx, hxz, hz], hxz⟩
  -- blocks of the other regions are elsewhere
  have helse : ∀ {l t : List (Region L)} {r : Region L} {m : Nat}, (l ++ r :: t).Pairwise Apart →
      r.Has y ⟨m, false⟩ → ∀ q, (q ∈ l ∨ q ∈ t) → ∀ z k, q.Has z ⟨k, false⟩ → z ≠ y := by
    intro l t r m hap hy q hq z k hz he
    have h1 := apart_of_mem hap q hq
    have h2 := hy.bounds
    have h3 := hz.bounds
    unfold Apart at h1
    omega
  cases hr with
  | @merged l t r r' bl bt m _ hrs hm hy hkeep hbm hlow =>
    subst hrs
    have hblk : r.Has y ⟨m, false⟩ := by rw [Has, hm.before, at_append, hy]; simp
    obtain ⟨hseen, hused⟩ := hm.used_after (hs.seen r (by simp)) hkeep
    refine hs.update hsafe hm.base hm.size_eq hm.virtual hused (fun z k hz => ?_)
      (fun q hq z k hz => ?_) hseen hbm hlow
    · obtain ⟨hz, hne⟩ := (hm.has_used_iff z k).mp hz
      exact hold (hy ▸ hne) (hs.liveUsed r (by simp) z k hz)
    · exact hold (helse hs.safe.refines.apart hblk q hq z k hz)
        (hs.liveUsed q (mem_append_cons.mpr (.inr hq)) z k hz)
  | @dropped l t r r' bl bt m c _ hrs hm hy hone hbm hlow =>
    subst hrs
    have hap := hs.safe.refines.apart
    have hblk : r.Has y ⟨m, false⟩ := by rw [Has, hm.before, at_append, hy]; simp
    have hsub : ∀ q, q ∈ l ++ t → q ∈ l ++ r :: t := fun q hq =>
      mem_append_cons.mpr (.inr (List.mem_append.mp hq))
    have hpages := pages_remove hap
    have hpos : 0 < r.pageCount := by
      have := r.size_bounds
      unfold pageCount; omega
    have hrun : ∀ w, InRun (r.base / 4096) r.pageCount w → Pages (l ++ r :: t) w :=
      fun w hw => ⟨r, by simp, hw⟩
    have hback := hdrop (v := r.base / 4096) (n := r.pageCount) hs.backed hpos hrun hs.inj
      fun h0 => hs.run r (by simp) ((hv r (by simp) m hblk).trans h0)
    refine ⟨hsafe, fun q hq => hs.used q (hsub q hq), fun q hq z k hz => ?_,
      fun q hq => hs.seen q (hsub q hq), fun q hq hset => ?_, ?_, fun v w hv hw =>
      hs.inj v w ((hpages v).mp hv).1 ((hpages w).mp hw).1, fun q hq => hs.run q (hsub q hq)⟩
    · exact hold (helse hap hblk q (List.mem_append.mp hq) z k hz)
        (hs.liveUsed q (hsub q hq) z k hz)
    · dsimp only at hset
      rw [hbm, isSet_setRun, Bool.or_eq_false_iff, decide_eq_false_iff_not] at hset
      obtain ⟨q', hq', hin⟩ := hs.taken q hq hset.1
      rcases mem_append_cons.mp hq' with rfl | hq'
      · exact absurd hin hset.2
      · exact ⟨q', List.mem_append.mpr hq', hin⟩
    · show Backed L m₀ h'.low _ _ _
      rw [hlow, ← r.base_eq]
      refine hback.congr hpages (fun _ _ => rfl) fun f => ?_
      constructor
      · rintro ⟨v, hv, rfl⟩
        obtain ⟨hv1, hv2⟩ := (hpages v).mp hv
        exact ⟨⟨v, hv1, rfl⟩, fun w hw he => hv2 (hs.inj w v (hrun w hw) hv1 he ▸ hw)⟩
      · rintro ⟨⟨v, hv, rfl⟩, hne⟩
        exact ⟨v, (hpages v).mpr ⟨hv, fun k => hne v k rfl⟩, rfl⟩

/-- A write through the page tables touches no table and no header. -/
theorem store {t : Client Machine} (hs : GiveInv m₀ s rs F) (h : StoresThrough L s t) :
    GiveInv m₀ t rs F := by
  have hsafe := hs.safe.storeThrough h
  obtain ⟨x, hx, -, hram, hheap, hlive⟩ := h
  obtain ⟨th, tl⟩ := t
  dsimp only at hram hheap hlive
  subst hlive
  obtain ⟨q, hq, -, y, hp, hy, hlt⟩ := hs.safe.live x hx
  have hk := hs.safe.refines.ksize_eq hq hy hlt
  refine ⟨hsafe, hs.used, hs.liveUsed, hs.seen, ?_, ?_, hs.inj, hs.run⟩
  · rw [hheap]; exact hs.taken
  · refine hs.backed.congr_ram (by rw [hheap]) (by rw [hheap]) fun v hv => ?_
    -- the frames written to are owned by the heap, so they hold no table
    have hdir : th.low.pageDirectory = s.heap.low.pageDirectory := by rw [hheap]
    have htab := hasTable_of_view (hs.backed.view v hv)
    have htab' : HasTable th.low (dirIndex (v * 4096)) :=
      (hasTable_congr (by rw [hdir])).mpr htab
    have hpd := (hs.backed.window v hv).pageDir
    have hsame : ∀ i, th.low.ram (tableFrame s.heap.low (dirIndex (v * 4096))) i =
        s.heap.low.ram (tableFrame s.heap.low (dirIndex (v * 4096))) i := by
      intro i
      by_contra hne
      obtain ⟨a, ⟨ha1, ha2⟩, hga⟩ := hram _ i hne
      rw [hp, hk] at ha2
      rw [hp] at ha1
      dsimp only at ha2
      have hb := hy.bounds
      dsimp only at hb
      have hpage : Pages rs (a / 4096) := by
        refine ⟨q, hq, ?_⟩
        have h1 := q.aligned
        have h2 := q.size_bounds
        unfold stop at hb
        unfold InRun pageCount
        omega
      have hview := hs.backed.view _ hpage
      rw [slot_page] at hview
      rw [pageGetPhys_of_entryView hview] at hga
      have := hs.backed.tableFrame_ne hpd htab ⟨_, hpage, rfl⟩
      omega
    have htf : tableFrame th.low (dirIndex (v * 4096)) =
        tableFrame s.heap.low (dirIndex (v * 4096)) := tableFrame_congr (by rw [hdir])
    rw [slot_eq_ram htab', slot_eq_ram htab, htf, hsame]

/-- **One step keeps the invariant**, unless it leaves a sliver. -/
theorem step {t : Client Machine} {op : HeapOp} (hs : GiveInv m₀ s rs F)
    (h : giveStep L word s op t) (hno : NoSliver s op) :
    ∃ (rs' : List (Region L)) (F' : Nat → Nat), GiveInv m₀ t rs' F' := by
  have hfree : ∀ {virtual p : Nat} {drop : Nat → Nat → Machine → Machine}
      {defrag : Nat → Heap Machine → Heap Machine}, Defrags L drop defrag →
      DropsBacked L m₀ virtual drop → MayFree s virtual p →
      ∃ (rs' : List (Region L)) (F' : Nat → Nat),
        GiveInv m₀ ⟨free defrag p s.heap, forget p s.live⟩ rs' F' := by
    intro virtual p drop defrag hdef hdrop hmay
    rcases hmay with rfl | ⟨x, hx, rfl, hxv⟩
    · refine ⟨rs, F, ?_⟩
      rw [free, if_pos rfl, forget_zero hs.safe]
      exact hs
    · obtain ⟨r, hr, hrv, y, hp, hy, hlt⟩ := hs.safe.live x hx
      obtain ⟨l, t, rfl⟩ := List.append_of_mem hr
      obtain ⟨rs', hh', hrel⟩ := free_simulates hdef hs.safe.refines hy hlt
      rw [hp]
      refine ⟨rs', F, hs.released hdrop hh' hrel fun q hq m hm => ?_⟩
      rcases hs.safe.refines.block_disjoint hq hr hm hy with ⟨rfl, -⟩ | k | k
      · exact hrv.trans hxv
      · dsimp only at k; omega
      · dsimp only at k; omega
  obtain ⟨th, tl⟩ := t
  cases op with
  | kmalloc n =>
    obtain ⟨hn, hne, hth, htl⟩ := h
    dsimp only at hth htl
    subst hth htl
    rcases requestable_or_huge hn with hreq | hhuge
    · obtain ⟨rs', hh', ha⟩ := kmalloc_simulates hs.safe.refines (machineBacking L word) hreq
      exact ⟨rs', hs.allocated (kgrow_backed L m₀ word) hh' ha hne hreq hno⟩
    · exact absurd (kmalloc_huge hhuge _ _) hne
  | vmalloc n =>
    obtain ⟨hn, hne, hth, htl⟩ := h
    dsimp only at hth htl
    subst hth htl
    rcases requestable_or_huge hn with hreq | hhuge
    · obtain ⟨rs', hh', ha⟩ := vmalloc_simulates hs.safe.refines (machineBacking L word) hreq
      exact ⟨rs', hs.allocated (vgrow_backed L m₀ word) hh' ha hne hreq hno⟩
    · exact absurd (vmalloc_huge hhuge _ _) hne
  | kfree p =>
    obtain ⟨hmay, rfl, rfl⟩ := h
    exact hfree (kdefrag_defrags L _) (kdrop_backed L m₀ word) hmay
  | vfree p =>
    obtain ⟨hmay, rfl, rfl⟩ := h
    exact hfree (vdefrag_defrags L _) (vdrop_backed L m₀ word) hmay
  | store => exact ⟨rs, F, hs.store h⟩
  | other =>
    obtain ⟨⟨f, rfl⟩, rfl⟩ := h
    refine ⟨rs, F, ⟨hs.safe.refines.congr rfl hs.safe.refines.shown fun _ h => h, hs.safe.live,
      hs.safe.asked, hs.safe.distinct⟩, hs.used, hs.liveUsed, hs.seen, hs.taken,
      hs.backed.swapTo f, hs.inj, hs.run⟩

/-- **Without live results nothing is taken.** -/
theorem givenBack (hs : GiveInv m₀ s rs F) (hlive : s.live = []) : GivenBack m₀ s.heap := by
  -- a region would have a used block, and that block would be live
  have hrs : rs = [] := by
    rw [List.eq_nil_iff_forall_not_mem]
    intro r hr
    obtain ⟨y, m, hy⟩ := hs.used r hr
    obtain ⟨x, hx, -⟩ := hs.liveUsed r hr y m hy
    rw [hlive] at hx
    exact List.not_mem_nil hx
  subst hrs
  have hno : ∀ v, ¬ Pages ([] : List (Region L)) v := by
    rintro v ⟨r, hr, -⟩
    exact List.not_mem_nil hr
  refine ⟨hs.safe.refines.list, fun q hq => ?_, fun f => ?_⟩
  · by_contra hset
    obtain ⟨r, hr, -⟩ := hs.taken q hq (by simpa using hset)
    exact List.not_mem_nil hr
  · rw [hs.backed.free f]
    simp [hno]

end GiveInv

/-- The heap right after `heap_setup`, with no region and no live result. -/
def Client.start (mem : Mem) (bm : Bytes) (m₀ : Machine) : Client Machine :=
  ⟨heapSetup ⟨mem, bm, [], m₀⟩, []⟩

theorem GiveInv.start (mem : Mem) (bm : Bytes) (h : TablesOk L m₀) :
    GiveInv m₀ (Client.start mem bm m₀) ([] : List (Region L)) id where
  safe := ⟨⟨rfl, by simp, .nil, by simp⟩, by simp [Client.start], by simp [Client.start], .nil⟩
  used := by simp
  liveUsed := by simp
  seen := by simp
  taken q hq hset := by
    have hbyte : ∀ k, k < 8 → (0xFF : BitVec 8).getLsbD k = true := by decide
    have hlt : q / 8 < HEAP_SIZE / 8 := by unfold HEAP_SIZE at *; omega
    have : isSet (heapSetup ⟨mem, bm, [], m₀⟩).mmVirtHeap q = true := by
      unfold isSet heapSetup
      dsimp only
      rw [if_pos hlt]
      exact hbyte _ (Nat.mod_lt _ (by decide))
    rw [show (Client.start mem bm m₀).heap = heapSetup ⟨mem, bm, [], m₀⟩ from rfl, this] at hset
    exact Bool.noConfusion hset
  backed := (Backed.start h).congr (fun v => by simp [Pages]) (fun _ _ => rfl)
    fun f => by simp [Pages]
  inj v w hv := by obtain ⟨r, hr, -⟩ := hv; exact absurd hr (List.not_mem_nil)
  run := by simp

/-- The invariant of runs. -/
def GiveRun (L : Layout) (m₀ : Machine) (s : Client Machine) : Prop :=
  ∃ (rs : List (Region L)) (F : Nat → Nat), GiveInv m₀ s rs F

theorem GiveRun.step {s t : Client Machine} {op : HeapOp} (hs : GiveRun L m₀ s)
    (h : giveStep L word s op t) (hno : NoSliver s op) : GiveRun L m₀ t := by
  obtain ⟨rs, F, hs⟩ := hs
  exact hs.step h hno

/-! ## Slivers stay -/

/-- Some region has a block that the walks do not see. -/
def Slivered (L : Layout) (s : Client Machine) : Prop :=
  ∃ rs : List (Region L), SafeInv s rs ∧ ∃ r ∈ rs, ¬ Seen 16 32 r.blocks

theorem Handed.not_seen {allocSize : Nat} {r r' : Region L} {l t : List Block} {b : Block}
    (h : Handed allocSize r r' l b t) (hno : ¬ Seen 16 32 r.blocks) : ¬ Seen 16 32 r'.blocks := by
  have hlt := h.seen
  rw [size, h.before, span_append, span_cons] at hlt
  rw [h.before, seen_append (by simp)] at hno
  rw [h.after]
  cases t with
  | nil => exact absurd ⟨by rw [span_cons]; omega, trivial⟩ hno
  | cons c t =>
    rw [seen_append (by simp), seen_append (by simp)]
    exact fun k => hno ⟨by rw [span_cons]; omega, k⟩

theorem Merged.not_seen {r r' : Region L} {bl bt : List Block} {s : Nat} (h : Merged r r' bl s bt)
    (hno : ¬ Seen 16 32 r.blocks) : ¬ Seen 16 32 r'.blocks := by
  rw [h.before, seen_append (by simp)] at hno
  rw [h.after]
  intro k
  have := seen_of_coalesce k
  rw [seen_append (by simp)] at this
  exact hno this

/-- A request that leaves a sliver. -/
theorem Handed.not_seen_of_sliver {allocSize : Nat} {r r' : Region L} {l t : List Block} {b : Block}
    (h : Handed allocSize r r' l b t) (hk : 32 < b.size) (hlt : b.size < allocSize + 48)
    (hend : span 16 t = 0) : ¬ Seen 16 32 r'.blocks := by
  have hdvd := h.dvd
  have hal := h.aligned
  have hfit := h.fits
  have ht : t = [] := by
    cases t with
    | nil => rfl
    | cons c t => rw [span_cons] at hend; omega
  rw [h.after, ht, List.append_nil, splitBlock, if_pos hk, seen_append (by simp)]
  rintro ⟨-, hlast, -⟩
  rw [span_cons, span_nil] at hlast
  dsimp only at hlast
  omega

namespace Slivered

variable {s : Client Machine} {rs rs' : List (Region L)} {h' : Heap Machine}

theorem allocated {Grow : Nat → Nat → Machine → Machine → Prop} {virtual n p : Nat}
    (hs : SafeInv s rs) (hh' : Refines h' rs') (ha : Allocated Grow virtual n s.heap rs p h' rs')
    (hno : (∃ r ∈ rs, ¬ Seen 16 32 r.blocks) ∨ p ≠ 0 ∧ LeavesSliver s.heap virtual n) :
    Slivered L ⟨h', record virtual n p h' s.live⟩ := by
  refine ⟨rs', hs.allocated hh' ha, ?_⟩
  cases ha with
  | failed => exact hno.resolve_right fun k => k.1 rfl
  | kept =>
    obtain ⟨q, hq, hqs⟩ := hno.resolve_right fun k => k.1 rfl
    exact ⟨q, List.mem_cons_of_mem _ hq, hqs⟩
  | @served l t r r' bl bt b _ hrs hv hfit hhand hbm hlow =>
    subst hrs
    rcases hno with ⟨q, hq, hqs⟩ | ⟨-, hsl⟩
    · rcases mem_append_cons.mp hq with rfl | hq
      · exact ⟨r', by simp, hhand.not_seen hqs⟩
      · exact ⟨q, mem_append_cons.mpr (.inr hq), hqs⟩
    · have hshown := hs.refines.shown r (by simp)
      have hblk := size_of_header (tiles_iff.mp hshown.tiles _ _ hhand.has_block)
      unfold LeavesSliver at hsl
      rw [hfit] at hsl
      dsimp only at hsl
      rw [hblk, hshown.pageSize, size, hhand.before, span_append, span_cons] at hsl
      unfold headerSize heapListSize at hsl
      exact ⟨r', by simp, hhand.not_seen_of_sliver hsl.1 hsl.2.1 (by omega)⟩
  | @grown r r' bl bt b _ hfit hv hb hhand hrun hbm hlow =>
    rcases hno with ⟨q, hq, hqs⟩ | ⟨-, hsl⟩
    · exact ⟨q, List.mem_cons_of_mem _ hq, hqs⟩
    · unfold LeavesSliver at hsl
      rw [hfit] at hsl
      dsimp only at hsl
      have h1 := r.size_bounds
      have h2 := hhand.before
      rw [size, hb, span_cons, span_nil] at h1
      dsimp only at h1
      rw [hb] at h2
      refine ⟨r', List.mem_cons_self, ?_⟩
      cases bl with
      | nil =>
        rw [List.nil_append, List.cons.injEq] at h2
        obtain ⟨rfl, rfl⟩ := h2
        exact hhand.not_seen_of_sliver (by dsimp only; omega) hsl rfl
      | cons c bl => simp at h2

theorem released {drop : Nat → Nat → Machine → Machine} {y : Nat} (hs : SafeInv s rs)
    (hno : ∃ r ∈ rs, ¬ Seen 16 32 r.blocks) (hh' : Refines h' rs')
    (hr : Released drop s.heap rs y h' rs') : Slivered L ⟨h', forget (y + 16) s.live⟩ := by
  refine ⟨rs', hs.released hh' hr, ?_⟩
  obtain ⟨q, hq, hqs⟩ := hno
  cases hr with
  | @merged l t r r' bl bt m _ hrs hm hy hkeep hbm hlow =>
    subst hrs
    rcases mem_append_cons.mp hq with rfl | hq
    · exact ⟨r', by simp, hm.not_seen hqs⟩
    · exact ⟨q, mem_append_cons.mpr (.inr hq), hqs⟩
  | @dropped l t r r' bl bt m c _ hrs hm hy hone hbm hlow =>
    subst hrs
    rcases mem_append_cons.mp hq with rfl | hq
    · -- one block that covers the region would be seen
      refine absurd ⟨?_, trivial⟩ (hone ▸ hm.not_seen hqs)
      have h1 := q.size_bounds
      rw [← hm.size_eq, size, hone] at h1
      omega
    · exact ⟨q, List.mem_append.mpr hq, hqs⟩

/-- **A sliver stays**, whatever the step, and an allocation that leaves one makes one. -/
theorem step {t : Client Machine} {op : HeapOp} (hs : SafeInv s rs) (h : giveStep L word s op t)
    (hno : (∃ r ∈ rs, ¬ Seen 16 32 r.blocks) ∨ ¬ NoSliver s op) : Slivered L t := by
  have hfree : ∀ {virtual p : Nat} {drop : Nat → Nat → Machine → Machine}
      {defrag : Nat → Heap Machine → Heap Machine}, Defrags L drop defrag → MayFree s virtual p →
      (∃ r ∈ rs, ¬ Seen 16 32 r.blocks) → Slivered L ⟨free defrag p s.heap, forget p s.live⟩ := by
    intro virtual p drop defrag hdef hmay hno
    rcases hmay with rfl | ⟨x, hx, rfl, hxv⟩
    · rw [free, if_pos rfl, forget_zero hs]
      exact ⟨rs, hs, hno⟩
    · obtain ⟨r, hr, hrv, y, hp, hy, hlt⟩ := hs.live x hx
      obtain ⟨l, t, rfl⟩ := List.append_of_mem hr
      obtain ⟨rs', hh', hrel⟩ := free_simulates hdef hs.refines hy hlt
      rw [hp]
      exact released hs hno hh' hrel
  obtain ⟨th, tl⟩ := t
  cases op with
  | kmalloc n =>
    obtain ⟨hn, hne, hth, htl⟩ := h
    dsimp only at hth htl
    subst hth htl
    rcases requestable_or_huge hn with hreq | hhuge
    · obtain ⟨rs', hh', ha⟩ := kmalloc_simulates hs.refines (machineBacking L word) hreq
      exact allocated hs hh' ha (hno.imp_right fun k => ⟨hne, not_not.mp k⟩)
    · exact absurd (kmalloc_huge hhuge _ _) hne
  | vmalloc n =>
    obtain ⟨hn, hne, hth, htl⟩ := h
    dsimp only at hth htl
    subst hth htl
    rcases requestable_or_huge hn with hreq | hhuge
    · obtain ⟨rs', hh', ha⟩ := vmalloc_simulates hs.refines (machineBacking L word) hreq
      exact allocated hs hh' ha (hno.imp_right fun k => ⟨hne, not_not.mp k⟩)
    · exact absurd (vmalloc_huge hhuge _ _) hne
  | kfree p =>
    obtain ⟨hmay, rfl, rfl⟩ := h
    exact hfree (kdefrag_defrags L _) hmay (hno.resolve_right (not_not.mpr trivial))
  | vfree p =>
    obtain ⟨hmay, rfl, rfl⟩ := h
    exact hfree (vdefrag_defrags L _) hmay (hno.resolve_right (not_not.mpr trivial))
  | store => exact ⟨rs, hs.storeThrough h, hno.resolve_right (not_not.mpr trivial)⟩
  | other =>
    obtain ⟨⟨f, rfl⟩, rfl⟩ := h
    exact ⟨rs, ⟨hs.refines.congr rfl hs.refines.shown fun _ h => h, hs.live, hs.asked, hs.distinct⟩,
      hno.resolve_right (not_not.mpr trivial)⟩

theorem heapList_ne_nil (h : Slivered L s) : s.heap.heapList ≠ [] := by
  obtain ⟨rs, hs, r, hr, -⟩ := h
  rw [hs.refines.list]
  exact List.ne_nil_of_mem (List.mem_map_of_mem hr)

end Slivered

theorem giveRun_of_run {mem : Mem} {bm : Bytes} (hm₀ : TablesOk L m₀) {ops : List HeapOp}
    {s : Client Machine} (h : Run (fun s op t => giveStep L word s op t ∧ NoSliver s op)
      (Client.start mem bm m₀) ops s) : GiveRun L m₀ s :=
  h.invariant (GiveRun L m₀) (fun _ _ _ hs hstep => hs.step hstep.1 hstep.2)
    ⟨[], id, GiveInv.start mem bm hm₀⟩

/-- **When the heap gives everything back**: in a run that ends without live results, exactly
when no allocation of the run left a sliver. -/
theorem heap_given_back_iff (L : Layout) (word : Machine → Nat → Nat) (mem : Mem) (bm : Bytes)
    (m₀ : Machine) (hm₀ : TablesOk L m₀) (ops : List HeapOp) (s : Client Machine)
    (h : Run (giveStep L word) (Client.start mem bm m₀) ops s) (hlive : s.live = []) :
    GivenBack m₀ s.heap ↔ Run (fun s op t => giveStep L word s op t ∧ NoSliver s op)
      (Client.start mem bm m₀) ops s := by
  constructor
  · intro hback
    refine (h.guard_or NoSliver).resolve_right ?_
    rintro ⟨u, op, v, bs, cs, hpre, hstep, hsl, hpost⟩
    obtain ⟨rs, F, hu⟩ := giveRun_of_run hm₀ hpre
    have hv : Slivered L v := Slivered.step hu.safe hstep (.inr hsl)
    have hend : Slivered L s :=
      hpost.invariant (Slivered L) (fun _ _ _ ⟨_, hs, hno⟩ hstep => Slivered.step hs hstep (.inl hno)) hv
    exact hend.heapList_ne_nil hback.list
  · intro hrun
    obtain ⟨rs, F, hs⟩ := giveRun_of_run hm₀ hrun
    exact hs.givenBack hlive

/-- A machine whose page tables are the kernel's only. -/
theorem tablesOk_clean : TablesOk .sample .clean := by
  have hno : ∀ d, PageDir d → ¬ HasTable .clean d := fun d hd h => hd.2 (clean_hasTable h)
  exact ⟨fun d hd h => absurd h (hno d hd), fun d hd h => absurd h (hno d hd),
    fun d _ hd _ h => absurd h (hno d hd)⟩

/-- The heap of the examples, after `heap_setup`. -/
def Client.sample : Client Machine := .start (fun _ => 0) (fun _ => 0) .clean

/-- After one allocation of `n` bytes. -/
def afterAlloc (n : Nat) : Client Machine :=
  let r := kmalloc .sample (machineBacking .sample fun _ _ => 0) n Client.sample.heap
  ⟨r.2, record 0 n r.1 r.2 []⟩

/-- And after its release. -/
def afterFree (n : Nat) : Client Machine :=
  ⟨kfree .sample (machineBacking .sample fun _ _ => 0) 0xC0780030 (afterAlloc n).heap,
    forget 0xC0780030 (afterAlloc n).live⟩

theorem alloc_and_free {n : Nat} (hn : n < 2 ^ 32)
    (hp : (kmalloc .sample (machineBacking .sample fun _ _ => 0) n Client.sample.heap).1 =
      0xC0780030) :
    giveStep .sample (fun _ _ => 0) .sample (.kmalloc n) (afterAlloc n) ∧
      giveStep .sample (fun _ _ => 0) (afterAlloc n) (.kfree 0xC0780030) (afterFree n) ∧
      (afterFree n).live = [] := by
  have hlive : (afterAlloc n).live = [⟨0xC0780030, n, 0, ksize 0xC0780030 (afterAlloc n).heap⟩] := by
    unfold afterAlloc
    dsimp only
    rw [record, hp, if_neg (by decide)]
  refine ⟨⟨hn, by rw [hp]; decide, rfl, rfl⟩, ⟨.inr
    ⟨⟨0xC0780030, n, 0, ksize 0xC0780030 (afterAlloc n).heap⟩, ?_, rfl, rfl⟩, rfl, rfl⟩, ?_⟩
  · rw [hlive]; exact List.mem_singleton_self _
  · show forget _ (afterAlloc n).live = []
    rw [hlive]; rfl

/-- 4032 bytes leave an empty block at the end of the region, and the region stays. -/
theorem region_with_sliver_stays :
    ∃ s, Run (giveStep .sample fun _ _ => 0) .sample [.kmalloc 4032, .kfree 0xC0780030] s ∧
      s.live = [] ∧ ¬ GivenBack .clean s.heap := by
  obtain ⟨h1, h2, hlive⟩ := alloc_and_free (n := 4032) (by decide) (by decide +kernel)
  refine ⟨_, .cons h1 (.single h2), hlive, fun h => ?_⟩
  have hlist : (afterFree 4032).heap.heapList ≠ [] := by decide +kernel
  exact hlist h.list

/-- 4000 bytes leave a block of 32, and everything is given back. -/
theorem region_without_sliver_given_back : GivenBack .clean (afterFree 4000).heap := by
  obtain ⟨h1, h2, hlive⟩ := alloc_and_free (n := 4000) (by decide) (by decide +kernel)
  refine (heap_given_back_iff .sample (fun _ _ => 0) _ _ .clean tablesOk_clean _ _
    (.cons h1 (.single h2)) hlive).mpr (.cons ⟨h1, ?_⟩ (.single ⟨h2, trivial⟩))
  show ¬ regionSize 4000 - 48 < MALLOC_ALIGN 4000 + 48
  decide +kernel

end Moonlight
