import MoonlightKernel.Heap.Simulation
import MoonlightKernel.Lib.Run

/-!
# Heap safety over runs

Clients allocate, release and write inside their payloads, in any order; the calls of the heap
into the frame allocator and the page tables succeed or fail as they like.  `heap_safe` says
that in every state that such a run reaches, headers tile every region, regions do not overlap,
and payloads overlap neither each other nor a header.

The invariant (`SafeInv`) is over the list of regions: each live pointer is a used block of a
region of its own kind, within reach of the walk of `_free`.
-/

set_option autoImplicit false

namespace Moonlight

open Sys Sys.Bitmap Sys.Tiling Region

variable {L : Layout} {σ : Type}

/-! ## Clients -/

/-- A result that has not been released: the pointer, the size asked for, the allocator
(`1` for `vmalloc`) and what `ksize` answered at the allocation. -/
structure Live where
  ptr : Nat
  asked : Nat
  virtual : Nat
  size : Nat

structure Client (σ : Type) where
  heap : Heap σ
  live : List Live

/-- The calls of clients, a client writing to its payload, and the rest of the kernel. -/
inductive HeapOp where
  | kmalloc (n : Nat)
  | vmalloc (n : Nat)
  | kfree (p : Nat)
  | vfree (p : Nat)
  | store
  | other

/-- The live results after an allocation that returned `p`. -/
def record (virtual n p : Nat) (h : Heap σ) (live : List Live) : List Live :=
  if p = 0 then live else ⟨p, n, virtual, ksize p h⟩ :: live

/-- The live results after `p` has been released. -/
def forget (p : Nat) (live : List Live) : List Live := live.filter fun l => l.ptr ≠ p

/-- A client releases null or a live result of the matching allocator. -/
def MayFree (s : Client σ) (virtual p : Nat) : Prop :=
  p = 0 ∨ ∃ l ∈ s.live, l.ptr = p ∧ l.virtual = virtual

/-- A client writes inside the payload of one of its pointers. -/
def Writes (s : Client σ) (mem : Mem) : Prop :=
  ∃ l ∈ s.live, ∀ a, mem a ≠ s.heap.mem a → l.ptr ≤ a ∧ a < l.ptr + ksize l.ptr s.heap

/-- One step. -/
def heapStep (L : Layout) (B : Backing σ) (s : Client σ) : HeapOp → Client σ → Prop
  | .kmalloc n, t => n ≤ 2 ^ 32 - 8192 ∧ t.heap = (kmalloc L B n s.heap).2 ∧
      t.live = record 0 n (kmalloc L B n s.heap).1 t.heap s.live
  | .vmalloc n, t => n ≤ 2 ^ 32 - 8192 ∧ t.heap = (vmalloc L B n s.heap).2 ∧
      t.live = record 1 n (vmalloc L B n s.heap).1 t.heap s.live
  | .kfree p, t => MayFree s 0 p ∧ t.heap = kfree L B p s.heap ∧ t.live = forget p s.live
  | .vfree p, t => MayFree s 1 p ∧ t.heap = vfree L B p s.heap ∧ t.live = forget p s.live
  | .store, t => Writes s t.heap.mem ∧ t.heap = { s.heap with mem := t.heap.mem } ∧ t.live = s.live
  | .other, t => t.heap = { s.heap with low := t.heap.low } ∧ t.live = s.live

/-! ## What is safe -/

/-- The end of the region at `a`. -/
def regionEnd (mem : Mem) (a : Nat) : Nat := a + heapListSize + low31 (mem a)

/-- The payload of `p` has no byte in common with the `k` bytes at `y`. -/
def Outside (h : Heap σ) (p y k : Nat) : Prop := p + ksize p h ≤ y ∨ y + k ≤ p

/-- Everything the heap promises of a state. -/
structure HeapSafe (L : Layout) (s : Client σ) : Prop where
  /-- The headers tile each region, and no payload overlaps a header. -/
  tiled : ∀ a ∈ s.heap.heapList, ∃ bs, Tiles headerSize s.heap.mem.header (a + heapListSize) bs ∧
    span headerSize bs = low31 (s.heap.mem a) ∧ (∀ b ∈ bs, b.size % 16 = 0) ∧
    ∀ l ∈ s.live, Outside s.heap l.ptr a heapListSize ∧
      ∀ y b, At headerSize (a + heapListSize) bs y b → Outside s.heap l.ptr y headerSize
  /-- Regions are whole pages of the heap window. -/
  inHeap : ∀ a ∈ s.heap.heapList, a % 4096 = 0 ∧ regionEnd s.heap.mem a % 4096 = 0 ∧
    HEAP_START L ≤ a ∧ regionEnd s.heap.mem a ≤ HEAP_END L
  apart : s.heap.heapList.Pairwise fun a b =>
    regionEnd s.heap.mem a ≤ b ∨ regionEnd s.heap.mem b ≤ a
  payloads : s.live.Pairwise fun l m => Outside s.heap l.ptr m.ptr (ksize m.ptr s.heap)
  live : ∀ l ∈ s.live, l.ptr % 16 = 0 ∧ l.asked ≤ ksize l.ptr s.heap ∧ ksize l.ptr s.heap = l.size

/-! ## Blocks of the regions of one heap -/

namespace Refines

variable {h : Heap σ} {rs : List (Region L)}

theorem eq_or_apart (hh : Refines h rs) {r s : Region L} (hr : r ∈ rs) (hs : s ∈ rs) :
    r = s ∨ r.Apart s := by
  obtain ⟨l, t, rfl⟩ := List.append_of_mem hr
  rcases mem_append_cons.mp hs with rfl | hs
  · exact .inl rfl
  · exact .inr (apart_of_mem hh.apart s hs)

/-- Blocks do not overlap, across all regions. -/
theorem block_disjoint (hh : Refines h rs) {r s : Region L} (hr : r ∈ rs) (hs : s ∈ rs)
    {y z : Nat} {b c : Block} (hy : r.Has y b) (hz : s.Has z c) :
    (r = s ∧ y = z ∧ b = c) ∨ y + 16 + b.size ≤ z ∨ z + 16 + c.size ≤ y := by
  have h1 := hy.bounds
  have h2 := hz.bounds
  rcases hh.eq_or_apart hr hs with rfl | hap
  · exact (At.disjoint hy hz).imp_left fun h => ⟨rfl, h⟩
  · unfold Apart at hap; omega

/-- The `heap_list` of a region overlaps no block. -/
theorem base_disjoint (hh : Refines h rs) {r s : Region L} (hr : r ∈ rs) (hs : s ∈ rs)
    {z : Nat} {c : Block} (hz : s.Has z c) : r.base + 32 ≤ z ∨ z + 16 + c.size ≤ r.base := by
  have h2 := hz.bounds
  rcases hh.eq_or_apart hr hs with rfl | hap
  · exact .inl h2.1
  · have h3 := s.base_lt_stop
    unfold Apart stop at hap
    unfold stop at h2
    omega

/-- `ksize` reads the size of a used block. -/
theorem ksize_eq (hh : Refines h rs) {r : Region L} (hr : r ∈ rs) {y : Nat} {b : Block}
    (hy : r.Has y b) (hlt : y < r.base + r.size) : ksize (y + 16) h = b.size := by
  obtain ⟨l, t, rfl⟩ := List.append_of_mem hr
  have hlook := lookup_used hh.shown hh.apart hy hlt
  rw [← hh.list] at hlook
  unfold ksize
  rw [hlook]
  exact size_of_header (tiles_iff.mp (hh.shown r hr).tiles y b hy)

end Refines

/-! ## The invariant -/

/-- The live result `l` is a used block of region `r`, before the point where walks stop. -/
def LiveAt (r : Region L) (l : Live) : Prop :=
  r.virtual = l.virtual ∧ ∃ y, l.ptr = y + 16 ∧ r.Has y ⟨l.size, false⟩ ∧ y < r.base + r.size

structure SafeInv (s : Client σ) (rs : List (Region L)) : Prop where
  refines : Refines s.heap rs
  live : ∀ l ∈ s.live, ∃ r ∈ rs, LiveAt r l
  asked : ∀ l ∈ s.live, MALLOC_ALIGN l.asked ≤ l.size
  distinct : s.live.Pairwise fun l m => l.ptr ≠ m.ptr

/-- Another region becomes `r'`: used blocks of the others stay. -/
theorem liveAt_update {l t : List (Region L)} {r r' : Region L} {x : Live}
    (hx : ∃ q ∈ l ++ r :: t, LiveAt q x) (hr : LiveAt r x → LiveAt r' x) :
    ∃ q ∈ l ++ r' :: t, LiveAt q x := by
  obtain ⟨q, hq, hqx⟩ := hx
  rcases mem_append_cons.mp hq with rfl | hq
  · exact ⟨r', by simp, hr hqx⟩
  · exact ⟨q, mem_append_cons.mpr (.inr hq), hqx⟩

namespace Handed

variable {allocSize : Nat} {r r' : Region L} {l t : List Block} {b : Block}

theorem has_block (h : Handed allocSize r r' l b t) : r.Has (r.base + 32 + span 16 l) b := by
  rw [Has, h.before, at_append]; exact .inr (.inl ⟨rfl, rfl⟩)

/-- The block handed out holds the bytes asked for. -/
theorem has_new (h : Handed allocSize r r' l b t) :
    ∃ s, allocSize ≤ s ∧ r'.Has (r.base + 32 + span 16 l) ⟨s, false⟩ := by
  have hfits := h.fits
  refine ⟨if 32 < b.size then allocSize else b.size, ?_, (h.has_used_iff _ _).mpr (.inr ⟨rfl, rfl⟩)⟩
  split <;> omega

theorem liveAt (h : Handed allocSize r r' l b t) {x : Live} (hx : LiveAt r x) : LiveAt r' x := by
  obtain ⟨hv, y, hp, hy, hlt⟩ := hx
  refine ⟨h.virtual.trans hv, y, hp, (h.has_used_iff _ _).mpr (.inl hy), ?_⟩
  rw [h.base, h.size_eq]; exact hlt

end Handed

/-- A region of the list hands out a block: the new result is live. -/
theorem SafeInv.handed {s : Client σ} {h' : Heap σ} {l t : List (Region L)} {r r' : Region L}
    {bl bt : List Block} {b : Block} {n : Nat}
    (hlive : ∀ x ∈ s.live, ∃ q ∈ l ++ r :: t, LiveAt q x)
    (hasked : ∀ x ∈ s.live, MALLOC_ALIGN x.asked ≤ x.size)
    (hdist : s.live.Pairwise fun x y => x.ptr ≠ y.ptr) (hap : (l ++ r :: t).Pairwise Apart)
    (hh' : Refines h' (l ++ r' :: t)) (hhand : Handed (MALLOC_ALIGN n) r r' bl b bt) :
    SafeInv ⟨h', record r.virtual n (r.base + 32 + span 16 bl + 16) h' s.live⟩ (l ++ r' :: t) := by
  obtain ⟨m, hm, hnew⟩ := hhand.has_new
  have hlt : r.base + 32 + span 16 bl < r'.base + r'.size := by
    rw [hhand.base, hhand.size_eq]; exact hhand.seen
  have hk := hh'.ksize_eq (r := r') (by simp) hnew hlt
  dsimp only at hk
  unfold record
  rw [if_neg (by omega), hk]
  refine ⟨hh', List.forall_mem_cons.mpr ⟨⟨r', by simp, hhand.virtual, _, rfl, hnew, hlt⟩, ?_⟩,
    List.forall_mem_cons.mpr ⟨hm, hasked⟩, .cons ?_ hdist⟩
  · exact fun x hx => liveAt_update (hlive x hx) hhand.liveAt
  · -- the block was free, so no live result has its address
    intro x hx heq
    obtain ⟨q, hq, -, y, hp, hy, -⟩ := hlive x hx
    have hyy : r.base + 32 + span 16 bl = y := by dsimp only at heq; omega
    have hblk := hhand.has_block
    have hb1 := hblk.bounds
    have hb2 := hy.bounds
    rcases mem_append_cons.mp hq with rfl | hq
    · rcases At.disjoint hblk hy with ⟨-, he⟩ | h | h
      · have := hhand.free; rw [he] at this; exact Bool.noConfusion this
      · omega
      · dsimp only at h; omega
    · have := apart_of_mem hap q hq
      unfold Apart at this
      omega

/-- What an allocation does keeps the invariant. -/
theorem SafeInv.allocated {Grow : Nat → Nat → σ → σ → Prop} {s : Client σ}
    {rs rs' : List (Region L)} (hs : SafeInv s rs) {virtual n p : Nat} {h' : Heap σ} (hh' : Refines h' rs') (ha : Allocated Grow virtual n s.heap rs p h' rs') :
    SafeInv ⟨h', record virtual n p h' s.live⟩ rs' := by
  cases ha with
  | failed => exact ⟨hh', hs.live, hs.asked, hs.distinct⟩
  | kept =>
    refine ⟨hh', fun l hl => ?_, hs.asked, hs.distinct⟩
    obtain ⟨r, hr, hrl⟩ := hs.live l hl
    exact ⟨r, List.mem_cons_of_mem _ hr, hrl⟩
  | served _ hrs hv hfit hhand hbm hlow =>
    subst hrs hv
    exact SafeInv.handed hs.live hs.asked hs.distinct hs.refines.apart hh' hhand
  | @grown r r' bl bt b _ hfit hv hb hhand hrun hbm hlow =>
    subst hv
    refine SafeInv.handed (l := []) (fun l hl => ?_) hs.asked hs.distinct ?_ hh' hhand
    · obtain ⟨q, hq, hql⟩ := hs.live l hl
      exact ⟨q, List.mem_cons_of_mem _ hq, hql⟩
    · exact pairwise_update (l := []) hh'.apart hhand.base.symm hhand.stop_eq.symm

theorem Merged.liveAt {r r' : Region L} {bl bt : List Block} {s : Nat} (h : Merged r r' bl s bt)
    {x : Live} (hx : LiveAt r x) (hne : x.ptr ≠ r.base + 32 + span 16 bl + 16) : LiveAt r' x := by
  obtain ⟨hv, y, hp, hy, hlt⟩ := hx
  refine ⟨h.virtual.trans hv, y, hp, (h.has_used_iff _ _).mpr ⟨hy, by omega⟩, ?_⟩
  rw [h.base, h.size_eq]; exact hlt

/-- A region that is one free block has no live result. -/
theorem not_liveAt_of_single {r : Region L} {c : Nat} (h : r.blocks = [⟨c, true⟩]) (x : Live) :
    ¬ LiveAt r x := by
  rintro ⟨-, y, -, hy, -⟩
  rw [Has, h, at_cons] at hy
  simp at hy

/-- What a release does keeps the invariant. -/
theorem SafeInv.released {drop : Nat → Nat → σ → σ} {s : Client σ} {rs rs' : List (Region L)}
    (hs : SafeInv s rs) {y : Nat} {h' : Heap σ} (hh' : Refines h' rs')
    (hr : Released drop s.heap rs y h' rs') : SafeInv ⟨h', forget (y + 16) s.live⟩ rs' := by
  have hsub : ∀ x ∈ forget (y + 16) s.live, x ∈ s.live ∧ x.ptr ≠ y + 16 := fun x hx => by
    simpa [forget] using hx
  refine ⟨hh', fun x hx => ?_, fun x hx => hs.asked x (hsub x hx).1, hs.distinct.filter _⟩
  obtain ⟨hmem, hne⟩ := hsub x hx
  cases hr with
  | merged _ hrs hm hy hkeep hbm hlow =>
    subst hrs hy
    exact liveAt_update (hs.live x hmem) fun h => hm.liveAt h hne
  | @dropped l t r r' bl bt m c _ hrs hm hy hone hbm hlow =>
    subst hrs hy
    obtain ⟨q, hq, hqx⟩ := hs.live x hmem
    rcases mem_append_cons.mp hq with rfl | hq
    · exact absurd (hm.liveAt hqx hne) (not_liveAt_of_single hone x)
    · exact ⟨q, List.mem_append.mpr hq, hqx⟩

/-- A write inside a payload leaves every header alone. -/
theorem SafeInv.store {s : Client σ} {rs : List (Region L)} (hs : SafeInv s rs) {h' : Heap σ}
    (hw : Writes s h'.mem) (hh' : h' = { s.heap with mem := h'.mem }) :
    SafeInv ⟨h', s.live⟩ rs := by
  obtain ⟨x, hx, hwrite⟩ := hw
  obtain ⟨q, hq, -, z, hp, hz, hlt⟩ := hs.live x hx
  rw [hp, hs.refines.ksize_eq hq hz hlt] at hwrite
  dsimp only at hwrite
  have hkeep : ∀ a, ¬ (z + 16 ≤ a ∧ a < z + 16 + x.size) → h'.mem a = s.heap.mem a :=
    fun a ha => by_contra fun hc => ha (hwrite a hc)
  refine ⟨hs.refines.congr (by rw [hh']) (fun r hr => ?_) (fun p hb => by rw [hh']; exact hb),
    hs.live, hs.asked, hs.distinct⟩
  refine (hs.refines.shown r hr).congr (hkeep _ ?_) fun y b hy => hkeep _ ?_
  · have := hs.refines.base_disjoint hr hq hz
    dsimp only at this; omega
  · rcases hs.refines.block_disjoint hr hq hy hz with ⟨-, rfl, -⟩ | h | h
    · omega
    · omega
    · dsimp only at h; omega

/-- Null is no live result. -/
theorem forget_zero {s : Client σ} {rs : List (Region L)} (hs : SafeInv s rs) :
    forget 0 s.live = s.live := by
  rw [forget, List.filter_eq_self]
  intro x hx
  obtain ⟨-, -, -, y, hp, -⟩ := hs.live x hx
  simp [hp]

/-- **One step keeps the invariant.** -/
theorem SafeInv.step {B : Backing σ} {s t : Client σ} {op : HeapOp} {rs : List (Region L)}
    (hs : SafeInv s rs) (h : heapStep L B s op t) : ∃ rs' : List (Region L), SafeInv t rs' := by
  have hfree : ∀ {virtual p : Nat} {drop : Nat → Nat → σ → σ} {defrag : Nat → Heap σ → Heap σ},
      Defrags L drop defrag → MayFree s virtual p →
        ∃ rs' : List (Region L), SafeInv ⟨free defrag p s.heap, forget p s.live⟩ rs' := by
    intro virtual p drop defrag hdef hmay
    rcases hmay with rfl | ⟨x, hx, rfl, -⟩
    · refine ⟨rs, ?_⟩
      rw [free, if_pos rfl, forget_zero hs]
      exact hs
    · obtain ⟨r, hr, -, y, hp, hy, hlt⟩ := hs.live x hx
      obtain ⟨l, t, rfl⟩ := List.append_of_mem hr
      obtain ⟨rs', hh', hrel⟩ := free_simulates hdef hs.refines hy hlt
      rw [hp]
      exact ⟨rs', hs.released hh' hrel⟩
  obtain ⟨th, tl⟩ := t
  cases op with
  | kmalloc n =>
    obtain ⟨hn, hth, htl⟩ := h
    dsimp only at hth htl
    subst hth htl
    obtain ⟨rs', hh', ha⟩ := kmalloc_simulates hs.refines B (requestable_of_le hn)
    exact ⟨rs', hs.allocated hh' ha⟩
  | vmalloc n =>
    obtain ⟨hn, hth, htl⟩ := h
    dsimp only at hth htl
    subst hth htl
    obtain ⟨rs', hh', ha⟩ := vmalloc_simulates hs.refines B (requestable_of_le hn)
    exact ⟨rs', hs.allocated hh' ha⟩
  | kfree p =>
    obtain ⟨hmay, rfl, rfl⟩ := h
    exact hfree (kdefrag_defrags L B) hmay
  | vfree p =>
    obtain ⟨hmay, rfl, rfl⟩ := h
    exact hfree (vdefrag_defrags L B) hmay
  | store =>
    obtain ⟨hw, hh', rfl⟩ := h
    exact ⟨rs, hs.store hw hh'⟩
  | other =>
    obtain ⟨hh', rfl⟩ := h
    refine ⟨rs, hs.refines.congr ?_ (fun r hr => ?_) fun q hq => ?_, hs.live, hs.asked, hs.distinct⟩
    · rw [hh']
    · rw [hh']; exact hs.refines.shown r hr
    · rw [hh']; exact hq

/-- Requests are bounded, and so are the recorded ones. -/
theorem asked_le {B : Backing σ} {s t : Client σ} {op : HeapOp} (h : heapStep L B s op t)
    (hs : ∀ l ∈ s.live, l.asked ≤ 2 ^ 32 - 8192) : ∀ l ∈ t.live, l.asked ≤ 2 ^ 32 - 8192 := by
  have hrec : ∀ {virtual n p : Nat} {h' : Heap σ}, n ≤ 2 ^ 32 - 8192 →
      ∀ l ∈ record virtual n p h' s.live, l.asked ≤ 2 ^ 32 - 8192 := by
    intro virtual n p h' hn
    unfold record
    split
    · exact hs
    · exact List.forall_mem_cons.mpr ⟨hn, hs⟩
  have hfor : ∀ p, ∀ l ∈ forget p s.live, l.asked ≤ 2 ^ 32 - 8192 :=
    fun p l hl => hs l (List.mem_filter.mp hl).1
  cases op with
  | kmalloc n => rw [h.2.2]; exact hrec h.1
  | vmalloc n => rw [h.2.2]; exact hrec h.1
  | kfree p => rw [h.2.2]; exact hfor p
  | vfree p => rw [h.2.2]; exact hfor p
  | store => rw [h.2.2]; exact hs
  | other => rw [h.2]; exact hs

/-- The invariant of runs. -/
def SafeRun (L : Layout) (s : Client σ) : Prop :=
  (∃ rs : List (Region L), SafeInv s rs) ∧ ∀ l ∈ s.live, l.asked ≤ 2 ^ 32 - 8192

theorem SafeRun.step {B : Backing σ} {s t : Client σ} {op : HeapOp} (hs : SafeRun L s)
    (h : heapStep L B s op t) : SafeRun L t :=
  ⟨hs.1.elim fun _ hrs => hrs.step h, asked_le h hs.2⟩

/-- **The invariant contains what the heap promises.** -/
theorem SafeInv.safe {s : Client σ} {rs : List (Region L)} (hs : SafeInv s rs)
    (hle : ∀ l ∈ s.live, l.asked ≤ 2 ^ 32 - 8192) : HeapSafe L s := by
  have hlist := hs.refines.list
  have hend : ∀ r ∈ rs, regionEnd s.heap.mem r.base = r.stop := fun r hr => by
    rw [regionEnd, (hs.refines.shown r hr).pageSize]; rfl
  refine ⟨fun a ha => ?_, fun a ha => ?_, ?_, ?_, fun l hl => ?_⟩
  · rw [hlist] at ha
    obtain ⟨r, hr, rfl⟩ := List.mem_map.mp ha
    have hshown := hs.refines.shown r hr
    refine ⟨r.blocks, hshown.tiles, hshown.pageSize.symm,
      fun b hb => Nat.mod_eq_zero_of_dvd (r.sizes b hb), fun l hl => ?_⟩
    obtain ⟨q, hq, -, z, hp, hz, hlt⟩ := hs.live l hl
    unfold Outside headerSize heapListSize
    rw [hp, hs.refines.ksize_eq hq hz hlt]
    dsimp only
    refine ⟨?_, fun y b hy => ?_⟩
    · have := hs.refines.base_disjoint hr hq hz
      dsimp only at this; omega
    · have hy' : r.Has y b := hy
      rcases hs.refines.block_disjoint hr hq hy' hz with ⟨-, rfl, -⟩ | h | h
      · omega
      · omega
      · dsimp only at h; omega
  · rw [hlist] at ha
    obtain ⟨r, hr, rfl⟩ := List.mem_map.mp ha
    rw [hend r hr]
    have h1 := r.aligned
    have h2 := r.size_bounds
    refine ⟨h1, ?_, r.lo, r.hi⟩
    unfold stop; omega
  · rw [hlist, List.pairwise_map]
    refine hs.refines.apart.imp_of_mem fun {r q} hr hq hap => ?_
    rw [hend r hr, hend q hq]
    exact hap
  · refine hs.distinct.imp_of_mem fun {l m} hl hm hne => ?_
    obtain ⟨r, hr, -, y, hp, hy, hlt⟩ := hs.live l hl
    obtain ⟨q, hq, -, z, hp', hz, hlt'⟩ := hs.live m hm
    unfold Outside
    rw [hp, hp', hs.refines.ksize_eq hr hy hlt, hs.refines.ksize_eq hq hz hlt']
    dsimp only
    rcases hs.refines.block_disjoint hr hq hy hz with ⟨-, rfl, -⟩ | h | h
    · exact absurd (hp.trans hp'.symm) hne
    · dsimp only at h; omega
    · dsimp only at h; omega
  · obtain ⟨r, hr, -, y, hp, hy, hlt⟩ := hs.live l hl
    have h1 := hy.aligned
    have h2 := hs.asked l hl
    have h3 := hle l hl
    have h4 := MALLOC_ALIGN_spec (p := l.asked) (by omega)
    rw [hp, hs.refines.ksize_eq hr hy hlt]
    exact ⟨by omega, by dsimp only; omega, rfl⟩

/-- **Heap safety**: from `heap_setup` on, every state that clients reach is safe, whatever the
frame allocator and the page tables answer. -/
theorem heap_safe (L : Layout) (B : Backing σ) (h₀ : Heap σ) (ops : List HeapOp) (s : Client σ)
    (h : Run (heapStep L B) ⟨heapSetup h₀, []⟩ ops s) : HeapSafe L s := by
  have hinit : SafeRun L (⟨heapSetup h₀, []⟩ : Client σ) :=
    ⟨⟨[], ⟨rfl, by simp, .nil, by simp⟩, by simp, by simp, .nil⟩, by simp⟩
  obtain ⟨⟨rs, hrs⟩, hle⟩ := h.invariant (SafeRun L) (fun _ _ _ hs hstep => hs.step hstep) hinit
  exact hrs.safe hle

/-- Frames and tables that always succeed. -/
def Backing.always : Backing Unit where
  getPhysBlock _ _ := (0x500000, ())
  freePhysBlock _ _ _ := ()
  pageMap _ _ _ _ := (0, ())
  pageMapRange _ _ _ _ _ := (0, ())
  pageGetPhys _ _ := (0x500000, ())
  word _ _ := 0xDEADBEEF

/-- A heap with no region, over those. -/
def Heap.blank : Heap Unit := heapSetup ⟨fun _ => 0xDEADBEEF, fun _ => 0, [], ()⟩

/-- Two allocations and the release of the first. -/
theorem heap_safe_two_regions :
    let h₁ := kmalloc .sample .always 100 .blank
    let h₂ := vmalloc .sample .always 5000 h₁.2
    HeapSafe .sample ⟨kfree .sample .always 0xC0780030 h₂.2,
      forget 0xC0780030 (record 1 5000 h₂.1 h₂.2 (record 0 100 h₁.1 h₁.2 []))⟩ := by
  intro h₁ h₂
  have hp : h₁.1 = 0xC0780030 := by decide +kernel
  have hq : h₂.1 ≠ 0 := by decide +kernel
  refine heap_safe .sample .always _ [.kmalloc 100, .vmalloc 5000, .kfree 0xC0780030] _
    (.cons (t := ⟨h₁.2, record 0 100 h₁.1 h₁.2 []⟩) ⟨by decide, rfl, rfl⟩
      (.cons (t := ⟨h₂.2, record 1 5000 h₂.1 h₂.2 (record 0 100 h₁.1 h₁.2 [])⟩)
        ⟨by decide, rfl, rfl⟩ (.single ⟨.inr ?_, rfl, rfl⟩)))
  refine ⟨⟨0xC0780030, 100, 0, ksize h₁.1 h₁.2⟩, ?_, rfl, rfl⟩
  show _ ∈ record 1 5000 h₂.1 h₂.2 (record 0 100 h₁.1 h₁.2 [])
  rw [record, if_neg hq, record, hp, if_neg (by decide)]
  simp

end Moonlight
