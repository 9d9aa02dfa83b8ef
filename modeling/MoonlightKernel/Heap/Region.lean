import Mathlib.Tactic.Tauto
import MoonlightKernel.Heap.Refine

/-!
# The regions of the heap

`Region` is a region with the facts that never change as fields: block sizes are multiples of
16, the region is a whole number of pages and lies in the heap window.  `Refines h rs` connects
the faithful heap `h` with a list of regions `rs`: memory shows each of them, they do not
overlap, and their pages are taken in `mm_virt_heap`.

* `entryFit_spec`, `firstFitHead_spec` — how an allocation is served (`Handed`);
* `lookup_used` — where `_free` and `ksize` find a used block;
* `Refines.update`, `Refines.insert`, `Refines.remove` — the three changes of the region list.
-/

set_option autoImplicit false

namespace Moonlight

open Sys Sys.Bitmap Sys.Tiling

theorem HEAP_START_bounds (L : Layout) :
    HEAP_START L % 4096 = 0 ∧ 0x400000 ≤ HEAP_START L ∧ HEAP_END L < 0xC1801000 ∧
      HEAP_END L = HEAP_START L + 0x1000000 := by
  have h1 := L.kernelEnd_le
  have h2 := PAGE_ALIGN_spec (p := L.kernelEnd) (by omega)
  unfold HEAP_END HEAP_START HEAP_SIZE
  omega

/-- The bit of `mm_virt_heap` for the page of `a`. -/
def heapPage (L : Layout) (a : Nat) : Nat := (a - HEAP_START L) / 4096

/-- A region of the heap: its address, its kind and its blocks. -/
structure Region (L : Layout) where
  base : Nat
  virtual : Nat
  blocks : List Block
  sizes : ∀ b ∈ blocks, 16 ∣ b.size
  aligned : base % 4096 = 0
  pages : (32 + span 16 blocks) % 4096 = 0
  lo : HEAP_START L ≤ base
  hi : base + 32 + span 16 blocks ≤ HEAP_END L

namespace Region

variable {L : Layout}

/-- `page_size`. -/
def size (r : Region L) : Nat := span 16 r.blocks

/-- The end of the region's pages. -/
def stop (r : Region L) : Nat := r.base + 32 + r.size

/-- The region has a block `b` with its header at `y`. -/
def Has (r : Region L) (y : Nat) (b : Block) : Prop := At 16 (r.base + 32) r.blocks y b

/-- The same region with other blocks. -/
def withBlocks (r : Region L) (bs : List Block) (hspan : span 16 bs = r.size)
    (hsizes : ∀ b ∈ bs, 16 ∣ b.size) : Region L where
  base := r.base
  virtual := r.virtual
  blocks := bs
  sizes := hsizes
  aligned := r.aligned
  pages := by rw [hspan]; exact r.pages
  lo := r.lo
  hi := by rw [hspan]; exact r.hi

/-- Two regions share no address. -/
def Apart (r s : Region L) : Prop := r.stop ≤ s.base ∨ s.stop ≤ r.base

/-- Memory holds the region's `heap_list` and its headers. -/
structure Shown (r : Region L) (mem : Mem) : Prop where
  pageSize : low31 (mem r.base) = r.size
  kind : top1 (mem r.base) = r.virtual
  tiles : Tiles 16 mem.header (r.base + 32) r.blocks

theorem size_bounds (r : Region L) : 4064 ≤ r.size ∧ r.size % 4096 = 4064 ∧ r.size < 2 ^ 31 := by
  have h1 := r.pages
  have h2 := r.hi
  have h3 := HEAP_START_bounds L
  have h4 := r.lo
  unfold size
  omega

theorem base_lt_stop (r : Region L) : r.base < r.stop := by unfold stop; omega

/-- Regions lie in the heap window, so the end of a walk does not wrap. -/
theorem Shown.walkEnd_eq {r : Region L} {mem : Mem} (h : r.Shown mem) :
    walkEnd r.base mem = r.base + r.size := by
  have hhi := r.hi
  have hL := HEAP_START_bounds L
  have hlt : r.base + r.size < 2 ^ 32 := by unfold size; omega
  rw [walkEnd, h.pageSize, add32_of_lt hlt]

theorem Has.bounds {r : Region L} {y : Nat} {b : Block} (h : r.Has y b) :
    r.base + 32 ≤ y ∧ y + 16 + b.size ≤ r.stop := At.bounds h

theorem Has.aligned {r : Region L} {y : Nat} {b : Block} (h : r.Has y b) : y % 16 = 0 := by
  obtain ⟨l, t, hl, rfl⟩ := At.split h
  have hdvd : ∀ {l : List Block}, (∀ c ∈ l, 16 ∣ c.size) → span 16 l % 16 = 0 := by
    intro l
    induction l with
    | nil => intro _; rfl
    | cons c l ih =>
      intro hc
      obtain ⟨h1, h2⟩ := List.forall_mem_cons.mp hc
      have := ih h2
      rw [span_cons]; omega
  have := r.aligned
  have := hdvd fun c hc => r.sizes c (hl ▸ List.mem_append_left _ hc)
  omega

theorem Apart.symm {r s : Region L} (h : r.Apart s) : s.Apart r := h.elim .inr .inl

/-- Memory that differs away from the headers shows the same region. -/
theorem Shown.congr {r : Region L} {mem mem' : Mem} (h : r.Shown mem)
    (hbase : mem' r.base = mem r.base) (hhd : ∀ y b, r.Has y b → mem' y = mem y) :
    r.Shown mem' where
  pageSize := by rw [hbase]; exact h.pageSize
  kind := by rw [hbase]; exact h.kind
  tiles := h.tiles.congr fun y b hy => header_congr (hhd y b hy)

/-- Memory shows the region with its new blocks once it holds their headers. -/
theorem Shown.withBlocks {r : Region L} {mem mem' : Mem} {bs : List Block} (h : r.Shown mem)
    (hspan : span 16 bs = r.size) (hsizes : ∀ b ∈ bs, 16 ∣ b.size)
    (ht : Tiles 16 mem'.header (r.base + 32) bs) (hbase : mem' r.base = mem r.base) :
    (r.withBlocks bs hspan hsizes).Shown mem' where
  pageSize := (congrArg low31 hbase).trans (h.pageSize.trans hspan.symm)
  kind := (congrArg top1 hbase).trans h.kind
  tiles := ht

/-- A change in one region does not touch another. -/
theorem Shown.of_apart {r s : Region L} {mem mem' : Mem} (h : s.Shown mem) (hrs : r.Apart s)
    (heq : ∀ a, (a < r.base ∨ r.stop ≤ a) → mem' a = mem a) : s.Shown mem' := by
  refine h.congr (heq _ ?_) fun y b hy => heq _ ?_
  · have h1 := r.base_lt_stop
    have h2 := s.base_lt_stop
    unfold Apart at hrs; omega
  · have h1 := r.base_lt_stop
    have h2 := hy.bounds
    unfold Apart at hrs; omega

end Region

open Region

variable {L : Layout}

/-! ## Allocation in a region -/

/-- Region `r` becomes `r'` when `allocSize` bytes of the free block `b` behind the blocks `l`
are handed out; `t` are the blocks after `b`. -/
structure Handed (allocSize : Nat) (r r' : Region L) (l : List Block) (b : Block)
    (t : List Block) : Prop where
  before : r.blocks = l ++ b :: t
  after : r'.blocks = l ++ (splitBlock 16 32 allocSize b.size ++ t)
  free : b.free = true
  fits : allocSize < b.size
  seen : r.base + 32 + span 16 l < r.base + r.size
  base : r'.base = r.base
  virtual : r'.virtual = r.virtual
  aligned : allocSize % 16 = 0

namespace Handed

variable {allocSize : Nat} {r r' : Region L} {l t : List Block} {b : Block}

theorem dvd (h : Handed allocSize r r' l b t) : 16 ∣ b.size :=
  r.sizes b (by rw [h.before]; simp)

theorem span_split (h : Handed allocSize r r' l b t) :
    span 16 (splitBlock 16 32 allocSize b.size) = 16 + b.size := by
  have h1 := h.dvd
  have h2 := h.fits
  have h3 := h.aligned
  exact span_splitBlock (by omega)

theorem size_eq (h : Handed allocSize r r' l b t) : r'.size = r.size := by
  rw [size, size, h.before, h.after, span_append, span_append, span_append, span_cons,
    h.span_split]

theorem stop_eq (h : Handed allocSize r r' l b t) : r'.stop = r.stop := by
  rw [stop, stop, h.size_eq, h.base]

/-- The used blocks afterwards are those of before and the one handed out. -/
theorem has_used_iff (h : Handed allocSize r r' l b t) (y s : Nat) :
    r'.Has y ⟨s, false⟩ ↔ r.Has y ⟨s, false⟩ ∨
      y = r.base + 32 + span 16 l ∧ s = if 32 < b.size then allocSize else b.size := by
  have hne : (⟨s, false⟩ : Block) ≠ b := by
    intro he; have := h.free; rw [← he] at this; exact Bool.noConfusion this
  rw [Has, Has, h.before, h.after, h.base, at_append, at_append, at_append, h.span_split, at_cons]
  simp only [hne, and_false, false_or, ← Nat.add_assoc]
  unfold splitBlock
  split
  · simp only [at_cons, Block.mk.injEq, and_true, Bool.false_eq_true, and_false, at_nil, or_false]
    tauto
  · simp only [at_cons, Block.mk.injEq, and_true, at_nil, or_false]
    tauto

end Handed

/-- **`try_allocate`** finds nothing in a region, or it hands out a part of the first block that
is large enough, and writes inside the region only. -/
theorem entryFit_spec {r : Region L} {mem : Mem} (hr : r.Shown mem) (n : Nat) :
    entryFit r.base n mem = none ∨
      ∃ r' l b t, Handed (MALLOC_ALIGN n) r r' l b t ∧
        entryFit r.base n mem = some (r.base + 32 + span 16 l) ∧
        r'.Shown (place (MALLOC_ALIGN n) (r.base + 32 + span 16 l) mem) ∧
        ∀ a, (a < r.base + 32 ∨ r.stop ≤ a) →
          place (MALLOC_ALIGN n) (r.base + 32 + span 16 l) mem a = mem a := by
  have hsz := r.size_bounds
  unfold entryFit
  rw [hr.walkEnd_eq, hr.pageSize, heapListSize]
  rcases @fitHead_spec (r.base + r.size) (MALLOC_ALIGN n) mem r.blocks r.size (r.base + 32)
    hr.tiles (by unfold size; omega) (by unfold size; omega) with h | ⟨l, b, t, hbs, h, hb, hA, hlt⟩
  · exact .inl h
  · have hdvd : 16 ∣ b.size := r.sizes b (by rw [hbs]; simp)
    have hA16 := MALLOC_ALIGN_mod n
    have hspan : r.size = span 16 l + (16 + b.size + span 16 t) := by
      rw [size, hbs, span_append, span_cons]
    have ht := hr.tiles
    rw [hbs] at ht
    obtain ⟨h1, h2⟩ := place_spec ht hA hA16 hdvd (by omega)
    have hsp : span 16 (splitBlock 16 32 (MALLOC_ALIGN n) b.size) = 16 + b.size :=
      span_splitBlock (by omega)
    have hspan' : span 16 (l ++ (splitBlock 16 32 (MALLOC_ALIGN n) b.size ++ t)) = r.size := by
      rw [span_append, span_append, hsp, hspan, Nat.add_assoc]
    have hsizes : ∀ c ∈ l ++ (splitBlock 16 32 (MALLOC_ALIGN n) b.size ++ t), 16 ∣ c.size := by
      intro c hc
      rcases List.mem_append.mp hc with hc | hc
      · exact r.sizes c (by rw [hbs]; exact List.mem_append_left _ hc)
      · rcases List.mem_append.mp hc with hc | hc
        · exact dvd_size_splitBlock (by decide) (Nat.dvd_of_mod_eq_zero hA16) hdvd c hc
        · exact r.sizes c (by rw [hbs]; simp [hc])
    refine .inr ⟨r.withBlocks _ hspan' hsizes, l, b, t, ⟨hbs, rfl, hb, hA, hlt, rfl, rfl, hA16⟩,
      h, hr.withBlocks hspan' hsizes h1 (h2 _ (by omega)), fun a ha => h2 a ?_⟩
    unfold stop at ha
    omega

/-! ## The heap and its regions -/

/-- The heap `h` is a heap with the regions `rs`. -/
structure Refines {σ : Type} (h : Heap σ) (rs : List (Region L)) : Prop where
  list : h.heapList = rs.map base
  shown : ∀ r ∈ rs, r.Shown h.mem
  apart : rs.Pairwise Apart
  taken : ∀ r ∈ rs, ∀ a, r.base ≤ a → a < r.stop → isSet h.mmVirtHeap (heapPage L a) = false

/-- Replace one element of a list of pairwise unrelated regions. -/
theorem pairwise_update {l t : List (Region L)} {r r' : Region L}
    (h : (l ++ r :: t).Pairwise Apart) (hbase : r'.base = r.base) (hstop : r'.stop = r.stop) :
    (l ++ r' :: t).Pairwise Apart := by
  have hap : ∀ s : Region L, (Apart r' s ↔ Apart r s) ∧ (Apart s r' ↔ Apart s r) := fun s => by
    unfold Apart; rw [hbase, hstop]; exact ⟨Iff.rfl, Iff.rfl⟩
  rw [List.pairwise_append, List.pairwise_cons] at h ⊢
  obtain ⟨h1, ⟨h2, h3⟩, h4⟩ := h
  refine ⟨h1, ⟨fun s hs => (hap s).1.mpr (h2 s hs), h3⟩, fun s hs => ?_⟩
  exact List.forall_mem_cons.mpr ⟨(hap s).2.mpr (h4 s hs r List.mem_cons_self),
    fun u hu => h4 s hs u (List.mem_cons_of_mem _ hu)⟩

theorem apart_of_mem {l t : List (Region L)} {r : Region L} (h : (l ++ r :: t).Pairwise Apart) :
    ∀ s, (s ∈ l ∨ s ∈ t) → Apart r s := by
  rw [List.pairwise_append, List.pairwise_cons] at h
  obtain ⟨h1, ⟨h2, h3⟩, h4⟩ := h
  exact fun s hs => hs.elim (fun hs => (h4 s hs r List.mem_cons_self).symm) (h2 s)

theorem mem_append_cons {α : Type*} {l t : List α} {r s : α} :
    s ∈ l ++ r :: t ↔ s = r ∨ s ∈ l ∨ s ∈ t := by
  rw [List.mem_append, List.mem_cons]; tauto

namespace Refines

variable {σ : Type} {h : Heap σ} {rs l t : List (Region L)} {r r' : Region L}

/-- Bits of `mm_virt_heap` that are set additionally do not matter. -/
theorem congr (hh : Refines h rs) {h' : Heap σ} (hl : h'.heapList = h.heapList)
    (hm : ∀ r ∈ rs, r.Shown h'.mem)
    (ht : ∀ q, isSet h.mmVirtHeap q = false → isSet h'.mmVirtHeap q = false) : Refines h' rs :=
  ⟨hl.trans hh.list, hm, hh.apart, fun r hr a h1 h2 => ht _ (hh.taken r hr a h1 h2)⟩

/-- One region changes its blocks. -/
theorem update (hh : Refines h (l ++ r :: t)) {h' : Heap σ} (hbase : r'.base = r.base)
    (hstop : r'.stop = r.stop) (hl : h'.heapList = h.heapList)
    (hbm : h'.mmVirtHeap = h.mmVirtHeap) (hshown : r'.Shown h'.mem)
    (hmem : ∀ a, (a < r.base ∨ r.stop ≤ a) → h'.mem a = h.mem a) :
    Refines h' (l ++ r' :: t) := by
  have hap := apart_of_mem hh.apart
  refine ⟨?_, fun s hs => ?_, pairwise_update hh.apart hbase hstop, fun s hs a h1 h2 => ?_⟩
  · rw [hl, hh.list]; simp [hbase]
  · rcases mem_append_cons.mp hs with rfl | hs
    · exact hshown
    · exact (hh.shown s (mem_append_cons.mpr (.inr hs))).of_apart (hap s hs) hmem
  · rw [hbm]
    rcases mem_append_cons.mp hs with rfl | hs
    · exact hh.taken r (by simp) a (hbase ▸ h1) (hstop ▸ h2)
    · exact hh.taken s (mem_append_cons.mpr (.inr hs)) a h1 h2

/-- A region is added in front. -/
theorem insert (hh : Refines h rs) {h' : Heap σ} (hl : h'.heapList = r.base :: h.heapList)
    (hap : ∀ s ∈ rs, r.Apart s) (hshown : r.Shown h'.mem)
    (hmem : ∀ a, (a < r.base ∨ r.stop ≤ a) → h'.mem a = h.mem a)
    (hbm : ∀ q, isSet h.mmVirtHeap q = false → isSet h'.mmVirtHeap q = false)
    (htaken : ∀ a, r.base ≤ a → a < r.stop → isSet h'.mmVirtHeap (heapPage L a) = false) :
    Refines h' (r :: rs) := by
  refine ⟨by rw [hl, hh.list]; rfl, ?_, .cons hap hh.apart, ?_⟩
  · exact List.forall_mem_cons.mpr
      ⟨hshown, fun s hs => (hh.shown s hs).of_apart (hap s hs) hmem⟩
  · exact List.forall_mem_cons.mpr ⟨htaken, fun s hs a h1 h2 => hbm _ (hh.taken s hs a h1 h2)⟩

/-- A region is removed and its pages are given back. -/
theorem remove (hh : Refines h (l ++ r :: t)) {h' : Heap σ}
    (hl : h'.heapList = h.heapList.erase r.base)
    (hmem : ∀ a, (a < r.base ∨ r.stop ≤ a) → h'.mem a = h.mem a)
    (hbm : ∀ q, ¬ (heapPage L r.base ≤ q ∧ q < heapPage L r.stop) →
      isSet h'.mmVirtHeap q = isSet h.mmVirtHeap q) :
    Refines h' (l ++ t) := by
  have hap := apart_of_mem hh.apart
  have hsub : (l ++ t).Sublist (l ++ r :: t) := by simp
  have hmem' : ∀ s ∈ l ++ t, s ∈ l ∨ s ∈ t := fun s hs => List.mem_append.mp hs
  refine ⟨?_, fun s hs => ?_, hh.apart.sublist hsub, fun s hs a h1 h2 => ?_⟩
  · have hnot : r.base ∉ l.map base := fun hc => by
      obtain ⟨s, hs, he⟩ := List.mem_map.mp hc
      have h1 := hap s (.inl hs)
      have h2 := s.base_lt_stop
      have h3 := r.base_lt_stop
      unfold Apart at h1
      omega
    rw [hl, hh.list, List.map_append, List.map_cons, List.erase_append_right _ hnot,
      List.erase_cons_head, ← List.map_append]
  · exact (hh.shown s (hsub.mem hs)).of_apart (hap s (hmem' s hs)) hmem
  · have h3 := hap s (hmem' s hs)
    have h4 := s.lo
    have h5 := r.lo
    have h6 := r.aligned
    have h7 := s.aligned
    have h8 := HEAP_START_bounds L
    have h9 := r.size_bounds
    have h10 := s.size_bounds
    rw [hbm _ ?_]
    · exact hh.taken s (hsub.mem hs) a h1 h2
    · unfold heapPage
      unfold Apart stop at h3
      unfold stop at h2 ⊢
      omega

end Refines

/-! ## The two searches through the list -/

/-- The search of `kmalloc` and `vmalloc` stops in the first region of the right kind in which
`try_allocate` succeeds. -/
theorem firstFitHead_spec (virtual n : Nat) {mem : Mem} : ∀ {rs : List (Region L)},
    (∀ r ∈ rs, r.Shown mem) → firstFitHead virtual n mem (rs.map base) = none ∨
      ∃ l r t y, rs = l ++ r :: t ∧ r.virtual = virtual ∧ entryFit r.base n mem = some y ∧
        firstFitHead virtual n mem (rs.map base) = some (r.base, y) := by
  intro rs
  induction rs with
  | nil => intro _; exact .inl rfl
  | cons r rs ih =>
    intro hshown
    obtain ⟨hr, hrs⟩ := List.forall_mem_cons.mp hshown
    rw [List.map_cons, firstFitHead, hr.kind, hr.pageSize]
    split
    · rename_i hv
      cases hfit : entryFit r.base n mem with
      | some y => exact .inr ⟨[], r, rs, y, rfl, hv.1, hfit, rfl⟩
      | none =>
        refine (ih hrs).imp_right fun h => ?_
        obtain ⟨l, s, t, y, rfl, h⟩ := h
        exact ⟨r :: l, s, t, y, rfl, h⟩
    · refine (ih hrs).imp_right fun h => ?_
      obtain ⟨l, s, t, y, rfl, h⟩ := h
      exact ⟨r :: l, s, t, y, rfl, h⟩

/-- **`_free` and `ksize` find the header** of a used block that the walk reaches. -/
theorem lookup_used {mem : Mem} {y : Nat} {b : Block} {r : Region L} :
    ∀ {l t : List (Region L)}, (∀ s ∈ l ++ r :: t, s.Shown mem) →
    (l ++ r :: t).Pairwise Apart → r.Has y b → y < r.base + r.size →
    lookup (y + 16) mem ((l ++ r :: t).map base) = some (r.base, y) := by
  intro l
  induction l with
  | nil =>
    intro t hshown _ hy hlt
    have hr := hshown r (by simp)
    have hb := hy.bounds
    rw [List.nil_append, List.map_cons, lookup, if_pos (by omega), hr.walkEnd_eq, hr.pageSize,
      heapListSize,
      findHead_some hr.tiles (by unfold size; omega) (by unfold size; omega) hy hlt]
  | cons s l ih =>
    intro t hshown hap hy hlt
    have hs := hshown s (by simp)
    obtain ⟨hsap, hap'⟩ := List.pairwise_cons.mp hap
    have hrest := ih (fun u hu => hshown u (List.mem_cons_of_mem _ hu)) hap' hy hlt
    have hrs : s.Apart r := hsap r (by simp)
    have hb := hy.bounds
    have hnone : findHead (s.base + s.size) (y + 16) mem s.size (s.base + 32) = none := by
      refine findHead_none hs.tiles (by unfold size; omega) fun z c hz he => ?_
      have hz' : s.Has z c := hz
      have h1 := hz'.bounds
      unfold Apart at hrs
      omega
    rw [List.cons_append, List.map_cons, lookup, hs.walkEnd_eq, hs.pageSize, heapListSize, hnone]
    split <;> exact hrest

end Moonlight
