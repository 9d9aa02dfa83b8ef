import MoonlightKernel.Heap.GiveBack
import MoonlightKernel.Heap.Sizes

/-!
# No short blocks

An allocation that returns a pointer has found a block that holds the bytes asked for, and the
regions of the list keep their headers (`SoundResult`).  The exception are the last fifteen
sizes, which `MALLOC_ALIGN` rounds to zero.

* `Refines.soundResult` — one allocation, from what it does to the regions;
* `no_short_blocks` — every state of a run in which no request loses its region size.  A lost
  size sets up a region of no pages at the start of the window, over the headers that are there.
-/

set_option autoImplicit false

namespace Moonlight

open Sys Sys.Bitmap Sys.Tiling Region

variable {L : Layout} {σ : Type}

/-- Region `e` has its headers as before: the same size and kind, and blocks that tile it with
every used block in its place. -/
structure HeadersKept (h h' : Heap σ) (e : Nat) : Prop where
  listed : e ∈ h'.heapList
  pageSize : low31 (h'.mem e) = low31 (h.mem e)
  kind : top1 (h'.mem e) = top1 (h.mem e)
  tiled : ∀ bs, Tiles headerSize h.mem.header (e + heapListSize) bs →
    span headerSize bs = low31 (h.mem e) →
    ∃ bs', Tiles headerSize h'.mem.header (e + heapListSize) bs' ∧
      span headerSize bs' = low31 (h'.mem e) ∧
      ∀ y s, At headerSize (e + heapListSize) bs y ⟨s, false⟩ →
        At headerSize (e + heapListSize) bs' y ⟨s, false⟩

/-- The pointer `p` is a block of at least `n` bytes, and the regions keep their headers. -/
structure SoundResult (n p : Nat) (h h' : Heap σ) : Prop where
  size : n ≤ ksize p h'
  headers : ∀ e ∈ h.heapList, HeadersKept h h' e

/-! ## One allocation -/

/-- Two descriptions of the same region before and after. -/
theorem headersKept_of_shown {h h' : Heap σ} {r r' : Region L} (hr : r.Shown h.mem)
    (hr' : r'.Shown h'.mem) (hlist : r'.base ∈ h'.heapList) (hbase : r'.base = r.base)
    (hsize : r'.size = r.size) (hkind : r'.virtual = r.virtual)
    (hused : ∀ y s, r.Has y ⟨s, false⟩ → r'.Has y ⟨s, false⟩) : HeadersKept h h' r.base := by
  refine ⟨hbase ▸ hlist, ?_, ?_, fun bs hbs hspan => ⟨r'.blocks, ?_, ?_, fun y s hy => ?_⟩⟩
  · rw [hr.pageSize, ← hbase, hr'.pageSize, hsize]
  · rw [hr.kind, ← hbase, hr'.kind, hkind]
  · rw [← hbase]; exact hr'.tiles
  · rw [← hbase, hr'.pageSize]; rfl
  · -- memory tiles the region in one way
    obtain rfl : bs = r.blocks := hbs.unique (by decide) hr.tiles (hspan.trans hr.pageSize)
    have := hused y s hy
    unfold Has at this
    rwa [hbase] at this

theorem HeadersKept.refl {h h' : Heap σ} {r : Region L} (hr : r.Shown h.mem) (hr' : r.Shown h'.mem)
    (hlist : r.base ∈ h'.heapList) : HeadersKept h h' r.base :=
  headersKept_of_shown hr hr' hlist rfl rfl rfl fun _ _ h => h

/-- Every region of the heap before is one of the heap after, with its used blocks. -/
theorem Refines.headersKept {Grow : Nat → Nat → σ → σ → Prop} {h h' : Heap σ}
    {rs rs' : List (Region L)} {virtual n p : Nat} (hh : Refines h rs) (hh' : Refines h' rs')
    (ha : Allocated Grow virtual n h rs p h' rs') : ∀ e ∈ h.heapList, HeadersKept h h' e := by
  intro e he
  rw [hh.list] at he
  obtain ⟨r, hr, rfl⟩ := List.mem_map.mp he
  have hmem : ∀ s ∈ rs', s.base ∈ h'.heapList := fun s hs => by
    rw [hh'.list]; exact List.mem_map_of_mem hs
  have hsame : r ∈ rs' → HeadersKept h h' r.base := fun hr' =>
    .refl (hh.shown r hr) (hh'.shown r hr') (hmem r hr')
  cases ha with
  | failed => exact hsame hr
  | kept => exact hsame (List.mem_cons_of_mem _ hr)
  | grown => exact hsame (List.mem_cons_of_mem _ hr)
  | @served l t q q' bl bt b _ hrs hv hfit hhand hbm hlow =>
    subst hrs
    rcases mem_append_cons.mp hr with rfl | hr
    · have hq' : q' ∈ l ++ q' :: t := by simp
      exact headersKept_of_shown (hh.shown r (by simp)) (hh'.shown q' hq') (hmem q' hq') hhand.base
        hhand.size_eq hhand.virtual fun y s hy => (hhand.has_used_iff y s).mpr (.inl hy)
    · exact hsame (mem_append_cons.mpr (.inr hr))

/-- The block behind the pointer has the rounded size at least. -/
theorem Refines.le_ksize {Grow : Nat → Nat → σ → σ → Prop} {h h' : Heap σ}
    {rs rs' : List (Region L)} {virtual n p : Nat} (hh' : Refines h' rs')
    (ha : Allocated Grow virtual n h rs p h' rs') (hp : p ≠ 0) : MALLOC_ALIGN n ≤ ksize p h' := by
  have hnew : ∀ {l t : List (Region L)} {r r' : Region L} {bl bt : List Block} {b : Block},
      Refines h' (l ++ r' :: t) → Handed (MALLOC_ALIGN n) r r' bl b bt →
      MALLOC_ALIGN n ≤ ksize (r.base + 32 + span 16 bl + 16) h' := by
    intro l t r r' bl bt b hh' hhand
    obtain ⟨s, hs, hhas⟩ := hhand.has_new
    have hlt : r.base + 32 + span 16 bl < r'.base + r'.size := by
      rw [hhand.base, hhand.size_eq]; exact hhand.seen
    rw [hh'.ksize_eq (r := r') (by simp) hhas hlt]
    exact hs
  cases ha with
  | failed => exact absurd rfl hp
  | kept => exact absurd rfl hp
  | served _ _ _ _ hhand => exact hnew hh' hhand
  | grown _ _ _ _ hhand => exact hnew (l := []) hh' hhand

theorem ksize_lt (p : Nat) (h : Heap σ) : ksize p h < 2 ^ 31 := by
  unfold ksize
  split
  · exact Nat.mod_lt _ (by decide)
  · decide

/-- **One allocation** that returns a pointer is sound unless its size was rounded to zero. -/
theorem Refines.soundResult_iff {Grow : Nat → Nat → σ → σ → Prop} {h h' : Heap σ}
    {rs rs' : List (Region L)} {virtual n p : Nat} (hh : Refines h rs) (hh' : Refines h' rs')
    (ha : Allocated Grow virtual n h rs p h' rs') (hp : p ≠ 0) :
    SoundResult n p h h' ↔ n ≤ 2 ^ 32 - 16 := by
  constructor
  · intro hs
    have := hs.size
    have := ksize_lt p h'
    omega
  · intro hn
    refine ⟨?_, hh.headersKept hh' ha⟩
    have := hh'.le_ksize ha hp
    rw [MALLOC_ALIGN_of_le hn] at this
    omega

/-! ## Runs -/

/-- One step, with requests of any size. -/
def requestStep (L : Layout) (B : Backing σ) (s : Client σ) : HeapOp → Client σ → Prop
  | .kmalloc n, t => n < 2 ^ 32 ∧ t.heap = (kmalloc L B n s.heap).2 ∧
      t.live = record 0 n (kmalloc L B n s.heap).1 t.heap s.live
  | .vmalloc n, t => n < 2 ^ 32 ∧ t.heap = (vmalloc L B n s.heap).2 ∧
      t.live = record 1 n (vmalloc L B n s.heap).1 t.heap s.live
  | op, t => heapStep L B s op t

/-- The step is no request that loses its region size. -/
def NotLost : HeapOp → Prop
  | .kmalloc n => ¬ Lost n
  | .vmalloc n => ¬ Lost n
  | _ => True

/-- Such a step keeps the invariant of the heap. -/
theorem SafeInv.requestStep {B : Backing σ} {s t : Client σ} {op : HeapOp} {rs : List (Region L)}
    (hs : SafeInv s rs) (h : requestStep L B s op t) (hop : NotLost op) :
    ∃ rs' : List (Region L), SafeInv t rs' := by
  obtain ⟨th, tl⟩ := t
  cases op with
  | kmalloc n =>
    obtain ⟨hn, hth, htl⟩ := h
    dsimp only at hth htl
    subst hth htl
    obtain ⟨rs', hh', ha⟩ := kmalloc_simulates hs.refines B ((requestable_iff hn).mpr hop)
    exact ⟨rs', hs.allocated hh' ha⟩
  | vmalloc n =>
    obtain ⟨hn, hth, htl⟩ := h
    dsimp only at hth htl
    subst hth htl
    obtain ⟨rs', hh', ha⟩ := vmalloc_simulates hs.refines B ((requestable_iff hn).mpr hop)
    exact ⟨rs', hs.allocated hh' ha⟩
  | kfree p => exact hs.step (show heapStep L B s (.kfree p) _ from h)
  | vfree p => exact hs.step (show heapStep L B s (.vfree p) _ from h)
  | store => exact hs.step (show heapStep L B s .store _ from h)
  | other => exact hs.step (show heapStep L B s .other _ from h)

/-- A request that loses its region size is refused. -/
theorem huge_of_lost {n : Nat} (h : Lost n) : 2 ^ 31 ≤ MALLOC_ALIGN n := by
  unfold Lost at h
  rw [MALLOC_ALIGN_of_le (by omega)]
  omega

/-- **No short blocks**: in every state that a run without lost sizes reaches, whatever the frame
allocator and the page tables answer, an allocation that returns a pointer is sound exactly when
`MALLOC_ALIGN` does not wrap on its size. -/
theorem no_short_blocks (L : Layout) (B : Backing σ) (h₀ : Heap σ) (ops : List HeapOp)
    (s : Client σ) (hrun : Run (fun s op t => requestStep L B s op t ∧ NotLost op)
      ⟨heapSetup h₀, []⟩ ops s) (n : Nat) (hn : n < 2 ^ 32) :
    ((kmalloc L B n s.heap).1 ≠ 0 →
      (SoundResult n (kmalloc L B n s.heap).1 s.heap (kmalloc L B n s.heap).2 ↔
        n ≤ 2 ^ 32 - 16)) ∧
    ((vmalloc L B n s.heap).1 ≠ 0 →
      (SoundResult n (vmalloc L B n s.heap).1 s.heap (vmalloc L B n s.heap).2 ↔
        n ≤ 2 ^ 32 - 16)) := by
  have hinit : SafeInv (⟨heapSetup h₀, []⟩ : Client σ) ([] : List (Region L)) :=
    ⟨⟨rfl, by simp, .nil, by simp⟩, by simp, by simp, .nil⟩
  obtain ⟨rs, hs⟩ := hrun.invariant (fun s => ∃ rs : List (Region L), SafeInv s rs)
    (fun s op t hs hstep => hs.elim fun _ hs => hs.requestStep hstep.1 hstep.2) ⟨[], hinit⟩
  have hreq : ∀ {p : Nat}, (2 ^ 31 ≤ MALLOC_ALIGN n → p = 0) → p ≠ 0 → Requestable n :=
    fun hhuge hp => (requestable_iff hn).mpr fun hl => hp (hhuge (huge_of_lost hl))
  constructor
  · intro hp
    obtain ⟨rs', hh', ha⟩ :=
      kmalloc_simulates hs.refines B (hreq (fun h => kmalloc_huge h B s.heap) hp)
    exact hs.refines.soundResult_iff hh' ha hp
  · intro hp
    obtain ⟨rs', hh', ha⟩ :=
      vmalloc_simulates hs.refines B (hreq (fun h => vmalloc_huge h B s.heap) hp)
    exact hs.refines.soundResult_iff hh' ha hp

/-- The largest size gets a block of no bytes. -/
theorem largest_size_gets_empty_block :
    let r := kmalloc .sample (machineBacking .sample fun _ _ => 0) (2 ^ 32 - 1) Client.sample.heap
    r.1 ≠ 0 ∧ ksize r.1 r.2 = 0 ∧
      ¬ SoundResult (2 ^ 32 - 1) r.1 Client.sample.heap r.2 := by
  intro r
  have hp : r.1 ≠ 0 := by decide +kernel
  have hk : ksize r.1 r.2 = 0 := by decide +kernel
  refine ⟨hp, hk, fun h => ?_⟩
  have hsize := h.size
  rw [hk] at hsize
  exact absurd hsize (by decide)

theorem run_afterAlloc {n : Nat} (hn : n < 2 ^ 32) (hlost : ¬ Lost n) :
    Run (fun s op t => requestStep .sample (machineBacking .sample fun _ _ => 0) s op t ∧
      NotLost op) Client.sample [.kmalloc n] (afterAlloc n) :=
  .single ⟨⟨hn, rfl, rfl⟩, hlost⟩

/-- After an allocation of 100 bytes, one of 5000 is sound. -/
theorem second_block_is_sound :
    SoundResult 5000
      (kmalloc .sample (machineBacking .sample fun _ _ => 0) 5000 (afterAlloc 100).heap).1
      (afterAlloc 100).heap
      (kmalloc .sample (machineBacking .sample fun _ _ => 0) 5000 (afterAlloc 100).heap).2 := by
  have hp : (kmalloc .sample (machineBacking .sample fun _ _ => 0) 5000
      (afterAlloc 100).heap).1 ≠ 0 := by decide +kernel
  exact ((no_short_blocks .sample (machineBacking .sample fun _ _ => 0)
    ⟨fun _ => 0, fun _ => 0, [], .clean⟩ [.kmalloc 100] (afterAlloc 100)
    (run_afterAlloc (by decide) (by decide)) 5000 (by decide)).1 hp).mpr (by decide)

end Moonlight
