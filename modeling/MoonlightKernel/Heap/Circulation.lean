import Mathlib.Algebra.Order.Group.Multiset
import MoonlightKernel.Heap.Failure
import MoonlightKernel.Heap.Release

/-!
# Blocks and frames across calls of `kmalloc` and `kfree`

What do calls for records of a few hundred bytes change, on a heap that has other blocks in it?
Each call keeps the frames that are free or in page tables, together with those under a region,
the same set; a region that is opened on the way goes when its last block does, unless a sliver
was left in it.

* `HeapHeld` — every region has its frames, every used block is live, and every region without
  a sliver has a used block;
* `CallDone` — what one call does to the regions, the blocks and the frames;
* `HeapHeld.kmalloc`, `HeapHeld.kfree` — every call of `kmalloc` for at most 4000 bytes, and
  every `kfree` of a live block, does that;
* `records_heapHeld` — so the heap is held in every run;
* `Stretch` — a run of such calls against its start: regions, frames and slivers;
* `Balance`, `Balance.settled` — and its blocks: who owns them, which are lost, and when all is as
  at the start.
-/

set_option autoImplicit false

namespace Moonlight

open Sys Sys.Bitmap Sys.Tiling Region

variable {L : Layout} {word : Machine → Nat → Nat}

/-! ## Small requests -/

/-- A request that a new region serves from one page, without leaving a sliver. -/
structure Small (n : Nat) : Prop where
  pos : 0 < n
  le : n ≤ 4000

namespace Small

variable {n : Nat}

theorem regionSize (h : Small n) : regionSize n = 4096 := by
  have := h.le
  rw [regionSize_of_le (by omega)]
  omega

theorem pageAlign (h : Small n) : PAGE_ALIGN n = 4096 := by
  have h1 := h.le
  have h2 := h.pos
  rw [PAGE_ALIGN_of_le (by omega)]
  omega

theorem mallocAlign (h : Small n) : MALLOC_ALIGN n ≤ 4000 := by
  have := h.le
  rw [MALLOC_ALIGN_of_le (by omega)]
  omega

theorem requestable (h : Small n) : Requestable n := requestable_of_le (by have := h.le; omega)

theorem opening_leaves_no_sliver (h : Small n) {k : Heap Machine}
    (hnone : firstFitHead 0 n k.mem k.heapList = none) : ¬ LeavesSliver k 0 n := by
  have := h.mallocAlign
  unfold LeavesSliver
  rw [hnone, h.regionSize]
  dsimp only
  omega

end Small

/-- The call leaves a sliver at the end of the region `e`. -/
def SliversIn (h : Heap Machine) (n e : Nat) : Prop :=
  (∃ y, firstFitHead 0 n h.mem h.heapList = some (e, y)) ∧ LeavesSliver h 0 n

theorem not_sliversIn {h : Heap Machine} {n : Nat}
    (hnone : firstFitHead 0 n h.mem h.heapList = none) (e : Nat) : ¬ SliversIn h n e := by
  rintro ⟨⟨y, hy⟩, -⟩
  rw [hnone] at hy
  exact absurd hy (by simp)

/-! ## The calls of a client -/

/-- `kmalloc`, entered among the live results. -/
def Client.kmalloc (L : Layout) (word : Machine → Nat → Nat) (n : Nat) (c : Client Machine) :
    Nat × Client Machine :=
  let r := Moonlight.kmalloc L (machineBacking L word) n c.heap
  (r.1, ⟨r.2, record 0 n r.1 r.2 c.live⟩)

/-- `kfree` of a live result. -/
def Client.kfree (L : Layout) (word : Machine → Nat → Nat) (p : Nat) (c : Client Machine) :
    Client Machine :=
  ⟨Moonlight.kfree L (machineBacking L word) p c.heap, forget p c.live⟩

/-- Frames that are free, in a page table or under a region. -/
def Pooled (L : Layout) (m : Machine) (rs : List (Region L)) (f : Nat) : Prop :=
  Avail m f ∨ ∃ w, Pages rs w ∧ Names L m w f

structure HeapHeld (L : Layout) (c : Client Machine) (rs : List (Region L)) : Prop where
  safe : SafeInv c rs
  holds : Holds L c.heap.low (Pages rs)
  run : ∀ r ∈ rs, r.virtual = 0 → ∃ p, ∀ w, InRun (r.base / 4096) r.pageCount w →
    Names L c.heap.low w (p + (w - r.base / 4096))
  liveUsed : ∀ r ∈ rs, ∀ y m, r.Has y ⟨m, false⟩ → ∃ x ∈ c.live, x.ptr = y + 16
  used : ∀ r ∈ rs, Seen 16 32 r.blocks → ∃ y m, r.Has y ⟨m, false⟩

/-- How the regions `rs` become `rs'`, when the blocks `freed` are given back and a sliver is left
in the regions `slivered`. -/
structure Evolves (freed slivered : Nat → Prop) (rs rs' : List (Region L)) : Prop where
  stays : ∀ r ∈ rs, (∃ r' ∈ rs', SamePlace r r' ∧
      (Seen 16 32 r'.blocks → Seen 16 32 r.blocks) ∧
      ∀ x, ¬ freed x.ptr → LiveAt r x → LiveAt r' x) ∨
    Seen 16 32 r.blocks ∧ ∀ x, LiveAt r x → freed x.ptr
  comes : ∀ r' ∈ rs', ¬ Seen 16 32 r'.blocks →
    slivered r'.base ∨ ∃ r ∈ rs, r.base = r'.base ∧ ¬ Seen 16 32 r.blocks
  leaves : ∀ e, slivered e → ∃ r' ∈ rs', r'.base = e ∧ ¬ Seen 16 32 r'.blocks

structure CallDone (L : Layout) (freed slivered : Nat → Prop) (c : Client Machine)
    (rs : List (Region L)) (c' : Client Machine) (rs' : List (Region L)) : Prop where
  held : HeapHeld L c' rs'
  evolves : Evolves freed slivered rs rs'
  live : ∀ x ∈ c.live, ¬ freed x.ptr → x ∈ c'.live
  names : ∀ w f, Pages rs w → (Names L c'.heap.low w f ↔ Names L c.heap.low w f)
  pooled : ∀ f, Pooled L c'.heap.low rs' f ↔ Pooled L c.heap.low rs f

/-! ## The book of a held heap -/

/-- The pages and frames under the region at `b`. -/
def takenAt (m : Machine) (rs : List (Region L)) (b : Nat) : Taken where
  pages := {q | ∃ r ∈ rs, r.base = b ∧ InRun (heapPage L r.base) r.pageCount q}
  frames := {f | ∃ r ∈ rs, r.base = b ∧ ∃ w, InRun (r.base / 4096) r.pageCount w ∧ Names L m w f}

theorem Refines.eq_of_base {σ : Type} {h : Heap σ} {rs : List (Region L)} (hh : Refines h rs)
    {r s : Region L} (hr : r ∈ rs) (hs : s ∈ rs) (he : r.base = s.base) : r = s := by
  refine (hh.eq_or_apart hr hs).resolve_right fun hap => ?_
  have h1 := r.base_lt_stop
  have h2 := s.base_lt_stop
  unfold Apart at hap
  omega

/-- A failed growth leaves the frames as they were, when it gives back what it took. -/
theorem kfail_avail {m m' : Machine} {bm : Bytes} {v k : Nat} (hm : PagingOk L m)
    (hrun : FreeRun L bm v k) (h : KFail (machineBacking L word) v k k m m') (f : Nat) :
    Avail m' f ↔ Avail m f := by
  unfold KFail machineBacking at h
  dsimp only at h
  rcases getPhysBlock_spec k m.mmBitmap with hget | ⟨p, hget, hlo, hhi, hfree⟩
  · rw [hget] at h
    rcases h with ⟨-, rfl⟩ | ⟨hne, -⟩
    · exact Iff.rfl
    · exact absurd rfl hne
  · rw [hget] at h
    rcases h with ⟨h0, -⟩ | ⟨-, -, rfl⟩
    · dsimp only at h0
      omega
    · exact avail_after_unwinding hm (by omega) hfree
        (moved_pageMapRange (hm.taken_run p _) fun j hj => hrun.pageDir hj).avail f

/-- The blocks of the other regions are elsewhere. -/
theorem ne_of_elsewhere {l t : List (Region L)} {r : Region L} {y m : Nat}
    (hap : (l ++ r :: t).Pairwise Apart) (hy : r.Has y ⟨m, false⟩) (q : Region L)
    (hq : q ∈ l ∨ q ∈ t) (z k : Nat) (hz : q.Has z ⟨k, false⟩) : z ≠ y := by
  have h1 := apart_of_mem hap q hq
  have h2 := hy.bounds
  have h3 := hz.bounds
  unfold Apart at h1
  omega

namespace HeapHeld

variable {c : Client Machine} {rs rs' : List (Region L)}

/-- A heap without a region. -/
theorem empty {m : Machine} (hm : PagingOk L m) (mem : Mem) (virtHeap : Bytes) :
    HeapHeld L ⟨⟨mem, virtHeap, [], m⟩, []⟩ [] where
  safe := ⟨⟨rfl, by simp, .nil, by simp⟩, by simp, by simp, .nil⟩
  holds := by
    have hno : ∀ v, ¬ Pages ([] : List (Region L)) v := by
      rintro v ⟨r, hr, -⟩
      exact List.not_mem_nil hr
    exact ⟨hm, fun v hv => absurd hv (hno v), fun v hv => absurd hv (hno v),
      fun v _ hv => absurd hv (hno v), fun v _ _ hv => absurd hv (hno v)⟩
  run := by simp
  liveUsed := by simp
  used := by simp

theorem book (h : HeapHeld L c rs) : BookInv ⟨c, takenAt c.heap.low rs⟩ rs where
  safe := h.safe
  holds := h.holds
  entered r hr := by
    have hone : ∀ {P : Region L → Prop}, (∃ q ∈ rs, q.base = r.base ∧ P q) ↔ P r := by
      intro P
      constructor
      · rintro ⟨q, hq, hb, hP⟩
        exact h.safe.refines.eq_of_base hq hr hb ▸ hP
      · exact fun hP => ⟨r, hr, rfl, hP⟩
    exact ⟨fun q => hone, fun f => hone, h.run r hr⟩

theorem of_book {taken : Nat → Taken} (h : BookInv ⟨c, taken⟩ rs)
    (hlive : ∀ r ∈ rs, ∀ y m, r.Has y ⟨m, false⟩ → ∃ x ∈ c.live, x.ptr = y + 16)
    (hused : ∀ r ∈ rs, Seen 16 32 r.blocks → ∃ y m, r.Has y ⟨m, false⟩) : HeapHeld L c rs :=
  ⟨h.safe, h.holds, fun r hr => (h.entered r hr).run, hlive, hused⟩


/-! ### Allocation -/

/-- A call that touches no region. -/
theorem untouched {c' : Client Machine} {freed slivered : Nat → Prop} (h : HeapHeld L c' rs)
    (hlive : c'.live = c.live) (hno : ∀ e, ¬ slivered e)
    (hav : ∀ f, Avail c'.heap.low f ↔ Avail c.heap.low f)
    (hnames : ∀ w f, Pages rs w → (Names L c'.heap.low w f ↔ Names L c.heap.low w f)) :
    CallDone L freed slivered c rs c' rs where
  held := h
  evolves :=
    { stays := fun r hr => .inl ⟨r, hr, ⟨rfl, rfl, rfl⟩, id, fun _ _ hx => hx⟩
      comes := fun r hr hs => .inr ⟨r, hr, rfl, hs⟩
      leaves := fun e he => absurd he (hno e) }
  live := fun _ hx _ => hlive ▸ hx
  names := hnames
  pooled := fun f => or_congr (hav f) (exists_congr fun w => and_congr_right fun hw => hnames w f hw)

theorem liveUsed_record {n p : Nat} {h' : Heap Machine} (hp : p ≠ 0) {y : Nat}
    (hy : (∃ x ∈ c.live, x.ptr = y + 16) ∨ p = y + 16) :
    ∃ x ∈ record 0 n p h' c.live, x.ptr = y + 16 := by
  rw [record, if_neg hp]
  rcases hy with ⟨x, hx, hxy⟩ | rfl
  · exact ⟨x, List.mem_cons_of_mem _ hx, hxy⟩
  · exact ⟨_, List.mem_cons_self, rfl⟩

/-- A region that serves a request leaves a sliver exactly if the request does. -/
theorem seen_of_served {n : Nat} {r r' : Region L} {bl bt : List Block} {b : Block}
    {h : Heap Machine} (hshown : r.Shown h.mem)
    (hfit : firstFitHead 0 n h.mem h.heapList = some (r.base, r.base + 32 + span 16 bl))
    (hhand : Handed (MALLOC_ALIGN n) r r' bl b bt) (hseen : Seen 16 32 r.blocks) :
    Seen 16 32 r'.blocks ↔ ¬ LeavesSliver h 0 n := by
  have hblk := size_of_header (tiles_iff.mp hshown.tiles _ _ hhand.has_block)
  have hspan : r.size = span 16 bl + (16 + b.size + span 16 bt) := by
    rw [size, hhand.before, span_append, span_cons]
  unfold LeavesSliver
  rw [hfit]
  dsimp only
  rw [hblk, hshown.pageSize]
  unfold headerSize heapListSize
  constructor
  · rintro hs ⟨h1, h2, h3⟩
    exact hhand.not_seen_of_sliver h1 h2 (by omega) hs
  · intro hno
    refine hhand.seen_after hseen fun ht hk => ?_
    rw [ht, span_nil] at hspan
    omega

/-- A region that is there serves the request. -/
theorem served {Grow : Nat → Nat → Machine → Machine → Prop} {n p : Nat} {h' : Heap Machine}
    (h : HeapHeld L c rs) (hh' : Refines h' rs')
    (ha : Allocated Grow 0 n c.heap rs p h' rs') (hp : p ≠ 0)
    (hfit : firstFitHead 0 n c.heap.mem c.heap.heapList ≠ none) :
    CallDone L (fun _ => False) (SliversIn c.heap n) c rs ⟨h', record 0 n p h' c.live⟩ rs' := by
  have hsafe := h.safe.allocated hh' ha
  have hplace := samePlace_of_served ha hp hfit
  cases ha with
  | failed => exact absurd rfl hp
  | kept => exact absurd rfl hp
  | grown _ hnone => exact absurd hnone hfit
  | @served l t r r' bl bt b _ hrs hv hfit' hhand hbm hlow =>
    subst hrs
    have hpages : ∀ w, Pages (l ++ r' :: t) w ↔ Pages (l ++ r :: t) w :=
      pages_update hhand.base hhand.size_eq
    have hshown := h.safe.refines.shown r (by simp)
    have hold : ∀ q, (q ∈ l ∨ q ∈ t) → q ∈ l ++ r :: t := fun q hq => mem_append_cons.mpr (.inr hq)
    have hslivers : ∀ e, SliversIn c.heap n e ↔ e = r.base ∧ LeavesSliver c.heap 0 n := fun e => by
      refine and_congr_left' ⟨fun ⟨y, hy⟩ => ?_, fun he => ⟨_, he ▸ hfit'⟩⟩
      exact (congrArg Prod.fst (Option.some.inj (hfit'.symm.trans hy))).symm
    have hholds : Holds L h'.low (Pages (l ++ r' :: t)) := by
      rw [hlow, show Pages (l ++ r' :: t) = Pages (l ++ r :: t) from funext fun w => propext (hpages w)]
      exact h.holds
    have hlen : h'.heapList.length = c.heap.heapList.length := by
      rw [hh'.list, h.safe.refines.list]
      simp
    have hbook := h.book.kept hsafe hplace (Nat.le_of_eq hlen) hholds fun w f _ => by rw [hlow]
    refine ⟨.of_book hbook (fun q hq y m hy => ?_) fun q hq hs => ?_,
      { stays := fun q hq => .inl ?_, comes := fun q hq hs => ?_, leaves := fun e he => ?_ },
      fun x hx _ => ?_, fun w f _ => by rw [hlow], fun f => ?_⟩
    · refine liveUsed_record hp ?_
      rcases mem_append_cons.mp hq with rfl | hq
      · rcases (hhand.has_used_iff y m).mp hy with hy | ⟨rfl, -⟩
        · exact .inl (h.liveUsed r (by simp) y m hy)
        · exact .inr rfl
      · exact .inl (h.liveUsed q (hold q hq) y m hy)
    · rcases mem_append_cons.mp hq with rfl | hq
      · obtain ⟨m, -, hm⟩ := hhand.has_new
        exact ⟨_, m, hm⟩
      · exact h.used q (hold q hq) hs
    · rcases mem_append_cons.mp hq with rfl | hq
      · exact ⟨r', by simp, ⟨hhand.base, hhand.size_eq, hhand.virtual⟩,
          fun hs => by_contra fun hno => hhand.not_seen hno hs, fun _ _ hx => hhand.liveAt hx⟩
      · exact ⟨q, mem_append_cons.mpr (.inr hq), ⟨rfl, rfl, rfl⟩, id, fun _ _ hx => hx⟩
    · rcases mem_append_cons.mp hq with rfl | hq
      · by_cases hseen : Seen 16 32 r.blocks
        · refine .inl ((hslivers _).mpr ⟨hhand.base, ?_⟩)
          exact by_contra fun hno => hs ((seen_of_served hshown hfit' hhand hseen).mpr hno)
        · exact .inr ⟨r, by simp, hhand.base.symm, hseen⟩
      · exact .inr ⟨q, hold q hq, rfl, hs⟩
    · obtain ⟨rfl, hsl⟩ := (hslivers e).mp he
      refine ⟨r', by simp, hhand.base, ?_⟩
      by_cases hseen : Seen 16 32 r.blocks
      · exact fun hs => (seen_of_served hshown hfit' hhand hseen).mp hs hsl
      · exact hhand.not_seen hseen
    · rw [record, if_neg hp]
      exact List.mem_cons_of_mem _ hx
    · unfold Pooled
      simp only [hlow, hpages]

/-- A new region that serves the request is held. -/
theorem opened_held {n p : Nat} {h' : Heap Machine} {r' : Region L} (h : HeapHeld L c rs)
    (hn : Requestable n) (hh' : Refines h' (r' :: rs)) (hp : p ≠ 0)
    (hnone : firstFitHead 0 n c.heap.mem c.heap.heapList = none)
    (ha : Allocated (KGrow (machineBacking L word)) 0 n c.heap rs p h' (r' :: rs)) :
    HeapHeld L ⟨h', record 0 n p h' c.live⟩ (r' :: rs) := by
  have hsafe := h.safe.allocated hh' ha
  generalize hrs' : r' :: rs = rs' at ha
  cases ha with
  | failed => exact absurd rfl hp
  | kept => exact absurd rfl hp
  | served _ hrs hv hfit => exact absurd hfit (by rw [hnone]; simp)
  | @grown r q bl bt b _ _ hv hb hhand hrun hbm hlow =>
    obtain ⟨rfl, -⟩ := List.cons.inj hrs'
    have hbase : r'.base = r.base / 4096 * 4096 := hhand.base.trans r.base_eq.symm
    have hcount : r'.pageCount = regionSize n / 4096 := by
      have := hn.pos
      unfold pageCount
      rw [hhand.size_eq, size, hb, span_cons, span_nil]
      dsimp only
      omega
    rw [← r.base_eq] at hrun hbm hlow
    have hheap : ∀ w, InRun (r.base / 4096) (regionSize n / 4096) w → HeapPage L w := fun w hw =>
      r'.run_heapPage (by rw [hhand.base, hcount]; exact hw)
    obtain ⟨hback, hconsec⟩ := kgrow_backs h.holds.paging hheap hlow
    refine .of_book (h.book.grown hsafe hbase hcount hrun hbm hback fun _ => hconsec)
      (List.forall_mem_cons.mpr ⟨fun y m hy => liveUsed_record hp ?_,
        fun q hq y m hy => liveUsed_record hp (.inl (h.liveUsed q hq y m hy))⟩)
      (List.forall_mem_cons.mpr ⟨fun _ => ?_, h.used⟩)
    · rcases (hhand.has_used_iff y m).mp hy with hy | ⟨rfl, -⟩
      · rw [Has, hb, at_cons] at hy
        simp at hy
      · exact .inr rfl
    · obtain ⟨m, -, hm⟩ := hhand.has_new
      exact ⟨_, m, hm⟩

/-- A new region serves the request, and leaves no sliver. -/
theorem opened {n p : Nat} {h' : Heap Machine} {r' : Region L} (h : HeapHeld L c rs) (hn : Small n)
    (hh' : Refines h' (r' :: rs)) (hp : p ≠ 0)
    (hnone : firstFitHead 0 n c.heap.mem c.heap.heapList = none)
    (ha : Allocated (KGrow (machineBacking L word)) 0 n c.heap rs p h' (r' :: rs)) :
    CallDone L (fun _ => False) (SliversIn c.heap n) c rs ⟨h', record 0 n p h' c.live⟩
      (r' :: rs) := by
  have hheld := h.opened_held hn.requestable hh' hp hnone ha
  generalize hrs' : r' :: rs = rs' at ha
  cases ha with
  | failed => exact absurd rfl hp
  | kept => exact absurd rfl hp
  | served _ hrs hv hfit => exact absurd hfit (by rw [hnone]; simp)
  | @grown r q bl bt b _ _ hv hb hhand hrun hbm hlow =>
    obtain ⟨rfl, -⟩ := List.cons.inj hrs'
    rw [hn.regionSize] at hrun hbm hlow
    have hcount : r'.pageCount = 4096 / 4096 := by
      unfold pageCount
      rw [hhand.size_eq, size, hb, span_cons, span_nil, hn.regionSize]
      rfl
    rw [← r.base_eq] at hrun hbm hlow
    have hin : ∀ w, InRun (r'.base / 4096) r'.pageCount w ↔ InRun (r.base / 4096) (4096 / 4096) w :=
      fun w => by rw [hhand.base, hcount]
    have hheap : ∀ w, InRun (r.base / 4096) (4096 / 4096) w → HeapPage L w := fun w hw =>
      r'.run_heapPage ((hin w).mpr hw)
    obtain ⟨hback, -⟩ := kgrow_backs h.holds.paging hheap hlow
    have hout : ∀ w, Pages rs w → ¬ InRun (r.base / 4096) (4096 / 4096) w := fun w hw hin =>
      not_pages_of_freeRun h.safe.refines hrun hin hw
    have hnames : ∀ w f, Pages rs w → (Names L h'.low w f ↔ Names L c.heap.low w f) :=
      fun w f hw => BookInv.names_iff h.holds hw
        (fun f => hback.opens.keeps w f (h.holds.heap w hw) (hout w hw)) f
    have hseen : Seen 16 32 r'.blocks := by
      have := hn.mallocAlign
      refine hhand.seen_after ?_ fun _ _ => ?_
      · rw [hb, hn.regionSize]
        exact ⟨by decide, trivial⟩
      · rw [hhand.only_block hb, hn.regionSize]
        dsimp only
        omega
    refine ⟨hheld,
      { stays := fun q hq => .inl ⟨q, List.mem_cons_of_mem _ hq, ⟨rfl, rfl, rfl⟩, id,
          fun _ _ hx => hx⟩
        comes := List.forall_mem_cons.mpr ⟨fun hno => absurd hseen hno,
          fun q hq hs => .inr ⟨q, hq, rfl, hs⟩⟩
        leaves := fun e he => absurd he.2 (hn.opening_leaves_no_sliver hnone) },
      fun x hx _ => ?_, hnames, fun f => ?_⟩
    · rw [record, if_neg hp]
      exact List.mem_cons_of_mem _ hx
    · -- the frames of the new region are free before
      have hpages : ∀ w, Pages (r' :: rs) w ↔
          InRun (r.base / 4096) (4096 / 4096) w ∨ Pages rs w := fun w => by
        unfold Pages
        simp only [List.mem_cons, exists_eq_or_imp, hin]
      have hfree : ∀ w, InRun (r.base / 4096) (4096 / 4096) w → Names L h'.low w f →
          Avail c.heap.low f := fun w hw hf => by
        obtain ⟨g, hg, hgf⟩ := hback.named w hw
        exact .inl (hf.unique hg ▸ hgf)
      unfold Pooled
      simp only [hpages, or_and_right, exists_or, hback.opens.avail f]
      constructor
      · rintro (⟨hav, -⟩ | ⟨w, hw, hf⟩ | ⟨w, hw, hf⟩)
        · exact .inl hav
        · exact .inl (hfree w hw hf)
        · exact .inr ⟨w, hw, (hnames w f hw).mp hf⟩
      · rintro (hav | ⟨w, hw, hf⟩)
        · by_cases hT : ∃ w, InRun (r.base / 4096) (4096 / 4096) w ∧ Names L h'.low w f
          · exact .inr (.inl hT)
          · exact .inl ⟨hav, hT⟩
        · exact .inr (.inr ⟨w, hw, (hnames w f hw).mpr hf⟩)

/-- A call that finds no memory gives everything back. -/
theorem refused {n v : Nat} {m' : Machine} {h' : Heap Machine} (h : HeapHeld L c rs)
    (hrun : FreeRun L c.heap.mmVirtHeap v 1) (hfail : KFail (machineBacking L word) v 1 1 c.heap.low m')
    (hh' : Refines h' rs) (hlist : h'.heapList = c.heap.heapList) (hlow : h'.low = m')
    (hnone : firstFitHead 0 n c.heap.mem c.heap.heapList = none) :
    CallDone L (fun _ => False) (SliversIn c.heap n) c rs ⟨h', record 0 n 0 h' c.live⟩ rs := by
  have hsafe : SafeInv ⟨h', c.live⟩ rs := ⟨hh', h.safe.live, h.safe.asked, h.safe.distinct⟩
  have hav := kfail_avail h.holds.paging hrun hfail
  obtain ⟨w, rfl⟩ : ∃ w, v = w * 4096 := ⟨v / 4096, by have := hrun.aligned; omega⟩
  have hheap := fun u => hrun.heapPage (w := u)
  rw [Nat.mul_div_cancel _ (by decide)] at hheap
  obtain ⟨hsp, -⟩ := kfail_spares h.holds.paging hheap (fun _ => Nat.le_refl 1) hfail
  rw [← hlow] at hsp hav
  have hout : ∀ u, Pages rs u → ¬ InRun w 1 u := fun u hu hin =>
    not_pages_of_freeRun h.safe.refines hrun hin hu
  exact untouched (.of_book (h.book.failed hsafe hlist hsp hout) h.liveUsed h.used) rfl
    (not_sliversIn hnone) hav fun u f hu => BookInv.names_iff h.holds hu
      (fun f => hsp.keeps u f (h.holds.heap u hu) (hout u hu)) f

/-- **A call of `kmalloc`.** -/
theorem kmalloc (h : HeapHeld L c rs) (word : Machine → Nat → Nat) {n : Nat} (hn : Small n) :
    ∃ rs' : List (Region L), CallDone L (fun _ => False) (SliversIn c.heap n) c rs
      (c.kmalloc L word n).2 rs' := by
  have hn0 : n ≠ 0 := by have := hn.pos; omega
  by_cases hnone : firstFitHead 0 n c.heap.mem c.heap.heapList = none
  · have ho := kmalloc_outcome L (machineBacking L word) n c.heap
    unfold Client.kmalloc
    dsimp only
    generalize (Moonlight.kmalloc L (machineBacking L word) n c.heap).1 = p,
      (Moonlight.kmalloc L (machineBacking L word) n c.heap).2 = h' at ho
    cases ho with
    | nothing =>
      exact ⟨rs, untouched h rfl (not_sliversIn hnone) (fun _ => Iff.rfl) fun _ _ _ => Iff.rfl⟩
    | served hfit => exact absurd hfit (by rw [hnone]; simp)
    | @failed v m' _ _ _ hrun hf =>
      have hh' : Refines (⟨c.heap.mem, freeVirtBlock L v (PAGE_ALIGN n / 4096)
          (clearRun (heapPage L v) (regionSize n / 4096) c.heap.mmVirtHeap), c.heap.heapList, m'⟩ :
          Heap Machine) rs :=
        release_reserved h.safe.refines hrun hn.requestable.covers rfl rfl rfl
      rw [hn.regionSize, hn.pageAlign] at hf
      rw [hn.regionSize] at hrun
      exact ⟨rs, refused h hrun hf hh' rfl rfl hnone⟩
    | @grown v m' hrun _ hg =>
      obtain ⟨r', -, hh', ha⟩ := addRegion_fresh h.safe.refines (machineBacking L word)
        (by decide : 0 < 2) hn.requestable hrun hg hnone rfl
      refine ⟨r' :: rs, h.opened hn hh' ?_ hnone ha⟩
      have := hn.mallocAlign
      refine (addRegion_ne_zero_iff (by decide : 0 < 2) (Nat.le_of_eq hn.regionSize.symm)
        (by rw [hn.regionSize]; decide) (hrun.size_le (regionSize_aligned n)) _ _).mpr ?_
      rw [hn.regionSize]
      omega
  · obtain ⟨rs', hh', ha⟩ :=
      kmalloc_simulates h.safe.refines (machineBacking L word) hn.requestable
    obtain ⟨⟨e, y⟩, hfit⟩ := Option.ne_none_iff_exists'.mp hnone
    refine ⟨rs', h.served hh' ha ?_ hnone⟩
    rw [kmalloc_served hn0 hfit]
    exact Nat.succ_ne_zero _

/-- A call of any size that gets a block. -/
theorem kmalloc_held (h : HeapHeld L c rs) (word : Machine → Nat → Nat) {n : Nat}
    (hn : Requestable n) (hp : (c.kmalloc L word n).1 ≠ 0) :
    ∃ rs' : List (Region L), HeapHeld L (c.kmalloc L word n).2 rs' := by
  by_cases hnone : firstFitHead 0 n c.heap.mem c.heap.heapList = none
  · have ho := kmalloc_outcome L (machineBacking L word) n c.heap
    unfold Client.kmalloc at hp ⊢
    dsimp only at hp ⊢
    generalize (Moonlight.kmalloc L (machineBacking L word) n c.heap).1 = p,
      (Moonlight.kmalloc L (machineBacking L word) n c.heap).2 = h' at ho hp ⊢
    cases ho with
    | nothing => exact absurd rfl hp
    | failed => exact absurd rfl hp
    | served hfit => exact absurd hfit (by rw [hnone]; simp)
    | @grown v m' hrun _ hg =>
      obtain ⟨r', -, hh', ha⟩ := addRegion_fresh h.safe.refines (machineBacking L word)
        (by decide : 0 < 2) hn hrun hg hnone rfl
      exact ⟨r' :: rs, h.opened_held hn hh' hp hnone ha⟩
  · obtain ⟨rs', hh', ha⟩ := kmalloc_simulates h.safe.refines (machineBacking L word) hn
    exact ⟨rs', (h.served hh' ha hp hnone).held⟩

/-! ### Release -/

/-- A region loses a used block, or goes with it. -/
theorem released {drop : Nat → Nat → Machine → Machine} {y : Nat} {h' : Heap Machine}
    (h : HeapHeld L c rs) (hdrop : DropsNamed L 0 drop) (hh' : Refines h' rs')
    (hr : Released drop c.heap rs y h' rs')
    (hv : ∀ r ∈ rs, ∀ m, r.Has y ⟨m, false⟩ → r.virtual = 0) :
    CallDone L (fun p => p = y + 16) (fun _ => False) c rs ⟨h', forget (y + 16) c.live⟩ rs' := by
  have hbook := h.book.released hdrop hh' hr hv
  have hap := h.safe.refines.apart
  have hold : ∀ {z : Nat}, z ≠ y → (∃ x ∈ c.live, x.ptr = z + 16) →
      ∃ x ∈ forget (y + 16) c.live, x.ptr = z + 16 := by
    rintro z hz ⟨x, hx, hxz⟩
    exact ⟨x, by simp [forget, hx, hxz, hz], hxz⟩
  have hkeep : ∀ x ∈ c.live, ¬ x.ptr = y + 16 → x ∈ forget (y + 16) c.live := fun x hx hne => by
    simp [forget, hx, hne]
  cases hr with
  | @merged l t r r' bl bt m _ hrs hm hy hkept hbm hlow =>
    subst hrs
    have hblk : r.Has y ⟨m, false⟩ := by rw [Has, hm.before, at_append, hy]; simp
    have hstay : ∀ q, (q ∈ l ∨ q ∈ t) → q ∈ l ++ r :: t := fun q hq => mem_append_cons.mpr (.inr hq)
    have hpages : ∀ w, Pages (l ++ r' :: t) w ↔ Pages (l ++ r :: t) w :=
      pages_update hm.base hm.size_eq
    have hseen : Seen 16 32 r'.blocks → Seen 16 32 r.blocks := fun hs =>
      by_contra fun hno => hm.not_seen hno hs
    refine ⟨.of_book hbook (fun q hq z k hz => ?_) fun q hq hs => ?_,
      { stays := fun q hq => .inl ?_, comes := fun q hq hs => .inr ?_,
        leaves := fun _ he => he.elim },
      hkeep, fun w f _ => by rw [hlow], fun f => by unfold Pooled; simp only [hlow, hpages]⟩
    · rcases mem_append_cons.mp hq with rfl | hq
      · obtain ⟨hz, hne⟩ := (hm.has_used_iff z k).mp hz
        exact hold (hy ▸ hne) (h.liveUsed r (by simp) z k hz)
      · exact hold (ne_of_elsewhere hap hblk q hq z k hz) (h.liveUsed q (hstay q hq) z k hz)
    · rcases mem_append_cons.mp hq with rfl | hq
      · exact (hm.used_after (hseen hs) hkept).2
      · exact h.used q (hstay q hq) hs
    · rcases mem_append_cons.mp hq with rfl | hq
      · refine ⟨r', by simp, ⟨hm.base, hm.size_eq, hm.virtual⟩, hseen, fun x hne hx => ?_⟩
        exact hm.liveAt hx (hy ▸ hne)
      · exact ⟨q, mem_append_cons.mpr (.inr hq), ⟨rfl, rfl, rfl⟩, id, fun _ _ hx => hx⟩
    · rcases mem_append_cons.mp hq with rfl | hq
      · refine ⟨r, by simp, hm.base.symm, fun hno => hs ?_⟩
        exact (hm.used_after hno hkept).1
      · exact ⟨q, hstay q hq, rfl, hs⟩
  | @dropped l t r r' bl bt m d _ hrs hm hy hone hbm hlow =>
    subst hrs
    have hblk : r.Has y ⟨m, false⟩ := by rw [Has, hm.before, at_append, hy]; simp
    have hsub : ∀ q, q ∈ l ++ t → q ∈ l ++ r :: t := fun q hq =>
      mem_append_cons.mpr (.inr (List.mem_append.mp hq))
    have hback := h.book.dropBack hdrop (r := r) (by simp) (hv r (by simp) m hblk)
    dsimp only at hback
    rw [← hlow] at hback
    refine ⟨.of_book hbook (fun q hq z k hz => ?_) fun q hq => h.used q (hsub q hq),
      { stays := fun q hq => ?_, comes := fun q hq hs => .inr ⟨q, hsub q hq, rfl, hs⟩,
        leaves := fun _ he => he.elim },
      hkeep, fun w f _ => hback.names w f, fun f => ?_⟩
    · exact hold (ne_of_elsewhere hap hblk q (List.mem_append.mp hq) z k hz)
        (h.liveUsed q (hsub q hq) z k hz)
    · rcases mem_append_cons.mp hq with rfl | hq
      · refine .inr ⟨by_contra fun hno => ?_, fun x hx => by_contra fun hne =>
          not_liveAt_of_single hone x (hm.liveAt hx (hy ▸ hne))⟩
        -- one block that covers the region would be seen
        refine absurd ⟨?_, trivial⟩ (hone ▸ hm.not_seen hno)
        have h1 := q.size_bounds
        rw [← hm.size_eq, size, hone] at h1
        omega
      · exact .inl ⟨q, List.mem_append.mpr hq, ⟨rfl, rfl, rfl⟩, id, fun _ _ hx => hx⟩
    · -- the frames under the region go back into circulation
      unfold Pooled
      simp only [hback.avail f, hback.names, pages_remove hap]
      constructor
      · rintro ((hav | ⟨w, hw, hf⟩) | ⟨w, ⟨hw, -⟩, hf⟩)
        · exact .inl hav
        · exact .inr ⟨w, ⟨r, by simp, hw⟩, hf⟩
        · exact .inr ⟨w, hw, hf⟩
      · rintro (hav | ⟨w, hw, hf⟩)
        · exact .inl (.inl hav)
        · by_cases hin : InRun (r.base / 4096) r.pageCount w
          · exact .inl (.inr ⟨w, hin, hf⟩)
          · exact .inr ⟨w, ⟨hw, hin⟩, hf⟩

/-- **A call of `kfree`.** -/
theorem kfree (h : HeapHeld L c rs) (word : Machine → Nat → Nat) {p : Nat}
    (hp : ∃ x ∈ c.live, x.ptr = p ∧ x.virtual = 0) :
    ∃ rs' : List (Region L), CallDone L (fun q => q = p) (fun _ => False) c rs
      (c.kfree L word p) rs' := by
  obtain ⟨x, hx, rfl, hxv⟩ := hp
  obtain ⟨r, hr, hrv, y, rs', hxy, -, hone, hh', hrel⟩ :=
    h.book.find_released (kdefrag_defrags L (machineBacking L word)) hx
  unfold Client.kfree Moonlight.kfree
  rw [hxy] at hh' hrel ⊢
  refine ⟨rs', h.released (kdrop_named L word) hh' hrel fun q hq m hm => ?_⟩
  rw [hone q hq m hm, hrv, hxv]

/-! ### Runs -/

/-- The machine changes away from the heap. -/
theorem move {m : Machine} (h : HeapHeld L c rs) (hm : PagingOk L m)
    (hnames : ∀ w f, HeapPage L w → (Names L m w f ↔ Names L c.heap.low w f))
    (hkept : ∀ w f, Pages rs w → Names L c.heap.low w f → ¬ Avail m f) :
    HeapHeld L ⟨{ c.heap with low := m }, c.live⟩ rs := by
  have hpage : ∀ w, Pages rs w → HeapPage L w := h.holds.heap
  refine ⟨?_, ?_, ?_, h.liveUsed, h.used⟩
  · exact ⟨h.safe.refines.congr rfl h.safe.refines.shown fun _ h => h, h.safe.live, h.safe.asked,
      h.safe.distinct⟩
  · refine ⟨hm, hpage, fun w hw => ?_, fun w f hw hf => ?_, fun v w f hv hw hf hf' => ?_⟩
    · obtain ⟨f, hf⟩ := h.holds.named w hw
      exact ⟨f, (hnames w f (hpage w hw)).mpr hf⟩
    · exact hkept w f hw ((hnames w f (hpage w hw)).mp hf)
    · exact h.holds.apart v w f hv hw ((hnames v f (hpage v hv)).mp hf)
        ((hnames w f (hpage w hw)).mp hf')
  · intro r hr h0
    obtain ⟨p, hp⟩ := h.run r hr h0
    exact ⟨p, fun w hw => (hnames w _ (hpage w ⟨r, hr, hw⟩)).mpr (hp w hw)⟩

end HeapHeld

/-- What the layers above do: blocks of at most 4000 bytes are asked for, or larger ones with
success, blocks are freed, and frames and page tables change away from the heap. -/
inductive RecordOp where
  | kmalloc (n : Nat)
  | kfree (p : Nat)
  | elsewhere (m : Machine)

def recordStep (L : Layout) (word : Machine → Nat → Nat) (c : Client Machine) :
    RecordOp → Client Machine → Prop
  | .kmalloc n, c' => (Small n ∨ Requestable n ∧ (c.kmalloc L word n).1 ≠ 0) ∧
      c' = (c.kmalloc L word n).2
  | .kfree p, c' => (∃ x ∈ c.live, x.ptr = p ∧ x.virtual = 0) ∧ c' = c.kfree L word p
  | .elsewhere m, c' => PagingOk L m ∧
      (∀ w f, HeapPage L w → (Names L m w f ↔ Names L c.heap.low w f)) ∧
      (∀ w f, HeapPage L w → Names L c.heap.low w f → Avail m f → Avail c.heap.low f) ∧
      c' = ⟨{ c.heap with low := m }, c.live⟩

theorem HeapHeld.step {c c' : Client Machine} {rs : List (Region L)} {op : RecordOp}
    (h : HeapHeld L c rs) (hs : recordStep L word c op c') :
    ∃ rs' : List (Region L), HeapHeld L c' rs' := by
  cases op with
  | kmalloc n =>
    obtain ⟨hn | ⟨hn, hp⟩, rfl⟩ := hs
    · obtain ⟨rs', hd⟩ := h.kmalloc word hn
      exact ⟨rs', hd.held⟩
    · exact h.kmalloc_held word hn hp
  | kfree p =>
    obtain ⟨hp, rfl⟩ := hs
    obtain ⟨rs', hd⟩ := h.kfree word hp
    exact ⟨rs', hd.held⟩
  | elsewhere m =>
    obtain ⟨hm, hnames, hkept, rfl⟩ := hs
    exact ⟨rs, h.move hm hnames fun w f hw hf ha =>
      h.holds.kept w f hw hf (hkept w f (h.holds.heap w hw) hf ha)⟩

/-- **The heap is held** from the first block on. -/
theorem records_heapHeld {m : Machine} {mem : Mem} {virtHeap : Bytes} {c : Client Machine}
    {ops : List RecordOp} (hm : PagingOk L m)
    (hrun : Run (recordStep L word) ⟨⟨mem, virtHeap, [], m⟩, []⟩ ops c) :
    ∃ rs : List (Region L), HeapHeld L c rs :=
  hrun.invariant (fun c => ∃ rs : List (Region L), HeapHeld L c rs)
    (fun _ _ _ ⟨_, h⟩ hs => h.step hs) ⟨[], .empty hm mem virtHeap⟩

/-- A call that gets a block leaves the page tables in place. -/
theorem Client.kmalloc_hasTable (word : Machine → Nat → Nat) {c : Client Machine} {n d : Nat}
    (hm : PagingOk L c.heap.low) (hp : (c.kmalloc L word n).1 ≠ 0) (ht : HasTable c.heap.low d) :
    HasTable (c.kmalloc L word n).2.heap.low d := by
  have ho := kmalloc_outcome L (machineBacking L word) n c.heap
  unfold Client.kmalloc at hp ⊢
  dsimp only at hp ⊢
  generalize (Moonlight.kmalloc L (machineBacking L word) n c.heap).1 = p,
    (Moonlight.kmalloc L (machineBacking L word) n c.heap).2 = h' at ho hp
  cases ho with
  | nothing => exact absurd rfl hp
  | failed => exact absurd rfl hp
  | served => exact ht
  | @grown v m' hrun _ hg =>
    obtain ⟨w, rfl⟩ : ∃ w, v = w * 4096 := ⟨v / 4096, by have := hrun.aligned; omega⟩
    have hheap := fun u => hrun.heapPage (w := u)
    rw [Nat.mul_div_cancel _ (by decide)] at hheap
    exact (kgrow_backs hm hheap hg).1.opens.hasTable ht

/-! ## A stretch of calls -/

/-- The call leaves a sliver in a region that was opened after `c₀`. -/
def SliversNew (c₀ c : Client Machine) (n : Nat) : Prop :=
  ∃ e, e ∉ c₀.heap.heapList ∧ SliversIn c.heap n e

/-- A call that is served by a region of `c₀`, or opens one. -/
theorem not_sliversNew {c₀ c : Client Machine} {n : Nat}
    (h : ∀ f ∈ firstFitHead 0 n c.heap.mem c.heap.heapList, f.1 ∈ c₀.heap.heapList) :
    ¬ SliversNew c₀ c n := by
  rintro ⟨e, he, ⟨y, hy⟩, -⟩
  exact he (h _ hy)

/-- What holds between `c₀` and `c` when no block that was live at `c₀` has been freed since: the
frames `mine` are held by others than the heap, and `slivered` says whether a sliver was left in a
region opened since. -/
structure Stretch (L : Layout) (c₀ : Client Machine) (rs₀ : List (Region L)) (mine : Nat → Prop)
    (slivered : Prop) (c : Client Machine) (rs : List (Region L)) : Prop where
  held : HeapHeld L c rs
  live : ∀ x ∈ c₀.live, x ∈ c.live
  names : ∀ w f, Pages rs₀ w → (Names L c.heap.low w f ↔ Names L c₀.heap.low w f)
  regions : ∀ r₀ ∈ rs₀, ∃ r ∈ rs, SamePlace r₀ r ∧
    (¬ Seen 16 32 r.blocks ∨ ∃ x ∈ c₀.live, LiveAt r x)
  pooled : ∀ f, Pooled L c.heap.low rs f ∨ mine f ↔ Pooled L c₀.heap.low rs₀ f
  apart : ∀ f, mine f → ¬ Pooled L c.heap.low rs f
  slivers : (∃ r ∈ rs, r.base ∉ c₀.heap.heapList ∧ ¬ Seen 16 32 r.blocks) ↔ slivered

theorem SamePlace.trans {r s t : Region L} (h : SamePlace r s) (h' : SamePlace s t) :
    SamePlace r t := ⟨h'.1.trans h.1, h'.2.1.trans h.2.1, h'.2.2.trans h.2.2⟩

/-- A used block that is live is where the walks find it. -/
theorem HeapHeld.liveAt {c : Client Machine} {rs : List (Region L)} (h : HeapHeld L c rs)
    {r : Region L} (hr : r ∈ rs) {y m : Nat} (hy : r.Has y ⟨m, false⟩) :
    ∃ x ∈ c.live, x.ptr = y + 16 ∧ LiveAt r x := by
  obtain ⟨x, hx, hp⟩ := h.liveUsed r hr y m hy
  obtain ⟨q, hq, hat⟩ := h.safe.live x hx
  obtain ⟨-, z, hz, hqz, -⟩ := id hat
  obtain rfl : z = y := by omega
  rcases h.safe.refines.block_disjoint hq hr hqz hy with ⟨rfl, -⟩ | k | k
  · exact ⟨x, hx, hp, hat⟩
  · dsimp only at k
    omega
  · dsimp only at k
    omega

namespace Stretch

variable {c₀ c c' : Client Machine} {rs₀ rs rs' : List (Region L)} {mine mine' : Nat → Prop}
  {slivered : Prop}

theorem start (h : HeapHeld L c rs) : Stretch L c rs (fun _ => False) False c rs where
  held := h
  live _ hx := hx
  names _ _ _ := Iff.rfl
  regions r hr := by
    refine ⟨r, hr, ⟨rfl, rfl, rfl⟩, ?_⟩
    by_cases hs : Seen 16 32 r.blocks
    · obtain ⟨y, m, hy⟩ := h.used r hr hs
      obtain ⟨x, hx, -, hat⟩ := h.liveAt hr hy
      exact .inr ⟨x, hx, hat⟩
    · exact .inl hs
  pooled f := iff_of_eq (or_false _)
  apart f hf := hf.elim
  slivers := by
    refine iff_of_false (fun ⟨r, hr, hno, _⟩ => hno ?_) id
    rw [h.safe.refines.list]
    exact List.mem_map_of_mem hr

/-- The pages of the regions of the start are pages of regions. -/
theorem pages (h : Stretch L c₀ rs₀ mine slivered c rs) {w : Nat} (hw : Pages rs₀ w) :
    Pages rs w := by
  obtain ⟨r₀, hr₀, hin⟩ := hw
  obtain ⟨r, hr, ⟨hb, hs, -⟩, -⟩ := h.regions r₀ hr₀
  refine ⟨r, hr, ?_⟩
  unfold pageCount at *
  rwa [hb, hs]

/-- **A call keeps it**, if it frees no block of the start. -/
theorem done {freed slivers : Nat → Prop} (h : Stretch L c₀ rs₀ mine slivered c rs)
    (hd : CallDone L freed slivers c rs c' rs') (hold : ∀ x ∈ c₀.live, ¬ freed x.ptr) :
    Stretch L c₀ rs₀ mine (slivered ∨ ∃ e, e ∉ c₀.heap.heapList ∧ slivers e) c' rs' where
  held := hd.held
  live x hx := hd.live x (h.live x hx) (hold x hx)
  names w f hw := (hd.names w f (h.pages hw)).trans (h.names w f hw)
  regions r₀ hr₀ := by
    obtain ⟨r, hr, hplace, hkeep⟩ := h.regions r₀ hr₀
    rcases hd.evolves.stays r hr with ⟨r', hr', hplace', hseen, hat⟩ | ⟨hseen, hgone⟩
    · refine ⟨r', hr', hplace.trans hplace', hkeep.imp (fun hno hs => hno (hseen hs)) ?_⟩
      rintro ⟨x, hx, hxr⟩
      exact ⟨x, hx, hat x (hold x hx) hxr⟩
    · rcases hkeep with hno | ⟨x, hx, hxr⟩
      · exact absurd hseen hno
      · exact absurd (hgone x hxr) (hold x hx)
  pooled f := (or_congr_left (hd.pooled f)).trans (h.pooled f)
  apart f hf hp := h.apart f hf ((hd.pooled f).mp hp)
  slivers := by
    rw [← h.slivers]
    constructor
    · rintro ⟨r', hr', hb, hno⟩
      rcases hd.evolves.comes r' hr' hno with hs | ⟨r, hr, hrb, hrno⟩
      · exact .inr ⟨_, hb, hs⟩
      · exact .inl ⟨r, hr, hrb ▸ hb, hrno⟩
    · rintro (⟨r, hr, hb, hno⟩ | ⟨e, he, hs⟩)
      · rcases hd.evolves.stays r hr with ⟨r', hr', hplace, hseen, -⟩ | ⟨hseen, -⟩
        · exact ⟨r', hr', hplace.1.symm ▸ hb, fun hs => hno (hseen hs)⟩
        · exact absurd hseen hno
      · obtain ⟨r', hr', rfl, hno⟩ := hd.evolves.leaves e hs
        exact ⟨r', hr', he, hno⟩

theorem kmalloc (h : Stretch L c₀ rs₀ mine slivered c rs) (word : Machine → Nat → Nat) {n : Nat}
    (hn : Small n) :
    ∃ rs' : List (Region L), Stretch L c₀ rs₀ mine (slivered ∨ SliversNew c₀ c n)
      (c.kmalloc L word n).2 rs' := by
  obtain ⟨rs', hd⟩ := h.held.kmalloc word hn
  exact ⟨rs', h.done hd fun _ _ => id⟩

theorem kfree (h : Stretch L c₀ rs₀ mine slivered c rs) (word : Machine → Nat → Nat) {p : Nat}
    (hp : ∃ x ∈ c.live, x.ptr = p ∧ x.virtual = 0) (hold : ∀ x ∈ c₀.live, x.ptr ≠ p) :
    ∃ rs' : List (Region L), Stretch L c₀ rs₀ mine slivered (c.kfree L word p) rs' := by
  obtain ⟨rs', hd⟩ := h.held.kfree word hp
  have := h.done hd hold
  simp only [and_false, exists_false, or_false] at this
  exact ⟨rs', this⟩

/-- **Frames change hands** between the free ones and `mine`, under the eyes of no region. -/
theorem move {m' : Machine} (h : Stretch L c₀ rs₀ mine slivered c rs) (hm : PagingOk L m')
    (hnames : ∀ w f, HeapPage L w → (Names L m' w f ↔ Names L c.heap.low w f))
    (hav : ∀ f, Avail m' f ∨ mine' f ↔ Avail c.heap.low f ∨ mine f)
    (hapart : ∀ f, mine' f → ¬ Avail m' f) :
    Stretch L c₀ rs₀ mine' slivered ⟨{ c.heap with low := m' }, c.live⟩ rs := by
  have hpage : ∀ w, Pages rs w → HeapPage L w := h.held.holds.heap
  -- a frame under a region is neither free nor held by others
  have hout : ∀ w f, Pages rs w → Names L c.heap.low w f → ¬ (Avail c.heap.low f ∨ mine f) := by
    rintro w f hw hf (ha | hmine)
    · exact h.held.holds.kept w f hw hf ha
    · exact h.apart f hmine (.inr ⟨w, hw, hf⟩)
  have hnamed : ∀ f, (∃ w, Pages rs w ∧ Names L m' w f) ↔
      ∃ w, Pages rs w ∧ Names L c.heap.low w f := fun f =>
    exists_congr fun w => and_congr_right fun hw => hnames w f (hpage w hw)
  refine ⟨h.held.move hm hnames fun w f hw hf ha => hout w f hw hf ((hav f).mp (.inl ha)), h.live,
    fun w f hw => ?_, h.regions, fun f => ?_, fun f hf => ?_, h.slivers⟩
  · exact (hnames w f (hpage w (h.pages hw))).trans (h.names w f hw)
  · rw [← h.pooled f]
    unfold Pooled
    rw [hnamed, or_right_comm, hav, or_right_comm]
  · rintro (ha | hn)
    · exact hapart f hf ha
    · obtain ⟨w, hw, hwf⟩ := (hnamed f).mp hn
      exact hout w f hw hwf ((hav f).mp (.inr hf))

/-- A frame that was taken at the start is not free now. -/
theorem not_avail (h : Stretch L c₀ rs₀ mine slivered c rs) {f : Nat}
    (hf : ¬ Avail c₀.heap.low f) : ¬ Avail c.heap.low f := by
  intro ha
  rcases (h.pooled f).mp (.inl (.inl ha)) with h₀ | ⟨w, hw, hwf⟩
  · exact hf h₀
  · exact h.held.holds.kept w f (h.pages hw) ((h.names w f hw).mpr hwf) ha

/-- **What is left in the end**, when the others hold no frame and only blocks of the start are
live: the frames of the start, unless a new region was left with a sliver. -/
theorem settled (h : Stretch L c₀ rs₀ (fun _ => False) slivered c rs) (h₀ : HeapHeld L c₀ rs₀)
    (hlive : ∀ x ∈ c.live, ∃ x₀ ∈ c₀.live, x₀.ptr = x.ptr) :
    (∀ f, Avail c.heap.low f ↔ Avail c₀.heap.low f) ↔ ¬ slivered := by
  have hpool : ∀ f, Pooled L c.heap.low rs f ↔ Pooled L c₀.heap.low rs₀ f := fun f =>
    (iff_of_eq (or_false _)).symm.trans (h.pooled f)
  have hbase : ∀ r₀ ∈ rs₀, r₀.base ∈ c₀.heap.heapList := fun r₀ hr₀ => by
    rw [h₀.safe.refines.list]
    exact List.mem_map_of_mem hr₀
  have hold : ∀ {w f : Nat}, Pages rs₀ w → Names L c₀.heap.low w f →
      Names L c.heap.low w f := fun hw hf => (h.names _ _ hw).mpr hf
  rw [← h.slivers]
  constructor
  · rintro hav ⟨r, hr, hnew, -⟩
    -- a frame under a new region was free at the start
    have hw : Pages rs (r.base / 4096) := by
      have := r.size_bounds
      exact ⟨r, hr, by unfold InRun pageCount; omega⟩
    obtain ⟨f, hf⟩ := h.held.holds.named _ hw
    rcases (hpool f).mp (.inr ⟨_, hw, hf⟩) with ha | ⟨v, hv, hvf⟩
    · exact h.held.holds.kept _ f hw hf ((hav f).mpr ha)
    · have hvw := h.held.holds.apart _ _ f (h.pages hv) hw (hold hv hvf) hf
      obtain ⟨r₀, hr₀, hin⟩ := hv
      obtain ⟨q, hq, hplace, -⟩ := h.regions r₀ hr₀
      have hqin : InRun (q.base / 4096) q.pageCount (r.base / 4096) := by
        rw [← hvw]
        unfold pageCount at *
        rwa [hplace.1, hplace.2.1]
      rcases h.held.safe.refines.eq_or_apart hq hr with rfl | hap
      · exact hnew (hplace.1 ▸ hbase r₀ hr₀)
      · have := r.size_bounds
        exact pages_disjoint hap hqin (by unfold InRun pageCount; omega)
  · intro hno
    -- every region is one of the start: its used block is live, so it was live at the start
    have hpages : ∀ w, Pages rs w → Pages rs₀ w := by
      rintro w ⟨r, hr, hw⟩
      by_cases hb : r.base ∈ c₀.heap.heapList
      · rw [h₀.safe.refines.list] at hb
        obtain ⟨r₀, hr₀, he⟩ := List.mem_map.mp hb
        obtain ⟨q, hq, hplace, -⟩ := h.regions r₀ hr₀
        have hqr := h.held.safe.refines.eq_of_base hq hr (hplace.1.trans he)
        refine ⟨r₀, hr₀, ?_⟩
        unfold pageCount at *
        rwa [he, ← hplace.2.1, hqr]
      · have hseen : Seen 16 32 r.blocks := by_contra fun hs => hno ⟨r, hr, hb, hs⟩
        obtain ⟨y, m, hy⟩ := h.held.used r hr hseen
        obtain ⟨x, hx, hxp, -⟩ := h.held.liveAt hr hy
        obtain ⟨x₀, hx₀, he⟩ := hlive x hx
        obtain ⟨r₀, hr₀, -, z, hz, hhas, -⟩ := h₀.safe.live x₀ hx₀
        obtain ⟨q, hq, hplace, -⟩ := h.regions r₀ hr₀
        have hzy : z = y := by omega
        rcases h.held.safe.refines.eq_or_apart hq hr with rfl | hap
        · exact absurd (hplace.1 ▸ hbase r₀ hr₀) hb
        · have h1 := hhas.bounds
          have h2 := hy.bounds
          have h3 := hplace.1
          have h4 := hplace.2.1
          unfold Apart stop at hap
          unfold stop at h1 h2
          omega
    have hnamed : ∀ f, (∃ w, Pages rs w ∧ Names L c.heap.low w f) ↔
        ∃ w, Pages rs₀ w ∧ Names L c₀.heap.low w f := fun f =>
      exists_congr fun w => ⟨fun ⟨hw, hf⟩ => ⟨hpages w hw, (h.names w f (hpages w hw)).mp hf⟩,
        fun ⟨hw, hf⟩ => ⟨h.pages hw, hold hw hf⟩⟩
    intro f
    constructor
    · intro ha
      refine ((hpool f).mp (.inl ha)).resolve_right fun hn => ?_
      obtain ⟨w, hw, hf⟩ := (hnamed f).mpr hn
      exact h.held.holds.kept w f hw hf ha
    · intro ha
      refine ((hpool f).mpr (.inl ha)).resolve_right fun hn => ?_
      obtain ⟨w, hw, hf⟩ := (hnamed f).mp hn
      exact h₀.holds.kept w f hw hf ha

end Stretch

/-! ## The balance of a stretch -/

/-- A call of `kmalloc` and the state before it. -/
structure Call where
  client : Client Machine
  size : Nat

/-- The call is for `n₀` bytes and gets a block. -/
def Call.Gets (L : Layout) (word : Machine → Nat → Nat) (n₀ : Nat) (call : Call) : Prop :=
  call.size = n₀ ∧ (call.client.kmalloc L word call.size).1 ≠ 0

/-- The addresses of the live results. -/
def blocksOf (live : List Live) : Multiset Nat := ↑(live.map Live.ptr)

/-- The balance of the calls of `kmalloc` since `c₀`: `own` are the blocks taken since that will be
freed, and every block of `n₀` bytes is lost. -/
structure Balance (L : Layout) (word : Machine → Nat → Nat) (n₀ : Nat) (c₀ : Client Machine)
    (rs₀ : List (Region L)) (own : Multiset Nat) (mine : Nat → Prop) (c : Client Machine)
    (calls : List Call) : Prop where
  stretch : ∃ rs : List (Region L), Stretch L c₀ rs₀ mine
    (∃ call ∈ calls, SliversNew c₀ call.client call.size) c rs
  freeable : ∀ a ∈ own, ∃ x ∈ c.live, x.ptr = a ∧ x.virtual = 0
  blocks : ∃ lost : Multiset Nat, blocksOf c.live = own + (lost + blocksOf c₀.live) ∧
    (lost = 0 ↔ ∀ call ∈ calls, ¬ call.Gets L word n₀)

theorem SafeInv.nodup {c : Client Machine} {rs : List (Region L)} (h : SafeInv c rs) :
    (blocksOf c.live).Nodup := List.pairwise_map.mpr h.distinct

/-- `kfree` takes one block away. -/
theorem blocksOf_forget {live : List Live} (h : (blocksOf live).Nodup) (p : Nat) :
    blocksOf (forget p live) = (blocksOf live).erase p := by
  rw [h.erase_eq_filter]
  unfold blocksOf forget
  rw [Multiset.filter_coe, List.filter_map]
  rfl

namespace Balance

variable {n₀ : Nat} {c₀ c : Client Machine} {rs₀ : List (Region L)} {own : Multiset Nat}
  {mine mine' : Nat → Prop} {calls : List Call}

theorem start (word : Machine → Nat → Nat) (n₀ : Nat) {rs : List (Region L)} (h : HeapHeld L c rs) :
    Balance L word n₀ c rs 0 (fun _ => False) c [] where
  stretch := ⟨rs, by simpa using Stretch.start h⟩
  freeable a ha := absurd ha (Multiset.notMem_zero a)
  blocks := ⟨0, by rw [zero_add, zero_add], by simp⟩

theorem nodup (h : Balance L word n₀ c₀ rs₀ own mine c calls) : (blocksOf c.live).Nodup := by
  obtain ⟨rs, hs⟩ := h.stretch
  exact hs.held.safe.nodup

theorem paging (h : Balance L word n₀ c₀ rs₀ own mine c calls) : PagingOk L c.heap.low := by
  obtain ⟨rs, hs⟩ := h.stretch
  exact hs.held.holds.paging

theorem not_avail (h : Balance L word n₀ c₀ rs₀ own mine c calls) {f : Nat}
    (hf : ¬ Avail c₀.heap.low f) : ¬ Avail c.heap.low f := by
  obtain ⟨rs, hs⟩ := h.stretch
  exact hs.not_avail hf

theorem apart (h : Balance L word n₀ c₀ rs₀ own mine c calls) {f : Nat} (hf : mine f) :
    ¬ Avail c.heap.low f := by
  obtain ⟨rs, hs⟩ := h.stretch
  exact fun ha => hs.apart f hf (.inl ha)

/-- The state of the log after a call. -/
theorem kmalloc_stretch {n : Nat} (h : Balance L word n₀ c₀ rs₀ own mine c calls) (hn : Small n) :
    ∃ rs : List (Region L), Stretch L c₀ rs₀ mine
      (∃ call ∈ calls ++ [⟨c, n⟩], SliversNew c₀ call.client call.size)
      (c.kmalloc L word n).2 rs := by
  obtain ⟨rs, hs⟩ := h.stretch
  obtain ⟨rs', hs'⟩ := hs.kmalloc word hn
  refine ⟨rs', ?_⟩
  simpa only [List.mem_append, List.mem_singleton, or_and_right, exists_or, exists_eq_left] using hs'

/-- A call that gets nothing. -/
theorem kmalloc_none {n : Nat} (h : Balance L word n₀ c₀ rs₀ own mine c calls) (hn : Small n)
    (hp : (c.kmalloc L word n).1 = 0) :
    Balance L word n₀ c₀ rs₀ own mine (c.kmalloc L word n).2 (calls ++ [⟨c, n⟩]) := by
  have hlive : (c.kmalloc L word n).2.live = c.live := by
    show record 0 n (c.kmalloc L word n).1 _ c.live = c.live
    rw [record, if_pos hp]
  obtain ⟨lost, hb, hlost⟩ := h.blocks
  refine ⟨h.kmalloc_stretch hn, by rw [hlive]; exact h.freeable, lost, by rw [hlive]; exact hb,
    hlost.trans ?_⟩
  rw [List.forall_mem_append, List.forall_mem_singleton]
  exact (and_iff_left fun hg => hg.2 hp).symm

/-- A call that gets a block. -/
theorem kmalloc_blocks {n : Nat} (hp : (c.kmalloc L word n).1 ≠ 0) :
    blocksOf (c.kmalloc L word n).2.live = (c.kmalloc L word n).1 ::ₘ blocksOf c.live ∧
      (∃ x ∈ (c.kmalloc L word n).2.live, x.ptr = (c.kmalloc L word n).1 ∧ x.virtual = 0) ∧
      ∀ x ∈ c.live, x ∈ (c.kmalloc L word n).2.live := by
  have hlive : (c.kmalloc L word n).2.live = ⟨(c.kmalloc L word n).1, n, 0,
      ksize (c.kmalloc L word n).1 (c.kmalloc L word n).2.heap⟩ :: c.live := by
    show record 0 n (c.kmalloc L word n).1 (c.kmalloc L word n).2.heap c.live = _
    rw [record, if_neg hp]
  rw [hlive]
  exact ⟨rfl, ⟨_, List.mem_cons_self, rfl, rfl⟩, fun _ hx => List.mem_cons_of_mem _ hx⟩

/-- **A block that will be freed.** -/
theorem kmalloc_own {n : Nat} (h : Balance L word n₀ c₀ rs₀ own mine c calls) (hn : Small n)
    (hne : n ≠ n₀) (hp : (c.kmalloc L word n).1 ≠ 0) :
    Balance L word n₀ c₀ rs₀ ((c.kmalloc L word n).1 ::ₘ own) mine (c.kmalloc L word n).2
      (calls ++ [⟨c, n⟩]) := by
  obtain ⟨hblocks, hnew, hold⟩ := kmalloc_blocks hp
  obtain ⟨lost, hb, hlost⟩ := h.blocks
  refine ⟨h.kmalloc_stretch hn, fun a ha => ?_, lost, ?_, hlost.trans ?_⟩
  · rcases Multiset.mem_cons.mp ha with rfl | ha
    · exact hnew
    · obtain ⟨x, hx, hxa⟩ := h.freeable a ha
      exact ⟨x, hold x hx, hxa⟩
  · rw [hblocks, hb, Multiset.cons_add]
  · rw [List.forall_mem_append, List.forall_mem_singleton]
    exact (and_iff_left fun hg => hne hg.1).symm

/-- **A block that is lost.** -/
theorem kmalloc_lost (h : Balance L word n₀ c₀ rs₀ own mine c calls) (hn : Small n₀) :
    Balance L word n₀ c₀ rs₀ own mine (c.kmalloc L word n₀).2 (calls ++ [⟨c, n₀⟩]) := by
  by_cases hp : (c.kmalloc L word n₀).1 = 0
  · exact h.kmalloc_none hn hp
  obtain ⟨hblocks, -, hold⟩ := kmalloc_blocks hp
  obtain ⟨lost, hb, hlost⟩ := h.blocks
  refine ⟨h.kmalloc_stretch hn, fun a ha => ?_, (c.kmalloc L word n₀).1 ::ₘ lost, ?_,
    iff_of_false (Multiset.cons_ne_zero) fun hno => ?_⟩
  · obtain ⟨x, hx, hxa⟩ := h.freeable a ha
    exact ⟨x, hold x hx, hxa⟩
  · rw [hblocks, hb, Multiset.cons_add, Multiset.add_cons]
  · exact hno ⟨c, n₀⟩ (by simp) ⟨rfl, hp⟩

/-- **`kfree` of a block of one's own.** -/
theorem kfree {p : Nat} (h : Balance L word n₀ c₀ rs₀ (p ::ₘ own) mine c calls) :
    Balance L word n₀ c₀ rs₀ own mine (c.kfree L word p) calls := by
  obtain ⟨rs, hs⟩ := h.stretch
  obtain ⟨lost, hb, hlost⟩ := h.blocks
  have hnodup := h.nodup
  -- no block of the start and no other block of one's own has this address
  have hout : p ∉ own + (lost + blocksOf c₀.live) := by
    rw [hb, Multiset.cons_add] at hnodup
    exact (Multiset.nodup_cons.mp hnodup).1
  have hold : ∀ x ∈ c₀.live, x.ptr ≠ p := fun x hx he => by
    refine hout (Multiset.mem_add.mpr (.inr (Multiset.mem_add.mpr (.inr ?_))))
    exact he ▸ List.mem_map_of_mem hx
  obtain ⟨rs', hs'⟩ := hs.kfree word (h.freeable p (Multiset.mem_cons_self p own)) hold
  refine ⟨⟨rs', hs'⟩, fun a ha => ?_, lost, ?_, hlost⟩
  · obtain ⟨x, hx, rfl, hv⟩ := h.freeable a (Multiset.mem_cons_of_mem ha)
    have hne : x.ptr ≠ p := fun he => hout (Multiset.mem_add.mpr (.inl (he ▸ ha)))
    exact ⟨x, by simp [Client.kfree, forget, hx, hne], rfl, hv⟩
  · show blocksOf (forget p c.live) = _
    rw [blocksOf_forget hnodup, hb, Multiset.cons_add, Multiset.erase_cons_head]

/-- **Frames change hands.** -/
theorem move {m' : Machine} (h : Balance L word n₀ c₀ rs₀ own mine c calls) (hm : PagingOk L m')
    (hnames : ∀ w f, HeapPage L w → (Names L m' w f ↔ Names L c.heap.low w f))
    (hav : ∀ f, Avail m' f ∨ mine' f ↔ Avail c.heap.low f ∨ mine f)
    (hapart : ∀ f, mine' f → ¬ Avail m' f) :
    Balance L word n₀ c₀ rs₀ own mine' ⟨{ c.heap with low := m' }, c.live⟩ calls := by
  obtain ⟨rs, hs⟩ := h.stretch
  exact ⟨⟨rs, hs.move hm hnames hav hapart⟩, h.freeable, h.blocks⟩

/-- **What is left in the end.** -/
theorem settled (h : Balance L word n₀ c₀ rs₀ 0 (fun _ => False) c calls)
    (h₀ : HeapHeld L c₀ rs₀) :
    (blocksOf c.live = blocksOf c₀.live ∧ ∀ f, Avail c.heap.low f ↔ Avail c₀.heap.low f) ↔
      ∀ call ∈ calls, ¬ call.Gets L word n₀ ∧ ¬ SliversNew c₀ call.client call.size := by
  obtain ⟨rs, hs⟩ := h.stretch
  obtain ⟨lost, hb, hlost⟩ := h.blocks
  have hblocks : blocksOf c.live = blocksOf c₀.live ↔ ∀ call ∈ calls, ¬ call.Gets L word n₀ := by
    rw [← hlost, hb, zero_add]
    exact add_eq_right
  rw [hblocks]
  constructor
  · rintro ⟨hgets, hav⟩ call hcall
    refine ⟨hgets call hcall, fun hsl => ?_⟩
    refine (hs.settled h₀ fun x hx => ?_).mp hav ⟨call, hcall, hsl⟩
    have hx' : x.ptr ∈ blocksOf c₀.live := hblocks.mpr hgets ▸ List.mem_map_of_mem hx
    exact List.mem_map.mp hx'
  · intro hno
    have hgets := fun call hcall => (hno call hcall).1
    refine ⟨hgets, (hs.settled h₀ fun x hx => ?_).mpr ?_⟩
    · have hx' : x.ptr ∈ blocksOf c₀.live := hblocks.mpr hgets ▸ List.mem_map_of_mem hx
      exact List.mem_map.mp hx'
    · rintro ⟨call, hcall, hsl⟩
      exact (hno call hcall).2 hsl

end Balance

end Moonlight
