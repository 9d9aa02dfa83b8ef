import MoonlightKernel.Heap.ShortBlocks
import MoonlightKernel.Heap.Stale

/-!
# A release gives back what was taken

Beside the heap runs a book: for each region, the heap pages and the frames that the call which
made the region took for it.  `kfree` and `vfree` know neither; they recompute the page count from
a header and the frames from the page tables.

* `bookStep` — a call of the heap, entered in the book;
* `BookInv.step` — every region still has the pages and the frames that stand in the book;
* `ReleaseExact` — a release that drops its region gives back what stands in the book, no more and
  no less, and any other release leaves both bitmaps alone;
* `release_returns_what_was_taken` — over every run without lost sizes.
-/

set_option autoImplicit false

namespace Moonlight

open Sys Sys.Bitmap Sys.Tiling Region

variable {L : Layout} {word : Machine → Nat → Nat} {rs rs' : List (Region L)}

/-! ## The book -/

/-- Heap pages, by their number in the heap's bitmap, and frames that hold no page table. -/
structure Taken where
  pages : Set Nat
  frames : Set Nat

/-- What one call of the heap took. -/
def takenBy (h h' : Heap Machine) : Taken where
  pages := {q | isSet h.mmVirtHeap q = true ∧ isSet h'.mmVirtHeap q = false}
  frames := {f | isFree h.low.mmBitmap f = true ∧ isFree h'.low.mmBitmap f = false ∧
    ¬ IsTableFrame h'.low f}

/-- A call that adds a region to the list is entered under the region's address. -/
def enter (h h' : Heap Machine) (taken : Nat → Taken) : Nat → Taken :=
  match h'.heapList with
  | [] => taken
  | e :: l => if l = h.heapList then Function.update taken e (takenBy h h') else taken

/-- The heap, its clients, and what was taken for the region at an address. -/
structure Book where
  client : Client Machine
  taken : Nat → Taken

/-- One step: a call of the heap with any size, a write of a client to its payload, or a move of
the window `page_swap`. -/
def clientStep (L : Layout) (word : Machine → Nat → Nat) (s : Client Machine) :
    HeapOp → Client Machine → Prop
  | .store, t => StoresThrough L s t
  | .other, t => (∃ f, t.heap = { s.heap with low := s.heap.low.swapTo L f }) ∧ t.live = s.live
  | op, t => requestStep L (machineBacking L word) s op t

def bookStep (L : Layout) (word : Machine → Nat → Nat) (s : Book) (op : HeapOp) (t : Book) :
    Prop :=
  clientStep L word s.client op t.client ∧ t.taken = enter s.client.heap t.client.heap s.taken

/-- The book right after `page_setup` and `heap_setup`: no region, and nothing entered. -/
def Book.start (mem : Mem) (virtHeap : Bytes) (m₀ : Machine) : Book :=
  ⟨.start mem virtHeap m₀, fun _ => ⟨∅, ∅⟩⟩

/-! ## What is claimed of a release -/

/-- The call that frees a result of an allocator: `kfree` for `kmalloc`, `vfree` for `vmalloc`. -/
def freeOf (L : Layout) (word : Machine → Nat → Nat) (virtual p : Nat) (h : Heap Machine) :
    Heap Machine :=
  if virtual = 0 then kfree L (machineBacking L word) p h else vfree L (machineBacking L word) p h

/-- One frame for each page of a run, and consecutive ones for `kmalloc`. -/
def Taken.Shaped (virtual : Nat) (x : Taken) : Prop :=
  ∃ (v n : Nat) (frame : Nat → Nat), (∀ q, q ∈ x.pages ↔ InRun v n q) ∧
    (∀ f, f ∈ x.frames ↔ ∃ q, InRun v n q ∧ frame q = f) ∧
    (∀ q q', InRun v n q → InRun v n q' → frame q = frame q' → q = q') ∧
    (virtual = 0 → ∀ i, i < n → frame (v + i) = frame v + i)

/-- The step from `h` to `h'` marks free what was taken, which was marked taken, and nothing
else. -/
structure GivesTaken (x : Taken) (h h' : Heap Machine) : Prop where
  pages : ∀ q, isSet h'.mmVirtHeap q = true ↔ isSet h.mmVirtHeap q = true ∨ q ∈ x.pages
  reserved : ∀ q ∈ x.pages, isSet h.mmVirtHeap q = false
  frames : ∀ f, isFree h'.low.mmBitmap f = true ↔ isFree h.low.mmBitmap f = true ∨ f ∈ x.frames
  allocated : ∀ f ∈ x.frames, isFree h.low.mmBitmap f = false

/-- A release of `l` finds a region; when it drops the region, it gives back exactly what was taken
for it, else both bitmaps stay as they are. -/
def ReleaseExact (L : Layout) (word : Machine → Nat → Nat) (s : Book) (l : Live) : Prop :=
  let h := s.client.heap
  let h' := freeOf L word l.virtual l.ptr h
  ∃ e head, lookup l.ptr h.mem h.heapList = some (e, head) ∧
    (e ∉ h'.heapList → GivesTaken (s.taken e) h h' ∧ (s.taken e).Shaped l.virtual) ∧
    (e ∈ h'.heapList → h'.mmVirtHeap = h.mmVirtHeap ∧ h'.low.mmBitmap = h.low.mmBitmap)

/-! ## The invariant -/

/-- What stands in the book for a region is what it has: its pages of the window, and the frames
that they name. -/
structure Entered (m : Machine) (r : Region L) (x : Taken) : Prop where
  pages : ∀ q, q ∈ x.pages ↔ InRun (heapPage L r.base) r.pageCount q
  frames : ∀ f, f ∈ x.frames ↔ ∃ w, InRun (r.base / 4096) r.pageCount w ∧ Names L m w f
  run : r.virtual = 0 → ∃ p, ∀ w, InRun (r.base / 4096) r.pageCount w →
    Names L m w (p + (w - r.base / 4096))

structure BookInv (s : Book) (rs : List (Region L)) : Prop where
  safe : SafeInv s.client rs
  holds : Holds L s.client.heap.low (Pages rs)
  entered : ∀ r ∈ rs, Entered s.client.heap.low r (s.taken r.base)

/-- The two regions have the same place and kind. -/
def SamePlace (r r' : Region L) : Prop :=
  r'.base = r.base ∧ r'.size = r.size ∧ r'.virtual = r.virtual

theorem Entered.congr {m m' : Machine} {r r' : Region L} {x : Taken} (h : Entered m r x)
    (hr : SamePlace r r') (hnames : ∀ w f, InRun (r.base / 4096) r.pageCount w →
      (Names L m' w f ↔ Names L m w f)) : Entered m' r' x := by
  obtain ⟨hbase, hsize, hvirtual⟩ := hr
  have hcount : r'.pageCount = r.pageCount := by
    unfold pageCount
    rw [hsize]
  constructor
  · rw [hbase, hcount]
    exact h.pages
  · intro f
    rw [hbase, hcount, h.frames]
    exact exists_congr fun w => and_congr_right fun hw => (hnames w f hw).symm
  · rw [hbase, hcount, hvirtual]
    intro h0
    obtain ⟨p, hp⟩ := h.run h0
    exact ⟨p, fun w hw => (hnames w _ hw).mpr (hp w hw)⟩

/-! ## Entries -/

theorem enter_of_length_le {h h' : Heap Machine} (hle : h'.heapList.length ≤ h.heapList.length)
    (taken : Nat → Taken) : enter h h' taken = taken := by
  unfold enter
  split
  · rfl
  · rename_i e l heq
    rw [heq, List.length_cons] at hle
    rw [if_neg]
    rintro rfl
    omega

theorem enter_cons {h h' : Heap Machine} {e : Nat} (heq : h'.heapList = e :: h.heapList)
    (taken : Nat → Taken) : enter h h' taken = Function.update taken e (takenBy h h') := by
  unfold enter
  rw [heq]
  exact if_pos rfl

/-! ## Allocations -/

/-- An allocation that the list can serve changes no region's place. -/
theorem samePlace_of_served {Grow : Nat → Nat → Machine → Machine → Prop} {n virtual p : Nat}
    {h h' : Heap Machine} (ha : Allocated Grow virtual n h rs p h' rs') (hp : p ≠ 0)
    (hfit : firstFitHead virtual n h.mem h.heapList ≠ none) :
    ∀ r' ∈ rs', ∃ r ∈ rs, SamePlace r r' := by
  cases ha with
  | failed => exact absurd rfl hp
  | kept => exact absurd rfl hp
  | @served l t r r' bl bt b _ hrs hv hfit hhand hbm hlow =>
    subst hrs
    intro q hq
    rcases mem_append_cons.mp hq with rfl | hq
    · exact ⟨r, by simp, hhand.base, hhand.size_eq, hhand.virtual⟩
    · exact ⟨q, mem_append_cons.mpr (.inr hq), rfl, rfl, rfl⟩
  | grown _ hnone => exact absurd hnone hfit

theorem samePlace_refl (rs : List (Region L)) : ∀ r' ∈ rs, ∃ r ∈ rs, SamePlace r r' :=
  fun r hr => ⟨r, hr, rfl, rfl, rfl⟩

/-- A free run has no page of a region. -/
theorem not_pages_of_freeRun {h : Heap Machine} (hh : Refines h rs) {v k w : Nat}
    (hrun : FreeRun L h.mmVirtHeap (v * 4096) k) (hw : InRun v k w) : ¬ Pages rs w := by
  rintro ⟨r, hr, hin⟩
  have h1 := r.size_bounds
  have h2 := r.aligned
  have h3 := hrun.lo
  have h4 := HEAP_START_bounds L
  have htaken := hh.taken r hr (w * 4096) (by unfold InRun at hin; omega) (by
    unfold InRun pageCount at hin
    unfold stop
    omega)
  rw [hrun.free _ (by unfold InRun at hw; unfold heapPage; omega) (by
    unfold InRun at hw
    unfold heapPage
    omega)] at htaken
  cases htaken

/-- What the backing of a new region takes: the pages that were reserved, and their frames. -/
theorem entered_of_backsRun {h h' : Heap Machine} {r : Region L} {v k : Nat}
    (hbase : r.base = v * 4096) (hcount : r.pageCount = k)
    (hrun : FreeRun L h.mmVirtHeap (v * 4096) k)
    (hbm : h'.mmVirtHeap = clearRun (heapPage L (v * 4096)) k h.mmVirtHeap)
    (hb : BacksRun L h.low h'.low v k)
    (hconsec : r.virtual = 0 → ∃ p, ∀ w, InRun v k w → Names L h'.low w (p + (w - v))) :
    Entered h'.low r (takenBy h h') := by
  have hv : r.base / 4096 = v := by omega
  constructor
  · intro q
    rw [hcount, hbase]
    show isSet h.mmVirtHeap q = true ∧ isSet h'.mmVirtHeap q = false ↔ _
    rw [hbm, isSet_clearRun]
    constructor
    · rintro ⟨hset, hclear⟩
      rw [hset, Bool.true_and, Bool.not_eq_false', decide_eq_true_eq] at hclear
      exact hclear
    · intro hq
      have hset := hrun.free q hq.1 hq.2
      rw [hset, Bool.true_and, Bool.not_eq_false', decide_eq_true_eq]
      exact ⟨rfl, hq⟩
  · intro f
    rw [hv, hcount]
    show isFree h.low.mmBitmap f = true ∧ isFree h'.low.mmBitmap f = false ∧
      ¬ IsTableFrame h'.low f ↔ _
    have hav := hb.opens.avail f
    constructor
    · rintro ⟨hfree, hused, htab⟩
      by_contra hno
      rcases hav.mpr ⟨.inl hfree, hno⟩ with h1 | h1
      · rw [h1] at hused
        cases hused
      · exact htab h1
    · rintro ⟨w, hw, hf⟩
      obtain ⟨g, hg, hgf⟩ := hb.named w hw
      obtain rfl := hf.unique hg
      have hno : ¬ Avail h'.low f := fun ha => (hav.mp ha).2 ⟨w, hw, hf⟩
      exact ⟨hgf, by rw [← Bool.not_eq_true]; exact fun k => hno (.inl k), fun k => hno (.inr k)⟩
  · rw [hv, hcount]
    exact hconsec

namespace BookInv

variable {s : Book}

theorem mem_pages {r : Region L} (hr : r ∈ rs) {w : Nat}
    (hw : InRun (r.base / 4096) r.pageCount w) : Pages rs w := ⟨r, hr, hw⟩

/-- A step that adds no region, and leaves those of the regions that are left as they were. -/
theorem kept {t : Client Machine} (hs : BookInv s rs) (hsafe : SafeInv t rs')
    (hsame : ∀ r' ∈ rs', ∃ r ∈ rs, SamePlace r r')
    (hlen : t.heap.heapList.length ≤ s.client.heap.heapList.length)
    (hholds : Holds L t.heap.low (Pages rs'))
    (hnames : ∀ w f, Pages rs w → (Names L t.heap.low w f ↔ Names L s.client.heap.low w f)) :
    BookInv ⟨t, enter s.client.heap t.heap s.taken⟩ rs' := by
  refine ⟨hsafe, hholds, fun r' hr' => ?_⟩
  obtain ⟨r, hr, hplace⟩ := hsame r' hr'
  dsimp only
  rw [enter_of_length_le hlen, hplace.1]
  exact (hs.entered r hr).congr hplace fun w f hw => hnames w f (mem_pages hr hw)

/-- Pages that keep their names name the same before and after. -/
theorem names_iff {m m' : Machine} {D : Nat → Prop} (h : Holds L m D) {w : Nat} (hw : D w)
    (hkeep : ∀ f, Names L m w f → Names L m' w f) (f : Nat) : Names L m' w f ↔ Names L m w f := by
  refine ⟨fun hf => ?_, hkeep f⟩
  obtain ⟨g, hg⟩ := h.named w hw
  exact hf.unique (hkeep g hg) ▸ hg

/-- An allocation that fails on the way leaves the pages of the regions alone. -/
theorem failed {t : Client Machine} {P : Nat → Prop} (hs : BookInv s rs) (hsafe : SafeInv t rs)
    (hlist : t.heap.heapList = s.client.heap.heapList)
    (hsp : Spares L s.client.heap.low t.heap.low P) (hout : ∀ w, Pages rs w → ¬ P w) :
    BookInv ⟨t, enter s.client.heap t.heap s.taken⟩ rs := by
  refine hs.kept hsafe (samePlace_refl rs) (Nat.le_of_eq (by rw [hlist]))
    (hs.holds.spared_outside hsp hout) fun w f hw => ?_
  exact names_iff hs.holds hw (fun f => hsp.keeps w f (hs.holds.heap w hw) (hout w hw)) f

/-- An allocation that adds a region. -/
theorem grown {t : Client Machine} {r : Region L} {v k : Nat} (hs : BookInv s rs)
    (hsafe : SafeInv t (r :: rs)) (hbase : r.base = v * 4096) (hcount : r.pageCount = k)
    (hrun : FreeRun L s.client.heap.mmVirtHeap (v * 4096) k)
    (hbm : t.heap.mmVirtHeap = clearRun (heapPage L (v * 4096)) k s.client.heap.mmVirtHeap)
    (hb : BacksRun L s.client.heap.low t.heap.low v k)
    (hconsec : r.virtual = 0 → ∃ p, ∀ w, InRun v k w → Names L t.heap.low w (p + (w - v))) :
    BookInv ⟨t, enter s.client.heap t.heap s.taken⟩ (r :: rs) := by
  have hv : r.base / 4096 = v := by omega
  have hlist : t.heap.heapList = r.base :: s.client.heap.heapList := by
    rw [hsafe.refines.list, hs.safe.refines.list, List.map_cons]
  have hheap : ∀ w, InRun v k w → HeapPage L w := fun w hw =>
    r.run_heapPage (by rw [hv, hcount]; exact hw)
  have hall := hs.holds.backed hb hheap
  have hout : ∀ w, Pages rs w → ¬ InRun v k w := fun w hw hin =>
    not_pages_of_freeRun hs.safe.refines hrun hin hw
  refine ⟨hsafe, ?_, List.forall_mem_cons.mpr ⟨?_, fun q hq => ?_⟩⟩
  · have hsub : ∀ w, Pages (r :: rs) w → Pages rs w ∨ InRun v k w := by
      rintro w ⟨q, hq, hw⟩
      rcases List.mem_cons.mp hq with rfl | hq
      · rw [hv, hcount] at hw
        exact .inr hw
      · exact .inl ⟨q, hq, hw⟩
    exact hall.spared (.refl hall.paging fun _ => False) hsub (fun w hw => hall.named w (hsub w hw))
      fun _ _ _ hn => hn
  · dsimp only
    rw [enter_cons hlist, Function.update_self]
    exact entered_of_backsRun hbase hcount hrun hbm hb hconsec
  · -- a region that was there keeps its entry, and its pages are outside the run
    have hne : q.base ≠ r.base := fun he => by
      have hap := (List.pairwise_cons.mp hsafe.refines.apart).1 q hq
      have h1 := q.base_lt_stop
      have h2 := r.base_lt_stop
      unfold Apart at hap
      omega
    dsimp only
    rw [enter_cons hlist, Function.update_of_ne hne]
    refine (hs.entered q hq).congr ⟨rfl, rfl, rfl⟩ fun w f hw => ?_
    have hD : Pages rs w := mem_pages hq hw
    exact names_iff hs.holds hD
      (fun f => hb.opens.keeps w f (hs.holds.heap w hD) (hout w hD)) f

/-- **An allocation**, by what its calls do to the pages. -/
theorem allocated {Grow : Nat → Nat → Machine → Machine → Prop}
    {Fail : Nat → Nat → Nat → Machine → Machine → Prop} {virtual n p : Nat} {h' : Heap Machine}
    (hs : BookInv s rs) (hvirtual : virtual < 2) (hn : Requestable n)
    (ho : Outcome L (machineBacking L word) Grow Fail virtual n s.client.heap p h')
    (hgrow : ∀ {v k : Nat} {m' : Machine}, (∀ w, InRun v k w → HeapPage L w) →
      Grow (v * 4096) k s.client.heap.low m' → BacksRun L s.client.heap.low m' v k ∧
        (virtual = 0 → ∃ p, ∀ w, InRun v k w → Names L m' w (p + (w - v))))
    (hfail : ∀ {v k j : Nat} {m' : Machine}, (∀ w, InRun v k w → HeapPage L w) → j ≤ k →
      Fail (v * 4096) k j s.client.heap.low m' →
        Spares L s.client.heap.low m' (InRun v k)) :
    ∃ rs' : List (Region L), BookInv ⟨⟨h', record virtual n p h' s.client.live⟩,
      enter s.client.heap h' s.taken⟩ rs' := by
  have hh := hs.safe.refines
  have hsame : ∀ w f, Pages rs w → (Names L s.client.heap.low w f ↔ Names L s.client.heap.low w f) :=
    fun _ _ _ => Iff.rfl
  have hfailed : ∀ h', Allocated Grow virtual n s.client.heap rs 0 h' rs := .failed
  cases ho with
  | nothing =>
    exact ⟨rs, hs.kept (hs.safe.allocated hh (hfailed _)) (samePlace_refl rs) (Nat.le_refl _)
      hs.holds hsame⟩
  | @served e y hfit =>
    obtain ⟨rs', hh', ha⟩ : ∃ rs', Refines _ rs' ∧ Allocated Grow virtual n s.client.heap rs _ _ rs' :=
      served_simulates hh hfit
    have hplace := samePlace_of_served ha (by unfold headerSize; omega) (by rw [hfit]; simp)
    have hpages : ∀ w, Pages rs' w → Pages rs w := by
      rintro w ⟨r', hr', hw⟩
      obtain ⟨r, hr, hbase, hsize, -⟩ := hplace r' hr'
      unfold pageCount at hw
      rw [hbase, hsize] at hw
      exact ⟨r, hr, hw⟩
    refine ⟨rs', hs.kept (hs.safe.allocated hh' ha) hplace (Nat.le_refl _) ?_ hsame⟩
    exact hs.holds.spared (.refl hs.holds.paging fun _ => False) hpages
      (fun w hw => hs.holds.named w (hpages w hw)) fun _ _ _ hf => hf
  | @failed v m' _ hnone hfind hrun hf =>
    obtain ⟨w, rfl⟩ : ∃ w, v = w * 4096 := ⟨v / 4096, by have := hrun.aligned; omega⟩
    have hheap := fun u => hrun.heapPage (w := u)
    rw [Nat.mul_div_cancel _ (by decide)] at hheap
    refine ⟨rs, hs.failed ?_ rfl (hfail hheap hn.covers hf) fun u hu hin =>
      not_pages_of_freeRun hh hrun hin hu⟩
    exact hs.safe.allocated (release_reserved hh hrun hn.covers rfl rfl rfl) (hfailed _)
  | @grown v m' hrun hnone hg =>
    obtain ⟨w, rfl⟩ : ∃ w, v = w * 4096 := ⟨v / 4096, by have := hrun.aligned; omega⟩
    have hheap := fun u => hrun.heapPage (w := u)
    rw [Nat.mul_div_cancel _ (by decide)] at hheap
    obtain ⟨hb, hconsec⟩ := hgrow hheap hg
    obtain ⟨r', ⟨hbase, hstop, hv⟩, hh', ha⟩ :=
      addRegion_fresh hh (machineBacking L word) hvirtual hn hrun hg hnone rfl
    refine ⟨r' :: rs, hs.grown (hs.safe.allocated hh' ha) hbase ?_ hrun rfl hb fun h0 =>
      hconsec (hv ▸ h0)⟩
    unfold stop at hstop
    unfold pageCount
    omega

end BookInv

/-! ## Releases -/

/-- `drop` gives the frames of the pages back, consecutive ones where the allocator takes such. -/
def DropsNamed (L : Layout) (virtual : Nat) (drop : Nat → Nat → Machine → Machine) : Prop :=
  ∀ {m : Machine} {D : Nat → Prop} {v n : Nat}, Holds L m D → 0 < n → (∀ w, InRun v n w → D w) →
    (virtual = 0 → ∃ p, ∀ w, InRun v n w → Names L m w (p + (w - v))) →
    GivesBack L m (drop (v * 4096) n m) fun f => ∃ w, InRun v n w ∧ Names L m w f

theorem kdrop_named (L : Layout) (word : Machine → Nat → Nat) :
    DropsNamed L 0 (KDrop (machineBacking L word)) := by
  intro m D v n h hn hD hrun
  obtain ⟨p, hp⟩ := hrun rfl
  refine givesBack_kdrop (p := p) h.paging hn fun i hi => ?_
  have hin : InRun v n (v + i) := by
    unfold InRun
    omega
  have hname := hp _ hin
  rw [Nat.add_sub_cancel_left] at hname
  exact ⟨hname, fun ht => h.kept _ _ (hD _ hin) hname (.inr ht)⟩

theorem vdrop_named (L : Layout) (word : Machine → Nat → Nat) (virtual : Nat) :
    DropsNamed L virtual (VDrop (machineBacking L word)) := by
  intro m D v n h _ hD _
  refine givesBack_freeMapped word n h.paging fun w hw => ?_
  obtain ⟨f, hf⟩ := h.named w (hD w hw)
  exact ⟨f, hf, fun ht => h.kept w f (hD w hw) hf (.inr ht)⟩

namespace BookInv

variable {s : Book} {virtual : Nat} {drop : Nat → Nat → Machine → Machine}
  {defrag : Nat → Heap Machine → Heap Machine}

/-- The frames of a region go back. -/
theorem dropBack (hs : BookInv s rs) (hdrop : DropsNamed L virtual drop) {r : Region L}
    (hr : r ∈ rs) (hv : r.virtual = virtual) :
    GivesBack L s.client.heap.low (drop r.base ((32 + r.size) / 4096) s.client.heap.low)
      fun f => ∃ w, InRun (r.base / 4096) r.pageCount w ∧ Names L s.client.heap.low w f := by
  have hpos : 0 < r.pageCount := by
    have := r.size_bounds
    unfold pageCount
    omega
  have hback := hdrop hs.holds hpos (fun w hw => mem_pages hr hw)
    fun h0 => (hs.entered r hr).run (hv.trans h0)
  rw [r.base_eq] at hback
  exact hback

/-- **A release keeps the book.** -/
theorem released (hs : BookInv s rs) (hdrop : DropsNamed L virtual drop) {y : Nat}
    {h' : Heap Machine} (hh' : Refines h' rs') (hr : Released drop s.client.heap rs y h' rs')
    (hv : ∀ r ∈ rs, ∀ m, r.Has y ⟨m, false⟩ → r.virtual = virtual) :
    BookInv ⟨⟨h', forget (y + 16) s.client.live⟩, enter s.client.heap h' s.taken⟩ rs' := by
  have hsafe := hs.safe.released hh' hr
  cases hr with
  | @merged l t r r' bl bt m _ hrs hm hy hkeep hbm hlow =>
    subst hrs
    refine hs.kept hsafe (fun q hq => ?_) ?_ ?_ fun w f _ => by rw [hlow]
    · rcases mem_append_cons.mp hq with rfl | hq
      · exact ⟨r, by simp, hm.base, hm.size_eq, hm.virtual⟩
      · exact ⟨q, mem_append_cons.mpr (.inr hq), rfl, rfl, rfl⟩
    · rw [hh'.list, hs.safe.refines.list]
      simp
    · have hpages : Pages (l ++ r' :: t) = Pages (l ++ r :: t) :=
        funext fun w => propext (pages_update hm.base hm.size_eq w)
      rw [hlow, hpages]
      exact hs.holds
  | @dropped l t r r' bl bt m c _ hrs hm hy hone hbm hlow =>
    subst hrs
    have hblk : r.Has y ⟨m, false⟩ := by
      rw [Has, hm.before, at_append, hy]
      simp
    have hback := hs.dropBack hdrop (r := r) (by simp) (hv r (by simp) m hblk)
    rw [← hlow] at hback
    have hpages := pages_remove hs.safe.refines.apart
    refine hs.kept hsafe (fun q hq => ?_) ?_ ?_ fun w f _ => hback.names w f
    · exact ⟨q, mem_append_cons.mpr (.inr (List.mem_append.mp hq)), rfl, rfl, rfl⟩
    · rw [hh'.list, hs.safe.refines.list]
      simp
    · have hall := hs.holds.givenBack hback fun w hw => mem_pages (by simp) hw
      exact hall.spared (.refl hall.paging fun _ => False) (fun w hw => (hpages w).mp hw)
        (fun w hw => hall.named w ((hpages w).mp hw)) fun _ _ _ hf => hf

/-- What stands in the book for a region has one frame for each page. -/
theorem shaped (hs : BookInv s rs) {r : Region L} (hr : r ∈ rs) :
    (s.taken r.base).Shaped r.virtual := by
  have hentry := hs.entered r hr
  have hlo := r.lo
  have hal := r.aligned
  have hL := HEAP_START_bounds L
  -- the frame of a page is what `page_get_phys` answers
  let frame : Nat → Nat := fun w => (pageGetPhys L (w * 4096) s.client.heap.low).1 / 4096
  have hphys : ∀ {w f : Nat}, Names L s.client.heap.low w f → frame w = f := fun {w f} hf => by
    show (pageGetPhys L (w * 4096) s.client.heap.low).1 / 4096 = f
    rw [hf.phys, Nat.mul_div_cancel _ (by decide)]
  have hframe : ∀ w, InRun (r.base / 4096) r.pageCount w →
      Names L s.client.heap.low w (frame w) := fun w hw => by
    obtain ⟨f, hf⟩ := hs.holds.named w (mem_pages hr hw)
    rw [hphys hf]
    exact hf
  have hin : ∀ q, InRun (heapPage L r.base) r.pageCount q ↔
      heapPage L r.base ≤ q ∧ InRun (r.base / 4096) r.pageCount (q + HEAP_START L / 4096) :=
    fun q => by
      unfold InRun heapPage
      omega
  refine ⟨heapPage L r.base, r.pageCount, fun q => frame (q + HEAP_START L / 4096),
    hentry.pages, fun f => ?_, fun q q' hq hq' he => ?_, fun h0 i hi => ?_⟩
  · rw [hentry.frames]
    constructor
    · rintro ⟨w, hw, hf⟩
      refine ⟨w - HEAP_START L / 4096, ?_, ?_⟩
      · unfold InRun heapPage at *
        omega
      · have : w - HEAP_START L / 4096 + HEAP_START L / 4096 = w := by
          unfold InRun at hw
          omega
        dsimp only
        rw [this]
        exact hphys hf
    · rintro ⟨q, hq, rfl⟩
      exact ⟨_, ((hin q).mp hq).2, hframe _ ((hin q).mp hq).2⟩
  · have h1 := ((hin q).mp hq).2
    have h2 := ((hin q').mp hq').2
    have hf := hframe _ h2
    dsimp only at he
    rw [← he] at hf
    have := hs.holds.apart _ _ _ (mem_pages hr h1) (mem_pages hr h2) (hframe _ h1) hf
    omega
  · obtain ⟨p, hp⟩ := hentry.run h0
    have hword : ∀ j, j < r.pageCount →
        frame (heapPage L r.base + j + HEAP_START L / 4096) = p + j := fun j hj => by
      have hw : InRun (r.base / 4096) r.pageCount (heapPage L r.base + j + HEAP_START L / 4096) := by
        unfold InRun heapPage
        omega
      rw [hphys (hp _ hw)]
      unfold heapPage
      omega
    have h00 := hword 0 (by omega)
    rw [Nat.add_zero, Nat.add_zero] at h00
    dsimp only
    rw [hword i hi, h00]

/-- A live result is found in its region, and its release keeps the book. -/
theorem find_released (hs : BookInv s rs) (hdef : Defrags L drop defrag) {x : Live}
    (hx : x ∈ s.client.live) :
    ∃ r ∈ rs, r.virtual = x.virtual ∧ ∃ (y : Nat) (rs' : List (Region L)), x.ptr = y + 16 ∧
      lookup x.ptr s.client.heap.mem s.client.heap.heapList = some (r.base, y) ∧
      (∀ q ∈ rs, ∀ m, q.Has y ⟨m, false⟩ → q = r) ∧
      Refines (free defrag x.ptr s.client.heap) rs' ∧
      Released drop s.client.heap rs y (free defrag x.ptr s.client.heap) rs' := by
  obtain ⟨r, hr, hrv, y, hp, hy, hlt⟩ := hs.safe.live x hx
  have hone : ∀ q ∈ rs, ∀ m, q.Has y ⟨m, false⟩ → q = r := fun q hq m hm => by
    rcases hs.safe.refines.block_disjoint hq hr hm hy with ⟨h, -⟩ | k | k
    · exact h
    · dsimp only at k
      omega
    · dsimp only at k
      omega
  refine ⟨r, hr, hrv, y, ?_⟩
  obtain ⟨l, t, rfl⟩ := List.append_of_mem hr
  obtain ⟨rs', hh', hrel⟩ := free_simulates hdef hs.safe.refines hy hlt
  rw [hp]
  refine ⟨rs', rfl, ?_, hone, hh', hrel⟩
  rw [hs.safe.refines.list]
  exact lookup_used hs.safe.refines.shown hs.safe.refines.apart hy hlt

/-- A release of null, or of a live result of the matching allocator. -/
theorem freed (hs : BookInv s rs) (hdef : Defrags L drop defrag) (hdrop : DropsNamed L virtual drop)
    {p : Nat} (hmay : MayFree s.client virtual p) :
    ∃ rs' : List (Region L), BookInv ⟨⟨free defrag p s.client.heap, forget p s.client.live⟩,
      enter s.client.heap (free defrag p s.client.heap) s.taken⟩ rs' := by
  rcases hmay with rfl | ⟨x, hx, rfl, hxv⟩
  · refine ⟨rs, ?_⟩
    rw [free, if_pos rfl, forget_zero hs.safe, enter_of_length_le (Nat.le_refl _)]
    exact hs
  · obtain ⟨r, hr, hrv, y, rs', hp, -, hone, hh', hrel⟩ := hs.find_released hdef hx
    rw [hp] at hh' hrel ⊢
    refine ⟨rs', hs.released hdrop hh' hrel fun q hq m hm => ?_⟩
    rw [hone q hq m hm, hrv, hxv]

/-- A write of a client touches no page table and no header. -/
theorem stored {t : Client Machine} (hs : BookInv s rs) (h : StoresThrough L s.client t) :
    BookInv ⟨t, enter s.client.heap t.heap s.taken⟩ rs := by
  have hsafe := hs.safe.storeThrough h
  obtain ⟨x, hx, -, hram, hheap, hlive⟩ := h
  obtain ⟨th, tl⟩ := t
  dsimp only at hram hheap
  have hdir : th.low.pageDirectory = s.client.heap.low.pageDirectory := by rw [hheap]
  have hbm : th.low.mmBitmap = s.client.heap.low.mmBitmap := by rw [hheap]
  -- a frame written to backs the payload, so it is held
  have htab : ∀ f, IsTableFrame s.client.heap.low f →
      th.low.ram f = s.client.heap.low.ram f := fun f hf => by
    funext i
    by_contra hne
    obtain ⟨q, hq, -, y, hp, hy, hlt⟩ := hs.safe.live x hx
    obtain ⟨a, ⟨ha1, ha2⟩, hphys⟩ := hram f i hne
    rw [hp, hs.safe.refines.ksize_eq hq hy hlt] at ha2
    have hpage : Pages rs (a / 4096) := by
      have h1 := q.aligned
      have h2 := q.size_bounds
      have hb := hy.bounds
      refine mem_pages hq ?_
      dsimp only at ha2 hb
      unfold stop at hb
      unfold InRun pageCount
      omega
    obtain ⟨g, hg⟩ := hs.holds.named _ hpage
    have := hg.phys
    rw [pageGetPhys_eq, slot_page, ← pageGetPhys_eq, hphys] at this
    obtain rfl : f = g := by omega
    exact hs.holds.kept _ f hpage hg (.inr hf)
  have hnames : ∀ w f, Pages rs w → (Names L th.low w f ↔ Names L s.client.heap.low w f) :=
    fun w f hw => names_of_store hs.holds.paging hdir htab (hs.holds.heap w hw)
  have hlen : th.heapList.length = s.client.heap.heapList.length := by rw [hheap]
  refine hs.kept hsafe (samePlace_refl rs) (Nat.le_of_eq hlen) ?_ hnames
  refine hs.holds.congr (hs.holds.paging.congr hdir hbm) (fun f => ?_) hnames
  unfold Avail
  rw [hbm, isTableFrame_congr hdir]

/-- **One step keeps the book**, unless a request loses its size. -/
theorem step {t : Book} {op : HeapOp} (hs : BookInv s rs) (h : bookStep L word s op t)
    (hop : NotLost op) : ∃ rs' : List (Region L), BookInv t rs' := by
  obtain ⟨⟨th, tl⟩, ttaken⟩ := t
  obtain ⟨h, htaken⟩ := h
  dsimp only at htaken
  subst htaken
  cases op with
  | kmalloc n =>
    obtain ⟨hn, hth, htl⟩ := h
    dsimp only at hth htl
    subst hth htl
    refine hs.allocated (by decide) ((requestable_iff hn).mpr hop) (kmalloc_outcome L _ n _)
      (fun hheap hg => ?_) fun hheap hj hf => (kfail_spares hs.holds.paging hheap (fun _ => hj) hf).1
    obtain ⟨hb, hp⟩ := kgrow_backs hs.holds.paging hheap hg
    exact ⟨hb, fun _ => hp⟩
  | vmalloc n =>
    obtain ⟨hn, hth, htl⟩ := h
    dsimp only at hth htl
    subst hth htl
    refine hs.allocated (by decide) ((requestable_iff hn).mpr hop) (vmalloc_outcome L _ n _)
      (fun hheap hg => ⟨vgrow_backs hs.holds.paging hheap hg, fun h => by cases h⟩)
      fun {v k j m'} hheap _ hf => ?_
    obtain ⟨i, m₁, hi, hb, rfl, -⟩ := vfail_backs hs.holds.paging hheap hf
    have hsp := hb.spares word
    exact ⟨hsp.paging, hsp.avail, fun w g hw hout => hsp.keeps w g hw fun hin => hout (by
      unfold InRun at hin ⊢
      omega)⟩
  | kfree p =>
    obtain ⟨hmay, rfl, rfl⟩ := h
    exact hs.freed (kdefrag_defrags L _) (kdrop_named L word) hmay
  | vfree p =>
    obtain ⟨hmay, rfl, rfl⟩ := h
    exact hs.freed (vdefrag_defrags L _) (vdrop_named L word 1) hmay
  | store => exact ⟨rs, hs.stored h⟩
  | other =>
    obtain ⟨⟨f, rfl⟩, rfl⟩ := h
    have hrefines : Refines { s.client.heap with low := s.client.heap.low.swapTo L f } rs :=
      hs.safe.refines.congr rfl hs.safe.refines.shown fun _ h => h
    exact ⟨rs, hs.kept ⟨hrefines, hs.safe.live, hs.safe.asked, hs.safe.distinct⟩
      (samePlace_refl rs) (Nat.le_refl _) (hs.holds.congr (hs.holds.paging.congr rfl rfl)
        (fun _ => Iff.rfl) fun _ _ _ => Names.swapTo f) fun _ _ _ => Names.swapTo f⟩

/-- A release of a live result gives back what stands in the book. -/
theorem exact_of_defrags (hs : BookInv s rs) (hdef : Defrags L drop defrag) {x : Live}
    (hdrop : DropsNamed L x.virtual drop) (hx : x ∈ s.client.live) :
    ∃ e head, lookup x.ptr s.client.heap.mem s.client.heap.heapList = some (e, head) ∧
      (e ∉ (free defrag x.ptr s.client.heap).heapList →
        GivesTaken (s.taken e) s.client.heap (free defrag x.ptr s.client.heap) ∧
          (s.taken e).Shaped x.virtual) ∧
      (e ∈ (free defrag x.ptr s.client.heap).heapList →
        (free defrag x.ptr s.client.heap).mmVirtHeap = s.client.heap.mmVirtHeap ∧
        (free defrag x.ptr s.client.heap).low.mmBitmap = s.client.heap.low.mmBitmap) := by
  obtain ⟨r, hr, hrv, y, rs', hp, hlook, hone, hh', hrel⟩ := hs.find_released hdef hx
  refine ⟨r.base, y, hlook, ?_⟩
  generalize free defrag x.ptr s.client.heap = h' at *
  cases hrel with
  | @merged l t q q' bl bt m _ hrs hm hy hkeep hbm hlow =>
    -- the region stays in the list
    subst hrs
    have hblk : q.Has y ⟨m, false⟩ := by
      rw [Has, hm.before, at_append, hy]
      simp
    obtain rfl := hone q (by simp) m hblk
    have hmem : q.base ∈ h'.heapList := by
      rw [hh'.list]
      simp [hm.base]
    exact ⟨fun hno => absurd hmem hno, fun _ => ⟨hbm, by rw [hlow]⟩⟩
  | @dropped l t q q' bl bt m c _ hrs hm hy hdone hbm hlow =>
    subst hrs
    have hblk : q.Has y ⟨m, false⟩ := by
      rw [Has, hm.before, at_append, hy]
      simp
    obtain rfl := hone q (by simp) m hblk
    have hno : q.base ∉ h'.heapList := by
      rw [hh'.list, List.mem_map]
      rintro ⟨q₂, hq₂, he⟩
      have hap := apart_of_mem hs.safe.refines.apart q₂ (List.mem_append.mp hq₂)
      have h1 := q.base_lt_stop
      have h2 := q₂.base_lt_stop
      unfold Apart at hap
      omega
    have hentry := hs.entered q hr
    have hback := hs.dropBack hdrop hr hrv
    rw [← hlow] at hback
    refine ⟨fun _ => ⟨⟨fun p => ?_, fun p hp => ?_, fun f => ?_, fun f hf => ?_⟩, ?_⟩,
      fun hmem => absurd hmem hno⟩
    · rw [hbm, isSet_setRun, Bool.or_eq_true, decide_eq_true_eq, hentry.pages]
      rfl
    · rw [hentry.pages] at hp
      have h1 := q.lo
      have h2 := q.aligned
      have h3 := HEAP_START_bounds L
      have h4 := q.size_bounds
      have htaken := hs.safe.refines.taken q hr (p * 4096 + HEAP_START L) (by
        unfold InRun heapPage at hp
        omega) (by
        unfold InRun heapPage pageCount at hp
        unfold stop
        omega)
      have hidx : heapPage L (p * 4096 + HEAP_START L) = p := by
        unfold heapPage
        omega
      rwa [hidx] at htaken
    · rw [hback.bitmap, hentry.frames]
    · obtain ⟨w, hw, hname⟩ := (hentry.frames f).mp hf
      rw [← Bool.not_eq_true]
      exact fun hfree => hs.holds.kept w f (mem_pages hr hw) hname (.inl hfree)
    · rw [← hrv]
      exact hs.shaped hr

/-- **A release is exact** in a state whose book is right. -/
theorem releaseExact (hs : BookInv s rs) {x : Live} (hx : x ∈ s.client.live) :
    ReleaseExact L word s x := by
  unfold ReleaseExact freeOf
  dsimp only
  split
  · rename_i h0
    have hdrop : DropsNamed L x.virtual (KDrop (machineBacking L word)) := by
      rw [h0]
      exact kdrop_named L word
    exact hs.exact_of_defrags (kdefrag_defrags L _) hdrop hx
  · exact hs.exact_of_defrags (vdefrag_defrags L _) (vdrop_named L word _) hx

end BookInv

/-- Nothing is entered when the heap starts. -/
theorem BookInv.start (mem : Mem) (virtHeap : Bytes) {m₀ : Machine} (h : SetUp L m₀) :
    BookInv (Book.start mem virtHeap m₀) ([] : List (Region L)) where
  safe := ⟨⟨rfl, by simp, .nil, by simp⟩, by simp [Book.start, Client.start],
    by simp [Book.start, Client.start], .nil⟩
  holds := by
    have hno : ∀ v, ¬ Pages ([] : List (Region L)) v := by
      rintro v ⟨r, hr, -⟩
      exact List.not_mem_nil hr
    exact ⟨(LedgerInv.start h).paging, fun v hv => absurd hv (hno v), fun v hv => absurd hv (hno v),
      fun v _ hv => absurd hv (hno v), fun v _ _ hv => absurd hv (hno v)⟩
  entered := by simp

/-- **A release returns what was taken**, in every state that calls of the heap reach from
`page_setup` and `heap_setup` without a request that loses its size. -/
theorem release_returns_what_was_taken (L : Layout) (word : Machine → Nat → Nat)
    (kernelPage : Nat → Nat) (bm : Bytes) (m₀ : Machine) (hboot : m₀.pageDirectory = bootDirectory)
    (mem : Mem) (virtHeap : Bytes) (ops : List HeapOp) (s : Book)
    (h : Run (fun s op t => bookStep L word s op t ∧ NotLost op)
      (.start mem virtHeap (pageSetup L kernelPage bm m₀)) ops s) :
    ∀ x ∈ s.client.live, ReleaseExact L word s x := by
  obtain ⟨rs, hs⟩ := h.invariant (fun s => ∃ rs : List (Region L), BookInv s rs)
    (fun _ _ _ hs hstep => hs.elim fun _ hs => hs.step hstep.1 hstep.2)
    ⟨[], .start mem virtHeap (setUp_pageSetup L kernelPage bm hboot)⟩
  exact fun x hx => hs.releaseExact hx

/-! ## Fixed runs -/

/-- The book after a call that does not release. -/
def Book.call (s : Book) (n : Nat) : Book :=
  let r := kmalloc .sample (machineBacking .sample fun _ _ => 0) n s.client.heap
  ⟨⟨r.2, record 0 n r.1 r.2 s.client.live⟩, enter s.client.heap r.2 s.taken⟩

/-- The book after `kfree`. -/
def Book.release (s : Book) (p : Nat) : Book :=
  let h := kfree .sample (machineBacking .sample fun _ _ => 0) p s.client.heap
  ⟨⟨h, forget p s.client.live⟩, enter s.client.heap h s.taken⟩

/-- The book of a kernel with every frame free and memory zeroed. -/
def Book.setUp : Book := .start (fun _ => 0) (fun _ => 0) .setUp

theorem bookStep_call (s : Book) {n : Nat} (hn : n < 2 ^ 32) :
    bookStep .sample (fun _ _ => 0) s (.kmalloc n) (s.call n) := ⟨⟨hn, rfl, rfl⟩, rfl⟩

theorem bookStep_release (s : Book) {p : Nat} (hp : MayFree s.client 0 p) :
    bookStep .sample (fun _ _ => 0) s (.kfree p) (s.release p) := ⟨⟨hp, rfl, rfl⟩, rfl⟩

/-- The release of one block gives back exactly its page and its frame. -/
theorem one_block_release_is_exact : (Book.setUp.call 100).client.live.length = 1 ∧
    ∀ x ∈ (Book.setUp.call 100).client.live,
      ReleaseExact .sample (fun _ _ => 0) (.call .setUp 100) x :=
  ⟨by decide +kernel, release_returns_what_was_taken .sample (fun _ _ => 0) (fun _ => 0)
    (fun _ => 0xFF) ⟨fun _ => 0xFF, bootDirectory, fun _ _ => 0⟩ rfl (fun _ => 0) (fun _ => 0)
    [.kmalloc 100] (.call .setUp 100)
    (.single ⟨bookStep_call _ (by decide), show ¬ Lost 100 by decide⟩)⟩

/-- The size that is lost leaves a region without pages in the list, and the next region gets the
same address: its release gives page and frame back while the address stays in the list. -/
def Book.twice : Book :=
  (((Book.setUp.call 100).release 0xC0780030).call (2 ^ 32 - 4096)).call 100

theorem run_twice : Run (bookStep .sample fun _ _ => 0) .setUp
    [.kmalloc 100, .kfree 0xC0780030, .kmalloc (2 ^ 32 - 4096), .kmalloc 100] .twice :=
  .cons (bookStep_call _ (by decide)) (.cons (bookStep_release _ (.inr (by decide +kernel)))
    (.cons (bookStep_call _ (by decide)) (.single (bookStep_call _ (by decide)))))

theorem lost_size_release_is_not_exact :
    Run (bookStep .sample fun _ _ => 0) .setUp
        [.kmalloc 100, .kfree 0xC0780030, .kmalloc (2 ^ 32 - 4096), .kmalloc 100] .twice ∧
      ∃ x ∈ Book.twice.client.live, x.ptr = 0xC0780030 ∧ x.virtual = 0 ∧
        ¬ ReleaseExact .sample (fun _ _ => 0) .twice x := by
  refine ⟨run_twice, ?_⟩
  obtain ⟨x, hx, hp, hv⟩ : ∃ x ∈ Book.twice.client.live, x.ptr = 0xC0780030 ∧ x.virtual = 0 := by
    decide +kernel
  refine ⟨x, hx, hp, hv, ?_⟩
  rintro ⟨e, head, hlook, -, hstays⟩
  have hfreed : freeOf .sample (fun _ _ => 0) x.virtual x.ptr Book.twice.client.heap =
      (Book.twice.release 0xC0780030).client.heap := by
    rw [hp, hv]
    rfl
  have hregion : lookup 0xC0780030 Book.twice.client.heap.mem Book.twice.client.heap.heapList =
      some (0xC0780000, 0xC0780020) := by decide +kernel
  rw [hp, hregion] at hlook
  obtain ⟨rfl, -⟩ := Prod.mk.inj (Option.some.inj hlook)
  have hmem : 0xC0780000 ∈ (Book.twice.release 0xC0780030).client.heap.heapList := by
    decide +kernel
  rw [hfreed] at hstays
  have hset : isSet Book.twice.client.heap.mmVirtHeap 0 = false := by decide +kernel
  have hset' : isSet (Book.twice.release 0xC0780030).client.heap.mmVirtHeap 0 = true := by
    decide +kernel
  rw [(hstays hmem).1, hset] at hset'
  cases hset'

end Moonlight
