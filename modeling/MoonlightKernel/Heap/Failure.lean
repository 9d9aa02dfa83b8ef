import MoonlightKernel.Heap.Success
import MoonlightKernel.Ledger

/-!
# When a failed allocation changes nothing

`kmalloc` and `vmalloc` take pages of the heap window and frames before they know whether the
allocation succeeds, and give them back when it does not.  They give back `PAGE_ALIGN n` bytes,
where `regionSize n` bytes were taken, and they keep a new region that turns out to have no room.

* `Unchanged` — the list, the window's bitmap and `mm_bitmap` are as before, up to the frames of
  page tables;
* `kmalloc_failure_unchanged_iff` — a `kmalloc` that returns null;
* `vmallocMap_error` — the mapping loop of `vmalloc` that stops at some page: the frame of the
  page before that one is not given back;
* `vmalloc_failure_unchanged_iff` — a `vmalloc` that returns null.
-/

set_option autoImplicit false

namespace Moonlight

open Sys Sys.Bitmap Sys.Tiling

variable {L : Layout} {word : Machine → Nat → Nat}

/-- The heap and the frames are as before, up to page tables. -/
structure Unchanged (h h' : Heap Machine) : Prop where
  list : h'.heapList = h.heapList
  virtHeap : h'.mmVirtHeap = h.mmVirtHeap
  frames : ∀ f, ¬ IsTableFrame h.low f → ¬ IsTableFrame h'.low f →
    isFree h'.low.mmBitmap f = isFree h.low.mmBitmap f

theorem Unchanged.of_eq {h h' : Heap Machine} (hl : h'.heapList = h.heapList)
    (hv : h'.mmVirtHeap = h.mmVirtHeap) (hbm : h'.low.mmBitmap = h.low.mmBitmap) : Unchanged h h' :=
  ⟨hl, hv, fun f _ _ => by rw [hbm]⟩

/-- Frames at the disposal of the tables are free unless they are tables. -/
theorem isFree_eq_of_avail {m m' : Machine} (h : ∀ f, Avail m' f ↔ Avail m f) {f : Nat}
    (hf : ¬ IsTableFrame m f) (hf' : ¬ IsTableFrame m' f) : isFree m'.mmBitmap f = isFree m.mmBitmap f := by
  have := h f
  unfold Avail at this
  rw [or_iff_left hf, or_iff_left hf'] at this
  exact Bool.eq_iff_iff.mpr this

/-! ## The page counts -/

/-- The unwinding gives back as many pages as were taken. -/
def SamePages (n : Nat) : Prop := n ≤ 2 ^ 32 - 4144 ∧ 1 ≤ n % 4096 ∧ n % 4096 ≤ 4048

instance (n : Nat) : Decidable (SamePages n) := inferInstanceAs (Decidable (_ ∧ _))

theorem samePages_iff {n : Nat} (hn : n < 2 ^ 32) (hreq : Requestable n) :
    PAGE_ALIGN n / 4096 = regionSize n / 4096 ↔ SamePages n := by
  have hl := (requestable_iff hn).mp hreq
  rw [Lost, not_and, Nat.not_le] at hl
  unfold SamePages
  by_cases h : n ≤ 2 ^ 32 - 4144
  · rw [PAGE_ALIGN_of_le (by omega), regionSize_of_le h]
    omega
  · have hw := hl (by omega)
    rw [PAGE_ALIGN_of_wrap (by omega) hn, regionSize_of_wrap hw hn]
    omega

/-- A size that is lost takes no page and no frame. -/
theorem hasRun_zero (bm : Bytes) {lo hi : Nat} (h : lo ≤ hi) : HasRun bm lo hi 0 :=
  ⟨lo, Nat.le_refl _, h, fun q h1 h2 => by omega⟩

/-! ## `kmalloc` -/

/-- The pages that a `kmalloc` reserves, and the unwinding gives back. -/
theorem freeVirtBlock_eq_iff {bm : Bytes} {v n : Nat} (hn : n < 2 ^ 32) (hreq : Requestable n)
    (hrun : FreeRun L bm v (regionSize n / 4096)) :
    freeVirtBlock L v (PAGE_ALIGN n / 4096) (clearRun (heapPage L v) (regionSize n / 4096) bm) = bm ↔
      SamePages n := by
  have hset := @setRun_clearRun_eq_iff bm (heapPage L v) _ _ hreq.covers hrun.free
  rw [freeVirtBlock_eq _ _ _ hrun.lo, hset, samePages_iff hn hreq]

/-- A call that gives its pages back: nothing has changed when they are as many as it took, and the
frames are as before. -/
theorem unchanged_unwound {h h' : Heap Machine} {v n : Nat} {P : Prop} (hn : n < 2 ^ 32)
    (hreq : Requestable n) (hrun : FreeRun L h.mmVirtHeap v (regionSize n / 4096))
    (hlist : h'.heapList = h.heapList)
    (hvirt : h'.mmVirtHeap = freeVirtBlock L v (PAGE_ALIGN n / 4096)
      (clearRun (heapPage L v) (regionSize n / 4096) h.mmVirtHeap))
    (hframes : SamePages n → ((∀ f, ¬ IsTableFrame h.low f → ¬ IsTableFrame h'.low f →
      isFree h'.low.mmBitmap f = isFree h.low.mmBitmap f) ↔ P)) :
    Unchanged h h' ↔ SamePages n ∧ P := by
  have hpages := freeVirtBlock_eq_iff hn hreq hrun
  constructor
  · intro hu
    have hsame := hpages.mp (hvirt.symm.trans hu.virtHeap)
    exact ⟨hsame, (hframes hsame).mp hu.frames⟩
  · rintro ⟨hsame, hp⟩
    exact ⟨hlist, hvirt.trans (hpages.mpr hsame), (hframes hsame).mpr hp⟩

/-- A region that is added stays in the list. -/
theorem not_unchanged_of_added {h h' : Heap Machine} {v : Nat} (hlist : h'.heapList = v :: h.heapList) :
    ¬ Unchanged h h' := by
  intro hu
  have hlength := congrArg List.length (hlist.symm.trans hu.list)
  rw [List.length_cons] at hlength
  omega

/-- The pages of a free run are pages of tables that are not the kernel's. -/
theorem FreeRun.pageDir {bm : Bytes} {v k i : Nat} (h : FreeRun L bm v k) (hi : i < k) :
    PageDir (dirIndex (add32 v (i <<< 12))) := by
  have hL := HEAP_START_bounds L
  have h1 := h.lo
  have h2 := h.hi
  have h3 := h.aligned
  have hend : v + i * 4096 < HEAP_END L :=
    calc v + i * 4096 ≤ v + k * 4096 := by omega
      _ < HEAP_END L := h2
  have hpage : v + i * 4096 = (v / 4096 + i) * 4096 := by omega
  have hlt : v + i * 4096 < 2 ^ 32 := Nat.lt_trans hend (by omega)
  have hheap : HeapPage L (v / 4096 + i) := ⟨by omega, by omega⟩
  rw [shiftLeft_page, add32_of_lt hlt, hpage]
  exact hheap.pageDir

/-- The condition under which a failed `kmalloc` of `n` bytes changes nothing. -/
def KFailsClean (L : Layout) (n : Nat) (h : Heap Machine) : Prop :=
  n = 0 ∨ ¬ HasRun h.mmVirtHeap 0 (HEAP_SIZE / 4096 - 1) (regionSize n / 4096) ∨
    SamePages n ∧ (n % 4096 ≤ 4032 ∨
      ¬ HasRun h.low.mmBitmap 1272 (MAX_RAM_PAGE - 1) (regionSize n / 4096) ∨
      (kmallocMaps L n h).1 ≠ 0)

/-- A new region refuses the request that it was made for. -/
theorem refuses_of_addRegion {σ : Type} {n v : Nat} {B : Backing σ} {h : Heap σ}
    (hn : n < 2 ^ 32) (hlt : regionSize n < 2 ^ 31) (hend : v + regionSize n ≤ 2 ^ 32)
    (hfail : (addRegion B 0 v n h).1 = 0) :
    ¬ (SamePages n ∧ n % 4096 ≤ 4032) := by
  rintro ⟨⟨h1, h2, -⟩, h4⟩
  have hsize := regionSize_of_le h1
  have halign := MALLOC_ALIGN_of_le (p := n) (by omega)
  exact (addRegion_ne_zero_iff (by decide) (by omega) hlt hend B h).mpr (by omega) hfail

/-- **When a failed `kmalloc` changes nothing.** -/
theorem kmalloc_failure_unchanged_iff (L : Layout) (word : Machine → Nat → Nat) (h : Heap Machine)
    (hm : PagingOk L h.low) (n : Nat) (hn : n < 2 ^ 32)
    (hfail : (kmalloc L (machineBacking L word) n h).1 = 0) :
    Unchanged h (kmalloc L (machineBacking L word) n h).2 ↔ KFailsClean L n h := by
  have hroom : n ≠ 0 → firstFitHead 0 n h.mem h.heapList = none := fun h0 => by
    by_contra hf
    exact kmalloc_of_hasRoom h0 (firstFitHead_ne_none_iff.mp hf) hfail
  by_cases h0 : n = 0
  · subst h0
    exact iff_of_true (.of_eq rfl rfl rfl) (.inl rfl)
  have hpages := findFreeVirtAddr_ne_zero_iff (L := L) (regionSize_aligned n) h.mmVirtHeap
  have hframes := getPhysBlock_ne_zero_iff (regionSize n / 4096) h.low.mmBitmap
  have hmaps : (kmallocMaps L n h).1 = (pageMapRange L
      (getPhysBlock (regionSize n / 4096) h.low.mmBitmap).1
      (findFreeVirtAddr L (regionSize n) h.mmVirtHeap).1 (PAGE_WRITE ||| PAGE_PRESENT)
      (regionSize n / 4096)
      (h.low.setBitmap (getPhysBlock (regionSize n / 4096) h.low.mmBitmap).2)).1 := by
    unfold kmallocMaps
    rw [shiftRight_page]
  unfold KFailsClean
  rw [hmaps]
  revert hfail
  rw [kmalloc, if_neg h0, firstFit_eq, hroom h0]
  dsimp only [Option.map_none, machineBacking]
  rw [shiftRight_page, shiftRight_page]
  rcases findFreeVirtAddr_spec L (regionSize_aligned n) h.mmVirtHeap with hv | ⟨v, hv, hrun⟩
  · -- no pages
    rw [hv] at hpages ⊢
    intro _
    rw [if_pos rfl]
    exact iff_of_true (.of_eq rfl rfl rfl) (.inr (.inl fun hr => hpages.mpr hr rfl))
  have hlo := hrun.lo
  have hL := HEAP_START_bounds L
  rw [hv] at hpages ⊢
  have hrunv := hpages.mp (by dsimp only; omega)
  rw [if_neg (by dsimp only; omega)]
  dsimp only
  simp only [h0, hrunv, not_true_eq_false, false_or]
  have hlost : Lost n → regionSize n / 4096 = 0 := fun hl => by rw [regionSize_of_lost hl]
  rcases getPhysBlock_spec (regionSize n / 4096) h.low.mmBitmap with hg | ⟨p, hg, hlo', hhi, hfree⟩
  · -- no frames
    have hno : ¬ HasRun h.low.mmBitmap 1272 (MAX_RAM_PAGE - 1) (regionSize n / 4096) :=
      fun hr => hframes.mpr hr (by rw [hg])
    have hreq : Requestable n := (requestable_iff hn).mpr fun hl => hno (by
      rw [hlost hl]; exact hasRun_zero _ (by decide))
    rw [hg]
    intro _
    dsimp only
    rw [if_pos rfl]
    exact unchanged_unwound hn hreq hrun rfl rfl fun _ =>
      iff_of_true (fun _ _ _ => rfl) (.inr (.inl hno))
  have hfound := hframes.mp (by rw [hg]; dsimp only; omega)
  rw [hg]
  dsimp only
  rw [if_neg (by omega)]
  generalize hr : pageMapRange L (p * 4096) v (PAGE_WRITE ||| PAGE_PRESENT) (regionSize n / 4096)
    (h.low.setBitmap (clearRun p (regionSize n / 4096) h.low.mmBitmap)) = r
  have hmoved : ∀ f, Avail r.2 f ↔
      Avail (h.low.setBitmap (clearRun p (regionSize n / 4096) h.low.mmBitmap)) f := by
    rw [← hr]
    exact (moved_pageMapRange (hm.taken_run p _) fun j hj => hrun.pageDir hj).avail
  split
  · -- the mapping fails
    rename_i hne
    intro _
    have hreq : Requestable n := (requestable_iff hn).mpr fun hl => hne (by
      rw [← hr, hlost hl]; rfl)
    refine unchanged_unwound hn hreq hrun rfl rfl fun hsame =>
      iff_of_true (fun f hf hf' => isFree_eq_of_avail (fun f => ?_) hf hf') (.inr (.inr hne))
    rw [(samePages_iff hn hreq).mpr hsame]
    exact avail_after_unwinding hm (by omega) hfree hmoved f
  · -- the new region stays in the list
    rename_i hok
    intro hfail
    refine iff_of_false (not_unchanged_of_added rfl) fun hs => ?_
    refine refuses_of_addRegion hn ?_ (hrun.size_le (regionSize_aligned n)) hfail ⟨hs.1, ?_⟩
    · have := hrun.hi
      have := regionSize_aligned n
      omega
    · exact hs.2.resolve_right (not_or.mpr ⟨not_not.mpr hfound, hok⟩)

/-- A machine whose directory has a 4 MiB entry where the heap starts: nothing can be mapped
there. -/
def Machine.blocked : Machine :=
  { Machine.clean with pageDirectory := fun d => if d = 769 then 0x80 else Machine.clean.pageDirectory d }

theorem pagingOk_blocked : PagingOk .sample .blocked := by
  have hdir : ∀ d, HasTable .blocked d → d = 768 := fun d h => by
    by_contra hd
    refine h.1 ?_
    by_cases h9 : d = 769
    · subst h9; decide
    · simp [Machine.blocked, Machine.clean, Machine.dirty, h9, hd]
  have hno : ∀ d, PageDir d → ¬ HasTable .blocked d := fun d hd h => hd.2 (hdir d h)
  exact ⟨⟨fun d hd h => absurd h (hno d hd), fun d hd h => absurd h (hno d hd),
    fun d _ hd _ h => absurd h (hno d hd)⟩, fun _ => by decide⟩

/-- The heap on that machine. -/
def Heap.blocked : Heap Machine := heapSetup ⟨fun _ => 0, fun _ => 0, [], .blocked⟩

/-- 4048 bytes are refused, and the new region stays. -/
theorem kmalloc_keeps_refused_region :
    (kmalloc .sample (machineBacking .sample fun _ _ => 0) 4048 Client.sample.heap).1 = 0 ∧
      ¬ Unchanged Client.sample.heap
        (kmalloc .sample (machineBacking .sample fun _ _ => 0) 4048 Client.sample.heap).2 := by
  refine ⟨by decide +kernel, fun h => ?_⟩
  have hlist : (kmalloc .sample (machineBacking .sample fun _ _ => 0) 4048
    Client.sample.heap).2.heapList ≠ [] := by decide +kernel
  exact hlist h.list

/-- 5000 bytes that cannot be mapped are given back. -/
theorem kmalloc_gives_unmapped_pages_back : Unchanged .blocked
    (kmalloc .sample (machineBacking .sample fun _ _ => 0) 5000 .blocked).2 := by
  have hfail : (kmalloc .sample (machineBacking .sample fun _ _ => 0) 5000 .blocked).1 = 0 := by
    decide +kernel
  exact (kmalloc_failure_unchanged_iff .sample (fun _ _ => 0) .blocked pagingOk_blocked 5000
    (by decide) hfail).mpr (.inr (.inr ⟨by decide, .inl (by decide)⟩))

/-! ## `vmalloc` -/

/-- The first page of a new region cannot be had or cannot be mapped. -/
def PageFails (L : Layout) (a : Nat) (m : Machine) : Prop :=
  (getPhysBlock 1 m.mmBitmap).1 = 0 ∨
    (pageMap L (getPhysBlock 1 m.mmBitmap).1 a (PAGE_WRITE ||| PAGE_PRESENT)
      (m.setBitmap (getPhysBlock 1 m.mmBitmap).2)).1 ≠ 0

section backed

variable {m₀ m m' : Machine} {D : Nat → Prop} {F : Nat → Nat} {Own : Nat → Prop}

/-- A `page_map` that fails changes no account. -/
theorem Backed.map_error (h : Backed L m₀ m D F Own) {pa va flag : Nat}
    (hflag : flag &&& PAGE_PRESENT ≠ 0) (he : (pageMap L pa va flag m).1 ≠ 0) :
    Backed L m₀ (pageMap L pa va flag m).2 D F Own := by
  rcases pageMap_spec L pa va m hflag with hr | ⟨habs, hr⟩ | ⟨-, -, -, t, m₁, -, hr⟩
  · rw [hr]; exact h
  · rw [hr]
    have hdir : ∀ d, d ≠ dirIndex va →
        (m.setDir (dirIndex va) 0).pageDirectory d = m.pageDirectory d :=
      fun d hd => Function.update_of_ne hd ..
    -- an entry with a table is another entry
    have hne : ∀ {d}, HasTable m d → d ≠ dirIndex va := fun ht he => ht.1 (he ▸ habs)
    have hold : ∀ {d}, HasTable (m.setDir (dirIndex va) 0) d → HasTable m d := fun {d} ht => by
      by_cases hd : d = dirIndex va
      · subst hd
        exact absurd (by simp [Machine.setDir]) ht.1
      · exact (hasTable_congr (hdir d hd)).mp ht
    have hframe : ∀ {d}, HasTable m d →
        tableFrame (m.setDir (dirIndex va) 0) d = tableFrame m d :=
      fun ht => tableFrame_congr (hdir _ (hne ht))
    have hnt : ∀ f, NotTable m₀ (m.setDir (dirIndex va) 0) f ↔ NotTable m₀ m f := fun f => by
      constructor
      · rintro k d ⟨hd, hd₀, ht⟩
        have ht' := (hasTable_congr (hdir d (hne ht))).mpr ht
        rw [← hframe ht]; exact k d ⟨hd, hd₀, ht'⟩
      · rintro k d ⟨hd, hd₀, ht⟩
        rw [hframe (hold ht)]; exact k d ⟨hd, hd₀, hold ht⟩
    exact {
      tables₀ := h.tables₀
      tables := ⟨fun d hd ht => by rw [hframe (hold ht)]; exact h.tables.taken d hd (hold ht),
        fun d hd ht => by rw [hframe (hold ht)]; exact h.tables.notKernel d hd (hold ht),
        fun d e hd he ht ht' heq => by
          rw [hframe (hold ht), hframe (hold ht')] at heq
          exact h.tables.apart d e hd he (hold ht) (hold ht') heq⟩
      dir := fun d hd => by
        rw [hdir d (hne ((hasTable_congr (h.dir d hd)).mpr hd)), h.dir d hd]
      window := h.window
      view := fun v hv => by
        rw [slot_congr (hdir _ (hne (hasTable_of_view (h.view v hv)))) rfl]
        exact h.view v hv
      own := h.own
      initial := fun f hf => ⟨(h.initial f hf).1, (hnt f).mpr (h.initial f hf).2⟩
      bounded := h.bounded
      free := fun f => by rw [hnt]; exact h.free f }
  · rw [hr] at he
    exact absurd rfl he

/-- Frames are as before, up to tables, when the heap owns none. -/
theorem Backed.frames_iff (h : Backed L m₀ m D F Own) :
    (∀ f, ¬ IsTableFrame m₀ f → ¬ IsTableFrame m f → isFree m.mmBitmap f = isFree m₀.mmBitmap f) ↔
      ∀ f, ¬ Own f := by
  constructor
  · intro hsame f hf
    have hfree₀ := (h.initial f hf).1
    have hno₀ : ¬ IsTableFrame m₀ f := by
      rintro ⟨d, hd, ht, rfl⟩
      have := h.tables₀.taken d hd ht
      rw [hfree₀] at this
      exact Bool.noConfusion this
    have hno : ¬ IsTableFrame m f := fun ⟨d, hd, ht, heq⟩ => h.tableFrame_ne hd ht hf heq
    have := hsame f hno₀ hno
    rw [hfree₀, h.free] at this
    exact this.2.1 hf
  · intro hown f _ hf
    have hnt : NotTable m₀ m f := fun d hd heq => hf ⟨d, hd.1, hd.2.2, heq⟩
    rw [Bool.eq_iff_iff, h.free]
    exact ⟨fun k => k.1, fun k => ⟨k, hown f, hnt⟩⟩

/-- **The mapping loop of `vmalloc` stops** at page `i` of the region: the pages before it are
mapped, and `last_virt_addr_mapped` is the page before it if there is one. -/
theorem vmallocMap_error : ∀ (n : Nat) {v : Nat} {m : Machine} {D : Nat → Prop}
    {F : Nat → Nat} {Own : Nat → Prop} {last last' : Nat}, Backed L m₀ m D F Own →
    (∀ w, InRun v n w → HeapPage L w) →
    vmallocMap (machineBacking L word) n (v * 4096) last m = .error (last', m') →
    ∃ i < n, ∃ F', Grown L m₀ m' D F Own v i F' ∧
      last' = (if i = 0 then last else (v + i - 1) * 4096) ∧ (i = 0 ↔ PageFails L (v * 4096) m) := by
  intro n
  induction n with
  | zero => intro v m D F Own last last' _ _ he; cases he
  | succ n ih =>
    intro v m D F Own last last' h hheap he
    rw [vmallocMap_succ] at he
    dsimp only at he
    unfold PageFails
    rcases getPhysBlock_spec 1 m.mmBitmap with hget | ⟨p, hget, hlo, hhi, hfree⟩
    · rw [hget] at he ⊢
      rw [if_pos rfl] at he
      cases he
      exact ⟨0, by omega, F, h.grown_zero v, rfl, iff_of_true rfl (.inl rfl)⟩
    obtain ⟨hb, hfresh⟩ := h.get hhi hfree
    have hpp : ∀ f, p ≤ f ∧ f < p + 1 ↔ f = p := fun f => by omega
    rw [hget] at he ⊢
    dsimp only at he ⊢
    rw [if_neg (by omega)] at he
    split at he
    · -- the page cannot be mapped, and its frame goes back
      rename_i hne
      cases he
      have hback := (hb.map_error (by decide) hne).release (p := p) (n := 1) (by omega)
        (fun q h1 h2 => .inr ⟨h1, h2⟩) (fun w (hw : D w) => hw) fun w hw => by
          rw [hpp]
          exact fun heq => hfresh p (by omega) (by omega) (heq ▸ h.own w hw)
      refine ⟨0, by omega, F, (hback.congr (fun _ => Iff.rfl) (fun _ _ => rfl) fun f => ?_).grown_zero v,
        rfl, iff_of_true rfl (.inr hne)⟩
      rw [hpp]
      refine ⟨fun hf => ⟨.inl hf, ?_⟩, fun hf => hf.1.resolve_right hf.2⟩
      rintro rfl
      exact hfresh f (by omega) (by omega) hf
    · rename_i hz
      have hz' := not_not.mp hz
      have hstep := hb.map (f := p) (hheap v (by unfold InRun; omega)) (.inr (by omega))
        (Prod.ext hz' rfl)
      rw [show v * 4096 + 4096 = (v + 1) * 4096 by omega] at he
      obtain ⟨i, hi, F', hF', hlast, -⟩ :=
        ih hstep (fun w hw => hheap w (by unfold InRun at hw ⊢; omega)) he
      refine ⟨i + 1, by omega, F', .cons (hfresh p (by omega) (by omega)) hF', ?_, ?_⟩
      · rw [hlast, if_neg (Nat.succ_ne_zero i)]
        split
        · rename_i h0; rw [h0]; simp
        · congr 1; omega
      · refine iff_of_false (Nat.succ_ne_zero i) ?_
        rintro (h0 | h0)
        · omega
        · exact h0 hz'

end backed

/-- A mapping loop that runs to its end has mapped its first page. -/
theorem not_pageFails_of_ok {n a last : Nat} {m m' : Machine} (hn : n ≠ 0)
    (h : vmallocMap (machineBacking L word) n a last m = .ok m') : ¬ PageFails L a m := by
  obtain ⟨n, rfl⟩ := Nat.exists_eq_succ_of_ne_zero hn
  rw [vmallocMap_succ] at h
  dsimp only at h
  split at h
  · cases h
  rename_i hget
  split at h
  · cases h
  rename_i hmap
  exact not_or.mpr ⟨hget, not_not.mpr (not_not.mp hmap)⟩

/-- The unwinding of `vmalloc` when its loop stops at page `i`: the frames are as before exactly
when nothing had been mapped. -/
theorem vmalloc_unwinding {m₀ m' : Machine} {v k last : Nat} (h : TablesOk L m₀)
    (hheap : ∀ w, InRun v k w → HeapPage L w)
    (he : vmallocMap (machineBacking L word) k (v * 4096) (v * 4096) m₀ = .error (last, m')) :
    (∀ f, ¬ IsTableFrame m₀ f →
      ¬ IsTableFrame (freeMapped (machineBacking L word) ((last - v * 4096) >>> 12) (v * 4096) m') f →
      isFree (freeMapped (machineBacking L word) ((last - v * 4096) >>> 12) (v * 4096) m').mmBitmap f =
        isFree m₀.mmBitmap f) ↔ PageFails L (v * 4096) m₀ := by
  obtain ⟨i, -, F', hF', rfl, hpf⟩ :=
    vmallocMap_error (F := id) k (Backed.start h) hheap he
  have hcount : ((if i = 0 then v * 4096 else (v + i - 1) * 4096) - v * 4096) >>> 12 = i - 1 := by
    rw [shiftRight_page]
    split <;> omega
  rw [hcount, ← hpf]
  -- the pages before the last one mapped give their frames back
  have hback := hF'.backed.vdrop word (i - 1) (v := v)
    (fun w hw => .inr (by unfold InRun at *; omega))
    (fun w w' hw hw' he => hF'.inj w w' (hw.resolve_left id) (hw'.resolve_left id) he)
  unfold VDrop at hback
  rw [hback.frames_iff]
  constructor
  · intro hown
    by_contra hi
    refine hown (F' (v + (i - 1))) ⟨.inr ⟨v + (i - 1), by unfold InRun; omega, rfl⟩, fun w hw he => ?_⟩
    have heq := hF'.inj w (v + (i - 1)) (by unfold InRun at *; omega) (by unfold InRun; omega) he
    unfold InRun at hw
    omega
  · rintro rfl f ⟨hf | ⟨w, hw, -⟩, -⟩
    · exact hf
    · unfold InRun at hw; omega

/-- The condition under which a failed `vmalloc` of `n` bytes changes nothing. -/
def VFailsClean (L : Layout) (n : Nat) (h : Heap Machine) : Prop :=
  n = 0 ∨ ¬ HasRun h.mmVirtHeap 0 (HEAP_SIZE / 4096 - 1) (regionSize n / 4096) ∨
    SamePages n ∧ PageFails L (findFreeVirtAddr L (regionSize n) h.mmVirtHeap).1 h.low

/-- A request that a region has room for is served. -/
theorem vmalloc_of_hasRoom {σ : Type} {B : Backing σ} {n : Nat} {h : Heap σ} (hn : n ≠ 0)
    (hroom : HasRoom 1 n h) : (vmalloc L B n h).1 ≠ 0 := by
  obtain ⟨f, hf⟩ := Option.ne_none_iff_exists'.mp (firstFitHead_ne_none_iff.mpr hroom)
  rw [vmalloc, if_neg hn, firstFit_eq, hf]
  simp [headerSize]

/-- **When a failed `vmalloc` changes nothing.** -/
theorem vmalloc_failure_unchanged_iff (L : Layout) (word : Machine → Nat → Nat) (h : Heap Machine)
    (hm : TablesOk L h.low) (n : Nat) (hn : n < 2 ^ 32)
    (hfail : (vmalloc L (machineBacking L word) n h).1 = 0) :
    Unchanged h (vmalloc L (machineBacking L word) n h).2 ↔ VFailsClean L n h := by
  have hroom : n ≠ 0 → firstFitHead 1 n h.mem h.heapList = none := fun h0 => by
    by_contra hf
    exact vmalloc_of_hasRoom h0 (firstFitHead_ne_none_iff.mp hf) hfail
  by_cases h0 : n = 0
  · subst h0
    exact iff_of_true (.of_eq rfl rfl rfl) (.inl rfl)
  have hpages := findFreeVirtAddr_ne_zero_iff (L := L) (regionSize_aligned n) h.mmVirtHeap
  unfold VFailsClean
  rw [vmalloc, if_neg h0, firstFit_eq, hroom h0]
  dsimp only [Option.map_none]
  rw [shiftRight_page, shiftRight_page]
  rcases findFreeVirtAddr_spec L (regionSize_aligned n) h.mmVirtHeap with hv | ⟨v, hv, hrun⟩
  · -- no pages
    rw [hv] at hpages ⊢
    rw [if_pos rfl]
    exact iff_of_true (.of_eq rfl rfl rfl) (.inr (.inl fun hr => hpages.mpr hr rfl))
  have hlo := hrun.lo
  have hhi := hrun.hi
  have hal := hrun.aligned
  have hL := HEAP_START_bounds L
  rw [hv] at hpages ⊢
  have hrunv := hpages.mp (by dsimp only; omega)
  rw [if_neg (by dsimp only; omega)]
  dsimp only
  simp only [h0, hrunv, not_true_eq_false, false_or]
  obtain ⟨w, rfl⟩ : ∃ w, v = w * 4096 := ⟨v / 4096, by omega⟩
  have hheap : ∀ u, InRun w (regionSize n / 4096) u → HeapPage L u := fun u hu => by
    unfold InRun at hu
    constructor <;> omega
  generalize hr : vmallocMap (machineBacking L word) (regionSize n / 4096) (w * 4096) (w * 4096)
    h.low = r
  cases r with
  | error e =>
    obtain ⟨last, m'⟩ := e
    have hreq : Requestable n := (requestable_iff hn).mpr fun hl => by
      rw [regionSize_of_lost hl] at hr
      cases hr
    exact unchanged_unwound hn hreq hrun rfl rfl fun _ => vmalloc_unwinding hm hheap hr
  | ok m' =>
    -- the new region stays in the list
    refine iff_of_false (not_unchanged_of_added rfl) fun hs => not_pageFails_of_ok ?_ hr hs.2
    have hsame := hs.1
    unfold SamePages at hsame
    rw [regionSize_of_le hsame.1]
    omega

/-- 4048 bytes are refused, and the new region stays. -/
theorem vmalloc_keeps_refused_region :
    (vmalloc .sample (machineBacking .sample fun _ _ => 0) 4048 Client.sample.heap).1 = 0 ∧
      ¬ Unchanged Client.sample.heap
        (vmalloc .sample (machineBacking .sample fun _ _ => 0) 4048 Client.sample.heap).2 := by
  refine ⟨by decide +kernel, fun h => ?_⟩
  have hlist : (vmalloc .sample (machineBacking .sample fun _ _ => 0) 4048
    Client.sample.heap).2.heapList ≠ [] := by decide +kernel
  exact hlist h.list

/-- 5000 bytes whose first page cannot be mapped are given back. -/
theorem vmalloc_gives_first_page_back : Unchanged .blocked
    (vmalloc .sample (machineBacking .sample fun _ _ => 0) 5000 .blocked).2 := by
  have hfail : (vmalloc .sample (machineBacking .sample fun _ _ => 0) 5000 .blocked).1 = 0 := by
    decide +kernel
  have hpage : PageFails .sample (findFreeVirtAddr .sample (regionSize 5000)
      Heap.blocked.mmVirtHeap).1 Heap.blocked.low := .inr (by decide +kernel)
  exact (vmalloc_failure_unchanged_iff .sample (fun _ _ => 0) .blocked
    pagingOk_blocked.toTablesOk 5000 (by decide) hfail).mpr (.inr (.inr ⟨by decide, hpage⟩))

end Moonlight
