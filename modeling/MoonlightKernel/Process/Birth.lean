import MoonlightKernel.Process.Leak

/-!
# The account of a newborn child

`fork` takes the record of the child, a record and frames for each map, a block for each signal that
the child inherits, and the father's record of the child.

* `Copying` — the balance in the middle of a `fork`;
* `Copying.copyBlock`, `Copying.copyMaps`, `Copying.copyMemory` — one map, a list, all of them;
* `fork_alive` — a `fork` that succeeds opens the account.
-/

set_option autoImplicit false

namespace Moonlight

open Sys Sys.Bitmap

/-- The frames of the map are neither free nor page tables. -/
structure MapMemory.Withheld (L : Layout) (m : Machine) (pm : MapMemory) : Prop where
  aligned : pm.pAddr % 4096 = 0
  frames : pm.pAddr / 4096 + pm.size ≤ 2 ^ 20
  present : pm.flags &&& PAGE_PRESENT ≠ 0
  withheld : ∀ i, i < pm.size → ¬ Avail m (pm.frame i) ∧ pm.frame i ≠ L.kernelFrame

theorem MapMemory.Owned.withheld {L : Layout} {m : Machine} {pm : MapMemory} (h : pm.Owned L m) :
    pm.Withheld L m := by
  refine ⟨h.aligned, h.frames, h.present, fun i hi => ?_⟩
  obtain ⟨hfree, htables, hkernel⟩ := h.owned i hi
  refine ⟨?_, hkernel⟩
  rintro (hf | ⟨d, -, ht, he⟩)
  · exact Bool.noConfusion (hfree.symm.trans hf)
  · exact htables d ht he.symm

/-- The table that translates `v` translates no page of the heap. -/
def OffHeap (L : Layout) (v : Nat) : Prop := ∀ w, HeapPage L w → dirIndex (w * 4096) ≠ dirIndex v

theorem offHeap_kernel (L : Layout) {v : Nat} (hv : dirIndex v = KERNEL_POS >>> 22) : OffHeap L v :=
  fun _ hw => hv ▸ hw.pageDir.2

/-- The section of the kernel's stack begins 4 MB above the heap. -/
theorem offHeap_stack (L : Layout) {v : Nat} (hv : HEAP_END L + 0x400000 ≤ v) : OffHeap L v := by
  intro w hw
  have hlt : w * 4096 < HEAP_END L := by
    have := hw.2
    omega
  rw [dirIndex_eq, dirIndex_eq]
  omega

namespace World

section copying

variable (L : Layout) (word : Machine → Nat → Nat) (swap swap2 : Nat) (w₀ : World)
  (rs₀ : List (Region L))

/-- The state in the middle of a `fork`: the child owns the blocks `own` and has the maps `maps`. -/
structure Copying (own : Multiset Nat) (maps : List MapMemory) (w : World) : Prop where
  balance : Balanced L word w₀ rs₀ own (HasFrame maps) w
  apart : FramesApart maps
  inRange : ∀ pm ∈ maps, pm.pAddr / 4096 + pm.size ≤ 2 ^ 20
  covered : Covered w.kernel.machine swap
  covered2 : Covered w.kernel.machine swap2

end copying

section birth

variable {L : Layout} {word : Machine → Nat → Nat} {swap swap2 p new c : Nat} {w₀ w u : World}
  {rs₀ : List (Region L)} {own : Multiset Nat} {maps : List MapMemory}

/-- The table of `v` is the kernel's or that of another directory entry. -/
theorem tableFrame_ne {m : Machine} (hm : PagingOk L m) {d v : Nat} (hd : PageDir d)
    (ht : HasTable m d) (hv : Covered m v) (hne : d ≠ dirIndex v) :
    tableFrame m d ≠ tableFrame m (dirIndex v) := by
  have hlt : dirIndex v < 1024 := by have := hv.1; rw [dirIndex_eq]; omega
  exact (hm.frame_ne hd hlt (Ne.symm hne) ht hv.2).symm

/-- A frame of a map of before the `fork` may be copied. -/
theorem Copying.held (h : Copying L word swap swap2 w₀ rs₀ own maps w) {pm : MapMemory}
    (hpm : pm.Withheld L w₀.kernel.machine) : pm.Held L swap swap2 w.kernel.machine := by
  refine ⟨hpm.aligned, hpm.frames, hpm.present, fun i hi => ?_⟩
  obtain ⟨hapart, hkernel⟩ := hpm.withheld i hi
  have hnot : ¬ Avail w.kernel.machine (pm.frame i) := h.balance.not_avail hapart
  have hpaging : PagingOk L w.kernel.machine := h.balance.paging
  have htable {v : Nat} (hv : Covered w.kernel.machine v) :
      pm.frame i ≠ tableFrame w.kernel.machine (dirIndex v) := fun he => by
    have hlt : dirIndex v < 1024 := by have := hv.1; rw [dirIndex_eq]; omega
    by_cases hk : dirIndex v = KERNEL_POS >>> 22
    · have htk := hpaging.kernel (hk ▸ hv.2)
      rw [hk] at he
      exact hkernel (he.trans htk)
    · exact hnot (.inr ⟨_, ⟨hlt, hk⟩, hv.2, he.symm⟩)
  refine ⟨?_, ?_⟩
  · rw [← Bool.not_eq_true]
    exact fun hf => hnot (.inl hf)
  · rintro (hk | ht | ht)
    · exact hkernel hk
    · exact htable h.covered ht
    · exact htable h.covered2 ht

/-- **`process_copy_mem_block`** gives the child a map with frames of its own. -/
theorem Copying.copyBlock (h : Copying L word swap swap2 w₀ rs₀ own maps w) (hswap : OffHeap L swap)
    (hswap2 : OffHeap L swap2) {pm : MapMemory} (hpm : pm.Withheld L w₀.kernel.machine)
    (hok : ¬ (processCopyMemBlock L swap swap2 pm w.kernel.machine).1 < 0) :
    Copying L word swap swap2 w₀ rs₀ own
      ((processCopyMemBlock L swap swap2 pm w.kernel.machine).2.1 :: maps)
      (w.setMachine (processCopyMemBlock L swap swap2 pm w.kernel.machine).2.2) := by
  have hpaging : PagingOk L w.kernel.machine := h.balance.paging
  have hstep := processCopyMemBlock_copyStep (hpaging.stackOk h.covered h.covered2) (h.held hpm) hok
  generalize processCopyMemBlock L swap swap2 pm w.kernel.machine = r at hstep ⊢
  have hfresh {i : Nat} (hi : i < r.2.1.size) :
      isFree w.kernel.machine.mmBitmap (r.2.1.frame i) = true := (hstep.fresh hi).2
  have htable (f : Nat) : IsTableFrame r.2.2 f ↔ IsTableFrame w.kernel.machine f :=
    isTableFrame_congr hstep.dir f
  have htaken {f : Nat} (hf : IsTableFrame w.kernel.machine f) :
      isFree w.kernel.machine.mmBitmap f = false := by
    obtain ⟨d, hd, ht, rfl⟩ := hf
    exact hpaging.taken d hd ht
  have hmine {f : Nat} (hf : HasFrame maps f) : ¬ Avail w.kernel.machine f := h.balance.apart hf
  have hpaging' : PagingOk L r.2.2 := by
    have hbitmap : PagingOk L (w.kernel.machine.setBitmap r.2.2.mmBitmap) :=
      hpaging.setBitmap fun f hf => by
        rw [← Bool.not_eq_true]
        exact fun hfree => Bool.noConfusion ((htaken hf).symm.trans (hstep.isFree_of hfree))
    exact hbitmap.congr hstep.dir rfl
  have hcovered {v : Nat} (hv : Covered w.kernel.machine v) : Covered r.2.2 v :=
    ⟨hv.1, (hasTable_congr (congrFun hstep.dir _)).mpr hv.2⟩
  refine ⟨h.balance.move hpaging' (fun v f hv => ?_) (fun f => ?_) (fun f hf => ?_), ?_, ?_,
    hcovered h.covered, hcovered h.covered2⟩
  · refine names_of_table hpaging hv (congrFun hstep.dir _) fun ht => ?_
    rw [hstep.ram _ ?_, if_neg]
    · rintro ⟨he, hpos⟩
      have hf := hfresh (i := 0) (hstep.size_eq ▸ hpos)
      rw [← he] at hf
      exact Bool.noConfusion ((htaken ⟨_, hv.pageDir, ht, rfl⟩).symm.trans hf)
    · rintro (hk | hs | hs)
      · exact hpaging.notKernel _ hv.pageDir ht hk
      · exact tableFrame_ne hpaging hv.pageDir ht h.covered (hswap v hv) hs
      · exact tableFrame_ne hpaging hv.pageDir ht h.covered2 (hswap2 v hv) hs
  · unfold Avail
    rw [hstep.isFree_iff, htable, hasFrame_cons]
    have hnew : (∃ i, i < r.2.1.size ∧ f = r.2.1.frame i) →
        isFree w.kernel.machine.mmBitmap f = true := by
      rintro ⟨i, hi, rfl⟩
      exact hfresh hi
    by_cases hin : ∃ i, i < r.2.1.size ∧ f = r.2.1.frame i
    · simp only [hin, hnew hin, true_or, or_true]
    · simp only [hin, not_false_eq_true, and_true, false_or]
  · unfold Avail
    rw [hstep.isFree_iff, htable]
    rcases hasFrame_cons.mp hf with ⟨i, hi, rfl⟩ | hf
    · rintro (⟨-, hno⟩ | ht)
      · exact hno ⟨i, hi, rfl⟩
      · exact Bool.noConfusion ((htaken ht).symm.trans (hfresh hi))
    · exact fun ha => hmine hf (ha.imp And.left id)
  · refine List.pairwise_cons.mpr ⟨fun q hq i j hi hj he => ?_, h.apart⟩
    exact hmine ⟨q, hq, j, hj, he⟩ (.inl (hfresh hi))
  · exact List.forall_mem_cons.mpr ⟨hstep.inRange, h.inRange⟩

/-- A record is allocated during the copy. -/
theorem Copying.kmalloc {n : Nat} (h : Copying L word swap swap2 w₀ rs₀ own maps w) (hn : Small n)
    (hne : n ≠ sizeofSigQueue) :
    (∃ u, w.kmalloc L word n = (none, u)) ∨ ∃ a u, w.kmalloc L word n = (some a, u) ∧
      w.SameRecords u ∧ Copying L word swap swap2 w₀ rs₀ (a ::ₘ own) maps u := by
  rcases h.balance.kmalloc hn hne with ⟨u, he, -⟩ | ⟨a, u, he, hsame, hb, ht⟩
  · exact .inl ⟨u, he⟩
  · exact .inr ⟨a, u, he, hsame, hb, h.apart, h.inRange, ⟨h.covered.1, ht _ h.covered.2⟩,
      ⟨h.covered2.1, ht _ h.covered2.2⟩⟩

/-- **The loop of `copy_process`** over one list of maps. -/
theorem Copying.copyMaps (hswap : OffHeap L swap) (hswap2 : OffHeap L swap2) (own : List Nat)
    (maps : List MapMemory) : ∀ (pms copied : List MapMemory) (recs : List Nat) {w : World},
    Copying L word swap swap2 w₀ rs₀ ↑(recs ++ own) (copied ++ maps) w →
    (∀ pm ∈ pms, pm.Withheld L w₀.kernel.machine) → recs.length = copied.length →
    ¬ (w.copyMaps L word swap swap2 pms copied recs).1 < 0 →
    ∃ copied' recs' u, w.copyMaps L word swap swap2 pms copied recs = (0, copied', recs', u) ∧
      Copying L word swap swap2 w₀ rs₀ ↑(recs' ++ own) (copied' ++ maps) u ∧
      recs'.length = copied'.length ∧ w.SameRecords u := by
  intro pms
  induction pms with
  | nil => exact fun copied recs w h _ hlen _ => ⟨copied, recs, w, rfl, h, hlen, .refl w⟩
  | cons pm rest ih =>
    intro copied recs w h hmaps hlen hok
    have herr : (-1 : Int) < 0 := by decide
    rcases h.kmalloc small_sizeofMapMemory (by decide) with ⟨u, he⟩ | ⟨a, u, he, hsame, hu⟩
    · rw [World.copyMaps, he] at hok
      exact absurd herr hok
    rw [World.copyMaps, he] at hok ⊢
    dsimp only at hok ⊢
    by_cases hone : (processCopyMemBlock L swap swap2 pm u.kernel.machine).1 < 0
    · rw [if_pos hone] at hok
      exact absurd herr hok
    rw [if_neg hone] at hok ⊢
    have hstep : Copying L word swap swap2 w₀ rs₀ ↑(a :: recs ++ own)
        ((processCopyMemBlock L swap swap2 pm u.kernel.machine).2.1 :: copied ++ maps)
        (u.setMachine (processCopyMemBlock L swap swap2 pm u.kernel.machine).2.2) :=
      hu.copyBlock hswap hswap2 (hmaps pm List.mem_cons_self) hone
    obtain ⟨copied', recs', v, hv, hc, hlen', hsame'⟩ := ih _ (a :: recs) hstep
      (fun q hq => hmaps q (List.mem_cons_of_mem _ hq)) (congrArg Nat.succ hlen) hok
    exact ⟨copied', recs', v, hv, hc, hlen', (hsame.trans (.setMachine _ u)).trans hsame'⟩

/-- What a copy of the memory leaves as it is. -/
structure Beside (p new : Nat) (w u : World) : Prop where
  links : ∀ q, (u.kernel.proc q).links = (w.kernel.proc q).links
  father : u.recs p = w.recs p
  children : (u.recs new).children = (w.recs new).children

theorem Beside.trans {v : World} (h : Beside p new w u) (h' : Beside p new u v) : Beside p new w v :=
  ⟨fun q => (h'.links q).trans (h.links q), h'.father.trans h.father, h'.children.trans h.children⟩

/-- Only the links of the processes count, and the lists that they stand for. -/
theorem SameRecords.beside (h : w.SameRecords u) : Beside p new w u :=
  ⟨fun q => by rw [h.proc], by rw [h.recs], by rw [h.recs]⟩

theorem Beside.storeHeap (hne : p ≠ new) (maps : List MapMemory) (recs : List Nat) :
    Beside p new w (w.storeHeap new maps recs) where
  links q := by
    rw [storeHeap_kernel, Kernel.modify_proc]
    split
    · rename_i hq
      rw [hq]
      rfl
    · rfl
  father := by rw [storeHeap_recs, Function.update_of_ne hne]
  children := by rw [storeHeap_recs, Function.update_self]

theorem Beside.storeStack (hne : p ≠ new) (maps : List MapMemory) (recs : List Nat) :
    Beside p new w (w.storeStack new maps recs) where
  links q := by
    rw [storeStack_kernel, Kernel.modify_proc]
    split
    · rename_i hq
      rw [hq]
      rfl
    · rfl
  father := by rw [storeStack_recs, Function.update_of_ne hne]
  children := by rw [storeStack_recs, Function.update_self]

/-- **The memory part of `copy_process`.** -/
theorem Copying.copyMemory {own : List Nat} (h : Copying L word swap swap2 w₀ rs₀ ↑own [] w)
    (hne : p ≠ new) (hswap : OffHeap L swap) (hswap2 : OffHeap L swap2)
    (hmaps : ∀ pm ∈ (w.kernel.proc p).maps, pm.Withheld L w₀.kernel.machine)
    (hok : ¬ (w.copyMemory L word swap swap2 p new).1 < 0) :
    Endowed L word new w₀ rs₀ own (w.copyMemory L word swap swap2 p new).2 ∧
      Beside p new w (w.copyMemory L word swap swap2 p new).2 := by
  have herr : (-1 : Int) < 0 := by decide
  unfold World.copyMemory at hok ⊢
  dsimp only at hok ⊢
  -- the heap
  by_cases hbad₁ : (w.copyMaps L word swap swap2 (w.kernel.proc p).mmHeap [] []).1 < 0
  · rw [if_pos hbad₁] at hok
    exact absurd herr hok
  obtain ⟨heap, hrecs, u₁, he₁, hc₁, hlen₁, hsame₁⟩ := Copying.copyMaps hswap hswap2 own []
    (w.kernel.proc p).mmHeap [] [] h (fun pm hpm => hmaps pm (by simp [Process.maps, hpm])) rfl hbad₁
  rw [he₁] at hok ⊢
  dsimp only at hok ⊢
  rw [if_neg (lt_irrefl (0 : Int))] at hok ⊢
  rw [List.append_nil] at hc₁
  have hp₁ : (u₁.storeHeap new heap hrecs).kernel.proc p = w.kernel.proc p :=
    by rw [storeHeap_kernel, Kernel.modify_proc_of_ne _ hne, hsame₁.proc]
  have hb₁ : Beside p new w (u₁.storeHeap new heap hrecs) := hsame₁.beside.trans (.storeHeap hne _ _)
  have hc₁' : Copying L word swap swap2 w₀ rs₀ ↑(([] : List Nat) ++ (hrecs ++ own)) ([] ++ heap)
      (u₁.storeHeap new heap hrecs) :=
    ⟨hc₁.balance, hc₁.apart, hc₁.inRange, hc₁.covered, hc₁.covered2⟩
  have hheap₁ : ((u₁.storeHeap new heap hrecs).kernel.proc new).mmHeap = heap := by
    rw [storeHeap_kernel, Kernel.modify_proc_self]
  have hrecs₁ : ((u₁.storeHeap new heap hrecs).recs new).heap = hrecs := by
    rw [storeHeap_recs, Function.update_self]
  generalize u₁.storeHeap new heap hrecs = w₁ at hok hb₁ hp₁ hc₁' hheap₁ hrecs₁ ⊢
  rw [hp₁] at hok ⊢
  -- the stack
  by_cases hbad₂ : (w₁.copyMaps L word swap swap2 (w.kernel.proc p).mmStack [] []).1 < 0
  · rw [if_pos hbad₂] at hok
    exact absurd herr hok
  obtain ⟨stack, srecs, u₂, he₂, hc₂, hlen₂, hsame₂⟩ := Copying.copyMaps hswap hswap2 (hrecs ++ own)
    heap (w.kernel.proc p).mmStack [] [] hc₁'
    (fun pm hpm => hmaps pm (by simp [Process.maps, hpm])) rfl hbad₂
  rw [he₂] at hok ⊢
  dsimp only at hok ⊢
  rw [if_neg (lt_irrefl (0 : Int))] at hok ⊢
  have hp₂ : (u₂.storeStack new stack srecs).kernel.proc p = w.kernel.proc p :=
    by rw [storeStack_kernel, Kernel.modify_proc_of_ne _ hne, hsame₂.proc, hp₁]
  have hb₂ : Beside p new w (u₂.storeStack new stack srecs) :=
    (hb₁.trans hsame₂.beside).trans (.storeStack hne _ _)
  have hc₂' : Copying L word swap swap2 w₀ rs₀ ↑(srecs ++ (hrecs ++ own)) (stack ++ heap)
      (u₂.storeStack new stack srecs) :=
    ⟨hc₂.balance, hc₂.apart, hc₂.inRange, hc₂.covered, hc₂.covered2⟩
  have hstack₂ : ((u₂.storeStack new stack srecs).kernel.proc new).mmStack = stack := by
    rw [storeStack_kernel, Kernel.modify_proc_self]
  have hheap₂ : ((u₂.storeStack new stack srecs).kernel.proc new).mmHeap = heap := by
    rw [storeStack_kernel, Kernel.modify_proc_self, hsame₂.proc]
    exact hheap₁
  have hsrecs₂ : ((u₂.storeStack new stack srecs).recs new).stack = srecs := by
    rw [storeStack_recs, Function.update_self]
  have hhrecs₂ : ((u₂.storeStack new stack srecs).recs new).heap = hrecs := by
    rw [storeStack_recs, Function.update_self, hsame₂.recs]
    exact hrecs₁
  generalize u₂.storeStack new stack srecs = w₂ at hok hb₂ hp₂ hc₂' hstack₂ hheap₂ hsrecs₂ hhrecs₂ ⊢
  rw [hp₂] at hok ⊢
  -- the code
  by_cases hbad₃ : (processCopyMemBlock L swap swap2 (w.kernel.proc p).mmCode w₂.kernel.machine).1 < 0
  · rw [if_pos hbad₃] at hok
    exact absurd herr hok
  have hc₃ := hc₂'.copyBlock hswap hswap2 (hmaps _ (by simp [Process.maps])) hbad₃
  rw [if_neg hbad₃]
  generalize processCopyMemBlock L swap swap2 (w.kernel.proc p).mmCode w₂.kernel.machine = r at hc₃ ⊢
  have hproc : ((w₂.setMachine r.2.2).modify new
      fun pr => { pr with mmCode := r.2.1 }).kernel.proc new =
        { w₂.kernel.proc new with mmCode := r.2.1 } := by
    rw [modify_kernel, Kernel.modify_proc_self]
    rfl
  have hperm : (r.2.1 :: (stack ++ heap)).Perm (((w₂.setMachine r.2.2).modify new
      fun pr => { pr with mmCode := r.2.1 }).kernel.proc new).maps := by
    rw [hproc]
    unfold Process.maps
    rw [hheap₂, hstack₂]
    exact (List.perm_append_singleton _ _).symm.trans (List.perm_append_comm.append_right _)
  refine ⟨⟨?_, ?_, ?_, ?_, ?_⟩, hb₂.trans ⟨fun q => ?_, rfl, rfl⟩⟩
  · have hown : ((srecs ++ (hrecs ++ own) : List Nat) : Multiset Nat) =
        ↑((w₂.recs new).heap ++ ((w₂.recs new).stack ++ own)) := by
      rw [hhrecs₂, hsrecs₂]
      exact Multiset.coe_eq_coe.mpr (List.perm_append_comm_assoc _ _ _)
    have hb := hc₃.balance.congr fun f => hasFrame_perm hperm.symm
    rwa [hown] at hb
  · rw [hproc]
    show (w₂.recs new).heap.length = (w₂.kernel.proc new).mmHeap.length
    rw [hhrecs₂, hheap₂, hlen₁]
  · rw [hproc]
    show (w₂.recs new).stack.length = (w₂.kernel.proc new).mmStack.length
    rw [hsrecs₂, hstack₂, hlen₂]
  · exact (hperm.pairwise_iff fun h i j hi hj => (h j i hj hi).symm).mp hc₃.apart
  · exact fun pm hpm => hc₃.inRange pm (hperm.mem_iff.mpr hpm)
  · rw [modify_kernel, Kernel.modify_proc]
    split
    · rename_i hq
      rw [hq]
      rfl
    · rfl

/-- The signals of a child cost only lost blocks. -/
theorem copySignals_keeps (L : Layout) (word : Machine → Nat → Nat) (w₀ : World)
    (rs₀ : List (Region L)) (new : Nat) (queue : List SigQueue) (w : World) :
    Keeps L word w₀ rs₀ w (w.copySignals L word new queue) ∧
      ∀ q, ((w.copySignals L word new queue).kernel.proc q).state = (w.kernel.proc q).state := by
  unfold copySignals
  induction queue generalizing w with
  | nil => exact ⟨.refl w, fun _ => rfl⟩
  | cons s queue ih =>
    obtain ⟨hk, hs⟩ := addSignal_keeps L word w₀ rs₀ s.sigHandled (some new) s.state w
    obtain ⟨hk', hs'⟩ := ih (w.addSignal L word s.sigHandled (some new) s.state).2
    exact ⟨hk.trans hk', fun q => (hs' q).trans (hs q)⟩

/-- **The last lines of `copy_process`** give the child its place. -/
theorem linkChild_linked (hne : p ≠ new) : Linked p new w c (w.linkChild p new c) := by
  obtain ⟨htree, -, hkids⟩ := linkChild_links (k := w.kernel) hne
  unfold linkChild
  refine ⟨congrArg Prod.fst htree, congrArg Prod.snd htree, ?_, hkids, ?_⟩
  · rw [record_recs_of_ne _ _ _ (Ne.symm hne), record_recs_self]
  · rw [record_recs_self, record_recs_of_ne _ _ _ hne, setKernel_recs]

theorem linkChild_endowed (hne : p ≠ new) {own : List Nat} (h : Endowed L word new w₀ rs₀ own w) :
    Endowed L word new w₀ rs₀ own (w.linkChild p new c) := by
  have hmem := linkChild_memory p new new w.kernel
  have hrecs : (w.linkChild p new c).recs new = { w.recs new with children := [] } := by
    unfold linkChild
    rw [record_recs_of_ne _ _ _ (Ne.symm hne), record_recs_self]
    rfl
  have hheap : ((w.linkChild p new c).kernel.proc new).mmHeap = (w.kernel.proc new).mmHeap :=
    congrArg Prod.fst hmem
  have hstack : ((w.linkChild p new c).kernel.proc new).mmStack = (w.kernel.proc new).mmStack :=
    congrArg (fun x => x.2.1) hmem
  have hmaps : ((w.linkChild p new c).kernel.proc new).maps = (w.kernel.proc new).maps :=
    congrArg (fun x => x.1 ++ x.2.1 ++ [x.2.2]) hmem
  refine ⟨?_, ?_, ?_, ?_, ?_⟩
  · rw [hrecs, hmaps]
    exact h.balance.setKernel rfl
  · rw [hrecs, hheap]
    exact h.heapRecords
  · rw [hrecs, hstack]
    exact h.stackRecords
  · rw [hmaps]
    exact h.apart
  · rw [hmaps]
    exact h.inRange

/-- **`copy_process`.** -/
theorem Copying.copyProcess (h : Copying L word swap swap2 w₀ rs₀ ↑[new] [] w) (hne : p ≠ new)
    (hswap : OffHeap L swap) (hswap2 : OffHeap L swap2)
    (hmaps : ∀ pm ∈ (w.kernel.proc p).maps, pm.Withheld L w₀.kernel.machine)
    (hok : ¬ (w.copyProcess L word swap swap2 p new).1 < 0) :
    ∃ c, Linked p new w c (w.copyProcess L word swap swap2 p new).2 ∧
      Endowed L word new w₀ rs₀ [c, new] (w.copyProcess L word swap swap2 p new).2 ∧
      ((w.copyProcess L word swap swap2 p new).2.kernel.proc new).state = (w.kernel.proc p).state := by
  have herr : (-1 : Int) < 0 := by decide
  unfold World.copyProcess at hok ⊢
  dsimp only at hok ⊢
  by_cases hbad : (w.processAllocPid new).1 < 0
  · rw [if_pos hbad] at hok
    exact absurd herr hok
  rw [if_neg hbad] at hok ⊢
  have hpid : Beside p new w (w.processAllocPid new).2 :=
    ⟨(processAllocPid_same (v := Process.links) (fun _ _ => rfl) new w.kernel).proc, rfl, rfl⟩
  have hp : (w.processAllocPid new).2.kernel.proc p = w.kernel.proc p := Function.update_of_ne hne _ _
  have h₁ : Copying L word swap swap2 w₀ rs₀ ↑[new] [] (w.processAllocPid new).2 :=
    ⟨h.balance.setKernel rfl, h.apart, h.inRange, h.covered, h.covered2⟩
  generalize (w.processAllocPid new).2 = w₁ at hok hpid hp h₁ ⊢
  -- the maps
  by_cases hbad₁ : (w₁.copyMemory L word swap swap2 p new).1 < 0
  · rw [if_pos hbad₁] at hok
    exact absurd herr hok
  rw [if_neg hbad₁] at hok ⊢
  obtain ⟨hend, hmem⟩ := h₁.copyMemory hne hswap hswap2 (by rw [hp]; exact hmaps) hbad₁
  have hb := hpid.trans hmem
  generalize (w₁.copyMemory L word swap swap2 p new).2 = w₂ at hok hend hb ⊢
  -- the signals
  obtain ⟨hkeep, hstate⟩ := copySignals_keeps L word w₀ rs₀ new
    (w₂.kernel.proc p).signal.sigQueue w₂
  have hend₃ := hend.keeps hkeep
  generalize w₂.copySignals L word new (w₂.kernel.proc p).signal.sigQueue = w₃
    at hok hkeep hstate hend₃ ⊢
  -- the father's record of the child
  rcases hend₃.balance.kmalloc small_sizeofChildren (by decide) with
    ⟨u, he, -⟩ | ⟨c, u, he, hsame, hbal, -⟩
  · rw [he] at hok
    exact absurd herr hok
  rw [he]
  dsimp only
  have hown : c ::ₘ (((w₃.recs new).heap ++ ((w₃.recs new).stack ++ [new]) : List Nat) :
        Multiset Nat) =
      ↑((w₃.recs new).heap ++ ((w₃.recs new).stack ++ [c, new])) := by
    rw [Multiset.cons_coe, Multiset.coe_eq_coe, ← List.append_assoc, ← List.append_assoc]
    exact List.perm_middle.symm
  rw [hown] at hbal
  have hend₄ : Endowed L word new w₀ rs₀ [c, new] u := hend₃.same hsame hbal
  have hlinks (q : Nat) : (w₂.kernel.proc q).links = (w.kernel.proc q).links := hb.links q
  refine ⟨c, ?_, linkChild_endowed hne hend₄, ?_⟩
  · have hl := linkChild_linked (w := u) (c := c) hne
    refine ⟨hl.father, hl.childless, hl.noRecords, hl.kids.trans ?_, hl.record.trans ?_⟩
    · rw [hsame.proc, hkeep.children p]
      exact congrArg (fun x => new :: x.2.1.2) (hlinks p)
    · rw [hsame.recs, hkeep.recs, hb.father]
  · refine ((linkChild_links (k := u.kernel) hne).2.1).trans ?_
    rw [hsame.proc, hstate]
    exact congrArg Prod.fst (hlinks p)

/-- **A `fork` that succeeds** opens the account of the child. -/
theorem fork_alive (h₀ : HeapHeld L w₀.client rs₀) (hcalls : w₀.calls = [])
    (hnew : (w₀.kmalloc L word sizeofProcess).1 = some new) (hne : p ≠ new)
    (hcov : Covered w₀.kernel.machine swap) (hcov2 : Covered w₀.kernel.machine swap2)
    (hswap : OffHeap L swap) (hswap2 : OffHeap L swap2)
    (hmaps : ∀ pm ∈ (w₀.kernel.proc p).maps, pm.Withheld L w₀.kernel.machine)
    (hlive : (w₀.kernel.proc p).state ≠ .ZOMBIE) (hok : 0 ≤ (w₀.fork L word swap swap2 p).1) :
    ∃ c, Alive L word p new w₀ rs₀ c (w₀.fork L word swap swap2 p).2 := by
  have hstart : Copying L word swap swap2 w₀ rs₀ 0 [] w₀ := by
    refine ⟨?_, List.Pairwise.nil, fun pm hpm => absurd hpm (List.not_mem_nil), hcov, hcov2⟩
    have hb : Balanced L word w₀ rs₀ 0 (fun _ => False) w₀ := by
      rw [Balanced, hcalls]
      exact Balance.start word sizeofSigQueue h₀
    exact hb.congr fun f => iff_of_false (hasFrame_nil f) id
  rcases hstart.kmalloc small_sizeofProcess (by decide) with ⟨u, he⟩ | ⟨a, u, he, hsame, hu⟩
  · rw [he] at hnew
    cases hnew
  rw [he] at hnew
  cases hnew
  unfold World.fork processNew at hok ⊢
  rw [he] at hok ⊢
  dsimp only at hok ⊢
  have hp : ((u.modify new fun _ => Process.zero).record new fun _ => .empty).kernel.proc p =
      w₀.kernel.proc p := by
    rw [record_kernel, modify_kernel, Kernel.modify_proc_of_ne _ hne, hsame.proc]
  have hrecp :
      ((u.modify new fun _ => Process.zero).record new fun _ => .empty).recs p = w₀.recs p := by
    rw [record_recs_of_ne _ _ _ hne, modify_recs, hsame.recs]
  have hu' : Copying L word swap swap2 w₀ rs₀ ↑[new] []
      ((u.modify new fun _ => Process.zero).record new fun _ => .empty) :=
    ⟨hu.balance, hu.apart, hu.inRange, hu.covered, hu.covered2⟩
  generalize (u.modify new fun _ => Process.zero).record new (fun _ => Records.empty) = w₁
    at hok hp hrecp hu' ⊢
  by_cases hbad : (w₁.copyProcess L word swap swap2 p new).1 < 0
  · rw [if_pos hbad] at hok
    exact absurd hbad (Int.not_lt.mpr hok)
  rw [if_neg hbad]
  obtain ⟨c, hl, hend, hstate⟩ := hu'.copyProcess hne hswap hswap2 (by rw [hp]; exact hmaps) hbad
  generalize (w₁.copyProcess L word swap swap2 p new).2 = w₂ at hl hend hstate ⊢
  have hkeep : Keeps L word w₀ rs₀ w₂ (w₂.modify new fun pr => { pr with father := some p }) := by
    refine .modify w₂ new ?_
    unfold Process.kin Process.tree
    rw [hl.father]
    rfl
  have hl₀ : Linked p new w₀ c w₂ :=
    ⟨hl.father, hl.childless, hl.noRecords, by rw [hl.kids, hp], by rw [hl.record, hrecp]⟩
  refine ⟨c, hl₀.keeps hkeep, hend.keeps hkeep, ?_⟩
  rw [modify_kernel, Kernel.modify_proc_self]
  show (w₂.kernel.proc new).state ≠ _
  rw [hstate, hp]
  exact hlive

end birth

end World

end Moonlight
