import MoonlightKernel.Process.IniTraces

/-!
# Creations that fail without a trace

* `CopyTraceless`, `copy_noTrace_iff` — `process_dup` and `fork`;
* `Creation.Traceless` — the same for every call, from the state before it;
* `failed_creation_noTrace_iff` — a creation that fails leaves nothing exactly then.

The state before a call is one that the kernel can be in (`CanCreate`): its paging invariants hold,
`kmalloc` hands out no block that is in use, the maps of the parent own their frames.
-/

set_option autoImplicit false

namespace Moonlight

section copy

variable {L : Layout} {swap swap2 p new a : Nat} {k : Kernel} {t : Tracked}

/-- A `fork` or `process_dup` that fails leaves nothing: it has no record or no pid, it finds no
place for the first map it copies, or there is no map and no signal of the parent got a block. -/
inductive CopyTraceless (p : Nat) (k : Kernel) : Prop
  | record (h : k.kmallocs 0 = none)
  | pid (h : NoPid k)
  | stops (h : CopyStops (k.proc p) k.kmalloc.2)
  | signals (h : (k.proc p).Bare ∧ InheritsNone p 1 k)

/-- A child that has been made has a pid. -/
theorem copyProcess_pid (L : Layout) (swap swap2 p new : Nat) (k : Kernel) (hpid : PidInv k.lastPid)
    (h : ¬ (copyProcess L swap swap2 p new k).1 < 0) :
    PROC_MIN_PID ≤ ((copyProcess L swap swap2 p new k).2.proc new).pid := by
  obtain ⟨k₁, k₂, k₃, hok, hk₁, -, hk₂, hk₃, hcopy⟩ := copyProcess_ok h
  have hstored : (k₁.proc new).pid = (allocPidLoop (pidsOf k)
      (PROC_MAX_PID - PROC_MIN_PID + 1).toNat k.lastPid).2.1 := by
    rw [← hk₁, processAllocPid, Kernel.modify]
    dsimp only
    rw [Function.update_self]
    rfl
  have hsame : Same Process.pid k₁ k₃ := by
    rw [← hk₃, ← hk₂]
    exact (copyMemory_same (fun _ _ => rfl) (fun _ _ => rfl) (fun _ _ => rfl) L swap swap2 p new
      k₁).trans (copySignals_same (fun _ _ _ => rfl) new _ _)
  rw [hcopy, linkChild_view (v := Process.pid) (fun _ _ _ _ => rfl) (fun _ _ => rfl),
    Kernel.kmalloc_proc, hsame.proc, hstored]
  rcases allocPidLoop_spec (pidsOf k) (PROC_MAX_PID - PROC_MIN_PID + 1).toNat hpid with
    hfail | ⟨-, hlo, -⟩
  · have hr : (processAllocPid new k).1 = -EAGAIN := hfail
    rw [hr] at hok
    exact absurd (by decide) hok
  · exact hlo.1

/-- What a copy finds, told from the state before the record of the child was allocated. -/
theorem copyTraceless_born (hrec : t.kernel.kmallocs 0 = some a) (hnew : a ∉ t.kernel.processList)
    (hne : p ≠ a) : CopyTraceless p t.kernel ↔ NoPid (t.born a).kernel ∨
      CopyStops ((t.born a).kernel.proc p) (t.born a).kernel ∨
        ((t.born a).kernel.proc p).Bare ∧ InheritsNone p 0 (t.born a).kernel := by
  have hproc := Tracked.born_proc_of_ne a t hne
  have hinherits : InheritsNone p 0 (t.born a).kernel ↔ InheritsNone p 1 t.kernel := by
    unfold InheritsNone
    rw [hproc]
    refine forall₂_congr fun i _ => ?_
    rw [Nat.zero_add, Nat.add_comm 1]
    exact Iff.rfl
  have hstops : CopyStops (t.kernel.proc p) (t.born a).kernel ↔
      CopyStops (t.kernel.proc p) t.kernel.kmalloc.2 := copyStops_congr rfl rfl
  rw [noPid_born hnew, hproc, hstops, hinherits]
  constructor
  · rintro (hnone | hpid | hstop | hsignals)
    · rw [hrec] at hnone
      cases hnone
    · exact .inl hpid
    · exact .inr (.inl hstop)
    · exact .inr (.inr hsignals)
  · rintro (hpid | hstop | hsignals)
    · exact .pid hpid
    · exact .stops hstop
    · exact .signals hsignals

/-- **A copy that fails**, and the `free_process` after it. -/
theorem copy_noTrace_iff (hrec : t.kernel.kmallocs 0 = some a) (hnew : a ∉ t.kernel.processList)
    (hp : p ∈ t.kernel.processList) (hpid : PidInv t.kernel.lastPid)
    (hm : PagingOk L t.kernel.machine) (hswap : KernelStack t.kernel.machine swap)
    (hswap2 : KernelStack t.kernel.machine swap2)
    (hmaps : ∀ pm ∈ (t.kernel.proc p).maps, pm.Owned L t.kernel.machine)
    (h : ((t.born a).copyProcess L swap swap2 p a).1 < 0) :
    NoTrace L t (((t.born a).copyProcess L swap swap2 p a).2.freeProcess a) ↔
      CopyTraceless p t.kernel := by
  have hne : p ≠ a := fun he => hnew (he ▸ hp)
  obtain ⟨n, F, htakes, hpages, hclean⟩ := copyProcess_takes hne (Tracked.born_proc a t) hpid hm
    hswap hswap2 (by rw [Tracked.born_proc_of_ne a t hne]; exact hmaps) h
  rw [undone_iff hnew htakes, hclean, copyTraceless_born hrec hnew hne]
  exact and_iff_left hpages

end copy

/-! ## Every call -/

/-- A call that fails leaves nothing, told from the state before it. -/
def Creation.Traceless (L : Layout) (k : Kernel) : Creation → Prop
  | .fork p => CopyTraceless p k
  | .dup p => CopyTraceless p k
  | .iniKern v n => IniKernTraceless L v n k

/-- What a caller owes: the parent is a process that owns its memory, the code goes below the
kernel. -/
def Creation.Allowed (L : Layout) (k : Kernel) : Creation → Prop
  | .fork p => p ∈ k.processList ∧ ∀ pm ∈ (k.proc p).maps, pm.Owned L k.machine
  | .dup p => p ∈ k.processList ∧ ∀ pm ∈ (k.proc p).maps, pm.Owned L k.machine
  | .iniKern v n => (v &&& PAGE_ADDR) + addPages n v * 4096 ≤ KERNEL_POS

/-- The state of the kernel at a call. -/
structure CanCreate (L : Layout) (swap swap2 : Nat) (k : Kernel) : Prop where
  paging : PagingSafe L k.machine
  kernel : HasTable k.machine (KERNEL_POS >>> 22)
  fresh : FreshRecord k
  pid : PidInv k.lastPid
  swap : KernelStack k.machine swap
  swap2 : KernelStack k.machine swap2

section creation

variable {L : Layout} {swap swap2 p : Nat} {t : Tracked}

theorem dup_noTrace_iff (hk : CanCreate L swap swap2 t.kernel) (hp : p ∈ t.kernel.processList)
    (hmaps : ∀ pm ∈ (t.kernel.proc p).maps, pm.Owned L t.kernel.machine)
    (h : (t.processDup L swap swap2 p).1 = none) :
    NoTrace L t (t.processDup L swap swap2 p).2 ↔ CopyTraceless p t.kernel := by
  unfold Tracked.processDup at h ⊢
  rcases t.processNew_spec with ⟨hno, he⟩ | ⟨a, ha, he⟩
  · rw [he]
    exact iff_of_true (noTrace_of_noRecord L t) (.record hno)
  rw [he] at h ⊢
  dsimp only at h ⊢
  split at h
  · rename_i hfail
    rw [if_pos hfail]
    exact copy_noTrace_iff ha (hk.fresh a ha) hp hk.pid hk.paging.toPagingOk hk.swap hk.swap2 hmaps
      hfail
  · cases h

theorem fork_noTrace_iff (hk : CanCreate L swap swap2 t.kernel) (hp : p ∈ t.kernel.processList)
    (hmaps : ∀ pm ∈ (t.kernel.proc p).maps, pm.Owned L t.kernel.machine)
    (h : (t.fork L swap swap2 p).1 < 0) :
    NoTrace L t (t.fork L swap swap2 p).2 ↔ CopyTraceless p t.kernel := by
  unfold Tracked.fork at h ⊢
  rcases t.processNew_spec with ⟨hno, he⟩ | ⟨a, ha, he⟩
  · rw [he]
    exact iff_of_true (noTrace_of_noRecord L t) (.record hno)
  rw [he] at h ⊢
  dsimp only at h ⊢
  split at h
  · rename_i hfail
    rw [if_pos hfail]
    exact copy_noTrace_iff ha (hk.fresh a ha) hp hk.pid hk.paging.toPagingOk hk.swap hk.swap2 hmaps
      hfail
  · -- a child with a pid is no failure
    rename_i hok
    have hkernel := (t.born a).copyProcess_kernel L swap swap2 p a
    have hcode := congrArg Prod.fst hkernel
    have hstate := congrArg Prod.snd hkernel
    dsimp only at hcode hstate
    have hlow := copyProcess_pid L swap swap2 p a (t.born a).kernel hk.pid (by rwa [← hcode])
    rw [← hstate] at hlow
    have hpid : (((((t.born a).copyProcess L swap swap2 p a).2.modify a
        fun pr => { pr with father := some p }).kernel.proc a)).pid =
        (((t.born a).copyProcess L swap swap2 p a).2.kernel.proc a).pid := by
      rw [Tracked.modify_kernel, Kernel.modify_proc_self]
    rw [hpid] at h
    unfold PROC_MIN_PID at hlow
    omega

/-- **A creation that fails leaves nothing behind** exactly when it fails before it has taken
anything, or when all that it has taken is its own record. -/
theorem failed_creation_noTrace_iff (L : Layout) (swap swap2 : Nat) (t : Tracked) (c : Creation)
    (hk : CanCreate L swap swap2 t.kernel) (hc : c.Allowed L t.kernel)
    (h : (t.create L swap swap2 c).1 = true) :
    NoTrace L t (t.create L swap swap2 c).2 ↔ c.Traceless L t.kernel := by
  cases c with
  | fork p => exact fork_noTrace_iff hk hc.1 hc.2 (of_decide_eq_true h)
  | dup p => exact dup_noTrace_iff hk hc.1 hc.2 (Option.isNone_iff_eq_none.mp h)
  | iniKern v n =>
    exact iniKern_noTrace_iff hk.paging hk.kernel hk.fresh hk.pid hc (Option.isNone_iff_eq_none.mp h)

end creation

/-- The parent of `Tracked.parent` can fork. -/
theorem parent_canCreate (blocks : Nat) :
    CanCreate .sample 0xC0200000 0xC0201000 (Tracked.parent blocks).kernel := by
  have hkernel : Covered (Kernel.parent 1).machine 0xC0200000 :=
    parent_covered (by decide) (by decide)
  refine ⟨⟨parent_paging, fun d hd h => absurd (parent_hasTable (n := 1) h) hd.2⟩, hkernel.2,
    fun a ha => ?_, show PROC_MIN_PID ≤ 2 ∧ 2 ≤ PROC_MAX_PID by decide, ⟨by decide, hkernel⟩,
    ⟨by decide, parent_covered (n := 1) (by decide) (by decide)⟩⟩
  have hnew : (if 0 < blocks then some (0 + 100) else none) = some a := ha
  split at hnew
  · cases hnew
    show 100 ∉ [1]
    decide
  · cases hnew

theorem parent_allowed (blocks : Nat) :
    Creation.Allowed .sample (Tracked.parent blocks).kernel (.fork 1) :=
  ⟨List.mem_singleton_self 1, parent_owned⟩

/-- With no block for the first map, a `fork` leaves nothing. -/
theorem failed_fork_without_map_leaves_nothing : NoTrace .sample (.parent 1)
    ((Tracked.parent 1).create .sample 0xC0200000 0xC0201000 (.fork 1)).2 :=
  (failed_creation_noTrace_iff .sample 0xC0200000 0xC0201000 (.parent 1) (.fork 1)
    (parent_canCreate 1) (parent_allowed 1) (by decide +kernel)).mpr
    (.stops (.inl ⟨⟨0x40000000, 0x501000, 1, 7⟩, rfl, .inl rfl⟩))

/-- With a block for the map and none for the record of the child, the block stays, and so do the
frames of the copies. -/
theorem failed_fork_leaves_map :
    CanCreate .sample 0xC0200000 0xC0201000 (Tracked.parent 2).kernel ∧
      Creation.Allowed .sample (Tracked.parent 2).kernel (.fork 1) ∧
      ((Tracked.parent 2).create .sample 0xC0200000 0xC0201000 (.fork 1)).1 = true ∧
      ((Tracked.parent 2).create .sample 0xC0200000 0xC0201000 (.fork 1)).2.live = {101, 1, 50} ∧
      ¬ NoTrace .sample (.parent 2)
        ((Tracked.parent 2).create .sample 0xC0200000 0xC0201000 (.fork 1)).2 := by
  have hlive : ((Tracked.parent 2).create .sample 0xC0200000 0xC0201000 (.fork 1)).2.live =
      {101, 1, 50} := by decide +kernel
  refine ⟨parent_canCreate 2, parent_allowed 2, by decide +kernel, hlive, fun h => ?_⟩
  have hblocks := hlive.symm.trans h.blocks
  revert hblocks
  decide

end Moonlight
