import MoonlightKernel.Heap.Safety
import MoonlightKernel.Process.Fork
import MoonlightKernel.Process.MemoryAdd
import MoonlightKernel.Process.Registers
import MoonlightKernel.Process.Tree

/-!
# The stack that a switch writes to

`proc_switch_p` builds the frame of a process in kernel mode around its saved `esp`, which comes
from one of three places: `process_hlt_create`, `process_ini_kern` or `proc_save`.

* `processHltCreate` — of `kernel/x86/hlt.c`, over the heap;
* `iniKernRegs` — the registers that `process_ini_kern` sets;
* `Context` — the registers of a process, and whose they are, over everything that happens to it;
* `switch_stays_iff` — the frame lies in the stack of the process exactly when the process was
  saved from an interrupt with its stack pointer at least a frame above the bottom of the stack.
-/

set_option autoImplicit false

namespace Moonlight

open Sys

variable {L : Layout} {σ : Type}

/-! ## Fresh registers -/

/-- The registers after `bzero`. -/
def Regs.zero : Regs := ⟨0, 0, 0, 0, 0, 0, 0, 0, 0, 0, 0, 0, 0, 0, 0, 0⟩

/-- The segment registers of a process in kernel mode. -/
def Regs.setKernelSegments (regs : Regs) : Regs :=
  { regs with
    cs := GDT_SEG_KCODE, ss := GDT_SEG_KSTACK
    ds := GDT_SEG_KDATA, es := GDT_SEG_KDATA, fs := GDT_SEG_KDATA, gs := GDT_SEG_KDATA }

/-- `sizeof(struct process)`. -/
def processSize : Nat := 292

/-- What `process_hlt_create` makes: its stack, its `struct process` and the registers in there. -/
structure IdleTask where
  stack : Nat
  proc : Nat
  regs : Regs
  deriving DecidableEq

/-- `process_hlt_create`; `entry` is the address of `process_hlt_user`. -/
def processHltCreate (L : Layout) (B : Backing σ) (entry : UInt32) (h : Heap σ) :
    Option IdleTask × Heap σ :=
  let stack := kmalloc L B 4096 h
  if stack.1 = 0 then (none, stack.2) else
  let proc := kmalloc L B processSize stack.2
  if proc.1 = 0 then (none, kfree L B stack.1 proc.2) else
  let regs := { Regs.zero with esp := UInt32.ofNat (stack.1 + 4096), eip := entry }
  (some ⟨stack.1, proc.1, regs.setKernelSegments⟩, proc.2)

/-- The registers that `process_ini_kern` sets. -/
def iniKernRegs (vAddr : Nat) : Regs :=
  let regs := { Regs.zero with esp := 0xC0000000 - 0x10, eip := UInt32.ofNat vAddr }
  regs.setKernelSegments

/-! ## Stacks -/

/-- The stack of a process. -/
inductive Stack
  /-- The 4096 bytes that `process_hlt_create` got from `kmalloc`. -/
  | payload (p : Nat)
  /-- The maps of `mm_stack`. -/
  | maps (pms : List MapMemory)

/-- The byte at `a` belongs to the stack. -/
def Stack.Has : Stack → Nat → Prop
  | .payload p, a => p ≤ a ∧ a < p + 4096
  | .maps pms, a => ∃ pm ∈ pms, pm.Covers a

/-- Where a map lies and how many pages it has. -/
def MapMemory.extent (pm : MapMemory) : Nat × Nat := (pm.vAddr, pm.size)

/-- The stack of `process_ini_kern`: one page below `KERNEL_POS`. -/
def KernelStackMaps (pms : List MapMemory) : Prop :=
  pms.map MapMemory.extent = [(KERNEL_POS - 4096, 1)]

theorem KernelStackMaps.has_iff {pms : List MapMemory} (h : KernelStackMaps pms) (a : Nat) :
    (Stack.maps pms).Has a ↔ KERNEL_POS - 4096 ≤ a ∧ a < KERNEL_POS := by
  obtain ⟨pm, rfl, hpm⟩ := List.map_eq_singleton_iff.mp h
  have hv : pm.vAddr = KERNEL_POS - 4096 := congrArg Prod.fst hpm
  have hs : pm.size = 1 := congrArg Prod.snd hpm
  unfold Stack.Has MapMemory.Covers KERNEL_POS at *
  simp only [List.mem_singleton, exists_eq_left, hv, hs]

section maps

variable {k : Kernel} {p new size vAddr mflags pflags swap swap2 : Nat} {pm : MapMemory}

theorem not_nonneg_error {α : Type} (x : α) : ¬ 0 ≤ ((-1 : Int), x).1 := by
  show ¬ (0 : Int) ≤ -1
  decide

theorem processCopyMemBlock_extent (L : Layout) (swap swap2 : Nat) (pm : MapMemory) (m : Machine) :
    (processCopyMemBlock L swap swap2 pm m).2.1.extent = pm.extent := by
  unfold processCopyMemBlock
  dsimp only
  split <;> rfl

/-- The copies of a list of maps lie where the maps do, in reverse order. -/
theorem copyMaps_extent (L : Layout) (swap swap2 : Nat) (maps : List MapMemory) :
    ∀ (copied : List MapMemory) (k : Kernel), 0 ≤ (copyMaps L swap swap2 maps copied k).1 →
      (copyMaps L swap swap2 maps copied k).2.1.map MapMemory.extent =
        (maps.map MapMemory.extent).reverse ++ copied.map MapMemory.extent := by
  induction maps with
  | nil => exact fun _ _ _ => rfl
  | cons pm maps ih =>
    intro copied k h
    unfold copyMaps at h ⊢
    split at h
    · exact absurd h (not_nonneg_error _)
    · rename_i rec k' hm
      dsimp only at h ⊢
      split at h
      · exact absurd h (not_nonneg_error _)
      · rename_i hok
        rw [if_neg hok, ih _ _ h, List.map_cons, processCopyMemBlock_extent]
        simp

/-- The stack maps of the child lie where those of the parent do. -/
theorem copyMemory_extent (h : ¬ (copyMemory L swap swap2 p new k).1 < 0) :
    ((copyMemory L swap swap2 p new k).2.proc new).mmStack.map MapMemory.extent =
      ((k.proc p).mmStack.map MapMemory.extent).reverse := by
  obtain ⟨r, s, k₁, k₂, -, hok, hr, hk₁, hs, hk₂, -, hcopy⟩ := copyMemory_ok h
  have hheap : Same Process.mmStack k k₁ := by
    rw [← hk₁, ← hr]
    exact (copyMaps_same L swap swap2 (k.proc p).mmHeap [] k).trans (Same.modify _ new rfl)
  have hext := copyMaps_extent L swap swap2 (k₁.proc p).mmStack [] k₁
  rw [hs] at hext
  rw [hcopy, Kernel.modify_proc_self, ← hheap.proc p]
  show (k₂.proc new).mmStack.map MapMemory.extent = _
  rw [← hk₂, Kernel.modify_proc_self, hext (by omega), List.map_nil, List.append_nil]

/-- **`copy_process`** gives the child stack maps that lie where those of the parent do. -/
theorem copyProcess_extent (h : ¬ (copyProcess L swap swap2 p new k).1 < 0) :
    ((copyProcess L swap swap2 p new k).2.proc new).mmStack.map MapMemory.extent =
      ((k.proc p).mmStack.map MapMemory.extent).reverse := by
  obtain ⟨k₁, k₂, k₃, -, hk₁, hmem, hk₂, hk₃, hcopy⟩ := copyProcess_ok h
  have hpid : Same Process.mmStack k k₁ := hk₁ ▸ processAllocPid_same (fun _ _ => rfl) new k
  have hsignals : Same Process.mmStack k₂ k₃ :=
    hk₃ ▸ copySignals_same (fun _ _ _ => rfl) new (k₂.proc p).signal.sigQueue k₂
  have hext := copyMemory_extent hmem
  rw [hk₂] at hext
  rw [hcopy, linkChild_view (v := Process.mmStack) (fun _ _ _ _ => rfl) (fun _ _ => rfl),
    Kernel.kmalloc_proc, hsignals.proc, hext, hpid.proc]

theorem processMemoryFill_added (h : (processMemoryFill L p pm pflags k).1 = 0) :
    (k.proc p).addMap (if pflags &&& PROC_MEM_ADD_IMEDIATE ≠ 0
        then pflags - PROC_MEM_ADD_IMEDIATE else pflags) pm =
      some ((processMemoryFill L p pm pflags k).2.proc p) := by
  unfold processMemoryFill at h ⊢
  dsimp only at h ⊢
  split at h
  · rename_i hzero; exact absurd h hzero
  rename_i hzero
  rw [if_neg hzero]
  generalize (if pflags &&& PROC_MEM_ADD_IMEDIATE ≠ 0
    then pageMapRange L pm.pAddr pm.vAddr pm.flags pm.size (physBzero L pm.pAddr pm.size k.machine).2
    else (0, (physBzero L pm.pAddr pm.size k.machine).2)) = q at h ⊢
  split at h
  · rename_i hmap; exact absurd h hmap
  rename_i hmap
  rw [if_neg hmap]
  cases hadd : (k.proc p).addMap (if pflags &&& PROC_MEM_ADD_IMEDIATE ≠ 0
      then pflags - PROC_MEM_ADD_IMEDIATE else pflags) pm with
  | none =>
    rw [hadd] at h
    exact absurd (show -EINVAL = 0 from h) (by decide)
  | some pr =>
    dsimp only
    rw [Kernel.modify_proc_self]

/-- **`process_memory_add`** adds one map to the list that the flags name. -/
theorem processMemoryAdd_added (L : Layout) (p size vAddr pflags : Nat) (k : Kernel)
    (hmf : mflags &&& PAGE_PRESENT ≠ 0)
    (h : (processMemoryAdd L p size vAddr mflags pflags k).1 = 0) :
    ∃ f, (k.proc p).addMap (if pflags &&& PROC_MEM_ADD_IMEDIATE ≠ 0
        then pflags - PROC_MEM_ADD_IMEDIATE else pflags)
        ⟨vAddr &&& PAGE_ADDR, f * 4096, addPages size vAddr, mflags⟩ =
      some ((processMemoryAdd L p size vAddr mflags pflags k).2.proc p) := by
  rcases processMemoryAdd_cases L p size vAddr pflags k hmf with ⟨-, herr, -⟩ |
    ⟨-, f, k', hstart, hr⟩
  · rw [herr] at h
    exact absurd h (by decide)
  · rw [hr] at h ⊢
    exact ⟨f, hstart.proc ▸ processMemoryFill_added h⟩

/-- **The stack of a process of `process_ini_kern`.** -/
theorem processIniKern_stack {a : Nat} (h : (processIniKern L vAddr size k).1 = some a) :
    KernelStackMaps ((processIniKern L vAddr size k).2.proc a).mmStack := by
  have hprot : (PAGE_PRESENT ||| PAGE_WRITE ||| PAGE_USER_SUPERVISOR) &&& PAGE_PRESENT ≠ 0 := by
    decide
  unfold processIniKern processNew at h ⊢
  cases hm : k.kmalloc with
  | mk rec k₁ =>
    rw [hm] at h
    cases rec with
    | none => cases h
    | some b =>
      dsimp only at h ⊢
      have hpid := processAllocPid_same (v := Process.mmStack) (fun _ _ => rfl) b
        (k₁.modify b fun _ => Process.zero)
      generalize processAllocPid b (k₁.modify b fun _ => Process.zero) = r₁ at h hpid ⊢
      split at h
      · cases h
      rename_i h₁
      rw [if_neg h₁]
      have hcode := processMemoryAdd_added L b size vAddr
        (PROC_MEM_ADD_IMEDIATE ||| PROC_MEM_ADD_CODE) r₁.2 hprot
      generalize processMemoryAdd L b size vAddr (PAGE_PRESENT ||| PAGE_WRITE |||
        PAGE_USER_SUPERVISOR) (PROC_MEM_ADD_IMEDIATE ||| PROC_MEM_ADD_CODE) r₁.2 = r₂
        at h hcode ⊢
      split at h
      · cases h
      rename_i h₂
      rw [if_neg h₂]
      have hstack := processMemoryAdd_added L b 4096 (KERNEL_POS - 4096)
        (PROC_MEM_ADD_IMEDIATE ||| PROC_MEM_ADD_STACK) r₂.2 hprot
      generalize processMemoryAdd L b 4096 (KERNEL_POS - 4096) (PAGE_PRESENT ||| PAGE_WRITE |||
        PAGE_USER_SUPERVISOR) (PROC_MEM_ADD_IMEDIATE ||| PROC_MEM_ADD_STACK) r₂.2 = r₃
        at h hstack ⊢
      split at h
      · cases h
      rename_i h₃
      rw [if_neg h₃]
      cases h
      obtain ⟨f, hf⟩ := hcode (not_not.mp h₂)
      obtain ⟨g, hg⟩ := hstack (not_not.mp h₃)
      have hkeep : (r₂.2.proc a).mmStack = (r₁.2.proc a).mmStack :=
        (congrArg Process.mmStack (Option.some.inj hf)).symm
      have hadd : (r₃.2.proc a).mmStack = _ := (congrArg Process.mmStack (Option.some.inj hg)).symm
      show (r₃.2.proc a).mmStack.map MapMemory.extent = _
      rw [hadd]
      show MapMemory.extent _ :: (r₂.2.proc a).mmStack.map MapMemory.extent = _
      rw [hkeep, hpid.proc a, Kernel.modify_proc_self]
      exact congrArg (· :: []) (show ((KERNEL_POS - 4096) &&& PAGE_ADDR,
        addPages 4096 (KERNEL_POS - 4096)) = (KERNEL_POS - 4096, 1) by decide +kernel)

end maps

/-! ## Contexts -/

/-- The registers `regs` are those of a process whose stack is `st`; `taken` is the stack pointer at
the interrupt from which it was last saved. -/
inductive Context (L : Layout) (B : Backing σ) (entry : UInt32) :
    Stack → Regs → Option UInt32 → Prop
  /-- `process_hlt_create`, in any state that clients of the heap reach.  `current` is null while
  this process runs, so nothing is ever saved in it. -/
  | hlt {h₀ : Heap σ} {ops : List HeapOp} {s : Client σ} {task : IdleTask}
      (hrun : Run (heapStep L B) ⟨heapSetup h₀, []⟩ ops s)
      (hmade : (processHltCreate L B entry s.heap).1 = some task) :
      Context L B entry (.payload task.stack) task.regs none
  /-- `process_ini_kern`. -/
  | iniKern {vAddr size a : Nat} {k : Kernel}
      (hmade : (processIniKern L vAddr size k).1 = some a) :
      Context L B entry (.maps ((processIniKern L vAddr size k).2.proc a).mmStack)
        (iniKernRegs vAddr) none
  /-- `copy_process` copies the registers. -/
  | copied {pms : List MapMemory} {regs : Regs} {taken : Option UInt32} {swap swap2 p new : Nat}
      {k : Kernel} (h : Context L B entry (.maps pms) regs taken) (hp : (k.proc p).mmStack = pms)
      (hmade : 0 ≤ (copyProcess L swap swap2 p new k).1) :
      Context L B entry (.maps ((copyProcess L swap swap2 p new k).2.proc new).mmStack) regs taken
  /-- An interrupt from which the scheduler leaves the process. -/
  | interrupted {pms : List MapMemory} {regs : Regs} {taken : Option UInt32}
      (h : Context L B entry (.maps pms) regs taken) (esp0 : UInt32) (cpu : Regs)
      (intNo errCode : UInt32) (above : UInt32 × UInt32) :
      Context L B entry (.maps pms) (procSave regs (irqData esp0 cpu intNo errCode above))
        (some cpu.esp)
  /-- `proc_switch_p` finds the process stopped and leaves it again. -/
  | passedOver {pms : List MapMemory} {regs : Regs} {taken : Option UInt32}
      (h : Context L B entry (.maps pms) regs taken) (data : Interupt) :
      Context L B entry (.maps pms) (procSave regs (procLoad regs data)) taken

/-- Where the `esp` of a process in kernel mode comes from. -/
def SavedEsp (regs : Regs) : Option UInt32 → Prop
  | none => regs.esp = 0xC0000000 - 0x10
  | some esp => regs.esp = esp - 0x14

/-- What holds of the registers of every process: its stack and its `esp` belong to one origin. -/
def Context.Origin : Stack → Regs → Option UInt32 → Prop
  | .payload p, regs, taken => regs.esp = UInt32.ofNat (p + 4096) ∧ taken = none
  | .maps pms, regs, taken => KernelStackMaps pms ∧ (regs.cs = GDT_SEG_KCODE → SavedEsp regs taken)

variable {B : Backing σ} {entry : UInt32} {st : Stack} {regs : Regs} {taken : Option UInt32}

theorem processHltCreate_esp {h : Heap σ} {task : IdleTask}
    (hmade : (processHltCreate L B entry h).1 = some task) :
    task.regs.esp = UInt32.ofNat (task.stack + 4096) := by
  unfold processHltCreate at hmade
  dsimp only at hmade
  split at hmade
  · cases hmade
  split at hmade
  · cases hmade
  · cases hmade
    rfl

/-- **Every step keeps the stack and the `esp` together.** -/
theorem Context.origin (h : Context L B entry st regs taken) : Origin st regs taken := by
  induction h with
  | hlt hrun hmade => exact ⟨processHltCreate_esp hmade, rfl⟩
  | iniKern hmade => exact ⟨processIniKern_stack hmade, fun _ => rfl⟩
  | copied h hp hmade ih =>
    refine ⟨?_, ih.2⟩
    unfold KernelStackMaps
    rw [copyProcess_extent (Int.not_lt.mpr hmade), hp, ih.1]
    rfl
  | interrupted h esp0 cpu intNo errCode above ih =>
    refine ⟨ih.1, fun hmode => ?_⟩
    rw [procSave_irqData_cs] at hmode
    exact procSave_irqData_esp _ esp0 intNo errCode above hmode
  | @passedOver pms regs taken h data ih =>
    obtain ⟨hcs, hesp⟩ := procSave_procLoad regs data
    refine ⟨ih.1, fun hmode => ?_⟩
    have hsaved := ih.2 (hcs ▸ hmode)
    cases taken with
    | none => exact hesp.trans hsaved
    | some esp => exact hesp.trans hsaved

/-! ## What a switch writes -/

/-- Switching to the process writes inside its stack and changes nothing else. -/
def SwitchStays (st : Stack) (regs : Regs) : Prop :=
  ∀ (data : Interupt) (mem : Mem) (dataptr : UInt32) (mem' : Mem),
    procSwitchP .RUN regs data mem = .switchStack dataptr mem' →
      (∀ w ∈ frameWords dataptr (procLoad regs data), ∀ i < 4, st.Has (w.1.toNat + i)) ∧
        ∀ a, (∀ i < 4, ¬ st.Has (a + i)) → mem' a = mem a

/-- The process was saved from an interrupt that left a whole frame of its stack below it. -/
def SavedInside (taken : Option UInt32) : Prop :=
  ∃ esp, taken = some esp ∧ KERNEL_POS - 4096 + 0x44 ≤ esp.toNat ∧ esp.toNat ≤ KERNEL_POS

/-- A switch stays in the stack when the frame does. -/
theorem switchStays_iff_frame (hmode : regs.cs = GDT_SEG_KCODE) :
    SwitchStays st regs ↔ ∀ data, ∀ w ∈ frameWords (regs.esp - 0x30) data, ∀ i < 4,
      st.Has (w.1.toNat + i) := by
  constructor
  · intro h data w hw
    have hframe := (h data (fun _ => 0) _ _ (procSwitchP_kernel hmode data _)).1
    have haddr : ∀ d : Interupt, (frameWords (regs.esp - 0x30) d).map Prod.fst =
        (frameWords (regs.esp - 0x30) data).map Prod.fst := fun _ => rfl
    have hmem : w.1 ∈ (frameWords (regs.esp - 0x30) (procLoad regs data)).map Prod.fst :=
      (haddr (procLoad regs data)).symm ▸ List.mem_map_of_mem hw
    obtain ⟨v, hv, hvw⟩ := List.mem_map.mp hmem
    exact hvw ▸ hframe v hv
  · intro h data mem dataptr mem' hswitch
    rw [procSwitchP_kernel hmode] at hswitch
    injection hswitch with hptr hmem
    subst hptr hmem
    refine ⟨h _, fun a ha => storeWords_of_ne mem fun w hw heq => ?_⟩
    exact ha 0 (by omega) (heq ▸ h _ w hw 0 (by omega))

/-- The frame of `process_hlt` covers the word behind its stack. -/
theorem not_switchStays_hlt {p : Nat} (hmode : regs.cs = GDT_SEG_KCODE)
    (hesp : regs.esp = UInt32.ofNat (p + 4096)) : ¬ SwitchStays (.payload p) regs := by
  rw [switchStays_iff_frame hmode]
  intro h
  have hback : regs.esp - 0x30 + 0x30 = regs.esp := UInt32.sub_add_cancel ..
  have hw := intNo_mem_frameWords (regs.esp - 0x30) default
  rw [hback] at hw
  have hin := h _ _ hw 0 (by omega)
  have hnat : regs.esp.toNat = (p + 4096) % 2 ^ 32 := by
    rw [hesp]
    exact UInt32.toNat_ofNat'
  unfold Stack.Has at hin
  dsimp only at hin
  omega

/-- **Switching to a process in kernel mode stays in its stack** exactly when the process was saved
from an interrupt that found room for the frame in the stack.  The frames that belong to the
registers of `process_hlt_create` and `process_ini_kern` never lie in their stacks. -/
theorem switch_stays_iff (h : Context L B entry st regs taken) (hmode : regs.cs = GDT_SEG_KCODE) :
    SwitchStays st regs ↔ SavedInside taken := by
  have horigin := h.origin
  cases st with
  | payload p =>
    obtain ⟨hesp, rfl⟩ := horigin
    refine iff_of_false (not_switchStays_hlt hmode hesp) ?_
    rintro ⟨esp, hnone, -⟩
    cases hnone
  | maps pms =>
    obtain ⟨hstack, hsaved⟩ := horigin
    have hinside : SwitchStays (.maps pms) regs ↔ KERNEL_POS - 4096 ≤ (regs.esp - 0x30).toNat ∧
        (regs.esp - 0x30).toNat + 0x44 ≤ KERNEL_POS := by
      rw [switchStays_iff_frame hmode]
      simp only [hstack.has_iff]
      simp only [frame_inside_iff (show KERNEL_POS + 0x44 ≤ 2 ^ 32 by decide)]
      exact forall_const Interupt
    rw [hinside]
    have hesp := hsaved hmode
    cases taken with
    | none =>
      rw [show regs.esp = 0xC0000000 - 0x10 from hesp]
      refine iff_of_false (by decide) ?_
      rintro ⟨esp, hnone, -⟩
      cases hnone
    | some esp =>
      rw [show regs.esp = esp - 0x14 from hesp]
      have hframe : (esp - 0x14 - 0x30).toNat = (esp.toNat + 2 ^ 32 - 0x44) % 2 ^ 32 := by
        have hfive : (0x14 : UInt32).toNat = 0x14 := rfl
        have hptr : (0x30 : UInt32).toNat = 0x30 := rfl
        have hlt := esp.toNat_lt
        simp only [UInt32.toNat_sub, hfive, hptr]
        omega
      rw [hframe]
      have hlt := esp.toNat_lt
      unfold SavedInside KERNEL_POS
      simp only [Option.some.injEq, exists_eq_left']
      omega

/-- A process of `process_ini_kern` after a clock tick in the body of its function, where its stack
pointer is back in the page. -/
def tickInBody : Regs := { iniKernRegs 0x1000 with esp := 0xC0000000, ebp := 0xC0000000 }

/-- It can be switched to. -/
theorem switch_stays_after_tick :
    SwitchStays (.maps ((processIniKern .sample 0x1000 4096 .boot).2.proc 100).mmStack)
      (procSave (iniKernRegs 0x1000) (irqData 0xD0000000 tickInBody 32 0 (0, 0))) := by
  have hmade : (processIniKern .sample 0x1000 4096 .boot).1 = some 100 := by decide +kernel
  have hcontext : Context .sample Backing.always 0 _ _ (some tickInBody.esp) :=
    .interrupted (.iniKern hmade) 0xD0000000 tickInBody 32 0 (0, 0)
  exact (switch_stays_iff hcontext (by decide)).mpr ⟨_, rfl, by decide, by decide⟩

/-- `process_hlt` on a heap with no region. -/
def firstIdle : IdleTask where
  stack := 0xC0780030
  proc := 0xC0781040
  regs := { Regs.zero with esp := 0xC0781030, eip := 0xC0101000 : Regs }.setKernelSegments

/-- On a fresh heap the block behind the stack of `process_hlt` is its own `struct process`.  The
switch stores `int_no` over the header of that block and `eflags` over its first word. -/
theorem hlt_switch_leaves_stack :
    ∃ h', processHltCreate .sample .always 0xC0101000 .blank = (some firstIdle, h') ∧
      Context .sample Backing.always 0xC0101000 (.payload firstIdle.stack) firstIdle.regs none ∧
      firstIdle.regs.cs = GDT_SEG_KCODE ∧ ¬ SwitchStays (.payload firstIdle.stack) firstIdle.regs ∧
      firstIdle.proc = firstIdle.stack + 4096 + headerSize ∧
      low31 (h'.mem (firstIdle.stack + 4096)) = 304 ∧
      ∃ dataptr mem', procSwitchP .RUN firstIdle.regs default h'.mem = .switchStack dataptr mem' ∧
        low31 (mem' (firstIdle.stack + 4096)) = 0 ∧ mem' firstIdle.proc = 0x200 := by
  have hmade : (processHltCreate .sample .always 0xC0101000 .blank).1 = some firstIdle := by
    decide +kernel
  have hcontext : Context .sample Backing.always 0xC0101000 (.payload firstIdle.stack)
      firstIdle.regs none := .hlt (s := ⟨.blank, []⟩) (.nil _) hmade
  exact ⟨_, Prod.ext hmade rfl, hcontext, rfl, not_switchStays_hlt rfl (by decide), by decide,
    by decide +kernel, _, _, procSwitchP_kernel rfl _ _, by decide +kernel, by decide +kernel⟩

end Moonlight
