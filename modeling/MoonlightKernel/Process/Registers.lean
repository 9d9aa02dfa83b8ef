import MoonlightKernel.Heap.Alloc
import MoonlightKernel.Process.State

/-!
# Registers of a process that does not run: `kernel/x86/interrupt_process.c`

* `irqData` — the `struct interupt` that the entry code of `boot/x86/IDT/idt_asm.asm` leaves;
* `procSave`, `procLoad` — between that structure and `proc->regs`;
* `procSwitchP` — for a process in kernel mode it builds such a structure again, at an address
  relative to the saved `esp`;
* `frame_inside_iff` — when the words of that structure lie in an interval of addresses.

Of `proc_switch_p` this is what depends on the registers: `process_memory_switch` only changes page
tables and `send_signal` only the state of the process, which is an argument here.
-/

set_option autoImplicit false

namespace Moonlight

def GDT_SEG_KCODE : UInt16 := 0x08
def GDT_SEG_KDATA : UInt16 := 0x10
def GDT_SEG_KSTACK : UInt16 := 0x18

/-- The registers of the processor, as `struct process` keeps them. -/
structure Regs where
  eax : UInt32
  ecx : UInt32
  edx : UInt32
  ebx : UInt32
  esp : UInt32
  ebp : UInt32
  esi : UInt32
  edi : UInt32
  eip : UInt32
  eflags : UInt32
  cs : UInt16
  ss : UInt16
  ds : UInt16
  es : UInt16
  fs : UInt16
  gs : UInt16
  deriving DecidableEq

/-- `struct interupt`. -/
structure Interupt where
  ds : UInt32
  es : UInt32
  fs : UInt32
  gs : UInt32
  edi : UInt32
  esi : UInt32
  ebp : UInt32
  esp : UInt32
  ebx : UInt32
  edx : UInt32
  ecx : UInt32
  eax : UInt32
  intNo : UInt32
  errCode : UInt32
  eip : UInt32
  cs : UInt32
  eflags : UInt32
  useresp : UInt32
  ss : UInt32
  deriving Inhabited

/-! ## Saving -/

/-- The `struct interupt` of an interrupt taken with the registers `cpu`; `esp0` is the stack of
the task state segment, and `above` are the two words above the frame. -/
def irqData (esp0 : UInt32) (cpu : Regs) (intNo errCode : UInt32) (above : UInt32 × UInt32) :
    Interupt :=
  let kernel := cpu.cs = GDT_SEG_KCODE
  -- from user mode the processor changes the stack and pushes `ss` and `esp` there first
  let top := if kernel then cpu.esp else esp0 - 0x8
  -- the entry code pushes `ds` first and `gs` last, against the order of the structure
  { ds := cpu.gs.toUInt32, es := cpu.fs.toUInt32, fs := cpu.es.toUInt32, gs := cpu.ds.toUInt32
    edi := cpu.edi, esi := cpu.esi, ebp := cpu.ebp
    -- `pushad` pushes `esp` as it stands below `eflags`, `cs`, `eip`, `err_code` and `int_no`
    esp := top - 0x14
    ebx := cpu.ebx, edx := cpu.edx, ecx := cpu.ecx, eax := cpu.eax
    intNo := intNo, errCode := errCode
    eip := cpu.eip, cs := cpu.cs.toUInt32, eflags := cpu.eflags
    useresp := if kernel then above.1 else cpu.esp
    ss := if kernel then above.2 else cpu.ss.toUInt32 }

/-- `proc_save`. -/
def procSave (regs : Regs) (data : Interupt) : Regs :=
  let regs := { regs with
    ds := data.ds.toUInt16, es := data.es.toUInt16, fs := data.fs.toUInt16, gs := data.gs.toUInt16
    edi := data.edi, esi := data.esi, ebp := data.ebp, ebx := data.ebx
    edx := data.edx, ecx := data.ecx, eax := data.eax
    eip := data.eip, cs := data.cs.toUInt16, eflags := data.eflags }
  if data.cs ≠ GDT_SEG_KCODE.toUInt32
  then { regs with esp := data.useresp, ss := data.ss.toUInt16 }
  else { regs with esp := data.esp }

/-! ## Switching -/

/-- `proc_load`; `data` is the structure before, a local variable that nothing has initialised. -/
def procLoad (regs : Regs) (data : Interupt) : Interupt :=
  let data := { data with
    ds := regs.ds.toUInt32, es := regs.es.toUInt32, fs := regs.fs.toUInt32, gs := regs.gs.toUInt32
    edi := regs.edi, esi := regs.esi, ebp := regs.ebp, ebx := regs.ebx
    edx := regs.edx, ecx := regs.ecx, eax := regs.eax
    eip := regs.eip, cs := regs.cs.toUInt32
    eflags := (regs.eflags ||| 0x200) &&& 0xFFFFBFFF }
  if data.cs ≠ GDT_SEG_KCODE.toUInt32
  then { data with useresp := regs.esp, ss := regs.ss.toUInt32 }
  else { data with esp := regs.esp }

/-- The stores of `proc_switch_p` through `dataptr`, in the order of the source. -/
def frameWords (dataptr : UInt32) (data : Interupt) : List (UInt32 × UInt32) :=
  [(dataptr, data.ds), (dataptr + 0x04, data.es), (dataptr + 0x08, data.fs),
    (dataptr + 0x0C, data.gs), (dataptr + 0x10, data.edi), (dataptr + 0x14, data.esi),
    (dataptr + 0x18, data.ebp), (dataptr + 0x1C, data.esp), (dataptr + 0x20, data.ebx),
    (dataptr + 0x24, data.edx), (dataptr + 0x28, data.ecx), (dataptr + 0x2C, data.eax),
    (dataptr + 0x30, data.intNo), (dataptr + 0x34, data.errCode), (dataptr + 0x38, data.eip),
    (dataptr + 0x3C, data.cs), (dataptr + 0x40, data.eflags)]

/-- Stores of words, the first one first. -/
def storeWords : List (UInt32 × UInt32) → Mem → Mem
  | [], mem => mem
  | w :: ws, mem => storeWords ws (Function.update mem w.1.toNat w.2.toNat)

/-- Where `proc_switch_p` goes. -/
inductive SwitchEnd
  /-- On to another process: this one does not run. -/
  | switchProcess (data : Interupt)
  /-- Into user mode, from the stack of `proc_switch_context`. -/
  | iret (data : Interupt)
  /-- Onto the stack of the process, which now holds the frame. -/
  | switchStack (dataptr : UInt32) (mem : Mem)

/-- `proc_switch_p`. -/
def procSwitchP (state : ProcState) (regs : Regs) (data : Interupt) (mem : Mem) : SwitchEnd :=
  let data := procLoad regs data
  if state ≠ .RUN then .switchProcess data
  else if data.cs ≠ GDT_SEG_KCODE.toUInt32 then .iret data
  else
    let dataptr := regs.esp - 0x30
    .switchStack dataptr (storeWords (frameWords dataptr data) mem)

/-! ## What saving keeps -/

theorem toUInt32_eq_KCODE_iff (c : UInt16) :
    c.toUInt32 = GDT_SEG_KCODE.toUInt32 ↔ c = GDT_SEG_KCODE := by
  constructor
  · intro h
    have hback := congrArg UInt32.toUInt16 h
    simpa using hback
  · rintro rfl
    rfl

/-- A process saved from an interrupt has the code segment of the interrupt. -/
theorem procSave_irqData_cs (regs : Regs) (esp0 : UInt32) (cpu : Regs) (intNo errCode : UInt32)
    (above : UInt32 × UInt32) :
    (procSave regs (irqData esp0 cpu intNo errCode above)).cs = cpu.cs := by
  unfold procSave
  dsimp only
  split
  · simp [irqData]
  · simp [irqData]

/-- In kernel mode the saved `esp` lies five words below that of the interrupt. -/
theorem procSave_irqData_esp (regs : Regs) (esp0 : UInt32) {cpu : Regs} (intNo errCode : UInt32)
    (above : UInt32 × UInt32) (hmode : cpu.cs = GDT_SEG_KCODE) :
    (procSave regs (irqData esp0 cpu intNo errCode above)).esp = cpu.esp - 0x14 := by
  have hcs : (irqData esp0 cpu intNo errCode above).cs = GDT_SEG_KCODE.toUInt32 :=
    (toUInt32_eq_KCODE_iff cpu.cs).mpr hmode
  unfold procSave
  dsimp only
  rw [if_neg (not_not.mpr hcs)]
  show (if cpu.cs = GDT_SEG_KCODE then cpu.esp else esp0 - 0x8) - 0x14 = _
  rw [if_pos hmode]

theorem procLoad_cs (regs : Regs) (data : Interupt) :
    (procLoad regs data).cs = regs.cs.toUInt32 := by
  unfold procLoad
  dsimp only
  split <;> rfl

/-- A process that is passed over keeps its mode and its `esp`. -/
theorem procSave_procLoad (regs : Regs) (data : Interupt) :
    (procSave regs (procLoad regs data)).cs = regs.cs ∧
      (procSave regs (procLoad regs data)).esp = regs.esp := by
  unfold procSave
  rw [procLoad_cs]
  dsimp only
  by_cases h : regs.cs.toUInt32 ≠ GDT_SEG_KCODE.toUInt32
  · rw [if_pos h]
    refine ⟨by simp, ?_⟩
    unfold procLoad
    dsimp only
    rw [if_pos h]
  · rw [if_neg h]
    refine ⟨by simp, ?_⟩
    unfold procLoad
    dsimp only
    rw [if_neg h]

/-! ## The frame -/

/-- In kernel mode the switch is the stores of the frame. -/
theorem procSwitchP_kernel {regs : Regs} (hmode : regs.cs = GDT_SEG_KCODE) (data : Interupt)
    (mem : Mem) : procSwitchP .RUN regs data mem = .switchStack (regs.esp - 0x30)
      (storeWords (frameWords (regs.esp - 0x30) (procLoad regs data)) mem) := by
  have hcs : (procLoad regs data).cs = GDT_SEG_KCODE.toUInt32 := by
    rw [procLoad_cs, hmode]
  unfold procSwitchP
  dsimp only
  rw [if_neg (not_not.mpr rfl), if_neg (not_not.mpr hcs)]

theorem storeWords_of_ne {ws : List (UInt32 × UInt32)} {a : Nat} (mem : Mem)
    (h : ∀ w ∈ ws, w.1.toNat ≠ a) : storeWords ws mem a = mem a := by
  induction ws generalizing mem with
  | nil => rfl
  | cons w ws ih =>
    rw [storeWords, ih _ fun v hv => h v (List.mem_cons_of_mem _ hv),
      Function.update_of_ne (h w List.mem_cons_self).symm]

/-- `int_no` goes to the address that `esp` was saved with. -/
theorem intNo_mem_frameWords (dataptr : UInt32) (data : Interupt) :
    (dataptr + 0x30, data.intNo) ∈ frameWords dataptr data := by
  simp [frameWords]

/-- The words of a frame are in its first `0x44` bytes. -/
theorem frameWords_offset {dataptr : UInt32} {data : Interupt} {w : UInt32 × UInt32}
    (h : w ∈ frameWords dataptr data) :
    ∃ off : UInt32, off.toNat ≤ 0x40 ∧ w.1 = dataptr + off := by
  have hoff : w.1 ∈ [0x00, 0x04, 0x08, 0x0C, 0x10, 0x14, 0x18, 0x1C, 0x20, 0x24, 0x28, 0x2C, 0x30,
      0x34, 0x38, 0x3C, 0x40].map (dataptr + ·) := by
    have hfst := List.mem_map_of_mem (f := Prod.fst) h
    simpa [frameWords] using hfst
  obtain ⟨off, hmem, heq⟩ := List.mem_map.mp hoff
  have hle : ∀ off ∈ ([0x00, 0x04, 0x08, 0x0C, 0x10, 0x14, 0x18, 0x1C, 0x20, 0x24, 0x28, 0x2C,
      0x30, 0x34, 0x38, 0x3C, 0x40] : List UInt32), off.toNat ≤ 0x40 := by simp
  exact ⟨off, hle off hmem, heq.symm⟩

/-- **A frame lies in an interval** exactly when its ends do. -/
theorem frame_inside_iff {lo hi : Nat} (hhi : hi + 0x44 ≤ 2 ^ 32) (dataptr : UInt32)
    (data : Interupt) :
    (∀ w ∈ frameWords dataptr data, ∀ i < 4, lo ≤ w.1.toNat + i ∧ w.1.toNat + i < hi) ↔
      lo ≤ dataptr.toNat ∧ dataptr.toNat + 0x44 ≤ hi := by
  constructor
  · intro h
    have hfirst : (dataptr, data.ds) ∈ frameWords dataptr data := by simp [frameWords]
    have hlast : (dataptr + 0x40, data.eflags) ∈ frameWords dataptr data := by simp [frameWords]
    have h0 : lo ≤ dataptr.toNat ∧ dataptr.toNat + 3 < hi :=
      ⟨(h _ hfirst 0 (by omega)).1, (h _ hfirst 3 (by omega)).2⟩
    have h1 := (h _ hlast 3 (by omega)).2
    have hsum : (dataptr + 0x40).toNat = dataptr.toNat + 0x40 := by
      rw [UInt32.toNat_add, Nat.mod_eq_of_lt]
      · rfl
      · show dataptr.toNat + 0x40 < 2 ^ 32
        omega
    dsimp only at h1
    omega
  · rintro ⟨hlo, hend⟩ w hw i hi'
    obtain ⟨off, hoff, heq⟩ := frameWords_offset hw
    have hsum : w.1.toNat = dataptr.toNat + off.toNat := by
      rw [heq, UInt32.toNat_add, Nat.mod_eq_of_lt (by omega)]
    omega

end Moonlight
