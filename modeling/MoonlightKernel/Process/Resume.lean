import MoonlightKernel.Process.Registers
import Mathlib.Data.List.Nodup

/-!
# Back from a switch: `proc_switch_iret` of `kernel/x86/interrupt_proc_asm.asm`

`proc_switch_p` hands a frame to `proc_switch_iret`: an argument for a process in user mode, words on
the stack of a process in kernel mode.

* `readFrame`, `procSwitchIret`, `SwitchEnd.regs` — the registers that the processor ends up with;
* `Regs.loaded` — the same, from the saved registers alone;
* `Regs.resumed` — what an interrupt changes: the interrupt flag is set, the nested task flag is gone;
* `loaded_interrupted` — a process that is left and taken up again has its registers back.
-/

set_option autoImplicit false

namespace Moonlight

/-! ## The source -/

/-- A word of the frame at `dataptr`. -/
def frameWord (mem : Mem) (dataptr off : UInt32) : UInt32 := UInt32.ofNat (mem (dataptr + off).toNat)

/-- The `struct interupt` at `dataptr`. -/
def readFrame (mem : Mem) (dataptr : UInt32) : Interupt where
  ds := frameWord mem dataptr 0x00
  es := frameWord mem dataptr 0x04
  fs := frameWord mem dataptr 0x08
  gs := frameWord mem dataptr 0x0C
  edi := frameWord mem dataptr 0x10
  esi := frameWord mem dataptr 0x14
  ebp := frameWord mem dataptr 0x18
  esp := frameWord mem dataptr 0x1C
  ebx := frameWord mem dataptr 0x20
  edx := frameWord mem dataptr 0x24
  ecx := frameWord mem dataptr 0x28
  eax := frameWord mem dataptr 0x2C
  intNo := frameWord mem dataptr 0x30
  errCode := frameWord mem dataptr 0x34
  eip := frameWord mem dataptr 0x38
  cs := frameWord mem dataptr 0x3C
  eflags := frameWord mem dataptr 0x40
  useresp := frameWord mem dataptr 0x44
  ss := frameWord mem dataptr 0x48

/-- `proc_switch_iret` with a frame that ends at `behind`.  `iretd` takes the stack from the frame when
it leaves the kernel, whose code segment is the only one of ring 0; else the stack goes on behind the
frame, in the segment of the kernel. -/
def procSwitchIret (data : Interupt) (behind : UInt32) : Regs :=
  let user := data.cs ≠ GDT_SEG_KCODE.toUInt32
  -- `gs` is popped first and `ds` last, against the order of the structure
  { gs := data.ds.toUInt16, fs := data.es.toUInt16, es := data.fs.toUInt16, ds := data.gs.toUInt16
    -- `popad` passes over `esp`
    edi := data.edi, esi := data.esi, ebp := data.ebp
    ebx := data.ebx, edx := data.edx, ecx := data.ecx, eax := data.eax
    eip := data.eip, cs := data.cs.toUInt16, eflags := data.eflags
    esp := if user then data.useresp else behind
    ss := if user then data.ss.toUInt16 else GDT_SEG_KSTACK }

/-- The registers after `proc_switch_p`, unless it goes on to another process. -/
def SwitchEnd.regs : SwitchEnd → Option Regs
  | .switchProcess _ => none
  | .iret data => some (procSwitchIret data 0)
  | .switchStack dataptr mem => some (procSwitchIret (readFrame mem dataptr) (dataptr + 0x44))

/-! ## From the saved registers -/

/-- The interrupt flag is set, and the nested task flag is cleared. -/
def interruptible (eflags : UInt32) : UInt32 := (eflags ||| 0x200) &&& 0xFFFFBFFF

theorem interruptible_idem (eflags : UInt32) :
    interruptible (interruptible eflags) = interruptible eflags := by
  have habsorb : ∀ x a m : BitVec 32, ((x ||| a) &&& m ||| a) &&& m = (x ||| a) &&& m := by
    intro x a m
    ext i hi
    simp only [BitVec.getElem_and, BitVec.getElem_or]
    cases x[i] <;> cases a[i] <;> cases m[i] <;> rfl
  exact UInt32.toBitVec_inj.mp (habsorb eflags.toBitVec _ _)

/-- The registers with which a process runs on after a switch to it. -/
def Regs.loaded (regs : Regs) : Regs :=
  { regs with
    ds := regs.gs, es := regs.fs, fs := regs.es, gs := regs.ds
    eflags := interruptible regs.eflags
    esp := if regs.cs = GDT_SEG_KCODE then regs.esp + 0x14 else regs.esp
    ss := if regs.cs = GDT_SEG_KCODE then GDT_SEG_KSTACK else regs.ss }

/-- The registers of before an interrupt, as a process finds them again.  In the code of the kernel `ss`
is neither saved nor loaded: it is that of the kernel's stack. -/
def Regs.resumed (cpu : Regs) : Regs :=
  { cpu with
    eflags := interruptible cpu.eflags
    ss := if cpu.cs = GDT_SEG_KCODE then GDT_SEG_KSTACK else cpu.ss }

/-- Stores to different places leave each word where it was put. -/
theorem storeWords_mem {ws : List (UInt32 × UInt32)} (hnd : (ws.map Prod.fst).Nodup) {a v : UInt32}
    (h : (a, v) ∈ ws) (mem : Mem) : storeWords ws mem a.toNat = v.toNat := by
  induction ws generalizing mem with
  | nil => exact absurd h List.not_mem_nil
  | cons w ws ih =>
    rw [List.map_cons, List.nodup_cons] at hnd
    rw [storeWords]
    rcases List.mem_cons.mp h with rfl | h
    · rw [storeWords_of_ne _ fun w hw heq => ?_, Function.update_self]
      have hmem := List.mem_map_of_mem (f := Prod.fst) hw
      rw [UInt32.toNat_inj.mp heq] at hmem
      exact hnd.1 hmem
    · exact ih hnd.2 h _

/-- The words of a frame are at different places. -/
theorem frameWords_nodup (dataptr : UInt32) (data : Interupt) :
    ((frameWords dataptr data).map Prod.fst).Nodup := by
  have hoff : (frameWords dataptr data).map Prod.fst = [0x00, 0x04, 0x08, 0x0C, 0x10, 0x14, 0x18,
      0x1C, 0x20, 0x24, 0x28, 0x2C, 0x30, 0x34, 0x38, 0x3C, 0x40].map (dataptr + ·) := by
    simp [frameWords]
  rw [hoff]
  exact List.Nodup.map (fun a b hab => (UInt32.add_right_inj dataptr).mp hab) (by decide)

theorem frameWord_frameWords {dataptr off v : UInt32} {data : Interupt} (mem : Mem)
    (h : (dataptr + off, v) ∈ frameWords dataptr data) :
    frameWord (storeWords (frameWords dataptr data) mem) dataptr off = v := by
  rw [frameWord, storeWords_mem (frameWords_nodup dataptr data) h, UInt32.ofNat_toNat]

/-- **The frame reads back** what has been stored; the last two words are those behind it. -/
theorem readFrame_frameWords (dataptr : UInt32) (data : Interupt) (mem : Mem) :
    ∃ useresp ss, readFrame (storeWords (frameWords dataptr data) mem) dataptr =
      { data with useresp := useresp, ss := ss } := by
  have hword : ∀ {off v : UInt32}, (dataptr + off, v) ∈ frameWords dataptr data →
      frameWord (storeWords (frameWords dataptr data) mem) dataptr off = v :=
    fun h => frameWord_frameWords mem h
  refine ⟨frameWord (storeWords (frameWords dataptr data) mem) dataptr 0x44,
    frameWord (storeWords (frameWords dataptr data) mem) dataptr 0x48, ?_⟩
  unfold readFrame
  rw [Interupt.mk.injEq]
  iterate 17 refine ⟨hword (by simp [frameWords]), ?_⟩
  exact ⟨rfl, rfl⟩

section switch

variable (regs cpu : Regs) (data : Interupt) (mem : Mem)

/-- **Where a switch ends up** depends on the saved registers alone: neither what was in the local
variable of `proc_switch_p` nor what was in memory is in the registers. -/
theorem procSwitchP_regs : (procSwitchP .RUN regs data mem).regs = some regs.loaded := by
  unfold procSwitchP
  dsimp only
  rw [if_neg (not_not_intro rfl), procLoad_cs]
  by_cases hkernel : regs.cs = GDT_SEG_KCODE
  · have hcs := (toUInt32_eq_KCODE_iff regs.cs).mpr hkernel
    rw [if_neg (not_not_intro hcs)]
    obtain ⟨useresp, ss, hframe⟩ := readFrame_frameWords (regs.esp - 0x30) (procLoad regs data) mem
    have hbehind : regs.esp - 0x30 + 0x44 = regs.esp + 0x14 := by grind
    unfold SwitchEnd.regs
    dsimp only
    rw [hframe, hbehind]
    unfold procLoad
    dsimp only
    rw [if_neg (not_not_intro hcs)]
    unfold procSwitchIret Regs.loaded interruptible
    dsimp only
    rw [if_neg (not_not_intro hcs), if_neg (not_not_intro hcs), if_pos hkernel, if_pos hkernel]
    simp
  · have hcs := mt (toUInt32_eq_KCODE_iff regs.cs).mp hkernel
    rw [if_pos hcs]
    unfold SwitchEnd.regs procLoad
    dsimp only
    rw [if_pos hcs]
    unfold procSwitchIret Regs.loaded interruptible
    dsimp only
    rw [if_pos hcs, if_pos hcs, if_neg hkernel, if_neg hkernel]
    simp

/-- The registers that an interrupt leaves in `proc->regs`. -/
theorem procSave_irqData (esp0 intNo errCode : UInt32) (above : UInt32 × UInt32) :
    procSave regs (irqData esp0 cpu intNo errCode above) =
      { cpu with
        ds := cpu.gs, es := cpu.fs, fs := cpu.es, gs := cpu.ds
        esp := if cpu.cs = GDT_SEG_KCODE then cpu.esp - 0x14 else cpu.esp
        ss := if cpu.cs = GDT_SEG_KCODE then regs.ss else cpu.ss } := by
  unfold procSave irqData
  dsimp only
  by_cases hkernel : cpu.cs = GDT_SEG_KCODE
  · have hcs := (toUInt32_eq_KCODE_iff cpu.cs).mpr hkernel
    rw [if_neg (not_not_intro hcs), if_pos hkernel, if_pos hkernel, if_pos hkernel]
    simp
  · have hcs := mt (toUInt32_eq_KCODE_iff cpu.cs).mp hkernel
    rw [if_pos hcs, if_neg hkernel, if_neg hkernel, if_neg hkernel, if_neg hkernel]
    simp

/-- **A process that is left at an interrupt and taken up again** has the registers of before. -/
theorem loaded_interrupted (esp0 intNo errCode : UInt32) (above : UInt32 × UInt32) :
    (procSave regs (irqData esp0 cpu intNo errCode above)).loaded = cpu.resumed := by
  rw [procSave_irqData]
  unfold Regs.loaded Regs.resumed
  dsimp only
  by_cases hkernel : cpu.cs = GDT_SEG_KCODE
  · simp only [if_pos hkernel, UInt32.sub_add_cancel]
  · simp only [if_neg hkernel]

/-- The registers that are left in `proc->regs` when the process is passed over. -/
theorem procSave_procLoad_eq : procSave regs (procLoad regs data) =
    { regs with eflags := interruptible regs.eflags } := by
  unfold procSave
  rw [procLoad_cs]
  unfold procLoad
  dsimp only
  by_cases hkernel : regs.cs = GDT_SEG_KCODE
  · have hcs := (toUInt32_eq_KCODE_iff regs.cs).mpr hkernel
    rw [if_neg (not_not_intro hcs), if_neg (not_not_intro hcs)]
    simp [interruptible]
  · have hcs := mt (toUInt32_eq_KCODE_iff regs.cs).mp hkernel
    rw [if_pos hcs, if_pos hcs]
    simp [interruptible]

/-- A process that is passed over keeps its registers. -/
theorem loaded_passedOver : (procSave regs (procLoad regs data)).loaded = regs.loaded := by
  rw [procSave_procLoad_eq]
  unfold Regs.loaded
  dsimp only
  rw [interruptible_idem]

end switch

end Moonlight
