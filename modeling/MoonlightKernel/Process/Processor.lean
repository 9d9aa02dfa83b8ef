import MoonlightKernel.Process.Bystanders
import MoonlightKernel.Process.Context
import MoonlightKernel.Process.Resume
import MoonlightKernel.Process.MemoryRuns
import MoonlightKernel.Process.RoundRobin

/-!
# One processor for all processes

An interrupt leaves the running process in `proc->regs`, and a switch takes another one up.  Each
process goes on where it was left, whatever the others do in between: it has a processor of its own.

* `switchTask` — `switch_process` with `proc_switch` and `proc_switch_p`, which may come back to it;
* `irqClock`, `irqGeneral` — the interrupts that lead there;
* `Tasks`, `taskStep` — the kernel with the registers of the processes and of the processor;
* `OwnOp`, `ownStep` — processes that have a processor each;
* `switchTask_cases` — what a switch does, `tasks_refine_own` — the runs.
-/

set_option autoImplicit false

namespace Moonlight

open Sys

/-! ## The source -/

/-- The kernel, `proc->regs` of the processes, and the registers of the processor. -/
structure Tasks where
  kernel : Kernel
  regs : Nat → Regs
  cpu : Regs

/-- What a switch finds beside the state: the registers in `process_hlt`, the local variable of
`proc_switch_p`, the memory, and how many passes the selection may make. -/
structure Scene where
  hlt : Regs
  data : Interupt
  mem : Mem
  passes : Nat

/-- Where a switch ends. -/
inductive SwitchResult
  | runs (s : Tasks)
  /-- `kern_panic`. -/
  | panic

/-- `proc_switch` saves the process that was running; `data` is null after its death. -/
def Tasks.save (s : Tasks) (data : Option Interupt) : Option (Nat → Regs) :=
  match s.kernel.current, data with
  | none, _ => some s.regs
  | some p, some data => some (Function.update s.regs p (procSave (s.regs p) data))
  | some _, none => none

/-- `proc_switch_p` takes the memory of `old` away. -/
def switchOut (L : Layout) (old : Option Nat) (k : Kernel) : Int × Kernel :=
  match old with
  | none => (0, k)
  | some p => processMemorySwitch L (some p) 0 k

/-- `proc_switch_p` shows the memory of `new`; `process_hlt` is a process without maps. -/
def switchIn (L : Layout) (new : Option Nat) (k : Kernel) : Int × Kernel :=
  match new with
  | none =>
    let r := switchMaps L 1 Process.zero.maps k.machine
    (r.1, k.setMachine r.2)
  | some p => processMemorySwitch L (some p) 1 k

/-- `switch_process`, on through `proc_switch` and `proc_switch_p`; `fuel` bounds how many processes
are passed over.  `none` is a call that does not end, or that reads where it must not. -/
def switchTask (L : Layout) (e : Scene) : Nat → Option Interupt → Tasks → Option SwitchResult
  | 0, _, _ => none
  | fuel + 1, data, s => do
    let (selection, k) ← switchProcess e.passes s.kernel
    if selection = .noMoreTask then return .panic
    let regs ← s.save data
    let r := switchOut L s.kernel.current k
    if r.1 ≠ 0 then return .panic
    let r := switchIn L k.current r.2
    if r.1 ≠ 0 then return .panic
    match k.current with
    | none => return .runs ⟨r.2, regs, ← (procSwitchP .RUN e.hlt e.data e.mem).regs⟩
    | some p =>
      let k ← sendSignal L p r.2
      -- a process that has died is left by `process_die_safe`
      if k.current = none then switchTask L e fuel none ⟨k, regs, s.cpu⟩
      else match procSwitchP (k.proc p).state (regs p) e.data e.mem with
        | .switchProcess data => switchTask L e fuel (some data) ⟨k, regs, s.cpu⟩
        | stop => return .runs ⟨k, regs, ← stop.regs⟩

/-- `irq_clock`. -/
def irqClock (L : Layout) (e : Scene) (fuel : Nat) (data : Interupt) (s : Tasks) :
    Option SwitchResult :=
  switchTask L e fuel (some data) s

/-- A row of `signal_info`.  `catch` only prints a message, where there is one. -/
structure SignalInfo where
  number : UInt32
  signal : Int
  error : Bool
  deriving DecidableEq

/-- `signal_info`. -/
def signalInfo : List SignalInfo :=
  [⟨0, 8, true⟩, ⟨3, 5, false⟩, ⟨4, 0, false⟩, ⟨5, 0, false⟩, ⟨6, 4, true⟩, ⟨8, -1, true⟩,
    ⟨9, 0, false⟩, ⟨10, -1, true⟩, ⟨11, -1, true⟩, ⟨12, 7, true⟩, ⟨13, 11, true⟩, ⟨14, 11, true⟩,
    ⟨16, 8, true⟩, ⟨17, 11, true⟩, ⟨18, -1, true⟩, ⟨19, 8, true⟩]

/-- The running process, unless it has ended. -/
def Kernel.alive (k : Kernel) : Option Nat := k.current.filter fun p => (k.proc p).state ≠ .ZOMBIE

/-- `kill_process` of `irq_general`. -/
def killProcess (L : Layout) (e : Scene) (fuel : Nat) (s : Tasks) : Option SwitchResult :=
  match s.kernel.alive with
  | none => some .panic
  | some p => switchTask L e fuel none { s with kernel := processDie L p s.kernel }

/-- `irq_general`. -/
def irqGeneral (L : Layout) (e : Scene) (fuel : Nat) (data : Interupt) (s : Tasks) :
    Option SwitchResult :=
  match signalInfo.find? fun i => i.number = data.intNo with
  | none => some (.runs s)
  | some i =>
    match s.kernel.alive with
    | some p =>
      if 0 ≤ i.signal ∧ data.cs ≠ GDT_SEG_KCODE.toUInt32 then
        let r := addSignal i.signal (some p) SIG_HARD s.kernel
        let s := { s with kernel := r.2 }
        if r.1 ≠ 0 then killProcess L e fuel s else switchTask L e fuel (some data) s
      else if i.error then killProcess L e fuel s
      else some (.runs s)
    | none => if i.error then killProcess L e fuel s else some (.runs s)

/-! ## What a switch does -/

section switch

variable {L : Layout} {e : Scene} {fuel p : Nat} {data : Option Interupt} {s t : Tasks} {k k' : Kernel}

theorem selectNull_ne_task (more : Bool) : selectNull more ≠ .task p := by
  cases more with
  | false => exact Selection.noConfusion
  | true => exact Selection.noConfusion

theorem selectLoop_mem {prevProc : Option Nat} : ∀ {fuel : Nat} {curProc : Option Nat} {more : Bool},
    selectLoop k prevProc fuel curProc more = some (.task p) → p ∈ k.processList := by
  intro fuel
  induction fuel with
  | zero => exact fun h => by cases h
  | succ fuel ih =>
    intro curProc more h
    cases hn : Ring.next k.processList curProc with
    | none =>
      rw [selectLoop] at h
      rw [Ring.next] at hn
      rw [hn] at h
      exact absurd (Option.some.inj h) (selectNull_ne_task more)
    | some q =>
      rw [selectLoop_next fuel more hn] at h
      split at h
      · cases h
        exact Ring.next_mem hn
      split at h
      · exact absurd (Option.some.inj h) (selectNull_ne_task _)
      · exact ih h

/-- The process that is selected is in the list; only `current` changes. -/
theorem switchProcess_selects {passes : Nat} {sel : Selection}
    (h : switchProcess passes k = some (sel, k')) (hsel : sel ≠ .noMoreTask) :
    ∃ new, k' = { k with current := new } ∧ ∀ q, new = some q → q ∈ k.processList := by
  obtain ⟨sel', hloop, hend⟩ := Option.map_eq_some_iff.mp h
  cases sel' with
  | task q =>
    cases hend
    refine ⟨some q, rfl, fun r hr => ?_⟩
    cases hr
    exact selectLoop_mem hloop
  | idle =>
    cases hend
    exact ⟨none, rfl, fun r hr => by cases hr⟩
  | noMoreTask =>
    cases hend
    exact absurd rfl hsel

/-- Showing and hiding memory changes the machine. -/
theorem switchOut_kernel (L : Layout) (old : Option Nat) (k : Kernel) :
    ∃ m, (switchOut L old k).2 = k.setMachine m := by
  cases old with
  | none => exact ⟨k.machine, rfl⟩
  | some p => exact ⟨_, congrArg Prod.snd (processMemorySwitch_eq L p 0 k)⟩

theorem switchIn_kernel (L : Layout) (new : Option Nat) (k : Kernel) :
    ∃ m, (switchIn L new k).2 = k.setMachine m := by
  cases new with
  | none => exact ⟨_, rfl⟩
  | some p => exact ⟨_, congrArg Prod.snd (processMemorySwitch_eq L p 1 k)⟩

/-- `k` is the kernel of a switch to `new`, when its signals are delivered. -/
structure SwitchedTo (s : Tasks) (new : Option Nat) (k : Kernel) : Prop where
  selected : ∃ passes sel k₀, switchProcess passes s.kernel = some (sel, k₀) ∧ sel ≠ .noMoreTask ∧
    k₀.current = new
  current : k.current = new
  list : k.processList = s.kernel.processList
  proc : k.proc = s.kernel.proc
  mem : ∀ q, new = some q → q ∈ k.processList

/-- **What a switch does**: it panics; or the idle task runs; or a process is taken up, and it dies of
its signal, or is passed over, or runs. -/
theorem switchTask_cases {r : SwitchResult} (h : switchTask L e (fuel + 1) data s = some r) :
    r = .panic ∨ ∃ regs k, s.save data = some regs ∧
      ((SwitchedTo s none k ∧ r = .runs ⟨k, regs, e.hlt.loaded⟩) ∨
        ∃ p k', SwitchedTo s (some p) k ∧ sendSignal L p k = some k' ∧
          ((k'.current = none ∧ switchTask L e fuel none ⟨k', regs, s.cpu⟩ = some r) ∨
            (k'.current ≠ none ∧ (k'.proc p).state ≠ .RUN ∧
              switchTask L e fuel (some (procLoad (regs p) e.data)) ⟨k', regs, s.cpu⟩ = some r) ∨
            (k'.current ≠ none ∧ (k'.proc p).state = .RUN ∧
              r = .runs ⟨k', regs, (regs p).loaded⟩))) := by
  rw [switchTask] at h
  obtain ⟨⟨sel, k₀⟩, hsel, h⟩ := Option.bind_eq_some_iff.mp h
  dsimp only at h
  split at h
  · exact .inl (Option.some.inj h).symm
  rename_i hno
  obtain ⟨new, rfl, hmem⟩ := switchProcess_selects hsel hno
  obtain ⟨regs, hsave, h⟩ := Option.bind_eq_some_iff.mp h
  dsimp only at h
  obtain ⟨m, hout⟩ := switchOut_kernel L s.kernel.current { s.kernel with current := new }
  split at h
  · exact .inl (Option.some.inj h).symm
  rw [hout] at h
  obtain ⟨m', hin⟩ := switchIn_kernel L new (({ s.kernel with current := new } : Kernel).setMachine m)
  split at h
  · exact .inl (Option.some.inj h).symm
  rw [hin] at h
  have hentered : SwitchedTo s new
      ((({ s.kernel with current := new } : Kernel).setMachine m).setMachine m') :=
    ⟨⟨_, _, _, hsel, hno, rfl⟩, rfl, rfl, rfl, hmem⟩
  refine .inr ⟨regs, (({ s.kernel with current := new } : Kernel).setMachine m).setMachine m', hsave,
    ?_⟩
  cases new with
  | none =>
    dsimp only at h
    rw [procSwitchP_regs] at h
    exact .inl ⟨hentered, (Option.some.inj h).symm⟩
  | some p =>
    dsimp only at h
    obtain ⟨k', hsend, h⟩ := Option.bind_eq_some_iff.mp h
    refine .inr ⟨p, k', hentered, hsend, ?_⟩
    by_cases hcur : k'.current = none
    · rw [if_pos hcur] at h
      exact .inl ⟨hcur, h⟩
    rw [if_neg hcur] at h
    by_cases hrun : (k'.proc p).state = .RUN
    · have hregs := procSwitchP_regs (regs p) e.data e.mem
      rw [hrun] at h
      generalize procSwitchP .RUN (regs p) e.data e.mem = stop at h hregs
      cases stop with
      | switchProcess data => cases hregs
      | iret data =>
        dsimp only at h
        rw [hregs] at h
        exact .inr (.inr ⟨hcur, hrun, (Option.some.inj h).symm⟩)
      | switchStack dataptr mem =>
        dsimp only at h
        rw [hregs] at h
        exact .inr (.inr ⟨hcur, hrun, (Option.some.inj h).symm⟩)
    · have hover : procSwitchP (k'.proc p).state (regs p) e.data e.mem =
          .switchProcess (procLoad (regs p) e.data) := if_pos hrun
      rw [hover] at h
      exact .inr (.inl ⟨hcur, hrun, h⟩)

/-- What a process sees of the processor: its registers when it runs next, or now. -/
def Tasks.view (s : Tasks) (p : Nat) : Regs :=
  if s.kernel.current = some p then s.cpu else (s.regs p).loaded

theorem SwitchedTo.hasMemory {new : Option Nat} (h : SwitchedTo s new k) (q : Nat) :
    HasMemory k q ↔ HasMemory s.kernel q := by
  unfold HasMemory
  rw [h.list, h.proc]

/-- The processes after a switch see what was saved for them at its beginning. -/
theorem switchTask_view (h : switchTask L e fuel data s = some (.runs t)) :
    ∃ regs, s.save data = some regs ∧ ∀ p, t.view p = (regs p).loaded := by
  induction fuel generalizing data s with
  | zero => cases h
  | succ fuel ih =>
    rcases switchTask_cases h with hpanic | ⟨regs, k, hsave, hidle | ⟨p, k', hin, hsend, hend⟩⟩
    · cases hpanic
    · obtain ⟨hin, ht⟩ := hidle
      cases ht
      exact ⟨regs, hsave, fun q => by
        unfold Tasks.view
        dsimp only
        rw [hin.current, if_neg (Option.some_ne_none q).symm]⟩
    have hself := sendSignal_self hsend hin.current (hin.mem p rfl)
    refine ⟨regs, hsave, fun q => ?_⟩
    rcases hend with ⟨hdead, hnext⟩ | ⟨hcur, -, hnext⟩ | ⟨hcur, -, ht⟩
    · obtain ⟨regs', hsave', hview⟩ := ih hnext
      unfold Tasks.save at hsave'
      dsimp only at hsave'
      rw [hdead] at hsave'
      cases hsave'
      exact hview q
    · obtain ⟨regs', hsave', hview⟩ := ih hnext
      have hp : k'.current = some p := (hself.resolve_left fun h => hcur h.1).1
      unfold Tasks.save at hsave'
      dsimp only at hsave'
      rw [hp] at hsave'
      cases hsave'
      rw [hview q]
      by_cases hq : q = p
      · rw [hq, Function.update_self, loaded_passedOver]
      · rw [Function.update_of_ne hq]
    · cases ht
      have hp : k'.current = some p := (hself.resolve_left fun h => hcur h.1).1
      unfold Tasks.view
      dsimp only
      rw [hp]
      split
      · rename_i hq
        rw [Option.some.inj hq]
      · rfl

/-- No process comes to life in a switch, and the one that runs after it is alive. -/
theorem switchTask_live (h : switchTask L e fuel data s = some (.runs t)) :
    (∀ q, HasMemory t.kernel q → HasMemory s.kernel q) ∧
      ∀ p, t.kernel.current = some p → HasMemory t.kernel p := by
  induction fuel generalizing data s with
  | zero => cases h
  | succ fuel ih =>
    rcases switchTask_cases h with hpanic | ⟨regs, k, -, hidle | ⟨p, k', hin, hsend, hend⟩⟩
    · cases hpanic
    · obtain ⟨hin, ht⟩ := hidle
      cases ht
      refine ⟨fun q => (hin.hasMemory q).mp, fun q hq => ?_⟩
      rw [hin.current] at hq
      cases hq
    have hbefore : ∀ q, HasMemory k' q → HasMemory s.kernel q := fun q hq =>
      (hin.hasMemory q).mp ((sendSignal_beside hsend).live q hq)
    rcases hend with ⟨-, hnext⟩ | ⟨-, -, hnext⟩ | ⟨hcur, hrun, ht⟩
    · obtain ⟨hlive, hnow⟩ := ih hnext
      exact ⟨fun q hq => hbefore q (hlive q hq), hnow⟩
    · obtain ⟨hlive, hnow⟩ := ih hnext
      exact ⟨fun q hq => hbefore q (hlive q hq), hnow⟩
    · cases ht
      obtain ⟨hp, hlist⟩ := (sendSignal_self hsend hin.current (hin.mem p rfl)).resolve_left
        fun h => hcur h.1
      refine ⟨hbefore, fun q hq => ?_⟩
      rw [hp] at hq
      cases hq
      have hz : (k'.proc p).state ≠ .ZOMBIE := by
        rw [hrun]
        exact ProcState.noConfusion
      exact ⟨hlist, hz⟩

theorem alive_eq_some : k.alive = some p ↔ k.current = some p ∧ (k.proc p).state ≠ .ZOMBIE := by
  unfold Kernel.alive
  rw [Option.filter_eq_some_iff]
  simp

theorem addSignal_running (sig : Int) (proc : Option Nat) (type : Nat) (k : Kernel) :
    (addSignal sig proc type k).2.alive = k.alive := by
  have hstate : ∀ q, ((addSignal sig proc type k).2.proc q).state = (k.proc q).state :=
    (addSignal_same (v := Process.state) (fun _ _ _ => rfl) sig proc type k).proc
  unfold Kernel.alive
  rw [addSignal_current]
  simp only [hstate]

/-- A signal that could not be queued. -/
theorem addSignal_failed {sig : Int} {proc : Option Nat} {type : Nat}
    (h : (addSignal sig proc type k).1 ≠ 0) :
    Same Process.standing k (addSignal sig proc type k).2 := by
  rcases addSignal_spec sig proc type k with ⟨p, k₁, -, -, hadded⟩ | hk | hk
  · rw [hadded] at h
    exact absurd rfl h
  · rw [hk]
    exact .refl k
  · rw [hk]
    exact .kmalloc k

/-- Nothing happens, or the process that runs takes the signal of the row and is left, or it dies. -/
inductive Handled (L : Layout) (e : Scene) (fuel : Nat) (data : Interupt) (s t : Tasks) : Prop
  | ignored (row : ∀ i, signalInfo.find? (fun i => i.number = data.intNo) = some i →
      i.error = false ∧ ∀ p, s.kernel.alive = some p → 0 ≤ i.signal →
        data.cs = GDT_SEG_KCODE.toUInt32) (h : t = s)
  | signalled (i : SignalInfo) (p : Nat)
      (row : signalInfo.find? (fun i => i.number = data.intNo) = some i)
      (alive : s.kernel.alive = some p)
      (queued : (addSignal i.signal (some p) SIG_HARD s.kernel).1 = 0)
      (h : switchTask L e fuel (some data)
        { s with kernel := (addSignal i.signal (some p) SIG_HARD s.kernel).2 } = some (.runs t))
  | killed (p : Nat) (k : Kernel) (alive : s.kernel.alive = some p)
      (same : Same Process.standing s.kernel k) (current : k.current = s.kernel.current)
      (h : switchTask L e fuel none { s with kernel := processDie L p k } = some (.runs t))

/-- **What `irq_general` does.** -/
theorem irqGeneral_cases {data : Interupt} (h : irqGeneral L e fuel data s = some (.runs t)) :
    Handled L e fuel data s t := by
  -- `kill_process`, after the signal or without one
  have hkill : ∀ k : Kernel, Same Process.standing s.kernel k → k.current = s.kernel.current →
      k.alive = s.kernel.alive →
      killProcess L e fuel { s with kernel := k } = some (.runs t) → Handled L e fuel data s t := by
    intro k hsame hcur halive hk
    unfold killProcess at hk
    dsimp only at hk
    split at hk
    · cases hk
    · rename_i p hp
      exact .killed p k (halive ▸ hp) hsame hcur hk
  unfold irqGeneral at h
  cases hrow : signalInfo.find? fun i => i.number = data.intNo with
  | none =>
    rw [hrow] at h
    cases h
    exact .ignored (fun i hi => by rw [hrow] at hi; cases hi) rfl
  | some i =>
    rw [hrow] at h
    dsimp only at h
    cases halive : s.kernel.alive with
    | none =>
      rw [halive] at h
      dsimp only at h
      split at h
      · exact hkill s.kernel (Same.refl _) rfl rfl h
      · rename_i herr
        cases h
        refine .ignored (fun j hj => ?_) rfl
        rw [hrow] at hj
        cases hj
        exact ⟨Bool.eq_false_iff.mpr herr, fun p hp => by rw [halive] at hp; cases hp⟩
    | some p =>
      rw [halive] at h
      dsimp only at h
      split at h
      · split at h
        · rename_i herr
          exact hkill _ (addSignal_failed herr) (addSignal_current _ _ _ _)
            (addSignal_running _ _ _ _) h
        · rename_i hadded
          exact .signalled i p hrow halive (not_not.mp hadded) h
      rename_i huser
      split at h
      · exact hkill s.kernel (Same.refl _) rfl rfl h
      · rename_i herr
        cases h
        refine .ignored (fun j hj => ?_) rfl
        rw [hrow] at hj
        cases hj
        exact ⟨Bool.eq_false_iff.mpr herr, fun _ _ hsig => not_not.mp fun hcs => huser ⟨hsig, hcs⟩⟩

end switch

/-! ## The system -/

/-- What happens: the processor runs a process, or the idle task; an interrupt comes; or the kernel
works, for a process or for itself. -/
inductive TaskOp where
  | run (p : Option Nat) (before after : Regs)
  | clock (e : Scene) (fuel : Nat) (esp0 : UInt32) (above : UInt32 × UInt32)
  | fault (e : Scene) (fuel : Nat) (esp0 intNo errCode : UInt32) (above : UInt32 × UInt32)
  | exit (e : Scene) (fuel p status : Nat)
  | iniKern (vAddr size : Nat) (made : Option Nat)
  | dup (swap swap2 p : Nat) (made : Option (Nat × Regs))
  | fork (swap swap2 p : Nat) (made : Option (Nat × Regs))
  | waitpid (p : Nat) (pid : Int) (option : Nat)
  | kill (proc : Nat) (pid sig : Int)
  | other

/-- The new process and its registers. -/
def Tasks.create (s : Tasks) (k : Kernel) (made : Option (Nat × Regs)) : Tasks :=
  { s with
    kernel := k
    regs := match made with
      | none => s.regs
      | some (a, regs) => Function.update s.regs a regs }

/-- One step.  The record of a new process is not one of a process in the list, and its registers are
those of `process_ini_kern`, or a copy of `proc->regs`; a record that is freed again is not followed.
`other` stands for whatever concerns neither the list nor the state or the queue of a process, such as
`mmap`, `munmap` and `signal`. -/
def taskStep (L : Layout) (s : Tasks) : TaskOp → Tasks → Prop
  | .run p before after, t =>
    s.kernel.current = p ∧ s.cpu = before ∧ t = { s with cpu := after }
  | .clock e fuel esp0 above, t =>
    irqClock L e fuel (irqData esp0 s.cpu 32 0 above) s = some (.runs t)
  | .fault e fuel esp0 intNo errCode above, t =>
    irqGeneral L e fuel (irqData esp0 s.cpu intNo errCode above) s = some (.runs t)
  | .exit e fuel p status, t => s.kernel.current = some p ∧
    switchTask L e fuel none { s with kernel := Moonlight.exit L p status s.kernel } = some (.runs t)
  | .iniKern v n made, t => FreshRecord s.kernel ∧ (processIniKern L v n s.kernel).1 = made ∧
    t = s.create (processIniKern L v n s.kernel).2 (made.map fun a => (a, iniKernRegs v))
  | .dup swap swap2 p made, t => HasMemory s.kernel p ∧ FreshRecord s.kernel ∧
    made = (processDup L swap swap2 p s.kernel).1.map (fun a => (a, s.regs p)) ∧
    t = s.create (processDup L swap swap2 p s.kernel).2 made
  | .fork swap swap2 p made, t => HasMemory s.kernel p ∧ FreshRecord s.kernel ∧
    made = (processDup L swap swap2 p s.kernel).1.map (fun a => (a, s.regs p)) ∧
    t = s.create (Moonlight.fork L swap swap2 p s.kernel).2 made
  | .waitpid p pid option, t => HasMemory s.kernel p ∧
    t = { s with kernel := (processWaitpid p pid option s.kernel).2 }
  | .kill proc pid sig, t => t = { s with kernel := (Moonlight.kill proc pid sig s.kernel).2 }
  | .other, t => Same Process.standing s.kernel t.kernel ∧
    t.kernel.current = s.kernel.current ∧ t.regs = s.regs ∧ t.cpu = s.cpu

/-! ## A processor for each process -/

inductive OwnOp where
  | run (p : Nat) (before after : Regs)
  | interrupt (p : Nat)
  | create (p : Nat) (regs : Regs)

/-- A process runs on its own processor, and an interrupt changes two flags there. -/
def ownStep (own : Nat → Regs) : OwnOp → (Nat → Regs) → Prop
  | .run p before after, own' => own p = before ∧ own' = Function.update own p after
  | .interrupt p, own' => own' = Function.update own p (own p).resumed
  | .create p regs, own' => own' = Function.update own p regs

/-- What the processes are seen to do. -/
inductive Execution where
  | ran (p : Nat) (before after : Regs)
  | made (p : Nat) (regs : Regs)

def OwnOp.shown : OwnOp → List Execution
  | .run p before after => [.ran p before after]
  | .create p regs => [.made p regs]
  | .interrupt _ => []

/-- The new process starts with the registers as a switch loads them. -/
def madeShown : Option (Nat × Regs) → List Execution
  | some (a, regs) => [.made a regs.loaded]
  | none => []

def TaskOp.shown : TaskOp → List Execution
  | .run (some p) before after => [.ran p before after]
  | .iniKern v _ made => madeShown (made.map fun a => (a, iniKernRegs v))
  | .dup _ _ _ made => madeShown made
  | .fork _ _ _ made => madeShown made
  | _ => []

/-- **Every living process sees its own processor**, and the one that runs is alive. -/
structure Tasks.Matches (s : Tasks) (own : Nat → Regs) : Prop where
  view : ∀ p, HasMemory s.kernel p → s.view p = own p
  alive : ∀ p, s.kernel.current = some p → HasMemory s.kernel p

section refinement

variable {L : Layout} {e : Scene} {fuel p : Nat} {s t : Tasks} {k : Kernel} {own : Nat → Regs}

/-- An interrupt from which the running process is left, perhaps with a signal in its queue. -/
theorem interrupt_simulates {esp0 intNo errCode : UInt32} {above : UInt32 × UInt32}
    (hm : s.Matches own) (hcur : k.current = s.kernel.current)
    (hlive : ∀ q, HasMemory k q → HasMemory s.kernel q)
    (h : switchTask L e fuel (some (irqData esp0 s.cpu intNo errCode above))
      { s with kernel := k } = some (.runs t)) :
    ∃ ops own', Run ownStep own ops own' ∧ t.Matches own' ∧ ops.flatMap OwnOp.shown = [] := by
  obtain ⟨hafter, halive⟩ := switchTask_live h
  obtain ⟨regs, hsave, hview⟩ := switchTask_view h
  unfold Tasks.save at hsave
  dsimp only at hsave
  rw [hcur] at hsave
  cases hp : s.kernel.current with
  | none =>
    rw [hp] at hsave
    cases hsave
    refine ⟨[], own, .nil own, ⟨fun q hq => ?_, halive⟩, rfl⟩
    rw [hview, ← hm.view q (hlive q (hafter q hq))]
    unfold Tasks.view
    rw [hp]
    exact (if_neg (Option.some_ne_none q).symm).symm
  | some p =>
    rw [hp] at hsave
    cases hsave
    refine ⟨[.interrupt p], _, .single rfl, ⟨fun q hq => ?_, halive⟩, rfl⟩
    have hown := hm.view q (hlive q (hafter q hq))
    unfold Tasks.view at hown
    rw [hp] at hown
    rw [hview]
    by_cases hq : q = p
    · subst hq
      rw [if_pos rfl] at hown
      rw [Function.update_self, Function.update_self, loaded_interrupted, hown]
    · rw [if_neg fun he => hq (Option.some.inj he).symm] at hown
      rw [Function.update_of_ne hq, Function.update_of_ne hq, hown]

/-- The running process has ended. -/
theorem death_simulates (hm : s.Matches own) (hp : s.kernel.current = some p)
    (hcur : k.current = none) (hlive : ∀ q, HasMemory k q → HasMemory s.kernel q)
    (hgone : ¬ HasMemory k p)
    (h : switchTask L e fuel none { s with kernel := k } = some (.runs t)) : t.Matches own := by
  obtain ⟨hafter, halive⟩ := switchTask_live h
  obtain ⟨regs, hsave, hview⟩ := switchTask_view h
  unfold Tasks.save at hsave
  dsimp only at hsave
  rw [hcur] at hsave
  cases hsave
  refine ⟨fun q hq => ?_, halive⟩
  have hne : s.kernel.current ≠ some q := fun he => by
    rw [hp] at he
    rw [← Option.some.inj he] at hq
    exact hgone (hafter p hq)
  rw [hview, ← hm.view q (hlive q (hafter q hq))]
  unfold Tasks.view
  rw [if_neg hne]

/-- The kernel works, and the registers stay. -/
theorem Tasks.Matches.kernel (hm : s.Matches own) (hcur : k.current = s.kernel.current)
    (hlive : ∀ q, HasMemory k q ↔ HasMemory s.kernel q) :
    Tasks.Matches { s with kernel := k } own := by
  refine ⟨fun q hq => ?_, fun q hq => ?_⟩
  · rw [← hm.view q ((hlive q).mp hq)]
    unfold Tasks.view
    dsimp only
    rw [hcur]
  · dsimp only at hq ⊢
    rw [hcur] at hq
    exact (hlive q).mpr (hm.alive q hq)

/-- A call that creates a process: the record is new, or none has been made. -/
theorem create_simulates {r : Option Nat} {regs : Regs} (hm : s.Matches own)
    (h : Makes r s.kernel k) :
    ∃ ops own', Run ownStep own ops own' ∧
      (s.create k (r.map fun a => (a, regs))).Matches own' ∧
      ops.flatMap OwnOp.shown = madeShown (r.map fun a => (a, regs)) := by
  obtain ⟨a, ha, -, hborn, hr⟩ := h
  have hne : ∀ {q}, HasMemory s.kernel q → q ≠ a := fun hq he => ha (he ▸ hq.1)
  have halive : ∀ q, k.current = some q → HasMemory k q := fun q hq => by
    rw [hborn.current] at hq
    have hlive := hm.alive q hq
    exact (hborn.hasMemory (hne hlive)).mpr hlive
  have hrun : s.kernel.current ≠ some a := fun he => hne (hm.alive a he) rfl
  rcases hr with rfl | ⟨rfl, hnone⟩
  · refine ⟨[.create a regs.loaded], _, .single rfl, ⟨fun q hq => ?_, halive⟩, rfl⟩
    unfold Tasks.view Tasks.create
    dsimp only [Option.map_some]
    rw [hborn.current]
    by_cases hqa : q = a
    · rw [hqa, if_neg hrun, Function.update_self, Function.update_self]
    · rw [Function.update_of_ne hqa, Function.update_of_ne hqa]
      exact hm.view q ((hborn.hasMemory hqa).mp hq)
  · refine ⟨[], own, .nil own, ⟨fun q hq => ?_, halive⟩, rfl⟩
    have hqa : q ≠ a := fun he => hnone (he ▸ hq.1)
    unfold Tasks.view Tasks.create
    dsimp only [Option.map_none]
    rw [hborn.current]
    exact hm.view q ((hborn.hasMemory hqa).mp hq)

/-- **One step** is none, or one, of the processes with their own processors. -/
theorem taskStep_simulates {op : TaskOp} (hm : s.Matches own) (h : taskStep L s op t) :
    ∃ ops own', Run ownStep own ops own' ∧ t.Matches own' ∧ ops.flatMap OwnOp.shown = op.shown := by
  cases op with
  | run p before after =>
    obtain ⟨hp, hcpu, rfl⟩ := h
    cases p with
    | none =>
      refine ⟨[], own, .nil own, ⟨fun q hq => ?_, hm.alive⟩, rfl⟩
      rw [← hm.view q hq]
      unfold Tasks.view
      dsimp only
      rw [hp, if_neg (Option.some_ne_none q).symm, if_neg (Option.some_ne_none q).symm]
    | some p =>
      have hown := hm.view p (hm.alive p hp)
      unfold Tasks.view at hown
      rw [hp, if_pos rfl] at hown
      refine ⟨[.run p before after], _, .single ⟨hown.symm.trans hcpu, rfl⟩, ⟨fun q hq => ?_, hm.alive⟩,
        rfl⟩
      have hview := hm.view q hq
      unfold Tasks.view at hview ⊢
      dsimp only
      rw [hp] at hview ⊢
      by_cases hqp : q = p
      · rw [hqp, if_pos rfl, Function.update_self]
      · rw [if_neg fun he => hqp (Option.some.inj he).symm] at hview ⊢
        rw [Function.update_of_ne hqp, hview]
  | clock e fuel esp0 above => exact interrupt_simulates hm rfl (fun _ hq => hq) h
  | fault e fuel esp0 intNo errCode above =>
    rcases irqGeneral_cases h with ⟨-, rfl⟩ | ⟨i, p, -, -, -, hswitch⟩ |
      ⟨p, k, halive, hsame, hcur, hswitch⟩
    · exact ⟨[], own, .nil own, hm, rfl⟩
    · refine interrupt_simulates hm (addSignal_current _ _ _ _) (fun q hq => ?_) hswitch
      exact ((addSignal_memory i.signal p SIG_HARD s.kernel).hasMemory q).mp hq
    · obtain ⟨hp, -⟩ := alive_eq_some.mp halive
      have hdead : (processDie L p k).current = none := by
        rw [processDie_current, hcur, if_pos hp]
      have hside : Beside none s.kernel (processDie L p k) :=
        (Beside.of_same hsame).trans (processDie_beside L p k)
      exact ⟨[], own, .nil own, death_simulates hm hp hdead hside.live (processDie_gone L p k) hswitch,
        rfl⟩
  | exit e fuel p status =>
    obtain ⟨hp, hswitch⟩ := h
    have hdead : (Moonlight.exit L p status s.kernel).current = none := by
      unfold Moonlight.exit
      rw [processDie_current, Kernel.modify_current, if_pos hp]
    have hside : Beside none s.kernel (Moonlight.exit L p status s.kernel) := exit_beside L p status _
    exact ⟨[], own, .nil own, death_simulates hm hp hdead hside.live (processDie_gone L p _) hswitch,
      rfl⟩
  | iniKern v n made =>
    obtain ⟨hfresh, rfl, rfl⟩ := h
    exact create_simulates hm (iniKern_makes hfresh v n)
  | dup swap swap2 p made =>
    obtain ⟨hp, hfresh, rfl, rfl⟩ := h
    exact create_simulates hm (processDup_makes hfresh swap swap2 hp.1)
  | fork swap swap2 p made =>
    obtain ⟨hp, hfresh, rfl, rfl⟩ := h
    exact create_simulates hm (fork_makes hfresh swap swap2 hp.1)
  | waitpid p pid option =>
    obtain ⟨hp, rfl⟩ := h
    exact ⟨[], own, .nil own, hm.kernel (processWaitpid_current p pid option _)
      (processWaitpid_memory hp.2 pid option).1.hasMemory, rfl⟩
  | kill proc pid sig =>
    obtain rfl := h
    obtain ⟨hcur, hlive⟩ := kill_live proc pid sig s.kernel
    exact ⟨[], own, .nil own, hm.kernel hcur hlive, rfl⟩
  | other =>
    obtain ⟨hsame, hcur, hregs, hcpu⟩ := h
    obtain ⟨k, regs, cpu⟩ := t
    dsimp only at hsame hcur hregs hcpu
    subst hregs hcpu
    refine ⟨[], own, .nil own, hm.kernel hcur fun q => ?_, rfl⟩
    have hstate : (k.proc q).state = (s.kernel.proc q).state := hsame.field Prod.fst q
    unfold HasMemory
    rw [hsame.list, hstate]

/-- **Each process has a processor of its own.**  In every run, whatever the interrupts, the scheduler
and the other processes do in between, a process goes on with the registers that it had when it was
left, but for the two flags and, in the code of the kernel, for `ss`; a new one starts with those of
`process_ini_kern`, or with those that were saved for its parent. -/
theorem tasks_refine_own {ops : List TaskOp} (hstart : s.kernel.processList = [])
    (hidle : s.kernel.current = none) (hrun : Run (taskStep L) s ops t) :
    ∃ acts own, Run ownStep (fun p => (s.regs p).loaded) acts own ∧ t.Matches own ∧
      acts.flatMap OwnOp.shown = ops.flatMap TaskOp.shown := by
  refine hrun.simulates TaskOp.shown OwnOp.shown Tasks.Matches (fun s op t own hm hs =>
    taskStep_simulates hm hs) ⟨fun p hp => ?_, fun p hp => ?_⟩
  · have hin := hp.1
    rw [hstart] at hin
    cases hin
  · rw [hidle] at hp
    cases hp

end refinement

/-- The tasks of a switch that does not panic. -/
def SwitchResult.tasks : SwitchResult → Option Tasks
  | .runs s => some s
  | .panic => none

theorem SwitchResult.eq_runs {r : Option SwitchResult} (h : (r.bind SwitchResult.tasks).isSome)
    (s : Tasks) : r = some (.runs ((r.bind SwitchResult.tasks).getD s)) := by
  cases r with
  | none => cases h
  | some r =>
    cases r with
    | runs t => rfl
    | panic => cases h

/-- The scene of a switch on a machine whose idle task has never run. -/
def Scene.first : Scene := ⟨firstIdle.regs, default, fun _ => 0, 4⟩

/-- The clock ticks. -/
def Tasks.ticked (s : Tasks) : Option SwitchResult :=
  irqClock .sample .first 1 (irqData 0 s.cpu 32 0 (0, 0)) s

def Tasks.tick (s : Tasks) : Tasks := (s.ticked.bind SwitchResult.tasks).getD s

/-- The kernel before `init_process`, and after it. -/
def Tasks.boot : Tasks := ⟨.boot, fun _ => Regs.zero, Regs.zero⟩

def Tasks.made : Tasks :=
  Tasks.boot.create (processIniKern .sample 0x1000 4096 .boot).2 (some (100, iniKernRegs 0x1000))

def Tasks.init : Tasks :=
  { Tasks.made with kernel := (processMemorySwitch .sample (some 100) 0 Tasks.made.kernel).2 }

theorem tick_step (s : Tasks) (hs : (s.ticked.bind SwitchResult.tasks).isSome) :
    taskStep .sample s (.clock .first 1 0 (0, 0)) s.tick :=
  SwitchResult.eq_runs hs s

/-- `init_process`. -/
theorem init_reached :
    Run (taskStep .sample) Tasks.boot [.iniKern 0x1000 4096 (some 100), .other] Tasks.init := by
  have hmade : taskStep .sample .boot (.iniKern 0x1000 4096 (some 100)) .made :=
    ⟨freshRecord_of rfl (by decide), by decide +kernel, rfl⟩
  have hother : taskStep .sample .made .other .init := by
    obtain ⟨m, hm⟩ := switchOut_kernel .sample (some 100) Tasks.made.kernel
    have hkernel : Tasks.init.kernel = Tasks.made.kernel.setMachine m := hm
    refine ⟨?_, ?_, rfl, rfl⟩
    · rw [hkernel]
      exact .setMachine _ _
    · rw [hkernel]
      rfl
  exact .cons hmade (.single hother)

/-- The first process is made and taken up by the clock; it runs, and the clock takes it up again. -/
theorem init_has_processor : ∃ ops t, Run (taskStep .sample) Tasks.boot ops t ∧
    ops.flatMap TaskOp.shown = [.made 100 (iniKernRegs 0x1000).loaded,
      .ran 100 (iniKernRegs 0x1000).loaded tickInBody, .ran 100 tickInBody.resumed Regs.zero] ∧
    ∃ acts own, Run ownStep (fun p => (Tasks.boot.regs p).loaded) acts own ∧ t.Matches own ∧
      acts.flatMap OwnOp.shown = ops.flatMap TaskOp.shown := by
  let next : Tasks := { Tasks.init.tick with cpu := tickInBody }
  obtain ⟨hsome, hcur, hcpu⟩ : (Tasks.init.ticked.bind SwitchResult.tasks).isSome ∧
      Tasks.init.tick.kernel.current = some 100 ∧
      Tasks.init.tick.cpu = (iniKernRegs 0x1000).loaded := by decide +kernel
  obtain ⟨hsome', hcur', hcpu'⟩ : (next.ticked.bind SwitchResult.tasks).isSome ∧
      next.tick.kernel.current = some 100 ∧ next.tick.cpu = tickInBody.resumed := by decide +kernel
  have hfirst := tick_step .init hsome
  have hrun : taskStep .sample Tasks.init.tick
      (.run (some 100) (iniKernRegs 0x1000).loaded tickInBody) next := ⟨hcur, hcpu, rfl⟩
  have hsecond := tick_step next hsome'
  have hagain : taskStep .sample next.tick (.run (some 100) tickInBody.resumed Regs.zero)
      { next.tick with cpu := Regs.zero } := ⟨hcur', hcpu', rfl⟩
  have hall := init_reached.append (.cons hfirst (.cons hrun (.cons hsecond (.single hagain))))
  exact ⟨_, _, hall, rfl, tasks_refine_own rfl rfl hall⟩

end Moonlight
