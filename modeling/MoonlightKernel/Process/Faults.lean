import MoonlightKernel.Process.Delivery
import MoonlightKernel.Process.Processor

/-!
# Faults are fatal

A process that faults is not resumed.  `irq_general` queues a hard signal for it and lets the
scheduler go on; the process is in the list still, but what it finds when it is next selected is
`sig_core`, at the head of its queue.  Nothing that happens in between takes the signal away.

* `Ends` — a process calls `exit`, or causes an interrupt that is fatal;
* `Condemned` — a process that is gone, or that dies when it is next selected;
* `switchTask_condemned`, `taskStep_condemned` — what keeps it so;
* `ended_never_runs` — the runs.
-/

set_option autoImplicit false

namespace Moonlight

open Sys

/-- The row of `signal_info` is that of an error, or has a signal for a process in user mode. -/
def Fatal (data : Interupt) : Prop :=
  ∃ i, signalInfo.find? (fun i => i.number = data.intNo) = some i ∧
    (i.error = true ∨ (0 < i.signal ∧ data.cs ≠ GDT_SEG_KCODE.toUInt32))

/-- The running process `p` ends. -/
inductive Ends (s : Tasks) (p : Nat) : TaskOp → Prop
  | exit (e : Scene) (fuel status : Nat) : Ends s p (.exit e fuel p status)
  | fault (e : Scene) (fuel : Nat) (esp0 intNo errCode : UInt32) (above : UInt32 × UInt32)
      (alive : s.kernel.alive = some p)
      (fatal : Fatal (irqData esp0 s.cpu intNo errCode above)) :
      Ends s p (.fault e fuel esp0 intNo errCode above)

/-- A call that makes the process `p`. -/
def TaskOp.Creates (p : Nat) : TaskOp → Prop
  | .iniKern _ _ made => made = some p
  | .dup _ _ _ made | .fork _ _ _ made => made.map Prod.fst = some p
  | _ => False

/-- The entry kills, whatever handlers the process has set. -/
def SigQueue.Deadly (s : SigQueue) : Prop :=
  s.Hard ∧ s.state ≠ SIG_EXECUTING ∧ sigHandler[s.sigHandled]? = some .sigCore

/-- The process is gone, or the first signal of its queue kills it. -/
def Condemned (p : Nat) (k : Kernel) : Prop :=
  HasMemory k p → ∃ s rest, (k.proc p).signal.sigQueue = s :: rest ∧ s.Deadly

section condemned

variable {L : Layout} {e : Scene} {fuel p q : Nat} {data : Option Interupt} {s t : Tasks}
  {k k' : Kernel} {but : Option Nat}

theorem condemned_of_gone (h : ¬ HasMemory k p) : Condemned p k := fun hp => absurd hp h

/-- A call that leaves the process beside. -/
theorem Beside.condemned (h : Beside but k k') (hne : some p ≠ but) (hd : Condemned p k) : Condemned p k' := by
  intro hp
  obtain ⟨a, rest, hqueue, hdeadly⟩ := hd (h.live p hp)
  obtain ⟨more, hmore⟩ := h.queue p hne hp
  rw [hqueue] at hmore
  exact ⟨a, rest ++ more, hmore.symm, hdeadly⟩

theorem SwitchedTo.condemned {new : Option Nat} (h : SwitchedTo s new k) (hd : Condemned p s.kernel) :
    Condemned p k := by
  intro hp
  obtain ⟨a, rest, hqueue, hdeadly⟩ := hd ((h.hasMemory p).mp hp)
  refine ⟨a, rest, ?_, hdeadly⟩
  rw [h.proc]
  exact hqueue

/-- The creation of another process. -/
theorem Born.condemned (h : Born q k k') (hne : p ≠ q) (hd : Condemned p k) : Condemned p k' := by
  intro hp
  obtain ⟨a, rest, hqueue, hdeadly⟩ := hd ((h.hasMemory hne).mp hp)
  have hsame : (k'.proc p).signal.sigQueue = (k.proc p).signal.sigQueue :=
    congrArg Prod.snd (h.others p hne)
  exact ⟨a, rest, hsame.trans hqueue, hdeadly⟩

theorem Makes.condemned {r : Option Nat} (h : Makes r k k') (hr : r ≠ some p) (hd : Condemned p k) :
    Condemned p k' := by
  obtain ⟨a, -, -, hborn, hmade | ⟨-, hnone⟩⟩ := h
  · refine hborn.condemned (fun hpa => hr ?_) hd
    rw [hpa]
    exact hmade
  by_cases hpa : p = a
  · rw [hpa]
    exact condemned_of_gone fun hp => hnone hp.1
  · exact hborn.condemned hpa hd

/-- **The delivery kills it.** -/
theorem sendSignal_condemned (hd : Condemned p k) (hmem : p ∈ k.processList)
    (h : sendSignal L p k = some k') : (k'.proc p).state = .ZOMBIE := by
  by_cases hlive : (k.proc p).state = .ZOMBIE
  · unfold sendSignal at h
    split at h
    · cases h
      exact hlive
    · rw [if_pos hlive] at h
      cases h
      rw [Kernel.modify_proc_self]
      exact hlive
  · obtain ⟨a, rest, hqueue, hhard, hnew, hcore⟩ := hd ⟨hmem, hlive⟩
    have hhandler : handlerFor (k.proc p) a = some .sigCore := (if_pos hhard).trans hcore
    have hdead : ∀ v, ((runHandler L .sigCore p v k).proc p).state = .ZOMBIE :=
      fun v => processDie_zombie L p _
    unfold sendSignal at h
    rw [hqueue] at h
    dsimp only at h
    rw [if_neg hlive, if_neg hnew, hhandler, Option.map_some, if_pos (hdead _)] at h
    cases h
    exact hdead _

/-- **The scheduler does not resume it.** -/
theorem switchTask_condemned (hd : Condemned p s.kernel)
    (h : switchTask L e fuel data s = some (.runs t)) :
    Condemned p t.kernel ∧ t.kernel.current ≠ some p := by
  induction fuel generalizing data s with
  | zero => cases h
  | succ fuel ih =>
    rcases switchTask_cases h with hpanic | ⟨regs, k, -, hidle | ⟨q, k', hin, hsend, hend⟩⟩
    · cases hpanic
    · obtain ⟨hin, ht⟩ := hidle
      cases ht
      refine ⟨hin.condemned hd, ?_⟩
      rw [hin.current]
      exact (Option.some_ne_none p).symm
    have hselected : Condemned p k := hin.condemned hd
    have hqueued : q ∈ k.processList := hin.mem q rfl
    have hafter : Condemned p k' := by
      by_cases hpq : p = q
      · subst hpq
        exact condemned_of_gone fun hp => hp.2 (sendSignal_condemned hselected hqueued hsend)
      · exact (sendSignal_beside hsend).condemned (fun he => hpq (Option.some.inj he)) hselected
    rcases hend with ⟨-, hnext⟩ | ⟨-, -, hnext⟩ | ⟨hcur, hrun, ht⟩
    · exact ih hafter hnext
    · exact ih hafter hnext
    · cases ht
      obtain ⟨hq, -⟩ := (sendSignal_self hsend hin.current hqueued).resolve_left fun h => hcur h.1
      refine ⟨hafter, fun he => ?_⟩
      rw [hq] at he
      cases he
      rw [sendSignal_condemned hselected hqueued hsend] at hrun
      cases hrun

/-- A signal of another process. -/
theorem addSignal_condemned (sig : Int) (type : Nat) (hne : p ≠ q) (hd : Condemned p k) :
    Condemned p (addSignal sig (some q) type k).2 := by
  rcases addSignal_spec sig (some q) type k with ⟨r, k₁, hr, rfl, h⟩ | h | h
  · cases hr
    rw [h]
    exact ((WritesOnly.modify k.kmalloc.2 _).born (a := q)).condemned hne hd
  · rw [h]
    exact hd
  · rw [h]
    exact hd

/-- **What `signal_info` sends kills.** -/
theorem signalInfo_deadly {i : SignalInfo} (hi : i ∈ signalInfo) (hsig : 0 < i.signal) :
    SigQueue.Deadly ⟨i.signal.toNat, SIG_HARD ||| SIG_NOT_EXECUTING⟩ := by
  have hrows : ∀ i ∈ signalInfo, 0 < i.signal → sigHandler[i.signal.toNat]? = some .sigCore := by
    decide
  have hfresh : SIG_HARD ||| SIG_NOT_EXECUTING ≠ SIG_EXECUTING := by decide
  exact ⟨(hard_iff _ _).mpr (by decide), hfresh, hrows i hi hsig⟩

/-- A signal of `signal_info` that has been queued. -/
theorem addSignal_deadly {i : SignalInfo} (hi : i ∈ signalInfo) (hsig : 0 < i.signal)
    (hlive : (k.proc p).state ≠ .ZOMBIE) (h : (addSignal i.signal (some p) SIG_HARD k).1 = 0) :
    Condemned p (addSignal i.signal (some p) SIG_HARD k).2 := by
  have hrange : ¬ (i.signal < 0 ∨ i.signal > 34) := by
    have hrows : ∀ i ∈ signalInfo, i.signal ≤ 34 := by decide
    have hmax := hrows i hi
    omega
  rw [addSignal_tested (Int.ne_of_gt hsig) (by decide) hlive hrange] at h ⊢
  rw [if_neg (fun hsoft => absurd hsoft.1 (by decide))] at h ⊢
  cases hm : k.kmalloc with
  | mk a k₁ =>
    rw [hm] at h
    cases a with
    | none => cases h
    | some a =>
      intro _
      refine ⟨_, (k₁.proc p).signal.sigQueue, ?_, signalInfo_deadly hi hsig⟩
      dsimp only
      rw [Kernel.modify_proc_self]
      rfl

/-- The signal of an error is one that can be sent, if it has been. -/
theorem addSignal_error {i : SignalInfo} (hi : i ∈ signalInfo) (herr : i.error = true)
    (h : (addSignal i.signal (some p) SIG_HARD k).1 = 0) : 0 < i.signal := by
  have hrows : ∀ i ∈ signalInfo, i.error = true → i.signal ≠ 0 := by decide
  refine lt_of_le_of_ne (not_lt.mp fun hneg => ?_) (hrows i hi herr).symm
  unfold addSignal at h
  rw [if_neg (hrows i hi herr), if_neg (by decide)] at h
  dsimp only at h
  split at h
  · cases h
  · rw [if_pos (.inl hneg)] at h
    cases h

/-- **The end of a process**: it is condemned, and does not run. -/
theorem ends_condemned {op : TaskOp} (h : Ends s p op) (hs : taskStep L s op t) :
    Condemned p t.kernel ∧ t.kernel.current ≠ some p := by
  cases h with
  | exit e fuel status =>
    obtain ⟨-, hswitch⟩ := hs
    exact switchTask_condemned (condemned_of_gone (processDie_gone L p _)) hswitch
  | fault e fuel esp0 intNo errCode above alive fatal =>
    obtain ⟨i, hrow, hfatal⟩ := fatal
    rcases irqGeneral_cases hs with ⟨hignored, -⟩ | ⟨j, q, hrow', halive, hadded, hswitch⟩ |
      ⟨q, k, halive, -, -, hswitch⟩
    · obtain ⟨herr, hkernel⟩ := hignored i hrow
      rcases hfatal with he | ⟨hsig, huser⟩
      · rw [herr] at he
        cases he
      · exact absurd (hkernel p alive hsig.le) huser
    · rw [alive] at halive
      cases halive
      rw [hrow] at hrow'
      cases hrow'
      obtain ⟨-, hlive⟩ := alive_eq_some.mp alive
      have hi : i ∈ signalInfo := List.mem_of_find?_eq_some hrow
      have hsig : 0 < i.signal := by
        rcases hfatal with herr | ⟨hsig, -⟩
        · exact addSignal_error hi herr hadded
        · exact hsig
      exact switchTask_condemned (addSignal_deadly hi hsig hlive hadded) hswitch
    · rw [alive] at halive
      cases halive
      exact switchTask_condemned (condemned_of_gone (processDie_gone L p k)) hswitch

/-- **What happens afterwards** does not save it. -/
theorem taskStep_condemned {op : TaskOp} (hd : Condemned p s.kernel) (hcur : s.kernel.current ≠ some p)
    (hnew : ¬ op.Creates p) (h : taskStep L s op t) :
    Condemned p t.kernel ∧ t.kernel.current ≠ some p := by
  have hbeside : ∀ {k : Kernel}, Beside none s.kernel k → Condemned p k := fun hk =>
    hk.condemned (Option.some_ne_none p) hd
  have hmakes : ∀ {r : Option Nat} {k : Kernel}, Makes r s.kernel k → r ≠ some p →
      Condemned p k ∧ k.current ≠ some p := by
    intro r k hk hr
    refine ⟨hk.condemned hr hd, ?_⟩
    obtain ⟨a, -, -, hborn, -⟩ := hk
    rw [hborn.current]
    exact hcur
  cases op with
  | run q before after =>
    obtain ⟨-, -, rfl⟩ := h
    exact ⟨hd, hcur⟩
  | clock e fuel esp0 above => exact switchTask_condemned hd h
  | fault e fuel esp0 intNo errCode above =>
    rcases irqGeneral_cases h with ⟨-, rfl⟩ | ⟨i, q, -, halive, -, hswitch⟩ |
      ⟨q, k, -, hsame, -, hswitch⟩
    · exact ⟨hd, hcur⟩
    · have hne : p ≠ q := fun he => hcur (he ▸ (alive_eq_some.mp halive).1)
      exact switchTask_condemned (addSignal_condemned i.signal SIG_HARD hne hd) hswitch
    · exact switchTask_condemned
        (hbeside ((Beside.of_same hsame).trans (processDie_beside L q k))) hswitch
  | exit e fuel q status =>
    obtain ⟨-, hswitch⟩ := h
    exact switchTask_condemned (hbeside (exit_beside L q status s.kernel)) hswitch
  | iniKern v n made =>
    obtain ⟨hfresh, rfl, rfl⟩ := h
    exact hmakes (iniKern_makes hfresh v n) hnew
  | dup swap swap2 q made =>
    obtain ⟨hq, hfresh, rfl, rfl⟩ := h
    refine hmakes (processDup_makes hfresh swap swap2 hq.1) fun he => hnew ?_
    unfold TaskOp.Creates
    dsimp only
    rw [he]
    rfl
  | fork swap swap2 q made =>
    obtain ⟨hq, hfresh, rfl, rfl⟩ := h
    refine hmakes (fork_makes hfresh swap swap2 hq.1) fun he => hnew ?_
    unfold TaskOp.Creates
    dsimp only
    rw [he]
    rfl
  | waitpid q pid option =>
    obtain ⟨hq, rfl⟩ := h
    refine ⟨hbeside (processWaitpid_beside hq.2 pid option), ?_⟩
    rw [show (processWaitpid q pid option s.kernel).2.current = s.kernel.current from
      processWaitpid_current q pid option s.kernel]
    exact hcur
  | kill proc pid sig =>
    obtain rfl := h
    refine ⟨hbeside (kill_beside proc pid sig s.kernel), ?_⟩
    rw [show (Moonlight.kill proc pid sig s.kernel).2.current = s.kernel.current from
      (kill_live proc pid sig s.kernel).1]
    exact hcur
  | other =>
    obtain ⟨hsame, hkeep, -, -⟩ := h
    refine ⟨hbeside (.of_same hsame), ?_⟩
    rw [hkeep]
    exact hcur

/-- **A fault is fatal.**  After `exit`, and after an interrupt that is fatal to it, a process does not
run again, whatever else happens, until a new process is made in its record.  At the end it is gone,
or has the signal at the head of its queue, and the next delivery ends it. -/
theorem ended_never_runs {op : TaskOp} {ops : List TaskOp} {u : Tasks} (hend : Ends s p op)
    (hstep : taskStep L s op t) (hrun : Run (taskStep L) t ops u)
    (hnew : ∀ op ∈ ops, ¬ op.Creates p) :
    (∀ before after, TaskOp.run (some p) before after ∉ ops) ∧ Condemned p u.kernel ∧
      u.kernel.current ≠ some p ∧ ∀ k, p ∈ u.kernel.processList →
        sendSignal L p u.kernel = some k → (k.proc p).state = .ZOMBIE := by
  obtain ⟨hnever, hcondemned, hcur⟩ := hrun.avoids
    (fun s => Condemned p s.kernel ∧ s.kernel.current ≠ some p)
    (fun op => ¬ op.Creates p) (fun op => ∃ before after, op = .run (some p) before after)
    (fun s op t hs ha hop => by
      refine ⟨?_, taskStep_condemned hs.1 hs.2 hop ha⟩
      rintro ⟨before, after, rfl⟩
      exact hs.2 ha.1) hnew (ends_condemned hend hstep)
  exact ⟨fun before after hmem => hnever _ hmem ⟨before, after, rfl⟩, hcondemned, hcur,
    fun _ hin hk => sendSignal_condemned hcondemned hin hk⟩

end condemned

/-- Two processes without memory.  The first one runs, in user mode. -/
def Tasks.two : Tasks :=
  ⟨{ Kernel.boot with current := some 1, processList := [1, 2] }, fun _ => iniKernRegs 0x1000,
    { (iniKernRegs 0x1000).loaded with cs := 0x23 }⟩

/-- It has a page fault, -/
def Tasks.faulted : Option SwitchResult :=
  irqGeneral .sample .first 1 (irqData 0 Tasks.two.cpu 14 4 (0, 0)) .two

def Tasks.afterFault : Tasks := (Tasks.faulted.bind SwitchResult.tasks).getD .two

/-- and dies when the clock selects it. -/
def Tasks.selected : Option SwitchResult :=
  irqClock .sample .first 2 (irqData 0 Tasks.afterFault.cpu 32 0 (0, 0)) .afterFault

def Tasks.afterSelection : Tasks := (Tasks.selected.bind SwitchResult.tasks).getD .two

theorem first_never_runs : ∃ ops, Run (taskStep .sample) .afterFault ops .afterSelection ∧
    HasMemory Tasks.afterFault.kernel 1 ∧ ¬ HasMemory Tasks.afterSelection.kernel 1 ∧
    (∀ before after, TaskOp.run (some 1) before after ∉ ops) ∧
    Condemned 1 Tasks.afterSelection.kernel ∧ Tasks.afterSelection.kernel.current ≠ some 1 ∧
    ∀ k, 1 ∈ Tasks.afterSelection.kernel.processList →
      sendSignal .sample 1 Tasks.afterSelection.kernel = some k → (k.proc 1).state = .ZOMBIE := by
  have hfault : taskStep .sample .two (.fault .first 1 0 14 4 (0, 0)) .afterFault :=
    SwitchResult.eq_runs (by decide +kernel) .two
  have hclock : taskStep .sample .afterFault (.clock .first 2 0 (0, 0)) .afterSelection :=
    SwitchResult.eq_runs (by decide +kernel) .two
  have hend : Ends .two 1 (.fault .first 1 0 14 4 (0, 0)) :=
    .fault _ _ _ _ _ _ (by decide +kernel) ⟨⟨14, 11, true⟩, by decide, .inl rfl⟩
  refine ⟨_, .single hclock, by decide +kernel, by decide +kernel, ?_⟩
  exact ended_never_runs hend hfault (.single hclock) fun op hop => by
    rw [List.mem_singleton.mp hop]
    exact id

end Moonlight
