import MoonlightKernel.Process.Life
import MoonlightKernel.Process.Frame
import MoonlightKernel.Lib.Run

/-!
# Job control by the default actions

Signals are queued by `kill` and `add_signal` and delivered one by one by `send_signal`, which
looks the number of the signal up in the table `sig_handler`.  The table is written in the order
of the names of `inc/signal.h`, and its first row belongs to no number.  Two of the names above
it are aliases (`SIGIOT`, `SIGCLD`), so a row stands at its number only between the two.

* `kill` — `kill`;
* `Fills`, `signalStep_fills` — a step keeps the dispositions, and queues entries of
  `add_signal` only;
* `runHandler_dies`, `delivery_state` — the state that a delivery leaves behind;
* `default_actions_iff` — which deliveries of a run do what the name of the signal promises.
-/

set_option autoImplicit false

namespace Moonlight

open Sys

/-! ## `kill` -/

def SIGCONT : Nat := 18
def SIGSTOP : Nat := 19
def SIGTSTP : Nat := 20
def SIGTTIN : Nat := 21
def SIGTTOU : Nat := 22
def SIGURG : Nat := 23
def SIGWINCH : Nat := 28

/-- The body of the loop of `kill`, with the error so far. -/
def killOne (proc : Nat) (pid sig : Int) (r : Int × Kernel) (p : Nat) : Int × Kernel :=
  if (r.2.proc p).state ≠ .ZOMBIE ∧ ((r.2.proc p).pid = pid ∨ pid = -1) then
    if (r.2.proc proc).uid = 0 ∨ (r.2.proc proc).uid = (r.2.proc p).uid then
      addSignal sig (some p) SIG_SOFT r.2
    else if r.1 = -ESRCH then (-EPERM, r.2) else r
  else r

/-- `kill`. -/
def kill (proc : Nat) (pid sig : Int) (k : Kernel) : Int × Kernel :=
  if pid = 0 ∨ pid < -1 then (-EINVAL, k)
  else k.processList.foldl (killOne proc pid sig) (-ESRCH, k)

/-- What happens to the signals of the processes. -/
inductive SignalOp
  | kill (proc : Nat) (pid sig : Int)
  | addSignal (sig : Int) (proc : Option Nat) (type : Nat)
  | sendSignal (p : Nat)

/-- One step. -/
def signalStep (L : Layout) (k : Kernel) : SignalOp → Kernel → Prop
  | .kill proc pid sig, k' => k' = (kill proc pid sig k).2
  | .addSignal sig proc type, k' => k' = (addSignal sig proc type k).2
  | .sendSignal p, k' => sendSignal L p k = some k'

/-! ## What a step may do to the signals of a process -/

/-- The handlers are kept, and a new entry of a queue is one that waits to be delivered. -/
structure Fills (k k' : Kernel) : Prop where
  handler : ∀ q, (k'.proc q).signal.sigHandler = (k.proc q).signal.sigHandler
  queue : ∀ q, ∀ s ∈ (k'.proc q).signal.sigQueue,
    s ∈ (k.proc q).signal.sigQueue ∨ s.state ≠ SIG_EXECUTING

namespace Fills

variable {k k₁ k₂ : Kernel}

theorem refl (k : Kernel) : Fills k k := ⟨fun _ => rfl, fun _ _ hs => .inl hs⟩

theorem trans (h₁ : Fills k k₁) (h₂ : Fills k₁ k₂) : Fills k k₂ := by
  refine ⟨fun q => (h₂.handler q).trans (h₁.handler q), fun q s hs => ?_⟩
  rcases h₂.queue q s hs with hs | hs
  · exact h₁.queue q s hs
  · exact .inr hs

theorem of_eq (h : ∀ q, (k₁.proc q).signal = (k.proc q).signal) : Fills k k₁ := by
  refine ⟨fun q => by rw [h q], fun q s hs => ?_⟩
  rw [h q] at hs
  exact .inl hs

/-- A store that drops entries of the queue, if any, and touches no handler. -/
theorem modify (k : Kernel) (p : Nat) {f : Process → Process}
    (hh : ∀ pr, (f pr).signal.sigHandler = pr.signal.sigHandler)
    (hq : ∀ pr, ∀ s ∈ (f pr).signal.sigQueue, s ∈ pr.signal.sigQueue) :
    Fills k (k.modify p f) := by
  refine ⟨fun q => ?_, fun q s hs => .inl ?_⟩
  · rw [Kernel.modify_proc]
    split
    · rename_i he
      rw [hh, he]
    · rfl
  · rw [Kernel.modify_proc] at hs
    split at hs
    · rename_i he
      rw [he]
      exact hq _ s hs
    · exact hs

end Fills

/-- `type | SIG_NOT_EXECUTING` is not `SIG_EXECUTING`. -/
theorem queued_not_executing (type : Nat) : type ||| SIG_NOT_EXECUTING ≠ SIG_EXECUTING := by
  intro h
  have hbit := congrArg (fun n => n.testBit 3) h
  have h8 : Nat.testBit 8 3 = true := by decide
  have h4 : Nat.testBit 4 3 = false := by decide
  simp [SIG_NOT_EXECUTING, SIG_EXECUTING, Nat.testBit_or, h8, h4] at hbit

theorem addSignal_fills (sig : Int) (proc : Option Nat) (type : Nat) (k : Kernel) :
    Fills k (addSignal sig proc type k).2 := by
  rcases addSignal_spec sig proc type k with ⟨p, k', -, rfl, h⟩ | h | h
  · rw [h]
    refine ⟨fun q => ?_, fun q s hs => ?_⟩
    · rw [Kernel.modify_proc]
      split
      · rename_i he
        rw [he]
        rfl
      · rfl
    · rw [Kernel.modify_proc] at hs
      split at hs
      · rename_i he
        simp only [Process.queueSignal] at hs
        split at hs
        · rcases List.mem_cons.mp hs with rfl | hs
          · exact .inr (queued_not_executing type)
          · exact .inl (he ▸ hs)
        · rcases List.mem_append.mp hs with hs | hs
          · exact .inl (he ▸ hs)
          · rw [List.mem_singleton.mp hs]
            exact .inr (queued_not_executing type)
      · exact .inl hs
  · rw [h]
    exact Fills.refl k
  · rw [h]
    exact Fills.of_eq fun _ => rfl

theorem killOne_fills (proc : Nat) (pid sig : Int) (r : Int × Kernel) (p : Nat) :
    Fills r.2 (killOne proc pid sig r p).2 := by
  unfold killOne
  split
  · split
    · exact addSignal_fills _ _ _ _
    · split
      · exact Fills.refl _
      · exact Fills.refl _
  · exact Fills.refl _

theorem kills_fills (proc : Nat) (pid sig : Int) (ps : List Nat) (r : Int × Kernel) :
    Fills r.2 (ps.foldl (killOne proc pid sig) r).2 := by
  induction ps generalizing r with
  | nil => exact Fills.refl _
  | cons p ps ih => exact (killOne_fills proc pid sig r p).trans (ih _)

theorem kill_fills (proc : Nat) (pid sig : Int) (k : Kernel) :
    Fills k (kill proc pid sig k).2 := by
  unfold kill
  split
  · exact Fills.refl k
  · exact kills_fills proc pid sig _ (-ESRCH, k)

theorem freeProcess_fills (p : Nat) (k : Kernel) : Fills k (freeProcess p k) :=
  Fills.of_eq (freeProcess_same (v := fun pr => pr.signal) (fun _ _ => rfl) p k).proc

theorem notifyFather_fills (p : Nat) (k : Kernel) : Fills k (notifyFather p k) := by
  have hz (k : Kernel) : Fills k (k.modify p (Process.setState .ZOMBIE)) :=
    Fills.modify k p (fun _ => rfl) (fun _ _ hs => hs)
  unfold notifyFather
  split
  · dsimp only
    split
    · exact ((addSignal_fills _ _ _ k).trans (hz _)).trans (freeProcess_fills p _)
    · exact (addSignal_fills _ _ _ k).trans (hz _)
  · exact (hz k).trans (freeProcess_fills p _)

theorem processDie_fills (L : Layout) (p : Nat) (k : Kernel) : Fills k (processDie L p k) := by
  have hmem : Fills k (processFreeAllMemory L p k) :=
    Fills.of_eq (processFreeAllMemory_same (v := fun pr => pr.signal) (fun _ => rfl) L p k).proc
  have hclear : Fills (processFreeAllMemory L p k)
      ((processFreeAllMemory L p k).modify p Process.clearQueue) :=
    Fills.modify _ p (fun _ => rfl) (fun _ _ hs => absurd hs List.not_mem_nil)
  have hdead := (hmem.trans hclear).trans (notifyFather_fills p _)
  unfold processDie processDieSafe
  dsimp only
  split
  · exact ⟨hdead.handler, hdead.queue⟩
  · exact hdead

theorem childEnded_fills (p : Nat) (k : Kernel) : Fills k (childEnded p k) := by
  unfold childEnded
  split
  · rename_i c hc
    have hreply : Fills k
        (k.modify p (Process.setReply (k.proc c).pid (k.proc c).endValue)) :=
      Fills.modify k p (fun _ => rfl) (fun _ _ hs => hs)
    exact (hreply.trans (freeProcess_fills c _)).trans
      (Fills.modify _ p (fun _ => rfl) (fun _ _ hs => hs))
  · exact Fills.refl k

theorem runHandler_fills (L : Layout) (h : Shandler) (p signum : Nat) (k : Kernel) :
    Fills k (runHandler L h p signum k) := by
  have hval (v : Int) : Fills k (k.modify p (Process.setEndValue v)) :=
    Fills.modify k p (fun _ => rfl) (fun _ _ hs => hs)
  cases h with
  | sigTerm => exact (hval _).trans (processDie_fills L p _)
  | sigCore => exact (hval _).trans (processDie_fills L p _)
  | sigIgn => exact Fills.refl k
  | sigStop => exact (hval _).trans (Fills.modify _ p (fun _ => rfl) (fun _ _ hs => hs))
  | sigCont => exact (hval _).trans (Fills.modify _ p (fun _ => rfl) (fun _ _ hs => hs))
  | childEnded => exact childEnded_fills p k
  | user addr => exact Fills.refl k

/-- `send_signal` as one equation: the entry it finds, the handler it calls and the clean-up. -/
theorem sendSignal_live {L : Layout} {p : Nat} {k k' : Kernel} {s : SigQueue} {rest : List SigQueue}
    (hq : (k.proc p).signal.sigQueue = s :: rest) (hlive : (k.proc p).state ≠ .ZOMBIE)
    (hs : s.state ≠ SIG_EXECUTING) (h : sendSignal L p k = some k') :
    ∃ a, handlerFor (k.proc p) s = some a ∧
      k' = if ((runHandler L a p s.sigHandled k).proc p).state = .ZOMBIE
        then runHandler L a p s.sigHandled k
        else (runHandler L a p s.sigHandled k).modify p
          fun pr => (pr.unblock s.sigHandled).popSignal := by
  unfold sendSignal at h
  rw [hq] at h
  dsimp only at h
  rw [if_neg hlive, if_neg hs, Option.map_eq_some_iff] at h
  obtain ⟨a, ha, hk⟩ := h
  exact ⟨a, ha, hk.symm⟩

theorem sendSignal_fills {L : Layout} {p : Nat} {k k' : Kernel} (h : sendSignal L p k = some k') :
    Fills k k' := by
  have hpop (k : Kernel) (f : Process → Process)
      (hf : ∀ pr, (f pr).signal.sigHandler = pr.signal.sigHandler)
      (hfq : ∀ pr, (f pr).signal.sigQueue = pr.signal.sigQueue.tail) : Fills k (k.modify p f) := by
    refine Fills.modify k p hf fun pr s hs => ?_
    rw [hfq pr] at hs
    exact List.mem_of_mem_tail hs
  cases hq : (k.proc p).signal.sigQueue with
  | nil =>
    simp only [sendSignal, hq, Option.some.injEq] at h
    rw [← h]
    exact Fills.refl k
  | cons s rest =>
    by_cases hz : (k.proc p).state = .ZOMBIE
    · simp only [sendSignal, hq, hz, if_true, Option.some.injEq] at h
      rw [← h]
      exact hpop k _ (fun _ => rfl) (fun _ => rfl)
    by_cases hs : s.state = SIG_EXECUTING
    · simp only [sendSignal, hq, hz, hs, if_true, if_false, Option.some.injEq] at h
      rw [← h]
      exact Fills.refl k
    · obtain ⟨a, -, rfl⟩ := sendSignal_live hq hz hs h
      have hrun := runHandler_fills L a p s.sigHandled k
      split
      · exact hrun
      · exact hrun.trans (hpop _ _ (fun _ => rfl) (fun _ => rfl))

theorem signalStep_fills {L : Layout} {k k' : Kernel} {op : SignalOp} (h : signalStep L k op k') :
    Fills k k' := by
  cases op with
  | kill proc pid sig =>
    cases h
    exact kill_fills proc pid sig k
  | addSignal sig proc type =>
    cases h
    exact addSignal_fills sig proc type k
  | sendSignal p => exact sendSignal_fills h

/-- The handlers are those of the table, and every entry of the queue waits to be delivered. -/
structure DefaultSignals (pr : Process) : Prop where
  handler : ∀ s h, pr.signal.sigHandler s = some h → sigHandler[s]? = some h
  queue : ∀ s ∈ pr.signal.sigQueue, s.state ≠ SIG_EXECUTING

theorem DefaultSignals.fills {p : Nat} {k k' : Kernel} (hd : DefaultSignals (k.proc p))
    (h : Fills k k') : DefaultSignals (k'.proc p) := by
  refine ⟨fun s a ha => ?_, fun s hs => ?_⟩
  · rw [h.handler p] at ha
    exact hd.handler s a ha
  · rcases h.queue p s hs with hs | hs
    · exact hd.queue s hs
    · exact hs

/-- With default dispositions the table decides, for hard and for soft entries. -/
theorem DefaultSignals.handlerFor {pr : Process} (hd : DefaultSignals pr) (s : SigQueue) :
    handlerFor pr s = sigHandler[s.sigHandled]? := by
  unfold Moonlight.handlerFor
  split
  · rfl
  · split
    · rfl
    · rename_i a ha
      exact (hd.handler _ a ha).symm

/-! ## The state after a delivery -/

theorem freeProcess_state (p q : Nat) (k : Kernel) :
    ((freeProcess p k).proc q).state = (k.proc q).state :=
  (freeProcess_same (v := Process.state) (fun _ _ => rfl) p k).proc q

/-- `process_die` leaves a zombie. -/
theorem processDie_state (L : Layout) (p : Nat) (k : Kernel) :
    ((processDie L p k).proc p).state = .ZOMBIE := by
  have hdead (k : Kernel) : ((notifyFather p k).proc p).state = .ZOMBIE := by
    unfold notifyFather
    split
    · dsimp only
      split
      · rw [freeProcess_state, Kernel.modify_proc_self]
        rfl
      · rw [Kernel.modify_proc_self]
        rfl
    · rw [freeProcess_state, Kernel.modify_proc_self]
      rfl
  unfold processDie processDieSafe
  dsimp only
  split
  · exact hdead _
  · exact hdead _

/-- A fatal default action. -/
def Shandler.Fatal (a : Shandler) : Prop := a = .sigTerm ∨ a = .sigCore

theorem runHandler_dies (L : Layout) {a : Shandler} (ha : a.Fatal) (p signum : Nat) (k : Kernel) :
    ((runHandler L a p signum k).proc p).state = .ZOMBIE := by
  rcases ha with rfl | rfl
  · exact processDie_state L p _
  · exact processDie_state L p _

/-- The state after a delivery is the one that the row of the table leaves. -/
theorem delivery_state {L : Layout} {p : Nat} {k k' : Kernel} {s : SigQueue} {rest : List SigQueue}
    (hd : DefaultSignals (k.proc p)) (hlive : (k.proc p).state ≠ .ZOMBIE)
    (hq : (k.proc p).signal.sigQueue = s :: rest) (h : sendSignal L p k = some k') :
    ∃ a, sigHandler[s.sigHandled]? = some a ∧
      (k'.proc p).state = ((runHandler L a p s.sigHandled k).proc p).state := by
  have hs := hd.queue s (hq ▸ List.mem_cons_self)
  obtain ⟨a, ha, rfl⟩ := sendSignal_live hq hlive hs h
  rw [hd.handlerFor] at ha
  refine ⟨a, ha, ?_⟩
  split
  · rfl
  · rw [Kernel.modify_proc_self]
    rfl

/-! ## The default actions by name -/

/-- What job control asks of the delivery of `sig`. -/
structure DefaultAction (sig : Nat) (before after : ProcState) : Prop where
  stop : sig ∈ [SIGSTOP, SIGTSTP, SIGTTIN, SIGTTOU] → after = .STOPPED
  cont : sig = SIGCONT → after = .RUN
  ignore : sig ∈ [SIGURG, SIGWINCH] → after = before
  kill : sig = SIGKILL → after = .ZOMBIE

/-- The row of the table at the number of the signal belongs to it, or happens to do the same.
`SIGCONT` is ignored, `SIGSTOP` continues, `SIGURG` stops and `SIGWINCH` terminates. -/
def RowServes (sig : Nat) (before : ProcState) : Prop :=
  sig ∉ [SIGCONT, SIGSTOP, SIGURG, SIGWINCH] ∨ (sig = SIGCONT ∧ before = .RUN) ∨
    (sig = SIGURG ∧ before = .STOPPED)

instance (sig : Nat) (before : ProcState) : Decidable (RowServes sig before) :=
  inferInstanceAs (Decidable (_ ∨ _))

/-- The rows at the numbers of job control. -/
theorem defaultAction_iff {L : Layout} {p sig : Nat} {k : Kernel} {a : Shandler}
    (hlive : (k.proc p).state ≠ .ZOMBIE) (ha : sigHandler[sig]? = some a) :
    DefaultAction sig (k.proc p).state ((runHandler L a p sig k).proc p).state ↔
      RowServes sig (k.proc p).state := by
  have hrow (n : Nat) (hn : sig = n) : sigHandler[n]? = some a := hn ▸ ha
  have hstop : a = .sigStop → ((runHandler L a p sig k).proc p).state = .STOPPED := by
    rintro rfl
    simp [runHandler, Process.setState]
  constructor
  · intro h
    unfold RowServes
    by_contra hno
    rw [not_or, not_not, not_or, not_and, not_and] at hno
    obtain ⟨hmem, hcont, hurg⟩ := hno
    simp only [List.mem_cons, List.not_mem_nil, or_false] at hmem
    rcases hmem with rfl | rfl | rfl | rfl
    · have := Option.some.inj (hrow SIGCONT rfl)
      subst this
      exact hcont rfl (h.cont rfl)
    · have := Option.some.inj (hrow SIGSTOP rfl)
      subst this
      have := h.stop (by decide)
      simp [runHandler, Process.setState] at this
    · have := Option.some.inj (hrow SIGURG rfl)
      exact hurg rfl ((h.ignore (by decide)).symm.trans (hstop this.symm))
    · have := Option.some.inj (hrow SIGWINCH rfl)
      have hdead := runHandler_dies L (.inl this.symm) p SIGWINCH k
      exact hlive ((h.ignore (by decide)).symm.trans hdead)
  · intro h
    refine ⟨fun hs => ?_, fun hs => ?_, fun hs => ?_, fun hs => ?_⟩
    · simp only [List.mem_cons, List.not_mem_nil, or_false] at hs
      rcases hs with rfl | rfl | rfl | rfl
      · rcases h with h | ⟨h, -⟩ | ⟨h, -⟩
        · exact absurd (by decide) h
        · exact absurd h (by decide)
        · exact absurd h (by decide)
      · exact hstop (Option.some.inj (hrow SIGTSTP rfl)).symm
      · exact hstop (Option.some.inj (hrow SIGTTIN rfl)).symm
      · exact hstop (Option.some.inj (hrow SIGTTOU rfl)).symm
    · subst hs
      have := Option.some.inj (hrow SIGCONT rfl)
      subst this
      rcases h with h | ⟨-, h⟩ | ⟨h, -⟩
      · exact absurd (by decide) h
      · exact h
      · exact absurd h (by decide)
    · simp only [List.mem_cons, List.not_mem_nil, or_false] at hs
      rcases hs with rfl | rfl
      · have := Option.some.inj (hrow SIGURG rfl)
        rcases h with h | ⟨h, -⟩ | ⟨-, h⟩
        · exact absurd (by decide) h
        · exact absurd h (by decide)
        · exact (hstop this.symm).trans h.symm
      · rcases h with h | ⟨h, -⟩ | ⟨h, -⟩
        · exact absurd (by decide) h
        · exact absurd h (by decide)
        · exact absurd h (by decide)
    · subst hs
      have := Option.some.inj (hrow SIGKILL rfl)
      exact runHandler_dies L (.inl this.symm) p SIGKILL k

/-- **A delivery does what job control asks exactly when the row at its number serves**, in every
state that signals have brought a process with default dispositions to. -/
theorem default_actions_iff (L : Layout) (p : Nat) (k₀ k k' : Kernel) (ops : List SignalOp)
    (hd : DefaultSignals (k₀.proc p)) (hrun : Run (signalStep L) k₀ ops k)
    (hlive : (k.proc p).state ≠ .ZOMBIE) (s : SigQueue) (rest : List SigQueue)
    (hq : (k.proc p).signal.sigQueue = s :: rest) (h : sendSignal L p k = some k') :
    DefaultAction s.sigHandled (k.proc p).state (k'.proc p).state ↔
      RowServes s.sigHandled (k.proc p).state := by
  have hk : DefaultSignals (k.proc p) :=
    hrun.invariant (fun k => DefaultSignals (k.proc p)) (fun _ _ _ hs hstep =>
      hs.fills (signalStep_fills hstep)) hd
  obtain ⟨a, ha, hstate⟩ := delivery_state hk hlive hq h
  rw [hstate]
  exact defaultAction_iff hlive ha

/-- One process, at 1, without memory. -/
def Kernel.solo : Kernel where
  machine := ⟨fun _ => 0xFF, fun d => if d = 768 then 0x110001 else 0, fun _ _ => 0⟩
  kmallocs := fun i => some (100 + i)
  current := none
  processList := [1]
  proc := fun _ => { Process.zero with pid := 1 }
  lastPid := 2

/-- The process after it has sent itself a signal. -/
def Kernel.soloWith (sig : Int) : Kernel := (kill 1 1 sig .solo).2

theorem solo_default : DefaultSignals (Kernel.solo.proc 1) := by
  constructor
  · intro s a h
    cases h
  · intro s hs
    cases hs

/-- `SIGTSTP` stops it. -/
theorem sigtstp_stops : DefaultAction SIGTSTP .RUN .STOPPED :=
  (default_actions_iff .sample 1 .solo (.soloWith 20) _ [.kill 1 1 20] solo_default
    (.single rfl) (by decide) ⟨SIGTSTP, 9⟩ [] rfl rfl).mpr (by decide)

/-- `SIGSTOP` does not: the row at 19 is the one written for `SIGCONT`. -/
theorem sigstop_continues :
    ∃ k k', DefaultSignals (Kernel.solo.proc 1) ∧
      Run (signalStep .sample) .solo [.kill 1 1 SIGSTOP] k ∧
      (k.proc 1).signal.sigQueue = [⟨SIGSTOP, 9⟩] ∧ sendSignal .sample 1 k = some k' ∧
      (k'.proc 1).state = .RUN ∧
      ¬ DefaultAction SIGSTOP (k.proc 1).state (k'.proc 1).state := by
  refine ⟨.soloWith 19, _, solo_default, .single rfl, rfl, rfl, rfl, fun h => ?_⟩
  have hstate := h.stop (by decide)
  cases hstate

end Moonlight
