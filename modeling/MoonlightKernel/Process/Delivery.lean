import MoonlightKernel.Lib.TwoEnded
import MoonlightKernel.Process.Pending

/-!
# The order in which signals are delivered

`add_signal` puts a hard signal at the front of the queue and a soft one at its back, and
`send_signal` takes the first: the queue is one with an urgent end (`MoonlightKernel.Lib.TwoEnded`).

* `watchStep` — the two functions on one process, with a log of what was queued and what was taken;
* `addSignal_sigQueue`, `sendSignal_sigQueue` — what they do to the queue;
* `watchStep_inv` — the queue keeps its two parts;
* `signal_queue_discipline` — what is delivered, and in which order.
-/

set_option autoImplicit false

namespace Moonlight

open Sys

/-- A hard entry. -/
def SigQueue.Hard (s : SigQueue) : Prop := s.state &&& SIG_HARD ≠ 0

instance : DecidablePred SigQueue.Hard := fun s => inferInstanceAs (Decidable (s.state &&& SIG_HARD ≠ 0))

/-- The signals of a process, as somebody sees them who watches its queue. -/
structure Watched where
  kernel : Kernel
  log : TwoEnded.Log SigQueue

/-- `add_signal` and `send_signal` on the process `p`.  A queue that has changed has accepted the
entry; a queue that is not empty gives its head to `send_signal`. -/
def watchStep (L : Layout) (p : Nat) (s : Watched) : SignalOp → Watched → Prop
  | .kill .., _ => False
  | .addSignal sig q type, t => q = some p ∧
      t.kernel = (addSignal sig (some p) type s.kernel).2 ∧
      t.log = if (t.kernel.proc p).signal.sigQueue = (s.kernel.proc p).signal.sigQueue then s.log
        else s.log.accept ⟨sig.toNat, type ||| SIG_NOT_EXECUTING⟩
  | .sendSignal q, t => q = p ∧ sendSignal L p s.kernel = some t.kernel ∧
      t.log = match (s.kernel.proc p).signal.sigQueue with
        | [] => s.log
        | a :: _ => s.log.consume a

/-- A step that the process survives. -/
def watchAlive (L : Layout) (p : Nat) (s : Watched) (op : SignalOp) (t : Watched) : Prop :=
  watchStep L p s op t ∧ (t.kernel.proc p).state ≠ .ZOMBIE

section steps

variable {L : Layout} {p type : Nat} {sig : Int} {k k' : Kernel}

/-- The bit of a hard entry is that of its type. -/
theorem hard_iff (sig type : Nat) :
    SigQueue.Hard ⟨sig, type ||| SIG_NOT_EXECUTING⟩ ↔ type &&& SIG_HARD ≠ 0 := by
  have hor : (type ||| SIG_NOT_EXECUTING) &&& SIG_HARD = type &&& SIG_HARD := by
    rw [Nat.and_or_distrib_right]
    exact Nat.or_zero _
  unfold SigQueue.Hard
  rw [hor]

theorem queueSignal_sigQueue (sig type : Nat) (pr : Process) :
    (pr.queueSignal sig type).signal.sigQueue =
      TwoEnded.put SigQueue.Hard ⟨sig, type ||| SIG_NOT_EXECUTING⟩ pr.signal.sigQueue := by
  unfold Process.queueSignal TwoEnded.put
  exact if_congr (hard_iff sig type).symm rfl rfl

/-- **`add_signal`** leaves the queue alone, or puts the entry in. -/
theorem addSignal_sigQueue (sig : Int) (p type : Nat) (k : Kernel) :
    ((addSignal sig (some p) type k).2.proc p).signal.sigQueue = (k.proc p).signal.sigQueue ∨
    ((addSignal sig (some p) type k).2.proc p).signal.sigQueue =
      TwoEnded.put SigQueue.Hard ⟨sig.toNat, type ||| SIG_NOT_EXECUTING⟩
        (k.proc p).signal.sigQueue := by
  rcases addSignal_spec sig (some p) type k with ⟨q, _, hq, rfl, h⟩ | h | h
  · cases hq
    rw [h, Kernel.modify_proc_self, queueSignal_sigQueue, Kernel.kmalloc_proc]
    exact .inr rfl
  · rw [h]
    exact .inl rfl
  · rw [h]
    exact .inl rfl

theorem addSignal_alive (sig : Int) (p type : Nat) (k : Kernel) :
    ((addSignal sig (some p) type k).2.proc p).state = (k.proc p).state :=
  (addSignal_same (v := Process.state) (fun _ _ _ => rfl) sig (some p) type k).proc p

/-- `add_signal` is a step that the process survives. -/
theorem watchAlive_add (L : Layout) (sig : Int) (type : Nat) {s : Watched}
    (halive : (s.kernel.proc p).state ≠ .ZOMBIE) :
    watchAlive L p s (.addSignal sig (some p) type)
      ⟨(addSignal sig (some p) type s.kernel).2,
        if ((addSignal sig (some p) type s.kernel).2.proc p).signal.sigQueue =
          (s.kernel.proc p).signal.sigQueue then s.log
        else s.log.accept ⟨sig.toNat, type ||| SIG_NOT_EXECUTING⟩⟩ := by
  refine ⟨⟨rfl, rfl, rfl⟩, ?_⟩
  rw [addSignal_alive]
  exact halive

/-- **`send_signal`**, when the process survives it, takes the head. -/
theorem sendSignal_sigQueue (halive : (k.proc p).state ≠ .ZOMBIE)
    (hwait : ∀ s ∈ (k.proc p).signal.sigQueue, s.state ≠ SIG_EXECUTING)
    (h : sendSignal L p k = some k') (halive' : (k'.proc p).state ≠ .ZOMBIE) :
    (k'.proc p).signal.sigQueue = (k.proc p).signal.sigQueue.tail := by
  cases hq : (k.proc p).signal.sigQueue with
  | nil =>
    unfold sendSignal at h
    rw [hq] at h
    rw [← Option.some.inj h, hq]
    rfl
  | cons s rest =>
    obtain ⟨a, -, rfl⟩ := sendSignal_live hq halive (hwait s (hq ▸ List.mem_cons_self)) h
    split at halive'
    · rename_i hz
      exact absurd hz halive'
    · rename_i hz
      have hfatal : ¬ a.Fatal := fun hf => hz (runHandler_dies L hf p s.sigHandled k)
      rw [if_neg hz, Kernel.modify_proc_self]
      show (((runHandler L a p s.sigHandled k).proc p).signal.sigQueue.tail) = rest
      rw [runHandler_signal L hfatal, hq]
      rfl

end steps

/-- What is kept along a run: the process is alive, its queue has the two parts, and no entry says
that its handler is running. -/
structure WatchInv (p : Nat) (s : Watched) : Prop where
  alive : (s.kernel.proc p).state ≠ .ZOMBIE
  parts : TwoEnded.Inv SigQueue.Hard (s.kernel.proc p).signal.sigQueue s.log
  waits : ∀ e ∈ (s.kernel.proc p).signal.sigQueue, e.state ≠ SIG_EXECUTING

/-- **Each step keeps the two parts of the queue.** -/
theorem watchStep_inv {L : Layout} {p : Nat} (s : Watched) (op : SignalOp) (t : Watched)
    (h : WatchInv p s) (hstep : watchAlive L p s op t) : WatchInv p t := by
  obtain ⟨hstep, halive⟩ := hstep
  cases op with
  | kill proc pid sig => exact absurd hstep id
  | addSignal sig q type =>
    obtain ⟨-, hk, hlog⟩ := hstep
    have hqueue := addSignal_sigQueue sig p type s.kernel
    rw [← hk] at hqueue
    refine ⟨halive, ?_, ?_⟩
    · by_cases hsame : (t.kernel.proc p).signal.sigQueue = (s.kernel.proc p).signal.sigQueue
      · rw [hlog, if_pos hsame, hsame]
        exact h.parts
      · rw [hlog, if_neg hsame, hqueue.resolve_left hsame]
        exact h.parts.put _
    · intro e he
      have hfills := addSignal_fills sig (some p) type s.kernel
      rw [← hk] at hfills
      exact (hfills.queue p e he).elim (h.waits e) id
  | sendSignal q =>
    obtain ⟨-, hsend, hlog⟩ := hstep
    have hqueue := sendSignal_sigQueue h.alive h.waits hsend halive
    cases hq : (s.kernel.proc p).signal.sigQueue with
    | nil =>
      rw [hq] at hlog hqueue
      refine ⟨halive, ?_, fun e he => ?_⟩
      · have hparts := h.parts
        rw [hq] at hparts
        rw [hlog, hqueue]
        exact hparts
      · rw [hqueue] at he
        cases he
    | cons a rest =>
      rw [hq] at hlog hqueue
      refine ⟨halive, ?_, fun e he => h.waits e ?_⟩
      · have hparts := h.parts
        rw [hq] at hparts
        rw [hlog, hqueue]
        exact hparts.take
      · rw [hqueue] at he
        rw [hq]
        exact List.mem_cons_of_mem a he

/-- **The queue discipline.**  In every run of `add_signal` and `send_signal` that the process
survives, what was delivered are entries that were accepted, none of them twice, hard ones first,
the newest of these first, soft ones in the order of their acceptance; and the next delivery takes
the head of the queue and nothing else. -/
theorem signal_queue_discipline (L : Layout) (p : Nat) (k : Kernel) (s : Watched)
    (ops : List SignalOp) (hlive : (k.proc p).state ≠ .ZOMBIE)
    (hnew : (k.proc p).signal.sigQueue = [])
    (hrun : Run (watchAlive L p) ⟨k, .empty⟩ ops s) :
    (∃ ids, ids.Nodup ∧ TwoEnded.Served SigQueue.Hard s.log.accepted s.log.consumed ids) ∧
      ∀ t, watchAlive L p s (.sendSignal p) t →
        (t.kernel.proc p).signal.sigQueue = (s.kernel.proc p).signal.sigQueue.tail := by
  have hstart : WatchInv p ⟨k, .empty⟩ := by
    refine ⟨hlive, ?_, fun e he => ?_⟩
    · rw [hnew]
      exact .empty _
    · rw [hnew] at he
      cases he
  have hinv := hrun.invariant (WatchInv p) watchStep_inv hstart
  obtain ⟨ids, hserved⟩ := hinv.parts.served
  refine ⟨⟨ids, hserved.nodup, hserved⟩, fun t ht => ?_⟩
  exact sendSignal_sigQueue hinv.alive hinv.waits ht.1.2.1 ht.2

/-- The process that was asked to stop by two signals has taken one. -/
def Kernel.stoppedOnce : Kernel := (sendSignal .sample 100 .askedToStop).getD .askedToStop

/-- A soft and a hard signal wait, and the hard one is taken. -/
theorem hard_signal_taken_first : ∃ ids, TwoEnded.Served SigQueue.Hard
    [⟨20, 9⟩, ⟨21, 10⟩] [(2, ⟨21, 10⟩)] ids := by
  have hrun : Run (watchAlive .sample 100) ⟨.newborn, .empty⟩
      [.addSignal 20 (some 100) SIG_SOFT, .addSignal 21 (some 100) SIG_HARD, .sendSignal 100]
      ⟨.stoppedOnce, ⟨[⟨20, 9⟩, ⟨21, 10⟩], [(2, ⟨21, 10⟩)]⟩⟩ := by
    refine .cons (t := ⟨(addSignal 20 (some 100) SIG_SOFT .newborn).2, ⟨[⟨20, 9⟩], []⟩⟩)
      ⟨⟨rfl, rfl, (if_neg (by decide +kernel)).symm⟩, by decide +kernel⟩ ?_
    refine .cons (t := ⟨.askedToStop, ⟨[⟨20, 9⟩, ⟨21, 10⟩], []⟩⟩)
      ⟨⟨rfl, rfl, (if_neg (by decide +kernel)).symm⟩, by decide +kernel⟩ ?_
    have hdefined : (sendSignal .sample 100 .askedToStop).isSome := by decide +kernel
    have hsend : sendSignal .sample 100 .askedToStop = some .stoppedOnce :=
      (Option.eq_some_of_isSome hdefined).trans (congrArg some (Option.get_eq_getD _))
    exact .single ⟨⟨rfl, hsend, rfl⟩, by decide +kernel⟩
  obtain ⟨ids, -, hserved⟩ := (signal_queue_discipline .sample 100 .newborn _ _ (by decide +kernel)
    (by decide +kernel) hrun).1
  exact ⟨ids, hserved⟩

end Moonlight
