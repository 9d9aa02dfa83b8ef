import MoonlightKernel.Process.JobControl
import Mathlib.Data.List.Count

/-!
# The signal mask and the signal queue

`add_signal` drops a soft signal whose bit in `sig_avalaible` is set.  The bits are set when an
entry is queued and cleared when one is delivered, through the table `blocked_sig`, so they
should tell which signals are queued.  Two things break the correspondence: the table gives
`SIGUSR2` the bit of `SIGHUP`, and a hard and a soft entry of one signal share the bit that the
delivery of either clears.

* `SIG_UNAVAILABLE_or`, `SIG_UNAVAILABLE_clear` — the mask, bit by bit;
* `MaskMirrors` — the correspondence, as far as it holds;
* `MaskMirrors.add`, `MaskMirrors.send`, `queueStep_mirrors` — the steps that keep it;
* `signals_accepted_iff` — what becomes of a soft signal, in every run of such steps.
-/

set_option autoImplicit false

namespace Moonlight

open Sys

def SIGHUP : Nat := 1
def SIGUSR2 : Nat := 12

/-! ## The bits of the mask -/

/-- The bits that the table `blocked_sig` gives to a signal. -/
def Marks (sig t : Nat) : Prop :=
  (t = sig ∧ sig ∉ [SIGKILL, SIGUSR2, SIGSTOP]) ∨ (sig = SIGUSR2 ∧ t = SIGHUP)

instance (sig t : Nat) : Decidable (Marks sig t) := inferInstanceAs (Decidable (_ ∨ _))

/-- The numbers of the signals. -/
def IsSignal (sig : Nat) : Prop := 1 ≤ sig ∧ sig ≤ 31

instance (sig : Nat) : Decidable (IsSignal sig) := inferInstanceAs (Decidable (_ ∧ _))

theorem blockedMask_testBit {sig t : Nat} (hs : IsSignal sig) (ht : IsSignal t) :
    (blockedMask sig).testBit (t - 1) = decide (Marks sig t) := by
  have h : ∀ s < 32, ∀ t < 32, 1 ≤ s → 1 ≤ t →
      (blockedMask s).testBit (t - 1) = decide (Marks s t) := by decide +kernel
  exact h sig (Nat.lt_succ_of_le hs.2) t (Nat.lt_succ_of_le ht.2) hs.1 ht.1

theorem and_two_pow_ne_zero {mask i : Nat} : mask &&& 2 ^ i ≠ 0 ↔ mask.testBit i = true := by
  constructor
  · intro h
    obtain ⟨j, hj⟩ := Nat.exists_testBit_of_ne_zero h
    rw [Nat.testBit_and, Nat.testBit_two_pow, Bool.and_eq_true, decide_eq_true_iff] at hj
    rw [hj.2]
    exact hj.1
  · intro h h0
    have hbit := congrArg (fun n => n.testBit i) h0
    simp [h] at hbit

theorem SIG_UNAVAILABLE_eq {mask t : Nat} (ht : IsSignal t) :
    SIG_UNAVAILABLE mask t = mask.testBit (t - 1) := by
  unfold SIG_UNAVAILABLE
  rw [Nat.mod_eq_of_lt (by unfold IsSignal at ht; omega), Nat.one_shiftLeft, Bool.eq_iff_iff,
    decide_eq_true_iff]
  exact and_two_pow_ne_zero

theorem unavailable_or (a b t : Nat) :
    SIG_UNAVAILABLE (a ||| b) t = true ↔
      SIG_UNAVAILABLE a t = true ∨ SIG_UNAVAILABLE b t = true := by
  unfold SIG_UNAVAILABLE
  simp only [Nat.one_shiftLeft, decide_eq_true_eq]
  rw [and_two_pow_ne_zero, and_two_pow_ne_zero, and_two_pow_ne_zero, Nat.testBit_or, Bool.or_eq_true]

theorem SIG_UNAVAILABLE_or {mask sig t : Nat} (hs : IsSignal sig) (ht : IsSignal t) :
    SIG_UNAVAILABLE (mask ||| blockedMask sig) t = true ↔
      SIG_UNAVAILABLE mask t = true ∨ Marks sig t := by
  rw [unavailable_or, SIG_UNAVAILABLE_eq ht, SIG_UNAVAILABLE_eq ht, blockedMask_testBit hs ht]
  simp

theorem SIG_UNAVAILABLE_clear {mask sig t : Nat} (hs : IsSignal sig) (ht : IsSignal t) :
    SIG_UNAVAILABLE (mask &&& (0xFFFFFFFF ^^^ blockedMask sig)) t = true ↔
      SIG_UNAVAILABLE mask t = true ∧ ¬ Marks sig t := by
  have hones : Nat.testBit 0xFFFFFFFF (t - 1) = true := by
    have h : t - 1 < 32 := by unfold IsSignal at ht; omega
    exact (Nat.testBit_two_pow_sub_one 32 (t - 1)).trans (decide_eq_true h)
  rw [SIG_UNAVAILABLE_eq ht, SIG_UNAVAILABLE_eq ht, Nat.testBit_and, Nat.testBit_xor, hones,
    blockedMask_testBit hs ht]
  simp

/-! ## The queue -/

/-- A soft entry of the signal. -/
def SigQueue.isSoft (sig : Nat) (s : SigQueue) : Bool :=
  decide (s.sigHandled = sig ∧ s.state &&& SIG_SOFT ≠ 0)

/-- How many soft entries of the signal wait. -/
def Process.softCount (pr : Process) (sig : Nat) : Nat :=
  pr.signal.sigQueue.countP (SigQueue.isSoft sig)

/-- The signal waits in the queue. -/
def Process.Pending (pr : Process) (sig : Nat) : Prop :=
  ∃ s ∈ pr.signal.sigQueue, s.sigHandled = sig

instance (pr : Process) (sig : Nat) : Decidable (pr.Pending sig) :=
  inferInstanceAs (Decidable (∃ s ∈ pr.signal.sigQueue, s.sigHandled = sig))

theorem queueSignal_pending {sig type t : Nat} {pr : Process} :
    (pr.queueSignal sig type).Pending t ↔ t = sig ∨ pr.Pending t := by
  unfold Process.Pending Process.queueSignal
  dsimp only
  split
  · simp [eq_comm]
  · simp [or_and_right, exists_or, eq_comm, or_comm]

theorem queueSignal_softCount {sig type t : Nat} {pr : Process} :
    (pr.queueSignal sig type).softCount t = pr.softCount t +
      if SigQueue.isSoft t ⟨sig, type ||| SIG_NOT_EXECUTING⟩ then 1 else 0 := by
  unfold Process.softCount Process.queueSignal
  dsimp only
  split
  · rw [List.countP_cons]
  · rw [List.countP_append, List.countP_singleton]

/-! ## The correspondence -/

/-- The mask and the queue of a process that `signal` has not touched. -/
structure MaskMirrors (pr : Process) : Prop where
  handler : ∀ s, pr.signal.sigHandler s = none
  entry : ∀ s ∈ pr.signal.sigQueue, IsSignal s.sigHandled ∧
    (s.state = SIG_SOFT ||| SIG_NOT_EXECUTING ∨ s.state = SIG_HARD ||| SIG_NOT_EXECUTING)
  bit : ∀ sig, IsSignal sig → SIG_UNAVAILABLE pr.signal.sigAvalaible sig = true →
    sig ∉ [SIGKILL, SIGUSR2, SIGSTOP] ∧ (pr.Pending sig ∨ sig = SIGHUP ∧ pr.Pending SIGUSR2)
  soft : ∀ sig, IsSignal sig → sig ∉ [SIGKILL, SIGUSR2, SIGSTOP] → 0 < pr.softCount sig →
    SIG_UNAVAILABLE pr.signal.sigAvalaible sig = true
  usr2 : pr.Pending SIGUSR2 → SIG_UNAVAILABLE pr.signal.sigAvalaible SIGHUP = true
  once : ∀ sig, sig ∉ [SIGKILL, SIGSTOP] → pr.softCount sig ≤ 1

theorem MaskMirrors.default {pr : Process} (h : MaskMirrors pr) : DefaultSignals pr := by
  refine ⟨fun s a ha => ?_, fun s hs => ?_⟩
  · rw [h.handler s] at ha
    cases ha
  · rcases (h.entry s hs).2 with he | he
    · rw [he]
      exact queued_not_executing SIG_SOFT
    · rw [he]
      exact queued_not_executing SIG_HARD

theorem MaskMirrors.zero : MaskMirrors Process.zero where
  handler := fun _ => rfl
  entry := fun _ hs => absurd hs List.not_mem_nil
  bit := fun sig hsig h => by
    rw [SIG_UNAVAILABLE_eq hsig] at h
    simp [Process.zero] at h
  soft := fun _ _ _ h => absurd h (Nat.lt_irrefl 0)
  usr2 := fun h => by
    obtain ⟨s, hs, -⟩ := h
    exact absurd hs List.not_mem_nil
  once := fun _ _ => Nat.zero_le 1

/-- An entry is queued: a hard one, or a soft one whose bit is clear.  Two soft `SIGUSR2` are
kept apart by hand, since no bit tells that one waits. -/
theorem MaskMirrors.add {pr : Process} {sig type : Nat} (h : MaskMirrors pr) (hsig : IsSignal sig)
    (htype : type = SIG_SOFT ∨ type = SIG_HARD)
    (hclear : type = SIG_SOFT → SIG_UNAVAILABLE pr.signal.sigAvalaible sig = false)
    (husr2 : sig = SIGUSR2 → type = SIG_SOFT → pr.softCount SIGUSR2 = 0) :
    MaskMirrors (pr.queueSignal sig type) where
  handler := h.handler
  entry := by
    intro s hs
    have hnew : IsSignal sig ∧ (type ||| SIG_NOT_EXECUTING = SIG_SOFT ||| SIG_NOT_EXECUTING ∨
        type ||| SIG_NOT_EXECUTING = SIG_HARD ||| SIG_NOT_EXECUTING) :=
      ⟨hsig, htype.imp (fun ht => by rw [ht]) (fun ht => by rw [ht])⟩
    unfold Process.queueSignal at hs
    dsimp only at hs
    split at hs
    · rcases List.mem_cons.mp hs with rfl | hs
      · exact hnew
      · exact h.entry s hs
    · rcases List.mem_append.mp hs with hs | hs
      · exact h.entry s hs
      · rw [List.mem_singleton.mp hs]
        exact hnew
  bit := by
    intro t ht hbit
    rw [queueSignal_pending, queueSignal_pending]
    rcases (SIG_UNAVAILABLE_or hsig ht).mp hbit with hbit | ⟨rfl, hmark⟩ | ⟨rfl, rfl⟩
    · obtain ⟨hno, hp | ⟨hhup, hp⟩⟩ := h.bit t ht hbit
      · exact ⟨hno, .inl (.inr hp)⟩
      · exact ⟨hno, .inr ⟨hhup, .inr hp⟩⟩
    · exact ⟨hmark, .inl (.inl rfl)⟩
    · exact ⟨by decide, .inr ⟨rfl, .inl rfl⟩⟩
  soft := by
    intro t ht hno hcount
    refine (SIG_UNAVAILABLE_or hsig ht).mpr ?_
    by_cases hts : t = sig
    · subst hts
      exact .inr (.inl ⟨rfl, hno⟩)
    · rw [queueSignal_softCount, if_neg (by simp [SigQueue.isSoft, Ne.symm hts])] at hcount
      exact .inl (h.soft t ht hno hcount)
  usr2 := by
    intro hp
    refine (SIG_UNAVAILABLE_or hsig (by decide)).mpr ?_
    rcases queueSignal_pending.mp hp with hs | hp
    · exact .inr (.inr ⟨hs.symm, rfl⟩)
    · exact .inl (h.usr2 hp)
  once := by
    intro t hno
    rw [queueSignal_softCount]
    split
    · rename_i hsoft
      obtain ⟨hts, hst⟩ := of_decide_eq_true hsoft
      dsimp only at hts hst
      have htsoft : type = SIG_SOFT := by
        rcases htype with ht | ht
        · exact ht
        · rw [ht] at hst
          exact absurd rfl hst
      subst hts
      have hzero : pr.softCount sig = 0 := by
        by_cases h12 : sig = SIGUSR2
        · rw [h12]
          exact husr2 h12 htsoft
        · by_contra hpos
          have hbit := h.soft sig hsig (by simp_all) (Nat.pos_of_ne_zero hpos)
          rw [hclear htsoft] at hbit
          cases hbit
      omega
    · exact h.once t hno

/-- The head of the queue is delivered and survived. -/
theorem MaskMirrors.send {pr pr' : Process} {s : SigQueue} {rest : List SigQueue}
    (h : MaskMirrors pr) (hq : pr.signal.sigQueue = s :: rest)
    (hhup : s.sigHandled ≠ SIGHUP) (husr2 : s.sigHandled ≠ SIGUSR2)
    (hsignal : pr'.signal = ((pr.unblock s.sigHandled).popSignal).signal)
    (hhard : s.state &&& SIG_HARD ≠ 0 → s.sigHandled ∉ [SIGKILL, SIGSTOP] →
      pr.softCount s.sigHandled = 0) : MaskMirrors pr' := by
  have hqueue : pr'.signal.sigQueue = rest := by
    rw [hsignal]
    simp [Process.popSignal, Process.unblock, hq]
  have hmask : pr'.signal.sigAvalaible =
      pr.signal.sigAvalaible &&& (0xFFFFFFFF ^^^ blockedMask s.sigHandled) := by
    rw [hsignal]
    rfl
  obtain ⟨hs, hstate⟩ := h.entry s (hq ▸ List.mem_cons_self)
  have hrest {t : SigQueue} (ht : t ∈ rest) : t ∈ pr.signal.sigQueue :=
    hq ▸ List.mem_cons_of_mem s ht
  have hpending {t : Nat} (hne : t ≠ s.sigHandled) (hp : pr.Pending t) : pr'.Pending t := by
    obtain ⟨e, he, rfl⟩ := hp
    rw [hq] at he
    rcases List.mem_cons.mp he with rfl | he
    · exact absurd rfl hne
    · exact ⟨e, hqueue ▸ he, rfl⟩
  have hpending' {t : Nat} (hp : pr'.Pending t) : pr.Pending t := by
    obtain ⟨e, he, rfl⟩ := hp
    exact ⟨e, hrest (hqueue ▸ he), rfl⟩
  have hcount (t : Nat) : pr.softCount t =
      pr'.softCount t + if SigQueue.isSoft t s then 1 else 0 := by
    unfold Process.softCount
    rw [hq, hqueue, List.countP_cons]
  refine ⟨fun t => ?_, fun e he => h.entry e (hrest (hqueue ▸ he)), fun t ht hbit => ?_,
    fun t ht hno hpos => ?_, fun hp => ?_, fun t hno => ?_⟩
  · rw [hsignal]
    exact h.handler t
  · rw [hmask] at hbit
    obtain ⟨hbit, hmark⟩ := (SIG_UNAVAILABLE_clear hs ht).mp hbit
    obtain ⟨hno, hp⟩ := h.bit t ht hbit
    have hne : t ≠ s.sigHandled := by
      rintro rfl
      exact hmark (.inl ⟨rfl, hno⟩)
    refine ⟨hno, hp.imp (hpending hne) ?_⟩
    rintro ⟨hhup', hp'⟩
    exact ⟨hhup', hpending husr2.symm hp'⟩
  · rw [hmask]
    have hpos' : 0 < pr.softCount t := by
      have := hcount t
      omega
    refine (SIG_UNAVAILABLE_clear hs ht).mpr ⟨h.soft t ht hno hpos', ?_⟩
    rintro (⟨rfl, -⟩ | ⟨h12, -⟩)
    · -- a soft entry of the delivered signal would be left behind
      have honce := h.once s.sigHandled (by simp_all)
      have hc := hcount s.sigHandled
      rcases hstate with hst | hst
      · rw [if_pos (by simp [SigQueue.isSoft, hst]; decide)] at hc
        omega
      · have := hhard (by rw [hst]; decide) (by simp_all)
        omega
    · exact husr2 h12
  · rw [hmask]
    refine (SIG_UNAVAILABLE_clear hs (by decide)).mpr ⟨h.usr2 (hpending' hp), ?_⟩
    rintro (⟨h1, -⟩ | ⟨h12, -⟩)
    · exact hhup h1.symm
    · exact husr2 h12
  · have h1 := h.once t hno
    have h2 := hcount t
    omega

/-! ## Steps -/

/-- A handler that leaves the process alive does not touch its signals. -/
theorem runHandler_signal (L : Layout) {a : Shandler} (ha : ¬ a.Fatal) (p signum q : Nat)
    (k : Kernel) : ((runHandler L a p signum k).proc q).signal = (k.proc q).signal := by
  cases a with
  | sigTerm => exact absurd (.inl rfl) ha
  | sigCore => exact absurd (.inr rfl) ha
  | sigIgn => rfl
  | sigStop =>
    have h : Same (fun pr => pr.signal) k (runHandler L .sigStop p signum k) :=
      (Same.modify k p rfl).trans (Same.modify _ p rfl)
    exact h.proc q
  | sigCont =>
    have h : Same (fun pr => pr.signal) k (runHandler L .sigCont p signum k) :=
      (Same.modify k p rfl).trans (Same.modify _ p rfl)
    exact h.proc q
  | childEnded =>
    show ((childEnded p k).proc q).signal = _
    unfold childEnded
    split
    · rename_i c hc
      have hreply : Same (fun pr => pr.signal) k
          (k.modify p (Process.setReply (k.proc c).pid (k.proc c).endValue)) :=
        Same.modify k p rfl
      have hfree := freeProcess_same (v := fun pr => pr.signal) (fun _ _ => rfl) c
        (k.modify p (Process.setReply (k.proc c).pid (k.proc c).endValue))
      have hrun : Same (fun pr => pr.signal) (freeProcess c _) (endOfChild c p k) :=
        Same.modify _ p rfl
      exact (hrun.proc q).trans ((hfree.proc q).trans (hreply.proc q))
    · rfl
  | user addr => rfl

/-- `add_signal` and `send_signal` for one process, with the signals 1 to 31. -/
def ForProcess (p : Nat) : SignalOp → Prop
  | .kill .. => False
  | .addSignal sig q type => q = some p ∧ 1 ≤ sig ∧ sig ≤ 31 ∧ (type = SIG_SOFT ∨ type = SIG_HARD)
  | .sendSignal q => q = p

/-- The step keeps the mask and the queue together: no soft `SIGUSR2` is added to another, and
no hard entry is delivered while a soft one of the same signal waits. -/
def KeepsMask (p : Nat) (k : Kernel) : SignalOp → Prop
  | .kill .. => True
  | .addSignal sig _ type =>
    sig = SIGUSR2 → type = SIG_SOFT → (k.proc p).softCount SIGUSR2 = 0
  | .sendSignal _ =>
    ∀ s ∈ (k.proc p).signal.sigQueue.head?, s.state &&& SIG_HARD ≠ 0 →
      s.sigHandled ∉ [SIGKILL, SIGSTOP] → (k.proc p).softCount s.sigHandled = 0

/-- A dead process, or one whose mask mirrors its queue. -/
def DeadOrMirrors (p : Nat) (k : Kernel) : Prop :=
  (k.proc p).state = .ZOMBIE ∨ MaskMirrors (k.proc p)

theorem addSignal_zombie {p : Nat} {k : Kernel} (hz : (k.proc p).state = .ZOMBIE) (sig : Int)
    (type : Nat) : (addSignal sig (some p) type k).2 = k := by
  rcases addSignal_cases sig p type k with he | ⟨-, -, hlive, -⟩
  · exact he
  · exact absurd hz hlive

theorem addSignal_mirrors {p sig type : Nat} {k : Kernel} (h : MaskMirrors (k.proc p))
    (hsig : IsSignal sig) (htype : type = SIG_SOFT ∨ type = SIG_HARD)
    (husr2 : sig = SIGUSR2 → type = SIG_SOFT → (k.proc p).softCount SIGUSR2 = 0) :
    MaskMirrors ((addSignal sig (some p) type k).2.proc p) := by
  rcases addSignal_cases sig p type k with he | ⟨-, -, -, -, hfree, he | he⟩
  · rw [he]
    exact h
  · rw [he]
    exact h
  · rw [he, Kernel.modify_proc_self, Kernel.kmalloc_proc, Int.toNat_natCast]
    refine h.add hsig htype (fun hsoft => ?_) husr2
    rw [Int.toNat_natCast, hsoft] at hfree
    simpa [SIG_SOFT, SIG_HARD] using hfree

theorem sendSignal_mirrors {L : Layout} {p : Nat} {k k' : Kernel} (h : MaskMirrors (k.proc p))
    (hlive : (k.proc p).state ≠ .ZOMBIE) (hkeep : KeepsMask p k (.sendSignal p))
    (hsend : sendSignal L p k = some k') : DeadOrMirrors p k' := by
  cases hq : (k.proc p).signal.sigQueue with
  | nil =>
    simp only [sendSignal, hq, Option.some.injEq] at hsend
    rw [← hsend]
    exact .inr h
  | cons s rest =>
    have hwait := h.default.queue s (hq ▸ List.mem_cons_self)
    obtain ⟨a, ha, rfl⟩ := sendSignal_live hq hlive hwait hsend
    rw [h.default.handlerFor] at ha
    split
    · rename_i hz
      exact .inl hz
    · rename_i hz
      have hfatal : ¬ a.Fatal := fun hf => hz (runHandler_dies L hf p s.sigHandled k)
      -- `SIGHUP` and `SIGUSR2` are never survived
      have hrow (n : Nat) (hn : sigHandler[n]? = some .sigTerm) : s.sigHandled ≠ n := by
        rintro rfl
        exact hfatal (.inl (Option.some.inj (ha.symm.trans hn)))
      refine .inr (h.send hq (hrow SIGHUP rfl) (hrow SIGUSR2 rfl) ?_ fun hhard hno => ?_)
      · rw [Kernel.modify_proc_self]
        simp only [Process.popSignal, Process.unblock, runHandler_signal L hfatal]
      · exact hkeep s (by rw [hq]; rfl) hhard hno

theorem queueStep_mirrors {L : Layout} {p : Nat} {k k' : Kernel} {op : SignalOp}
    (h : DeadOrMirrors p k) (hstep : signalStep L k op k') (hop : ForProcess p op)
    (hkeep : KeepsMask p k op) : DeadOrMirrors p k' := by
  cases op with
  | kill proc pid sig => exact absurd hop id
  | addSignal sig q type =>
    obtain ⟨rfl, h1, h31, htype⟩ := hop
    obtain ⟨n, rfl⟩ := Int.eq_ofNat_of_zero_le (by omega : 0 ≤ sig)
    cases hstep
    rcases h with hz | h
    · rw [DeadOrMirrors, addSignal_zombie hz]
      exact .inl hz
    · refine .inr (addSignal_mirrors h ⟨by omega, by omega⟩ htype fun hn => ?_)
      exact hkeep (by rw [hn])
  | sendSignal q =>
    cases hop
    by_cases hz : (k.proc p).state = .ZOMBIE
    · left
      have hstep : sendSignal L p k = some k' := hstep
      cases hq : (k.proc p).signal.sigQueue with
      | nil =>
        simp only [sendSignal, hq, Option.some.injEq] at hstep
        rw [← hstep]
        exact hz
      | cons s rest =>
        simp only [sendSignal, hq, hz, if_true, Option.some.injEq] at hstep
        rw [← hstep, Kernel.modify_proc_self]
        exact hz
    · exact sendSignal_mirrors (h.resolve_left hz) hz hkeep hstep

/-! ## What becomes of a soft signal -/

/-- The signal waits in the queue once `add_signal` has accepted it. -/
def AcceptedHonestly (p sig : Nat) (k : Kernel) : Prop :=
  (addSignal sig (some p) SIG_SOFT k).1 = 0 →
    ((addSignal sig (some p) SIG_SOFT k).2.proc p).Pending sig

theorem acceptedHonestly_iff {p sig : Nat} {k : Kernel} (h : MaskMirrors (k.proc p))
    (hlive : (k.proc p).state ≠ .ZOMBIE) (hsig : IsSignal sig) :
    AcceptedHonestly p sig k ↔
      (sig = SIGHUP → (k.proc p).Pending SIGUSR2 → (k.proc p).Pending SIGHUP) := by
  have h0 : (sig : Int) ≠ 0 := by
    have := hsig.1
    omega
  have hrange : ¬ ((sig : Int) < 0 ∨ (sig : Int) > 34) := by
    have := hsig.2
    omega
  have htype : ¬ ((SIG_SOFT &&& SIG_HARD ≠ 0 ∧ SIG_SOFT &&& SIG_SOFT ≠ 0) ∨
      (SIG_SOFT &&& SIG_HARD = 0 ∧ SIG_SOFT &&& SIG_SOFT = 0)) := by decide
  have hsoft : SIG_SOFT &&& SIG_HARD = 0 := by decide
  unfold AcceptedHonestly
  rw [addSignal_tested h0 htype hlive hrange, Int.toNat_natCast]
  by_cases hbit : SIG_UNAVAILABLE (k.proc p).signal.sigAvalaible sig = true
  · rw [if_pos ⟨hsoft, hbit⟩]
    obtain ⟨-, hp⟩ := h.bit sig hsig hbit
    constructor
    · rintro hacc rfl -
      exact hacc rfl
    · intro hcond _
      rcases hp with hp | ⟨rfl, hp⟩
      · exact hp
      · exact hcond rfl hp
  · rw [if_neg (fun hc => hbit hc.2)]
    have hcond : sig = SIGHUP → (k.proc p).Pending SIGUSR2 → (k.proc p).Pending SIGHUP := by
      rintro rfl hp
      exact absurd (h.usr2 hp) hbit
    refine ⟨fun _ => hcond, fun _ => ?_⟩
    cases hm : k.kmalloc with
    | mk a k' =>
      cases a with
      | none =>
        intro herr
        have herr : -ENOMEM = 0 := herr
        exact absurd herr (by decide)
      | some new =>
        intro _
        rw [Kernel.modify_proc_self]
        exact queueSignal_pending.mpr (.inl rfl)

/-- **A soft signal that is accepted waits in the queue**, in every run whose steps keep mask and
queue together, but for a `SIGHUP` that finds its bit taken by `SIGUSR2`; and no signal but
`SIGKILL` and `SIGSTOP` waits twice. -/
theorem signals_accepted_iff (L : Layout) (p : Nat) (k₀ k₁ k : Kernel) (ops : List SignalOp)
    (hnew : processNew k₀ = (some p, k₁))
    (hrun : Run (fun k op k' => signalStep L k op k' ∧ ForProcess p op ∧ KeepsMask p k op) k₁ ops k)
    (hlive : (k.proc p).state ≠ .ZOMBIE) :
    (∀ sig, IsSignal sig → (AcceptedHonestly p sig k ↔
      (sig = SIGHUP → (k.proc p).Pending SIGUSR2 → (k.proc p).Pending SIGHUP))) ∧
    ∀ sig, sig ∉ [SIGKILL, SIGSTOP] → (k.proc p).softCount sig ≤ 1 := by
  have hstart : DeadOrMirrors p k₁ := by
    right
    unfold processNew at hnew
    cases hm : k₀.kmalloc with
    | mk a k' =>
      rw [hm] at hnew
      cases a with
      | none => cases hnew
      | some a =>
        cases hnew
        rw [Kernel.modify_proc_self]
        exact MaskMirrors.zero
  have hk : DeadOrMirrors p k :=
    hrun.invariant (DeadOrMirrors p) (fun _ _ _ hs hstep =>
      queueStep_mirrors hs hstep.1 hstep.2.1 hstep.2.2) hstart
  have hmirrors := hk.resolve_left hlive
  exact ⟨fun sig hsig => acceptedHonestly_iff hmirrors hlive hsig, hmirrors.once⟩

/-- A new process, at 100. -/
def Kernel.newborn : Kernel := (processNew .solo).2

/-- A soft `SIGTSTP` and a hard `SIGTTIN` wait in its queue. -/
def Kernel.askedToStop : Kernel :=
  (addSignal 21 (some 100) SIG_HARD (addSignal 20 (some 100) SIG_SOFT .newborn).2).2

/-- The next `SIGTSTP` is dropped because one waits. -/
theorem sigtstp_waits : AcceptedHonestly 100 SIGTSTP .askedToStop ∧
    (Kernel.askedToStop.proc 100).softCount SIGTSTP ≤ 1 := by
  have h := signals_accepted_iff .sample 100 .solo .newborn .askedToStop
    [.addSignal 20 (some 100) SIG_SOFT, .addSignal 21 (some 100) SIG_HARD] rfl
    (.cons ⟨rfl, ⟨rfl, by decide, by decide, .inl rfl⟩, fun hs => absurd hs (by decide)⟩
      (.single ⟨rfl, ⟨rfl, by decide, by decide, .inr rfl⟩, fun hs => absurd hs (by decide)⟩))
    (by decide +kernel)
  exact ⟨(h.1 SIGTSTP (by decide)).mpr (fun hs => absurd hs (by decide)), h.2 SIGTSTP (by decide)⟩

/-- With a soft `SIGUSR2` in the queue a soft `SIGHUP` is lost and a second `SIGUSR2` is queued;
and a soft `SIGTSTP` is queued twice when a hard one is delivered in between. -/
theorem shared_bits_lose_and_repeat :
    (∃ k, Run (fun k op k' => signalStep .sample k op k' ∧ ForProcess 100 op) .newborn
        [.addSignal 12 (some 100) SIG_SOFT] k ∧ (k.proc 100).state = .RUN ∧
      ¬ AcceptedHonestly 100 SIGHUP k) ∧
    (∃ k, Run (fun k op k' => signalStep .sample k op k' ∧ ForProcess 100 op) .newborn
        [.addSignal 12 (some 100) SIG_SOFT, .addSignal 12 (some 100) SIG_SOFT] k ∧
      (k.proc 100).state = .RUN ∧ (k.proc 100).softCount SIGUSR2 = 2) ∧
    (∃ k, Run (fun k op k' => signalStep .sample k op k' ∧ ForProcess 100 op) .newborn
        [.addSignal 20 (some 100) SIG_SOFT, .addSignal 20 (some 100) SIG_HARD, .sendSignal 100,
          .addSignal 20 (some 100) SIG_SOFT] k ∧
      (k.proc 100).state = .STOPPED ∧ (k.proc 100).softCount SIGTSTP = 2) := by
  have hadd (sig : Int) (type : Nat) (h : 1 ≤ sig ∧ sig ≤ 31)
      (ht : type = SIG_SOFT ∨ type = SIG_HARD) :
      ForProcess 100 (.addSignal sig (some 100) type) := ⟨rfl, h.1, h.2, ht⟩
  refine ⟨⟨_, .single ⟨rfl, hadd 12 _ (by decide) (.inl rfl)⟩, rfl, fun h => ?_⟩,
    ⟨_, .cons ⟨rfl, hadd 12 _ (by decide) (.inl rfl)⟩
      (.single ⟨rfl, hadd 12 _ (by decide) (.inl rfl)⟩), rfl, by decide +kernel⟩,
    ⟨_, .cons ⟨rfl, hadd 20 _ (by decide) (.inl rfl)⟩
      (.cons ⟨rfl, hadd 20 _ (by decide) (.inr rfl)⟩
        (.cons ⟨rfl, rfl⟩ (.single ⟨rfl, hadd 20 _ (by decide) (.inl rfl)⟩))), rfl,
      by decide +kernel⟩⟩
  exact absurd (h (by decide +kernel)) (by decide +kernel)

end Moonlight
