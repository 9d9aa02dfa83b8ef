import MoonlightKernel.Process.Replies
import MoonlightKernel.Process.Tree

/-!
# Waiting for children

One parent that leaves `SIGCHLD` at its default, and its children.  They exit, the parent's
pending signals are delivered, and it calls `process_waitpid`, in any order.  `family` reads the
parent's account of its children out of the kernel; every step of the kernel that loses no reply
is a move of `MoonlightKernel.Process.Replies` (`waitStep_simulates`).

Replies are lost in two ways: `child_ended` reaps a child whose `end_value` is `0`, which the
slot cannot hold, and `process_waitpid` for another pid overwrites a slot that is full
(`NoLostReply`).

* `exits_reported_once` — in runs without such steps every exit is reported once, with its own
  status.
-/

set_option autoImplicit false

namespace Moonlight

open Sys

/-! ## The parent's account of its children -/

/-- The fields of a process other than its memory and its pending signals. -/
def Process.life (pr : Process) : Process :=
  { pr with
    mmHeap := []
    mmStack := []
    signal := { pr.signal with sigQueue := [], sigAvalaible := 0 } }

/-- The parent `p`, its children and its reply slot. -/
def family (p : Nat) (k : Kernel) : Family where
  kids := (k.proc p).children
  pid c := (k.proc c).pid
  value c := if (k.proc c).state = .ZOMBIE then some (k.proc c).endValue else none
  waitingPid := (k.proc p).waitingPid
  waitingReturn := (k.proc p).waitingReturn

/-- `p` is alive, takes `SIGCHLD` by default and has nothing else pending; its children are its
own and have none themselves. -/
structure ParentOk (p : Nat) (k : Kernel) : Prop where
  alive : (k.proc p).state ≠ .ZOMBIE
  handler : (k.proc p).signal.sigHandler SIGCHLD = none
  queue : ∀ s ∈ (k.proc p).signal.sigQueue, s.sigHandled = SIGCHLD
  kid : ∀ c ∈ (k.proc p).children, c ≠ p ∧ (k.proc c).father = some p ∧ (k.proc c).children = []

theorem family_same {p : Nat} {k k' : Kernel} (h : Same Process.life k k') :
    family p k' = family p k := by
  have hchildren := h.field Process.children p
  have hpid : ∀ c, (k'.proc c).pid = (k.proc c).pid := h.field Process.pid
  have hstate : ∀ c, (k'.proc c).state = (k.proc c).state := h.field Process.state
  have hvalue : ∀ c, (k'.proc c).endValue = (k.proc c).endValue := h.field Process.endValue
  have hwp := h.field Process.waitingPid p
  have hwr := h.field Process.waitingReturn p
  unfold family
  simp only [hpid, hstate, hvalue]
  exact congr (congr (congrArg (fun kids wp wr => Family.mk kids _ _ wp wr) hchildren) hwp) hwr

theorem ParentOk.same {p : Nat} {k k' : Kernel} (hp : ParentOk p k) (h : Same Process.life k k')
    (hqueue : ∀ s ∈ (k'.proc p).signal.sigQueue,
      s ∈ (k.proc p).signal.sigQueue ∨ s.sigHandled = SIGCHLD) : ParentOk p k' := by
  have hchildren : ∀ q, (k'.proc q).children = (k.proc q).children := h.field Process.children
  have hfather : ∀ q, (k'.proc q).father = (k.proc q).father := h.field Process.father
  refine ⟨?_, ?_, fun s hs => (hqueue s hs).elim (hp.queue s) id, fun c hc => ?_⟩
  · rw [show (k'.proc p).state = (k.proc p).state from h.field Process.state p]
    exact hp.alive
  · rw [show (k'.proc p).signal.sigHandler = (k.proc p).signal.sigHandler from
      h.field (fun pr => pr.signal.sigHandler) p]
    exact hp.handler
  · rw [hchildren] at hc
    rw [hfather, hchildren]
    exact hp.kid c hc

/-! ## `exit` of a child -/

theorem notifyFather_default {c p : Nat} {k : Kernel} (hf : (k.proc c).father = some p)
    (hh : (k.proc p).signal.sigHandler SIGCHLD = none) :
    notifyFather c k =
      (addSignal SIGCHLD (some p) SIG_SOFT k).2.modify c (Process.setState .ZOMBIE) := by
  unfold notifyFather
  rw [hf]
  have hs : Same (fun pr => pr.signal.sigHandler) k (addSignal SIGCHLD (some p) SIG_SOFT k).2 :=
    addSignal_same (fun _ _ _ => rfl) _ _ _ k
  dsimp only
  rw [hs.proc p, hh, if_neg (by simp)]

/-- The record of a child that has ended with the status `v`. -/
def Process.endedWith (v : Int) (pr : Process) : Process := { pr with state := .ZOMBIE, endValue := v }

/-- The record of a child after `exit`. -/
def Process.exited (status : Nat) (pr : Process) : Process :=
  { pr with state := .ZOMBIE, endValue := WAIT_EXITCODE (status % 256) 0 }

/-- The end of a child whose father takes `SIGCHLD` by default: the child is a zombie with its
status, and the father may have one more `SIGCHLD` pending. -/
theorem processDie_default (L : Layout) {c p : Nat} (v : Int) {k : Kernel}
    (hf : (k.proc c).father = some p) (hh : (k.proc p).signal.sigHandler SIGCHLD = none) :
    Same Process.life (k.modify c (Process.endedWith v))
        (processDie L c (k.modify c (Process.setEndValue v))) ∧
      ∀ q, ∀ s ∈ ((processDie L c (k.modify c (Process.setEndValue v))).proc q).signal.sigQueue,
        s ∈ (k.proc q).signal.sigQueue ∨ s.sigHandled = SIGCHLD := by
  have hlife : Same Process.life
      (k.modify c (Process.setEndValue v))
      ((processFreeAllMemory L c (k.modify c (Process.setEndValue v))).modify c
        Process.clearQueue) :=
    (processFreeAllMemory_same (fun _ => rfl) L c _).trans (Same.modify _ c rfl)
  have hqueue : ∀ q, ∀ s ∈ (((processFreeAllMemory L c
      (k.modify c (Process.setEndValue v))).modify c
        Process.clearQueue).proc q).signal.sigQueue, s ∈ (k.proc q).signal.sigQueue := by
    intro q s hs
    have hq : Same (fun pr => pr.signal.sigQueue) k _ :=
      (Same.modify k c (f := Process.setEndValue v) rfl).trans
        (processFreeAllMemory_same (fun _ => rfl) L c _)
    rw [Kernel.modify_proc] at hs
    split at hs
    · cases hs
    · rw [hq.proc q] at hs; exact hs
  unfold processDie processDieSafe
  dsimp only
  generalize (processFreeAllMemory L c
    (k.modify c (Process.setEndValue v))).modify c
      Process.clearQueue = k₁ at hlife hqueue
  have hset : Same (fun pr => (pr.father, pr.signal.sigHandler)) k
      (k.modify c (Process.setEndValue v)) := Same.modify k c rfl
  have hf₁ : (k₁.proc c).father = some p :=
    ((hlife.field Process.father c).trans (hset.field Prod.fst c)).trans hf
  have hh₁ : (k₁.proc p).signal.sigHandler SIGCHLD = none :=
    (congrFun ((hlife.field (fun pr => pr.signal.sigHandler) p).trans (hset.field Prod.snd p))
      SIGCHLD).trans hh
  rw [notifyFather_default hf₁ hh₁]
  have hfinal : Same Process.life (k.modify c (Process.endedWith v))
      ((addSignal SIGCHLD (some p) SIG_SOFT k₁).2.modify c (Process.setState .ZOMBIE)) := by
    have h := (hlife.trans (addSignal_same (fun _ _ _ => rfl) SIGCHLD (some p) SIG_SOFT k₁))
    have h' := h.congr_modify c (f := Process.setState .ZOMBIE) fun pr pr' he =>
      congrArg (Process.setState .ZOMBIE) he
    rw [Kernel.modify_modify] at h'
    exact h'
  have hfinalQueue : ∀ q, ∀ s ∈ (((addSignal SIGCHLD (some p) SIG_SOFT k₁).2.modify c
      (Process.setState .ZOMBIE)).proc q).signal.sigQueue,
      s ∈ (k.proc q).signal.sigQueue ∨ s.sigHandled = SIGCHLD := by
    intro q s hs
    have hs' : s ∈ ((addSignal SIGCHLD (some p) SIG_SOFT k₁).2.proc q).signal.sigQueue := by
      rw [Kernel.modify_proc] at hs
      split at hs
      · rename_i hq; subst hq; exact hs
      · exact hs
    exact (addSignal_queue hs').imp (hqueue q s) id
  split
  · exact ⟨⟨hfinal.list, hfinal.proc⟩, hfinalQueue⟩
  · exact ⟨hfinal, hfinalQueue⟩

/-- `exit` of a child. -/
theorem exit_default (L : Layout) {c p : Nat} (status : Nat) {k : Kernel}
    (hf : (k.proc c).father = some p) (hh : (k.proc p).signal.sigHandler SIGCHLD = none) :
    Same Process.life (k.modify c (Process.exited status)) (exit L c status k) ∧
      ∀ q, ∀ s ∈ ((exit L c status k).proc q).signal.sigQueue,
        s ∈ (k.proc q).signal.sigQueue ∨ s.sigHandled = SIGCHLD :=
  processDie_default L (WAIT_EXITCODE (status % 256) 0) hf hh

theorem exit_endValue (L : Layout) {c p : Nat} (status : Nat) {k : Kernel}
    (hf : (k.proc c).father = some p) (hh : (k.proc p).signal.sigHandler SIGCHLD = none) :
    ((exit L c status k).proc c).pid = (k.proc c).pid ∧
      ((exit L c status k).proc c).endValue = WAIT_EXITCODE (status % 256) 0 := by
  have hs := (exit_default L status hf hh).1
  have hpid := hs.field Process.pid c
  have hval := hs.field Process.endValue c
  rw [Kernel.modify_proc_self] at hpid hval
  exact ⟨hpid, hval⟩

/-- The exit of a living child is an exit of the family. -/
theorem exit_step {L : Layout} {c p status : Nat} {k : Kernel} {B : Books} (hp : ParentOk p k)
    (hc : c ∈ (k.proc p).children) (hz : (k.proc c).state ≠ .ZOMBIE) :
    ParentOk p (exit L c status k) ∧
      Family.Step (family p k) B (family p (exit L c status k))
        { B with exited := (((exit L c status k).proc c).pid, ((exit L c status k).proc c).endValue) ::
          B.exited } := by
  obtain ⟨hcp, hf, -⟩ := hp.kid c hc
  obtain ⟨hlife, hqueue⟩ := exit_default L status hf hp.handler
  obtain ⟨hpid, hval⟩ := exit_endValue L status hf hp.handler
  have hmod : ParentOk p (k.modify c (Process.exited status)) := by
    have hproc : ∀ q, ((k.modify c (Process.exited status)).proc q).father = (k.proc q).father ∧
        ((k.modify c (Process.exited status)).proc q).children = (k.proc q).children := fun q => by
      rw [Kernel.modify_proc]
      split
      · rename_i hq; subst hq; exact ⟨rfl, rfl⟩
      · exact ⟨rfl, rfl⟩
    refine ⟨?_, ?_, ?_, fun d hd => ?_⟩
    · rw [Kernel.modify_proc_of_ne _ hcp.symm]; exact hp.alive
    · rw [Kernel.modify_proc_of_ne _ hcp.symm]; exact hp.handler
    · rw [Kernel.modify_proc_of_ne _ hcp.symm]; exact hp.queue
    · rw [(hproc p).2] at hd
      rw [(hproc d).1, (hproc d).2]
      exact hp.kid d hd
  refine ⟨hmod.same hlife fun s hs => ?_, ?_⟩
  · rw [Kernel.modify_proc_of_ne _ hcp.symm]
    exact hqueue p s hs
  · rw [family_same hlife, hpid, hval]
    have hfam : family p (k.modify c (Process.exited status)) = { family p k with
        value := Function.update (family p k).value c
          (some (WAIT_EXITCODE (status % 256) 0)) } := by
      unfold family
      rw [Kernel.modify_proc_of_ne _ hcp.symm]
      congr 1
      · funext q
        rw [Kernel.modify_proc]
        split
        · rename_i hq; subst hq; rfl
        · rfl
      · funext q
        rw [Kernel.modify_proc, Function.update_apply]
        split <;> rfl
    rw [hfam]
    exact .exit hc (if_neg hz)

/-! ## The end of a child -/

/-- The fields that `free_process` leaves alone. -/
def Process.lone (pr : Process) : Process := { pr.life with children := [] }

/-- The parent reaps one of its children. -/
theorem endOfChild_family {c p : Nat} {k : Kernel} (hp : ParentOk p k)
    (hnodup : (k.proc p).children.Nodup) (hc : c ∈ (k.proc p).children) :
    ParentOk p (endOfChild c p k) ∧
      family p (endOfChild c p k) = { family p k with
        kids := (k.proc p).children.erase c
        waitingPid := (k.proc c).pid
        waitingReturn := (k.proc c).endValue } := by
  obtain ⟨hcp, hf, hleaf⟩ := hp.kid c hc
  let k₁ := k.modify p (Process.setReply (k.proc c).pid (k.proc c).endValue)
  have hk₁p : k₁.proc p = Process.setReply (k.proc c).pid (k.proc c).endValue (k.proc p) :=
    Kernel.modify_proc_self ..
  have hk₁ : ∀ {q}, q ≠ p → k₁.proc q = k.proc q := fun hq => Kernel.modify_proc_of_ne _ hq _
  have hleaf₁ : (k₁.proc c).children = [] := by rw [hk₁ hcp]; exact hleaf
  have htree := (freeProcess_leaf hleaf₁).2
  have hlone : ∀ q, ((freeProcess c k₁).proc q).lone = (k₁.proc q).lone :=
    (freeProcess_same (fun _ _ => rfl) c k₁).proc
  have hqueue : Same (fun pr => pr.signal.sigQueue) _ (freeProcess c k₁) :=
    freeProcess_same (fun _ _ => rfl) c k₁
  have hkids : ((freeProcess c k₁).proc p).children = (k.proc p).children.erase c := by
    rw [(htree p).2, if_pos (by rw [hk₁ hcp]; exact hf), hk₁p]
    rfl
  have hend : endOfChild c p k = (freeProcess c k₁).modify p (Process.setState .RUN) := rfl
  rw [hend]
  refine ⟨⟨?_, ?_, ?_, fun d hd => ?_⟩, ?_⟩
  · rw [Kernel.modify_proc_self]; exact fun h => by cases h
  · rw [Kernel.modify_proc_self]
    refine (congrFun (congrArg (fun pr => pr.signal.sigHandler) (hlone p)) SIGCHLD).trans ?_
    rw [hk₁p]
    exact hp.handler
  · rw [Kernel.modify_proc_self]
    show ∀ s ∈ ((freeProcess c k₁).proc p).signal.sigQueue, _
    rw [hqueue.proc, hk₁p]
    exact hp.queue
  · rw [Kernel.modify_proc_self] at hd
    have hd' : d ∈ (k.proc p).children.erase c := hkids ▸ hd
    obtain ⟨h1, h2, h3⟩ := hp.kid d (List.mem_of_mem_erase hd')
    rw [Kernel.modify_proc_of_ne _ h1, (htree d).1, (htree d).2, hk₁ h1, hk₁ hcp, hf,
      if_neg fun h => h1 (Option.some.inj h).symm]
    exact ⟨h1, h2, h3⟩
  · unfold family
    rw [Kernel.modify_proc_self]
    have hwp : ((freeProcess c k₁).proc p).waitingPid = (k.proc c).pid :=
      (congrArg Process.waitingPid (hlone p)).trans (by rw [hk₁p]; rfl)
    have hwr : ((freeProcess c k₁).proc p).waitingReturn = (k.proc c).endValue :=
      (congrArg Process.waitingReturn (hlone p)).trans (by rw [hk₁p]; rfl)
    have hpid : ∀ q, (((freeProcess c k₁).modify p (Process.setState .RUN)).proc q).pid =
        (k.proc q).pid := fun q => by
      rw [Kernel.modify_proc]
      split
      · rename_i hq
        subst hq
        exact (congrArg Process.pid (hlone q)).trans (by rw [hk₁p]; rfl)
      · rename_i hq
        exact (congrArg Process.pid (hlone q)).trans (by rw [hk₁ hq]; rfl)
    have hval : ∀ q, (if (((freeProcess c k₁).modify p (Process.setState .RUN)).proc q).state =
        .ZOMBIE then
          some (((freeProcess c k₁).modify p (Process.setState .RUN)).proc q).endValue else none) =
        if (k.proc q).state = .ZOMBIE then some (k.proc q).endValue else none := fun q => by
      rw [Kernel.modify_proc]
      split
      · -- the parent runs, before and after
        rename_i hq
        subst hq
        rw [if_neg hp.alive, if_neg (by exact fun h => by cases h)]
      · rename_i hq
        have hst : ((freeProcess c k₁).proc q).state = (k.proc q).state :=
          (congrArg Process.state (hlone q)).trans (by rw [hk₁ hq]; rfl)
        have hev : ((freeProcess c k₁).proc q).endValue = (k.proc q).endValue :=
          (congrArg Process.endValue (hlone q)).trans (by rw [hk₁ hq]; rfl)
        rw [hst, hev]
    simp only [hpid, hval]
    exact congr (congr (congrArg (fun kids wp wr => Family.mk kids _ _ wp wr) hkids) hwp) hwr

theorem handlerFor_child {pr : Process} {s : SigQueue} (hh : pr.signal.sigHandler SIGCHLD = none)
    (hs : s.sigHandled = SIGCHLD) : handlerFor pr s = some .childEnded := by
  unfold handlerFor
  rw [hs, hh]
  dsimp only
  split <;> rfl

/-- The delivery of a pending signal reaps a child or changes nothing of the family. -/
theorem sendSignal_step {L : Layout} {p : Nat} {k k' : Kernel} {B : Books} (hp : ParentOk p k)
    (hok : Family.Ok (family p k) B) (h : sendSignal L p k = some k')
    (hguard : ∀ c, freed k (.sendSignal p) = some c → (k.proc c).endValue ≠ 0) :
    ParentOk p k' ∧ Family.Step (family p k) B (family p k') B := by
  unfold sendSignal at h
  unfold freed at hguard
  dsimp only at hguard
  split at h
  · cases h; exact ⟨hp, .idle⟩
  rename_i s rest hq
  rw [if_neg hp.alive] at h
  rw [hq] at hguard
  dsimp only at hguard
  split at h
  · cases h; exact ⟨hp, .idle⟩
  rename_i hx
  have hsig : s.sigHandled = SIGCHLD := hp.queue s (by rw [hq]; exact List.mem_cons_self)
  rw [handlerFor_child hp.handler hsig] at h hguard
  rw [if_neg (not_or.mpr ⟨hp.alive, hx⟩)] at hguard
  replace h : (if ((childEnded p k).proc p).state = .ZOMBIE then childEnded p k
    else (childEnded p k).modify p fun pr => (pr.unblock s.sigHandled).popSignal) = k' :=
    Option.some.inj h
  -- `child_ended` has run; the queue is then shortened
  have hrun : ParentOk p (childEnded p k) ∧
      Family.Step (family p k) B (family p (childEnded p k)) B := by
    unfold childEnded
    split
    · rename_i c hc
      have hmem : c ∈ (k.proc p).children := List.mem_of_find?_eq_some hc
      obtain ⟨hz, hw⟩ : Reapable k p c := by simpa using List.find?_some hc
      obtain ⟨hp', hfam⟩ := endOfChild_family hp hok.nodup hmem
      refine ⟨hp', hfam ▸ .collect hmem (if_pos hz) (hguard c hc) ?_⟩
      by_contra hslot
      obtain ⟨-, -, h1, h2⟩ := hok.slot hslot
      rcases hw with hw | hw
      · have : (k.proc p).waitingPid > 0 := h1
        omega
      · exact h2 c hmem hw
    · exact ⟨hp, .idle⟩
  rw [if_neg hrun.1.alive] at h
  subst h
  have hs : Same Process.life (childEnded p k)
      ((childEnded p k).modify p fun pr => (pr.unblock s.sigHandled).popSignal) :=
    Same.modify _ p rfl
  refine ⟨hrun.1.same hs fun t ht => ?_, ?_⟩
  · rw [Kernel.modify_proc_self] at ht
    exact .inl (List.mem_of_mem_tail ht)
  · rw [family_same hs]; exact hrun.2

/-- The reply slot is handed out. -/
theorem takeReply_family (p : Nat) (k : Kernel) :
    family p (takeReply p k).2 = { family p k with waitingReturn := 0 } := by
  unfold takeReply family
  dsimp only
  rw [Kernel.modify_proc_self]
  congr 1 <;> funext q <;> rw [Kernel.modify_proc] <;> split
  · rename_i hq; subst hq; rfl
  · rfl
  · rename_i hq; subst hq; rfl
  · rfl

theorem ParentOk.modify {p : Nat} {k : Kernel} (hp : ParentOk p k) {f : Process → Process}
    (hst : (f (k.proc p)).state ≠ .ZOMBIE) (hsig : ∀ pr, (f pr).signal = pr.signal)
    (htree : ∀ pr, (f pr).tree = pr.tree) : ParentOk p (k.modify p f) := by
  have ht : Same Process.tree k (k.modify p f) := Same.modify k p (htree _)
  refine ⟨?_, ?_, ?_, fun c hc => ?_⟩
  · rw [Kernel.modify_proc_self]; exact hst
  · rw [Kernel.modify_proc_self, hsig]; exact hp.handler
  · rw [Kernel.modify_proc_self, hsig]; exact hp.queue
  · rw [ht.children] at hc
    rw [ht.father, ht.children]
    exact hp.kid c hc

theorem ParentOk.takeReply {p : Nat} {k : Kernel} (hp : ParentOk p k) :
    ParentOk p (takeReply p k).2 :=
  hp.modify (f := fun pr => { pr with waitingReturn := 0 }) hp.alive (fun _ => rfl) fun _ => rfl

/-! ## `process_waitpid` -/

/-- What the parent learns from a call. -/
def Books.report (B : Books) (r : WaitResult) : Books :=
  match r.wstatus with
  | some v => { B with reported := (r.ret, v) :: B.reported }
  | none => B

/-- The call loses no reply: the slot is empty, or the call takes the reply that is in it, or it
neither reaps nor blocks. -/
def KeepsReply (k : Kernel) (p : Nat) (pid : Int) (option : Nat) : Prop :=
  (k.proc p).waitingReturn ≠ 0 → pid ≠ -1 → pid ≠ (k.proc p).waitingPid →
    ∀ c, waitCandidate k p pid = some c → (k.proc c).state ≠ .ZOMBIE ∧ option &&& WNOHANG ≠ 0

/-- A call of `process_waitpid` that loses no reply is a move of the family. -/
theorem processWaitpid_step {p option : Nat} {pid : Int} {k : Kernel} {B : Books}
    (hp : ParentOk p k) (hok : Family.Ok (family p k) B) (hguard : KeepsReply k p pid option) :
    ParentOk p (processWaitpid p pid option k).2 ∧
      Family.Step (family p k) B (family p (processWaitpid p pid option k).2)
        (B.report (processWaitpid p pid option k).1) := by
  have hblock : (k.proc p).waitingReturn = 0 →
      ParentOk p (k.modify p fun pr => { pr with state := .STOPPED, waitingPid := pid }) ∧
        Family.Step (family p k) B
          (family p (k.modify p fun pr => { pr with state := .STOPPED, waitingPid := pid })) B := by
    intro hslot
    refine ⟨hp.modify (fun h => by cases h) (fun _ => rfl) fun _ => rfl, ?_⟩
    have hfam : family p (k.modify p fun pr => { pr with state := .STOPPED, waitingPid := pid }) =
        { family p k with waitingPid := pid } := by
      unfold family
      rw [Kernel.modify_proc_self]
      congr 1 <;> funext q <;> rw [Kernel.modify_proc] <;> split
      · rename_i hq; subst hq; rfl
      · rfl
      · rename_i hq; subst hq
        exact (if_neg fun h => by cases h).trans (if_neg hp.alive).symm
      · rfl
    rw [hfam]
    exact .block hslot
  unfold processWaitpid
  dsimp only
  split
  · exact ⟨hp, .idle⟩
  split
  · -- the slot answers the call
    rename_i hreply
    refine ⟨hp.takeReply, ?_⟩
    rw [takeReply_family]
    exact .reply hreply.2
  rename_i hreply
  split
  · rename_i c hc
    have hmem : c ∈ (k.proc p).children := List.mem_of_find?_eq_some hc
    split
    · rename_i hz
      have hslot : (k.proc p).waitingReturn = 0 := by
        by_contra hslot
        have h1 : pid ≠ -1 := fun h => hreply ⟨.inr h, hslot⟩
        have h2 : pid ≠ (k.proc p).waitingPid := fun h => hreply ⟨.inl h.symm, hslot⟩
        exact (hguard hslot h1 h2 c hc).1 hz
      obtain ⟨hp', hfam⟩ := endOfChild_family hp hok.nodup hmem
      refine ⟨hp'.takeReply, ?_⟩
      have hrep : B.report (takeReply p (endOfChild c p k)).1 =
          { B with reported := ((k.proc c).pid, (k.proc c).endValue) :: B.reported } := by
        have hwp : ((endOfChild c p k).proc p).waitingPid = (k.proc c).pid :=
          congrArg Family.waitingPid hfam
        have hwr : ((endOfChild c p k).proc p).waitingReturn = (k.proc c).endValue :=
          congrArg Family.waitingReturn hfam
        unfold takeReply Books.report
        rw [hwp, hwr]
      rw [takeReply_family, hfam, hrep]
      exact .report hmem (if_pos hz) hslot
    · rename_i hz
      split
      · rename_i hhang
        refine hblock ?_
        by_contra hslot
        have h1 : pid ≠ -1 := fun h => hreply ⟨.inr h, hslot⟩
        have h2 : pid ≠ (k.proc p).waitingPid := fun h => hreply ⟨.inl h.symm, hslot⟩
        exact (hguard hslot h1 h2 c hc).2 hhang
      · exact ⟨hp, .idle⟩
  · rename_i hpid _ _
    split
    · rename_i hany
      split
      · exact ⟨hp, .idle⟩
      · refine hblock ?_
        by_contra hslot
        have h1 : pid = -1 := by
          rw [not_or] at hpid
          have := hany.1
          omega
        exact hreply ⟨.inr h1, hslot⟩
    · exact ⟨hp, .idle⟩

/-- `-ECHILD` for any child means that no child is left and the slot is empty. -/
theorem processWaitpid_echild {p option : Nat} {k : Kernel} {B : Books} (hp : ParentOk p k)
    (hok : Family.Ok (family p k) B) (h : (processWaitpid p (-1) option k).1.ret = -ECHILD) :
    (k.proc p).children = [] ∧ (k.proc p).waitingReturn = 0 := by
  have hblock : ¬ -EWOULDBLOCK = -ECHILD := by decide
  have hzero : ¬ 0 = -ECHILD := by decide
  unfold processWaitpid at h
  dsimp only at h
  rw [if_neg (by decide)] at h
  split at h
  · rename_i hreply
    have hpos : 0 < (k.proc p).waitingPid := (hok.slot hreply.2).2.2.1
    have : (k.proc p).waitingPid = -ECHILD := h
    unfold ECHILD at this
    omega
  rename_i hreply
  have hslot : (k.proc p).waitingReturn = 0 := by
    by_contra hne
    exact hreply ⟨.inr rfl, hne⟩
  split at h
  · rename_i c hc
    have hmem : c ∈ (k.proc p).children := List.mem_of_find?_eq_some hc
    split at h
    · have hpos : 0 < (k.proc c).pid := hok.pidPos c hmem
      have hret : (k.proc c).pid = -ECHILD := by
        rw [← h]
        exact (congrArg Family.waitingPid (endOfChild_family hp hok.nodup hmem).2).symm
      unfold ECHILD at hret
      omega
    · split at h
      · exact absurd h hblock
      · exact absurd h hzero
  · split at h
    · split at h
      · exact absurd h hzero
      · exact absurd h hblock
    · rename_i hnone
      refine ⟨?_, hslot⟩
      by_contra hne
      exact hnone ⟨by decide, hne⟩

/-! ## Runs -/

/-- The kernel, and what has been exited and reported so far. -/
structure WaitState where
  kernel : Kernel
  books : Books

/-- What happens to the parent and its children. -/
inductive WaitOp where
  | exit (c status : Nat)
  | deliver
  | wait (pid : Int) (option : Nat)

/-- One step of the parent `p` or of one of its living children. -/
def waitStep (L : Layout) (p : Nat) (s : WaitState) : WaitOp → WaitState → Prop
  | .exit c status, t =>
    c ∈ (s.kernel.proc p).children ∧ (s.kernel.proc c).state ≠ .ZOMBIE ∧
      t.kernel = Moonlight.exit L c status s.kernel ∧
      t.books = { s.books with
        exited := ((t.kernel.proc c).pid, (t.kernel.proc c).endValue) :: s.books.exited }
  | .deliver, t => sendSignal L p s.kernel = some t.kernel ∧ t.books = s.books
  | .wait pid option, t =>
    t.kernel = (processWaitpid p pid option s.kernel).2 ∧
      t.books = s.books.report (processWaitpid p pid option s.kernel).1

/-- The step loses no reply: a delivered signal reaps no child with the value `0`, and a call of
`process_waitpid` overwrites no reply. -/
def NoLostReply (p : Nat) (k : Kernel) : WaitOp → Prop
  | .exit _ _ => True
  | .deliver => ∀ c, freed k (.sendSignal p) = some c → (k.proc c).endValue ≠ 0
  | .wait pid option => KeepsReply k p pid option

/-- The kernel before the first exit: living children with pids of their own, and no reply. -/
structure WaitStart (p : Nat) (k : Kernel) : Prop where
  parent : ParentOk p k
  nodup : (k.proc p).children.Nodup
  pidPos : ∀ c ∈ (k.proc p).children, 0 < (k.proc c).pid
  pidInj : ∀ c ∈ (k.proc p).children, ∀ d ∈ (k.proc p).children,
    (k.proc c).pid = (k.proc d).pid → c = d
  living : ∀ c ∈ (k.proc p).children, (k.proc c).state ≠ .ZOMBIE
  noReply : (k.proc p).waitingReturn = 0

/-- **Every exit is reported exactly once**: no pid is reported twice, what is reported is the pid
and the value of a child that has exited, and `process_waitpid` on any child says that there is
none only when every exit has been reported. -/
structure ReportedOnce (p : Nat) (s : WaitState) : Prop where
  once : (s.books.reported.map Prod.fst).Nodup
  sound : ∀ r ∈ s.books.reported, r ∈ s.books.exited
  complete : ∀ option, (processWaitpid p (-1) option s.kernel).1.ret = -ECHILD →
    ∀ e ∈ s.books.exited, e ∈ s.books.reported

/-- The kernel side and the books. -/
def WaitInv (p : Nat) (s : WaitState) : Prop :=
  ParentOk p s.kernel ∧ Family.Ok (family p s.kernel) s.books

/-- **Simulation**: a step of the kernel that loses no reply is a move of the family. -/
theorem waitStep_simulates {L : Layout} {p : Nat} {s t : WaitState} {op : WaitOp}
    (hs : WaitInv p s) (h : waitStep L p s op t) (hguard : NoLostReply p s.kernel op) :
    ParentOk p t.kernel ∧
      Family.Step (family p s.kernel) s.books (family p t.kernel) t.books := by
  obtain ⟨hp, hok⟩ := hs
  cases op with
  | exit c status =>
    obtain ⟨hc, hz, hk, hb⟩ := h
    rw [hb, hk]
    exact exit_step hp hc hz
  | deliver =>
    obtain ⟨hk, hb⟩ := h
    rw [hb]
    exact sendSignal_step hp hok hk hguard
  | wait pid option =>
    obtain ⟨hk, hb⟩ := h
    rw [hb, hk]
    exact processWaitpid_step hp hok hguard

theorem WaitStart.inv {p : Nat} {k : Kernel} (h : WaitStart p k) : WaitInv p ⟨k, ⟨[], []⟩⟩ := by
  refine ⟨h.parent, h.nodup, h.pidPos, h.pidInj, by simp, fun c hc v hv => ?_,
    fun hr => absurd h.noReply hr, List.nodup_nil, by simp, by simp⟩
  have hnone : (family p k).value c = none := if_neg (h.living c hc)
  cases hnone.symm.trans hv

theorem WaitInv.reportedOnce {p : Nat} {s : WaitState} (hs : WaitInv p s) : ReportedOnce p s := by
  obtain ⟨hp, hok⟩ := hs
  refine ⟨hok.once, hok.sound, fun option h e he => ?_⟩
  obtain ⟨hkids, hslot⟩ := processWaitpid_echild hp hok h
  rcases hok.complete e he with hr | ⟨c, hc, -⟩ | ⟨hne, -⟩
  · exact hr
  · rw [family, hkids] at hc; cases hc
  · exact absurd hslot hne

/-- **Child exits are reported exactly once** in every run of exits, deliveries and waits in which
no reply is lost. -/
theorem exits_reported_once (L : Layout) (p : Nat) (k : Kernel) (s : WaitState) (ops : List WaitOp)
    (hstart : WaitStart p k)
    (h : Run (fun s op t => waitStep L p s op t ∧ NoLostReply p s.kernel op)
      ⟨k, ⟨[], []⟩⟩ ops s) : ReportedOnce p s := by
  refine (h.invariant (WaitInv p) (fun s op t hs hstep => ?_) hstart.inv).reportedOnce
  obtain ⟨hp, hmove⟩ := waitStep_simulates hs hstep.1 hstep.2
  exact ⟨hp, hs.2.step hmove⟩

theorem family_waitStart : WaitStart 100 .family := by
  have hkids : (Kernel.family.proc 100).children = [103] := by decide +kernel
  refine ⟨⟨by decide +kernel, ?_, ?_, ?_⟩, ?_, ?_, ?_, ?_, by decide +kernel⟩
  · decide +kernel
  · decide +kernel
  · rw [hkids]; decide +kernel
  · rw [hkids]; decide
  · rw [hkids]; decide +kernel
  · rw [hkids]; decide +kernel
  · rw [hkids]; decide +kernel

/-- `init` waits for any child, the child exits with `status`, and the signal is delivered. -/
def Kernel.awaited (status : Nat) : Kernel :=
  (sendSignal .sample 100
    (exit .sample 103 status (processWaitpid 100 (-1) 0 .family).2)).getD .family

theorem awaited_eq {status : Nat} (h : (sendSignal .sample 100
    (exit .sample 103 status (processWaitpid 100 (-1) 0 .family).2)).isSome) :
    sendSignal .sample 100 (exit .sample 103 status (processWaitpid 100 (-1) 0 .family).2) =
      some (.awaited status) :=
  (Option.eq_some_of_isSome h).trans (congrArg some (Option.get_eq_getD _))

/-- A child that exits with status 3 is reported by the next call. -/
theorem nonzero_exit_reported : ReportedOnce 100
    ⟨(processWaitpid 100 (-1) 0 (.awaited 3)).2, ⟨[(2, 0x300)], [(2, 0x300)]⟩⟩ := by
  refine exits_reported_once .sample 100 .family _
    [.wait (-1) 0, .exit 103 3, .deliver, .wait (-1) 0] family_waitStart ?_
  refine .cons (t := ⟨(processWaitpid 100 (-1) 0 .family).2, ⟨[], []⟩⟩)
    ⟨⟨rfl, by decide +kernel⟩, fun h => absurd (by decide +kernel) h⟩ ?_
  refine .cons (t := ⟨exit .sample 103 3 (processWaitpid 100 (-1) 0 .family).2, ⟨[(2, 0x300)], []⟩⟩)
    ⟨⟨by decide +kernel, by decide +kernel, rfl, by decide +kernel⟩, trivial⟩ ?_
  refine .cons (t := ⟨.awaited 3, ⟨[(2, 0x300)], []⟩⟩)
    ⟨⟨awaited_eq (by decide +kernel), rfl⟩, fun c hc => ?_⟩ ?_
  · have hfreed : freed (exit .sample 103 3 (processWaitpid 100 (-1) 0 .family).2)
        (.sendSignal 100) = some 103 := by decide +kernel
    rw [← Option.some.inj (hfreed.symm.trans hc)]
    decide +kernel
  · exact .single ⟨⟨rfl, by decide +kernel⟩, fun _ h => absurd rfl h⟩

/-- A child that exits with status 0 is reaped by `child_ended`, and the parent is told that it
has no child. -/
theorem zero_exit_lost : WaitStart 100 .family ∧
    Run (waitStep .sample 100) ⟨.family, ⟨[], []⟩⟩ [.wait (-1) 0, .exit 103 0, .deliver]
      ⟨.awaited 0, ⟨[(2, 0)], []⟩⟩ ∧
    ¬ ReportedOnce 100 ⟨.awaited 0, ⟨[(2, 0)], []⟩⟩ := by
  refine ⟨family_waitStart, ?_, fun h => ?_⟩
  · refine .cons (t := ⟨(processWaitpid 100 (-1) 0 .family).2, ⟨[], []⟩⟩)
      ⟨rfl, by decide +kernel⟩ ?_
    refine .cons (t := ⟨exit .sample 103 0 (processWaitpid 100 (-1) 0 .family).2, ⟨[(2, 0)], []⟩⟩)
      ⟨by decide +kernel, by decide +kernel, rfl, by decide +kernel⟩ ?_
    exact .single ⟨awaited_eq (by decide +kernel), rfl⟩
  · have hlost := h.complete 0 (by decide +kernel) (2, 0) List.mem_cons_self
    cases hlost

end Moonlight
