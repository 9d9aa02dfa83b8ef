import MoonlightKernel.Process.Delivery
import MoonlightKernel.Process.Fork
import MoonlightKernel.Process.Kill

/-!
# The signals that a child inherits

`copy_process` queues the entries of the parent for the child with `add_signal`, in the order in
which they wait.  So every hard one goes in front of those before it, and a soft one is dropped
when an entry that has been copied has set its bit.

* `Process.receive` — one round of the loop, `copyProcess_signals` — what becomes of the child;
* `QueueBuilt` — a queue that `add_signal` and `send_signal` have made, `QueueBuilt.parts` — it
  consists of hard entries and then soft ones;
* `receive_hards`, `receive_softs` — the copies of the two parts;
* `fork_signals_iff` — when the child has the signals of its parent.
-/

set_option autoImplicit false

namespace Moonlight

open Sys

/-! ## One round of the loop -/

/-- What a round of the loop does to the child. -/
def Process.receive (pr : Process) (s : SigQueue) : Process :=
  if s.state &&& SIG_HARD = 0 ∧ SIG_UNAVAILABLE pr.signal.sigAvalaible s.sigHandled then pr
  else pr.queueSignal s.sigHandled s.state

/-- An entry that `add_signal` can have made. -/
structure SigQueue.Valid (s : SigQueue) : Prop where
  number : 1 ≤ s.sigHandled ∧ s.sigHandled ≤ 34
  kind : ¬ ((s.state &&& SIG_HARD ≠ 0 ∧ s.state &&& SIG_SOFT ≠ 0) ∨
    (s.state &&& SIG_HARD = 0 ∧ s.state &&& SIG_SOFT = 0))
  waits : s.state ||| SIG_NOT_EXECUTING = s.state

section round

variable {new : Nat} {k : Kernel} {s : SigQueue} {pr pr' : Process}

theorem addSignal_receive (hs : s.Valid) (hmem : k.HasMemory) (hlive : (k.proc new).state ≠ .ZOMBIE) :
    (addSignal s.sigHandled (some new) s.state k).2.proc new = (k.proc new).receive s := by
  have hnum := hs.number
  have h0 : (s.sigHandled : Int) ≠ 0 := by omega
  have hrange : ¬ ((s.sigHandled : Int) < 0 ∨ (s.sigHandled : Int) > 34) := by omega
  obtain ⟨a, ha⟩ := Option.ne_none_iff_exists'.mp (hmem 0)
  have hk : k.kmalloc = (some a, k.kmalloc.2) := by rw [← ha]; rfl
  unfold Process.receive
  rw [addSignal_tested h0 hs.kind hlive hrange, Int.toNat_natCast]
  split
  · rfl
  · rw [hk]
    dsimp only
    rw [Kernel.modify_proc_self, Kernel.kmalloc_proc]

/-- The entries of a queue are copied one by one. -/
theorem copySignals_receive {queue : List SigQueue} (hq : ∀ s ∈ queue, s.Valid) (hmem : k.HasMemory)
    (hlive : (k.proc new).state ≠ .ZOMBIE) :
    (queue.foldl (fun k s => (addSignal s.sigHandled (some new) s.state k).2) k).proc new =
      queue.foldl Process.receive (k.proc new) := by
  induction queue generalizing k with
  | nil => rfl
  | cons s queue ih =>
    have hstate := (addSignal_same (v := Process.state) (fun _ _ _ => rfl) s.sigHandled (some new)
      s.state k).proc new
    rw [List.foldl_cons, List.foldl_cons, ih (fun t ht => hq t (List.mem_cons_of_mem s ht))
      (hmem.addSignal _ _ _) (by rwa [hstate]), addSignal_receive (hq s List.mem_cons_self) hmem hlive]

theorem copySignals_proc_of_ne {p : Nat} (hne : p ≠ new) (queue : List SigQueue) :
    (queue.foldl (fun k s => (addSignal s.sigHandled (some new) s.state k).2) k).proc p =
      k.proc p := by
  induction queue generalizing k with
  | nil => rfl
  | cons s queue ih => rw [List.foldl_cons, ih, addSignal_proc_of_ne hne]

/-- Only the signals matter. -/
theorem receives_congr (queue : List SigQueue) (h : pr'.signal = pr.signal) :
    (queue.foldl Process.receive pr').signal = (queue.foldl Process.receive pr).signal := by
  induction queue generalizing pr pr' with
  | nil => exact h
  | cons s queue ih =>
    refine ih ?_
    unfold Process.receive
    rw [h]
    split
    · exact h
    · unfold Process.queueSignal
      rw [h]

end round

/-! ## `copy_process` -/

section copy

variable {L : Layout} {swap swap2 p new : Nat} {k : Kernel}

theorem copyMaps_hasMemory (L : Layout) (swap swap2 : Nat) (maps copied : List MapMemory)
    (hmem : k.HasMemory) :
    (copyMaps L swap swap2 maps copied k).2.2.HasMemory := by
  induction maps generalizing copied k with
  | nil => exact hmem
  | cons pm maps ih =>
    have hrest : k.kmalloc.2.HasMemory := fun i => hmem (i + 1)
    unfold copyMaps
    split
    · rename_i hm
      rw [(Kernel.kmalloc_eq hm).2]
      exact hrest
    · rename_i hm
      rw [(Kernel.kmalloc_eq hm).2]
      dsimp only
      split
      · exact hrest
      · exact ih _ hrest

theorem copyMemory_hasMemory (L : Layout) (swap swap2 p new : Nat) (hmem : k.HasMemory) :
    (copyMemory L swap swap2 p new k).2.HasMemory := by
  unfold copyMemory
  dsimp only
  have hheap := copyMaps_hasMemory L swap swap2 (k.proc p).mmHeap [] hmem
  generalize copyMaps L swap swap2 (k.proc p).mmHeap [] k = r at hheap
  split
  · exact hheap
  generalize hk₁ : r.2.2.modify new (fun pr => { pr with mmHeap := r.2.1 }) = k₁
  have hmem₁ : k₁.HasMemory := by rw [← hk₁]; exact hheap
  have hstack := copyMaps_hasMemory L swap swap2 (k₁.proc p).mmStack []
    hmem₁
  generalize copyMaps L swap swap2 (k₁.proc p).mmStack [] k₁ = r at hstack
  split
  · exact hstack
  split
  · exact hstack
  · exact hstack

/-- **What `copy_process` does to the signals**: the child receives those of its parent. -/
theorem copyProcess_signals (hne : p ≠ new) (hnew : k.proc new = Process.zero) (hmem : k.HasMemory)
    (hvalid : ∀ s ∈ (k.proc p).signal.sigQueue, s.Valid)
    (h : ¬ (copyProcess L swap swap2 p new k).1 < 0) :
    ((copyProcess L swap swap2 p new k).2.proc new).signal =
        ((k.proc p).signal.sigQueue.foldl Process.receive Process.zero).signal ∧
      ((copyProcess L swap swap2 p new k).2.proc p).signal = (k.proc p).signal := by
  obtain ⟨k₁, k₂, k₃, -, hk₁, -, hk₂, hk₃, hr⟩ := copyProcess_ok h
  have hview : Same (fun pr => (pr.state, pr.signal)) k k₂ := by
    rw [← hk₂, ← hk₁]
    exact (processAllocPid_same (fun _ _ => rfl) new k).trans
      (copyMemory_same (fun _ _ => rfl) (fun _ _ => rfl) (fun _ _ => rfl) L swap swap2 p new _)
  have hmem₂ : k₂.HasMemory := by
    rw [← hk₂]
    exact copyMemory_hasMemory L swap swap2 p new (by rw [← hk₁]; exact hmem)
  have hsig : ∀ q, (k₂.proc q).signal = (k.proc q).signal := fun q => congrArg Prod.snd (hview.proc q)
  have hlive : (k₂.proc new).state ≠ .ZOMBIE := by
    have hstate : (k₂.proc new).state = (k.proc new).state := congrArg Prod.fst (hview.proc new)
    rw [hstate, hnew]
    decide
  rw [hsig] at hk₃
  have hcopied := copySignals_receive hvalid hmem₂ hlive
  have hkept := copySignals_proc_of_ne (k := k₂) hne (k.proc p).signal.sigQueue
  rw [hk₃] at hcopied hkept
  have hlink : ∀ q, ((linkChild p new k₃.kmalloc.2).proc q).signal = (k₃.proc q).signal := fun q =>
    linkChild_view (v := Process.signal) (fun _ _ _ _ => rfl) (fun _ _ => rfl) p new q _
  rw [hr]
  refine ⟨?_, ?_⟩
  · rw [hlink, hcopied]
    exact receives_congr _ (by rw [hsig, hnew])
  · rw [hlink, hkept, hsig]

end copy

/-! ## Queues that have been built -/

/-- A queue that a sequence of `add_signal` and `send_signal` has made of an empty one, for a process
that has survived it. -/
def QueueBuilt (queue : List SigQueue) : Prop :=
  ∃ (L : Layout) (q : Nat) (k : Kernel) (ops : List SignalOp) (s : Watched),
    (k.proc q).state ≠ .ZOMBIE ∧ (k.proc q).signal.sigQueue = [] ∧
      Run (watchAlive L q) ⟨k, .empty⟩ ops s ∧ (s.kernel.proc q).signal.sigQueue = queue

/-- `add_signal` queues valid entries only. -/
theorem addSignal_valid {sig : Int} {p type : Nat} {k : Kernel}
    (h : ∀ s ∈ (k.proc p).signal.sigQueue, s.Valid) :
    ∀ s ∈ ((addSignal sig (some p) type k).2.proc p).signal.sigQueue, s.Valid := by
  rcases addSignal_cases sig p type k with he | ⟨h0, htype, -, hrange, -, he | he⟩
  · rw [he]
    exact h
  · rw [he]
    exact h
  have hnew : SigQueue.Valid ⟨sig.toNat, type ||| SIG_NOT_EXECUTING⟩ := by
    have hand (b : Nat) (hb : SIG_NOT_EXECUTING &&& b = 0) :
        (type ||| SIG_NOT_EXECUTING) &&& b = type &&& b := by
      rw [Nat.and_or_distrib_right, hb, Nat.or_zero]
    refine ⟨⟨by dsimp only; omega, by dsimp only; omega⟩, ?_, ?_⟩
    · dsimp only
      rw [hand SIG_HARD rfl, hand SIG_SOFT rfl]
      exact htype
    · dsimp only
      rw [Nat.or_assoc, Nat.or_self]
  rw [he, Kernel.modify_proc_self, queueSignal_sigQueue, Kernel.kmalloc_proc]
  intro s hs
  unfold TwoEnded.put at hs
  split at hs
  · exact (List.mem_cons.mp hs).elim (fun he => he ▸ hnew) (h s)
  · exact (List.mem_append.mp hs).elim (h s) fun he => List.mem_singleton.mp he ▸ hnew

/-- **A built queue** consists of hard entries and then soft ones, all of them valid. -/
theorem QueueBuilt.parts {queue : List SigQueue} (h : QueueBuilt queue) :
    (∃ hs ss, queue = hs ++ ss ∧ (∀ s ∈ hs, s.Hard) ∧ ∀ s ∈ ss, ¬ s.Hard) ∧
      ∀ s ∈ queue, s.Valid := by
  obtain ⟨L, q, k, ops, s, hlive, hempty, hrun, rfl⟩ := h
  have hstep : ∀ (s : Watched) (op : SignalOp) (t : Watched),
      (WatchInv q s ∧ ∀ e ∈ (s.kernel.proc q).signal.sigQueue, e.Valid) → watchAlive L q s op t →
        (WatchInv q t ∧ ∀ e ∈ (t.kernel.proc q).signal.sigQueue, e.Valid) := by
    rintro s op t ⟨hinv, hvalid⟩ hst
    refine ⟨watchStep_inv s op t hinv hst, ?_⟩
    obtain ⟨hst, halive⟩ := hst
    cases op with
    | kill proc pid sig => exact absurd hst id
    | addSignal sig to' type =>
      rw [hst.2.1]
      exact addSignal_valid hvalid
    | sendSignal to' =>
      rw [sendSignal_sigQueue hinv.alive hinv.waits hst.2.1 halive]
      exact fun e he => hvalid e (List.mem_of_mem_tail he)
  have hstart : WatchInv q ⟨k, .empty⟩ ∧ ∀ e ∈ (k.proc q).signal.sigQueue, e.Valid := by
    rw [hempty]
    refine ⟨⟨hlive, ?_, fun e he => ?_⟩, fun e he => ?_⟩
    · rw [hempty]
      exact .empty _
    · rw [hempty] at he
      cases he
    · cases he
  obtain ⟨hinv, hvalid⟩ := hrun.invariant _ hstep hstart
  exact ⟨hinv.parts.split, hvalid⟩

/-! ## The copies of the two parts -/

/-- The bit of `t` is set by an entry `e`. -/
def SigQueue.Blocks (e t : SigQueue) : Prop :=
  ¬ t.Hard ∧ SIG_UNAVAILABLE (blockedMask e.sigHandled) t.sigHandled = true

instance (e t : SigQueue) : Decidable (e.Blocks t) := inferInstanceAs (Decidable (_ ∧ _))

section parts

variable {hs ss : List SigQueue}

/-- **Hard entries are copied in reverse.** -/
theorem receive_hards (pr : Process) (hhard : ∀ s ∈ hs, s.Hard) (hvalid : ∀ s ∈ hs, s.Valid) :
    (hs.foldl Process.receive pr).signal.sigQueue = hs.reverse ++ pr.signal.sigQueue ∧
      ∀ t, SIG_UNAVAILABLE (hs.foldl Process.receive pr).signal.sigAvalaible t = true ↔
        SIG_UNAVAILABLE pr.signal.sigAvalaible t = true ∨
          ∃ e ∈ hs, SIG_UNAVAILABLE (blockedMask e.sigHandled) t = true := by
  induction hs generalizing pr with
  | nil => exact ⟨rfl, fun t => by simp⟩
  | cons s hs ih =>
    have hs0 : s.state &&& SIG_HARD ≠ 0 := hhard s List.mem_cons_self
    have hone : pr.receive s = pr.queueSignal s.sigHandled s.state := if_neg fun h => hs0 h.1
    obtain ⟨hqueue, hmask⟩ := ih (pr.receive s) (fun t ht => hhard t (List.mem_cons_of_mem s ht))
      fun t ht => hvalid t (List.mem_cons_of_mem s ht)
    rw [List.foldl_cons]
    refine ⟨?_, fun t => ?_⟩
    · have hput : (pr.queueSignal s.sigHandled s.state).signal.sigQueue = s :: pr.signal.sigQueue := by
        unfold Process.queueSignal
        dsimp only
        rw [if_pos hs0, (hvalid s List.mem_cons_self).waits]
      rw [hqueue, hone, hput, List.reverse_cons, List.append_assoc]
      rfl
    · have hset : (pr.queueSignal s.sigHandled s.state).signal.sigAvalaible =
          pr.signal.sigAvalaible ||| blockedMask s.sigHandled := rfl
      rw [hmask, hone, hset, unavailable_or, or_assoc]
      simp only [List.mem_cons, or_and_right, exists_or, exists_eq_left]

/-- **Soft entries are copied in order**, but for those that find their bit set. -/
theorem receive_softs (pr : Process) (hsoft : ∀ s ∈ ss, ¬ s.Hard) (hvalid : ∀ s ∈ ss, s.Valid) :
    ∃ kept, kept.Sublist ss ∧
      (ss.foldl Process.receive pr).signal.sigQueue = pr.signal.sigQueue ++ kept ∧
      (kept = ss ↔ (∀ s ∈ ss, ¬ SIG_UNAVAILABLE pr.signal.sigAvalaible s.sigHandled = true) ∧
        ss.Pairwise fun e s => ¬ e.Blocks s) := by
  induction ss generalizing pr with
  | nil => exact ⟨[], .slnil, (List.append_nil _).symm, by simp⟩
  | cons s ss ih =>
    have hs0 : s.state &&& SIG_HARD = 0 := not_not.mp (hsoft s List.mem_cons_self)
    obtain ⟨kept, hsub, hqueue, hkept⟩ := ih (pr.receive s)
      (fun t ht => hsoft t (List.mem_cons_of_mem s ht)) fun t ht => hvalid t (List.mem_cons_of_mem s ht)
    rw [List.foldl_cons]
    by_cases hblocked : SIG_UNAVAILABLE pr.signal.sigAvalaible s.sigHandled = true
    · -- the entry is dropped
      have hone : pr.receive s = pr := if_pos ⟨hs0, hblocked⟩
      refine ⟨kept, hsub.cons s, by rw [hqueue, hone], iff_of_false (fun he => ?_) fun h => ?_⟩
      · have hle := hsub.length_le
        rw [he, List.length_cons] at hle
        omega
      · exact h.1 s List.mem_cons_self hblocked
    · have hone : pr.receive s = pr.queueSignal s.sigHandled s.state := if_neg fun h => hblocked h.2
      have hput : (pr.queueSignal s.sigHandled s.state).signal.sigQueue =
          pr.signal.sigQueue ++ [s] := by
        unfold Process.queueSignal
        dsimp only
        rw [if_neg (not_not.mpr hs0), (hvalid s List.mem_cons_self).waits]
      have hset : (pr.queueSignal s.sigHandled s.state).signal.sigAvalaible =
          pr.signal.sigAvalaible ||| blockedMask s.sigHandled := rfl
      refine ⟨s :: kept, hsub.cons_cons s, ?_, ?_⟩
      · rw [hqueue, hone, hput, List.append_assoc]
        rfl
      · rw [List.cons_inj_right, hkept, hone, hset, List.forall_mem_cons, List.pairwise_cons,
          and_iff_right hblocked, ← and_assoc, ← forall₂_and]
        refine and_congr_left fun _ => forall₂_congr fun t ht => ?_
        rw [unavailable_or, not_or, SigQueue.Blocks, and_iff_right (hsoft t (List.mem_cons_of_mem s ht))]

end parts

/-! ## The signals of the child -/

/-- What an entry is: its signal, and whether it is hard. -/
def SigQueue.kind (s : SigQueue) : Nat × Bool := (s.sigHandled, decide s.Hard)

/-- The child waits for the signals of its parent, in their order, and the parent for what it
waited for before. -/
def SignalsCopied (k : Kernel) (p : Nat) (k' : Kernel) (new : Nat) : Prop :=
  (k'.proc new).signal.sigQueue.map SigQueue.kind = (k.proc p).signal.sigQueue.map SigQueue.kind ∧
    (k'.proc p).signal.sigQueue = (k.proc p).signal.sigQueue

instance (k : Kernel) (p : Nat) (k' : Kernel) (new : Nat) : Decidable (SignalsCopied k p k' new) :=
  inferInstanceAs (Decidable (_ ∧ _))

/-- **When a child has the signals of its parent**: the hard ones read the same from both ends, and
no soft one waits behind an entry that sets its bit. -/
theorem fork_signals_iff {L : Layout} {swap swap2 p new : Nat} {k : Kernel} (hne : p ≠ new)
    (hnew : k.proc new = Process.zero) (hmem : k.HasMemory)
    (hbuilt : QueueBuilt (k.proc p).signal.sigQueue)
    (h : ¬ (copyProcess L swap swap2 p new k).1 < 0) :
    SignalsCopied k p (copyProcess L swap swap2 p new k).2 new ↔
      (((k.proc p).signal.sigQueue.filter fun s => s.Hard).map SigQueue.kind).reverse =
          ((k.proc p).signal.sigQueue.filter fun s => s.Hard).map SigQueue.kind ∧
        (k.proc p).signal.sigQueue.Pairwise fun e s => ¬ e.Blocks s := by
  obtain ⟨⟨hs, ss, hq, hhard, hsoft⟩, hvalid⟩ := hbuilt.parts
  obtain ⟨hchild, hparent⟩ := copyProcess_signals hne hnew hmem hvalid h
  unfold SignalsCopied
  rw [hchild, hparent, and_iff_left rfl]
  rw [hq] at hvalid ⊢
  have hvalidH : ∀ s ∈ hs, s.Valid := fun s h => hvalid s (List.mem_append_left _ h)
  have hvalidS : ∀ s ∈ ss, s.Valid := fun s h => hvalid s (List.mem_append_right _ h)
  obtain ⟨hqueue₁, hmask⟩ := receive_hards Process.zero hhard hvalidH
  obtain ⟨kept, hsub, hqueue, hkept⟩ := receive_softs (hs.foldl Process.receive Process.zero)
    hsoft hvalidS
  have hfilter : (hs ++ ss).filter (fun s => s.Hard) = hs := by
    rw [List.filter_append, List.filter_eq_self.mpr (by simpa using hhard),
      List.filter_eq_nil_iff.mpr (by simpa using hsoft), List.append_nil]
  -- a dropped entry shows in the length
  have hlength : (hs.reverse ++ kept).map SigQueue.kind = (hs ++ ss).map SigQueue.kind ↔
      (hs.map SigQueue.kind).reverse = hs.map SigQueue.kind ∧ kept = ss := by
    rw [List.map_append, List.map_append, ← List.map_reverse]
    constructor
    · intro he
      obtain ⟨h₁, h₂⟩ := List.append_inj he (by simp)
      refine ⟨h₁, hsub.eq_of_length ?_⟩
      have hlen := congrArg List.length h₂
      rwa [List.length_map, List.length_map] at hlen
    · rintro ⟨h₁, rfl⟩
      rw [h₁]
  have hzero : Process.zero.signal.sigQueue = [] := rfl
  have hclear : ∀ t, ¬ SIG_UNAVAILABLE Process.zero.signal.sigAvalaible t = true := fun t => by
    simp [SIG_UNAVAILABLE, Process.zero]
  rw [List.foldl_append, hqueue, hqueue₁, hzero, List.append_nil, hlength, hkept, hfilter]
  refine and_congr_right fun _ => ?_
  rw [List.pairwise_append]
  have hpair : hs.Pairwise fun e s => ¬ e.Blocks s :=
    List.pairwise_iff_forall_sublist.mpr fun hsub hb => hb.1 (hhard _ (hsub.subset (by simp)))
  rw [and_iff_right hpair, and_comm]
  refine and_congr_right fun _ => ?_
  constructor
  · intro hfree e he s hs' hblocks
    exact hfree s hs' ((hmask _).mpr (.inr ⟨e, he, hblocks.2⟩))
  · intro hfree s hs' hbit
    rcases (hmask _).mp hbit with hz | ⟨e, he, hbit⟩
    · exact hclear _ hz
    · exact hfree e he s hs' ⟨hsoft s hs', hbit⟩

/-- The process at 1 with a hard signal 20 and another signal 21, about to fork. -/
def Kernel.forking (type : Nat) : Kernel :=
  (addSignal 21 (some 1) type (addSignal 20 (some 1) SIG_HARD .solo).2).2.kmalloc.2.modify 102
    fun _ => Process.zero

theorem forking_hasMemory (type : Nat) : (Kernel.forking type).HasMemory := by
  have hsolo : Kernel.solo.HasMemory := fun i => Option.some_ne_none (100 + i)
  have hmem := (hsolo.addSignal 20 (some 1) SIG_HARD).addSignal 21 (some 1) type
  exact fun i => hmem (i + 1)

theorem forking_built (type : Nat) : QueueBuilt ((Kernel.forking type).proc 1).signal.sigQueue := by
  have hlive : (Kernel.solo.proc 1).state ≠ .ZOMBIE := by decide
  have hlive' : ((addSignal 20 (some 1) SIG_HARD .solo).2.proc 1).state ≠ .ZOMBIE := by
    rw [addSignal_alive]
    exact hlive
  have hproc : (Kernel.forking type).proc 1 =
      (addSignal 21 (some 1) type (addSignal 20 (some 1) SIG_HARD .solo).2).2.proc 1 := by
    unfold Kernel.forking
    rw [Kernel.modify_proc_of_ne _ (by decide), Kernel.kmalloc_proc]
  rw [hproc]
  refine ⟨.sample, 1, .solo, _, _, hlive, rfl, .cons (watchAlive_add (s := ⟨.solo, .empty⟩) .sample 20
    SIG_HARD hlive) (.single (watchAlive_add .sample 21 type hlive')), rfl⟩

/-- A hard and a soft signal are inherited. -/
theorem hard_and_soft_inherited : SignalsCopied (.forking SIG_SOFT) 1
    (copyProcess .sample 0xBFFFE100 0xBFFFD100 1 102 (.forking SIG_SOFT)).2 102 :=
  (fork_signals_iff (by decide) (Kernel.modify_proc_self ..) (forking_hasMemory _)
    (forking_built SIG_SOFT) (by decide +kernel)).mpr
    ⟨by decide +kernel, by decide +kernel⟩

/-- Two hard signals are inherited in the other order. -/
theorem hard_signals_reversed :
    QueueBuilt ((Kernel.forking SIG_HARD).proc 1).signal.sigQueue ∧
      (copyProcess .sample 0xBFFFE100 0xBFFFD100 1 102 (.forking SIG_HARD)).1 = 0 ∧
      ((Kernel.forking SIG_HARD).proc 1).signal.sigQueue = [⟨21, 10⟩, ⟨20, 10⟩] ∧
      ((copyProcess .sample 0xBFFFE100 0xBFFFD100 1 102 (.forking SIG_HARD)).2.proc
        102).signal.sigQueue = [⟨20, 10⟩, ⟨21, 10⟩] ∧
      ¬ SignalsCopied (.forking SIG_HARD) 1
        (copyProcess .sample 0xBFFFE100 0xBFFFD100 1 102 (.forking SIG_HARD)).2 102 :=
  ⟨forking_built SIG_HARD, by decide +kernel, by decide +kernel,
    by decide +kernel, by decide +kernel⟩

end Moonlight
