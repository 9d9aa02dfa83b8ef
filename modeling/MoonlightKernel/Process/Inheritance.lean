import MoonlightKernel.Ledger
import MoonlightKernel.Process.Blocks
import MoonlightKernel.Process.Fork
import MoonlightKernel.Process.JobControl
import MoonlightKernel.Process.Tree

/-!
# The blocks of an inheritance

A child inherits the pending signals of its father, each with a `struct sig_queue` of its own.

* `Queues` — `add_signal` gets a block for the signal;
* `Keeps` — what `add_signal` leaves as it is;
* `copySignals_blocks` — a child inherits nothing exactly when there is no block for a signal.
-/

set_option autoImplicit false

namespace Moonlight

open Sys Sys.Bitmap

/-! ## The blocks of queued signals -/

/-- `add_signal` has no objection to its arguments. -/
def Accepts (sig : Int) (type : Nat) : Prop :=
  sig ≠ 0 ∧ ¬ ((type &&& SIG_HARD ≠ 0 ∧ type &&& SIG_SOFT ≠ 0) ∨
    (type &&& SIG_HARD = 0 ∧ type &&& SIG_SOFT = 0)) ∧ ¬ (sig < 0 ∨ sig > 34)

instance (sig : Int) (type : Nat) : Decidable (Accepts sig type) :=
  inferInstanceAs (Decidable (_ ∧ _))

/-- `add_signal` gets a `struct sig_queue` for the signal. -/
def Queues (sig : Int) (proc : Option Nat) (type : Nat) (k : Kernel) : Prop :=
  Accepts sig type ∧ (k.kmallocs 0).isSome ∧ ∃ p, proc = some p ∧ (k.proc p).state ≠ .ZOMBIE ∧
    ¬ (type &&& SIG_HARD = 0 ∧ SIG_UNAVAILABLE (k.proc p).signal.sigAvalaible sig.toNat)

namespace Tracked

/-- `add_signal` costs a block when it queues the signal, and nothing else. -/
theorem addSignal_blocks (t : Tracked) (sig : Int) (proc : Option Nat) (type : Nat) :
    (t.addSignal sig proc type).2.recs = t.recs ∧ ∃ n, (t.addSignal sig proc type).2.live = n + t.live ∧
      (n = 0 ↔ ¬ Queues sig proc type t.kernel) := by
  have hnone {r : Int × Tracked} (hr : r.2 = t) (h : ¬ Queues sig proc type t.kernel) :
      r.2.recs = t.recs ∧ ∃ n, r.2.live = n + t.live ∧ (n = 0 ↔ ¬ Queues sig proc type t.kernel) := by
    rw [hr]
    exact ⟨rfl, 0, (zero_add _).symm, iff_of_true rfl h⟩
  unfold addSignal
  split
  · rename_i h0
    exact hnone rfl fun h => h.1.1 h0
  split
  · rename_i htype
    exact hnone rfl fun h => h.1.2.1 htype
  cases proc with
  | none =>
    refine hnone rfl fun h => ?_
    obtain ⟨-, -, p, hp, -⟩ := h
    cases hp
  | some p =>
    dsimp only
    split
    · rename_i hz
      refine hnone rfl fun h => ?_
      obtain ⟨-, -, q, hq, hstate, -⟩ := h
      cases hq
      exact hstate hz
    split
    · rename_i hs
      exact hnone rfl fun h => h.1.2.2 hs
    split
    · rename_i hu
      refine hnone rfl fun h => ?_
      obtain ⟨-, -, q, hq, -, hav⟩ := h
      cases hq
      exact hav hu
    rename_i h0 htype hz hs hu
    rcases t.kmalloc_spec with ⟨hm, he⟩ | ⟨a, hm, he⟩
    · rw [he]
      refine ⟨rfl, 0, (zero_add _).symm, iff_of_true rfl fun h => ?_⟩
      have := h.2.1
      rw [hm] at this
      cases this
    · rw [he]
      refine ⟨rfl, {a}, rfl, iff_of_false (Multiset.singleton_ne_zero a) (not_not_intro ?_)⟩
      exact ⟨⟨h0, htype, hs⟩, by rw [hm]; rfl, p, rfl, hz, hu⟩

end Tracked

/-! ## What `add_signal` leaves as it is -/

/-- The links and the maps of a process. -/
def Process.kin (pr : Process) :
    (Option Nat × List Nat) × List MapMemory × List MapMemory × MapMemory :=
  (pr.tree, pr.memory)

/-- A step that concerns neither the links nor the maps nor the records, and loses the blocks
`n`. -/
structure Keeps (n : Multiset Nat) (t u : Tracked) : Prop where
  same : ∀ q, (u.kernel.proc q).kin = (t.kernel.proc q).kin
  avail : ∀ f, Avail u.kernel.machine f ↔ Avail t.kernel.machine f
  recs : u.recs = t.recs
  live : u.live = n + t.live

namespace Keeps

variable {n m : Multiset Nat} {t u v : Tracked}

theorem refl (t : Tracked) : Keeps 0 t t := ⟨fun _ => rfl, fun _ => Iff.rfl, rfl, (zero_add _).symm⟩

theorem trans (h : Keeps n t u) (h' : Keeps m u v) : Keeps (m + n) t v :=
  ⟨fun q => (h'.same q).trans (h.same q), fun f => (h'.avail f).trans (h.avail f),
    h'.recs.trans h.recs, by rw [h'.live, h.live, add_assoc]⟩

theorem modify (t : Tracked) (p : Nat) {f : Process → Process}
    (h : (f (t.kernel.proc p)).kin = (t.kernel.proc p).kin) : Keeps 0 t (t.modify p f) :=
  ⟨(Same.modify t.kernel p h).proc, fun _ => Iff.rfl, rfl, (zero_add _).symm⟩

end Keeps

theorem addSignal_kin (sig : Int) (proc : Option Nat) (type : Nat) (t : Tracked) :
    ∃ n, Keeps n t (t.addSignal sig proc type).2 ∧ (n = 0 ↔ ¬ Queues sig proc type t.kernel) := by
  have hk := congrArg Prod.snd (t.addSignal_kernel sig proc type)
  dsimp only at hk
  obtain ⟨hrecs, n, hlive, hn⟩ := t.addSignal_blocks sig proc type
  refine ⟨n, ⟨fun q => ?_, fun f => ?_, hrecs, hlive⟩, hn⟩
  · rw [hk]
    exact (addSignal_same (v := Process.kin) (fun _ _ _ => rfl) sig proc type t.kernel).proc q
  · rw [hk, addSignal_machine]

/-! ## The signals that a child inherits -/

namespace Tracked

/-- A signal for a process with no signal pending. -/
theorem addSignal_accepted {t : Tracked} {sig : Int} {p type : Nat} (h : Accepts sig type)
    (hz : (t.kernel.proc p).state ≠ .ZOMBIE) (hav : (t.kernel.proc p).signal.sigAvalaible = 0) :
    t.addSignal sig (some p) type = match t.kmalloc with
      | (none, t) => (-ENOMEM, t)
      | (some _, t) => (0, t.modify p (Process.queueSignal sig.toNat type)) := by
  have hu : SIG_UNAVAILABLE (t.kernel.proc p).signal.sigAvalaible sig.toNat = false := by
    rw [hav]
    unfold SIG_UNAVAILABLE
    rw [Nat.zero_and]
    rfl
  unfold addSignal
  rw [if_neg h.1, if_neg h.2.1]
  dsimp only
  rw [if_neg hz, if_neg h.2.2, hu]
  exact if_neg fun h => Bool.noConfusion h.2

theorem addSignal_rejected {t : Tracked} {sig : Int} {p type : Nat} (h : ¬ Accepts sig type) :
    (t.addSignal sig (some p) type).2 = t := by
  unfold addSignal
  split
  · rfl
  rename_i h0
  split
  · rfl
  rename_i htype
  dsimp only
  split
  · rfl
  rw [if_pos (not_not.mp fun hs => h ⟨h0, htype, hs⟩)]

theorem copySignals_keeps (new : Nat) (queue : List SigQueue) (t : Tracked) :
    ∃ n, Keeps n t (t.copySignals new queue) := by
  unfold copySignals
  induction queue generalizing t with
  | nil => exact ⟨0, Keeps.refl t⟩
  | cons s queue ih =>
    obtain ⟨n, hn, -⟩ := addSignal_kin s.sigHandled (some new) s.state t
    obtain ⟨m, hm⟩ := ih (t.addSignal s.sigHandled (some new) s.state).2
    exact ⟨m + n, hn.trans hm⟩

/-- A child with no signal pending inherits nothing exactly when `kmalloc` has no block for any of
the signals. -/
theorem copySignals_blocks (new : Nat) (queue : List SigQueue) (t : Tracked)
    (hz : (t.kernel.proc new).state ≠ .ZOMBIE)
    (hav : (t.kernel.proc new).signal.sigAvalaible = 0) :
    ∃ n, Keeps n t (t.copySignals new queue) ∧ (n = 0 ↔
      ∀ i < (queue.filter fun s => Accepts s.sigHandled s.state).length, t.kernel.kmallocs i = none) := by
  induction queue generalizing t with
  | nil => exact ⟨0, Keeps.refl t, iff_of_true rfl fun i hi => absurd hi (Nat.not_lt_zero i)⟩
  | cons s queue ih =>
    have hstep : t.copySignals new (s :: queue) =
        (t.addSignal s.sigHandled (some new) s.state).2.copySignals new queue := rfl
    rw [hstep]
    by_cases hacc : Accepts s.sigHandled s.state
    · rw [List.filter_cons_of_pos (by simpa using hacc), List.length_cons]
      rcases t.kmalloc_spec with ⟨hm, he⟩ | ⟨a, hm, he⟩
      · -- no block: the child still has no signal pending
        rw [addSignal_accepted hacc hz hav, he]
        obtain ⟨n, hk, hn⟩ := ih (t.setKernel t.kernel.kmalloc.2) hz hav
        have hmalloc : Keeps 0 t (t.setKernel t.kernel.kmalloc.2) :=
          ⟨fun _ => rfl, fun _ => Iff.rfl, rfl, (zero_add _).symm⟩
        have hboth := hmalloc.trans hk
        rw [add_zero] at hboth
        refine ⟨n, hboth, hn.trans ⟨fun h i hi => ?_, fun h i hi => h (i + 1) (by omega)⟩⟩
        cases i with
        | zero => exact hm
        | succ i => exact h i (by omega)
      · obtain ⟨n, hk, hn⟩ := addSignal_kin s.sigHandled (some new) s.state t
        obtain ⟨m, hm'⟩ := copySignals_keeps new queue (t.addSignal s.sigHandled (some new) s.state).2
        refine ⟨m + n, hk.trans hm', iff_of_false (fun h => ?_) fun h => ?_⟩
        · have hzero := (add_eq_zero_iff_of_nonneg (Multiset.zero_le m) (Multiset.zero_le n)).mp h
          refine hn.mp hzero.2 ⟨hacc, by rw [hm]; rfl, new, rfl, hz, fun hu => ?_⟩
          rw [hav] at hu
          simp [SIG_UNAVAILABLE] at hu
        · have := h 0 (by omega)
          rw [hm] at this
          cases this
    · rw [List.filter_cons_of_neg (by simpa using hacc), addSignal_rejected hacc]
      exact ih t hz hav

end Tracked

/-- What `copy_process` reads and keeps of a process beside its maps. -/
def Process.links (pr : Process) : ProcState × (Option Nat × List Nat) × Signal :=
  (pr.state, pr.tree, pr.signal)

/-- No `kmalloc` for a signal that a child of `p` inherits has a block; `skip` calls come before. -/
def InheritsNone (p skip : Nat) (k : Kernel) : Prop :=
  ∀ i < ((k.proc p).signal.sigQueue.filter fun s => Accepts s.sigHandled s.state).length,
    k.kmallocs (skip + ((k.proc p).mmHeap.length + ((k.proc p).mmStack.length + i))) = none

theorem linkChild_links {p new : Nat} {k : Kernel} (hne : p ≠ new) :
    ((linkChild p new k).proc new).tree = (some p, []) ∧
      ((linkChild p new k).proc new).state = (k.proc p).state ∧
      ((linkChild p new k).proc p).children = new :: (k.proc p).children := by
  refine ⟨(linkChild_tree (Ne.symm hne) new).trans (if_pos rfl), ?_, ?_⟩
  · unfold linkChild
    dsimp only
    rw [Kernel.modify_proc_of_ne _ (Ne.symm hne), Kernel.modify_proc_self]
  · have htree := linkChild_tree (k := k) (Ne.symm hne) p
    rw [if_neg hne, if_pos rfl] at htree
    exact congrArg Prod.snd htree

/-- `Kernel.parent`, with `blocks` blocks to hand out; its own record and that of its heap map are
live. -/
def Tracked.parent (blocks : Nat) : Tracked where
  kernel := { Kernel.parent 1 with
    kmallocs := fun i => if i < blocks then some (i + 100) else none }
  recs := fun q => if q = 1 then ⟨[50], [], []⟩ else .empty
  live := {1, 50}

end Moonlight
