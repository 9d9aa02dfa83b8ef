import MoonlightKernel.Process.JobControl

/-!
# Signal numbers as indices: `kernel/process/signal.c`

The number of a signal is an index of two tables of 34 rows and a shift count of a 32-bit mask.
`add_signal` lets the numbers up to 34 pass, and `signal` looks at its number not at all.

* `signal` — `signal`, undefined when it leaves a table;
* `addSignalShift`, `sendSignalIndex`, `signalIndices` — the shift and the rows that the functions
  use;
* `queued_numbers_in_tables_iff`, `signal_in_tables_iff` — the numbers that stay in the tables, and
  `signal_numbers_in_tables_iff` — both together.
-/

set_option autoImplicit false

namespace Moonlight

open Sys

/-! ## `signal` -/

def SIG_DFL : Nat := 0xFFFFFFFF
def SIG_IGN : Nat := 0xFFFFFFFE

/-- The number of rows of `sig_handler`, the global one and that of a process. -/
def SIG_TABLE : Nat := 34

/-- `-EINVAL` as a pointer. -/
def EINVAL_PTR : Nat := 2 ^ 32 - 22

/-- A `shandler` that a process may set: a null pointer is no handler. -/
def userHandler (handler : Nat) : Option Shandler := if handler = 0 then none else some (.user handler)

/-- What `signal` returns for the handler that it replaces. -/
def oldHandler : Option Shandler → Nat
  | none => SIG_DFL
  | some .sigIgn => SIG_IGN
  | some (.user addr) => addr
  | some _ => SIG_DFL

/-- The second half of `signal`. -/
def storeHandler (p : Nat) (signum : Int) (h : Option Shandler) (k : Kernel) : Option (Nat × Kernel) :=
  if signum = SIGKILL ∨ signum = SIGSTOP then some (EINVAL_PTR, k)
  else if signum < 0 ∨ SIG_TABLE ≤ signum then none
  else some (oldHandler ((k.proc p).signal.sigHandler signum.toNat),
    k.modify p (Process.setHandler signum.toNat h))

/-- `signal`; `none` when it reads or writes outside a table. -/
def signal (p : Nat) (signum : Int) (handler : Nat) (k : Kernel) : Option (Nat × Kernel) :=
  if handler = SIG_DFL then
    if signum < 0 then none
    else match sigHandler[signum.toNat]? with
      | none => none
      | some h => storeHandler p signum (some h) k
  else if handler = SIG_IGN then storeHandler p signum (some .sigIgn) k
  else if KERNEL_POS ≤ handler then some (EINVAL_PTR, k)
  else storeHandler p signum (userHandler handler) k

/-! ## The rows that are used -/

/-- The shift count of `SIG_UNAVAILABLE` in `add_signal`, when it gets there. -/
def addSignalShift (sig : Int) (p type : Nat) (k : Kernel) : Option Int :=
  if sig = 0 then none else
  if (type &&& SIG_HARD ≠ 0 ∧ type &&& SIG_SOFT ≠ 0) ∨
      (type &&& SIG_HARD = 0 ∧ type &&& SIG_SOFT = 0) then none else
  if (k.proc p).state = .ZOMBIE then none else
  if sig < 0 ∨ sig > 34 then none else
  if type &&& SIG_HARD = 0 then some (sig - 1) else none

/-- The row of the two tables that `send_signal` reads, when it gets there. -/
def sendSignalIndex (p : Nat) (k : Kernel) : Option Nat :=
  match (k.proc p).signal.sigQueue with
  | [] => none
  | s :: _ =>
    if (k.proc p).state = .ZOMBIE then none
    else if s.state = SIG_EXECUTING then none
    else some s.sigHandled

/-- The rows that `signal` reads and writes. -/
def signalIndices (signum : Int) (handler : Nat) : List Int :=
  let store := if signum = SIGKILL ∨ signum = SIGSTOP then [] else [signum]
  if handler = SIG_DFL then signum :: store
  else if handler ≠ SIG_IGN ∧ KERNEL_POS ≤ handler then []
  else store

/-- A row of a table. -/
def InTable (i : Int) : Prop := 0 ≤ i ∧ i < SIG_TABLE

instance (i : Int) : Decidable (InTable i) := inferInstanceAs (Decidable (_ ∧ _))

/-! ## Queued signals -/

section queued

variable {L : Layout} {p type : Nat} {sig : Int} {k : Kernel}

/-- An entry that is queued has passed all the tests of `add_signal`. -/
theorem addSignal_queued
    (h : ((addSignal sig (some p) type k).2.proc p).signal.sigQueue ≠ (k.proc p).signal.sigQueue) :
    1 ≤ sig ∧ sig ≤ 34 ∧ (k.proc p).state ≠ .ZOMBIE ∧
      addSignalShift sig p type k = (if type &&& SIG_HARD = 0 then some (sig - 1) else none) ∧
      (addSignal sig (some p) type k).2 =
        k.kmalloc.2.modify p (Process.queueSignal sig.toNat type) := by
  rcases addSignal_cases sig p type k with he | ⟨h0, htype, hlive, hrange, -, he | he⟩
  · rw [he] at h
    exact absurd rfl h
  · rw [he] at h
    exact absurd rfl h
  · refine ⟨by omega, by omega, hlive, ?_, he⟩
    unfold addSignalShift
    rw [if_neg h0, if_neg htype, if_neg hlive, if_neg hrange]

/-- **A queued number** and its use: `send_signal` reads the tables at it, once the entry has come
to the head of the queue, and `add_signal` has shifted by it. -/
def StaysInTables (L : Layout) (sig : Int) (p type : Nat) (k : Kernel) : Prop :=
  (∀ ops k', Run (signalStep L) (addSignal sig (some p) type k).2 ops k' →
    (k'.proc p).signal.sigQueue.head? = some ⟨sig.toNat, type ||| SIG_NOT_EXECUTING⟩ →
    ∀ i ∈ sendSignalIndex p k', InTable i) ∧
  ∀ n ∈ addSignalShift sig p type k, n < 32

/-- **Which queued numbers stay in the tables**: a soft one up to 32, a hard one up to 33. -/
theorem queued_numbers_in_tables_iff
    (h : ((addSignal sig (some p) type k).2.proc p).signal.sigQueue ≠ (k.proc p).signal.sigQueue) :
    StaysInTables L sig p type k ↔ sig ≤ 32 ∨ (sig = 33 ∧ type &&& SIG_HARD ≠ 0) := by
  obtain ⟨h1, h34, hlive, hshift, hk⟩ := addSignal_queued h
  unfold StaysInTables
  rw [hshift]
  constructor
  · rintro ⟨hindex, hlt⟩
    by_cases hsoft : type &&& SIG_HARD = 0
    · rw [if_pos hsoft] at hlt
      have := hlt (sig - 1) rfl
      omega
    · -- a hard entry is at the head at once
      have hproc : ((addSignal sig (some p) type k).2.proc p) =
          (k.proc p).queueSignal sig.toNat type := by
        rw [hk, Kernel.modify_proc_self, Kernel.kmalloc_proc]
      have hhead : ((addSignal sig (some p) type k).2.proc p).signal.sigQueue =
          ⟨sig.toNat, type ||| SIG_NOT_EXECUTING⟩ :: (k.proc p).signal.sigQueue := by
        rw [hproc]
        exact if_pos hsoft
      have hread : sendSignalIndex p (addSignal sig (some p) type k).2 = some sig.toNat := by
        unfold sendSignalIndex
        rw [hhead]
        dsimp only
        rw [hproc, if_neg (show ((k.proc p).queueSignal sig.toNat type).state ≠ .ZOMBIE from hlive),
          if_neg (queued_not_executing type)]
      have hin := hindex [] _ (.nil _) (by rw [hhead]; rfl) sig.toNat hread
      have hlt : (sig.toNat : Int) < 34 := hin.2
      by_cases h33 : sig ≤ 32
      · exact .inl h33
      · exact .inr ⟨by omega, hsoft⟩
  · intro hcond
    refine ⟨fun ops k' _ hhead i hi => ?_, fun n hn => ?_⟩
    · have hi : i = sig.toNat := by
        unfold sendSignalIndex at hi
        cases hq : (k'.proc p).signal.sigQueue with
        | nil =>
          rw [hq] at hhead
          cases hhead
        | cons s rest =>
          rw [hq] at hhead hi
          dsimp only at hi
          split at hi
          · cases hi
          split at hi
          · cases hi
          · rw [← Option.some.inj hi, Option.some.inj hhead]
      rw [hi]
      refine ⟨Int.natCast_nonneg _, ?_⟩
      unfold SIG_TABLE
      omega
    · by_cases hsoft : type &&& SIG_HARD = 0
      · rw [if_pos hsoft] at hn
        have hn : sig - 1 = n := Option.some.inj hn
        have hle : sig ≤ 32 := hcond.resolve_right fun hc => hc.2 hsoft
        omega
      · rw [if_neg hsoft] at hn
        cases hn

end queued

/-! ## Numbers given to `signal` -/

/-- `signal` refuses its arguments and changes nothing, or uses rows of the tables only. -/
def SignalStaysInTables (p : Nat) (signum : Int) (handler : Nat) (k : Kernel) : Prop :=
  signal p signum handler k = some (EINVAL_PTR, k) ∨ ∀ i ∈ signalIndices signum handler, InTable i

theorem inTable_of_refused {signum : Int} (hs : signum = SIGKILL ∨ signum = SIGSTOP) :
    InTable signum := by
  rcases hs with rfl | rfl
  · decide
  · decide

section signal

variable {p handler : Nat} {signum : Int} {h : Option Shandler} {k : Kernel} {r : Nat × Kernel}

/-- A store that is defined has a row of the table. -/
theorem storeHandler_inTable (hr : storeHandler p signum h k = some r) : InTable signum := by
  unfold storeHandler at hr
  split at hr
  · rename_i hs
    exact inTable_of_refused hs
  split at hr
  · cases hr
  · rename_i hrange
    exact ⟨by omega, by omega⟩

/-- The one row that `signal` uses is that of its number. -/
theorem mem_signalIndices {i : Int} (hi : i ∈ signalIndices signum handler) : i = signum := by
  have hstore : i ∈ (if signum = SIGKILL ∨ signum = SIGSTOP then [] else [signum]) → i = signum := by
    split
    · exact fun hi => absurd hi List.not_mem_nil
    · exact List.mem_singleton.mp
  unfold signalIndices at hi
  dsimp only at hi
  split at hi
  · exact (List.mem_cons.mp hi).elim id hstore
  split at hi
  · cases hi
  · exact hstore hi

/-- A call that takes no handler of the kernel needs its row. -/
theorem inTable_of_stays (hkernel : ¬ (KERNEL_POS ≤ handler ∧ handler ≠ SIG_DFL ∧ handler ≠ SIG_IGN))
    (hstays : SignalStaysInTables p signum handler k) : InTable signum := by
  have hpass : ¬ (handler ≠ SIG_DFL ∧ handler ≠ SIG_IGN ∧ KERNEL_POS ≤ handler) := fun hc =>
    hkernel ⟨hc.2.2, hc.1, hc.2.1⟩
  rcases hstays with hcall | hrows
  · unfold signal at hcall
    split at hcall
    · split at hcall
      · cases hcall
      split at hcall
      · cases hcall
      · exact storeHandler_inTable hcall
    rename_i hdfl
    split at hcall
    · exact storeHandler_inTable hcall
    rename_i hign
    rw [if_neg fun hpos => hpass ⟨hdfl, hign, hpos⟩] at hcall
    exact storeHandler_inTable hcall
  · by_cases hs : signum = SIGKILL ∨ signum = SIGSTOP
    · exact inTable_of_refused hs
    · refine hrows signum ?_
      unfold signalIndices
      dsimp only
      rw [if_neg hs]
      split
      · exact List.mem_cons_self
      rename_i hdfl
      rw [if_neg fun hc => hpass ⟨hdfl, hc⟩]
      exact List.mem_singleton_self signum

/-- **Which numbers `signal` can be given**: a row of the table, or any number with a handler in the
kernel. -/
theorem signal_in_tables_iff : SignalStaysInTables p signum handler k ↔
    InTable signum ∨ (KERNEL_POS ≤ handler ∧ handler ≠ SIG_DFL ∧ handler ≠ SIG_IGN) := by
  constructor
  · intro hstays
    by_contra hcond
    exact hcond (.inl (inTable_of_stays (fun hkernel => hcond (.inr hkernel)) hstays))
  · rintro (hin | ⟨hpos, hdfl, hign⟩)
    · exact .inr fun i hi => mem_signalIndices hi ▸ hin
    · refine .inl ?_
      unfold signal
      rw [if_neg hdfl, if_neg hign, if_pos hpos]

end signal

/-- **Signal numbers stay in the tables** exactly when the queued ones are at most 32, or 33 for a
hard signal, and those given to `signal` are rows of the table, or come with a handler in the
kernel. -/
theorem signal_numbers_in_tables_iff (L : Layout) (p type handler : Nat) (sig signum : Int)
    (k k' : Kernel)
    (h : ((addSignal sig (some p) type k).2.proc p).signal.sigQueue ≠ (k.proc p).signal.sigQueue) :
    (StaysInTables L sig p type k ↔ sig ≤ 32 ∨ (sig = 33 ∧ type &&& SIG_HARD ≠ 0)) ∧
      (SignalStaysInTables p signum handler k' ↔
        InTable signum ∨ (KERNEL_POS ≤ handler ∧ handler ≠ SIG_DFL ∧ handler ≠ SIG_IGN)) :=
  ⟨queued_numbers_in_tables_iff h, signal_in_tables_iff⟩

/-- A soft `SIGTERM` and the default handler for it. -/
theorem sigterm_in_tables : StaysInTables .sample 15 1 SIG_SOFT .solo ∧
    SignalStaysInTables 1 15 SIG_DFL .solo := by
  have h := signal_numbers_in_tables_iff .sample 1 SIG_SOFT SIG_DFL 15 15 .solo .solo
    (by decide +kernel)
  exact ⟨h.1.mpr (.inl (by decide)), h.2.mpr (.inl (by decide))⟩

/-- A hard signal 34 is accepted, queued and delivered through row 34; the default for a number
outside the table is read outside it. -/
theorem number_34_leaves_tables :
    (addSignal 34 (some 1) SIG_HARD .solo).1 = 0 ∧
      ((addSignal 34 (some 1) SIG_HARD .solo).2.proc 1).signal.sigQueue = [⟨34, 10⟩] ∧
      sendSignalIndex 1 (addSignal 34 (some 1) SIG_HARD .solo).2 = some 34 ∧
      ¬ StaysInTables .sample 34 1 SIG_HARD .solo ∧
      addSignalShift 33 1 SIG_SOFT .solo = some 32 ∧ ¬ SignalStaysInTables 1 (-1) SIG_DFL .solo := by
  refine ⟨by decide +kernel, by decide +kernel, by decide +kernel, fun h => ?_, by decide +kernel,
    fun h => ?_⟩
  · have hin := h.1 [] _ (.nil _) (by decide +kernel) 34 (by decide +kernel)
    exact absurd hin (by decide)
  · rcases h with hcall | hrows
    · cases hcall
    · exact absurd (hrows (-1) (by decide)) (by decide)

end Moonlight
