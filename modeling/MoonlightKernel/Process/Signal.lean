import MoonlightKernel.Process.State

/-!
# Queueing a signal: `kernel/process/signal.c`

* `blockedSig`, `sigHandler` — the two tables of the source, with their entries as they stand;
* `addSignal` — `add_signal`;
* `addSignal_spec` — it changes one signal queue and one signal mask, and nothing else.

The delivery, `send_signal`, is in `MoonlightKernel.Process.Life`, since a handler may end the
process.
-/

set_option autoImplicit false

namespace Moonlight

/-- `1 << (sig - 1)`, the mask of a blockable signal. -/
def procMask (sig : Nat) : Nat := 1 <<< (sig - 1)

/-- `blocked_sig`.  `SIGKILL` and `SIGSTOP` have an empty mask. -/
def blockedSig : List (Nat × Nat) :=
  [(1, procMask 1), (2, procMask 2), (3, procMask 3), (4, procMask 4), (5, procMask 5),
    (6, procMask 6), (6, procMask 6), (7, procMask 7), (8, procMask 8), (9, 0),
    (10, procMask 10), (11, procMask 11),
    (12, procMask 1), -- `{SIGUSR2, SIGHUP_PROCMASK}`
    (13, procMask 13), (14, procMask 14), (15, procMask 15), (16, procMask 16),
    (17, procMask 17), (17, procMask 17), (18, procMask 18), (19, 0), (20, procMask 20),
    (21, procMask 21), (22, procMask 22), (23, procMask 23), (24, procMask 24),
    (25, procMask 25), (26, procMask 26), (27, procMask 27), (28, procMask 28),
    (29, procMask 29), (29, procMask 29), (30, procMask 30), (31, procMask 31)]

/-- The table `sig_handler`, indexed by the signal number. -/
def sigHandler : List Shandler :=
  [.sigTerm, .sigTerm, .sigCore, .sigCore, .sigCore, .sigCore, .sigCore, .sigCore, .sigCore,
    .sigTerm, .sigTerm, .sigCore, .sigTerm, .sigTerm, .sigTerm, .sigTerm, .sigTerm,
    .childEnded, .sigIgn, .sigCont, .sigStop, .sigStop, .sigStop, .sigStop, .sigIgn, .sigCore,
    .sigCore, .sigTerm, .sigTerm, .sigIgn, .sigTerm, .sigCore, .sigTerm, .sigCore]

/-- The mask of the first entry of `blocked_sig` for `sig`; `0` when there is none. -/
def blockedMask (sig : Nat) : Nat := ((blockedSig.find? fun e => e.1 = sig).map Prod.snd).getD 0

/-- `SIG_UNAVAILABLE`.  The shift count of the processor is taken modulo 32. -/
def SIG_UNAVAILABLE (mask sig : Nat) : Bool := decide (mask &&& 1 <<< ((sig - 1) % 32) ≠ 0)

/-- The store that queues an entry, at the front for a hard signal. -/
def Process.queueSignal (sig type : Nat) (pr : Process) : Process :=
  let new : SigQueue := ⟨sig, type ||| SIG_NOT_EXECUTING⟩
  { pr with signal :=
      { pr.signal with
        sigQueue := if type &&& SIG_HARD ≠ 0 then new :: pr.signal.sigQueue
          else pr.signal.sigQueue ++ [new]
        sigAvalaible := pr.signal.sigAvalaible ||| blockedMask sig } }

/-- `add_signal`. -/
def addSignal (sig : Int) (proc : Option Nat) (type : Nat) (k : Kernel) : Int × Kernel :=
  if sig = 0 then (0, k) else
  if (type &&& SIG_HARD ≠ 0 ∧ type &&& SIG_SOFT ≠ 0) ∨
      (type &&& SIG_HARD = 0 ∧ type &&& SIG_SOFT = 0) then (-EINVAL, k) else
  match proc with
  | none => (-EINVAL, k)
  | some p =>
    if (k.proc p).state = .ZOMBIE then (-EINVAL, k) else
    if sig < 0 ∨ sig > 34 then (-EINVAL, k) else
    if type &&& SIG_HARD = 0 ∧ SIG_UNAVAILABLE (k.proc p).signal.sigAvalaible sig.toNat then (0, k) else
    match k.kmalloc with
    | (none, k) => (-ENOMEM, k)
    | (some _, k) => (0, k.modify p (Process.queueSignal sig.toNat type))

/-- The two outcomes of `add_signal`: an entry in one queue, or nothing but a consumed
allocation. -/
theorem addSignal_spec (sig : Int) (proc : Option Nat) (type : Nat) (k : Kernel) :
    (∃ p k', proc = some p ∧ (k' = k.kmalloc.2) ∧
      addSignal sig proc type k = (0, k'.modify p (Process.queueSignal sig.toNat type))) ∨
    (addSignal sig proc type k).2 = k ∨ (addSignal sig proc type k).2 = k.kmalloc.2 := by
  unfold addSignal
  split
  · exact .inr (.inl rfl)
  split
  · exact .inr (.inl rfl)
  cases proc with
  | none => exact .inr (.inl rfl)
  | some p =>
    dsimp only
    split
    · exact .inr (.inl rfl)
    split
    · exact .inr (.inl rfl)
    split
    · exact .inr (.inl rfl)
    cases hm : k.kmalloc with
    | mk a k' =>
      cases a with
      | none => exact .inr (.inr rfl)
      | some _ => exact .inl ⟨p, k', rfl, rfl, rfl⟩

/-- `add_signal` for a signal that may be sent to a process that is alive. -/
theorem addSignal_tested {sig : Int} {p type : Nat} {k : Kernel} (h0 : sig ≠ 0)
    (htype : ¬ ((type &&& SIG_HARD ≠ 0 ∧ type &&& SIG_SOFT ≠ 0) ∨
      (type &&& SIG_HARD = 0 ∧ type &&& SIG_SOFT = 0)))
    (hlive : (k.proc p).state ≠ .ZOMBIE) (hrange : ¬ (sig < 0 ∨ sig > 34)) :
    addSignal sig (some p) type k =
      if type &&& SIG_HARD = 0 ∧ SIG_UNAVAILABLE (k.proc p).signal.sigAvalaible sig.toNat
      then (0, k) else
      match k.kmalloc with
      | (none, k) => (-ENOMEM, k)
      | (some _, k) => (0, k.modify p (Process.queueSignal sig.toNat type)) := by
  unfold addSignal
  rw [if_neg h0, if_neg htype]
  dsimp only
  rw [if_neg hlive, if_neg hrange]

/-- **What `add_signal` does to a process**: nothing, or it passes all its tests, and the entry is
queued if there is a block for it. -/
theorem addSignal_cases (sig : Int) (p type : Nat) (k : Kernel) :
    (addSignal sig (some p) type k).2 = k ∨
    (sig ≠ 0 ∧ ¬ ((type &&& SIG_HARD ≠ 0 ∧ type &&& SIG_SOFT ≠ 0) ∨
        (type &&& SIG_HARD = 0 ∧ type &&& SIG_SOFT = 0)) ∧
      (k.proc p).state ≠ .ZOMBIE ∧ ¬ (sig < 0 ∨ sig > 34) ∧
      ¬ (type &&& SIG_HARD = 0 ∧ SIG_UNAVAILABLE (k.proc p).signal.sigAvalaible sig.toNat) ∧
      ((addSignal sig (some p) type k).2 = k.kmalloc.2 ∨
        (addSignal sig (some p) type k).2 =
          k.kmalloc.2.modify p (Process.queueSignal sig.toNat type))) := by
  unfold addSignal
  split
  · exact .inl rfl
  rename_i h0
  split
  · exact .inl rfl
  rename_i htype
  dsimp only
  split
  · exact .inl rfl
  rename_i hlive
  split
  · exact .inl rfl
  rename_i hrange
  split
  · exact .inl rfl
  rename_i hfree
  cases hm : k.kmalloc with
  | mk a k' =>
    cases a with
    | none => exact .inr ⟨h0, htype, hlive, hrange, hfree, .inl rfl⟩
    | some _ => exact .inr ⟨h0, htype, hlive, hrange, hfree, .inr rfl⟩

/-- Only an entry for the signal itself is ever queued. -/
theorem addSignal_queue {sig : Int} {proc : Option Nat} {type : Nat} {k : Kernel} {q : Nat}
    {s : SigQueue} (h : s ∈ ((addSignal sig proc type k).2.proc q).signal.sigQueue) :
    s ∈ (k.proc q).signal.sigQueue ∨ s.sigHandled = sig.toNat := by
  rcases addSignal_spec sig proc type k with ⟨p, k', -, rfl, he⟩ | he | he
  · rw [he, Kernel.modify_proc] at h
    split at h
    · rename_i hq
      subst hq
      unfold Process.queueSignal at h
      dsimp only at h
      split at h
      · rcases List.mem_cons.mp h with rfl | h
        · exact .inr rfl
        · exact .inl h
      · rcases List.mem_append.mp h with h | h
        · exact .inl h
        · rw [List.mem_singleton.mp h]; exact .inr rfl
    · exact .inl h
  · rw [he] at h; exact .inl h
  · rw [he] at h; exact .inl h

end Moonlight
