import Mathlib.Algebra.Order.Group.Multiset
import MoonlightKernel.Process.Life

/-!
# The records of the process layer and their allocator

Records come from `kmalloc`: the `struct process`, the `struct map_memory` of a heap or stack map,
the `struct children` of a father, the `struct sig_queue` of a queued signal.  `Tracked` adds to
the kernel state the addresses of the records and the blocks that are live.  Every function of the
making of a process is written again with its calls of `kmalloc` and `kfree`, under the source's
name.  The frames of the heap's own regions are left out here; `MoonlightKernel.Process.World` has
them.

* `Tracked`, with `kmalloc`, `kfree` and the stores;
* the functions, from `processAllocPid` to `fork`;
* `addSignal_kernel` … `fork_kernel` — on the kernel state each is the function of
  `MoonlightKernel.Process.Life`.

A `struct sig_queue` has no entry in `Records`: the source unlinks it and never frees it.
-/

set_option autoImplicit false

namespace Moonlight

/-- The addresses of the records that belong to a process, each list in the order of the list of
the source. -/
structure Records where
  heap : List Nat
  stack : List Nat
  /-- The child that the record points to, and the address of the record. -/
  children : List (Nat × Nat)

/-- The records after `process_new`. -/
def Records.empty : Records := ⟨[], [], []⟩

/-- The kernel, the records of its processes, and the blocks that `kmalloc` has handed out and
`kfree` has not taken back. -/
structure Tracked where
  kernel : Kernel
  recs : Nat → Records
  live : Multiset Nat

namespace Tracked

def setKernel (t : Tracked) (k : Kernel) : Tracked := { t with kernel := k }

/-- A store into the process `p`. -/
def modify (t : Tracked) (p : Nat) (f : Process → Process) : Tracked :=
  t.setKernel (t.kernel.modify p f)

/-- A change of the lists of records of the process `p`. -/
def record (t : Tracked) (p : Nat) (f : Records → Records) : Tracked :=
  { t with recs := Function.update t.recs p (f (t.recs p)) }

/-- `kmalloc` of a record. -/
def kmalloc (t : Tracked) : Option Nat × Tracked :=
  match t.kernel.kmalloc with
  | (none, k) => (none, t.setKernel k)
  | (some a, k) => (some a, { t with kernel := k, live := a ::ₘ t.live })

/-- `kfree` of a record. -/
def kfree (a : Nat) (t : Tracked) : Tracked := { t with live := t.live.erase a }

/-! ## Creation and removal -/

/-- `process_alloc_pid`. -/
def processAllocPid (p : Nat) (t : Tracked) : Int × Tracked :=
  let r := Moonlight.processAllocPid p t.kernel
  (r.1, t.setKernel r.2)

/-- `process_new`. -/
def processNew (t : Tracked) : Option Nat × Tracked :=
  match t.kmalloc with
  | (none, t) => (none, t)
  | (some a, t) => (some a, (t.modify a fun _ => Process.zero).record a fun _ => .empty)

/-- The record of the child `p` leaves the list of its father and is freed. -/
def dropChild (f p : Nat) (t : Tracked) : Tracked :=
  let c := (t.recs f).children.find? fun c => c.1 = p
  let t := t.record f fun r => { r with children := r.children.eraseP fun c => c.1 = p }
  match c with
  | some c => t.kfree c.2
  | none => t

/-- A record of the children of a freed process: it goes to `init`, or it is freed. -/
def moveRecord (init : Option Nat) (t : Tracked) (c : Nat × Nat) : Tracked :=
  match init with
  | some q => t.record q fun r => { r with children := c :: r.children }
  | none => t.kfree c.2

/-- `free_process`. -/
def freeProcess (p : Nat) (t : Tracked) : Tracked :=
  let k := { t.kernel with processList := t.kernel.processList.erase p }
  let t' := match (k.proc p).father with
    | some f => t.dropChild f p
    | none => t
  let t' := (t'.recs p).children.foldl (moveRecord (processGetWithPid k 1)) t'
  let t' := (t'.record p fun r => { r with children := [] }).kfree p
  t'.setKernel (Moonlight.freeProcess p t.kernel)

/-! ## Signals -/

/-- `add_signal`. -/
def addSignal (sig : Int) (proc : Option Nat) (type : Nat) (t : Tracked) : Int × Tracked :=
  if sig = 0 then (0, t) else
  if (type &&& SIG_HARD ≠ 0 ∧ type &&& SIG_SOFT ≠ 0) ∨
      (type &&& SIG_HARD = 0 ∧ type &&& SIG_SOFT = 0) then (-EINVAL, t) else
  match proc with
  | none => (-EINVAL, t)
  | some p =>
    if (t.kernel.proc p).state = .ZOMBIE then (-EINVAL, t) else
    if sig < 0 ∨ sig > 34 then (-EINVAL, t) else
    if type &&& SIG_HARD = 0 ∧ SIG_UNAVAILABLE (t.kernel.proc p).signal.sigAvalaible sig.toNat then
      (0, t) else
    match t.kmalloc with
    | (none, t) => (-ENOMEM, t)
    | (some _, t) => (0, t.modify p (Process.queueSignal sig.toNat type))

/-- The entries of a queue are queued for a child, one after the other. -/
def copySignals (new : Nat) (queue : List SigQueue) (t : Tracked) : Tracked :=
  queue.foldl (fun t s => (t.addSignal s.sigHandled (some new) s.state).2) t

/-! ## `fork` -/

/-- The loop of `copy_process` over one list of maps; `copied` and `recs` are the child's list so
far and the addresses of its records. -/
def copyMaps (L : Layout) (swap swap2 : Nat) :
    List MapMemory → List MapMemory → List Nat → Tracked →
      Int × List MapMemory × List Nat × Tracked
  | [], copied, recs, t => (0, copied, recs, t)
  | pm :: rest, copied, recs, t =>
    match t.kmalloc with
    | (none, t) => (-1, copied, recs, t)
    | (some a, t) =>
      let r := processCopyMemBlock L swap swap2 pm t.kernel.machine
      let t := t.setKernel (t.kernel.setMachine r.2.2)
      if r.1 < 0 then (-1, copied, recs, t.kfree a)
      else copyMaps L swap swap2 rest (r.2.1 :: copied) (a :: recs) t

/-- The memory part of `copy_process`. -/
def copyMemory (L : Layout) (swap swap2 p new : Nat) (t : Tracked) : Int × Tracked :=
  let r := copyMaps L swap swap2 (t.kernel.proc p).mmHeap [] [] t
  let t := (r.2.2.2.modify new fun pr => { pr with mmHeap := r.2.1 }).record new
    fun rs => { rs with heap := r.2.2.1 }
  if r.1 < 0 then (-1, t) else
  let r := copyMaps L swap swap2 (t.kernel.proc p).mmStack [] [] t
  let t := (r.2.2.2.modify new fun pr => { pr with mmStack := r.2.1 }).record new
    fun rs => { rs with stack := r.2.2.1 }
  if r.1 < 0 then (-1, t) else
  let r := processCopyMemBlock L swap swap2 (t.kernel.proc p).mmCode t.kernel.machine
  let t := (t.setKernel (t.kernel.setMachine r.2.2)).modify new fun pr => { pr with mmCode := r.2.1 }
  if r.1 < 0 then (-1, t) else (0, t)

/-- The last lines of `copy_process`: the child's record `c` goes to the list of its father. -/
def linkChild (p new c : Nat) (t : Tracked) : Tracked :=
  ((t.setKernel (Moonlight.linkChild p new t.kernel)).record new
    fun r => { r with children := [] }).record p fun r => { r with children := (new, c) :: r.children }

/-- `copy_process`. -/
def copyProcess (L : Layout) (swap swap2 p new : Nat) (t : Tracked) : Int × Tracked :=
  let r := processAllocPid new t
  if r.1 < 0 then (-1, r.2) else
  let r := copyMemory L swap swap2 p new r.2
  if r.1 < 0 then (-1, r.2) else
  let t := copySignals new (r.2.kernel.proc p).signal.sigQueue r.2
  match t.kmalloc with
  | (none, t) => (-1, t)
  | (some c, t) => (0, linkChild p new c t)

/-- `fork`. -/
def fork (L : Layout) (swap swap2 p : Nat) (t : Tracked) : Int × Tracked :=
  match t.processNew with
  | (none, t) => (-ENOMEM, t)
  | (some new, t) =>
    let r := copyProcess L swap swap2 p new t
    if r.1 < 0 then (r.1, freeProcess new r.2) else
    let t := r.2.modify new fun pr => { pr with father := some p }
    ((t.kernel.proc new).pid, t)

/-! ## The kernel state of each function -/

section kernel

variable (t : Tracked)

@[simp] theorem setKernel_kernel (k : Kernel) : (t.setKernel k).kernel = k := rfl

@[simp] theorem setKernel_recs (k : Kernel) : (t.setKernel k).recs = t.recs := rfl

@[simp] theorem setKernel_live (k : Kernel) : (t.setKernel k).live = t.live := rfl

@[simp] theorem modify_kernel (p : Nat) (f : Process → Process) :
    (t.modify p f).kernel = t.kernel.modify p f := rfl

@[simp] theorem modify_recs (p : Nat) (f : Process → Process) : (t.modify p f).recs = t.recs := rfl

@[simp] theorem modify_live (p : Nat) (f : Process → Process) : (t.modify p f).live = t.live := rfl

@[simp] theorem record_kernel (p : Nat) (f : Records → Records) :
    (t.record p f).kernel = t.kernel := rfl

@[simp] theorem record_live (p : Nat) (f : Records → Records) : (t.record p f).live = t.live := rfl

@[simp] theorem record_recs_self (p : Nat) (f : Records → Records) :
    (t.record p f).recs p = f (t.recs p) := Function.update_self ..

theorem record_recs_of_ne {p q : Nat} (h : q ≠ p) (f : Records → Records) :
    (t.record p f).recs q = t.recs q := Function.update_of_ne h ..

@[simp] theorem kfree_kernel (a : Nat) : (t.kfree a).kernel = t.kernel := rfl

@[simp] theorem kfree_recs (a : Nat) : (t.kfree a).recs = t.recs := rfl

@[simp] theorem kfree_live (a : Nat) : (t.kfree a).live = t.live.erase a := rfl

/-- The two outcomes of `kmalloc`. -/
theorem kmalloc_spec : (t.kernel.kmallocs 0 = none ∧ t.kmalloc = (none, t.setKernel t.kernel.kmalloc.2)) ∨
    ∃ a, t.kernel.kmallocs 0 = some a ∧
      t.kmalloc = (some a, { t with kernel := t.kernel.kmalloc.2, live := a ::ₘ t.live }) := by
  unfold kmalloc Kernel.kmalloc
  cases h : t.kernel.kmallocs 0 with
  | none => exact .inl ⟨rfl, rfl⟩
  | some a => exact .inr ⟨a, rfl, rfl⟩

theorem kmalloc_kernel : (t.kmalloc.1, t.kmalloc.2.kernel) = t.kernel.kmalloc := by
  rcases t.kmalloc_spec with ⟨h, he⟩ | ⟨a, h, he⟩ <;> rw [he] <;> exact Prod.ext h.symm rfl

@[simp] theorem freeProcess_kernel (p : Nat) :
    (freeProcess p t).kernel = Moonlight.freeProcess p t.kernel := rfl

theorem processNew_kernel :
    (t.processNew.1, t.processNew.2.kernel) = Moonlight.processNew t.kernel := by
  unfold processNew Moonlight.processNew
  rw [← t.kmalloc_kernel]
  rcases t.kmalloc_spec with ⟨-, he⟩ | ⟨a, -, he⟩
  · rw [he]
  · rw [he]; rfl

theorem addSignal_kernel (sig : Int) (proc : Option Nat) (type : Nat) :
    ((t.addSignal sig proc type).1, (t.addSignal sig proc type).2.kernel) =
      Moonlight.addSignal sig proc type t.kernel := by
  unfold addSignal Moonlight.addSignal
  by_cases h0 : sig = 0
  · simp [h0]
  by_cases htype : (type &&& SIG_HARD ≠ 0 ∧ type &&& SIG_SOFT ≠ 0) ∨
      (type &&& SIG_HARD = 0 ∧ type &&& SIG_SOFT = 0)
  · rw [if_neg h0, if_pos htype, if_neg h0, if_pos htype]
  rw [if_neg h0, if_neg htype, if_neg h0, if_neg htype]
  cases proc with
  | none => rfl
  | some p =>
    dsimp only
    by_cases hz : (t.kernel.proc p).state = .ZOMBIE
    · rw [if_pos hz, if_pos hz]
    by_cases hs : sig < 0 ∨ sig > 34
    · rw [if_neg hz, if_pos hs, if_neg hz, if_pos hs]
    by_cases hu : type &&& SIG_HARD = 0 ∧
        SIG_UNAVAILABLE (t.kernel.proc p).signal.sigAvalaible sig.toNat
    · rw [if_neg hz, if_neg hs, if_pos hu, if_neg hz, if_neg hs, if_pos hu]
    rw [if_neg hz, if_neg hs, if_neg hu, if_neg hz, if_neg hs, if_neg hu, ← t.kmalloc_kernel]
    rcases t.kmalloc_spec with ⟨-, he⟩ | ⟨a, -, he⟩
    · rw [he]
    · rw [he]; rfl

theorem copySignals_kernel (new : Nat) (queue : List SigQueue) :
    (t.copySignals new queue).kernel =
      queue.foldl (fun k s => (Moonlight.addSignal s.sigHandled (some new) s.state k).2) t.kernel := by
  unfold copySignals
  induction queue generalizing t with
  | nil => rfl
  | cons s queue ih =>
    rw [List.foldl_cons, List.foldl_cons, ih, ← t.addSignal_kernel]

theorem copyMaps_kernel (L : Layout) (swap swap2 : Nat) (maps copied : List MapMemory)
    (recs : List Nat) :
    ((copyMaps L swap swap2 maps copied recs t).1, (copyMaps L swap swap2 maps copied recs t).2.1,
      (copyMaps L swap swap2 maps copied recs t).2.2.2.kernel) =
      Moonlight.copyMaps L swap swap2 maps copied t.kernel := by
  induction maps generalizing copied recs t with
  | nil => rfl
  | cons pm rest ih =>
    rw [copyMaps, Moonlight.copyMaps, ← t.kmalloc_kernel]
    rcases t.kmalloc_spec with ⟨-, he⟩ | ⟨a, -, he⟩
    · rw [he]
    · rw [he]
      dsimp only
      by_cases h : (processCopyMemBlock L swap swap2 pm t.kernel.kmalloc.2.machine).1 < 0
      · rw [if_pos h, if_pos h]
        rfl
      · rw [if_neg h, if_neg h]
        exact ih ..

theorem copyMemory_kernel (L : Layout) (swap swap2 p new : Nat) :
    ((copyMemory L swap swap2 p new t).1, (copyMemory L swap swap2 p new t).2.kernel) =
      Moonlight.copyMemory L swap swap2 p new t.kernel := by
  unfold copyMemory Moonlight.copyMemory
  have h₁ := t.copyMaps_kernel L swap swap2 (t.kernel.proc p).mmHeap [] []
  generalize copyMaps L swap swap2 (t.kernel.proc p).mmHeap [] [] t = r at h₁
  rw [← h₁]
  dsimp only
  by_cases h : r.1 < 0
  · rw [if_pos h, if_pos h]
    rfl
  rw [if_neg h, if_neg h]
  generalize ht₁ : (r.2.2.2.modify new fun pr => { pr with mmHeap := r.2.1 }).record new
    (fun rs => { rs with heap := r.2.2.1 }) = t₁
  have hk₁ : t₁.kernel = r.2.2.2.kernel.modify new fun pr => { pr with mmHeap := r.2.1 } := by
    rw [← ht₁]
    rfl
  rw [← hk₁]
  have h₂ := t₁.copyMaps_kernel L swap swap2 (t₁.kernel.proc p).mmStack [] []
  generalize copyMaps L swap swap2 (t₁.kernel.proc p).mmStack [] [] t₁ = r₂ at h₂
  rw [← h₂]
  dsimp only
  by_cases h : r₂.1 < 0
  · rw [if_pos h, if_pos h]
    rfl
  rw [if_neg h, if_neg h]
  generalize ht₂ : (r₂.2.2.2.modify new fun pr => { pr with mmStack := r₂.2.1 }).record new
    (fun rs => { rs with stack := r₂.2.2.1 }) = t₂
  have hk₂ : t₂.kernel = r₂.2.2.2.kernel.modify new fun pr => { pr with mmStack := r₂.2.1 } := by
    rw [← ht₂]
    rfl
  rw [← hk₂]
  split <;> rfl

theorem copyProcess_kernel (L : Layout) (swap swap2 p new : Nat) :
    ((copyProcess L swap swap2 p new t).1, (copyProcess L swap swap2 p new t).2.kernel) =
      Moonlight.copyProcess L swap swap2 p new t.kernel := by
  unfold copyProcess Moonlight.copyProcess processAllocPid
  dsimp only
  by_cases h : (Moonlight.processAllocPid new t.kernel).1 < 0
  · rw [if_pos h, if_pos h]
    rfl
  rw [if_neg h, if_neg h]
  generalize ht₁ : t.setKernel (Moonlight.processAllocPid new t.kernel).2 = t₁
  have hk₁ : (Moonlight.processAllocPid new t.kernel).2 = t₁.kernel := by rw [← ht₁]; rfl
  rw [hk₁]
  have h₁ := t₁.copyMemory_kernel L swap swap2 p new
  generalize copyMemory L swap swap2 p new t₁ = r at h₁
  rw [← h₁]
  dsimp only
  by_cases h : r.1 < 0
  · rw [if_pos h, if_pos h]
  rw [if_neg h, if_neg h, ← copySignals_kernel]
  generalize r.2.copySignals new (r.2.kernel.proc p).signal.sigQueue = t₂
  rw [← t₂.kmalloc_kernel]
  rcases t₂.kmalloc_spec with ⟨-, he⟩ | ⟨a, -, he⟩
  · rw [he]
  · rw [he]; rfl

/-- **`fork`** on the kernel state. -/
theorem fork_kernel (L : Layout) (swap swap2 p : Nat) :
    ((fork L swap swap2 p t).1, (fork L swap swap2 p t).2.kernel) =
      Moonlight.fork L swap swap2 p t.kernel := by
  unfold fork Moonlight.fork
  rw [← t.processNew_kernel]
  obtain ⟨new, t₁⟩ := t.processNew
  cases new with
  | none => rfl
  | some new =>
    dsimp only
    have h₁ := t₁.copyProcess_kernel L swap swap2 p new
    generalize copyProcess L swap swap2 p new t₁ = r at h₁
    rw [← h₁]
    dsimp only
    split <;> rfl

end kernel

end Tracked

end Moonlight
