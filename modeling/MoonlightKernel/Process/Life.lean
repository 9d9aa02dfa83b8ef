import MoonlightKernel.Process.Memory
import MoonlightKernel.Process.Signal

/-!
# The life of a process

The functions of `kernel/process` that create processes, end them and wait for them, in the
order in which they call each other:

* `processAllocPid`, `processNew`, `freeProcess` — `process_new.c`, `free_process.c`;
* `processIniKern` — of `process.c`; what it copies into the new code pages is left out;
* `copyProcess`, `processDup`, `fork` — `copy_process.c`, `fork.c`;
* `processDieSafe`, `exit` — `process_die.c`, `exit.c`;
* `endOfChild`, `childEnded`, `processWaitpid` — `process_wait.c`;
* `sendSignal` — of `signal.c`.

`process_die` of the current process continues in `process_die_safe` on another stack and from
there in the scheduler; the state is the one that the scheduler finds.
-/

set_option autoImplicit false

namespace Moonlight

/-! ## Creation and removal -/

/-- The retry loop of `process_alloc_pid`, with the number of candidates it may still try: the
error code, `*pid` and `last_pid`. -/
def allocPidLoop (pids : List Int) : Nat → Int → Int × Int × Int
  | 0, lastPid => (-EAGAIN, lastPid, lastPid + 1)
  | try_ + 1, lastPid =>
    let next := if lastPid + 1 ≥ PROC_MAX_PID then PROC_MIN_PID else lastPid + 1
    if lastPid ∈ pids then allocPidLoop pids try_ next else (0, lastPid, next)

/-- `process_alloc_pid`. -/
def processAllocPid (p : Nat) (k : Kernel) : Int × Kernel :=
  let r := allocPidLoop (k.processList.map fun q => (k.proc q).pid)
    (PROC_MAX_PID - PROC_MIN_PID + 1).toNat k.lastPid
  (r.1, { k.modify p fun pr => { pr with pid := r.2.1 } with lastPid := r.2.2 })

/-- `process_new`. -/
def processNew (k : Kernel) : Option Nat × Kernel :=
  match k.kmalloc with
  | (none, k) => (none, k)
  | (some a, k) => (some a, k.modify a fun _ => Process.zero)

/-- `process_get_with_pid`. -/
def processGetWithPid (k : Kernel) (pid : Int) : Option Nat :=
  k.processList.find? fun p => (k.proc p).pid = pid

/-- One record of the children of a freed process goes to the process with pid 1. -/
def moveOrphan (k : Kernel) (c : Nat) : Kernel :=
  match processGetWithPid k 1 with
  | some q => k.modify q fun pr => { pr with children := c :: pr.children }
  | none => k

/-- `free_process`. -/
def freeProcess (p : Nat) (k : Kernel) : Kernel :=
  let k := { k with processList := k.processList.erase p }
  let k := match (k.proc p).father with
    | some f => k.modify f fun pr => { pr with children := pr.children.erase p }
    | none => k
  ((k.proc p).children.foldl moveOrphan k).modify p fun pr => { pr with children := [] }

/-- `process_ini_kern`. -/
def processIniKern (L : Layout) (vAddr size : Nat) (k : Kernel) : Option Nat × Kernel :=
  match processNew k with
  | (none, k) => (none, k)
  | (some a, k) =>
    let prot := PAGE_PRESENT ||| PAGE_WRITE ||| PAGE_USER_SUPERVISOR
    let r := processAllocPid a k
    if r.1 ≠ 0 then (none, freeProcess a r.2) else
    let r := processMemoryAdd L a size vAddr prot (PROC_MEM_ADD_IMEDIATE ||| PROC_MEM_ADD_CODE) r.2
    if r.1 ≠ 0 then (none, freeProcess a r.2) else
    let r := processMemoryAdd L a 4096 (KERNEL_POS - 4096) prot
      (PROC_MEM_ADD_IMEDIATE ||| PROC_MEM_ADD_STACK) r.2
    if r.1 ≠ 0 then (none, freeProcess a r.2) else
    (some a, { r.2 with processList := a :: r.2.processList })

/-! ## `fork` -/

/-- The loop of `copy_process` over one list of maps; `copied` is the child's list so far. -/
def copyMaps (L : Layout) (swap swap2 : Nat) :
    List MapMemory → List MapMemory → Kernel → Int × List MapMemory × Kernel
  | [], copied, k => (0, copied, k)
  | pm :: rest, copied, k =>
    match k.kmalloc with
    | (none, k) => (-1, copied, k)
    | (some _, k) =>
      let r := processCopyMemBlock L swap swap2 pm k.machine
      let k := k.setMachine r.2.2
      if r.1 < 0 then (-1, copied, k) else copyMaps L swap swap2 rest (r.2.1 :: copied) k

/-- The memory part of `copy_process`. -/
def copyMemory (L : Layout) (swap swap2 p new : Nat) (k : Kernel) : Int × Kernel :=
  let r := copyMaps L swap swap2 (k.proc p).mmHeap [] k
  let k := r.2.2.modify new fun pr => { pr with mmHeap := r.2.1 }
  if r.1 < 0 then (-1, k) else
  let r := copyMaps L swap swap2 (k.proc p).mmStack [] k
  let k := r.2.2.modify new fun pr => { pr with mmStack := r.2.1 }
  if r.1 < 0 then (-1, k) else
  let r := processCopyMemBlock L swap swap2 (k.proc p).mmCode k.machine
  let k := (k.setMachine r.2.2).modify new fun pr => { pr with mmCode := r.2.1 }
  if r.1 < 0 then (-1, k) else (0, k)

/-- `list_add(&new->plist, &p->plist)`. -/
def insertAfter (p new : Nat) : List Nat → List Nat
  | [] => []
  | q :: qs => if q = p then q :: new :: qs else q :: insertAfter p new qs

/-- The last lines of `copy_process`: the child takes its place among the processes. -/
def linkChild (p new : Nat) (k : Kernel) : Kernel :=
  let k := k.modify new fun pr => { pr with
    state := (k.proc p).state
    uid := (k.proc p).uid
    children := []
    father := some p
    endValue := 0
    waitingPid := 0 }
  let k := k.modify p fun pr => { pr with children := new :: pr.children }
  { k with processList := insertAfter p new k.processList }

/-- `copy_process`. -/
def copyProcess (L : Layout) (swap swap2 p new : Nat) (k : Kernel) : Int × Kernel :=
  let r := processAllocPid new k
  if r.1 < 0 then (-1, r.2) else
  let r := copyMemory L swap swap2 p new r.2
  if r.1 < 0 then (-1, r.2) else
  let k := (r.2.proc p).signal.sigQueue.foldl
    (fun k s => (addSignal s.sigHandled (some new) s.state k).2) r.2
  match k.kmalloc with
  | (none, k) => (-1, k)
  | (some _, k) => (0, linkChild p new k)

/-- `process_dup`. -/
def processDup (L : Layout) (swap swap2 p : Nat) (k : Kernel) : Option Nat × Kernel :=
  match processNew k with
  | (none, k) => (none, k)
  | (some new, k) =>
    let r := copyProcess L swap swap2 p new k
    if r.1 < 0 then (none, freeProcess new r.2) else (some new, r.2)

/-- `fork`. -/
def fork (L : Layout) (swap swap2 p : Nat) (k : Kernel) : Int × Kernel :=
  match processNew k with
  | (none, k) => (-ENOMEM, k)
  | (some new, k) =>
    let r := copyProcess L swap swap2 p new k
    if r.1 < 0 then (r.1, freeProcess new r.2) else
    let k := r.2.modify new fun pr => { pr with father := some p }
    ((k.proc new).pid, k)

/-! ## Death -/

def Process.setState (state : ProcState) (pr : Process) : Process := { pr with state := state }

def Process.setEndValue (v : Int) (pr : Process) : Process := { pr with endValue := v }

def Process.clearQueue (pr : Process) : Process :=
  { pr with signal := { pr.signal with sigQueue := [] } }

/-- The middle of `process_die_safe`: a father that ignores or handles `SIGCHLD`, or no father,
and the process is freed at once. -/
def notifyFather (p : Nat) (k : Kernel) : Kernel :=
  match (k.proc p).father with
  | some f =>
    let k := (addSignal SIGCHLD (some f) SIG_SOFT k).2
    if ((k.proc f).signal.sigHandler SIGCHLD).isSome
      then freeProcess p (k.modify p (Process.setState .ZOMBIE))
      else k.modify p (Process.setState .ZOMBIE)
  | none => freeProcess p (k.modify p (Process.setState .ZOMBIE))

/-- `process_die_safe`, up to the reload of the scheduler. -/
def processDieSafe (L : Layout) (p : Nat) (k : Kernel) : Kernel :=
  let k := processFreeAllMemory L p k
  let k := notifyFather p (k.modify p Process.clearQueue)
  if k.current = some p then { k with current := none } else k

/-- `process_die`. -/
def processDie (L : Layout) (p : Nat) (k : Kernel) : Kernel := processDieSafe L p k

/-- `exit`; `status` is an `unsigned char`. -/
def exit (L : Layout) (p status : Nat) (k : Kernel) : Kernel :=
  processDie L p (k.modify p (Process.setEndValue (WAIT_EXITCODE (status % 256) 0)))

/-! ## Waiting for a child -/

/-- The reply that a reaped child leaves with its father. -/
def Process.setReply (pid value : Int) (pr : Process) : Process :=
  { pr with waitingPid := pid, waitingReturn := value }

/-- `end_of_child`. -/
def endOfChild (child father : Nat) (k : Kernel) : Kernel :=
  let k := k.modify father (Process.setReply (k.proc child).pid (k.proc child).endValue)
  (freeProcess child k).modify father (Process.setState .RUN)

/-- The child is dead and the father waits for it, or for any. -/
def Reapable (k : Kernel) (p c : Nat) : Prop :=
  (k.proc c).state = .ZOMBIE ∧
    ((k.proc p).waitingPid = -1 ∨ (k.proc c).pid = (k.proc p).waitingPid)

instance (k : Kernel) (p c : Nat) : Decidable (Reapable k p c) :=
  inferInstanceAs (Decidable (_ ∧ _))

/-- `child_ended`. -/
def childEnded (p : Nat) (k : Kernel) : Kernel :=
  match (k.proc p).children.find? fun c => Reapable k p c with
  | some c => endOfChild c p k
  | none => k

/-- The first child that `process_waitpid` stops at. -/
def waitCandidate (k : Kernel) (p : Nat) (waitingOnPid : Int) : Option Nat :=
  (k.proc p).children.find? fun c =>
    waitingOnPid = -1 ∧ (k.proc c).state = .ZOMBIE ∨ (k.proc c).pid = waitingOnPid

/-- What a caller of `process_waitpid` gets: the result and what is stored in `*wstatus`. -/
structure WaitResult where
  ret : Int
  wstatus : Option Int
  deriving DecidableEq

/-- The reply of the father is handed out and taken back. -/
def takeReply (p : Nat) (k : Kernel) : WaitResult × Kernel :=
  (⟨(k.proc p).waitingPid, some (k.proc p).waitingReturn⟩,
    k.modify p fun pr => { pr with waitingReturn := 0 })

/-- `process_waitpid`. -/
def processWaitpid (p : Nat) (waitingOnPid : Int) (option : Nat) (k : Kernel) :
    WaitResult × Kernel :=
  let waitSignal : WaitResult × Kernel :=
    (⟨-EWOULDBLOCK, none⟩,
      k.modify p fun pr => { pr with state := .STOPPED, waitingPid := waitingOnPid })
  if waitingOnPid = 0 ∨ waitingOnPid < -1 then (⟨-EINVAL, none⟩, k) else
  if ((k.proc p).waitingPid = waitingOnPid ∨ waitingOnPid = -1) ∧ (k.proc p).waitingReturn ≠ 0 then
    takeReply p k
  else
  match waitCandidate k p waitingOnPid with
  | some c =>
    if (k.proc c).state = .ZOMBIE then takeReply p (endOfChild c p k)
    else if option &&& WNOHANG = 0 then waitSignal
    else (⟨0, none⟩, k)
  | none =>
    if waitingOnPid ≤ 0 ∧ (k.proc p).children ≠ [] then
      if option &&& WNOHANG ≠ 0 then (⟨0, none⟩, k) else waitSignal
    else (⟨-ECHILD, none⟩, k)

/-! ## Delivery of signals -/

/-- A call of a `shandler`.  A handler in user space is not run by the kernel. -/
def runHandler (L : Layout) (h : Shandler) (p signum : Nat) (k : Kernel) : Kernel :=
  match h with
  | .sigTerm => processDie L p (k.modify p (Process.setEndValue signum))
  | .sigIgn => k
  | .sigCore => processDie L p (k.modify p (Process.setEndValue ((signum &&& WAIT_COREFLAG : Nat))))
  | .sigStop => (k.modify p (Process.setEndValue (WAIT_STOPCODE signum))).modify p
      (Process.setState .STOPPED)
  | .sigCont => (k.modify p (Process.setEndValue WAIT_CONTINUED)).modify p (Process.setState .RUN)
  | .childEnded => childEnded p k
  | .user _ => k

/-- The head of the queue is unlinked. -/
def Process.popSignal (pr : Process) : Process :=
  { pr with signal := { pr.signal with sigQueue := pr.signal.sigQueue.tail } }

/-- `sig_avalaible &= ~mask` for a delivered signal. -/
def Process.unblock (signum : Nat) (pr : Process) : Process :=
  { pr with signal :=
      { pr.signal with
        sigAvalaible := pr.signal.sigAvalaible &&& (0xFFFFFFFF ^^^ blockedMask signum) } }

/-- The handler that `send_signal` calls for the entry `s`; `none` when the number lies outside
the table. -/
def handlerFor (pr : Process) (s : SigQueue) : Option Shandler :=
  if s.state &&& SIG_HARD ≠ 0 then sigHandler[s.sigHandled]?
  else match pr.signal.sigHandler s.sigHandled with
    | none => sigHandler[s.sigHandled]?
    | some h => some h

/-- `send_signal`; `none` when it calls through an address outside the table `sig_handler`. -/
def sendSignal (L : Layout) (p : Nat) (k : Kernel) : Option Kernel :=
  match (k.proc p).signal.sigQueue with
  | [] => some k
  | s :: _ =>
    if (k.proc p).state = .ZOMBIE then some (k.modify p Process.popSignal) else
    if s.state = SIG_EXECUTING then some k else
    (handlerFor (k.proc p) s).map fun h =>
      let k := runHandler L h p s.sigHandled k
      if (k.proc p).state = .ZOMBIE then k
      else k.modify p fun pr => (pr.unblock s.sigHandled).popSignal

end Moonlight
