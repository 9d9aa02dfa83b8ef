import MoonlightKernel.Heap.Circulation
import MoonlightKernel.Process.Blocks

/-!
# The process layer on the kernel's heap

The functions that make and end a process, once more, with the calls of `kmalloc` and `kfree` of
`MoonlightKernel.Heap`: a record comes from a region of the heap, a region from frames and page
tables, and these are the frames and tables that the maps of the processes come from too.

* `World`, with `kmalloc`, `kfree` and the stores;
* the functions, from `addSignal` to `sendSignal`, each under the source's name and with its calls
  in the source's order.

A `struct sig_queue` has no entry in `Records`: the source unlinks it and never frees it.  The
contents of the records are the fields of `Kernel`, whose stream of answers `kmallocs` is not used;
`MoonlightKernel.Process.OnHeap` has the functions on the stream and those on the heap side by side.
-/

set_option autoImplicit false

namespace Moonlight

open Sys Sys.Bitmap

def sizeofProcess : Nat := 292

def sizeofMapMemory : Nat := 24

def sizeofChildren : Nat := 12

def sizeofSigQueue : Nat := 16

/-- The kernel, the addresses of the records of its processes, and the heap with its live results;
`calls` is the log of the calls of `kmalloc`. -/
structure World where
  kernel : Kernel
  recs : Nat → Records
  mem : Mem
  mmVirtHeap : Bytes
  heapList : List Nat
  live : List Live
  calls : List Call

namespace World

/-- The heap and what is live in it. -/
def client (w : World) : Client Machine :=
  ⟨⟨w.mem, w.mmVirtHeap, w.heapList, w.kernel.machine⟩, w.live⟩

def setClient (w : World) (c : Client Machine) : World :=
  { w with
    kernel := w.kernel.setMachine c.heap.low
    mem := c.heap.mem
    mmVirtHeap := c.heap.mmVirtHeap
    heapList := c.heap.heapList
    live := c.live }

def setKernel (w : World) (k : Kernel) : World := { w with kernel := k }

def setMachine (w : World) (m : Machine) : World := w.setKernel (w.kernel.setMachine m)

/-- A store into the process `p`. -/
def modify (w : World) (p : Nat) (f : Process → Process) : World := w.setKernel (w.kernel.modify p f)

/-- A change of the lists of records of the process `p`. -/
def record (w : World) (p : Nat) (f : Records → Records) : World :=
  { w with recs := Function.update w.recs p (f (w.recs p)) }

/-- The heap maps of the process `p` and their records. -/
def storeHeap (w : World) (p : Nat) (maps : List MapMemory) (recs : List Nat) : World :=
  (w.modify p fun pr => { pr with mmHeap := maps }).record p fun r => { r with heap := recs }

def storeStack (w : World) (p : Nat) (maps : List MapMemory) (recs : List Nat) : World :=
  (w.modify p fun pr => { pr with mmStack := maps }).record p fun r => { r with stack := recs }

section stores

variable (w : World) (p : Nat)

@[simp] theorem modify_kernel (f : Process → Process) :
    (w.modify p f).kernel = w.kernel.modify p f := rfl

@[simp] theorem modify_recs (f : Process → Process) : (w.modify p f).recs = w.recs := rfl

@[simp] theorem record_kernel (f : Records → Records) : (w.record p f).kernel = w.kernel := rfl

@[simp] theorem record_recs_self (f : Records → Records) : (w.record p f).recs p = f (w.recs p) :=
  Function.update_self ..

theorem record_recs_of_ne {q : Nat} (f : Records → Records) (h : q ≠ p) :
    (w.record p f).recs q = w.recs q := Function.update_of_ne h ..

theorem storeHeap_kernel (maps : List MapMemory) (recs : List Nat) :
    (w.storeHeap p maps recs).kernel = w.kernel.modify p fun pr => { pr with mmHeap := maps } := rfl

theorem storeHeap_recs (maps : List MapMemory) (recs : List Nat) :
    (w.storeHeap p maps recs).recs = Function.update w.recs p { w.recs p with heap := recs } := rfl

theorem storeStack_kernel (maps : List MapMemory) (recs : List Nat) :
    (w.storeStack p maps recs).kernel = w.kernel.modify p fun pr => { pr with mmStack := maps } := rfl

theorem storeStack_recs (maps : List MapMemory) (recs : List Nat) :
    (w.storeStack p maps recs).recs = Function.update w.recs p { w.recs p with stack := recs } := rfl

@[simp] theorem setKernel_kernel (k : Kernel) : (w.setKernel k).kernel = k := rfl

@[simp] theorem setKernel_recs (k : Kernel) : (w.setKernel k).recs = w.recs := rfl

@[simp] theorem setMachine_recs (m : Machine) : (w.setMachine m).recs = w.recs := rfl

end stores

section calls

variable (L : Layout) (word : Machine → Nat → Nat)

/-- `kmalloc`; `none` is the null pointer. -/
def kmalloc (n : Nat) (w : World) : Option Nat × World :=
  let r := w.client.kmalloc L word n
  (if r.1 = 0 then none else some r.1, { w.setClient r.2 with calls := w.calls ++ [⟨w.client, n⟩] })

/-- `kfree`. -/
def kfree (a : Nat) (w : World) : World := w.setClient (w.client.kfree L word a)

/-! ## Creation and removal -/

/-- `process_alloc_pid`. -/
def processAllocPid (p : Nat) (w : World) : Int × World :=
  let r := Moonlight.processAllocPid p w.kernel
  (r.1, w.setKernel r.2)

/-- `process_new`. -/
def processNew (w : World) : Option Nat × World :=
  match w.kmalloc L word sizeofProcess with
  | (none, w) => (none, w)
  | (some a, w) => (some a, (w.modify a fun _ => Process.zero).record a fun _ => .empty)

/-- The record of the child `p` leaves the list of its father and is freed. -/
def dropChild (f p : Nat) (w : World) : World :=
  let c := (w.recs f).children.find? fun c => c.1 = p
  let w := w.record f fun r => { r with children := r.children.eraseP fun c => c.1 = p }
  match c with
  | some c => w.kfree L word c.2
  | none => w

/-- A record of the children of a freed process: it goes to `init`, or it is freed. -/
def moveRecord (init : Option Nat) (w : World) (c : Nat × Nat) : World :=
  match init with
  | some q => w.record q fun r => { r with children := c :: r.children }
  | none => w.kfree L word c.2

/-- `free_process`: the lists of processes are changed first, the records are freed in the order of
the source. -/
def freeProcess (p : Nat) (w : World) : World :=
  let k := { w.kernel with processList := w.kernel.processList.erase p }
  let w := w.setKernel (Moonlight.freeProcess p w.kernel)
  let w := match (k.proc p).father with
    | some f => w.dropChild L word f p
    | none => w
  let w := (w.recs p).children.foldl (moveRecord L word (processGetWithPid k 1)) w
  (w.record p fun r => { r with children := [] }).kfree L word p

/-! ## Signals -/

/-- `add_signal`. -/
def addSignal (sig : Int) (proc : Option Nat) (type : Nat) (w : World) : Int × World :=
  if sig = 0 then (0, w) else
  if (type &&& SIG_HARD ≠ 0 ∧ type &&& SIG_SOFT ≠ 0) ∨
      (type &&& SIG_HARD = 0 ∧ type &&& SIG_SOFT = 0) then (-EINVAL, w) else
  match proc with
  | none => (-EINVAL, w)
  | some p =>
    if (w.kernel.proc p).state = .ZOMBIE then (-EINVAL, w) else
    if sig < 0 ∨ sig > 34 then (-EINVAL, w) else
    if type &&& SIG_HARD = 0 ∧ SIG_UNAVAILABLE (w.kernel.proc p).signal.sigAvalaible sig.toNat then
      (0, w) else
    match w.kmalloc L word sizeofSigQueue with
    | (none, w) => (-ENOMEM, w)
    | (some _, w) => (0, w.modify p (Process.queueSignal sig.toNat type))

/-- The entries of a queue are queued for a child, one after the other. -/
def copySignals (new : Nat) (queue : List SigQueue) (w : World) : World :=
  queue.foldl (fun w s => (w.addSignal L word s.sigHandled (some new) s.state).2) w

/-! ## `fork` -/

/-- The loop of `copy_process` over one list of maps; `copied` and `recs` are the child's list so
far and the addresses of its records. -/
def copyMaps (swap swap2 : Nat) :
    List MapMemory → List MapMemory → List Nat → World → Int × List MapMemory × List Nat × World
  | [], copied, recs, w => (0, copied, recs, w)
  | pm :: rest, copied, recs, w =>
    match w.kmalloc L word sizeofMapMemory with
    | (none, w) => (-1, copied, recs, w)
    | (some a, w) =>
      let r := processCopyMemBlock L swap swap2 pm w.kernel.machine
      let w := w.setMachine r.2.2
      if r.1 < 0 then (-1, copied, recs, w.kfree L word a)
      else copyMaps swap swap2 rest (r.2.1 :: copied) (a :: recs) w

/-- The memory part of `copy_process`. -/
def copyMemory (swap swap2 p new : Nat) (w : World) : Int × World :=
  let r := copyMaps L word swap swap2 (w.kernel.proc p).mmHeap [] [] w
  let w := r.2.2.2.storeHeap new r.2.1 r.2.2.1
  if r.1 < 0 then (-1, w) else
  let r := copyMaps L word swap swap2 (w.kernel.proc p).mmStack [] [] w
  let w := r.2.2.2.storeStack new r.2.1 r.2.2.1
  if r.1 < 0 then (-1, w) else
  let r := processCopyMemBlock L swap swap2 (w.kernel.proc p).mmCode w.kernel.machine
  let w := (w.setMachine r.2.2).modify new fun pr => { pr with mmCode := r.2.1 }
  if r.1 < 0 then (-1, w) else (0, w)

/-- The last lines of `copy_process`: the child's record `c` goes to the list of its father. -/
def linkChild (p new c : Nat) (w : World) : World :=
  ((w.setKernel (Moonlight.linkChild p new w.kernel)).record new
    fun r => { r with children := [] }).record p fun r => { r with children := (new, c) :: r.children }

/-- `copy_process`. -/
def copyProcess (swap swap2 p new : Nat) (w : World) : Int × World :=
  let r := processAllocPid new w
  if r.1 < 0 then (-1, r.2) else
  let r := copyMemory L word swap swap2 p new r.2
  if r.1 < 0 then (-1, r.2) else
  let w := copySignals L word new (r.2.kernel.proc p).signal.sigQueue r.2
  match w.kmalloc L word sizeofChildren with
  | (none, w) => (-1, w)
  | (some c, w) => (0, linkChild p new c w)

/-- `fork`. -/
def fork (swap swap2 p : Nat) (w : World) : Int × World :=
  match w.processNew L word with
  | (none, w) => (-ENOMEM, w)
  | (some new, w) =>
    let r := copyProcess L word swap swap2 p new w
    if r.1 < 0 then (r.1, freeProcess L word new r.2) else
    let w := r.2.modify new fun pr => { pr with father := some p }
    ((w.kernel.proc new).pid, w)

/-! ## Death -/

/-- A map with its record: the pages are unmapped, the frames and the record are freed. -/
def freeRecord (isCurrent : Bool) (w : World) (x : MapMemory × Nat) : World :=
  (w.setMachine (freeMap L isCurrent x.1 w.kernel.machine)).kfree L word x.2

/-- `process_free_all_memory`. -/
def processFreeAllMemory (p : Nat) (w : World) : World :=
  let isCurrent := decide (w.kernel.current = some p)
  let pr := w.kernel.proc p
  let r := w.recs p
  let w := (pr.mmHeap.zip r.heap).foldl (freeRecord L word isCurrent) w
  let w := (pr.mmStack.zip r.stack).foldl (freeRecord L word isCurrent) w
  let w := w.setMachine (freeMap L isCurrent pr.mmCode w.kernel.machine)
  (w.modify p Process.dropMaps).record p fun r => { r with heap := [], stack := [] }

/-- The middle of `process_die_safe`. -/
def notifyFather (p : Nat) (w : World) : World :=
  match (w.kernel.proc p).father with
  | some f =>
    let w := (w.addSignal L word SIGCHLD (some f) SIG_SOFT).2
    if ((w.kernel.proc f).signal.sigHandler SIGCHLD).isSome
      then freeProcess L word p (w.modify p (Process.setState .ZOMBIE))
      else w.modify p (Process.setState .ZOMBIE)
  | none => freeProcess L word p (w.modify p (Process.setState .ZOMBIE))

/-- `process_die_safe`: the entries of the signal queue are unlinked, with no call of `kfree`. -/
def processDieSafe (p : Nat) (w : World) : World :=
  let w := processFreeAllMemory L word p w
  let w := notifyFather L word p (w.modify p Process.clearQueue)
  if w.kernel.current = some p then w.setKernel { w.kernel with current := none } else w

/-- `process_die`. -/
def processDie (p : Nat) (w : World) : World := processDieSafe L word p w

/-- `exit`. -/
def exit (p status : Nat) (w : World) : World :=
  processDie L word p (w.modify p (Process.setEndValue (WAIT_EXITCODE (status % 256) 0)))

/-! ## Waiting for a child -/

/-- `end_of_child`. -/
def endOfChild (child father : Nat) (w : World) : World :=
  let w := w.modify father (Process.setReply (w.kernel.proc child).pid (w.kernel.proc child).endValue)
  (freeProcess L word child w).modify father (Process.setState .RUN)

/-- `child_ended`. -/
def childEnded (p : Nat) (w : World) : World :=
  match (w.kernel.proc p).children.find? fun c => Reapable w.kernel p c with
  | some c => endOfChild L word c p w
  | none => w

/-- The reply of the father is handed out and taken back. -/
def takeReply (p : Nat) (w : World) : WaitResult × World :=
  let r := Moonlight.takeReply p w.kernel
  (r.1, w.setKernel r.2)

/-- `process_waitpid`. -/
def processWaitpid (p : Nat) (waitingOnPid : Int) (option : Nat) (w : World) : WaitResult × World :=
  let waitSignal : WaitResult × World :=
    (⟨-EWOULDBLOCK, none⟩,
      w.modify p fun pr => { pr with state := .STOPPED, waitingPid := waitingOnPid })
  if waitingOnPid = 0 ∨ waitingOnPid < -1 then (⟨-EINVAL, none⟩, w) else
  if ((w.kernel.proc p).waitingPid = waitingOnPid ∨ waitingOnPid = -1) ∧
      (w.kernel.proc p).waitingReturn ≠ 0 then takeReply p w
  else
  match waitCandidate w.kernel p waitingOnPid with
  | some c =>
    if (w.kernel.proc c).state = .ZOMBIE then takeReply p (endOfChild L word c p w)
    else if option &&& WNOHANG = 0 then waitSignal
    else (⟨0, none⟩, w)
  | none =>
    if waitingOnPid ≤ 0 ∧ (w.kernel.proc p).children ≠ [] then
      if option &&& WNOHANG ≠ 0 then (⟨0, none⟩, w) else waitSignal
    else (⟨-ECHILD, none⟩, w)

/-! ## Delivery of signals -/

/-- A call of a `shandler`. -/
def runHandler (h : Shandler) (p signum : Nat) (w : World) : World :=
  match h with
  | .sigTerm => processDie L word p (w.modify p (Process.setEndValue signum))
  | .sigIgn => w
  | .sigCore => processDie L word p (w.modify p (Process.setEndValue ((signum &&& WAIT_COREFLAG : Nat))))
  | .sigStop => (w.modify p (Process.setEndValue (WAIT_STOPCODE signum))).modify p
      (Process.setState .STOPPED)
  | .sigCont => (w.modify p (Process.setEndValue WAIT_CONTINUED)).modify p (Process.setState .RUN)
  | .childEnded => childEnded L word p w
  | .user _ => w

/-- `send_signal`: the head of the queue is unlinked, with no call of `kfree`. -/
def sendSignal (p : Nat) (w : World) : Option World :=
  match (w.kernel.proc p).signal.sigQueue with
  | [] => some w
  | s :: _ =>
    if (w.kernel.proc p).state = .ZOMBIE then some (w.modify p Process.popSignal) else
    if s.state = SIG_EXECUTING then some w else
    (handlerFor (w.kernel.proc p) s).map fun h =>
      let w := runHandler L word h p s.sigHandled w
      if (w.kernel.proc p).state = .ZOMBIE then w
      else w.modify p fun pr => (pr.unblock s.sigHandled).popSignal

end calls

end World

end Moonlight
