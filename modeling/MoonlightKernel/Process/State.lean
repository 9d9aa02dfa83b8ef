import MoonlightKernel.Paging

/-!
# The state of the process layer: `inc/process.h`, `inc/signal.h`, `inc/list.h`

A `struct process` is named by its address.  The circular lists of the source are lists of their
members, in list order: `process_list` of process addresses, `children` of the processes its
records point to, `mm_heap`, `mm_stack` and the signal queue of the records themselves.

* `Process`, `Kernel` — the records and the global variables;
* `Kernel.modify` — a store into one process;
* `Kernel.kmalloc` — the allocation of a record.

What `kmalloc` and `kfree` do to the heap is the subject of `MoonlightKernel.Heap`; a record's
allocation is here only the address it returns (or the null pointer), taken from the stream
`kmallocs`, and `kfree` of a record is not visible.  The saved registers are left out.
-/

set_option autoImplicit false

namespace Moonlight

/-! ## Constants -/

def EPERM : Int := 1
def ESRCH : Int := 3
def ECHILD : Int := 10
def EAGAIN : Int := 11
def EWOULDBLOCK : Int := 11

def PROC_MEM_ADD_IMEDIATE : Nat := 1
def PROC_MEM_ADD_HEAP : Nat := 2
def PROC_MEM_ADD_STACK : Nat := 4
def PROC_MEM_ADD_CODE : Nat := 8

def PROC_MIN_PID : Int := 1
def PROC_MAX_PID : Int := 0xfff

def SIG_SOFT : Nat := 1
def SIG_HARD : Nat := 2
def SIG_EXECUTING : Nat := 4
def SIG_NOT_EXECUTING : Nat := 8

def SIGKILL : Nat := 9
def SIGCHLD : Nat := 17

def MAP_KERNEL_SPACE : Nat := 8

def WAIT_EXITCODE (ret sig : Nat) : Int := ((ret <<< 8 ||| sig : Nat) : Int)
def WAIT_STOPCODE (sig : Nat) : Int := ((sig <<< 8 ||| 0x7f : Nat) : Int)
def WAIT_CONTINUED : Int := 0xffff
def WAIT_COREFLAG : Nat := 0x80

def WNOHANG : Nat := 1

/-! ## Records -/

/-- The `state` of a `struct process`. -/
inductive ProcState
  | RUN | STOPPED | ZOMBIE | THREAD
  deriving DecidableEq

/-- `struct map_memory`; `size` is in pages. -/
structure MapMemory where
  vAddr : Nat
  pAddr : Nat
  size : Nat
  flags : Nat
  deriving DecidableEq

/-- A `shandler`: one of the kernel's own functions, or an address below `KERNEL_POS`. -/
inductive Shandler
  | sigTerm | sigIgn | sigCore | sigStop | sigCont | childEnded
  | user (addr : Nat)
  deriving DecidableEq

/-- `struct sig_queue`. -/
structure SigQueue where
  sigHandled : Nat
  state : Nat
  deriving DecidableEq

/-- `struct signal`. -/
structure Signal where
  sigQueue : List SigQueue
  sigAvalaible : Nat
  sigHandler : Nat → Option Shandler

/-- `struct process`. -/
structure Process where
  state : ProcState
  pid : Int
  uid : Nat
  father : Option Nat
  children : List Nat
  waitingPid : Int
  waitingReturn : Int
  endValue : Int
  mmHeap : List MapMemory
  mmStack : List MapMemory
  mmCode : MapMemory
  signal : Signal

/-- A `struct process` after `bzero` and the initialisation of its lists. -/
def Process.zero : Process where
  state := .RUN
  pid := 0
  uid := 0
  father := none
  children := []
  waitingPid := 0
  waitingReturn := 0
  endValue := 0
  mmHeap := []
  mmStack := []
  mmCode := ⟨0, 0, 0, 0⟩
  signal := ⟨[], 0, fun _ => none⟩

/-- The store of `signal` into the table of handlers. -/
def Process.setHandler (signum : Nat) (h : Option Shandler) (pr : Process) : Process :=
  { pr with signal :=
      { pr.signal with sigHandler := Function.update pr.signal.sigHandler signum h } }

/-- The global state of the kernel. -/
structure Kernel where
  machine : Machine
  /-- What the next calls of `kmalloc` return; `none` is the null pointer. -/
  kmallocs : Nat → Option Nat
  current : Option Nat
  processList : List Nat
  proc : Nat → Process
  lastPid : Int

namespace Kernel

/-- A store into the process `p`. -/
def modify (k : Kernel) (p : Nat) (f : Process → Process) : Kernel :=
  { k with proc := Function.update k.proc p (f (k.proc p)) }

def setMachine (k : Kernel) (m : Machine) : Kernel := { k with machine := m }

/-- `kmalloc` of a record, as far as the process layer sees it: an answer.  The call on the heap is
`World.kmalloc`. -/
def kmalloc (k : Kernel) : Option Nat × Kernel :=
  (k.kmallocs 0, { k with kmallocs := fun i => k.kmallocs (i + 1) })

@[simp] theorem modify_machine (k : Kernel) (p : Nat) (f : Process → Process) :
    (k.modify p f).machine = k.machine := rfl

@[simp] theorem modify_kmallocs (k : Kernel) (p : Nat) (f : Process → Process) :
    (k.modify p f).kmallocs = k.kmallocs := rfl

@[simp] theorem modify_current (k : Kernel) (p : Nat) (f : Process → Process) :
    (k.modify p f).current = k.current := rfl

@[simp] theorem modify_processList (k : Kernel) (p : Nat) (f : Process → Process) :
    (k.modify p f).processList = k.processList := rfl

theorem modify_proc (k : Kernel) (p q : Nat) (f : Process → Process) :
    (k.modify p f).proc q = if q = p then f (k.proc p) else k.proc q :=
  Function.update_apply ..

@[simp] theorem modify_proc_self (k : Kernel) (p : Nat) (f : Process → Process) :
    (k.modify p f).proc p = f (k.proc p) := Function.update_self ..

theorem modify_proc_of_ne (k : Kernel) {p q : Nat} (h : q ≠ p) (f : Process → Process) :
    (k.modify p f).proc q = k.proc q := Function.update_of_ne h ..

theorem modify_modify (k : Kernel) (p : Nat) (f g : Process → Process) :
    (k.modify p f).modify p g = k.modify p fun pr => g (f pr) := by
  unfold modify
  simp only [Function.update_self, Function.update_idem]

theorem kmalloc_eq {k k' : Kernel} {a : Option Nat} (h : k.kmalloc = (a, k')) :
    k.kmallocs 0 = a ∧ k' = k.kmalloc.2 := by
  rw [h]
  exact ⟨congrArg Prod.fst h, rfl⟩

@[simp] theorem kmalloc_machine (k : Kernel) : k.kmalloc.2.machine = k.machine := rfl

@[simp] theorem kmalloc_current (k : Kernel) : k.kmalloc.2.current = k.current := rfl

@[simp] theorem kmalloc_processList (k : Kernel) : k.kmalloc.2.processList = k.processList := rfl

@[simp] theorem kmalloc_proc (k : Kernel) : k.kmalloc.2.proc = k.proc := rfl

end Kernel

end Moonlight
