import MoonlightKernel.Process.State

/-!
# The memory of a process

`kernel/process/process.c` (`process_memory_add`, `mmap_get_block`, `munmap`),
`process_free_all_memory` of `process_die.c` and `process_copy_mem_block` of `copy_process.c`.

* `MapRef` — a pointer to one of the records of a process, as `mmap_get_block` returns it;
* `munmapBlock`, `munmap` — `none` when the source would unlink a record that is in no list (the code map).

A `char` array on the kernel's stack is given by its address (`swap` and `swap2` of
`process_copy_mem_block`).
-/

set_option autoImplicit false

namespace Moonlight

/-! ## `process_memory_add` -/

/-- The list a new map goes to; `PROC_MEM_ADD_IMEDIATE` has been cleared from `pflags`. -/
def Process.addMap (pflags : Nat) (pm : MapMemory) (pr : Process) : Option Process :=
  if pflags = PROC_MEM_ADD_HEAP then some { pr with mmHeap := pm :: pr.mmHeap }
  else if pflags = PROC_MEM_ADD_STACK then some { pr with mmStack := pm :: pr.mmStack }
  else if pflags = PROC_MEM_ADD_CODE then some { pr with mmCode := pm }
  else none

/-- `process_memory_add` once `get_phys_block` has succeeded. -/
def processMemoryFill (L : Layout) (p : Nat) (pm : MapMemory) (pflags : Nat) (k : Kernel) :
    Int × Kernel :=
  let err2 (ret : Int) (m : Machine) : Int × Kernel :=
    (ret, k.setMachine (m.setBitmap (freePhysBlock pm.pAddr pm.size m.mmBitmap)))
  let r := physBzero L pm.pAddr pm.size k.machine
  if r.1 ≠ 0 then err2 r.1 r.2 else
  let r := if pflags &&& PROC_MEM_ADD_IMEDIATE ≠ 0
    then pageMapRange L pm.pAddr pm.vAddr pm.flags pm.size r.2 else (0, r.2)
  if r.1 ≠ 0 then err2 r.1 r.2 else
  let pflags := if pflags &&& PROC_MEM_ADD_IMEDIATE ≠ 0
    then pflags - PROC_MEM_ADD_IMEDIATE else pflags
  match (k.proc p).addMap pflags pm with
  | some pr => (0, (k.setMachine r.2).modify p fun _ => pr)
  | none => err2 (-EINVAL) r.2

/-- `process_memory_add`. -/
def processMemoryAdd (L : Layout) (p size vAddr mflags pflags : Nat) (k : Kernel) : Int × Kernel :=
  let size := add32 size (vAddr - (vAddr &&& PAGE_ADDR))
  let vAddr := vAddr &&& PAGE_ADDR
  let size := if size % 4096 ≠ 0 then (size >>> 12) + 1 else size >>> 12
  let q := pageGetPhys L vAddr k.machine
  let k := k.setMachine q.2
  if q.1 ≠ 0 then (-ENOMEM, k) else
  if mflags &&& PAGE_PRESENT = 0 then (-EINVAL, k) else
  match k.kmalloc with
  | (none, k) => (-ENOMEM, k)
  | (some _, k) =>
    let new := getPhysBlock size k.machine.mmBitmap
    let k := k.setMachine (k.machine.setBitmap new.2)
    if new.1 = 0 then (-ENOMEM, k)
    else processMemoryFill L p ⟨vAddr, new.1, size, mflags⟩ pflags k

/-! ## `munmap` -/

/-- `mmap_get_number_of_page`. -/
def mmapGetNumberOfPage (size : Nat) : Nat :=
  if size % 4096 ≠ 0 then add32 size 4096 >>> 12 else size >>> 12

/-- The map contains the address. -/
def MapMemory.contains (pm : MapMemory) (addr : Nat) : Bool :=
  decide (pm.vAddr ≤ addr ∧ addr < add32 pm.vAddr (pm.size <<< 12))

/-- `mmap_get_block_l`: the position of the first record that contains the address. -/
def mmapGetBlockL (b : List MapMemory) (addr : Nat) : Option Nat :=
  b.findIdx? fun pm => pm.contains addr

/-- A pointer to a map of a process. -/
inductive MapRef
  | stack (i : Nat)
  | heap (i : Nat)
  | code
  deriving DecidableEq

/-- The record that a reference points to. -/
def Process.map (pr : Process) : MapRef → MapMemory
  | .stack i => pr.mmStack.getD i pr.mmCode
  | .heap i => pr.mmHeap.getD i pr.mmCode
  | .code => pr.mmCode

/-- `mmap_get_block`. -/
def mmapGetBlock (pr : Process) (addr : Nat) : Option MapRef :=
  match mmapGetBlockL pr.mmStack addr with
  | some i => some (.stack i)
  | none =>
    match mmapGetBlockL pr.mmHeap addr with
    | some i => some (.heap i)
    | none => if pr.mmCode.contains addr then some .code else none

/-- The record at position `i` of a list is replaced by the records `new`. -/
def replaceAt (maps : List MapMemory) (i : Nat) (new : List MapMemory) : List MapMemory :=
  maps.take i ++ new ++ maps.drop (i + 1)

/-- The list surgery at the end of `munmap`: a record for the pages behind the hole is added
after the block, and the block is shortened or, with nothing before the hole, deleted. -/
def Process.punch (ref : MapRef) (sizeBefore : Nat) (newMap : Option MapMemory) (pr : Process) :
    Option Process :=
  let block := pr.map ref
  let kept := if sizeBefore = 0 then [] else [{ block with size := sizeBefore }]
  match ref with
  | .stack i => some { pr with mmStack := replaceAt pr.mmStack i (kept ++ newMap.toList) }
  | .heap i => some { pr with mmHeap := replaceAt pr.mmHeap i (kept ++ newMap.toList) }
  | .code =>
    -- `mm_code` is in no list: only the shortening is defined
    if newMap.isNone ∧ sizeBefore ≠ 0 then
      some { pr with mmCode := { block with size := sizeBefore } }
    else none

/-- `munmap` of `size` pages from `addr` on, once the block has been found. -/
def munmapBlock (L : Layout) (p addr size : Nat) (ref : MapRef) (k : Kernel) :
    Option (Int × Kernel) :=
  let block := (k.proc p).map ref
  let sizeBefore := sub32 addr block.vAddr >>> 12
  let size := if sub32 block.size sizeBefore ≤ size then sub32 block.size sizeBefore else size
  let sizeAfter := sub32 (sub32 block.size size) sizeBefore
  let alloc := if sizeAfter ≠ 0 then k.kmalloc else (some 0, k)
  let k := alloc.2
  if alloc.1 = none then some (-ENOMEM, k) else
  let newMap : Option MapMemory := if sizeAfter ≠ 0 then
      some { vAddr := add32 block.vAddr (add32 size sizeBefore <<< 12)
             pAddr := add32 block.pAddr (add32 size sizeBefore <<< 12)
             size := sizeAfter
             flags := block.flags }
    else none
  let r := if k.current = some p then
      pageMapRange L 0 (add32 block.vAddr (sizeAfter <<< 12)) PAGE_NOTHING size k.machine
    else (0, k.machine)
  if r.1 ≠ 0 then some (r.1, k.setMachine r.2) else
  let m := r.2.setBitmap
    (freePhysBlock (add32 block.pAddr (sizeAfter <<< 12)) size r.2.mmBitmap)
  ((k.proc p).punch ref sizeBefore newMap).map fun pr =>
    (0, (k.setMachine m).modify p fun _ => pr)

/-- The highest address that `munmap` accepts. -/
def maxAddr (flags : Nat) : Nat :=
  if flags &&& MAP_KERNEL_SPACE = 0 then KERNEL_POS - 4096 else 0xFFFFF000

/-- `munmap`. -/
def munmap (L : Layout) (p addr size flags : Nat) (k : Kernel) : Option (Int × Kernel) :=
  if size = 0 ∨ addr &&& PAGE_FLAG ≠ 0 ∨ add32 addr size ≤ addr then some (-EINVAL, k) else
  if add32 addr size > add32 (maxAddr flags) 4096 then some (-EINVAL, k) else
  match mmapGetBlock (k.proc p) addr with
  | none => some (-EINVAL, k)
  | some ref => munmapBlock L p addr (mmapGetNumberOfPage size) ref k

/-! ## `process_free_all_memory` -/

/-- The release of one map; the page tables are touched only for the current process. -/
def freeMap (L : Layout) (isCurrent : Bool) (pm : MapMemory) (m : Machine) : Machine :=
  let m := if isCurrent then (pageUnmapAt L pm.vAddr pm.flags pm.size m).2 else m
  m.setBitmap (freePhysBlock pm.pAddr pm.size m.mmBitmap)

/-- The maps of a process in the order in which they are released. -/
def Process.maps (pr : Process) : List MapMemory := pr.mmHeap ++ pr.mmStack ++ [pr.mmCode]

/-- The records of the heap and the stack are freed; the code record stays in the process. -/
def Process.dropMaps (pr : Process) : Process := { pr with mmHeap := [], mmStack := [] }

/-- `process_free_all_memory`. -/
def processFreeAllMemory (L : Layout) (p : Nat) (k : Kernel) : Kernel :=
  let isCurrent := decide (k.current = some p)
  (k.setMachine ((k.proc p).maps.foldl (fun m pm => freeMap L isCurrent pm m) k.machine)).modify p
    Process.dropMaps

/-! ## `process_copy_mem_block` -/

/-- `memcpy(page_swap, page_swap2, 4096)`. -/
def copyWindow (L : Layout) (m : Machine) : Machine :=
  m.writeFrame (windowFrame L L.pageSwap m) (m.ram (windowFrame L L.pageSwap2 m))

/-- The copy loop, with the number of passes left. -/
def copyLoop (L : Layout) (dst src : Nat) : Nat → Machine → Machine
  | 0, m => m
  | n + 1, m =>
    let m := (accessTableWithPhysical L L.pageSwap dst m).2
    let m := (accessTableWithPhysical L L.pageSwap2 src m).2
    copyLoop L dst src n (copyWindow L m)

/-- `process_copy_mem_block`: the error code, the record `*new_pm`, and the machine. -/
def processCopyMemBlock (L : Layout) (swap swap2 : Nat) (pm : MapMemory) (m : Machine) :
    Int × MapMemory × Machine :=
  let new := getPhysBlock pm.size m.mmBitmap
  let m := m.setBitmap new.2
  let newPm := { pm with pAddr := new.1 }
  if new.1 = 0 then (-1, newPm, m) else
  let m := (pageGetPhys L swap m).2
  let q := pageGetPhys L swap2 m
  -- `i` runs over the bytes of the map, in steps of one page
  let m := copyLoop L new.1 pm.pAddr (pm.size * 4096 % 2 ^ 32 / 4096) q.2
  let m := (pageMap L q.1 swap pm.flags m).2
  let m := (pageMap L q.1 swap2 pm.flags m).2
  (0, newPm, m)

end Moonlight
