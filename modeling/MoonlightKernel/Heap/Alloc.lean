import MoonlightKernel.Lib.Bitmap
import MoonlightKernel.Paging

/-!
# The kernel heap: `kernel/mem/heap_setup.c`

A *region* is a run of virtual pages that starts with a `struct heap_list` and is tiled by
blocks, each with an `alloc_header` in front.  The headers live in the memory that they
describe, so the heap is modelled over a memory of 32-bit words; a header is one word with the
size in the low 31 bits and the free flag in the top bit, and `heap_list` has its
`page_size : 31` and `virtual : 1` in the same places.

The code calls the frame allocator and the page tables.  It is generic here in what these are
(`Backing`): a theorem about every `Backing` allows each of those calls to succeed or to fail.
`MoonlightKernel.Heap.Frames` instantiates it with the real ones.

The list `heap_start.list` is a list of region addresses, and pointers into a region are
natural numbers.  Sizes are 32-bit words and wrap, and so does the address at which the walks
through a region stop.
-/

set_option autoImplicit false

namespace Moonlight

open Sys Sys.Bitmap

/-! ## Constants and words -/

def HEAP_SIZE : Nat := 0x1000000

def HEAP_START (L : Layout) : Nat := 0x400000 + PAGE_ALIGN L.kernelEnd

def HEAP_END (L : Layout) : Nat := HEAP_START L + HEAP_SIZE

/-- `sizeof(struct heap_list)`, which is aligned to 32. -/
def heapListSize : Nat := 32

/-- `sizeof(struct alloc_header)`, which is aligned to 16. -/
def headerSize : Nat := 16

/-- `MALLOC_ALIGN`. -/
def MALLOC_ALIGN (p : Nat) : Nat := if p % 16 ≠ 0 then add32 (p - p % 16) 16 else p

/-- Memory, by byte address; the words at multiples of four are the ones in use. -/
abbrev Mem := Nat → Nat

/-- The 31-bit field of a word. -/
def low31 (word : Nat) : Nat := word % 2 ^ 31

/-- The one-bit field of a word. -/
def top1 (word : Nat) : Nat := word / 2 ^ 31 % 2

/-- Store to the 31-bit field of the word at `a`. -/
def Mem.setLow31 (mem : Mem) (a v : Nat) : Mem :=
  Function.update mem a (top1 (mem a) * 2 ^ 31 + v % 2 ^ 31)

/-- Store to the one-bit field of the word at `a`. -/
def Mem.setTop1 (mem : Mem) (a v : Nat) : Mem :=
  Function.update mem a (v % 2 * 2 ^ 31 + low31 (mem a))

/-- The calls of the heap into the rest of the kernel, over a state `σ`. -/
structure Backing (σ : Type) where
  getPhysBlock : Nat → σ → Nat × σ
  freePhysBlock : Nat → Nat → σ → σ
  pageMap : Nat → Nat → Nat → σ → Int × σ
  pageMapRange : Nat → Nat → Nat → Nat → σ → Int × σ
  pageGetPhys : Nat → σ → Nat × σ
  /-- The word that a freshly mapped address shows. -/
  word : σ → Nat → Nat

/-- Heap memory, the bitmap of its virtual pages (a set bit is a free page), the region list
and the state of the rest of the kernel. -/
structure Heap (σ : Type) where
  mem : Mem
  mmVirtHeap : Bytes
  heapList : List Nat
  low : σ

/-- `heap_setup`. -/
def heapSetup {σ : Type} (h : Heap σ) : Heap σ :=
  { h with heapList := [], mmVirtHeap := fun i => if i < HEAP_SIZE / 8 then 0xFF else h.mmVirtHeap i }

/-! ## The virtual page bitmap -/

/-- `alloc_virt_block`. -/
def allocVirtBlock (L : Layout) : Nat → Nat → Bytes → Bytes
  | _, 0, bm => bm
  | start, size + 1, bm =>
    allocVirtBlock L (start + 4096) size
      (clearBit bm ((start - HEAP_START L) >>> 15) (((start - HEAP_START L) >>> 12) % 8))

/-- `free_virt_block`. -/
def freeVirtBlock (L : Layout) : Nat → Nat → Bytes → Bytes
  | _, 0, bm => bm
  | start, size + 1, bm =>
    freeVirtBlock L (start + 4096) size
      (setBit bm ((start - HEAP_START L) >>> 15) (((start - HEAP_START L) >>> 12) % 8))

/-- `find_free_virt_addr`. -/
def findFreeVirtAddr (L : Layout) (size : Nat) (bm : Bytes) : Nat × Bytes :=
  let size := PAGE_ALIGN size >>> 12
  match scanBytes bm size (HEAP_SIZE / (8 * 4096)) 0 0 with
  | some p => ((p <<< 12) + HEAP_START L, allocVirtBlock L ((p <<< 12) + HEAP_START L) size bm)
  | none => (0, bm)

/-! ## Blocks -/

/-- The memory writes of `init_new_allocated_block`. -/
def initNewAllocatedBlock (virtAddr size virtual : Nat) (mem : Mem) : Mem :=
  let beginAllocHeader := virtAddr + heapListSize
  let mem := mem.setLow31 virtAddr (sub32 size heapListSize)
  let mem := mem.setTop1 virtAddr virtual
  let mem := mem.setLow31 beginAllocHeader (sub32 (sub32 size heapListSize) headerSize)
  mem.setTop1 beginAllocHeader 1

/-- `heap_entry + heap_entry->page_size`, where every walk through a region stops. -/
def walkEnd (heapEntry : Nat) (mem : Mem) : Nat := add32 heapEntry (low31 (mem heapEntry))

/-- The loop of `try_allocate`; `fuel` bounds the number of headers. -/
def tryAllocateLoop (limit allocSize : Nat) : Nat → Nat → Mem → Nat × Mem
  | 0, _, mem => (0, mem)
  | fuel + 1, head, mem =>
    if head < limit then
      if allocSize < low31 (mem head) ∧ top1 (mem head) ≠ 0 then
        let mem :=
          if low31 (mem head) > headerSize + 16 then
            let newHead := head + headerSize + allocSize
            let mem := mem.setTop1 newHead 1
            let mem := mem.setLow31 newHead (sub32 (low31 (mem head)) (add32 headerSize allocSize))
            mem.setLow31 head allocSize
          else mem
        (head + headerSize, mem.setTop1 head 0)
      else tryAllocateLoop limit allocSize fuel (head + headerSize + low31 (mem head)) mem
    else (0, mem)

/-- `try_allocate`.  Every header takes the walk at least 16 bytes further, so the fuel is
enough. -/
def tryAllocate (heapEntry allocSize : Nat) (mem : Mem) : Nat × Mem :=
  tryAllocateLoop (walkEnd heapEntry mem) (MALLOC_ALIGN allocSize) (low31 (mem heapEntry))
    (heapEntry + heapListSize) mem

/-- The search of `kmalloc` (`virtual = 0`) and `vmalloc` (`virtual = 1`) through the list. -/
def firstFit (virtual size : Nat) : List Nat → Mem → Option (Nat × Mem)
  | [], _ => none
  | heapEntry :: rest, mem =>
    if top1 (mem heapEntry) = virtual ∧ low31 (mem heapEntry) ≠ 0 then
      let ret := tryAllocate heapEntry size mem
      if ret.1 ≠ 0 then some ret else firstFit virtual size rest ret.2
    else firstFit virtual size rest mem

/-- Bytes of the region that a request of `size` bytes asks for. -/
def regionSize (size : Nat) : Nat := PAGE_ALIGN (add32 (add32 size heapListSize) headerSize)

/-- Newly mapped pages show the contents of their frames. -/
def reveal {σ : Type} (B : Backing σ) (s : σ) (virtAddr size : Nat) (mem : Mem) : Mem :=
  fun a => if virtAddr ≤ a ∧ a < virtAddr + size then B.word s a else mem a

/-- The end of `kmalloc` and `vmalloc`: set up the new region and allocate from it. -/
def addRegion {σ : Type} (B : Backing σ) (virtual newVirtAddr size : Nat) (h : Heap σ) : Nat × Heap σ :=
  let mem := reveal B h.low newVirtAddr (regionSize size) h.mem
  let mem := initNewAllocatedBlock newVirtAddr (regionSize size) virtual mem
  let ret := tryAllocate newVirtAddr size mem
  (ret.1, { h with mem := ret.2, heapList := newVirtAddr :: h.heapList })

/-- `kmalloc`; `0` is the null pointer. -/
def kmalloc {σ : Type} (L : Layout) (B : Backing σ) (size : Nat) (h : Heap σ) : Nat × Heap σ :=
  if size = 0 then (0, h) else
  match firstFit 0 size h.heapList h.mem with
  | some ret => (ret.1, { h with mem := ret.2 })
  | none =>
    let virt := findFreeVirtAddr L (regionSize size) h.mmVirtHeap
    let h := { h with mmVirtHeap := virt.2 }
    if virt.1 = 0 then (0, h) else
    let phys := B.getPhysBlock (regionSize size >>> 12) h.low
    let h := { h with low := phys.2 }
    if phys.1 = 0 then
      (0, { h with mmVirtHeap := freeVirtBlock L virt.1 (PAGE_ALIGN size >>> 12) h.mmVirtHeap }) else
    let map := B.pageMapRange phys.1 virt.1 (PAGE_WRITE ||| PAGE_PRESENT) (regionSize size >>> 12) h.low
    if map.1 ≠ 0 then
      (0, { h with
        low := B.freePhysBlock phys.1 (PAGE_ALIGN size >>> 12) map.2
        mmVirtHeap := freeVirtBlock L virt.1 (PAGE_ALIGN size >>> 12) h.mmVirtHeap }) else
    addRegion B 0 virt.1 size { h with low := map.2 }

/-- The mapping loop of `vmalloc`, `n` pages left.  On a failure it returns
`last_virt_addr_mapped`; a frame that could not be mapped has been given back. -/
def vmallocMap {σ : Type} (B : Backing σ) : Nat → Nat → Nat → σ → Except (Nat × σ) σ
  | 0, _, _, s => .ok s
  | n + 1, tmpVirtAddr, last, s =>
    let phys := B.getPhysBlock 1 s
    if phys.1 = 0 then .error (last, phys.2) else
    let map := B.pageMap phys.1 tmpVirtAddr (PAGE_WRITE ||| PAGE_PRESENT) phys.2
    if map.1 ≠ 0 then .error (last, B.freePhysBlock phys.1 1 map.2) else
    vmallocMap B n (tmpVirtAddr + 4096) tmpVirtAddr map.2

/-- `free_phys_block(page_get_phys(a), 1)` for `n` pages from `a` on. -/
def freeMapped {σ : Type} (B : Backing σ) : Nat → Nat → σ → σ
  | 0, _, s => s
  | n + 1, a, s =>
    let phys := B.pageGetPhys a s
    freeMapped B n (a + 4096) (B.freePhysBlock phys.1 1 phys.2)

/-- `vmalloc`; `0` is the null pointer. -/
def vmalloc {σ : Type} (L : Layout) (B : Backing σ) (size : Nat) (h : Heap σ) : Nat × Heap σ :=
  if size = 0 then (0, h) else
  match firstFit 1 size h.heapList h.mem with
  | some ret => (ret.1, { h with mem := ret.2 })
  | none =>
    let virt := findFreeVirtAddr L (regionSize size) h.mmVirtHeap
    let h := { h with mmVirtHeap := virt.2 }
    if virt.1 = 0 then (0, h) else
    match vmallocMap B (regionSize size >>> 12) virt.1 virt.1 h.low with
    | .error (last, s) =>
      (0, { h with
        low := freeMapped B ((last - virt.1) >>> 12) virt.1 s
        mmVirtHeap := freeVirtBlock L virt.1 (PAGE_ALIGN size >>> 12) h.mmVirtHeap })
    | .ok s => addRegion B 1 virt.1 size { h with low := s }

/-! ## Release -/

/-- The inner loop of `vdefrag` and `kdefrag`: absorb the free blocks after `head`. -/
def absorbLoop (limit head : Nat) : Nat → Nat → Mem → Mem
  | 0, _, mem => mem
  | fuel + 1, tmp, mem =>
    if tmp < limit ∧ top1 (mem tmp) ≠ 0 then
      let mem := mem.setLow31 head (low31 (mem head) + (low31 (mem tmp) + headerSize))
      absorbLoop limit head fuel (tmp + headerSize + low31 (mem tmp)) mem
    else mem

/-- The outer loop of `vdefrag` and `kdefrag`. -/
def defragLoop (limit : Nat) : Nat → Nat → Mem → Mem
  | 0, _, mem => mem
  | fuel + 1, head, mem =>
    if head < limit then
      if top1 (mem head) = 0 then
        defragLoop limit fuel (head + headerSize + low31 (mem head)) mem
      else
        let tmp := head + headerSize + low31 (mem head)
        let mem := absorbLoop limit head (limit - tmp) tmp mem
        defragLoop limit fuel (head + headerSize + low31 (mem head)) mem
    else mem

/-- The two loops on one region. -/
def defragMem (heapEntry : Nat) (mem : Mem) : Mem :=
  defragLoop (walkEnd heapEntry mem) (low31 (mem heapEntry)) (heapEntry + heapListSize) mem

/-- The test at the end of `vdefrag` and `kdefrag`: one free block covers the region. -/
def coversRegion (heapEntry : Nat) (mem : Mem) : Bool :=
  low31 (mem heapEntry) = low31 (mem (heapEntry + heapListSize)) + headerSize ∧
    top1 (mem (heapEntry + heapListSize)) ≠ 0

/-- `vdefrag`. -/
def vdefrag {σ : Type} (L : Layout) (B : Backing σ) (heapEntry : Nat) (h : Heap σ) : Heap σ :=
  let h := { h with mem := defragMem heapEntry h.mem }
  if coversRegion heapEntry h.mem then
    let pages := PAGE_ALIGN (low31 (h.mem heapEntry)) >>> 12
    { h with
      heapList := h.heapList.erase heapEntry
      low := freeMapped B pages heapEntry h.low
      mmVirtHeap := freeVirtBlock L heapEntry pages h.mmVirtHeap }
  else h

/-- `kdefrag`. -/
def kdefrag {σ : Type} (L : Layout) (B : Backing σ) (heapEntry : Nat) (h : Heap σ) : Heap σ :=
  let h := { h with mem := defragMem heapEntry h.mem }
  if coversRegion heapEntry h.mem then
    let pages := PAGE_ALIGN (low31 (h.mem heapEntry)) >>> 12
    let phys := B.pageGetPhys heapEntry h.low
    { h with
      heapList := h.heapList.erase heapEntry
      mmVirtHeap := freeVirtBlock L heapEntry pages h.mmVirtHeap
      low := B.freePhysBlock phys.1 pages phys.2 }
  else h

/-- The walk of `_free` and `ksize` through one region for the header of `ptr`. -/
def findHead (limit ptr : Nat) (mem : Mem) : Nat → Nat → Option Nat
  | 0, _ => none
  | fuel + 1, head =>
    if head < limit then
      if ptr = head + headerSize then some head
      else findHead limit ptr mem fuel (head + headerSize + low31 (mem head))
    else none

/-- The walk of `_free` and `ksize` through the regions: the region and the header of `ptr`. -/
def lookup (ptr : Nat) (mem : Mem) : List Nat → Option (Nat × Nat)
  | [] => none
  | heapEntry :: rest =>
    if ptr > heapEntry then
      match findHead (walkEnd heapEntry mem) ptr mem (low31 (mem heapEntry))
          (heapEntry + heapListSize) with
      | some head => some (heapEntry, head)
      | none => lookup ptr mem rest
    else lookup ptr mem rest

/-- `_free`. -/
def free {σ : Type} (defrag : Nat → Heap σ → Heap σ) (ptr : Nat) (h : Heap σ) : Heap σ :=
  if ptr = 0 then h else
  match lookup ptr h.mem h.heapList with
  | some (heapEntry, head) => defrag heapEntry { h with mem := h.mem.setTop1 head 1 }
  | none => h

/-- `kfree`. -/
def kfree {σ : Type} (L : Layout) (B : Backing σ) (ptr : Nat) (h : Heap σ) : Heap σ :=
  free (kdefrag L B) ptr h

/-- `vfree`. -/
def vfree {σ : Type} (L : Layout) (B : Backing σ) (ptr : Nat) (h : Heap σ) : Heap σ :=
  free (vdefrag L B) ptr h

/-- `ksize`. -/
def ksize {σ : Type} (ptr : Nat) (h : Heap σ) : Nat :=
  match lookup ptr h.mem h.heapList with
  | some (_, head) => low31 (h.mem head)
  | none => 0

end Moonlight
