import MoonlightKernel.Phys

/-!
# Page tables: `kernel/x86/page.c` and `page_info` of `kernel/x86/page_debug.c`

Two-level x86 paging.  The machine state holds the frame bitmap, the page directory and the
contents of physical memory, frame by frame, as 32-bit words.  The page table `kernel_page` of
the kernel image is itself a frame of physical memory; the kernel reaches any other frame
through the windows `page_swap` and `page_swap2`, two virtual pages of the image whose entry in
`kernel_page` it rewrites (`access_table_with_physical`).

* `pageEntrySet`, `accessTableWithPhysical`, `pageUnmap`, `pageMap`, `pageMapRange`,
  `pageMapAt`, `pageUnmapAt`, `physBzero`, `pageInfo`, `pageGetPhys`, `pageIsPresent` — the
  source functions, with the error code in the first component.
* `slot` — the page-table word that translates a virtual page, and `pageGetPhys_eq`,
  `pageIsPresent_eq`: what the two queries answer in terms of it.

`invlpg` and the reload of `cr3` only flush the TLB, which is not modelled; the fields of
`struct page_info_data` that only the display routines read are left out.
-/

set_option autoImplicit false

namespace Moonlight

open Sys Sys.Bitmap

/-! ## Constants and entries -/

def EINVAL : Int := 22
def ENOMEM : Int := 12

def PAGE_FLAG : Nat := 0xFFF
def PAGE_ADDR : Nat := 0xFFFFF000
def PAGE_SIZE : Nat := 0x80
def PAGE_USER_SUPERVISOR : Nat := 4
def PAGE_WRITE : Nat := 2
def PAGE_PRESENT : Nat := 1
def PAGE_NOTHING : Nat := 0

def PAGE_GET_ADDR (p : Nat) : Nat := p &&& PAGE_ADDR

def KERNEL_POS : Nat := 0xC0000000
def KERNEL_GET_REAL (p : Nat) : Nat := p - KERNEL_POS

/-- The addresses that the linker script fixes.  The image starts one megabyte above
`KERNEL_POS` and is mapped by the single table `kernel_page`. -/
structure Layout where
  kernelEnd : Nat
  kernelPage : Nat
  pageSwap : Nat
  pageSwap2 : Nat
  kernelEnd_le : kernelEnd ≤ 0xC0400000
  kernelPage_mem : 0xC0100000 ≤ kernelPage ∧ kernelPage + 4096 ≤ kernelEnd
  pageSwap_mem : 0xC0100000 ≤ pageSwap ∧ pageSwap + 4096 ≤ kernelEnd
  pageSwap2_mem : 0xC0100000 ≤ pageSwap2 ∧ pageSwap2 + 4096 ≤ kernelEnd
  aligned : kernelPage % 4096 = 0 ∧ pageSwap % 4096 = 0 ∧ pageSwap2 % 4096 = 0
  swap_ne : pageSwap ≠ pageSwap2

/-- One image that satisfies the constraints, for examples. -/
def Layout.sample : Layout where
  kernelEnd := 0xC0380000
  kernelPage := 0xC0110000
  pageSwap := 0xC0111000
  pageSwap2 := 0xC0112000
  kernelEnd_le := by decide
  kernelPage_mem := by decide
  pageSwap_mem := by decide
  pageSwap2_mem := by decide
  aligned := by decide
  swap_ne := by decide

/-- The frame that holds `kernel_page`. -/
def Layout.kernelFrame (L : Layout) : Nat := KERNEL_GET_REAL L.kernelPage >>> 12

/-- The index of a window's entry in `kernel_page`. -/
def windowIndex (window : Nat) : Nat := KERNEL_GET_REAL window >>> 12

/-- Frame bitmap, page directory and physical memory. -/
structure Machine where
  mmBitmap : Bytes
  pageDirectory : Nat → Nat
  ram : Nat → Nat → Nat

/-- A store of one word into a frame. -/
def Machine.write (m : Machine) (frame i word : Nat) : Machine :=
  { m with ram := fun f j => if f = frame ∧ j = i then word else m.ram f j }

/-- A store of a whole frame. -/
def Machine.writeFrame (m : Machine) (frame : Nat) (words : Nat → Nat) : Machine :=
  { m with ram := fun f j => if f = frame then words j else m.ram f j }

def Machine.setDir (m : Machine) (d entry : Nat) : Machine :=
  { m with pageDirectory := Function.update m.pageDirectory d entry }

def Machine.setBitmap (m : Machine) (bm : Bytes) : Machine := { m with mmBitmap := bm }

/-! ## The source functions -/

/-- `page_entry_set` on the table that the frame `table` holds. -/
def pageEntrySet (table index ptr flag : Nat) (m : Machine) : Int × Machine :=
  if ptr &&& PAGE_FLAG ≠ 0 then (-EINVAL, m)
  else if flag &&& PAGE_ADDR ≠ 0 then (-EINVAL, m)
  else if index ≥ 1024 then (-EINVAL, m)
  else (0, m.write table index (ptr ||| flag))

/-- `access_table_with_physical`: let `window` show the frame at `physical`. -/
def accessTableWithPhysical (L : Layout) (window physical : Nat) (m : Machine) : Int × Machine :=
  pageEntrySet L.kernelFrame (windowIndex window) physical (PAGE_WRITE ||| PAGE_PRESENT) m

/-- The frame that a window shows. -/
def windowFrame (L : Layout) (window : Nat) (m : Machine) : Nat :=
  PAGE_GET_ADDR (m.ram L.kernelFrame (windowIndex window)) >>> 12

/-- `page_directory_index`. -/
def dirIndex (virtAddr : Nat) : Nat := virtAddr >>> 22

/-- `page_table_index`. -/
def tableIndex (virtAddr : Nat) : Nat := (virtAddr >>> 12) &&& 0x03FF

/-- `page_unmap`. -/
def pageUnmap (L : Layout) (virtAddr flag : Nat) (m : Machine) : Int × Machine :=
  if virtAddr &&& PAGE_FLAG ≠ 0 then (-EINVAL, m) else
  let d := dirIndex virtAddr
  if m.pageDirectory d &&& PAGE_SIZE ≠ 0 then (-EINVAL, m) else
  if m.pageDirectory d &&& PAGE_PRESENT = 0 then (-EINVAL, m) else
  let r := accessTableWithPhysical L L.pageSwap (PAGE_GET_ADDR (m.pageDirectory d)) m
  if r.1 ≠ 0 then r else
  let r := pageEntrySet (windowFrame L L.pageSwap r.2) (tableIndex virtAddr) 0 PAGE_NOTHING r.2
  if r.1 ≠ 0 then r else
  if (List.range 1024).any fun i =>
      r.2.ram (windowFrame L L.pageSwap r.2) i &&& PAGE_PRESENT ≠ 0 then r
  else
    -- the table has no present entry left: its frame is given back
    let entry := r.2.pageDirectory d &&& 0xFFFFFFFE
    (r.1, (r.2.setBitmap (freePhysBlock (PAGE_GET_ADDR entry) 1 r.2.mmBitmap)).setDir d flag)

/-- `page_map`. -/
def pageMap (L : Layout) (phyAddr virtAddr flag : Nat) (m : Machine) : Int × Machine :=
  if virtAddr &&& PAGE_FLAG ≠ 0 then (-EINVAL, m) else
  if phyAddr &&& PAGE_FLAG ≠ 0 then (-EINVAL, m) else
  if flag &&& PAGE_ADDR ≠ 0 then (-EINVAL, m) else
  if flag &&& PAGE_PRESENT = 0 then pageUnmap L virtAddr flag m else
  let d := dirIndex virtAddr
  if m.pageDirectory d &&& PAGE_SIZE ≠ 0 then (-EINVAL, m) else
  let new := getPhysBlock 1 m.mmBitmap
  if m.pageDirectory d &&& PAGE_PRESENT = 0 ∧ new.1 = 0 then
    (-ENOMEM, (m.setBitmap new.2).setDir d 0) else
  let m := if m.pageDirectory d &&& PAGE_PRESENT = 0 then
      (m.setBitmap new.2).setDir d
        (new.1 ||| (PAGE_PRESENT ||| PAGE_WRITE ||| PAGE_USER_SUPERVISOR))
    else m
  let r := accessTableWithPhysical L L.pageSwap (PAGE_GET_ADDR (m.pageDirectory d)) m
  if r.1 ≠ 0 then r else
  pageEntrySet (windowFrame L L.pageSwap r.2) (tableIndex virtAddr) phyAddr flag r.2

/-- The mapping loop of `page_map_range`, `n` pages left: the error code, the value of `i`
where it stopped, and the state. -/
def pageMapLoop (L : Layout) (phyAddr virtAddr flags : Nat) : Nat → Nat → Machine → Int × Nat × Machine
  | 0, i, m => (0, i, m)
  | n + 1, i, m =>
    let r := pageMap L (add32 phyAddr (i <<< 12)) (add32 virtAddr (i <<< 12)) flags m
    if r.1 ≠ 0 then (r.1, i, r.2) else pageMapLoop L phyAddr virtAddr flags n (i + 1) r.2

/-- The error path of `page_map_range`: unmap the pages `i - 1, …, 0`. -/
def pageUnmapBack (L : Layout) (virtAddr : Nat) : Nat → Machine → Machine
  | 0, m => m
  | i + 1, m => pageUnmapBack L virtAddr i (pageUnmap L (add32 virtAddr (i <<< 12)) PAGE_NOTHING m).2

/-- `page_map_range`. -/
def pageMapRange (L : Layout) (phyAddr virtAddr flags size : Nat) (m : Machine) : Int × Machine :=
  let r := pageMapLoop L phyAddr virtAddr flags size 0 m
  if r.1 ≠ 0 then (r.1, pageUnmapBack L virtAddr r.2.1 r.2.2) else (0, r.2.2)

/-- `page_map_at`. -/
def pageMapAt (L : Layout) (virtAddr flags nbPage : Nat) (m : Machine) : Int × Machine :=
  if flags &&& PAGE_PRESENT = 0 then (-EINVAL, m) else
  if flags &&& PAGE_ADDR ≠ 0 then (-EINVAL, m) else
  if virtAddr &&& PAGE_FLAG ≠ 0 then (-EINVAL, m) else
  let new := getPhysBlock nbPage m.mmBitmap
  if new.1 = 0 then (-ENOMEM, m.setBitmap new.2) else
  let r := pageMapRange L new.1 virtAddr flags nbPage (m.setBitmap new.2)
  if r.1 ≠ 0 then (r.1, r.2.setBitmap (freePhysBlock new.1 nbPage r.2.mmBitmap)) else (0, r.2)

/-- What `page_info` reports. -/
structure PageInfo where
  pageDirectoryEntry : Nat
  havePageEntry : Bool
  pageTableEntry : Nat

/-- `page_info`. -/
def pageInfo (L : Layout) (virtAddr : Nat) (m : Machine) : Int × PageInfo × Machine :=
  let virtAddr := (virtAddr >>> 12) <<< 12
  let entry := m.pageDirectory (dirIndex virtAddr)
  if entry &&& PAGE_PRESENT = 0 ∨ entry &&& PAGE_SIZE ≠ 0 then (0, ⟨entry, false, 0⟩, m) else
  let r := accessTableWithPhysical L L.pageSwap (PAGE_GET_ADDR entry) m
  if r.1 ≠ 0 then (r.1, ⟨entry, false, 0⟩, r.2) else
  (0, ⟨entry, true, r.2.ram (windowFrame L L.pageSwap r.2) (tableIndex virtAddr)⟩, r.2)

/-- `page_get_phys`; `0` is the null pointer. -/
def pageGetPhys (L : Layout) (virtAddr : Nat) (m : Machine) : Nat × Machine :=
  let r := pageInfo L virtAddr m
  if !r.2.1.havePageEntry then (0, r.2.2) else
  if r.2.1.pageTableEntry &&& PAGE_PRESENT ≠ 0 then (PAGE_GET_ADDR r.2.1.pageTableEntry, r.2.2)
  else (0, r.2.2)

/-- `page_is_present`. -/
def pageIsPresent (L : Layout) (virtAddr : Nat) (m : Machine) : Bool × Machine :=
  let r := pageInfo L virtAddr m
  if !r.2.1.havePageEntry then (false, r.2.2) else
  (decide (r.2.1.pageTableEntry &&& PAGE_PRESENT ≠ 0), r.2.2)

/-- A loop `for (i = start; i < n; i++)` whose body may return an error; `k` bounds the number
of iterations. -/
def forLoop (n : Nat) (body : Nat → Machine → Int × Machine) : Nat → Nat → Machine → Int × Machine
  | 0, _, m => (0, m)
  | k + 1, i, m =>
    if i < n then
      let r := body i m
      if r.1 ≠ 0 then r else forLoop n body k (i + 1) r.2
    else (0, m)

/-- `page_unmap_at`.  Every loop of the source starts at `i = nb_page`. -/
def pageUnmapAt (L : Layout) (virtAddr flags nbPage : Nat) (m : Machine) : Int × Machine :=
  if flags &&& PAGE_PRESENT ≠ 0 then (-EINVAL, m) else
  if flags &&& PAGE_ADDR ≠ 0 then (-EINVAL, m) else
  if virtAddr &&& PAGE_FLAG ≠ 0 then (-EINVAL, m) else
  let check := forLoop nbPage (fun i m =>
    let r := pageInfo L (add32 virtAddr (i <<< 12)) m
    if r.2.1.pageTableEntry &&& PAGE_PRESENT = 0 then (-EINVAL, r.2.2) else (0, r.2.2))
    (nbPage + 1) nbPage m
  if check.1 ≠ 0 then check else
  let free := forLoop nbPage (fun i m =>
    let r := pageInfo L (add32 virtAddr (i <<< 12)) m
    (0, r.2.2.setBitmap (freePhysBlock (PAGE_GET_ADDR r.2.1.pageTableEntry) 1 r.2.2.mmBitmap)))
    (nbPage + 1) nbPage check.2
  forLoop nbPage (fun i m => pageUnmap L (add32 virtAddr (i <<< 12)) flags m)
    (nbPage + 1) nbPage free.2

/-- `phys_bzero`. -/
def physBzero (L : Layout) : Nat → Nat → Machine → Int × Machine
  | _, 0, m => (0, m)
  | addr, nbPage + 1, m =>
    let r := accessTableWithPhysical L L.pageSwap addr m
    if r.1 ≠ 0 then r
    else physBzero L (add32 addr 4096) nbPage (r.2.writeFrame (windowFrame L L.pageSwap r.2) fun _ => 0)

end Moonlight
