import Mathlib.Algebra.BigOperators.Group.Finset.Basic
import Mathlib.Data.Fin.VecNotation
import MoonlightKernel.Acpi.PhysicalCopy
import MoonlightKernel.Heap.Frames
import MoonlightKernel.Heap.Sizes

/-!
# Loading an ACPI table: `get_ACPIHeader` and `acpiCheckHeader` of `power_off.c`

The header of a table is copied first, for its `Length`, and then the table, into a block for
`sizeof(struct ACPISDTHeader) + Length` bytes.  The sum is made on words and may wrap, and the
check of the sum of the bytes counts down from `Length` as an `int`.

* `getACPIHeader`, `acpiCheckHeader` — the functions; the contents of the heap blocks are bytes
  apart from the words of the heap;
* `TableLoaded` — what an accepted table should be;
* `acpi_table_loaded_iff` — when it is.
-/

set_option autoImplicit false

namespace Moonlight

open Sys

/-! ## The functions -/

/-- `sizeof(struct ACPISDTHeader)`. -/
def sizeofACPISDTHeader : Nat := 36

/-- The field `Length` of the header at `ptr`. -/
def lengthField (data : Nat → UInt8) (ptr : Nat) : BitVec 32 :=
  BitVec.ofNat 32 ((data (ptr + 4)).toNat + (data (ptr + 5)).toNat * 2 ^ 8 +
    (data (ptr + 6)).toNat * 2 ^ 16 + (data (ptr + 7)).toNat * 2 ^ 24)

/-- The loop of `acpiCheckHeader`, for some number of passes. -/
def checksumLoop (data : Nat → UInt8) : Nat → Nat → UInt8 → UInt8
  | 0, _, check => check
  | n + 1, checkPtr, check => checksumLoop data n (checkPtr + 1) (check + data checkPtr)

/-- `acpiCheckHeader`. -/
def acpiCheckHeader (data : Nat → UInt8) (ptr : Nat) (sig : Fin 4 → UInt8) : Int :=
  if ∀ i : Fin 4, data (ptr + i) = sig i then
    -- `while (0<len--)`: a negative `len` makes no pass
    let check := checksumLoop data (lengthField data ptr).toInt.toNat ptr 0
    if check = 0 then 0 else -1
  else -1

/-- The start of `get_ACPIHeader`: the pointer `h1` with the header that is copied to it. -/
def copyHeader (L : Layout) (B : Backing Machine) (addr : Nat) (h : Heap Machine)
    (data : Cells UInt8) : Nat × Heap Machine × Cells UInt8 :=
  let r := kmalloc L B sizeofACPISDTHeader h
  if r.1 = 0 then (0, r.2, data)
  else
    let c := copyWithPhysical L r.1 addr sizeofACPISDTHeader r.2.low data
    (r.1, { r.2 with low := c.2.1 }, c.2.2)

/-- The end of `get_ACPIHeader`: the table is copied to the block `r`, and `h1` is freed. -/
def copyTable (L : Layout) (B : Backing Machine) (addr size : Nat)
    (h1 : Nat × Heap Machine × Cells UInt8) (r : Nat × Heap Machine) :
    Nat × Heap Machine × Cells UInt8 :=
  if r.1 = 0 then (0, kfree L B h1.1 r.2, h1.2.2)
  else
    let c := copyWithPhysical L r.1 addr size r.2.low h1.2.2
    (r.1, kfree L B h1.1 { r.2 with low := c.2.1 }, c.2.2)

section get

variable (L : Layout) (B : Backing Machine) (addr : Nat) (h : Heap Machine) (data : Cells UInt8)

/-- `h1->Length`. -/
def firstLength : Nat :=
  let h1 := copyHeader L B addr h data
  (lengthField h1.2.2.val h1.1).toNat

/-- `sizeof(struct ACPISDTHeader) + h1->Length`. -/
def tableBytes : Nat := add32 sizeofACPISDTHeader (firstLength L B addr h data)

/-- The allocation of the table. -/
def tableAlloc : Nat × Heap Machine :=
  kmalloc L B (tableBytes L B addr h data) (copyHeader L B addr h data).2.1

/-- `get_ACPIHeader`; `0` is the null pointer. -/
def getACPIHeader : Nat × Heap Machine × Cells UInt8 :=
  if (copyHeader L B addr h data).1 = 0 then copyHeader L B addr h data
  else copyTable L B addr (tableBytes L B addr h data) (copyHeader L B addr h data)
    (tableAlloc L B addr h data)

end get

/-! ## The sum of the bytes -/

/-- The sum of `n` bytes from `p` on. -/
def byteSum (data : Nat → UInt8) (p n : Nat) : Nat :=
  ∑ i ∈ Finset.range n, (data (p + i)).toNat

section sums

variable {data : Nat → UInt8}

/-- **The loop** adds the bytes up, modulo 256. -/
theorem checksumLoop_toNat (n p : Nat) (check : UInt8) :
    (checksumLoop data n p check).toNat = (check.toNat + byteSum data p n) % 256 := by
  induction n generalizing p check with
  | zero =>
    have hlt := check.toNat_lt
    rw [checksumLoop, byteSum, Finset.sum_range_zero, Nat.add_zero, Nat.mod_eq_of_lt hlt]
  | succ n ih =>
    have hsum : byteSum data p (n + 1) = byteSum data (p + 1) n + (data p).toNat := by
      unfold byteSum
      rw [Finset.sum_range_succ']
      simp only [Nat.add_zero, Nat.add_assoc, Nat.add_comm 1]
    rw [checksumLoop, ih, UInt8.toNat_add, hsum]
    omega

/-- **What `acpiCheckHeader` accepts**. -/
theorem acpiCheckHeader_iff (ptr : Nat) (sig : Fin 4 → UInt8) :
    acpiCheckHeader data ptr sig = 0 ↔ (∀ i : Fin 4, data (ptr + i) = sig i) ∧
      byteSum data ptr (lengthField data ptr).toInt.toNat % 256 = 0 := by
  have hsum : ∀ n, checksumLoop data n ptr 0 = 0 ↔ byteSum data ptr n % 256 = 0 := by
    intro n
    rw [← UInt8.toNat_inj, checksumLoop_toNat]
    simp
  unfold acpiCheckHeader
  by_cases hsig : ∀ i : Fin 4, data (ptr + i) = sig i
  · rw [if_pos hsig, and_iff_right hsig, ← hsum]
    dsimp only
    split
    · rename_i h
      exact iff_of_true rfl h
    · rename_i h
      exact iff_of_false (by decide) h
  · rw [if_neg hsig]
    exact iff_of_false (by decide) fun h => hsig h.1

end sums

/-! ## The table that is loaded -/

/-- What an accepted table should be: of the `filled` bytes that were copied into a block of `block`
bytes at `ptr`, the first `Length` ones are the table, with its signature and checksum. -/
structure TableLoaded (sig : Fin 4 → UInt8) (filled block : Nat) (data : Nat → UInt8) (ptr : Nat) :
    Prop where
  signature : ∀ i : Fin 4, data (ptr + i) = sig i
  copied : (lengthField data ptr).toNat ≤ filled
  inside : (lengthField data ptr).toNat ≤ block
  checksum : byteSum data ptr (lengthField data ptr).toNat % 256 = 0

/-- A length below `2 ^ 31` is the number of passes of the check. -/
theorem toInt_toNat_of_lt {x : BitVec 32} (h : x.toNat < 2 ^ 31) : x.toInt.toNat = x.toNat := by
  rw [BitVec.toInt_eq_toNat_of_lt (by omega), Int.toNat_natCast]

/-- An accepted table is loaded when its length is inside what was copied and inside the block. -/
theorem tableLoaded_iff_of_accepted {data : Nat → UInt8} {ptr filled block : Nat}
    {sig : Fin 4 → UInt8} (hcheck : acpiCheckHeader data ptr sig = 0) (hblock : block < 2 ^ 31) :
    TableLoaded sig filled block data ptr ↔
      (lengthField data ptr).toNat ≤ filled ∧ (lengthField data ptr).toNat ≤ block := by
  obtain ⟨hsig, hsum⟩ := (acpiCheckHeader_iff ptr sig).mp hcheck
  refine ⟨fun h => ⟨h.copied, h.inside⟩, fun h => ⟨hsig, h.1, h.2, ?_⟩⟩
  rwa [toInt_toNat_of_lt (lt_of_le_of_lt h.2 hblock)] at hsum

section get

variable {L : Layout} {B : Backing Machine} {addr : Nat} {h : Heap Machine} {data : Cells UInt8}

theorem copyTable_fst (size : Nat) (h1 : Nat × Heap Machine × Cells UInt8)
    (r : Nat × Heap Machine) : (copyTable L B addr size h1 r).1 = r.1 := by
  unfold copyTable
  split
  · rename_i hr
    exact hr.symm
  · rfl

/-- A table that is returned was allocated. -/
theorem getACPIHeader_fst (hptr : (getACPIHeader L B addr h data).1 ≠ 0) :
    (getACPIHeader L B addr h data).1 = (tableAlloc L B addr h data).1 := by
  have h1 : (copyHeader L B addr h data).1 ≠ 0 := by
    intro h1
    unfold getACPIHeader at hptr
    rw [if_pos h1] at hptr
    exact hptr h1
  unfold getACPIHeader
  rw [if_neg h1]
  exact copyTable_fst _ _ _

theorem tableBytes_eq : tableBytes L B addr h data = add32 36 (firstLength L B addr h data) := by
  unfold tableBytes sizeofACPISDTHeader
  exact Eq.refl _

/-- The block holds what is copied where the length that is added is below `2 ^ 31`. -/
theorem bytes_le_block {n f block : Nat} (hn : n = add32 36 f) (hf : f < 2 ^ 31)
    (hblock : MALLOC_ALIGN n ≤ block) : f ≤ n ∧ n ≤ block := by
  rw [add32_of_lt (by omega)] at hn
  have halign : n ≤ MALLOC_ALIGN n := (MALLOC_ALIGN_spec (by omega)).1
  omega

/-! ## Tables for which the heap has room -/

variable (B data)

/-- The header that is copied from `addr`. -/
def headerAt (L : Layout) (m : Machine) (addr i : Nat) : UInt8 := copiedByte L m ((addr + i) % 2 ^ 32)

theorem lengthField_congr {f g : Nat → UInt8} {p q : Nat}
    (hfg : ∀ i, 4 ≤ i → i < 8 → f (p + i) = g (q + i)) : lengthField f p = lengthField g q := by
  unfold lengthField
  rw [hfg 4 (by decide) (by decide), hfg 5 (by decide) (by decide), hfg 6 (by decide) (by decide),
    hfg 7 (by decide) (by decide)]

theorem add_headerSize_ne_zero (y : Nat) : ¬ y + headerSize = 0 := Nat.succ_ne_zero _

/-- The header is copied into a block of the list. -/
theorem copyHeader_served (haddr : addr < 2 ^ 32) {e y : Nat}
    (hfit : firstFitHead 0 36 h.mem h.heapList = some (e, y)) :
    ∃ (f : Nat) (copied : Cells UInt8), copyHeader L B addr h data =
        (y + headerSize, { h with mem := place 48 y h.mem, low := h.low.swap2To L f }, copied) ∧
      ∀ i < 36, copied.val (y + headerSize + i) = headerAt L h.low addr i := by
  obtain ⟨copied, hcopy, hval, -⟩ := copyWithPhysical_spec (L := L) haddr (y + headerSize) 36 h.low
    data
  have halign : MALLOC_ALIGN 36 = 48 := MALLOC_ALIGN_of_le (by decide)
  refine ⟨(addr + 35) % 2 ^ 32 / 4096, copied, ?_, fun i hi => ?_⟩
  · unfold copyHeader sizeofACPISDTHeader
    rw [kmalloc_served (by decide) hfit, halign]
    dsimp only
    rw [if_neg (add_headerSize_ne_zero y), hcopy, if_neg (by decide)]
  · rw [hval, if_pos (by omega), Nat.add_sub_cancel_left]
    rfl

/-- **Both blocks are blocks of the list**: the table is copied as it is in memory, and its length is
read twice from the same bytes. -/
theorem getACPIHeader_served (haddr : addr < 2 ^ 32) {e y e' y' n : Nat}
    (hn : n = add32 36 (lengthField (headerAt L h.low addr) 0).toNat) (hne : n ≠ 0)
    (hfit : firstFitHead 0 36 h.mem h.heapList = some (e, y))
    (hfit' : firstFitHead 0 n (place 48 y h.mem) h.heapList = some (e', y')) :
    firstLength L B addr h data = (lengthField (headerAt L h.low addr) 0).toNat ∧
      (getACPIHeader L B addr h data).1 = y' + headerSize ∧
      ∀ i < n, (getACPIHeader L B addr h data).2.2.val (y' + headerSize + i) =
        headerAt L h.low addr i := by
  obtain ⟨f, copied, hcopy, hval⟩ := copyHeader_served B data haddr hfit
  have hfirst : firstLength L B addr h data = (lengthField (headerAt L h.low addr) 0).toNat := by
    unfold firstLength
    rw [hcopy]
    refine congrArg BitVec.toNat (lengthField_congr fun i _ hi => ?_)
    rw [hval i (by omega), Nat.zero_add]
  have hbytes : tableBytes L B addr h data = n := by rw [tableBytes_eq, hfirst, hn]
  have halloc : tableAlloc L B addr h data = (y' + headerSize,
      { h with mem := place (MALLOC_ALIGN n) y' (place 48 y h.mem), low := h.low.swap2To L f }) := by
    unfold tableAlloc
    rw [hbytes, hcopy]
    exact kmalloc_served hne hfit'
  obtain ⟨table, htable, hread, -⟩ := copyWithPhysical_spec (L := L) haddr (y' + headerSize) n
    (h.low.swap2To L f) copied
  have hget : getACPIHeader L B addr h data = copyTable L B addr n
      (y + headerSize, { h with mem := place 48 y h.mem, low := h.low.swap2To L f }, copied)
      (y' + headerSize,
        { h with mem := place (MALLOC_ALIGN n) y' (place 48 y h.mem), low := h.low.swap2To L f }) := by
    unfold getACPIHeader
    rw [hcopy, halloc, hbytes]
    exact if_neg (add_headerSize_ne_zero y)
  rw [hget]
  refine ⟨hfirst, copyTable_fst _ _ _, fun i hi => ?_⟩
  unfold copyTable
  dsimp only
  rw [if_neg (add_headerSize_ne_zero y'), htable]
  dsimp only
  rw [hread, if_pos (by omega), Nat.add_sub_cancel_left, copiedByte_swap2To]
  rfl

/-- A table whose length field is copied is checked as it is in memory. -/
theorem acpiCheckHeader_served {g data : Nat → UInt8} {ptr n : Nat} (sig : Fin 4 → UInt8)
    (hread : ∀ i < n, data (ptr + i) = g i) (h8 : 8 ≤ n) (hlen : (lengthField g 0).toInt.toNat ≤ n) :
    lengthField data ptr = lengthField g 0 ∧
      (acpiCheckHeader data ptr sig = 0 ↔ acpiCheckHeader g 0 sig = 0) := by
  have hlength : lengthField data ptr = lengthField g 0 := lengthField_congr fun i _ hi => by
    rw [hread i (by omega), Nat.zero_add]
  have hsum : byteSum data ptr (lengthField g 0).toInt.toNat =
      byteSum g 0 (lengthField g 0).toInt.toNat := by
    refine Finset.sum_congr rfl fun i hi => ?_
    rw [hread i (lt_of_lt_of_le (Finset.mem_range.mp hi) hlen), Nat.zero_add]
  refine ⟨hlength, ?_⟩
  rw [acpiCheckHeader_iff, acpiCheckHeader_iff, hlength, hsum]
  refine and_congr_left fun _ => forall_congr' fun i => ?_
  rw [hread i (by omega), Nat.zero_add]

/-- Such a table is accepted when it passes the check in memory, and both lengths are its own. -/
theorem accepted_served (haddr : addr < 2 ^ 32) {e y e' y' n : Nat} {sig : Fin 4 → UInt8}
    (hn : n = add32 36 (lengthField (headerAt L h.low addr) 0).toNat) (h8 : 8 ≤ n)
    (hlen : (lengthField (headerAt L h.low addr) 0).toInt.toNat ≤ n)
    (hfit : firstFitHead 0 36 h.mem h.heapList = some (e, y))
    (hfit' : firstFitHead 0 n (place 48 y h.mem) h.heapList = some (e', y'))
    (hcheck : acpiCheckHeader (headerAt L h.low addr) 0 sig = 0) :
    (getACPIHeader L B addr h data).1 ≠ 0 ∧
      acpiCheckHeader (getACPIHeader L B addr h data).2.2.val
        (getACPIHeader L B addr h data).1 sig = 0 ∧
      lengthField (getACPIHeader L B addr h data).2.2.val (getACPIHeader L B addr h data).1 =
        lengthField (headerAt L h.low addr) 0 ∧
      firstLength L B addr h data = (lengthField (headerAt L h.low addr) 0).toNat := by
  obtain ⟨hfirst, hptr, hread⟩ := getACPIHeader_served B data haddr hn
    (Nat.ne_of_gt (lt_of_lt_of_le (by decide) h8)) hfit hfit'
  rw [← hptr] at hread
  obtain ⟨hlength, haccept⟩ := acpiCheckHeader_served sig hread h8 hlen
  refine ⟨?_, haccept.mpr hcheck, hlength, hfirst⟩
  rw [hptr]
  exact add_headerSize_ne_zero y'

end get

/-! ## Two tables -/

/-- `"DSDT"`. -/
def dsdt : Fin 4 → UInt8 := ![0x44, 0x53, 0x44, 0x54]

/-- A memory where each page starts with a table: its length, and the word with its checksum. -/
def tableMachine (length check : Nat) : Machine where
  mmBitmap _ := 0
  pageDirectory _ := 0
  ram _ i := if i = 0 then 0x54445344 else if i = 1 then length else if i = 2 then check else 0

/-- A heap with one region, which is free. -/
def tableHeap (m : Machine) : Heap Machine where
  mem a := if a = 0xC0780000 then 4064 else if a = 0xC0780020 then 2 ^ 31 + 4048 else 0
  mmVirtHeap _ := 0
  heapList := [0xC0780000]
  low := m

/-! ## The tables that are loaded -/

/-- **An accepted table is loaded** exactly when its length is inside what was copied and inside the
block; and where both copies read the same length, when it is below `2 ^ 31`. -/
theorem acpi_table_loaded_iff (L : Layout) (B : Backing Machine) (addr : Nat) (h : Heap Machine)
    (data : Cells UInt8) (sig : Fin 4 → UInt8) (hptr : (getACPIHeader L B addr h data).1 ≠ 0)
    (hcheck : acpiCheckHeader (getACPIHeader L B addr h data).2.2.val
      (getACPIHeader L B addr h data).1 sig = 0) :
    let table := (getACPIHeader L B addr h data).2.2.val
    let ptr := (getACPIHeader L B addr h data).1
    let length := (lengthField table ptr).toNat
    let filled := tableBytes L B addr h data
    let block := blockSize (tableAlloc L B addr h data)
    (TableLoaded sig filled block table ptr ↔ length ≤ filled ∧ length ≤ block) ∧
      (length = firstLength L B addr h data →
        (TableLoaded sig filled block table ptr ↔ length < 2 ^ 31)) := by
  intro table ptr length filled block
  have hblock : block < 2 ^ 31 := Nat.mod_lt _ (by decide)
  have hloaded : TableLoaded sig filled block table ptr ↔ length ≤ filled ∧ length ≤ block :=
    tableLoaded_iff_of_accepted hcheck hblock
  refine ⟨hloaded, fun hsame => hloaded.trans ⟨fun h => lt_of_le_of_lt h.2 hblock, fun hlt => ?_⟩⟩
  have halloc : (tableAlloc L B addr h data).1 ≠ 0 := fun h0 =>
    hptr ((getACPIHeader_fst hptr).trans h0)
  have hbytes : filled = add32 36 length := by
    rw [hsame]
    exact tableBytes_eq
  obtain ⟨hle, hfits⟩ := bytes_le_block hbytes hlt (kmalloc_block halloc)
  exact ⟨hle, hle.trans hfits⟩

/-- A table of 36 bytes with its checksum. -/
theorem acpi_table_loaded_sample :
    let h := tableHeap (tableMachine 36 0xAD00)
    let B := machineBacking .sample fun _ _ => 0
    let r := getACPIHeader .sample B 0x1000 h ⟨fun _ => 0, []⟩
    TableLoaded dsdt (tableBytes .sample B 0x1000 h ⟨fun _ => 0, []⟩)
      (blockSize (tableAlloc .sample B 0x1000 h ⟨fun _ => 0, []⟩)) r.2.2.val r.1 := by
  intro h B r
  have hlength : (lengthField (headerAt .sample h.low 0x1000) 0).toNat = 36 := by decide +kernel
  have hfit : firstFitHead 0 36 h.mem h.heapList = some (0xC0780000, 0xC0780020) := by
    decide +kernel
  have hfit' : firstFitHead 0 72 (place 48 0xC0780020 h.mem) h.heapList =
      some (0xC0780000, 0xC0780060) := by decide +kernel
  have hmem : acpiCheckHeader (headerAt .sample h.low 0x1000) 0 dsdt = 0 := by decide +kernel
  obtain ⟨hptr, hcheck, hsame, hfirst⟩ := accepted_served B ⟨fun _ => 0, []⟩ (by decide)
    (by decide +kernel) (by decide) (by decide +kernel) hfit hfit' hmem
  refine ((acpi_table_loaded_iff _ _ _ _ _ _ hptr hcheck).2 ?_).mpr ?_
  · rw [hsame, hfirst]
  · rw [hsame, hlength]
    decide

/-- A table that says it has `2 ^ 32 - 1` bytes: 35 of them are copied, no byte is summed up, and
the table is accepted. -/
theorem endless_table_accepted :
    let h := tableHeap (tableMachine 0xFFFFFFFF 0)
    let B := machineBacking .sample fun _ _ => 0
    let r := getACPIHeader .sample B 0x1000 h ⟨fun _ => 0, []⟩
    r.1 ≠ 0 ∧ acpiCheckHeader r.2.2.val r.1 dsdt = 0 ∧
      tableBytes .sample B 0x1000 h ⟨fun _ => 0, []⟩ = 35 ∧
      ¬ TableLoaded dsdt (tableBytes .sample B 0x1000 h ⟨fun _ => 0, []⟩)
        (blockSize (tableAlloc .sample B 0x1000 h ⟨fun _ => 0, []⟩)) r.2.2.val r.1 := by
  intro h B r
  have hlength : (lengthField (headerAt .sample h.low 0x1000) 0).toNat = 0xFFFFFFFF := by
    decide +kernel
  have hfit : firstFitHead 0 36 h.mem h.heapList = some (0xC0780000, 0xC0780020) := by
    decide +kernel
  have hfit' : firstFitHead 0 35 (place 48 0xC0780020 h.mem) h.heapList =
      some (0xC0780000, 0xC0780060) := by decide +kernel
  have hmem : acpiCheckHeader (headerAt .sample h.low 0x1000) 0 dsdt = 0 := by decide +kernel
  obtain ⟨hptr, hcheck, hsame, hfirst⟩ := accepted_served B ⟨fun _ => 0, []⟩ (by decide)
    (by decide +kernel) (by decide) (by decide +kernel) hfit hfit' hmem
  have hbytes : tableBytes .sample B 0x1000 h ⟨fun _ => 0, []⟩ = 35 := by
    rw [tableBytes_eq, hfirst, hlength]
    decide +kernel
  refine ⟨hptr, hcheck, hbytes, fun hloaded => ?_⟩
  have hle := hloaded.copied
  rw [hsame, hlength, hbytes] at hle
  omega

end Moonlight
