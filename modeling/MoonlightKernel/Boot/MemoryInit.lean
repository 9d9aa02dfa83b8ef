import MoonlightKernel.Paging

/-!
# The memory map: `kernel/mem/memory_init.c`

`memory_init` reads the memory map of the boot information and marks the pages of its available
entries free in `mm_bitmap`, then takes the pages of the kernel image out again.

* `memoryInit` — the function, over the bytes of the boot information;
* `BootInfo` — the tags at an address, up to the memory map or the end;
* `MmapEntry.Marks` — the pages that an entry marks, in closed form: the base and the length are
  folded to 32 bits, and whole bytes of the bitmap are filled from the byte of the first page on;
* `memoryInit_spec` — it ends, and what is free then;
* `memory_init_usable_iff` — when only usable memory is free.
-/

set_option autoImplicit false

namespace Moonlight

open Sys Sys.Bitmap

def MULTIBOOT2_BOOTLOADER_MAGIC : Nat := 0x36d76289
def MULTIBOOT_TAG_TYPE_END : Nat := 0
def MULTIBOOT_TAG_TYPE_MMAP : Nat := 6
def MULTIBOOT_MEMORY_AVAILABLE : Nat := 1

/-- The arguments of `kern_panic`. -/
structure KernPanic where
  format : String
  value : Nat
  deriving DecidableEq

/-! ## The boot information -/

/-- A 32-bit field. -/
def readU32 (mem : Bytes) (a : Nat) : Nat :=
  (mem a).toNat + (mem (add32 a 1)).toNat * 2 ^ 8 + (mem (add32 a 2)).toNat * 2 ^ 16 +
    (mem (add32 a 3)).toNat * 2 ^ 24

/-- A 64-bit field. -/
def readU64 (mem : Bytes) (a : Nat) : Nat := readU32 mem a + readU32 mem (add32 a 4) * 2 ^ 32

/-- `struct multiboot_mmap_entry`, without its field `zero`. -/
structure MmapEntry where
  addr : Nat
  len : Nat
  type : Nat
  deriving DecidableEq

def readEntry (mem : Bytes) (a : Nat) : MmapEntry :=
  ⟨readU64 mem a, readU64 mem (add32 a 8), readU32 mem (add32 a 16)⟩

/-- The fields of a tag; `entry_size` is the third word of the memory map. -/
def tagType (mem : Bytes) (tag : Nat) : Nat := readU32 mem tag

def tagSize (mem : Bytes) (tag : Nat) : Nat := readU32 mem (add32 tag 4)

def tagEntrySize (mem : Bytes) (tag : Nat) : Nat := readU32 mem (add32 tag 8)

def tagEntries (tag : Nat) : Nat := add32 tag 16

/-- `tag + ((tag->size + 7) & ~7)`. -/
def nextTag (mem : Bytes) (tag : Nat) : Nat := add32 tag (add32 (tagSize mem tag) 7 &&& 0xFFFFFFF8)

/-! ## `memory_init` -/

/-- The loop of `reset_mm_bitmap`, its first `n` iterations. -/
def resetLoop : Nat → Bytes → Bytes
  | 0, mmBitmap => mmBitmap
  | i + 1, mmBitmap => Function.update (resetLoop i mmBitmap) i 0

/-- `reset_mm_bitmap`. -/
def resetMmBitmap (mmBitmap : Bytes) : Bytes := resetLoop (MAX_RAM_PAGE / 8) mmBitmap

/-- The first loop of `init_mm_bitmap`, bit by bit. -/
def bitLoop : Nat → Nat → Bytes → Nat × Nat × Bytes
  | page, 0, mmBitmap => (page, 0, mmBitmap)
  | page, len + 1, mmBitmap =>
    if (len + 1) % 8 ≠ 0 then
      bitLoop (add32 page 1) len
        (setBit mmBitmap (ACCESS_BITMAP_BY_ADDR ((page <<< 12) % 2 ^ 32)) (page % 8))
    else (page, len + 1, mmBitmap)

/-- The second loop, byte by byte; `len` is a multiple of 8. -/
def byteLoop (page len : Nat) (mmBitmap : Bytes) : Bytes :=
  if len = 0 then mmBitmap
  else byteLoop (add32 page 8) (len - 8)
    (fillByte mmBitmap (ACCESS_BITMAP_BY_ADDR ((page <<< 12) % 2 ^ 32)))
termination_by len

/-- `init_mm_bitmap`. -/
def initMmBitmap (start len : Nat) (mmBitmap : Bytes) : Bytes :=
  let r := bitLoop (start >>> 12) (len >>> 12) mmBitmap
  byteLoop r.1 r.2.1 r.2.2

/-- The low half of a 64-bit value and the high half, added as 32-bit words. -/
def foldHalves (x : Nat) : Nat := add32 (x % 2 ^ 32) (x / 2 ^ 32)

/-- The body of the loop over the entries. -/
def initEntry (e : MmapEntry) (mmBitmap : Bytes) : Bytes :=
  if e.type = MULTIBOOT_MEMORY_AVAILABLE then
    initMmBitmap (foldHalves e.addr) (foldHalves e.len) mmBitmap
  else mmBitmap

/-- The loop over the entries, with the number of passes it may make. -/
def entryLoop (mem : Bytes) (stop entrySize : Nat) : Nat → Nat → Bytes → Option Bytes
  | 0, _, _ => none
  | fuel + 1, mmap, mmBitmap =>
    if mmap < stop then
      entryLoop mem stop entrySize fuel (add32 mmap entrySize)
        (initEntry (readEntry mem mmap) mmBitmap)
    else some mmBitmap

/-- The loop over the tags; the memory map ends it. -/
def tagLoop (mem : Bytes) : Nat → Nat → Bytes → Option Bytes
  | 0, _, _ => none
  | fuel + 1, tag, mmBitmap =>
    if tagType mem tag = MULTIBOOT_TAG_TYPE_END then some mmBitmap
    else if tagType mem tag = MULTIBOOT_TAG_TYPE_MMAP then
      entryLoop mem (add32 tag (tagSize mem tag)) (tagEntrySize mem tag) fuel (tagEntries tag) mmBitmap
    else tagLoop mem fuel (nextTag mem tag) mmBitmap

/-- `memory_init_grub`; `none` when the passes do not suffice. -/
def memoryInitGrub (fuel : Nat) (mem : Bytes) (magic addr : Nat) (mmBitmap : Bytes) :
    Option (Except KernPanic Bytes) :=
  if magic ≠ MULTIBOOT2_BOOTLOADER_MAGIC then
    some (.error ⟨"Invalid magic number: 0x%x\n", magic⟩)
  else if addr &&& 7 ≠ 0 then some (.error ⟨"Unaligned mbi: 0x%x\n", addr⟩)
  else (tagLoop mem fuel (add32 addr 8) (resetMmBitmap mmBitmap)).map .ok

/-- The loop of `memory_init_reserv_kernel`, from `i` on. -/
def reservLoop : Nat → Nat → Bytes → Bytes
  | _, 0, mmBitmap => mmBitmap
  | i, n + 1, mmBitmap =>
    reservLoop (i + 1) n (clearBit mmBitmap (ACCESS_BITMAP_BY_ADDR (i <<< 12)) (i % 8))

/-- `memory_init_reserv_kernel`; `start` and `last` are `KERNEL_START` and `KERNEL_END`. -/
def memoryInitReservKernel (start last : Nat) (mmBitmap : Bytes) : Bytes :=
  let i := KERNEL_GET_REAL start >>> 12
  reservLoop i (PAGE_ALIGN (KERNEL_GET_REAL last) >>> 12 - i) mmBitmap

/-- `memory_init`. -/
def memoryInit (fuel : Nat) (start last : Nat) (mem : Bytes) (magic addr : Nat) (mmBitmap : Bytes) :
    Option (Except KernPanic Bytes) :=
  (memoryInitGrub fuel mem magic addr mmBitmap).map fun r =>
    r.map (memoryInitReservKernel start last)

/-! ## The pages that an entry marks -/

/-- The pages that `init_mm_bitmap` marks for `n` pages from page `p` on: `n % 8` of them one by one,
then whole bytes, from the byte of the next page on.  Page numbers are those of 20 bits. -/
def MarksPages (p n q : Nat) : Prop :=
  (∃ i < n % 8, q = (p + i) % 2 ^ 20) ∨
    ∃ i < 8 * (n / 8), q = (8 * ((p + n % 8) / 8) + i) % 2 ^ 20

/-- The bitmap index of a page. -/
theorem page_byte (page : Nat) :
    ACCESS_BITMAP_BY_ADDR ((page <<< 12) % 2 ^ 32) = page % 2 ^ 20 / 8 := by
  rw [ACCESS_BITMAP_BY_ADDR_eq, shiftLeft_page]
  omega

theorem bitLoop_spec (n : Nat) : ∀ (p : Nat) (bm : Bytes), p + n < 2 ^ 32 →
    ∃ bm', bitLoop p n bm = (p + n % 8, 8 * (n / 8), bm') ∧
      ∀ q, isSet bm' q = true ↔ isSet bm q = true ∨ ∃ i < n % 8, q = (p + i) % 2 ^ 20 := by
  induction n with
  | zero =>
    intro p bm _
    refine ⟨bm, rfl, fun q => ?_⟩
    simp
  | succ n ih =>
    intro p bm hp
    by_cases h8 : (n + 1) % 8 = 0
    · refine ⟨bm, ?_, fun q => ?_⟩
      · rw [bitLoop, if_neg (not_not.mpr h8), h8]
        congr 2
        omega
      · rw [h8]
        simp
    · have hmod : (n + 1) % 8 = n % 8 + 1 := by omega
      obtain ⟨bm', hloop, hset⟩ := ih (p + 1)
        (setBit bm (ACCESS_BITMAP_BY_ADDR ((p <<< 12) % 2 ^ 32)) (p % 8)) (by omega)
      refine ⟨bm', ?_, fun q => ?_⟩
      · rw [bitLoop, if_pos h8, add32_of_lt (by omega), hloop, hmod]
        congr 1
        · omega
        · congr 1
          omega
      · rw [hset, isSet_setBit _ (Nat.mod_lt _ (by decide)), page_byte, Bool.or_eq_true,
          decide_eq_true_iff, hmod, or_assoc]
        refine or_congr_right ⟨?_, ?_⟩
        · rintro (rfl | ⟨i, hi, rfl⟩)
          · exact ⟨0, by omega, by omega⟩
          · exact ⟨i + 1, by omega, by rw [Nat.add_right_comm, Nat.add_assoc]⟩
        · rintro ⟨i, hi, rfl⟩
          cases i with
          | zero => left; omega
          | succ i => exact .inr ⟨i, by omega, by rw [Nat.add_right_comm, Nat.add_assoc]⟩

theorem byteLoop_spec (k : Nat) : ∀ (p : Nat) (bm : Bytes), p + 8 * k < 2 ^ 32 → ∀ q,
    isSet (byteLoop p (8 * k) bm) q = true ↔
      isSet bm q = true ∨ ∃ i < 8 * k, q = (8 * (p / 8) + i) % 2 ^ 20 := by
  induction k with
  | zero =>
    intro p bm _ q
    rw [byteLoop, if_pos rfl]
    simp
  | succ k ih =>
    intro p bm hp q
    have hlen : 8 * (k + 1) - 8 = 8 * k := by omega
    rw [byteLoop, if_neg (by omega), hlen, add32_of_lt (by omega), ih _ _ (by omega), isSet_fillByte,
      page_byte, Bool.or_eq_true, decide_eq_true_iff, or_assoc]
    have hnext : 8 * ((p + 8) / 8) = 8 * (p / 8) + 8 := by omega
    rw [hnext]
    refine or_congr_right ⟨?_, ?_⟩
    · rintro (hq | ⟨i, hi, rfl⟩)
      · exact ⟨q % 8, by omega, by omega⟩
      · exact ⟨i + 8, by omega, by rw [Nat.add_assoc, Nat.add_comm i]⟩
    · rintro ⟨i, hi, rfl⟩
      by_cases hlt : i < 8
      · left
        omega
      · exact .inr ⟨i - 8, by omega, by congr 1; omega⟩

/-- **`init_mm_bitmap`** marks those pages. -/
theorem initMmBitmap_spec {start len : Nat} (hs : start < 2 ^ 32) (hl : len < 2 ^ 32) (bm : Bytes)
    (q : Nat) : isFree (initMmBitmap start len bm) q = true ↔
      isFree bm q = true ∨ MarksPages (start / 4096) (len / 4096) q := by
  obtain ⟨bm', hloop, hset⟩ := bitLoop_spec (len / 4096) (start / 4096) bm (by omega)
  unfold initMmBitmap
  rw [shiftRight_page, shiftRight_page, hloop]
  dsimp only
  rw [isFree, byteLoop_spec _ _ _ (by omega), hset, or_assoc]
  rfl

/-! ## The entries of the memory map -/

/-- The entries from `mmap` on, up to `stop`. -/
inductive EntriesAt (mem : Bytes) (stop entrySize : Nat) : Nat → List MmapEntry → Prop
  | nil {mmap : Nat} (h : ¬ mmap < stop) : EntriesAt mem stop entrySize mmap []
  | cons {mmap : Nat} {es : List MmapEntry} (h : mmap < stop)
      (hes : EntriesAt mem stop entrySize (add32 mmap entrySize) es) :
      EntriesAt mem stop entrySize mmap (readEntry mem mmap :: es)

/-- The tags from `tag` on; `es` are the entries of the first memory map among them. -/
inductive BootInfo (mem : Bytes) : Nat → List MmapEntry → Prop
  | last {tag : Nat} (h : tagType mem tag = MULTIBOOT_TAG_TYPE_END) : BootInfo mem tag []
  | mmap {tag : Nat} {es : List MmapEntry} (h : tagType mem tag = MULTIBOOT_TAG_TYPE_MMAP)
      (hes : EntriesAt mem (add32 tag (tagSize mem tag)) (tagEntrySize mem tag) (tagEntries tag) es) :
      BootInfo mem tag es
  | other {tag : Nat} {es : List MmapEntry} (hend : tagType mem tag ≠ MULTIBOOT_TAG_TYPE_END)
      (hmap : tagType mem tag ≠ MULTIBOOT_TAG_TYPE_MMAP) (hes : BootInfo mem (nextTag mem tag) es) :
      BootInfo mem tag es

theorem foldHalves_lt (x : Nat) : foldHalves x < 2 ^ 32 := by
  unfold foldHalves add32
  exact Nat.mod_lt _ (by decide)

namespace MmapEntry

/-- The entry describes usable memory. -/
def Available (e : MmapEntry) : Prop := e.type = MULTIBOOT_MEMORY_AVAILABLE

instance (e : MmapEntry) : Decidable e.Available := inferInstanceAs (Decidable (_ = _))

/-- The whole page is inside the range of the entry. -/
def Holds (e : MmapEntry) (q : Nat) : Prop := e.addr ≤ q * 4096 ∧ q * 4096 + 4096 ≤ e.addr + e.len

/-- The first page of the folded range, and the number of its pages. -/
def firstPage (e : MmapEntry) : Nat := foldHalves e.addr / 4096

def pages (e : MmapEntry) : Nat := foldHalves e.len / 4096

/-- The pages that the entry marks. -/
def Marks (e : MmapEntry) (q : Nat) : Prop := MarksPages e.firstPage e.pages q

/-- The pages that it marks outside its range. -/
def Overreaches (e : MmapEntry) (q : Nat) : Prop := e.Marks q ∧ ¬ e.Holds q

end MmapEntry

theorem initEntry_spec (e : MmapEntry) (bm : Bytes) (q : Nat) :
    isFree (initEntry e bm) q = true ↔ isFree bm q = true ∨ (e.Available ∧ e.Marks q) := by
  unfold initEntry
  split
  · rename_i h
    rw [initMmBitmap_spec (foldHalves_lt _) (foldHalves_lt _)]
    exact or_congr_right ⟨fun hm => ⟨h, hm⟩, And.right⟩
  · rename_i h
    exact ⟨.inl, fun hor => hor.resolve_right fun hav => h hav.1⟩

/-- An available entry of the list marks the page. -/
def Marked (es : List MmapEntry) (q : Nat) : Prop := ∃ e ∈ es, e.Available ∧ e.Marks q

theorem entryLoop_spec {mem : Bytes} {stop entrySize mmap : Nat} {es : List MmapEntry}
    (h : EntriesAt mem stop entrySize mmap es) (bm : Bytes) :
    ∃ n bm', (∀ fuel, n ≤ fuel → entryLoop mem stop entrySize fuel mmap bm = some bm') ∧
      ∀ q, isFree bm' q = true ↔ isFree bm q = true ∨ Marked es q := by
  induction h generalizing bm with
  | nil h =>
    refine ⟨1, bm, fun fuel hf => ?_, fun q => ?_⟩
    · obtain ⟨fuel, rfl⟩ := Nat.exists_eq_add_of_le' hf
      rw [entryLoop, if_neg h]
    · simp [Marked]
  | @cons mmap es h _ ih =>
    obtain ⟨n, bm', hloop, hfree⟩ := ih (initEntry (readEntry mem mmap) bm)
    refine ⟨n + 1, bm', fun fuel hf => ?_, fun q => ?_⟩
    · obtain ⟨fuel, rfl⟩ := Nat.exists_eq_add_of_le' (Nat.le_of_add_left_le hf)
      rw [entryLoop, if_pos h]
      exact hloop fuel (by omega)
    · rw [hfree, initEntry_spec, or_assoc]
      simp [Marked]

theorem tagLoop_spec {mem : Bytes} {tag : Nat} {es : List MmapEntry} (h : BootInfo mem tag es)
    (bm : Bytes) :
    ∃ n bm', (∀ fuel, n ≤ fuel → tagLoop mem fuel tag bm = some bm') ∧
      ∀ q, isFree bm' q = true ↔ isFree bm q = true ∨ Marked es q := by
  induction h with
  | last h =>
    refine ⟨1, bm, fun fuel hf => ?_, fun q => ?_⟩
    · obtain ⟨fuel, rfl⟩ := Nat.exists_eq_add_of_le' hf
      rw [tagLoop, if_pos h]
    · simp [Marked]
  | mmap h hes =>
    obtain ⟨n, bm', hloop, hfree⟩ := entryLoop_spec hes bm
    refine ⟨n + 1, bm', fun fuel hf => ?_, hfree⟩
    obtain ⟨fuel, rfl⟩ := Nat.exists_eq_add_of_le' (Nat.le_of_add_left_le hf)
    rw [tagLoop, if_neg (by rw [h]; decide), if_pos h]
    exact hloop fuel (by omega)
  | other hend hmap _ ih =>
    obtain ⟨n, bm', hloop, hfree⟩ := ih
    refine ⟨n + 1, bm', fun fuel hf => ?_, hfree⟩
    obtain ⟨fuel, rfl⟩ := Nat.exists_eq_add_of_le' (Nat.le_of_add_left_le hf)
    rw [tagLoop, if_neg hend, if_neg hmap]
    exact hloop fuel (by omega)

/-! ## The whole function -/

theorem resetLoop_eq (n : Nat) (bm : Bytes) (i : Nat) (hi : i < n) : resetLoop n bm i = 0 := by
  induction n with
  | zero => omega
  | succ n ih =>
    rw [resetLoop]
    by_cases hin : i = n
    · rw [hin, Function.update_self]
    · rw [Function.update_of_ne hin]
      exact ih (by omega)

theorem isFree_resetMmBitmap (bm : Bytes) {q : Nat} (hq : q < 2 ^ 20) :
    isFree (resetMmBitmap bm) q = false := by
  unfold isFree isSet resetMmBitmap
  rw [resetLoop_eq _ _ _ (by unfold MAX_RAM_PAGE; omega)]
  simp

theorem reservLoop_eq (n : Nat) : ∀ (i : Nat) (bm : Bytes), reservLoop i n bm = clearRun i n bm := by
  induction n with
  | zero => exact fun _ _ => rfl
  | succ n ih =>
    intro i bm
    rw [reservLoop, clearRun, ih, ACCESS_BITMAP_BY_ADDR_eq, shiftLeft_page, Nat.mul_div_cancel _ (by decide)]

/-- The page meets the kernel image, rounded up to whole pages. -/
def KernelPage (start last q : Nat) : Prop :=
  q * 4096 < PAGE_ALIGN (KERNEL_GET_REAL last) ∧ KERNEL_GET_REAL start < q * 4096 + 4096

/-- **What is free after `memory_init`**: the pages that an available entry marks, without those of
the kernel. -/
theorem memoryInit_spec (L : Layout) {start : Nat} (hstart : start < L.kernelEnd) {mem : Bytes}
    {addr : Nat} (haddr : addr % 8 = 0) {es : List MmapEntry} (hinfo : BootInfo mem (add32 addr 8) es)
    (bm : Bytes) :
    ∃ n bm', (∀ fuel, n ≤ fuel → memoryInit fuel start L.kernelEnd mem MULTIBOOT2_BOOTLOADER_MAGIC
        addr bm = some (.ok bm')) ∧
      ∀ q < 2 ^ 20, isFree bm' q = true ↔ Marked es q ∧ ¬ KernelPage start L.kernelEnd q := by
  obtain ⟨n, bm₁, hloop, hfree⟩ := tagLoop_spec hinfo (resetMmBitmap bm)
  refine ⟨n, memoryInitReservKernel start L.kernelEnd bm₁, fun fuel hf => ?_, fun q hq => ?_⟩
  · have halign : addr &&& 7 = 0 := by
      rw [show 7 = 2 ^ 3 - 1 from rfl, Nat.and_two_pow_sub_one_eq_mod]
      exact haddr
    unfold memoryInit memoryInitGrub
    rw [if_neg (not_not.mpr rfl), if_neg (not_not.mpr halign), hloop fuel hf]
    rfl
  · unfold memoryInitReservKernel
    dsimp only
    have hend := L.kernelEnd_le
    have hpos := L.kernelPage_mem
    have hreal : KERNEL_GET_REAL L.kernelEnd ≤ 2 ^ 32 - 4096 := by
      unfold KERNEL_GET_REAL KERNEL_POS
      omega
    obtain ⟨hdvd, hle, -, -⟩ := PAGE_ALIGN_spec hreal
    have hlt : KERNEL_GET_REAL start < KERNEL_GET_REAL L.kernelEnd := by
      unfold KERNEL_GET_REAL KERNEL_POS
      omega
    rw [reservLoop_eq, isFree, isSet_clearRun, Bool.and_eq_true, hfree, isFree_resetMmBitmap bm hq,
      shiftRight_page, shiftRight_page]
    simp only [Bool.false_eq_true, false_or, Bool.not_eq_true', decide_eq_false_iff_not]
    refine and_congr_right fun _ => not_congr ?_
    unfold KernelPage
    omega

/-- **Only usable memory is free** exactly when no available entry marks a page outside its range,
but for pages of the kernel and pages that another available entry holds. -/
theorem memory_init_usable_iff (L : Layout) {start : Nat} (hstart : start < L.kernelEnd)
    {mem : Bytes} {addr : Nat} (haddr : addr % 8 = 0) {es : List MmapEntry}
    (hinfo : BootInfo mem (add32 addr 8) es) (bm : Bytes) :
    ∃ n bm', (∀ fuel, n ≤ fuel → memoryInit fuel start L.kernelEnd mem MULTIBOOT2_BOOTLOADER_MAGIC
        addr bm = some (.ok bm')) ∧
      ((∀ q < 2 ^ 20, isFree bm' q = true →
          (∃ e ∈ es, e.Available ∧ e.Holds q) ∧ ¬ KernelPage start L.kernelEnd q) ↔
        ∀ e ∈ es, e.Available → ∀ q, e.Overreaches q →
          KernelPage start L.kernelEnd q ∨ ∃ e' ∈ es, e'.Available ∧ e'.Holds q) := by
  obtain ⟨n, bm', hrun, hfree⟩ := memoryInit_spec L hstart haddr hinfo bm
  refine ⟨n, bm', hrun, ?_, ?_⟩
  · intro h e he hav q hover
    by_cases hk : KernelPage start L.kernelEnd q
    · exact .inl hk
    · have hq : q < 2 ^ 20 := by
        rcases hover.1 with ⟨i, -, rfl⟩ | ⟨i, -, rfl⟩ <;> exact Nat.mod_lt _ (by decide)
      exact .inr (h q hq ((hfree q hq).mpr ⟨⟨e, he, hav, hover.1⟩, hk⟩)).1
  · intro h q hq hset
    obtain ⟨⟨e, he, hav, hmarks⟩, hk⟩ := (hfree q hq).mp hset
    refine ⟨?_, hk⟩
    by_cases hholds : e.Holds q
    · exact ⟨e, he, hav, hholds⟩
    · exact (h e he hav q ⟨hmarks, hholds⟩).resolve_left hk

/-! ## Which entries overreach -/

theorem foldHalves_of_lt {x : Nat} (h : x < 2 ^ 32) : foldHalves x = x := by
  unfold foldHalves
  rw [Nat.div_eq_of_lt h, add32_of_lt (by omega), Nat.add_zero, Nat.mod_eq_of_lt h]

/-- **An entry below 4 GiB** overreaches onto the page that its unaligned base is in, if it has a
page at all, and, if it has eight, onto the pages in front of its base that share the first byte
that is filled. -/
theorem overreaches_low {e : MmapEntry} (haddr : e.addr < 2 ^ 32) (hlen : e.len < 2 ^ 32)
    (hsum : e.addr + e.len ≤ 2 ^ 32) (q : Nat) : e.Overreaches q ↔
      (q = e.addr / 4096 ∧ e.addr % 4096 ≠ 0 ∧ 4096 ≤ e.len) ∨
        (8 ≤ e.len / 4096 ∧ 8 * ((e.addr / 4096 + e.len / 4096 % 8) / 8) ≤ q ∧
          q < e.addr / 4096) := by
  unfold MmapEntry.Overreaches MmapEntry.Marks MmapEntry.Holds MmapEntry.firstPage MmapEntry.pages
    MarksPages
  rw [foldHalves_of_lt haddr, foldHalves_of_lt hlen]
  constructor
  · rintro ⟨⟨i, hi, rfl⟩ | ⟨i, hi, rfl⟩, hout⟩
    · have hmod : (e.addr / 4096 + i) % 2 ^ 20 = e.addr / 4096 + i := Nat.mod_eq_of_lt (by omega)
      rw [hmod] at hout ⊢
      left
      omega
    · have hmod : (8 * ((e.addr / 4096 + e.len / 4096 % 8) / 8) + i) % 2 ^ 20 =
          8 * ((e.addr / 4096 + e.len / 4096 % 8) / 8) + i := Nat.mod_eq_of_lt (by omega)
      rw [hmod] at hout ⊢
      omega
  · rintro (⟨rfl, hodd, hpage⟩ | ⟨h8, hle, hlt⟩)
    · refine ⟨?_, by omega⟩
      by_cases hbits : 0 < e.len / 4096 % 8
      · exact .inl ⟨0, hbits, by omega⟩
      · exact .inr ⟨e.addr / 4096 % 8, by omega, by omega⟩
    · exact ⟨.inr ⟨q - 8 * ((e.addr / 4096 + e.len / 4096 % 8) / 8), by omega, by omega⟩, by omega⟩

/-- Boot information of 32-bit words. -/
def wordsAt (ws : List Nat) : Bytes := fun a => BitVec.ofNat 8 (ws.getD (a / 4) 0 / 2 ^ (8 * (a % 4)))

/-- A memory map with one available entry: the megabytes from 1 to 128. -/
def lowMap : Bytes := wordsAt [0, 0, 6, 40, 24, 0, 0x100000, 0, 0x7EE0000, 0, 1, 0]

/-- The same with one gigabyte from 4 GiB on. -/
def highMap : Bytes := wordsAt [0, 0, 6, 40, 24, 0, 0, 1, 0x40000000, 0, 1, 0]

/-- A memory map with one entry, right behind its head. -/
theorem BootInfo.single {mem : Bytes} {e : MmapEntry} (htag : tagType mem 8 = MULTIBOOT_TAG_TYPE_MMAP)
    (hsize : tagSize mem 8 = 40) (hentry : tagEntrySize mem 8 = 24) (he : readEntry mem 24 = e) :
    BootInfo mem 8 [e] := by
  refine .mmap htag ?_
  have hfirst : tagEntries 8 = 24 := by decide +kernel
  have hstop : add32 8 40 = 48 := by decide +kernel
  have hnext : add32 24 24 = 48 := by decide +kernel
  rw [hsize, hentry, hfirst, hstop, ← he]
  refine .cons (by decide) ?_
  rw [hnext]
  exact .nil (Nat.lt_irrefl 48)

theorem lowMap_info : BootInfo lowMap (add32 0 8) [⟨0x100000, 0x7EE0000, 1⟩] := by
  rw [add32_of_lt (by decide)]
  exact .single (by decide +kernel) (by decide +kernel) (by decide +kernel) (by decide +kernel)

theorem highMap_info : BootInfo highMap (add32 0 8) [⟨0x100000000, 0x40000000, 1⟩] := by
  rw [add32_of_lt (by decide)]
  exact .single (by decide +kernel) (by decide +kernel) (by decide +kernel) (by decide +kernel)

/-- The low map leaves only usable memory free. -/
theorem memory_init_usable_low : ∃ n bm', (∀ fuel, n ≤ fuel → memoryInit fuel 0xC0101000
      Layout.sample.kernelEnd lowMap MULTIBOOT2_BOOTLOADER_MAGIC 0 (fun _ => 0) = some (.ok bm')) ∧
    ∀ q < 2 ^ 20, isFree bm' q = true → 0x100000 ≤ q * 4096 ∧ q * 4096 + 4096 ≤ 0x7FE0000 := by
  obtain ⟨n, bm', hrun, hiff⟩ :=
    memory_init_usable_iff Layout.sample (show 0xC0101000 < _ by decide) (by decide) lowMap_info
      fun _ => 0
  refine ⟨n, bm', hrun, fun q hq hfree => ?_⟩
  have hnone : ∀ q, ¬ MmapEntry.Overreaches ⟨0x100000, 0x7EE0000, 1⟩ q := by
    intro q
    rw [overreaches_low (by decide) (by decide) (by decide)]
    dsimp only
    omega
  obtain ⟨⟨e, he, -, hholds⟩, -⟩ := hiff.mpr (fun e he _ q hq => by
    rw [List.mem_singleton] at he
    exact absurd (he ▸ hq) (hnone q)) q hq hfree
  rw [List.mem_singleton] at he
  rw [he] at hholds
  exact hholds

/-- With memory above 4 GiB the first page of the machine is free, though no entry holds it. -/
theorem memory_init_frees_low_page : ∃ n bm', (∀ fuel, n ≤ fuel → memoryInit fuel 0xC0101000
      Layout.sample.kernelEnd highMap MULTIBOOT2_BOOTLOADER_MAGIC 0 (fun _ => 0) = some (.ok bm')) ∧
    BootInfo highMap (add32 0 8) [⟨0x100000000, 0x40000000, 1⟩] ∧ isFree bm' 0 = true ∧
      ¬ MmapEntry.Holds ⟨0x100000000, 0x40000000, 1⟩ 0 := by
  obtain ⟨n, bm', hrun, hfree⟩ := memoryInit_spec Layout.sample (show 0xC0101000 < _ by decide)
    (by decide) highMap_info fun _ => 0
  refine ⟨n, bm', hrun, highMap_info, (hfree 0 (by decide)).mpr ⟨?_, ?_⟩, fun h => ?_⟩
  · -- the base is folded to address 1
    have hbase : MmapEntry.firstPage ⟨0x100000000, 0x40000000, 1⟩ = 0 := by decide +kernel
    have hpages : MmapEntry.pages ⟨0x100000000, 0x40000000, 1⟩ = 0x40000 := by decide +kernel
    refine ⟨_, List.mem_singleton_self _, rfl, ?_⟩
    rw [MmapEntry.Marks, hbase, hpages]
    exact .inr ⟨0, by decide, by decide⟩
  · rintro ⟨-, hstart⟩
    revert hstart
    decide
  · have := h.1
    dsimp only at this
    omega

end Moonlight
