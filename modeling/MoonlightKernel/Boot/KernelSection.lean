import MoonlightKernel.Ledger

/-!
# The kernel maps itself: `kernel/x86/init_page.c`

The boot code maps the first four megabytes twice, with 4 MiB entries.  `page_setup` puts
`kernel_page` in their place, the table of the kernel that `page_setup_kernel_section` fills section
by section, and removes the identity entry.

* `Sections` — the symbols of the linker script;
* `pageSetupKernelSection`, `pageSetupImage` — the two functions;
* `Sections.entry`, `kernelSection_spec` — the words of `kernel_page` and the frames that are reserved;
* `pageSetupImage_eq` — the whole of `page_setup`.
-/

set_option autoImplicit false

namespace Moonlight

open Sys Sys.Bitmap

/-! ## The source -/

/-- `TABLE_ENTRY`. -/
def TABLE_ENTRY (p : Nat) : Nat := (p &&& 0x003FF000) >>> 12

/-- The sections of the image in memory: each begins and ends with a page, and `.bss` ends with the
image. -/
structure Sections (L : Layout) where
  start : Nat
  textStart : Nat
  textEnd : Nat
  rodataStart : Nat
  rodataEnd : Nat
  dataStart : Nat
  dataEnd : Nat
  bssStart : Nat
  start_le : 0xC0100000 ≤ start ∧ start ≤ textStart
  ordered : textStart ≤ textEnd ∧ textEnd ≤ rodataStart ∧ rodataStart ≤ rodataEnd ∧
    rodataEnd ≤ dataStart ∧ dataStart ≤ dataEnd ∧ dataEnd ≤ bssStart ∧ bssStart ≤ L.kernelEnd
  aligned : textStart % 4096 = 0 ∧ textEnd % 4096 = 0 ∧ rodataStart % 4096 = 0 ∧
    rodataEnd % 4096 = 0 ∧ dataStart % 4096 = 0 ∧ dataEnd % 4096 = 0 ∧ bssStart % 4096 = 0 ∧
    L.kernelEnd % 4096 = 0
  -- an image that filled its four megabytes would have no entry: `TABLE_ENTRY` of its end is 0
  kernelEnd_lt : L.kernelEnd < 0xC0400000
  kernelPage_mem : bssStart ≤ L.kernelPage

/-- `KERNEL_BSS_END`. -/
def Sections.bssEnd {L : Layout} (_ : Sections L) : Nat := L.kernelEnd

/-- The loop of `page_entry_clear`, its first `n` iterations. -/
def pageEntryClear (table : Nat) : Nat → Machine → Machine
  | 0, m => m
  | i + 1, m => (pageEntryClear table i m).write table i 0

/-- The loop of `page_entry_set_range`, from `i` on. -/
def pageEntrySetLoop (table flag : Nat) : Nat → Nat → Machine → Int × Machine
  | _, 0, m => (0, m)
  | i, n + 1, m =>
    let r := pageEntrySet table i (i <<< 12) flag m
    if r.1 ≠ 0 then r else pageEntrySetLoop table flag (i + 1) n r.2

/-- `page_entry_set_range`. -/
def pageEntrySetRange (table first last flag : Nat) (m : Machine) : Int × Machine :=
  pageEntrySetLoop table flag first (last - first) m

/-- An entry with its frame: `page_entry_set`, and the bit at `addr` in `mm_bitmap` is cleared. -/
def reserveEntry (table ptr addr : Nat) (m : Machine) : Machine :=
  let m := (pageEntrySet table (TABLE_ENTRY ptr) ptr (PAGE_WRITE ||| PAGE_PRESENT) m).2
  m.setBitmap (clearBit m.mmBitmap (ACCESS_BITMAP_BY_ADDR addr) (ptr % 8))

/-- The range of a section of the image, between real addresses. -/
def mapSection (table first last flag : Nat) (m : Machine) : Machine :=
  (pageEntrySetRange table (TABLE_ENTRY first) (TABLE_ENTRY (PAGE_ALIGN last)) flag m).2

/-- The first part of `page_setup_kernel_section`: pages below the image. -/
def mapLowPages (table : Nat) (m : Machine) : Machine :=
  let m := pageEntryClear table 1024 m
  let m := reserveEntry table 0x00000000 0x00000000 m
  let m := reserveEntry table 0x000B8000 0x000B8000 m
  -- the bit is that of `0x0000E000` in the source
  let m := reserveEntry table 0x000E0000 0x0000E000 m
  (pageEntrySetRange table (TABLE_ENTRY 0x000E0000) (TABLE_ENTRY 0x00100000) PAGE_PRESENT m).2

/-- `page_setup_kernel_section`, with `table` the frame of `kernel_page`. -/
def pageSetupKernelSection (L : Layout) (S : Sections L) (table : Nat) (m : Machine) : Machine :=
  let m := mapLowPages table m
  let m := mapSection table (KERNEL_GET_REAL S.start) (KERNEL_GET_REAL L.kernelEnd)
    (PAGE_WRITE ||| PAGE_PRESENT) m
  let m := mapSection table (KERNEL_GET_REAL S.textStart) (KERNEL_GET_REAL S.textEnd) PAGE_PRESENT m
  let m := mapSection table (KERNEL_GET_REAL S.rodataStart) (KERNEL_GET_REAL S.rodataEnd)
    PAGE_PRESENT m
  let m := mapSection table (KERNEL_GET_REAL S.dataStart) (KERNEL_GET_REAL S.dataEnd)
    (PAGE_WRITE ||| PAGE_PRESENT) m
  mapSection table (KERNEL_GET_REAL S.bssStart) (KERNEL_GET_REAL S.bssEnd)
    (PAGE_WRITE ||| PAGE_PRESENT) m

/-- `page_setup`, up to `heap_setup`. -/
def pageSetupImage (L : Layout) (S : Sections L) (m : Machine) : Machine :=
  (pageSetupKernelSection L S L.kernelFrame (m.setDir 0 0)).setDir (KERNEL_POS >>> 22)
    (KERNEL_GET_REAL L.kernelPage ||| PAGE_PRESENT)

/-! ## The words of the table -/

section words

variable {flag : Nat} (table : Nat)

theorem TABLE_ENTRY_eq (p : Nat) : TABLE_ENTRY p = p / 4096 % 1024 := by
  have hmask : 0x003FF000 = (2 ^ 10 - 1) <<< 12 := rfl
  unfold TABLE_ENTRY
  rw [Nat.shiftRight_and_distrib, hmask, Nat.shiftLeft_shiftRight, Nat.and_two_pow_sub_one_eq_mod,
    shiftRight_page]

theorem TABLE_ENTRY_of_lt {p : Nat} (h : p < 0x400000) : TABLE_ENTRY p = p / 4096 := by
  rw [TABLE_ENTRY_eq]
  exact Nat.mod_eq_of_lt (by omega)

/-- Only the bitmap and the table may have changed. -/
structure OnTable (m m' : Machine) : Prop where
  dir : m'.pageDirectory = m.pageDirectory
  ram : ∀ f, f ≠ table → m'.ram f = m.ram f

theorem OnTable.refl (m : Machine) : OnTable table m m := ⟨rfl, fun _ _ => rfl⟩

variable {table} in
theorem OnTable.trans {m m₁ m' : Machine} (h : OnTable table m m₁) (h' : OnTable table m₁ m') :
    OnTable table m m' :=
  ⟨h'.dir.trans h.dir, fun f hf => (h'.ram f hf).trans (h.ram f hf)⟩

theorem Machine.write_onTable (m : Machine) (i word : Nat) :
    OnTable table m (m.write table i word) := by
  refine ⟨rfl, fun f hf => ?_⟩
  funext j
  exact if_neg fun h => hf h.1

theorem Machine.write_ram (m : Machine) (i word j : Nat) :
    (m.write table i word).ram table j = if j = i then word else m.ram table j := by
  exact if_congr (and_iff_right rfl) rfl rfl

theorem pageEntryClear_spec (n : Nat) (m : Machine) :
    OnTable table m (pageEntryClear table n m) ∧
      (pageEntryClear table n m).mmBitmap = m.mmBitmap ∧
      ∀ i, (pageEntryClear table n m).ram table i = if i < n then 0 else m.ram table i := by
  induction n with
  | zero => exact ⟨.refl table m, rfl, fun i => (if_neg (Nat.not_lt_zero i)).symm⟩
  | succ n ih =>
    obtain ⟨hon, hbm, hram⟩ := ih
    refine ⟨hon.trans (Machine.write_onTable table _ _ _), hbm, fun i => ?_⟩
    rw [pageEntryClear, Machine.write_ram, hram]
    by_cases hi : i = n
    · rw [if_pos hi, if_pos (by omega)]
    · rw [if_neg hi]
      exact if_congr (by omega) rfl rfl

theorem pageEntrySet_page {i : Nat} (hflag : flag &&& PAGE_ADDR = 0) (hi : i < 1024) (m : Machine) :
    pageEntrySet table i (i <<< 12) flag m = ((0 : Int), m.write table i (i <<< 12 ||| flag)) := by
  have hptr : i <<< 12 &&& PAGE_FLAG = 0 := by
    rw [show PAGE_FLAG = 2 ^ 12 - 1 from rfl, Nat.and_two_pow_sub_one_eq_mod, shiftLeft_page]
    exact Nat.mul_mod_left i 4096
  unfold pageEntrySet
  rw [if_neg (not_not.mpr hptr), if_neg (not_not.mpr hflag), if_neg (Nat.not_le.mpr hi)]

theorem pageEntrySetLoop_spec (hflag : flag &&& PAGE_ADDR = 0) (n : Nat) :
    ∀ (i : Nat) (m : Machine), i + n ≤ 1024 →
      OnTable table m (pageEntrySetLoop table flag i n m).2 ∧
        (pageEntrySetLoop table flag i n m).2.mmBitmap = m.mmBitmap ∧
        ∀ j, (pageEntrySetLoop table flag i n m).2.ram table j =
          if i ≤ j ∧ j < i + n then j <<< 12 ||| flag else m.ram table j := by
  induction n with
  | zero => exact fun i m _ => ⟨.refl table m, rfl, fun j => (if_neg (by omega)).symm⟩
  | succ n ih =>
    intro i m hi
    have hin : i < 1024 := by omega
    rw [pageEntrySetLoop, pageEntrySet_page table hflag hin]
    dsimp only
    rw [if_neg (not_not.mpr rfl)]
    obtain ⟨hon, hbm, hram⟩ := ih (i + 1) (m.write table i (i <<< 12 ||| flag)) (by omega)
    refine ⟨(Machine.write_onTable table _ _ _).trans hon, hbm, fun j => ?_⟩
    rw [hram, Machine.write_ram]
    by_cases hj : j = i
    · subst hj
      rw [if_neg (by omega), if_pos rfl, if_pos (by omega)]
    · rw [if_neg hj]
      exact if_congr (by omega) rfl rfl

/-- **A range of pages**, which map themselves. -/
theorem pageEntrySetRange_spec (hflag : flag &&& PAGE_ADDR = 0) {first last : Nat}
    (hle : first ≤ last) (hlast : last ≤ 1024) (m : Machine) :
    OnTable table m (pageEntrySetRange table first last flag m).2 ∧
      (pageEntrySetRange table first last flag m).2.mmBitmap = m.mmBitmap ∧
      ∀ j, (pageEntrySetRange table first last flag m).2.ram table j =
        if first ≤ j ∧ j < last then j <<< 12 ||| flag else m.ram table j := by
  have h := pageEntrySetLoop_spec table hflag (last - first) first m (by omega)
  rw [Nat.add_sub_cancel' hle] at h
  exact h

/-- The page `j` is one of a section between real addresses. -/
def InSection (first last j : Nat) : Prop := first / 4096 ≤ j ∧ j * 4096 < last

instance (first last j : Nat) : Decidable (InSection first last j) :=
  inferInstanceAs (Decidable (_ ∧ _))

theorem mapSection_spec (hflag : flag &&& PAGE_ADDR = 0) {first last : Nat} (hle : first ≤ last)
    (hlast : last < 0x400000) (hpage : last % 4096 = 0) (m : Machine) :
    OnTable table m (mapSection table first last flag m) ∧
      (mapSection table first last flag m).mmBitmap = m.mmBitmap ∧
      ∀ j, (mapSection table first last flag m).ram table j =
        if InSection first last j then j <<< 12 ||| flag else m.ram table j := by
  have hrange : first / 4096 ≤ last / 4096 ∧ last / 4096 ≤ 1024 := by omega
  obtain ⟨hon, hbm, hram⟩ := pageEntrySetRange_spec table hflag hrange.1 hrange.2 m
  unfold mapSection
  rw [PAGE_ALIGN_of_dvd hpage, TABLE_ENTRY_of_lt hlast,
    TABLE_ENTRY_of_lt (Nat.lt_of_le_of_lt hle hlast)]
  refine ⟨hon, hbm, fun j => (hram j).trans (if_congr ?_ rfl rfl)⟩
  unfold InSection
  omega

theorem reserveEntry_spec (ptr addr : Nat) (hptr : ptr &&& PAGE_FLAG = 0)
    (hi : TABLE_ENTRY ptr < 1024) (m : Machine) :
    OnTable table m (reserveEntry table ptr addr m) ∧
      (reserveEntry table ptr addr m).mmBitmap =
        clearBit m.mmBitmap (ACCESS_BITMAP_BY_ADDR addr) (ptr % 8) ∧
      ∀ j, (reserveEntry table ptr addr m).ram table j =
        if j = TABLE_ENTRY ptr then ptr ||| (PAGE_WRITE ||| PAGE_PRESENT) else m.ram table j := by
  have hset : pageEntrySet table (TABLE_ENTRY ptr) ptr (PAGE_WRITE ||| PAGE_PRESENT) m =
      ((0 : Int), m.write table (TABLE_ENTRY ptr) (ptr ||| (PAGE_WRITE ||| PAGE_PRESENT))) := by
    have hflag : (PAGE_WRITE ||| PAGE_PRESENT) &&& PAGE_ADDR = 0 := by decide
    unfold pageEntrySet
    rw [if_neg (not_not.mpr hptr), if_neg (not_not.mpr hflag), if_neg (Nat.not_le.mpr hi)]
  unfold reserveEntry
  dsimp only
  rw [hset]
  obtain ⟨hdir, hram⟩ := Machine.write_onTable table m (TABLE_ENTRY ptr)
    (ptr ||| (PAGE_WRITE ||| PAGE_PRESENT))
  exact ⟨⟨hdir, hram⟩, rfl, Machine.write_ram table m _ _⟩

end words

/-! ## `page_setup_kernel_section` -/

section kernel

variable {L : Layout} {m : Machine}

theorem real_le {a b : Nat} (h : a ≤ b) : KERNEL_GET_REAL a ≤ KERNEL_GET_REAL b :=
  Nat.sub_le_sub_right h KERNEL_POS

theorem real_aligned {a : Nat} (h : a % 4096 = 0) : KERNEL_GET_REAL a % 4096 = 0 := by
  unfold KERNEL_GET_REAL KERNEL_POS
  omega

theorem real_lt {a : Nat} (h : a < 0xC0400000) : KERNEL_GET_REAL a < 0x400000 := by
  unfold KERNEL_GET_REAL KERNEL_POS
  omega

namespace Sections

/-- The pages of the code and of the constants. -/
def ReadOnly (S : Sections L) (i : Nat) : Prop :=
  InSection (KERNEL_GET_REAL S.textStart) (KERNEL_GET_REAL S.textEnd) i ∨
    InSection (KERNEL_GET_REAL S.rodataStart) (KERNEL_GET_REAL S.rodataEnd) i

instance (S : Sections L) (i : Nat) : Decidable (S.ReadOnly i) := inferInstanceAs (Decidable (_ ∨ _))

/-- The pages of the image. -/
def Image (S : Sections L) (i : Nat) : Prop :=
  InSection (KERNEL_GET_REAL S.start) (KERNEL_GET_REAL L.kernelEnd) i

instance (S : Sections L) (i : Nat) : Decidable (S.Image i) := inferInstanceAs (Decidable (_ ∧ _))

/-- The word of `kernel_page` for the page `i`. -/
def entry (S : Sections L) (i : Nat) : Nat :=
  if S.ReadOnly i then i <<< 12 ||| PAGE_PRESENT
  else if S.Image i then i <<< 12 ||| (PAGE_WRITE ||| PAGE_PRESENT)
  else if 0xE0 ≤ i ∧ i < 0x100 then i <<< 12 ||| PAGE_PRESENT
  else if i = 0 ∨ i = 0xB8 then i <<< 12 ||| (PAGE_WRITE ||| PAGE_PRESENT)
  else 0

end Sections

/-- The pages below the image: that of the descriptor table, the screen and the BIOS. -/
theorem mapLowPages_spec (table : Nat) (m : Machine) :
    OnTable table m (mapLowPages table m) ∧
      (∀ q, isFree (mapLowPages table m).mmBitmap q =
        (isFree m.mmBitmap q && !decide (q = 0 ∨ q = 0xB8 ∨ q = 8))) ∧
      ∀ i < 1024, (mapLowPages table m).ram table i =
        if 0xE0 ≤ i ∧ i < 0x100 then i <<< 12 ||| PAGE_PRESENT
        else if i = 0 ∨ i = 0xB8 then i <<< 12 ||| (PAGE_WRITE ||| PAGE_PRESENT) else 0 := by
  have hp : PAGE_PRESENT &&& PAGE_ADDR = 0 := by decide
  obtain ⟨on₀, bm₀, ram₀⟩ := pageEntryClear_spec table 1024 m
  obtain ⟨on₁, bm₁, ram₁⟩ := reserveEntry_spec table 0 0 (by decide)
    (by decide) (pageEntryClear table 1024 m)
  unfold mapLowPages
  dsimp only
  generalize reserveEntry table 0 0 (pageEntryClear table 1024 m) = m₁ at on₁ bm₁ ram₁
  obtain ⟨on₂, bm₂, ram₂⟩ := reserveEntry_spec table 0xB8000 0xB8000
    (by decide) (by decide) m₁
  generalize reserveEntry table 0xB8000 0xB8000 m₁ = m₂ at on₂ bm₂ ram₂
  obtain ⟨on₃, bm₃, ram₃⟩ := reserveEntry_spec table 0xE0000 0xE000
    (by decide) (by decide) m₂
  generalize reserveEntry table 0xE0000 0xE000 m₂ = m₃ at on₃ bm₃ ram₃
  obtain ⟨on₄, bm₄, ram₄⟩ := pageEntrySetRange_spec table hp
    (show TABLE_ENTRY 0xE0000 ≤ TABLE_ENTRY 0x100000 by decide) (by decide) m₃
  refine ⟨(((on₀.trans on₁).trans on₂).trans on₃).trans on₄, fun q => ?_, fun i hi => ?_⟩
  · rw [bm₄, bm₃, bm₂, bm₁, bm₀]
    unfold isFree
    rw [isSet_clearBit _ (by decide), isSet_clearBit _ (by decide), isSet_clearBit _ (by decide)]
    have hbits : 8 * ACCESS_BITMAP_BY_ADDR 0 + 0 % 8 = 0 ∧
        8 * ACCESS_BITMAP_BY_ADDR 0xB8000 + 0xB8000 % 8 = 0xB8 ∧
        8 * ACCESS_BITMAP_BY_ADDR 0xE000 + 0xE0000 % 8 = 8 := by decide
    rw [hbits.1, hbits.2.1, hbits.2.2]
    by_cases h₀ : q = 0 <;> by_cases h₁ : q = 0xB8 <;> by_cases h₂ : q = 8 <;> simp [h₀, h₁, h₂]
  · have hfirst : TABLE_ENTRY 0xE0000 = 0xE0 := by decide
    have hlast : TABLE_ENTRY 0x100000 = 0x100 := by decide
    have hzero : TABLE_ENTRY 0 = 0 := by decide
    have hscreen : TABLE_ENTRY 0xB8000 = 0xB8 := by decide
    rw [ram₄, ram₃, ram₂, ram₁, ram₀, hfirst, hlast, hzero, hscreen, if_pos hi]
    refine ite_congr rfl (fun _ => rfl) fun hbios => ?_
    rw [if_neg (by omega)]
    by_cases h₁ : i = 0xB8
    · rw [if_pos h₁, if_pos (.inr h₁), h₁]
      rfl
    · rw [if_neg h₁]
      by_cases h₀ : i = 0
      · rw [if_pos h₀, if_pos (.inl h₀), h₀]
        rfl
      · rw [if_neg h₀, if_neg (not_or.mpr ⟨h₀, h₁⟩)]

/-- The second part: the image, and then its sections with their own flags. -/
theorem mapSections_spec {r₀ r₁ r₂ r₃ r₄ r₅ r₆ r₇ r₈ : Nat} (h₀ : r₀ ≤ r₁) (h₁ : r₁ ≤ r₂)
    (h₂ : r₂ ≤ r₃) (h₃ : r₃ ≤ r₄) (h₄ : r₄ ≤ r₅) (h₅ : r₅ ≤ r₆) (h₆ : r₆ ≤ r₇) (h₇ : r₇ ≤ r₈)
    (hlt : r₈ < 0x400000) (a₂ : r₂ % 4096 = 0) (a₄ : r₄ % 4096 = 0) (a₅ : r₅ % 4096 = 0)
    (a₆ : r₆ % 4096 = 0) (a₇ : r₇ % 4096 = 0) (a₈ : r₈ % 4096 = 0) {table : Nat} {m m' : Machine}
    (hm : m' = mapSection table r₇ r₈ (PAGE_WRITE ||| PAGE_PRESENT)
      (mapSection table r₅ r₆ (PAGE_WRITE ||| PAGE_PRESENT) (mapSection table r₃ r₄ PAGE_PRESENT
        (mapSection table r₁ r₂ PAGE_PRESENT
          (mapSection table r₀ r₈ (PAGE_WRITE ||| PAGE_PRESENT) m))))) :
    OnTable table m m' ∧ m'.mmBitmap = m.mmBitmap ∧
      ∀ i, m'.ram table i =
        if InSection r₁ r₂ i ∨ InSection r₃ r₄ i then i <<< 12 ||| PAGE_PRESENT
        else if InSection r₀ r₈ i then i <<< 12 ||| (PAGE_WRITE ||| PAGE_PRESENT)
        else m.ram table i := by
  have hp : PAGE_PRESENT &&& PAGE_ADDR = 0 := by decide
  have hwp : (PAGE_WRITE ||| PAGE_PRESENT) &&& PAGE_ADDR = 0 := by decide
  obtain ⟨on₁, bm₁, ram₁⟩ := mapSection_spec table hwp (show r₀ ≤ r₈ by omega) hlt a₈ m
  obtain ⟨on₂, bm₂, ram₂⟩ := mapSection_spec table hp h₁ (by omega) a₂
    (mapSection table r₀ r₈ (PAGE_WRITE ||| PAGE_PRESENT) m)
  generalize mapSection table r₀ r₈ (PAGE_WRITE ||| PAGE_PRESENT) m = m₁ at *
  obtain ⟨on₃, bm₃, ram₃⟩ := mapSection_spec table hp h₃ (by omega) a₄
    (mapSection table r₁ r₂ PAGE_PRESENT m₁)
  generalize mapSection table r₁ r₂ PAGE_PRESENT m₁ = m₂ at *
  obtain ⟨on₄, bm₄, ram₄⟩ := mapSection_spec table hwp h₅ (by omega) a₆
    (mapSection table r₃ r₄ PAGE_PRESENT m₂)
  generalize mapSection table r₃ r₄ PAGE_PRESENT m₂ = m₃ at *
  obtain ⟨on₅, bm₅, ram₅⟩ := mapSection_spec table hwp h₇ hlt a₈
    (mapSection table r₅ r₆ (PAGE_WRITE ||| PAGE_PRESENT) m₃)
  generalize mapSection table r₅ r₆ (PAGE_WRITE ||| PAGE_PRESENT) m₃ = m₄ at *
  subst hm
  refine ⟨(((on₁.trans on₂).trans on₃).trans on₄).trans on₅, ?_, fun i => ?_⟩
  · rw [bm₅, bm₄, bm₃, bm₂, bm₁]
  · rw [ram₅, ram₄, ram₃, ram₂, ram₁]
    unfold InSection
    grind

/-- **What `page_setup_kernel_section` does**: it fills the table, and takes three pages out of the
bitmap. -/
theorem kernelSection_spec (S : Sections L) (table : Nat) (m : Machine) :
    OnTable table m (pageSetupKernelSection L S table m) ∧
      (∀ q, isFree (pageSetupKernelSection L S table m).mmBitmap q =
        (isFree m.mmBitmap q && !decide (q = 0 ∨ q = 0xB8 ∨ q = 8))) ∧
      ∀ i < 1024, (pageSetupKernelSection L S table m).ram table i = S.entry i := by
  obtain ⟨h₁, h₂, h₃, h₄, h₅, h₆, h₇⟩ := S.ordered
  obtain ⟨-, a₂, -, a₄, a₅, a₆, a₇, a₈⟩ := S.aligned
  obtain ⟨hlow, hbm, hram⟩ := mapLowPages_spec table m
  obtain ⟨hon, hkept, hwords⟩ := mapSections_spec (real_le S.start_le.2) (real_le h₁) (real_le h₂)
    (real_le h₃) (real_le h₄) (real_le h₅) (real_le h₆) (real_le h₇) (real_lt S.kernelEnd_lt)
    (real_aligned a₂) (real_aligned a₄) (real_aligned a₅) (real_aligned a₆) (real_aligned a₇)
    (real_aligned a₈) (show pageSetupKernelSection L S table m = _ from rfl)
  refine ⟨hlow.trans hon, fun q => ?_, fun i hi => ?_⟩
  · rw [hkept]
    exact hbm q
  · rw [hwords, hram i hi]
    rfl

/-- **`page_setup`** on the machine of the boot code. -/
theorem pageSetupImage_eq (S : Sections L) (m : Machine) : ∃ bm table,
    pageSetupImage L S m = pageSetup L table bm m ∧
      (∀ q, isFree bm q = (isFree m.mmBitmap q && !decide (q = 0 ∨ q = 0xB8 ∨ q = 8))) ∧
      ∀ i < 1024, table i = S.entry i := by
  obtain ⟨hon, hbm, hram⟩ := kernelSection_spec S L.kernelFrame (m.setDir 0 0)
  generalize hm' : pageSetupKernelSection L S L.kernelFrame (m.setDir 0 0) = m' at hon hbm hram
  refine ⟨m'.mmBitmap, m'.ram L.kernelFrame, ?_, hbm, hram⟩
  have hmach : m' = ((m.setDir 0 0).writeFrame L.kernelFrame (m'.ram L.kernelFrame)).setBitmap
      m'.mmBitmap := by
    obtain ⟨hdir, hother⟩ := hon
    obtain ⟨bm', dir', ram'⟩ := m'
    dsimp only at hdir hother
    unfold Machine.writeFrame Machine.setBitmap
    rw [hdir]
    congr 1
    funext f j
    dsimp only
    split
    · rename_i hf
      rw [hf]
    · rename_i hf
      rw [hother f hf]
  unfold pageSetupImage pageSetup
  rw [hm', ← hmach]

/-- Sections of the image of the examples. -/
def Sections.sample : Sections .sample where
  start := 0xC0101000
  textStart := 0xC0101000
  textEnd := 0xC0108000
  rodataStart := 0xC0108000
  rodataEnd := 0xC010B000
  dataStart := 0xC010B000
  dataEnd := 0xC010D000
  bssStart := 0xC010D000
  start_le := by decide
  ordered := by decide
  aligned := by decide
  kernelEnd_lt := by decide
  kernelPage_mem := by decide

end kernel

end Moonlight
