import MoonlightKernel.Acpi.Header
import MoonlightKernel.Boot.KernelSection

/-!
# The root pointer of ACPI: `acpiGetRSDPtr` of `power_off.c`

The firmware leaves a descriptor with the address of its tables at a multiple of sixteen, in the
BIOS or in a data area of its own.  Both are searched through the page tables.  `page_setup` maps
the BIOS; the other area it does not map, so its search ends with a page fault.

* `acpiCheckRSDPtr`, `acpiGetRSDPtr` — the functions over a partial `read`; `none` is a page fault;
* `rsdtAddress` — what a descriptor gives; `searchRSDPtr_spec` — the search gives the first;
* `LowMapped`, `lowMapped_pageSetup` — what is mapped below the image;
* `root_pointer_iff` — the descriptor is found in the BIOS, or there is a page fault.
-/

set_option autoImplicit false

namespace Moonlight

open Sys

/-! ## The source -/

/-- A byte at a virtual address. -/
def virtByte (L : Layout) (m : Machine) (va : Nat) : Option UInt8 :=
  (entryView (slot L m va)).map fun pa => physByte m (pa + va % 4096)

/-- `"RSD PTR "`. -/
def rsdpSignature : List UInt8 := [0x52, 0x53, 0x44, 0x20, 0x50, 0x54, 0x52, 0x20]

section source

variable (read : Nat → Option UInt8)

/-- `memcmp` with the bytes `sig` is zero: it ends at the first difference. -/
def memcmpZero : List UInt8 → Nat → Option Bool
  | [], _ => some true
  | c :: cs, p => (read p).bind fun b => if b = c then memcmpZero cs (p + 1) else some false

/-- The loop of `acpiCheckRSDPtr`, for some number of bytes. -/
def rsdpCheckLoop : Nat → Nat → UInt8 → Option UInt8
  | 0, _, check => some check
  | n + 1, bptr, check => (read bptr).bind fun b => rsdpCheckLoop n (bptr + 1) (check + b)

/-- The number in `n` bytes, the lowest first. -/
def readNumber : Nat → Nat → Option Nat
  | 0, _ => some 0
  | n + 1, p => (read p).bind fun b => (readNumber n (p + 1)).map fun k => b.toNat + 2 ^ 8 * k

/-- `acpiCheckRSDPtr`, with 0 for `NULL`. -/
def acpiCheckRSDPtr (ptr : Nat) : Option Nat :=
  (memcmpZero read rsdpSignature ptr).bind fun same =>
    if same then
      -- `sizeof(struct RSDPDescriptor)` is 20, and `RsdtAddress` its last field
      (rsdpCheckLoop read 20 ptr 0).bind fun check =>
        if check = 0 then readNumber read 4 (ptr + 16) else some 0
    else some 0

/-- A loop of `acpiGetRSDPtr`, for some number of passes. -/
def searchRSDPtr : Nat → Nat → Option Nat
  | 0, _ => some 0
  | n + 1, addr =>
    (acpiCheckRSDPtr read addr).bind fun rsdp =>
      if rsdp ≠ 0 then some rsdp else searchRSDPtr n (addr + 16)

/-- `get_ebda`. -/
def getEbda : Option Nat :=
  (readNumber read 2 (KERNEL_POS + 0x40E)).map fun ebda => (ebda <<< 4) &&& 0x000FFFFF

/-- `acpiGetRSDPtr`. -/
def acpiGetRSDPtr : Option Nat :=
  (searchRSDPtr read 0x2000 (KERNEL_POS + 0xE0000)).bind fun rsdp =>
    if rsdp ≠ 0 then some rsdp
    else (getEbda read).bind fun ebda => searchRSDPtr read 64 (KERNEL_POS + ebda)

end source

/-! ## The search -/

/-- The number that `n` bytes hold. -/
def number (data : Nat → UInt8) : Nat → Nat → Nat
  | 0, _ => 0
  | n + 1, p => (data p).toNat + 2 ^ 8 * number data n (p + 1)

/-- The bytes of `sig` are at `p`. -/
def HasSignature (data : Nat → UInt8) : List UInt8 → Nat → Prop
  | [], _ => True
  | c :: cs, p => data p = c ∧ HasSignature data cs (p + 1)

instance (data : Nat → UInt8) : ∀ sig p, Decidable (HasSignature data sig p)
  | [], _ => isTrue trivial
  | _ :: cs, p =>
    have := instDecidableHasSignature data cs (p + 1)
    inferInstanceAs (Decidable (_ ∧ _))

/-- The address in the descriptor at `p`; 0 when there is none, or when its bytes do not sum up to
zero. -/
def rsdtAddress (data : Nat → UInt8) (p : Nat) : Nat :=
  if HasSignature data rsdpSignature p ∧ byteSum data p 20 % 256 = 0 then number data 4 (p + 16)
  else 0

section search

variable {read : Nat → Option UInt8} {data : Nat → UInt8} {n p : Nat}

/-- The `n` bytes from `p` on can be read. -/
def Reads (read : Nat → Option UInt8) (data : Nat → UInt8) (p n : Nat) : Prop :=
  ∀ q, p ≤ q → q < p + n → read q = some (data q)

theorem Reads.head (h : Reads read data p (n + 1)) : read p = some (data p) :=
  h p (Nat.le_refl p) (by omega)

theorem Reads.tail (h : Reads read data p (n + 1)) : Reads read data (p + 1) n :=
  fun q hq hq' => h q (by omega) (by omega)

theorem readNumber_eq (h : Reads read data p n) : readNumber read n p = some (number data n p) := by
  induction n generalizing p with
  | zero => rfl
  | succ n ih => rw [readNumber, h.head, Option.bind_some, ih h.tail, Option.map_some, number]

theorem rsdpCheckLoop_eq (h : Reads read data p n) (check : UInt8) :
    rsdpCheckLoop read n p check = some (checksumLoop data n p check) := by
  induction n generalizing p check with
  | zero => rfl
  | succ n ih => rw [rsdpCheckLoop, h.head, Option.bind_some, ih h.tail, checksumLoop]

theorem memcmpZero_eq {sig : List UInt8} (h : Reads read data p sig.length) :
    memcmpZero read sig p = some (decide (HasSignature data sig p)) := by
  induction sig generalizing p with
  | nil => rfl
  | cons c cs ih =>
    rw [memcmpZero, h.head, Option.bind_some, ih h.tail]
    by_cases hc : data p = c
    · rw [if_pos hc]
      exact congrArg some (decide_eq_decide.mpr (and_iff_right hc).symm)
    · rw [if_neg hc]
      exact congrArg some (decide_eq_false fun h' => hc h'.1).symm

/-- A place of the search: a descriptor there can be read as a whole. -/
structure Place (read : Nat → Option UInt8) (data : Nat → UInt8) (p : Nat) : Prop where
  signature : Reads read data p 8
  descriptor : HasSignature data rsdpSignature p → Reads read data p 20

theorem acpiCheckRSDPtr_eq (h : Place read data p) :
    acpiCheckRSDPtr read p = some (rsdtAddress data p) := by
  unfold acpiCheckRSDPtr rsdtAddress
  rw [memcmpZero_eq h.signature, Option.bind_some]
  by_cases hsig : HasSignature data rsdpSignature p
  · have hread := h.descriptor hsig
    have hsum : checksumLoop data 20 p 0 = 0 ↔ byteSum data p 20 % 256 = 0 := by
      rw [← UInt8.toNat_inj, checksumLoop_toNat]
      exact Iff.of_eq (by rw [UInt8.toNat_zero, Nat.zero_add])
    rw [if_pos (decide_eq_true hsig), rsdpCheckLoop_eq hread, Option.bind_some]
    by_cases hzero : checksumLoop data 20 p 0 = 0
    · rw [if_pos hzero, if_pos ⟨hsig, hsum.mp hzero⟩]
      exact readNumber_eq fun q hq hq' => hread q (by omega) (by omega)
    · rw [if_neg hzero, if_neg fun h' => hzero (hsum.mpr h'.2)]
  · rw [decide_eq_false hsig, if_neg (by decide), if_neg fun h' => hsig h'.1]

/-- **The search** gives the first address, or 0. -/
theorem searchRSDPtr_spec (h : ∀ i < n, Place read data (p + i * 16)) :
    (∃ i < n, rsdtAddress data (p + i * 16) ≠ 0 ∧ (∀ j < i, rsdtAddress data (p + j * 16) = 0) ∧
        searchRSDPtr read n p = some (rsdtAddress data (p + i * 16))) ∨
      (∀ i < n, rsdtAddress data (p + i * 16) = 0) ∧ searchRSDPtr read n p = some 0 := by
  induction n generalizing p with
  | zero => exact .inr ⟨fun i hi => absurd hi (Nat.not_lt_zero i), rfl⟩
  | succ n ih =>
    have hfirst := h 0 (Nat.succ_pos n)
    have hnext : ∀ i, p + 16 + i * 16 = p + (i + 1) * 16 := fun i => by omega
    rw [Nat.zero_mul, Nat.add_zero] at hfirst
    rw [searchRSDPtr, acpiCheckRSDPtr_eq hfirst, Option.bind_some]
    by_cases hzero : rsdtAddress data p = 0
    · rw [if_neg (not_not.mpr hzero)]
      rcases ih (p := p + 16) fun i hi => (hnext i).symm ▸ h (i + 1) (Nat.succ_lt_succ hi) with
        ⟨i, hi, hne, hbefore, hsearch⟩ | ⟨hnone, hsearch⟩
      · rw [hnext] at hne hsearch
        refine .inl ⟨i + 1, Nat.succ_lt_succ hi, hne, fun j hj => ?_, hsearch⟩
        cases j with
        | zero => rw [Nat.zero_mul, Nat.add_zero]; exact hzero
        | succ j => exact hnext j ▸ hbefore j (Nat.lt_of_succ_lt_succ hj)
      · refine .inr ⟨fun i hi => ?_, hsearch⟩
        cases i with
        | zero => rw [Nat.zero_mul, Nat.add_zero]; exact hzero
        | succ i => exact hnext i ▸ hnone i (Nat.lt_of_succ_lt_succ hi)
    · rw [if_pos hzero]
      refine .inl ⟨0, Nat.succ_pos n, ?_, fun j hj => absurd hj (Nat.not_lt_zero j), ?_⟩
      · rw [Nat.zero_mul, Nat.add_zero]; exact hzero
      · rw [Nat.zero_mul, Nat.add_zero]

end search

/-! ## What is mapped -/

/-- The pages below the image that `page_setup` maps: the first, the screen and the BIOS. -/
def LowPage (i : Nat) : Prop := i = 0 ∨ i = 0xB8 ∨ 0xE0 ≤ i

instance (i : Nat) : Decidable (LowPage i) := inferInstanceAs (Decidable (_ ∨ _))

/-- The first megabyte as `page_setup` maps it. -/
def LowMapped (L : Layout) (m : Machine) : Prop :=
  ∀ a < 0x100000, entryView (slot L m (KERNEL_POS + a)) =
    if LowPage (a / 4096) then some (a / 4096 * 4096) else none

section mapped

variable {L : Layout}

/-- `page_setup` gives the directory entry of the kernel to `kernel_page`. -/
theorem pageSetup_kernel (kernelPage : Nat → Nat) (bm : Bytes) (m : Machine) :
    HasTable (pageSetup L kernelPage bm m) (KERNEL_POS >>> 22) ∧
      tableFrame (pageSetup L kernelPage bm m) (KERNEL_POS >>> 22) = L.kernelFrame := by
  have hlt := L.kernelPage_mem
  have hal := L.aligned.1
  have hend := L.kernelEnd_le
  have hentry : (pageSetup L kernelPage bm m).pageDirectory (KERNEL_POS >>> 22) =
      KERNEL_GET_REAL L.kernelPage ||| PAGE_PRESENT := by
    simp [pageSetup, Machine.setDir]
  have hreal : KERNEL_GET_REAL L.kernelPage % 4096 = 0 := real_aligned hal
  refine ⟨⟨?_, ?_⟩, ?_⟩
  · rw [hentry, and_PAGE_PRESENT_or hreal]
    decide
  · rw [hentry, ← Nat.div_add_mod (KERNEL_GET_REAL L.kernelPage) 4096, hreal, Nat.add_zero,
      Nat.mul_comm]
    exact and_PAGE_SIZE_or (by decide)
  · have haddr := PAGE_GET_ADDR_or (x := KERNEL_GET_REAL L.kernelPage)
      (show PAGE_PRESENT &&& PAGE_ADDR = 0 by decide)
    rw [PAGE_GET_ADDR_eq, PAGE_GET_ADDR_eq] at haddr
    unfold tableFrame Layout.kernelFrame
    rw [hentry, shiftRight_page]
    unfold KERNEL_GET_REAL KERNEL_POS at *
    omega

/-- The words of `kernel_page` for the first megabyte. -/
theorem entry_low (S : Sections L) {i : Nat} (hi : i < 0x100) :
    entryView (S.entry i) = if LowPage i then some (i * 4096) else none := by
  have hstart := S.start_le
  have hordered := S.ordered
  have hnot : ∀ a b, 0xC0100000 ≤ a →
      ¬ InSection (KERNEL_GET_REAL a) (KERNEL_GET_REAL b) i := by
    intro a b ha h
    have hlow := h.1
    unfold KERNEL_GET_REAL KERNEL_POS at hlow
    omega
  have hview : ∀ flag, flag &&& PAGE_PRESENT ≠ 0 → flag &&& PAGE_ADDR = 0 →
      entryView (i <<< 12 ||| flag) = some (i * 4096) := by
    intro flag hflag haddr
    rw [shiftLeft_page]
    exact entryView_or (by omega) (Nat.mul_mod_left i 4096) hflag haddr
  have hro : ¬ S.ReadOnly i := fun h =>
    h.elim (hnot _ _ (by omega)) (hnot _ _ (by omega))
  have himage : ¬ S.Image i := hnot _ _ hstart.1
  unfold Sections.entry
  rw [if_neg hro, if_neg himage]
  by_cases hbios : 0xE0 ≤ i
  · rw [if_pos ⟨hbios, hi⟩, if_pos (.inr (.inr hbios))]
    exact hview _ (by decide) (by decide)
  · rw [if_neg fun h => hbios h.1]
    by_cases hpage : i = 0 ∨ i = 0xB8
    · have hlow : LowPage i := hpage.elim .inl fun h => .inr (.inl h)
      rw [if_pos hpage, if_pos hlow]
      exact hview _ (by decide) (by decide)
    · have hlow : ¬ LowPage i := by
        unfold LowPage
        omega
      rw [if_neg hpage, if_neg hlow]
      exact entryView_zero

theorem lowMapped_of_entry (S : Sections L) {table : Nat → Nat}
    (htable : ∀ i < 1024, table i = S.entry i) (bm : Bytes) (m : Machine) :
    LowMapped L (pageSetup L table bm m) := by
  intro a ha
  obtain ⟨ht, hframe⟩ := pageSetup_kernel (L := L) table bm m
  have hdir : dirIndex (KERNEL_POS + a) = KERNEL_POS >>> 22 := by
    rw [dirIndex_eq, show KERNEL_POS >>> 22 = 768 by decide]
    unfold KERNEL_POS
    omega
  have hindex : tableIndex (KERNEL_POS + a) = a / 4096 := by
    rw [tableIndex_eq]
    unfold KERNEL_POS
    omega
  have hswap : a / 4096 ≠ windowIndex L.pageSwap := by
    have := L.pageSwap_mem
    unfold windowIndex KERNEL_GET_REAL KERNEL_POS
    rw [shiftRight_page]
    omega
  have hram : (pageSetup L table bm m).ram L.kernelFrame (a / 4096) = table (a / 4096) := if_pos rfl
  rw [slot_eq_ram (hdir.symm ▸ ht), hdir, hindex, if_neg fun h => hswap h.2, hframe, hram,
    htable _ (by omega)]
  exact entry_low S (by omega)

/-- **`page_setup`** maps the first megabyte so. -/
theorem lowMapped_pageSetup (S : Sections L) (m : Machine) :
    LowMapped L (pageSetupImage L S m) := by
  obtain ⟨bm, table, heq, -, htable⟩ := pageSetupImage_eq S m
  rw [heq]
  exact lowMapped_of_entry S htable bm m

end mapped

/-- The byte that the first megabyte holds at a virtual address. -/
def lowByte (m : Machine) (va : Nat) : UInt8 := physByte m (va - KERNEL_POS)

/-- The address of the data area of the BIOS. -/
def ebda (m : Machine) : Nat := (number (lowByte m) 2 (KERNEL_POS + 0x40E) <<< 4) &&& 0x000FFFFF

section root

variable {L : Layout} {m : Machine}

theorem virtByte_low (h : LowMapped L m) {a : Nat} (ha : a < 0x100000) :
    virtByte L m (KERNEL_POS + a) =
      if LowPage (a / 4096) then some (lowByte m (KERNEL_POS + a)) else none := by
  unfold virtByte lowByte
  rw [h a ha]
  by_cases hpage : LowPage (a / 4096)
  · have hoff : a / 4096 * 4096 + (KERNEL_POS + a) % 4096 = KERNEL_POS + a - KERNEL_POS := by
      unfold KERNEL_POS
      omega
    rw [if_pos hpage, if_pos hpage, Option.map_some, hoff]
  · rw [if_neg hpage, if_neg hpage, Option.map_none]

theorem reads_low (h : LowMapped L m) {a n : Nat} (hn : a + n ≤ 0x100000)
    (hpages : ∀ q, a ≤ q → q < a + n → LowPage (q / 4096)) :
    Reads (virtByte L m) (lowByte m) (KERNEL_POS + a) n := by
  intro q hq hq'
  obtain ⟨k, rfl⟩ := Nat.exists_eq_add_of_le (Nat.le_trans (Nat.le_add_right _ _) hq)
  rw [virtByte_low h (by omega), if_pos (hpages k (by omega) (by omega))]

/-- **The root pointer.**  When the data area is not in a page of the BIOS, the screen or the first
one, `acpiGetRSDPtr` answers the address of the first descriptor in the BIOS, and in a machine
without one there its search ends with a page fault. -/
theorem root_pointer_iff (L : Layout) (m : Machine) (h : LowMapped L m)
    (hlast : ¬ HasSignature (lowByte m) rsdpSignature (KERNEL_POS + 0xFFFF0))
    (hebda : ¬ LowPage (ebda m / 4096)) (r : Nat) :
    acpiGetRSDPtr (virtByte L m) = some r ↔
      ∃ i < 0x2000, r ≠ 0 ∧ r = rsdtAddress (lowByte m) (KERNEL_POS + 0xE0000 + i * 16) ∧
        ∀ j < i, rsdtAddress (lowByte m) (KERNEL_POS + 0xE0000 + j * 16) = 0 := by
  have hplaces : ∀ i < 0x2000,
      Place (virtByte L m) (lowByte m) (KERNEL_POS + 0xE0000 + i * 16) := by
    intro i hi
    have hbios : ∀ n, 0xE0000 + i * 16 + n ≤ 0x100000 →
        Reads (virtByte L m) (lowByte m) (KERNEL_POS + 0xE0000 + i * 16) n := by
      intro n hn
      rw [Nat.add_assoc]
      exact reads_low h hn fun q hq _ => .inr (.inr (by omega))
    refine ⟨hbios 8 (by omega), fun hsig => ?_⟩
    have hne : i ≠ 0x1FFF := by
      rintro rfl
      exact hlast hsig
    exact hbios 20 (by omega)
  have hsecond : (getEbda (virtByte L m)).bind
      (fun ebda => searchRSDPtr (virtByte L m) 64 (KERNEL_POS + ebda)) = none := by
    have hword : readNumber (virtByte L m) 2 (KERNEL_POS + 0x40E) =
        some (number (lowByte m) 2 (KERNEL_POS + 0x40E)) :=
      readNumber_eq (reads_low h (by omega) fun q _ hq => .inl (by omega))
    have hlt : ebda m < 0x100000 := Nat.lt_succ_of_le Nat.and_le_right
    have hfault := virtByte_low h hlt
    rw [if_neg hebda] at hfault
    unfold getEbda
    rw [hword, Option.map_some, Option.bind_some]
    change searchRSDPtr (virtByte L m) (63 + 1) (KERNEL_POS + ebda m) = none
    rw [searchRSDPtr, acpiCheckRSDPtr, rsdpSignature, memcmpZero, hfault]
    rfl
  unfold acpiGetRSDPtr
  rcases searchRSDPtr_spec hplaces with ⟨i, hi, hne, hbefore, hsearch⟩ | ⟨hnone, hsearch⟩
  · rw [hsearch, Option.bind_some, if_pos hne]
    constructor
    · intro hr
      cases hr
      exact ⟨i, hi, hne, rfl, hbefore⟩
    · rintro ⟨k, -, hr, rfl, hk⟩
      -- both are the first
      rcases Nat.lt_trichotomy i k with hik | rfl | hki
      · exact absurd (hk i hik) hne
      · rfl
      · exact absurd (hbefore k hki) hr
  · rw [hsearch, Option.bind_some, if_neg (not_not.mpr rfl), hsecond]
    refine iff_of_false (fun hr => nomatch hr) ?_
    rintro ⟨i, hi, hr, rfl, -⟩
    exact hr (hnone i hi)

end root

/-- A machine with the kernel mapped, a descriptor at the start of the BIOS for the table at 64 KiB,
and the other area at 0x9FC00. -/
def Machine.withRoot : Machine :=
  pageSetup .sample Sections.sample.entry (fun _ => 0xFF) { Machine.clean with
    ram := fun f i =>
      if f = 0xE0 then [0x20445352, 0x20525450, 0xE0, 0, 0x10000].getD i 0
      else if f = 0 ∧ i = 0x103 then 0x9FC00000
      else 0 }

theorem lowMapped_withRoot : LowMapped .sample .withRoot :=
  lowMapped_of_entry .sample (fun _ _ => rfl) _ _

/-- Its descriptor is found. -/
theorem root_pointer_found : acpiGetRSDPtr (virtByte .sample .withRoot) = some 0x10000 := by
  refine (root_pointer_iff .sample .withRoot lowMapped_withRoot (by decide +kernel)
    (by decide +kernel) 0x10000).mpr ⟨0, by decide, by decide, by decide +kernel, ?_⟩
  intro j hj
  exact absurd hj (Nat.not_lt_zero j)

end Moonlight
