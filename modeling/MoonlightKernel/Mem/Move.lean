import MoonlightKernel.Tty.Terminal

/-!
# Moving bytes: `lib/mem/memcpy.c`, `lib/mem/memmove.c`

The whole memory is one array of bytes, and addresses are words.  `memmove` copies from the front
when the target does not lie behind the source, and from the back otherwise: a loop down to index 1,
and the byte at index 0 behind it.

* `Mem.memcpy`, `Mem.memmove` — the functions;
* `Mem.memmove_val` — what is where afterwards;
* `memmove_moves` — for every overlap;
* `memmove_entries` — `memmove` on the bytes of a screen is `memmove` on its entries.
-/

set_option autoImplicit false

namespace Moonlight

open Sys

namespace Mem

/-- `str_dst[count] = str_src[count]`. -/
def copyByte (dst src count : Nat) (mem : Cells UInt8) : Cells UInt8 :=
  mem.store (add32 dst count) (mem.val (add32 src count))

/-- The loop of `memcpy`. -/
def memcpyLoop (dst src len count : Nat) (mem : Cells UInt8) : Cells UInt8 :=
  if count < len then memcpyLoop dst src len (count + 1) (copyByte dst src count mem) else mem
termination_by len - count

/-- `memcpy`. -/
def memcpy (dst src len : Nat) (mem : Cells UInt8) : Cells UInt8 := memcpyLoop dst src len 0 mem

/-- The loop of `memmove`, down to index 1. -/
def memmoveLoop (dst src : Nat) : Nat → Cells UInt8 → Cells UInt8
  | 0, mem => mem
  | len + 1, mem => memmoveLoop dst src len (copyByte dst src (len + 1) mem)

/-- `memmove`. -/
def memmove (dst src len : Nat) (mem : Cells UInt8) : Cells UInt8 :=
  if len = 0 then mem
  else if dst ≤ src then memcpy dst src len mem
  else copyByte dst src 0 (memmoveLoop dst src (len - 1) mem)

section copies

variable {dst src len : Nat} {mem : Cells UInt8}

/-- Without a wrap a byte is copied from index to index. -/
theorem copyByte_eq {count : Nat} (hdst : dst + count < 2 ^ 32) (hsrc : src + count < 2 ^ 32) :
    copyByte dst src count mem = mem.store (dst + count) (mem.val (src + count)) := by
  unfold copyByte
  rw [add32_of_lt hdst, add32_of_lt hsrc]

/-- `memcpy` goes on where the bytes in front of `count` have been copied. -/
theorem memcpyLoop_eq (hdst : dst + len ≤ 2 ^ 32) (hsrc : src + len ≤ 2 ^ 32) {count : Nat}
    (h : count ≤ len) : memcpyLoop dst src len count (Cells.copyForward dst src count mem) =
      Cells.copyForward dst src len mem := by
  induction hk : len - count generalizing count with
  | zero =>
    obtain rfl : count = len := by omega
    rw [memcpyLoop, if_neg (Nat.lt_irrefl _)]
  | succ k ih =>
    rw [memcpyLoop, if_pos (by omega), copyByte_eq (by omega) (by omega)]
    exact ih (by omega) (by omega)

theorem memcpy_eq (hdst : dst + len ≤ 2 ^ 32) (hsrc : src + len ≤ 2 ^ 32) :
    memcpy dst src len mem = Cells.copyForward dst src len mem :=
  memcpyLoop_eq hdst hsrc (Nat.zero_le _)

/-- The loop down to index 1 and the byte at index 0 are one loop. -/
theorem memmoveLoop_eq (hdst : dst + len < 2 ^ 32) (hsrc : src + len < 2 ^ 32) :
    copyByte dst src 0 (memmoveLoop dst src len mem) =
      Cells.copyBackward dst src (len + 1) mem := by
  induction len generalizing mem with
  | zero => exact copyByte_eq hdst hsrc
  | succ len ih =>
    rw [memmoveLoop, ih (by omega) (by omega), copyByte_eq hdst hsrc]
    rfl

/-- **What is where after `memmove`**. -/
theorem memmove_val (hdst : dst + len ≤ 2 ^ 32) (hsrc : src + len ≤ 2 ^ 32) (a : Nat) :
    (memmove dst src len mem).val a =
      if dst ≤ a ∧ a < dst + len then mem.val (src + (a - dst)) else mem.val a := by
  unfold memmove
  by_cases hzero : len = 0
  · rw [if_pos hzero, if_neg (by omega)]
  · rw [if_neg hzero]
    by_cases hle : dst ≤ src
    · rw [if_pos hle, memcpy_eq hdst hsrc, Cells.copyForward_val hle]
    · obtain ⟨n, rfl⟩ := Nat.exists_eq_succ_of_ne_zero hzero
      rw [if_neg hle, Nat.succ_sub_one, memmoveLoop_eq (by omega) (by omega),
        Cells.copyBackward_val (by omega)]

end copies

end Mem

/-- **`memmove` is correct for every overlap**: the target holds what the source held, and no other
byte changes. -/
theorem memmove_moves (mem : Cells UInt8) (dst src len : Nat) (hdst : dst + len ≤ 2 ^ 32)
    (hsrc : src + len ≤ 2 ^ 32) :
    (∀ i < len, (Mem.memmove dst src len mem).val (dst + i) = mem.val (src + i)) ∧
      ∀ a, a < dst ∨ dst + len ≤ a → (Mem.memmove dst src len mem).val a = mem.val a := by
  constructor
  · intro i hi
    rw [Mem.memmove_val hdst hsrc, if_pos (by omega), Nat.add_sub_cancel_left]
  · intro a ha
    rw [Mem.memmove_val hdst hsrc, if_neg (by omega)]

/-- Eight of the bytes `0, 1, 2, …` are moved up by two, and down by two. -/
theorem memmove_moves_overlap :
    (Mem.memmove 0x1002 0x1000 8 ⟨UInt8.ofNat, []⟩).val 0x1004 = 2 ∧
      (Mem.memmove 0x1000 0x1002 8 ⟨UInt8.ofNat, []⟩).val 0x1004 = 6 :=
  ⟨(memmove_moves ⟨UInt8.ofNat, []⟩ 0x1002 0x1000 8 (by decide) (by decide)).1 2 (by decide),
    (memmove_moves ⟨UInt8.ofNat, []⟩ 0x1000 0x1002 8 (by decide) (by decide)).1 4 (by decide)⟩

/-! ## Entries of a screen -/

/-- The memory from `base` on holds `n` entries, the low byte of each one first. -/
def HoldsEntries (mem : Cells UInt8) (base n : Nat) (a : Cells UInt16) : Prop :=
  ∀ i < n, mem.val (base + 2 * i) = (a.val i).toUInt8 ∧
    mem.val (base + 2 * i + 1) = (a.val i >>> 8).toUInt8

/-- `memmove` on entries. -/
theorem memmove_entries_val (a : Cells UInt16) (dst src len j : Nat) :
    (memmove a dst src len).val j =
      if dst ≤ j ∧ j < dst + len then a.val (src + (j - dst)) else a.val j := by
  unfold memmove
  by_cases hzero : len = 0
  · rw [if_pos hzero, if_neg (by omega)]
  · rw [if_neg hzero]
    by_cases hle : dst ≤ src
    · rw [if_pos hle, Cells.copyForward_val hle]
    · rw [if_neg hle, Cells.copyBackward_val (by omega)]

/-- **The bytes of a screen** are moved as its entries are. -/
theorem memmove_entries {mem : Cells UInt8} {a : Cells UInt16} {base n dst src len : Nat}
    (h : HoldsEntries mem base n a) (hbase : base + 2 * n ≤ 2 ^ 32) (hdst : dst + len ≤ n)
    (hsrc : src + len ≤ n) :
    HoldsEntries (Mem.memmove (base + 2 * dst) (base + 2 * src) (2 * len) mem) base n
      (memmove a dst src len) := by
  intro i hi
  rw [Mem.memmove_val (by omega) (by omega), Mem.memmove_val (by omega) (by omega),
    memmove_entries_val]
  by_cases hin : dst ≤ i ∧ i < dst + len
  · obtain ⟨hlow, hhigh⟩ := h (src + (i - dst)) (by omega)
    rw [if_pos (by omega), if_pos hin, if_pos (by omega), ← hlow, ← hhigh]
    exact ⟨congrArg mem.val (by omega), congrArg mem.val (by omega)⟩
  · rw [if_neg (by omega), if_neg hin, if_neg (by omega)]
    exact h i hi

end Moonlight
