import MoonlightKernel.Lib.Cells
import MoonlightKernel.Process.Copy

/-!
# Copying from physical memory: `copy_with_physical` of `kernel/minishell/cmd/power_off.c`

The physical range is shown page by page in the window `page_swap2`.  Aiming the window writes its
entry in `kernel_page`, which is a word of physical memory as well: a range that contains that word
is copied with what the window needs there.  The destination is a buffer apart from the range.

* `copyWithPhysical` — the function; the memory around `structt` is an array of bytes;
* `copyWithPhysicalLoop_spec` — what the loop copies, from any state, with addresses that wrap;
* `copy_with_physical_copies` — the bytes of the range, but for those of the entry;
* `copy_with_physical_entry` — a range with the entry, which is copied as it never is outside.
-/

set_option autoImplicit false

namespace Moonlight

open Sys

/-! ## The function -/

/-- A byte of a word, the lowest one first. -/
def wordByte (word k : Nat) : UInt8 := UInt8.ofNat (word / 2 ^ (8 * k))

/-- The byte of physical memory at an address. -/
def physByte (m : Machine) (a : Nat) : UInt8 := wordByte (m.ram (a / 4096) (a % 4096 / 4)) (a % 4)

/-- The byte that the window `page_swap2` shows at an offset. -/
def swap2Byte (L : Layout) (m : Machine) (off : Nat) : UInt8 :=
  wordByte (m.ram (windowFrame L L.pageSwap2 m) (off / 4)) (off % 4)

/-- The loop of `copy_with_physical`: the error code, the machine, and the buffer. -/
def copyWithPhysicalLoop (L : Layout) (structt : Nat) (delta : Fin 4096) (addr structSize : Nat)
    (m : Machine) (data : Cells UInt8) : Int × Machine × Cells UInt8 :=
  if _h : structSize = 0 then (0, m, data)
  else
    let r := accessTableWithPhysical L L.pageSwap2 addr m
    if r.1 ≠ 0 then (-1, r.2, data)
    else
      let toCopy := if structSize > 4096 - delta then 4096 - delta.val else structSize
      -- `memcpy(structt, page_swap2 + delta, to_copy)`
      let data := Cells.storeRange structt (fun k => swap2Byte L r.2 (delta + (k - structt))) toCopy
        data
      copyWithPhysicalLoop L (structt + toCopy) 0 (add32 addr 4096) (structSize - toCopy) r.2 data
termination_by structSize
decreasing_by
  have := delta.isLt
  split <;> omega

/-- `copy_with_physical`. -/
def copyWithPhysical (L : Layout) (structt addr structSize : Nat) (m : Machine)
    (data : Cells UInt8) : Int × Machine × Cells UInt8 :=
  copyWithPhysicalLoop L structt ⟨addr % 4096, Nat.mod_lt _ (by decide)⟩ ((addr >>> 12) <<< 12)
    structSize m data

/-! ## The window -/

section window

variable {L : Layout} {m : Machine}

theorem swap2To_swap2To (f g : Nat) : (m.swap2To L f).swap2To L g = m.swap2To L g := by
  unfold Machine.swap2To Machine.write
  congr 1
  funext i j
  dsimp only
  split <;> rfl

theorem windowFrame_swap2To {f : Nat} (hf : f < 2 ^ 20) :
    windowFrame L L.pageSwap2 (m.swap2To L f) = f := by
  unfold windowFrame Machine.swap2To Machine.write
  simp only [true_and, ↓reduceIte]
  exact frame_of_word hf (by decide)

/-- The byte that is copied for the physical byte at `a`. -/
def copiedByte (L : Layout) (m : Machine) (a : Nat) : UInt8 := physByte (m.swap2To L (a / 4096)) a

/-- The window shows the frame that it is aimed at. -/
theorem swap2Byte_swap2To {f off : Nat} (hf : f < 2 ^ 20) (hoff : off < 4096) :
    swap2Byte L (m.swap2To L f) off = copiedByte L m (f * 4096 + off) := by
  unfold swap2Byte copiedByte physByte
  rw [windowFrame_swap2To hf, show (f * 4096 + off) / 4096 = f by omega,
    show (f * 4096 + off) % 4096 = off by omega, show (f * 4096 + off) % 4 = off % 4 by omega]

end window

/-! ## The loop -/

section loop

variable {L : Layout}

theorem copiedByte_swap2To (m : Machine) (f a : Nat) :
    copiedByte L (m.swap2To L f) a = copiedByte L m a := by
  unfold copiedByte
  rw [swap2To_swap2To]

/-- An address in the page behind the page `f`. -/
theorem next_page_address (f i : Nat) :
    ((f + 1) % 2 ^ 20 * 4096 + i) % 2 ^ 32 = (f * 4096 + (4096 + i)) % 2 ^ 32 := by
  omega

/-- **The loop** from the physical address `a` on: `n` bytes are copied, and the window is left at
the last page. -/
theorem copyWithPhysicalLoop_spec (n : Nat) (m : Machine) (data : Cells UInt8) (structt : Nat)
    (delta : Fin 4096) (f : Nat) (hf : f < 2 ^ 20) :
    ∃ copied : Cells UInt8,
      copyWithPhysicalLoop L structt delta (f * 4096) n m data =
        (0, if n = 0 then m
            else m.swap2To L ((f * 4096 + delta + (n - 1)) % 2 ^ 32 / 4096), copied) ∧
      (∀ j, copied.val j = if structt ≤ j ∧ j < structt + n then
        copiedByte L m ((f * 4096 + delta + (j - structt)) % 2 ^ 32) else data.val j) ∧
      ∀ j, j ∈ copied.written ↔ (structt ≤ j ∧ j < structt + n) ∨ j ∈ data.written := by
  induction n using Nat.strongRecOn generalizing m data structt delta f with
  | ind n ih =>
    have hdelta := delta.isLt
    rw [copyWithPhysicalLoop]
    by_cases hzero : n = 0
    · rw [dif_pos hzero, if_pos hzero]
      refine ⟨data, rfl, fun j => ?_, fun j => ?_⟩
      · rw [if_neg (by omega)]
      · exact ⟨.inr, fun h => h.resolve_left (by omega)⟩
    · rw [dif_neg hzero, accessTable_pageSwap2, if_neg hzero]
      dsimp only
      rw [if_neg (not_not.mpr rfl)]
      generalize hk : (if n > 4096 - delta.val then 4096 - delta.val else n) = k
      have hkn : k ≤ n ∧ 0 < k ∧ delta + k ≤ 4096 ∧ (k < n → delta + k = 4096) := by
        split at hk <;> omega
      have haddr : add32 (f * 4096) 4096 = (f + 1) % 2 ^ 20 * 4096 := by
        unfold add32
        omega
      obtain ⟨copied, hloop, hval, hwritten⟩ := ih (n - k) (by omega) (m.swap2To L f)
        (Cells.storeRange structt
          (fun i => swap2Byte L (m.swap2To L f) (delta + (i - structt))) k data)
        (structt + k) 0 ((f + 1) % 2 ^ 20) (Nat.mod_lt _ (by decide))
      rw [haddr]
      refine ⟨copied, hloop.trans ?_, fun j => ?_, fun j => ?_⟩
      · congr 2
        by_cases hrest : n - k = 0
        · rw [if_pos hrest, Nat.mod_eq_of_lt (by omega),
            show (f * 4096 + delta + (n - 1)) / 4096 = f by omega]
        · have hend : delta + (n - 1) = 4096 + (n - k - 1) := by omega
          rw [if_neg hrest, swap2To_swap2To, Fin.val_zero, Nat.add_zero, next_page_address,
            Nat.add_assoc (f * 4096), hend]
      · rw [hval, Cells.storeRange_val]
        by_cases hfirst : structt ≤ j ∧ j < structt + k
        · rw [if_neg (by omega), if_pos hfirst, if_pos (by omega), swap2Byte_swap2To hf (by omega),
            Nat.mod_eq_of_lt (by omega), Nat.add_assoc]
        · rw [if_neg hfirst]
          by_cases hin : structt ≤ j ∧ j < structt + n
          · have hoff : delta + (j - structt) = 4096 + (j - (structt + k)) := by omega
            rw [if_pos (by omega), if_pos hin, copiedByte_swap2To, Fin.val_zero, Nat.add_zero,
              next_page_address, Nat.add_assoc (f * 4096), hoff]
          · rw [if_neg (by omega), if_neg hin]
      · rw [hwritten, Cells.mem_storeRange_written, ← or_assoc]
        refine or_congr_left ?_
        omega

/-- **`copy_with_physical`** at any address. -/
theorem copyWithPhysical_spec {a : Nat} (ha : a < 2 ^ 32) (structt n : Nat) (m : Machine)
    (data : Cells UInt8) : ∃ copied : Cells UInt8,
      copyWithPhysical L structt a n m data =
        (0, if n = 0 then m else m.swap2To L ((a + (n - 1)) % 2 ^ 32 / 4096), copied) ∧
      (∀ j, copied.val j = if structt ≤ j ∧ j < structt + n then
        copiedByte L m ((a + (j - structt)) % 2 ^ 32) else data.val j) ∧
      ∀ j, j ∈ copied.written ↔ (structt ≤ j ∧ j < structt + n) ∨ j ∈ data.written := by
  obtain ⟨copied, hloop, hval, hwritten⟩ := copyWithPhysicalLoop_spec n m data structt
    ⟨a % 4096, Nat.mod_lt _ (by decide)⟩ (a / 4096) (by omega)
  simp only [Nat.div_add_mod'] at hloop hval
  refine ⟨copied, ?_, hval, hwritten⟩
  unfold copyWithPhysical
  rw [shiftRight_page, shiftLeft_page]
  exact hloop

end loop

/-! ## The bytes of the range -/

/-- The bytes of the entry of `page_swap2` in `kernel_page`. -/
def InEntry (L : Layout) (a : Nat) : Prop :=
  a / 4096 = L.kernelFrame ∧ a % 4096 / 4 = windowIndex L.pageSwap2

instance (L : Layout) (a : Nat) : Decidable (InEntry L a) := inferInstanceAs (Decidable (_ ∧ _))

/-- The entry as it is while the window shows `kernel_page`. -/
def selfEntry (L : Layout) : Nat := L.kernelFrame * 4096 ||| (PAGE_WRITE ||| PAGE_PRESENT)

theorem copiedByte_of_not_inEntry {L : Layout} {a : Nat} (h : ¬ InEntry L a) (m : Machine) :
    copiedByte L m a = physByte m a := by
  unfold copiedByte physByte Machine.swap2To Machine.write
  exact congrArg (wordByte · _) (if_neg h)

theorem copiedByte_of_inEntry {L : Layout} {a : Nat} (h : InEntry L a) (m : Machine) :
    copiedByte L m a = wordByte (selfEntry L) (a % 4) := by
  unfold copiedByte physByte Machine.swap2To Machine.write selfEntry
  rw [h.1]
  exact congrArg (wordByte · _) (if_pos ⟨rfl, h.2⟩)

/-- **`copy_with_physical` copies exactly the requested bytes**, but for those of the entry, which
are copied as they are while the window shows their page. -/
theorem copy_with_physical_copies (L : Layout) (m : Machine) (data : Cells UInt8)
    (structt a n : Nat) (ha : a < 2 ^ 32) (hend : a + n ≤ 2 ^ 32) :
    ∃ (m' : Machine) (copied : Cells UInt8),
      copyWithPhysical L structt a n m data = (0, m', copied) ∧
      (∀ i < n, (¬ InEntry L (a + i) → copied.val (structt + i) = physByte m (a + i)) ∧
        (InEntry L (a + i) →
          copied.val (structt + i) = wordByte (selfEntry L) ((a + i) % 4))) ∧
      (∀ j, j < structt ∨ structt + n ≤ j → copied.val j = data.val j) ∧
      ∀ j ∈ copied.written, (structt ≤ j ∧ j < structt + n) ∨ j ∈ data.written := by
  obtain ⟨copied, hcopy, hval, hwritten⟩ := copyWithPhysical_spec ha structt n m data
  refine ⟨_, copied, hcopy, fun i hi => ?_, fun j hj => ?_, fun j hj => (hwritten j).mp hj⟩
  · rw [hval, if_pos (by omega), Nat.add_sub_cancel_left, Nat.mod_eq_of_lt (by omega)]
    exact ⟨fun h => copiedByte_of_not_inEntry h m, fun h => copiedByte_of_inEntry h m⟩
  · rw [hval, if_neg (by omega)]

/-- Four bytes of one page, a whole page, and twelve bytes of a third one. -/
theorem copy_with_physical_three_pages : ∃ (m' : Machine) (copied : Cells UInt8),
    copyWithPhysical Layout.sample 0xC0780030 0xFFC 0x1010
      ⟨fun _ => 0, fun _ => 0, fun f _ => f⟩ ⟨fun _ => 0, []⟩ = (0, m', copied) ∧
      copied.val 0xC0780030 = 0 ∧ copied.val 0xC0781038 = 2 := by
  obtain ⟨m', copied, hcopy, hval, -⟩ := copy_with_physical_copies Layout.sample
    ⟨fun _ => 0, fun _ => 0, fun f _ => f⟩ ⟨fun _ => 0, []⟩ 0xC0780030 0xFFC 0x1010
    (by decide) (by decide)
  exact ⟨m', copied, hcopy, (hval 0 (by decide)).1 (by decide),
    (hval 0x1008 (by decide)).1 (by decide)⟩

/-- Two pages from the entry on: its second byte is neither what it was nor what it is then. -/
theorem copy_with_physical_entry : ∃ (m m' : Machine) (copied : Cells UInt8),
    copyWithPhysical Layout.sample 0 0x110448 4096 m ⟨fun _ => 0, []⟩ = (0, m', copied) ∧
      copied.val 1 ≠ physByte m 0x110449 ∧ copied.val 1 ≠ physByte m' 0x110449 := by
  have haddr : 0x110448 < 2 ^ 32 := by decide
  obtain ⟨copied, hcopy, hval, -⟩ := copyWithPhysical_spec haddr 0 4096
    ⟨fun _ => 0, fun _ => 0, fun _ _ => 0x2003⟩ ⟨fun _ => 0, []⟩
  refine ⟨_, _, copied, hcopy, ?_, ?_⟩
  · rw [hval]
    decide +kernel
  · rw [hval]
    decide +kernel

end Moonlight
