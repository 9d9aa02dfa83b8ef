import MoonlightKernel.Paging

/-!
# What the page tables translate

The kernel reads a page table through the window `page_swap`, so a query rewrites the window's
own entry before it looks anything up.  The file gives the paging functions an account in which
this is no longer visible:

* `slot` — the page-table word of a virtual page, as `page_info` sees it;
* `pageGetPhys_eq`, `pageIsPresent_eq` — the queries read that word and nothing else;
* `pageMap_spec`, `pageMap_ok` — a successful `page_map` opens the table of its directory entry
  (`OpenTable`: the one that is there, or a fresh frame with whatever it contains) and stores one
  word in it;
* `pageMap_changes_one_translation_iff` — when that leaves every other translation alone.
-/

set_option autoImplicit false

namespace Moonlight

open Sys Sys.Bitmap

/-! ## Entries -/

theorem and_PAGE_FLAG (x : Nat) : x &&& PAGE_FLAG = x % 4096 :=
  Nat.and_two_pow_sub_one_eq_mod x 12

theorem and_PAGE_PRESENT (x : Nat) : x &&& PAGE_PRESENT = x % 2 := Nat.and_one_is_mod x

theorem tableIndex_eq (v : Nat) : tableIndex v = v / 4096 % 1024 := by
  rw [tableIndex, shiftRight_page]; exact Nat.and_two_pow_sub_one_eq_mod _ 10

theorem tableIndex_lt (v : Nat) : tableIndex v < 1024 := by rw [tableIndex_eq]; omega

theorem dirIndex_eq (v : Nat) : dirIndex v = v / 4096 / 1024 := by
  rw [dirIndex, Nat.shiftRight_eq_div_pow, Nat.div_div_eq_div_mul]

theorem PAGE_GET_ADDR_eq (x : Nat) : PAGE_GET_ADDR x = x / 4096 % 2 ^ 20 * 4096 := by
  apply Nat.eq_of_testBit_eq
  intro i
  have hmask : PAGE_ADDR = (2 ^ 20 - 1) * 2 ^ 12 := by decide
  have hx : x / 4096 % 2 ^ 20 * 4096 = (x / 2 ^ 12 % 2 ^ 20) * 2 ^ 12 := rfl
  rw [PAGE_GET_ADDR, hmask, hx, Nat.testBit_and, Nat.testBit_mul_two_pow, Nat.testBit_mul_two_pow,
    Nat.testBit_two_pow_sub_one, Nat.testBit_mod_two_pow, Nat.testBit_div_two_pow]
  by_cases h : 12 ≤ i
  · rw [Nat.sub_add_cancel h]
    simp [h, Bool.and_comm]
  · simp [h]

/-- Address and flags of an entry do not overlap. -/
theorem PAGE_GET_ADDR_or {x flag : Nat} (h : flag &&& PAGE_ADDR = 0) :
    PAGE_GET_ADDR (x ||| flag) = PAGE_GET_ADDR x := by
  rw [PAGE_GET_ADDR, Nat.and_or_distrib_right, h, Nat.or_zero, PAGE_GET_ADDR]

theorem and_PAGE_PRESENT_or {x flag : Nat} (h : x % 4096 = 0) :
    (x ||| flag) &&& PAGE_PRESENT = flag &&& PAGE_PRESENT := by
  rw [Nat.and_or_distrib_right, and_PAGE_PRESENT x, show x % 2 = 0 by omega, Nat.zero_or]

theorem and_PAGE_SIZE_or {p flag : Nat} (h : flag &&& PAGE_SIZE = 0) :
    (p * 4096 ||| flag) &&& PAGE_SIZE = 0 := by
  rw [Nat.and_or_distrib_right, h, Nat.or_zero]
  apply Nat.eq_of_testBit_eq
  intro i
  have hp : p * 4096 = p * 2 ^ 12 := rfl
  have hs : PAGE_SIZE = 2 ^ 7 := rfl
  rw [hp, hs, Nat.testBit_and, Nat.testBit_mul_two_pow, Nat.testBit_two_pow, Nat.zero_testBit]
  by_cases hi : 12 ≤ i
  · simp [show ¬ 7 = i by omega]
  · simp [hi]

/-! ## The window -/

theorem Layout.kernelFrame_lt (L : Layout) : L.kernelFrame < 1024 := by
  have h1 := L.kernelPage_mem
  have h2 := L.kernelEnd_le
  rw [Layout.kernelFrame, shiftRight_page, KERNEL_GET_REAL, KERNEL_POS]
  omega

theorem windowIndex_lt {L : Layout} {window : Nat}
    (h : 0xC0100000 ≤ window ∧ window + 4096 ≤ L.kernelEnd) : windowIndex window < 1024 := by
  have hend := L.kernelEnd_le
  rw [windowIndex, shiftRight_page, KERNEL_GET_REAL, KERNEL_POS]
  omega

/-- A window in the kernel image is pointed at the frame `f`. -/
theorem accessTable_window {L : Layout} {window : Nat}
    (h : 0xC0100000 ≤ window ∧ window + 4096 ≤ L.kernelEnd) (f : Nat) (m : Machine) :
    accessTableWithPhysical L window (f * 4096) m =
      (0, m.write L.kernelFrame (windowIndex window) (f * 4096 ||| (PAGE_WRITE ||| PAGE_PRESENT))) := by
  have hi := windowIndex_lt h
  unfold accessTableWithPhysical pageEntrySet
  rw [and_PAGE_FLAG, if_neg (by omega), if_neg (by decide), if_neg (by omega)]

/-- The state in which `page_swap` shows the frame `f`. -/
def Machine.swapTo (L : Layout) (m : Machine) (f : Nat) : Machine :=
  m.write L.kernelFrame (windowIndex L.pageSwap) (f * 4096 ||| (PAGE_WRITE ||| PAGE_PRESENT))

theorem accessTable_pageSwap (L : Layout) (f : Nat) (m : Machine) :
    accessTableWithPhysical L L.pageSwap (f * 4096) m = (0, m.swapTo L f) :=
  accessTable_window L.pageSwap_mem f m

theorem windowFrame_swapTo (L : Layout) {f : Nat} (hf : f < 2 ^ 20) (m : Machine) :
    windowFrame L L.pageSwap (m.swapTo L f) = f := by
  rw [windowFrame, Machine.swapTo, Machine.write]
  simp only [and_self, ↓reduceIte]
  rw [PAGE_GET_ADDR_or (by decide), PAGE_GET_ADDR_eq, shiftRight_page]
  omega

theorem ram_swapTo (L : Layout) (m : Machine) (f g i : Nat) :
    (m.swapTo L f).ram g i = if g = L.kernelFrame ∧ i = windowIndex L.pageSwap then
      f * 4096 ||| (PAGE_WRITE ||| PAGE_PRESENT) else m.ram g i := rfl

@[simp] theorem swapTo_pageDirectory (L : Layout) (m : Machine) (f : Nat) :
    (m.swapTo L f).pageDirectory = m.pageDirectory := rfl

@[simp] theorem swapTo_mmBitmap (L : Layout) (m : Machine) (f : Nat) :
    (m.swapTo L f).mmBitmap = m.mmBitmap := rfl

@[simp] theorem write_pageDirectory (m : Machine) (f i w : Nat) :
    (m.write f i w).pageDirectory = m.pageDirectory := rfl

@[simp] theorem write_mmBitmap (m : Machine) (f i w : Nat) :
    (m.write f i w).mmBitmap = m.mmBitmap := rfl

theorem swapTo_swapTo (L : Layout) (m : Machine) (f g : Nat) :
    (m.swapTo L f).swapTo L g = m.swapTo L g := by
  unfold Machine.swapTo Machine.write
  congr 1
  funext a b
  by_cases h : a = L.kernelFrame ∧ b = windowIndex L.pageSwap <;> simp [h]

/-! ## Slots -/

/-- The directory entry `d` points to a page table. -/
def HasTable (m : Machine) (d : Nat) : Prop :=
  m.pageDirectory d &&& PAGE_PRESENT ≠ 0 ∧ m.pageDirectory d &&& PAGE_SIZE = 0

instance (m : Machine) (d : Nat) : Decidable (HasTable m d) :=
  inferInstanceAs (Decidable (_ ∧ _))

/-- The frame that the directory entry `d` names. -/
def tableFrame (m : Machine) (d : Nat) : Nat := m.pageDirectory d / 4096 % 2 ^ 20

theorem tableFrame_lt (m : Machine) (d : Nat) : tableFrame m d < 2 ^ 20 :=
  Nat.mod_lt _ (by decide)

theorem PAGE_GET_ADDR_dir (m : Machine) (d : Nat) :
    PAGE_GET_ADDR (m.pageDirectory d) = tableFrame m d * 4096 := PAGE_GET_ADDR_eq _

/-- The page-table word that translates the virtual address `v`, `0` when there is no table.
The entry of `page_swap` in `kernel_page` is overwritten by the access itself. -/
def slot (L : Layout) (m : Machine) (v : Nat) : Nat :=
  if HasTable m (dirIndex v) then
    (m.swapTo L (tableFrame m (dirIndex v))).ram (tableFrame m (dirIndex v)) (tableIndex v)
  else 0

theorem dirIndex_page (v : Nat) : dirIndex ((v >>> 12) <<< 12) = dirIndex v := by
  rw [dirIndex_eq, dirIndex_eq, shiftRight_page, shiftLeft_page, Nat.mul_div_cancel _ (by decide)]

theorem tableIndex_page (v : Nat) : tableIndex ((v >>> 12) <<< 12) = tableIndex v := by
  rw [tableIndex_eq, tableIndex_eq, shiftRight_page, shiftLeft_page,
    Nat.mul_div_cancel _ (by decide)]

theorem slot_page (L : Layout) (m : Machine) (v : Nat) :
    slot L m (v / 4096 * 4096) = slot L m v := by
  rw [← shiftRight_page, ← shiftLeft_page]
  unfold slot
  rw [dirIndex_page, tableIndex_page]

/-- `page_info` in terms of `slot`. -/
theorem pageInfo_eq (L : Layout) (v : Nat) (m : Machine) :
    pageInfo L v m = (0, ⟨m.pageDirectory (dirIndex v), decide (HasTable m (dirIndex v)),
      slot L m v⟩, if HasTable m (dirIndex v) then m.swapTo L (tableFrame m (dirIndex v)) else m) := by
  unfold pageInfo
  simp only [dirIndex_page, tableIndex_page]
  by_cases h : HasTable m (dirIndex v)
  · have hne : ¬ (m.pageDirectory (dirIndex v) &&& PAGE_PRESENT = 0 ∨
        m.pageDirectory (dirIndex v) &&& PAGE_SIZE ≠ 0) := by
      rintro (h' | h')
      · exact h.1 h'
      · exact h' h.2
    rw [if_neg hne, PAGE_GET_ADDR_dir, accessTable_pageSwap]
    simp only [ne_eq, not_true_eq_false, ↓reduceIte]
    rw [windowFrame_swapTo L (tableFrame_lt m _), slot, if_pos h, if_pos h, decide_eq_true h]
  · have hno : m.pageDirectory (dirIndex v) &&& PAGE_PRESENT = 0 ∨
        m.pageDirectory (dirIndex v) &&& PAGE_SIZE ≠ 0 := by
      unfold HasTable at h
      by_cases hp : m.pageDirectory (dirIndex v) &&& PAGE_PRESENT = 0
      · exact .inl hp
      · exact .inr fun hs => h ⟨hp, hs⟩
    rw [if_pos hno, slot, if_neg h, if_neg h, decide_eq_false h]

theorem slot_of_not_hasTable {L : Layout} {m : Machine} {v : Nat} (h : ¬ HasTable m (dirIndex v)) :
    slot L m v = 0 := if_neg h

/-- `page_get_phys` reads the slot. -/
theorem pageGetPhys_eq (L : Layout) (v : Nat) (m : Machine) :
    (pageGetPhys L v m).1 =
      if slot L m v &&& PAGE_PRESENT ≠ 0 then PAGE_GET_ADDR (slot L m v) else 0 := by
  unfold pageGetPhys
  rw [pageInfo_eq]
  by_cases h : HasTable m (dirIndex v)
  · simp only [h, decide_true, Bool.not_true, Bool.false_eq_true, ↓reduceIte]
    split <;> rfl
  · simp [h, slot_of_not_hasTable h]

/-- `page_is_present` reads the slot. -/
theorem pageIsPresent_eq (L : Layout) (v : Nat) (m : Machine) :
    (pageIsPresent L v m).1 = decide (slot L m v &&& PAGE_PRESENT ≠ 0) := by
  unfold pageIsPresent
  rw [pageInfo_eq]
  by_cases h : HasTable m (dirIndex v)
  · simp [h]
  · simp [h, slot_of_not_hasTable h]

/-- The queries leave the machine as it is, up to what `page_swap` shows. -/
theorem pageGetPhys_state (L : Layout) (v : Nat) (m : Machine) :
    (pageGetPhys L v m).2 =
      if HasTable m (dirIndex v) then m.swapTo L (tableFrame m (dirIndex v)) else m := by
  unfold pageGetPhys
  rw [pageInfo_eq]
  dsimp only
  split
  · rfl
  · split <;> rfl

/-- The query has moved the window and nothing else. -/
theorem pageGetPhys_keeps (L : Layout) (v : Nat) (m : Machine) :
    (pageGetPhys L v m).2.pageDirectory = m.pageDirectory ∧
      (pageGetPhys L v m).2.mmBitmap = m.mmBitmap := by
  rw [pageGetPhys_state]
  split
  · exact ⟨rfl, rfl⟩
  · exact ⟨rfl, rfl⟩

theorem slot_eq_ram {L : Layout} {m : Machine} {v : Nat} (h : HasTable m (dirIndex v)) :
    slot L m v = if tableFrame m (dirIndex v) = L.kernelFrame ∧
        tableIndex v = windowIndex L.pageSwap then
      L.kernelFrame * 4096 ||| (PAGE_WRITE ||| PAGE_PRESENT)
    else m.ram (tableFrame m (dirIndex v)) (tableIndex v) := by
  rw [slot, if_pos h, ram_swapTo]
  split
  · rename_i hk; rw [hk.1]
  · rfl

/-- What `page_swap` shows changes no slot. -/
theorem slot_swapTo (L : Layout) (m : Machine) (f v : Nat) : slot L (m.swapTo L f) v = slot L m v := by
  unfold slot
  rw [swapTo_swapTo]
  rfl

/-- One word stored in a frame changes the slots of the pages that this word translates. -/
theorem slot_write (L : Layout) (m : Machine) (f i w v : Nat) :
    slot L (m.write f i w) v =
      if HasTable m (dirIndex v) ∧ tableFrame m (dirIndex v) = f ∧ tableIndex v = i ∧
          ¬ (f = L.kernelFrame ∧ i = windowIndex L.pageSwap) then w
      else slot L m v := by
  by_cases ht : HasTable m (dirIndex v)
  · have ht' : HasTable (m.write f i w) (dirIndex v) := ht
    rw [slot_eq_ram ht, slot_eq_ram ht', show tableFrame (m.write f i w) = tableFrame m from rfl]
    by_cases hk : tableFrame m (dirIndex v) = L.kernelFrame ∧ tableIndex v = windowIndex L.pageSwap
    · rw [if_pos hk, if_pos hk, if_neg]
      rintro ⟨-, rfl, rfl, hn⟩
      exact hn hk
    · rw [if_neg hk, if_neg hk]
      by_cases hfi : tableFrame m (dirIndex v) = f ∧ tableIndex v = i
      · rw [if_pos ⟨ht, hfi.1, hfi.2, by rw [← hfi.1, ← hfi.2]; exact hk⟩]
        simp [Machine.write, hfi.1, hfi.2]
      · rw [if_neg fun h => hfi ⟨h.2.1, h.2.2.1⟩]
        simp only [Machine.write]
        rw [if_neg hfi]
  · have ht' : ¬ HasTable (m.write f i w) (dirIndex v) := ht
    rw [slot_of_not_hasTable ht', slot_of_not_hasTable ht, if_neg fun h => ht h.1]

/-- The slot of a page depends on its directory entry and on the frames only. -/
theorem slot_congr {L : Layout} {m m' : Machine} {v : Nat}
    (hdir : m'.pageDirectory (dirIndex v) = m.pageDirectory (dirIndex v)) (hram : m'.ram = m.ram) :
    slot L m' v = slot L m v := by
  have ht : HasTable m' (dirIndex v) ↔ HasTable m (dirIndex v) := by unfold HasTable; rw [hdir]
  have hf : tableFrame m' (dirIndex v) = tableFrame m (dirIndex v) := by
    unfold tableFrame; rw [hdir]
  unfold slot
  simp only [ht, hf, ram_swapTo, hram]

/-! ## `page_map` -/

/-- `OpenTable m d t m₁`: opening the table of directory entry `d` in `m` gives the frame `t`
and the state `m₁`.  A missing table is a frame fresh from `get_phys_block`, whose old contents
stay as they are. -/
inductive OpenTable (m : Machine) (d : Nat) : Nat → Machine → Prop
  | present (h : HasTable m d) : OpenTable m d (tableFrame m d) m
  | fresh {p : Nat} (habs : m.pageDirectory d &&& PAGE_PRESENT = 0)
      (hsize : m.pageDirectory d &&& PAGE_SIZE = 0)
      (hget : getPhysBlock 1 m.mmBitmap = (p * 4096, clearRun p 1 m.mmBitmap))
      (hlo : 1272 ≤ p) (hhi : p + 1 < 2 ^ 20) (hfree : isFree m.mmBitmap p = true) :
      OpenTable m d p ((m.setBitmap (clearRun p 1 m.mmBitmap)).setDir d
        (p * 4096 ||| (PAGE_PRESENT ||| PAGE_WRITE ||| PAGE_USER_SUPERVISOR)))

namespace OpenTable

variable {m m₁ : Machine} {d t : Nat}

theorem hasTable (h : OpenTable m d t m₁) : HasTable m₁ d ∧ tableFrame m₁ d = t := by
  cases h with
  | present h => exact ⟨h, rfl⟩
  | fresh habs hsize hget hlo hhi hfree =>
    unfold HasTable tableFrame
    simp only [Machine.setDir, Function.update_self]
    refine ⟨⟨?_, and_PAGE_SIZE_or (by decide)⟩, ?_⟩
    · rw [and_PAGE_PRESENT_or (by omega)]; decide
    · have := PAGE_GET_ADDR_or (x := t * 4096)
        (show (PAGE_PRESENT ||| PAGE_WRITE ||| PAGE_USER_SUPERVISOR) &&& PAGE_ADDR = 0 by decide)
      rw [PAGE_GET_ADDR_eq, PAGE_GET_ADDR_eq] at this
      omega

theorem eq_or_fresh (h : OpenTable m d t m₁) : (HasTable m d ∧ m₁ = m) ∨
    (m.pageDirectory d &&& PAGE_PRESENT = 0 ∧ 1272 ≤ t ∧ isFree m.mmBitmap t = true) := by
  cases h with
  | present h => exact .inl ⟨h, rfl⟩
  | fresh habs _ _ hlo _ hfree => exact .inr ⟨habs, hlo, hfree⟩

theorem frame_lt (h : OpenTable m d t m₁) : t < 2 ^ 20 := by
  rw [← h.hasTable.2]; exact tableFrame_lt _ _

theorem ram_eq (h : OpenTable m d t m₁) : m₁.ram = m.ram := by cases h <;> rfl

theorem dir_of_ne (h : OpenTable m d t m₁) {e : Nat} (he : e ≠ d) :
    m₁.pageDirectory e = m.pageDirectory e := by
  cases h with
  | present => rfl
  | fresh => exact Function.update_of_ne he _ _

end OpenTable

/-- **The outcomes of `page_map`** with a present entry: an argument is refused, there is no frame
for a new table, or the table of the directory entry is opened and one word stored in it. -/
theorem pageMap_spec (L : Layout) (pa va : Nat) {flag : Nat} (m : Machine)
    (hflag : flag &&& PAGE_PRESENT ≠ 0) :
    pageMap L pa va flag m = (-EINVAL, m) ∨
      (m.pageDirectory (dirIndex va) &&& PAGE_PRESENT = 0 ∧
        pageMap L pa va flag m = (-ENOMEM, m.setDir (dirIndex va) 0)) ∨
      (pa % 4096 = 0 ∧ va % 4096 = 0 ∧ flag &&& PAGE_ADDR = 0 ∧
        ∃ t m₁, OpenTable m (dirIndex va) t m₁ ∧
          pageMap L pa va flag m = (0, (m₁.swapTo L t).write t (tableIndex va) (pa ||| flag))) := by
  generalize hr : pageMap L pa va flag m = r
  unfold pageMap at hr
  rw [and_PAGE_FLAG, and_PAGE_FLAG] at hr
  split at hr
  · exact .inl hr.symm
  rename_i hva
  split at hr
  · exact .inl hr.symm
  rename_i hpa
  split at hr
  · exact .inl hr.symm
  rename_i hfa
  dsimp only at hr
  split at hr
  · exact .inl hr.symm
  rename_i hsize
  split at hr
  · rename_i hnew
    -- without a frame the bitmap is as it was
    have hbm : (getPhysBlock 1 m.mmBitmap).2 = m.mmBitmap := by
      rcases getPhysBlock_spec 1 m.mmBitmap with hg | ⟨p, hg, hlo, -, -⟩
      · rw [hg]
      · have := hnew.2
        rw [hg] at this
        dsimp only at this
        omega
    rw [hbm] at hr
    exact .inr (.inl ⟨hnew.1, hr.symm⟩)
  rename_i hget
  refine .inr (.inr ⟨by omega, by omega, by simpa using hfa, ?_⟩)
  obtain ⟨t, m₁, hopen, hm₁⟩ : ∃ t m₁, OpenTable m (dirIndex va) t m₁ ∧
      (if m.pageDirectory (dirIndex va) &&& PAGE_PRESENT = 0 then
        (m.setBitmap (getPhysBlock 1 m.mmBitmap).2).setDir (dirIndex va)
          ((getPhysBlock 1 m.mmBitmap).1 |||
            (PAGE_PRESENT ||| PAGE_WRITE ||| PAGE_USER_SUPERVISOR))
      else m) = m₁ := by
    by_cases habs : m.pageDirectory (dirIndex va) &&& PAGE_PRESENT = 0
    · rcases getPhysBlock_spec 1 m.mmBitmap with hg | ⟨p, hg, hlo, hhi, hfree⟩
      · exact absurd ⟨habs, by rw [hg]⟩ hget
      · refine ⟨p, _, .fresh habs (by simpa using hsize) hg hlo hhi
          (hfree p (Nat.le_refl _) (by omega)), ?_⟩
        rw [if_pos habs, hg]
    · exact ⟨_, m, .present ⟨habs, by simpa using hsize⟩, if_neg habs⟩
  rw [hm₁, PAGE_GET_ADDR_dir, hopen.hasTable.2, accessTable_pageSwap] at hr
  simp only [ne_eq, not_true_eq_false, ↓reduceIte] at hr
  rw [windowFrame_swapTo L hopen.frame_lt] at hr
  unfold pageEntrySet at hr
  rw [and_PAGE_FLAG, if_neg hpa, if_neg hfa, if_neg (Nat.not_le.mpr (tableIndex_lt va))] at hr
  exact ⟨t, m₁, hopen, hr.symm⟩

/-- **A successful `page_map`** opens the table of its directory entry and stores one word. -/
theorem pageMap_ok {L : Layout} {pa va flag : Nat} {m m' : Machine}
    (hflag : flag &&& PAGE_PRESENT ≠ 0) (h : pageMap L pa va flag m = (0, m')) :
    pa % 4096 = 0 ∧ va % 4096 = 0 ∧ flag &&& PAGE_ADDR = 0 ∧
      ∃ t m₁, OpenTable m (dirIndex va) t m₁ ∧
        m' = (m₁.swapTo L t).write t (tableIndex va) (pa ||| flag) := by
  rcases pageMap_spec L pa va m hflag with
    he | ⟨-, he⟩ | ⟨hpa, hva, hfa, t, m₁, hopen, he⟩
  · rw [he] at h; cases h
  · rw [he] at h; cases h
  · rw [he] at h
    cases h
    exact ⟨hpa, hva, hfa, t, m₁, hopen, rfl⟩

/-! ## When `page_map` changes one translation only -/

/-- The address that a page-table word translates to, if it is present. -/
def entryView (word : Nat) : Option Nat :=
  if word &&& PAGE_PRESENT ≠ 0 then some (PAGE_GET_ADDR word) else none

theorem entryView_zero : entryView 0 = none := rfl

theorem hasTable_of_view {L : Layout} {m : Machine} {v a : Nat}
    (h : entryView (slot L m v) = some a) : HasTable m (dirIndex v) := by
  by_contra hno
  rw [slot_of_not_hasTable hno, entryView_zero] at h
  cases h

/-- The two queries agree on a page exactly when its slots are seen the same way. -/
theorem same_translation_iff (L : Layout) (m m' : Machine) (v : Nat) :
    ((pageIsPresent L v m').1 = (pageIsPresent L v m).1 ∧
      (pageGetPhys L v m').1 = (pageGetPhys L v m).1) ↔
      entryView (slot L m' v) = entryView (slot L m v) := by
  rw [pageIsPresent_eq, pageIsPresent_eq, pageGetPhys_eq, pageGetPhys_eq]
  unfold entryView
  by_cases h : slot L m v &&& PAGE_PRESENT = 0 <;>
    by_cases h' : slot L m' v &&& PAGE_PRESENT = 0 <;> simp [h, h']

/-- After the call `va` translates to `pa`, and every other page outside the window
`page_swap` is translated as before. -/
def OneTranslation (L : Layout) (m m' : Machine) (pa va : Nat) : Prop :=
  (pageGetPhys L va m').1 = pa ∧
    ∀ v < 2 ^ 32, v / 4096 ≠ va / 4096 → v / 4096 ≠ L.pageSwap / 4096 →
      (pageIsPresent L v m').1 = (pageIsPresent L v m).1 ∧
        (pageGetPhys L v m').1 = (pageGetPhys L v m).1

/-- The frame in which `page_map` stores the entry of `va`: the table that is there, or the
frame `get_phys_block` is about to hand out. -/
def mapFrame (m : Machine) (va : Nat) : Nat :=
  if HasTable m (dirIndex va) then tableFrame m (dirIndex va)
  else (getPhysBlock 1 m.mmBitmap).1 / 4096

/-- `va` is reached through the very word that `page_swap` rewrites. -/
def IsWindowSlot (L : Layout) (m : Machine) (va : Nat) : Prop :=
  mapFrame m va = L.kernelFrame ∧ tableIndex va = windowIndex L.pageSwap

instance (L : Layout) (m : Machine) (va : Nat) : Decidable (IsWindowSlot L m va) :=
  inferInstanceAs (Decidable (_ ∧ _))

/-- What the state before a `page_map` must satisfy for the call to change one translation. -/
structure SafeToMap (L : Layout) (m : Machine) (pa va : Nat) : Prop where
  /-- A frame taken for a new table holds no present entry in the slots of other pages. -/
  fresh : m.pageDirectory (dirIndex va) &&& PAGE_PRESENT = 0 → ∀ v < 2 ^ 32,
    dirIndex v = dirIndex va → v / 4096 ≠ va / 4096 → v / 4096 ≠ L.pageSwap / 4096 →
      m.ram (mapFrame m va) (tableIndex v) &&& PAGE_PRESENT = 0
  /-- No other directory entry reaches the word that is stored, unless it reads the same. -/
  unshared : ∀ v < 2 ^ 32, dirIndex v ≠ dirIndex va → v / 4096 ≠ L.pageSwap / 4096 →
    HasTable m (dirIndex v) → tableFrame m (dirIndex v) = mapFrame m va →
      tableIndex v = tableIndex va → ¬ IsWindowSlot L m va →
        entryView (m.ram (mapFrame m va) (tableIndex va)) = some pa
  /-- `va` is not the window itself. -/
  window : IsWindowSlot L m va → pa = L.kernelFrame * 4096

theorem page_eq_iff (v w : Nat) :
    v / 4096 = w / 4096 ↔ dirIndex v = dirIndex w ∧ tableIndex v = tableIndex w := by
  rw [dirIndex_eq, dirIndex_eq, tableIndex_eq, tableIndex_eq]; omega

theorem OpenTable.mapFrame_eq {m m₁ : Machine} {va t : Nat} (h : OpenTable m (dirIndex va) t m₁) :
    mapFrame m va = t := by
  unfold mapFrame
  cases h with
  | present h => rw [if_pos h]
  | fresh habs _ hget =>
    rw [if_neg fun h => h.1 habs, hget]
    simp

/-- The slots of the state a successful `page_map` ends in. -/
theorem slot_pageMap {L : Layout} {m m₁ : Machine} {va t : Nat}
    (h : OpenTable m (dirIndex va) t m₁) (w v : Nat) :
    slot L ((m₁.swapTo L t).write t (tableIndex va) w) v =
      if HasTable m₁ (dirIndex v) ∧ tableFrame m₁ (dirIndex v) = t ∧
          tableIndex v = tableIndex va ∧ ¬ IsWindowSlot L m va then w
      else slot L m₁ v := by
  rw [slot_write, slot_swapTo]
  simp only [IsWindowSlot, h.mapFrame_eq]
  rfl

theorem pageGetPhys_of_entryView {L : Layout} {m : Machine} {v pa : Nat}
    (h : entryView (slot L m v) = some pa) : (pageGetPhys L v m).1 = pa := by
  rw [pageGetPhys_eq]
  unfold entryView at h
  split at h
  · rename_i hp
    rw [if_pos hp]; exact Option.some.inj h
  · cases h

/-- The word stored by a successful `page_map` translates to the physical address. -/
theorem entryView_or {pa flag : Nat} (hpa : pa < 2 ^ 32) (ha : pa % 4096 = 0)
    (hflag : flag &&& PAGE_PRESENT ≠ 0) (hf : flag &&& PAGE_ADDR = 0) :
    entryView (pa ||| flag) = some pa := by
  rw [entryView, and_PAGE_PRESENT_or ha, if_pos hflag, PAGE_GET_ADDR_or hf, PAGE_GET_ADDR_eq]
  congr 1
  omega

theorem entryView_eq_none_iff {w : Nat} : entryView w = none ↔ w &&& PAGE_PRESENT = 0 := by
  unfold entryView
  by_cases h : w &&& PAGE_PRESENT = 0 <;> simp [h]

/-- When a page other than `va` keeps its translation. -/
theorem translation_kept_iff {L : Layout} {m m₁ : Machine} {pa va t w v : Nat}
    (hopen : OpenTable m (dirIndex va) t m₁) (hw : entryView w = some pa)
    (hne : v / 4096 ≠ va / 4096) :
    entryView (slot L ((m₁.swapTo L t).write t (tableIndex va) w) v) = entryView (slot L m v) ↔
      (m.pageDirectory (dirIndex va) &&& PAGE_PRESENT = 0 → dirIndex v = dirIndex va →
        m.ram t (tableIndex v) &&& PAGE_PRESENT = 0) ∧
      (dirIndex v ≠ dirIndex va → HasTable m (dirIndex v) → tableFrame m (dirIndex v) = t →
        tableIndex v = tableIndex va → ¬ IsWindowSlot L m va →
          entryView (m.ram t (tableIndex va)) = some pa) := by
  rw [slot_pageMap hopen]
  by_cases hd : dirIndex v = dirIndex va
  · -- the same table: another slot of it
    have hti : tableIndex v ≠ tableIndex va := fun h => hne ((page_eq_iff v va).mpr ⟨hd, h⟩)
    rw [if_neg fun h => hti h.2.2.1]
    have ht := hopen.hasTable
    rcases hopen.eq_or_fresh with ⟨hp, rfl⟩ | ⟨habs, hlo, -⟩
    · simp [hd, hp.1]
    · have hnt : ¬ HasTable m (dirIndex v) := fun h => h.1 (by rw [hd]; exact habs)
      have hk := L.kernelFrame_lt
      rw [← hd] at ht
      rw [slot_of_not_hasTable hnt, entryView_zero, entryView_eq_none_iff, slot_eq_ram ht.1, ht.2,
        if_neg (by omega), hopen.ram_eq]
      simp [hd, habs]
  · have hdir := hopen.dir_of_ne hd
    have hslot : slot L m₁ v = slot L m v := slot_congr hdir hopen.ram_eq
    have htab : HasTable m₁ (dirIndex v) ↔ HasTable m (dirIndex v) := by unfold HasTable; rw [hdir]
    have hfr : tableFrame m₁ (dirIndex v) = tableFrame m (dirIndex v) := by
      unfold tableFrame; rw [hdir]
    simp only [hslot, htab, hfr]
    split
    · rename_i hc
      obtain ⟨h1, h2, h3, h4⟩ := hc
      have hnk : ¬ (tableFrame m (dirIndex v) = L.kernelFrame ∧
          tableIndex v = windowIndex L.pageSwap) := by
        rw [h2, h3, ← hopen.mapFrame_eq]; exact h4
      rw [hw, slot_eq_ram h1, if_neg hnk, h2, h3]
      simp [hd, h1, h4, eq_comm]
    · rename_i hc
      refine iff_of_true rfl ⟨fun _ h => absurd h hd, fun _ h1 h2 h3 h4 => ?_⟩
      exact absurd ⟨h1, h2, h3, h4⟩ hc

/-- **`page_map` changes one translation exactly when** the table it needs is there already or
the fresh frame is clean in the other slots, and no other directory entry shares the table. -/
theorem pageMap_changes_one_translation_iff (L : Layout) (m m' : Machine) (pa va flag : Nat)
    (hpa : pa < 2 ^ 32) (hflag : flag &&& PAGE_PRESENT ≠ 0)
    (h : pageMap L pa va flag m = (0, m')) :
    OneTranslation L m m' pa va ↔ SafeToMap L m pa va := by
  obtain ⟨hpa0, -, hfa, t, m₁, hopen, rfl⟩ := pageMap_ok hflag h
  have hmf := hopen.mapFrame_eq
  have hw : entryView (pa ||| flag) = some pa := entryView_or hpa hpa0 hflag hfa
  have hkept : ∀ v, v / 4096 ≠ va / 4096 → _ := fun v => translation_kept_iff (L := L) hopen hw
  have hva : (pageGetPhys L va ((m₁.swapTo L t).write t (tableIndex va) (pa ||| flag))).1 = pa ↔
      (IsWindowSlot L m va → pa = L.kernelFrame * 4096) := by
    by_cases hwin : IsWindowSlot L m va
    · -- the window shows its own table, whatever is stored in its slot
      have hs : slot L ((m₁.swapTo L t).write t (tableIndex va) (pa ||| flag)) va =
          L.kernelFrame * 4096 ||| (PAGE_WRITE ||| PAGE_PRESENT) := by
        rw [slot_pageMap hopen, if_neg fun h => h.2.2.2 hwin, slot_eq_ram hopen.hasTable.1, if_pos]
        rw [hopen.hasTable.2, ← hmf]; exact hwin
      have hk := L.kernelFrame_lt
      have hv : entryView (L.kernelFrame * 4096 ||| (PAGE_WRITE ||| PAGE_PRESENT)) =
          some (L.kernelFrame * 4096) :=
        entryView_or (by omega) (by omega) (by decide) (by decide)
      rw [pageGetPhys_of_entryView (hs ▸ hv)]
      simp [hwin, eq_comm]
    · have hs : slot L ((m₁.swapTo L t).write t (tableIndex va) (pa ||| flag)) va = pa ||| flag := by
        rw [slot_pageMap hopen, if_pos ⟨hopen.hasTable.1, hopen.hasTable.2, rfl, hwin⟩]
      simp [pageGetPhys_of_entryView (hs ▸ hw), hwin]
  unfold OneTranslation
  rw [hva]
  simp only [same_translation_iff]
  constructor
  · rintro ⟨h1, h2⟩
    refine ⟨fun habs v hv hd hne hns => ?_, fun v hv hd hns h3 h4 h5 h6 => ?_, h1⟩
    · rw [hmf]
      exact ((hkept v hne).mp (h2 v hv hne hns)).1 habs hd
    · have hne : v / 4096 ≠ va / 4096 := fun h => hd ((page_eq_iff v va).mp h).1
      rw [hmf] at h4 ⊢
      exact ((hkept v hne).mp (h2 v hv hne hns)).2 hd h3 h4 h5 h6
  · rintro ⟨h1, h2, h3⟩
    rw [hmf] at h1 h2
    refine ⟨h3, fun v hv hne hns => (hkept v hne).mpr ⟨fun habs hd => ?_, fun hd k1 k2 k3 k4 => ?_⟩⟩
    · exact h1 habs v hv hd hne hns
    · exact h2 v hv hd hns k1 k2 k3 k4

/-- A machine with no page table but the kernel's, every frame free, and the bytes of old
pages in physical memory. -/
def Machine.dirty : Machine where
  mmBitmap := fun _ => 0xFF
  pageDirectory := fun d => if d = 768 then 0x110001 else 0
  ram := fun _ _ => 0x12345003

/-- The new page table keeps the words of the recycled frame: mapping one page at 4 GiB / 4
makes the next page present too. -/
theorem pageMap_recycled_table :
    (pageMap .sample 0x7000 0x40000000 3 .dirty).1 = 0 ∧
      ¬ OneTranslation .sample .dirty (pageMap .sample 0x7000 0x40000000 3 .dirty).2
        0x7000 0x40000000 := by
  refine ⟨by decide +kernel, fun h => ?_⟩
  have h2 := (h.2 0x40001000 (by decide) (by decide) (by decide)).1
  revert h2
  decide +kernel

/-- The same machine with its physical memory zeroed. -/
def Machine.clean : Machine := { Machine.dirty with ram := fun _ _ => 0 }

theorem clean_hasTable {d : Nat} (h : HasTable .clean d) : d = 768 := by
  by_contra hd
  exact h.1 (by simp [Machine.clean, Machine.dirty, hd])

/-- On zeroed memory the same call changes one translation. -/
theorem pageMap_zeroed_table :
    OneTranslation .sample .clean (pageMap .sample 0x7000 0x40000000 3 .clean).2
      0x7000 0x40000000 := by
  refine (pageMap_changes_one_translation_iff .sample .clean _ 0x7000 0x40000000 3 (by decide)
    (by decide) (Prod.ext (by decide +kernel) rfl)).mpr ⟨fun _ v _ _ _ _ => ?_, ?_, ?_⟩
  · exact Nat.zero_and _
  · intro v _ _ _ ht hf
    rw [clean_hasTable ht] at hf
    exact absurd hf (by decide +kernel)
  · decide +kernel

end Moonlight
