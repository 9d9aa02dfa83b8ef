import MoonlightKernel.Lib.Room
import MoonlightKernel.Process.MemorySwitch

/-!
# The address that `mmap` chooses

`mmap` looks for room among the maps of the process page by page, upwards from a fixed address or
downwards from a hint, once around.

* `searchUp`, `searchDown`, `mmapChoose` — the part of the source function that does this;
* `Chosen` — where the pages are to go;
* `searchDown_settles`, `mmapChoose_cases` — both searches end, and this is where they end;
* `FreePages.disjoint` — free pages are in none of the maps.
-/

set_option autoImplicit false

namespace Moonlight

open Sys

def MAP_FIXED : Nat := 2

/-! ## The source functions -/

/-- `mmap_is_free`. -/
def mmapIsFree (pr : Process) (addr : Nat) : Bool := (mmapGetBlock pr addr).isNone

/-- The loop for `MAP_FIXED`: the error code it leaves.  The first number bounds the rounds; the
result is `none` when it is used up. -/
def searchUp (pr : Process) (maxAddr size : Nat) : Nat → Nat → Nat → Option Int
  | 0, _, _ => none
  | fuel + 1, addr2, find =>
    if !mmapIsFree pr addr2 then some (-EINVAL) else
    if find + 1 = size then some 0 else
    if add32 addr2 4096 > maxAddr then some (-EINVAL) else
    searchUp pr maxAddr size fuel (add32 addr2 4096) (find + 1)

/-- The loop without `MAP_FIXED`: the address it finds, or an error code. -/
def searchDown (pr : Process) (maxAddr already size : Nat) : Nat → Nat → Nat → Option Int
  | 0, _, _ => none
  | fuel + 1, addr, find =>
    if mmapIsFree pr addr && find + 1 == size then some addr else
    let find := if mmapIsFree pr addr then find + 1 else 0
    let next := sub32 addr 4096
    let find := if next = 0 then 0 else find
    let next := if next = 0 then maxAddr else next
    if already = next then some (-ENOMEM) else
    searchDown pr maxAddr already size fuel next find

/-- The part of `mmap` that chooses the address of `size` pages. -/
def mmapChoose (pr : Process) (addr size flags : Nat) : Option Int :=
  if flags &&& MAP_FIXED ≠ 0 then
    if addr = 0 ∨ addr > maxAddr flags ∨
        add32 addr (size <<< 12) > add32 (maxAddr flags) 4096 ∨ addr ≥ add32 addr (size <<< 12) then
      some (-EINVAL)
    else (searchUp pr (maxAddr flags) size size addr 0).map fun err =>
      if err = 0 then (addr : Int) else err
  else
    let addr := if addr = 0 ∨ addr ≥ maxAddr flags then maxAddr flags else addr
    searchDown pr (maxAddr flags) addr size (maxAddr flags / 4096) addr 0

/-! ## Free pages -/

/-- No map of the process contains the page. -/
def FreePage (pr : Process) (v : Nat) : Prop := mmapIsFree pr v = true

/-- The `n` pages from `v` on are free. -/
def FreePages (pr : Process) (v n : Nat) : Prop := ∀ i < n, FreePage pr (v + i * 4096)

theorem freePages_succ {pr : Process} {v n : Nat} :
    FreePages pr v (n + 1) ↔ FreePage pr v ∧ FreePages pr (v + 4096) n := by
  constructor
  · refine fun h => ⟨by simpa using h 0 (Nat.succ_pos n), fun i hi => ?_⟩
    have hnext : v + 4096 + i * 4096 = v + (i + 1) * 4096 := by omega
    rw [hnext]
    exact h (i + 1) (by omega)
  · rintro ⟨h, h'⟩ i hi
    cases i with
    | zero => simpa using h
    | succ i =>
      have hnext : v + (i + 1) * 4096 = v + 4096 + i * 4096 := by omega
      rw [hnext]
      exact h' i (by omega)

/-- Page number `p` is free. -/
def PageFree (pr : Process) (p : Nat) : Prop := FreePage pr (p * 4096)

theorem freePages_iff {pr : Process} {a n : Nat} :
    FreePages pr (a * 4096) n ↔ ∀ i < n, PageFree pr (a + i) := by
  unfold FreePages PageFree
  simp only [Nat.add_mul]

/-! ## The searches -/

/-- The upward search visits the pages of the range one by one. -/
theorem searchUp_spec {pr : Process} {maxAddr size : Nat} (hmax : maxAddr + 4096 < 2 ^ 32)
    (fuel : Nat) : ∀ {addr find : Nat}, find < size → size ≤ find + fuel →
      addr + (size - find) * 4096 ≤ maxAddr + 4096 →
      (searchUp pr maxAddr size fuel addr find = some (-EINVAL) ∧
          ¬ FreePages pr addr (size - find)) ∨
        (searchUp pr maxAddr size fuel addr find = some 0 ∧ FreePages pr addr (size - find)) := by
  induction fuel with
  | zero => intro addr find h1 h2; omega
  | succ fuel ih =>
    intro addr find hfind hfuel haddr
    have hone : size - find = (size - (find + 1)) + 1 := by omega
    rw [searchUp, hone, freePages_succ]
    by_cases hfree : mmapIsFree pr addr = true
    · rw [if_neg (by simp [hfree])]
      by_cases hlast : find + 1 = size
      · rw [if_pos hlast, hlast, Nat.sub_self]
        exact .inr ⟨rfl, hfree, fun i hi => absurd hi (Nat.not_lt_zero i)⟩
      · have hnext : add32 addr 4096 = addr + 4096 := add32_of_lt (by omega)
        rw [if_neg hlast, hnext, if_neg (by omega)]
        have hrest := @ih (addr + 4096) (find + 1) (by omega) (by omega) (by omega)
        rcases hrest with ⟨h, hno⟩ | ⟨h, hyes⟩
        · exact .inl ⟨h, fun hall => hno hall.2⟩
        · exact .inr ⟨h, hfree, hyes⟩
    · rw [if_pos (by simpa using hfree)]
      exact .inl ⟨rfl, fun hall => hfree hall.1⟩

/-- How many pages lie between page `c` and the end of the way around at page `s`. -/
def roundLeft (m s c : Nat) : Nat := if c ≤ s then c + (m - s) else c - s

/-- What the downward search that started at page `s` knows when page `c` is next: it is on its way
down from `s`, or it has gone on at the top. -/
def OnTheWay (pr : Process) (n s m c find : Nat) : Prop :=
  c ≤ s ∧ Scan (PageFree pr) n (s + 1) c find ∨
    s < c ∧ c ≤ m ∧ Rooms (PageFree pr) n 1 (s + 1) = ∅ ∧ Scan (PageFree pr) n (m + 1) c find

theorem OnTheWay.settles {pr : Process} {n s m c find : Nat} (h : OnTheWay pr n s m c find)
    (hc : 0 < c) (hfree : PageFree pr c) (hn : find + 1 = n) : Settles (PageFree pr) n s m c := by
  rcases h with ⟨-, h⟩ | ⟨hs, -, hnone, h⟩
  · exact .inl (h.found hfree hn hc)
  · exact .inr ⟨hnone, h.found hfree hn hs⟩

/-- One page down. -/
theorem OnTheWay.next {pr : Process} {n s m c find find' : Nat}
    (h : OnTheWay pr n s m (c + 1) find) (hback : c ≠ s)
    (hscan : ∀ top, Scan (PageFree pr) n top (c + 1) find → Scan (PageFree pr) n top c find') :
    OnTheWay pr n s m c find' := by
  rcases h with ⟨hle, h⟩ | ⟨hs, hm, hnone, h⟩
  · exact .inl ⟨by omega, hscan _ h⟩
  · exact .inr ⟨by omega, by omega, hnone, hscan _ h⟩

/-- **The downward search** ends, since it comes around to its start, and settles on a room if there
is one on either side of the start. -/
theorem searchDown_settles {pr : Process} {n s m : Nat} (hs : 0 < s) (hsm : s ≤ m)
    (hm : m < 2 ^ 20) (fuel : Nat) : ∀ {c find : Nat}, 0 < c → OnTheWay pr n s m c find →
      roundLeft m s c ≤ fuel →
      (∃ a, searchDown pr (m * 4096) (s * 4096) n fuel (c * 4096) find = some ((a * 4096 : Nat) : Int) ∧
          Settles (PageFree pr) n s m a) ∨
        (searchDown pr (m * 4096) (s * 4096) n fuel (c * 4096) find = some (-ENOMEM) ∧
          ∀ a, ¬ Settles (PageFree pr) n s m a) := by
  induction fuel with
  | zero =>
    intro c find hc hway hfuel
    unfold roundLeft at hfuel
    split at hfuel
    · omega
    · omega
  | succ fuel ih =>
    intro c find hc hway hfuel
    obtain ⟨c, rfl⟩ := Nat.exists_eq_add_of_le' hc
    have hcm : c + 1 ≤ m := by
      rcases hway with ⟨hle, -⟩ | ⟨-, hle, -⟩
      · omega
      · exact hle
    rw [searchDown]
    by_cases hdone : (mmapIsFree pr ((c + 1) * 4096) && find + 1 == n) = true
    · rw [if_pos hdone]
      rw [Bool.and_eq_true, beq_iff_eq] at hdone
      exact .inl ⟨c + 1, rfl, hway.settles hc hdone.1 hdone.2⟩
    · rw [if_neg hdone]
      rw [Bool.and_eq_true, beq_iff_eq, not_and] at hdone
      dsimp only
      have hsub : sub32 ((c + 1) * 4096) 4096 = c * 4096 := by
        rw [sub32_of_le (by omega) (by omega)]
        omega
      have hscan : ∀ top, Scan (PageFree pr) n top (c + 1) find → Scan (PageFree pr) n top c
          (if mmapIsFree pr ((c + 1) * 4096) = true then find + 1 else 0) := by
        intro top h
        split
        · rename_i hfree
          exact h.down hfree (hdone hfree)
        · rename_i htaken
          exact h.reset htaken
      rw [hsub]
      generalize (if mmapIsFree pr ((c + 1) * 4096) = true then find + 1 else 0) = find' at hscan
      by_cases hwrap : c * 4096 = 0
      · -- below the first page the search goes on at the top, with an empty run
        obtain rfl : c = 0 := by omega
        rw [if_pos hwrap, if_pos hwrap]
        obtain ⟨-, hdown⟩ : 0 + 1 ≤ s ∧ Scan (PageFree pr) n (s + 1) (0 + 1) find := by
          rcases hway with h | ⟨hlt, -⟩
          · exact h
          · omega
        have hnone : Rooms (PageFree pr) n 1 (s + 1) = ∅ := (hscan _ hdown).none
        by_cases hback : s * 4096 = m * 4096
        · rw [if_pos hback]
          obtain rfl : s = m := Nat.eq_of_mul_eq_mul_right (by decide) hback
          exact .inr ⟨rfl, fun a => not_settles_of_empty hnone (rooms_self _ n (s + 1))⟩
        · rw [if_neg hback]
          refine ih (by omega) (.inr ⟨by omega, Nat.le_refl m, hnone, .start _ n m⟩) ?_
          unfold roundLeft at hfuel ⊢
          rw [if_pos (by omega)] at hfuel
          rw [if_neg (by omega)]
          omega
      · rw [if_neg hwrap, if_neg hwrap]
        by_cases hback : s * 4096 = c * 4096
        · rw [if_pos hback]
          obtain rfl : s = c := by omega
          refine .inr ⟨rfl, fun a => ?_⟩
          rcases hway with ⟨hle, -⟩ | ⟨-, -, hnone, h⟩
          · omega
          · exact not_settles_of_empty hnone (hscan _ h).none
        · rw [if_neg hback]
          refine ih (by omega) (hway.next (by omega) hscan) ?_
          unfold roundLeft at hfuel ⊢
          split at hfuel
          · rw [if_pos (by omega)]
            omega
          · rw [if_neg (by omega)]
            omega

/-! ## The choice -/

/-- The page at which the search without `MAP_FIXED` starts. -/
def startPage (addr flags : Nat) : Nat :=
  (if addr = 0 ∨ addr ≥ maxAddr flags then maxAddr flags else addr) / 4096

/-- The page at which `mmap` puts `n` pages: the one it is told, if there is room in user space, or
the highest room below the hint, or else the highest one above it. -/
def Chosen (pr : Process) (addr n flags a : Nat) : Prop :=
  if flags &&& MAP_FIXED ≠ 0 then
    flags &&& MAP_KERNEL_SPACE = 0 ∧ a = addr / 4096 ∧ a ∈ Rooms (PageFree pr) n 1 0xC0000
  else Settles (PageFree pr) n (startPage addr flags) (maxAddr flags / 4096) a

theorem chosen_search {pr : Process} {addr n flags a : Nat} (hfix : flags &&& MAP_FIXED = 0) :
    Chosen pr addr n flags a ↔
      Settles (PageFree pr) n (startPage addr flags) (maxAddr flags / 4096) a := by
  unfold Chosen
  rw [if_neg (not_not.mpr hfix)]

theorem maxAddr_page (flags : Nat) : maxAddr flags / 4096 * 4096 = maxAddr flags ∧
    0xBFFFF ≤ maxAddr flags / 4096 ∧ maxAddr flags / 4096 < 2 ^ 20 := by
  unfold maxAddr KERNEL_POS
  split
  · decide
  · decide

theorem startPage_spec {addr : Nat} (flags : Nat) (hmod : addr % 4096 = 0) :
    (if addr = 0 ∨ addr ≥ maxAddr flags then maxAddr flags else addr) =
        startPage addr flags * 4096 ∧
      0 < startPage addr flags ∧ startPage addr flags ≤ maxAddr flags / 4096 := by
  obtain ⟨hmax, hlo, -⟩ := maxAddr_page flags
  unfold startPage
  split
  · omega
  · omega

/-- A fixed address is taken when its pages are in user space and free. -/
theorem mmapChoose_fixed {pr : Process} {addr n flags : Nat} (ha : addr < 2 ^ 32)
    (hmod : addr % 4096 = 0) (hn : n < 2 ^ 20) (hfix : flags &&& MAP_FIXED ≠ 0) :
    (Chosen pr addr n flags (addr / 4096) ∧ mmapChoose pr addr n flags = some (addr : Int)) ∨
      ((∀ a, ¬ Chosen pr addr n flags a) ∧ mmapChoose pr addr n flags = some (-EINVAL)) := by
  unfold Chosen mmapChoose
  simp only [hfix, ne_eq, not_false_eq_true, ↓reduceIte, shiftLeft_page]
  by_cases hspace : flags &&& MAP_KERNEL_SPACE = 0
  · have hmax : maxAddr flags = 0xBFFFF000 := if_pos hspace
    have htop : add32 0xBFFFF000 4096 = 0xC0000000 := by decide +kernel
    rw [hmax, htop]
    by_cases hok : addr = 0 ∨ addr > 0xBFFFF000 ∨ add32 addr (n * 4096) > 0xC0000000 ∨
        addr ≥ add32 addr (n * 4096)
    · rw [if_pos hok]
      refine .inr ⟨fun a h => ?_, rfl⟩
      obtain ⟨-, rfl, hpos, hlo, hhi, -⟩ := h
      have hsum : add32 addr (n * 4096) = addr + n * 4096 := add32_of_lt (by omega)
      omega
    · rw [if_neg hok]
      have hsum : add32 addr (n * 4096) = addr + n * 4096 := by
        unfold add32 at hok ⊢
        omega
      have haddr : addr / 4096 * 4096 = addr := by omega
      have hfree : FreePages pr addr n ↔ ∀ i < n, PageFree pr (addr / 4096 + i) := by
        rw [← freePages_iff, haddr]
      have hsearch := @searchUp_spec pr 0xBFFFF000 n (by decide) n addr 0 (by omega) (by omega)
        (by omega)
      rcases hsearch with ⟨h, hno⟩ | ⟨h, hyes⟩
      · rw [h]
        refine .inr ⟨fun a hch => ?_, rfl⟩
        obtain ⟨-, rfl, -, -, -, hpages⟩ := hch
        exact hno (hfree.mpr hpages)
      · rw [h]
        exact .inl ⟨⟨hspace, trivial, by omega, by omega, by omega, hfree.mp hyes⟩, rfl⟩
  · -- `max_addr + 4096` is 0 in 32 bits, and no range ends at or below it
    have hmax : maxAddr flags = 0xFFFFF000 := if_neg hspace
    have htop : add32 0xFFFFF000 4096 = 0 := by decide +kernel
    rw [hmax, htop, if_pos (by omega)]
    exact .inr ⟨fun a h => hspace h.1, rfl⟩

/-- **What `mmap` chooses**, for every hint and every size; the searches end. -/
theorem mmapChoose_cases (pr : Process) {addr n : Nat} (flags : Nat) (ha : addr < 2 ^ 32)
    (hmod : addr % 4096 = 0) (hn : n < 2 ^ 20) :
    (∃ a, Chosen pr addr n flags a ∧
        mmapChoose pr addr n flags = some ((a * 4096 : Nat) : Int)) ∨
      ((∀ a, ¬ Chosen pr addr n flags a) ∧ mmapChoose pr addr n flags =
        some (if flags &&& MAP_FIXED ≠ 0 then -EINVAL else -ENOMEM)) := by
  by_cases hfix : flags &&& MAP_FIXED = 0
  · obtain ⟨hmax, hlo, hhi⟩ := maxAddr_page flags
    obtain ⟨hstart, hpos, hle⟩ := startPage_spec flags hmod
    have hsearch := @searchDown_settles pr n _ _ hpos hle hhi (maxAddr flags / 4096) _ 0 hpos
      (.inl ⟨Nat.le_refl _, .start _ n _⟩) (by
        unfold roundLeft
        rw [if_pos (Nat.le_refl _)]
        omega)
    rw [hmax] at hsearch
    unfold Chosen mmapChoose
    simp only [hfix, ne_eq, not_true_eq_false, ↓reduceIte]
    rw [hstart]
    rcases hsearch with ⟨a, h, hset⟩ | ⟨h, hno⟩
    · exact .inl ⟨a, hset, h⟩
    · exact .inr ⟨hno, h⟩
  · rw [if_pos hfix]
    refine (mmapChoose_fixed ha hmod hn hfix).imp (fun h => ⟨addr / 4096, h.1, ?_⟩) fun h => h
    have haddr : addr / 4096 * 4096 = addr := by omega
    rw [haddr]
    exact h.2

/-- The pages chosen are free. -/
theorem Chosen.mem {pr : Process} {addr n flags a : Nat} (hmod : addr % 4096 = 0)
    (h : Chosen pr addr n flags a) : a ∈ Rooms (PageFree pr) n 1 (maxAddr flags / 4096 + 1) := by
  unfold Chosen at h
  split at h
  · obtain ⟨-, -, hn, hlo, hhi, hfree⟩ := h
    obtain ⟨-, hmax, -⟩ := maxAddr_page flags
    exact ⟨hn, hlo, by omega, hfree⟩
  · exact h.mem (startPage_spec flags hmod).2.2

theorem Chosen.unique {pr : Process} {addr n flags a b : Nat} (h : Chosen pr addr n flags a)
    (h' : Chosen pr addr n flags b) : a = b := by
  unfold Chosen at h h'
  split at h
  · rename_i hfix
    rw [if_pos hfix] at h'
    exact h.2.1.trans h'.2.1.symm
  · rename_i hfix
    rw [if_neg hfix] at h'
    exact h.unique h'

/-- What a search comes to: an error, or a run of free pages at or below `maxAddr`. -/
def Found (pr : Process) (maxAddr size : Nat) (r : Int) : Prop :=
  r < 0 ∨ ∃ a : Nat, r = a ∧ 0 < size ∧ a % 4096 = 0 ∧ 4096 ≤ a ∧
    a + size * 4096 ≤ maxAddr + 4096 ∧ FreePages pr a size

/-- **What `mmap` chooses** lies in user space and is free; the searches end. -/
theorem mmapChoose_spec (pr : Process) {addr n flags : Nat} (ha : addr < 2 ^ 32)
    (hmod : addr % 4096 = 0) (hn : n < 2 ^ 20) (hflags : flags &&& MAP_KERNEL_SPACE = 0) :
    ∃ r, mmapChoose pr addr n flags = some r ∧ Found pr (KERNEL_POS - 4096) n r := by
  have hmax : maxAddr flags = KERNEL_POS - 4096 := if_pos hflags
  rcases mmapChoose_cases pr flags ha hmod hn with ⟨a, hch, h⟩ | ⟨-, h⟩
  · obtain ⟨hpos, hlo, hhi, hfree⟩ := hch.mem hmod
    obtain ⟨hpage, -, -⟩ := maxAddr_page flags
    refine ⟨_, h, .inr ⟨_, rfl, hpos, Nat.mul_mod_left a 4096, by omega, ?_,
      freePages_iff.mpr hfree⟩⟩
    rw [← hmax, ← hpage]
    omega
  · refine ⟨_, h, .inl ?_⟩
    split
    · decide
    · decide

/-! ## Free pages and maps -/

/-- A map that starts on a page and ends below the top of the address space. -/
def MapMemory.Placed (pm : MapMemory) : Prop :=
  0 < pm.size → pm.vAddr % 4096 = 0 ∧ pm.vAddr + pm.size * 4096 < 2 ^ 32

theorem contains_of_covers {pm : MapMemory} (hpm : pm.Placed) {v : Nat} (h : pm.Covers v) :
    pm.contains v = true := by
  unfold MapMemory.Covers at h
  obtain ⟨-, hend⟩ := hpm (by omega)
  unfold MapMemory.contains
  rw [shiftLeft_page, add32_of_lt hend]
  exact decide_eq_true h

theorem not_contains_of_freePage {pr : Process} {v : Nat} (h : FreePage pr v) {pm : MapMemory}
    (hpm : pm ∈ pr.maps) : pm.contains v = false := by
  have hnone : mmapGetBlock pr v = none := Option.isNone_iff_eq_none.mp h
  unfold mmapGetBlock mmapGetBlockL at hnone
  split at hnone
  · cases hnone
  rename_i hstack
  split at hnone
  · cases hnone
  rename_i hheap
  split at hnone
  · cases hnone
  rename_i hcode
  rw [List.findIdx?_eq_none_iff] at hstack hheap
  simp only [Process.maps, List.mem_append, List.mem_singleton] at hpm
  rcases hpm with (hpm | hpm) | rfl
  · exact hheap pm hpm
  · exact hstack pm hpm
  · simpa using hcode

theorem covers_of_contains {pm : MapMemory} {v : Nat} (h : pm.contains v = true) : pm.Covers v := by
  unfold MapMemory.contains at h
  rw [decide_eq_true_eq, shiftLeft_page] at h
  have hle : add32 pm.vAddr (pm.size * 4096) ≤ pm.vAddr + pm.size * 4096 := by
    unfold add32
    exact Nat.mod_le _ _
  exact ⟨h.1, by omega⟩

/-- `mmap_get_block` answers with a map that contains the address. -/
theorem mmapGetBlock_map {pr : Process} {v : Nat} {ref : MapRef} (h : mmapGetBlock pr v = some ref) :
    pr.map ref ∈ pr.maps ∧ (pr.map ref).contains v = true := by
  unfold mmapGetBlock mmapGetBlockL at h
  simp only [Process.maps, List.mem_append, List.mem_singleton]
  split at h
  · rename_i i hi
    cases h
    obtain ⟨hlt, hcont, -⟩ := List.findIdx?_eq_some_iff_getElem.mp hi
    have hmap : pr.map (.stack i) = pr.mmStack[i] := by simp [Process.map, hlt]
    rw [hmap]
    exact ⟨.inl (.inr (List.getElem_mem hlt)), hcont⟩
  split at h
  · rename_i i hi
    cases h
    obtain ⟨hlt, hcont, -⟩ := List.findIdx?_eq_some_iff_getElem.mp hi
    have hmap : pr.map (.heap i) = pr.mmHeap[i] := by simp [Process.map, hlt]
    rw [hmap]
    exact ⟨.inl (.inl (List.getElem_mem hlt)), hcont⟩
  split at h
  · rename_i hcont
    cases h
    exact ⟨.inr rfl, hcont⟩
  · cases h

/-- **Free pages are disjoint from the maps.** -/
theorem FreePages.disjoint {pr : Process} {new : MapMemory} (hal : new.vAddr % 4096 = 0)
    (h : FreePages pr new.vAddr new.size) {q : MapMemory} (hq : q ∈ pr.maps) (hplaced : q.Placed) :
    new.Disjoint q := by
  intro w hw hqw
  unfold MapMemory.Covers at hw hqw
  -- the page of `w` is one of the new map, and `q` contains its first address
  have hpage : new.vAddr + (w / 4096 - new.vAddr / 4096) * 4096 = w / 4096 * 4096 := by omega
  have hfree := not_contains_of_freePage (h (w / 4096 - new.vAddr / 4096) (by omega)) hq
  have hqal := (hplaced (by omega)).1
  rw [hpage, contains_of_covers hplaced (by unfold MapMemory.Covers; omega)] at hfree
  cases hfree

end Moonlight
