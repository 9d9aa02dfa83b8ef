import MoonlightKernel.MapRange
import MoonlightKernel.Process.Maps

/-!
# `process_memory_switch`

The pages of a process are mapped when it gets the processor and unmapped when it loses it.
`page_unmap` refuses a page whose table is missing, and gives a table back with its last present
entry, so the way out needs every table of the way in to last until its last own page is due.

* `processMemorySwitch` — the source function;
* `switchMaps_mapped` — after a successful way in every page of every map is translated;
* `switchMaps_unmapped` — the way out succeeds as long as every page that is left is present;
* `switch_out_succeeds` — the two together.
-/

set_option autoImplicit false

namespace Moonlight

open Sys

/-! ## The source function -/

/-- The flags handed to `page_map_range`. -/
def switchFlags (add flags : Nat) : Nat := if add = 0 then flags &&& 0xFFFFFFFE else flags

/-- The loop of `process_memory_switch` over one list of maps. -/
def switchMaps (L : Layout) (add : Nat) : List MapMemory → Machine → Int × Machine
  | [], m => (0, m)
  | pm :: rest, m =>
    let r := pageMapRange L pm.pAddr pm.vAddr (switchFlags add pm.flags) pm.size m
    if r.1 ≠ 0 then r else switchMaps L add rest r.2

/-- `process_memory_switch`. -/
def processMemorySwitch (L : Layout) (proc : Option Nat) (add : Nat) (k : Kernel) : Int × Kernel :=
  match proc with
  | none => (-EINVAL, k)
  | some p =>
    let r := switchMaps L add (k.proc p).mmHeap k.machine
    if r.1 ≠ 0 then (r.1, k.setMachine r.2) else
    let r := switchMaps L add (k.proc p).mmStack r.2
    if r.1 ≠ 0 then (r.1, k.setMachine r.2) else
    let pm := (k.proc p).mmCode
    let r := pageMapRange L pm.pAddr pm.vAddr (switchFlags add pm.flags) pm.size r.2
    if r.1 ≠ 0 then (r.1, k.setMachine r.2) else (0, k.setMachine r.2)

theorem switchMaps_append (L : Layout) (add : Nat) (a b : List MapMemory) (m : Machine) :
    switchMaps L add (a ++ b) m =
      if (switchMaps L add a m).1 ≠ 0 then switchMaps L add a m
      else switchMaps L add b (switchMaps L add a m).2 := by
  induction a generalizing m with
  | nil => rfl
  | cons pm a ih =>
    rw [List.cons_append, switchMaps, switchMaps]
    split
    · rfl
    · exact ih _

/-- The three loops are one over all maps of the process. -/
theorem processMemorySwitch_eq (L : Layout) (p add : Nat) (k : Kernel) :
    processMemorySwitch L (some p) add k =
      ((switchMaps L add (k.proc p).maps k.machine).1,
        k.setMachine (switchMaps L add (k.proc p).maps k.machine).2) := by
  unfold processMemorySwitch Process.maps
  rw [switchMaps_append, switchMaps_append]
  dsimp only
  by_cases h₁ : (switchMaps L add (k.proc p).mmHeap k.machine).1 = 0
  · rw [if_neg (not_not_intro h₁), if_neg (not_not_intro h₁)]
    generalize (switchMaps L add (k.proc p).mmHeap k.machine).2 = m₁
    by_cases h₂ : (switchMaps L add (k.proc p).mmStack m₁).1 = 0
    · rw [if_neg (not_not_intro h₂), if_neg (not_not_intro h₂)]
      simp only [switchMaps]
      split
      · rfl
      · rfl
    · rw [if_pos h₂, if_pos h₂]
  · rw [if_pos h₁, if_pos h₁, if_pos h₁]

/-! ## Maps in user space -/

/-- A map below the kernel whose pages are to be present. -/
structure UserMap (pm : MapMemory) : Prop where
  user : pm.vAddr + pm.size * 4096 ≤ KERNEL_POS
  present : pm.flags &&& PAGE_PRESENT ≠ 0
  small : pm.flags &&& PAGE_SIZE = 0

/-- What a map has shown when `page_map_range` has accepted it. -/
def MapMemory.Aligned (pm : MapMemory) : Prop :=
  0 < pm.size → pm.vAddr % 4096 = 0 ∧ pm.pAddr % 4096 = 0 ∧ pm.flags &&& PAGE_ADDR = 0

theorem UserMap.pageDir {pm : MapMemory} (h : UserMap pm) {w : Nat}
    (hw : InPages pm.vAddr pm.size w) : PageDir (dirIndex w) := by
  have hu := h.user
  unfold InPages at hw
  unfold KERNEL_POS at hu
  have hlt : dirIndex w < 768 := by
    rw [dirIndex_eq]
    omega
  exact ⟨by omega, by unfold KERNEL_POS; omega⟩

theorem inPages_page {pm : MapMemory} {i : Nat} (hi : i < pm.size) :
    InPages pm.vAddr pm.size (pm.page i) := by
  unfold InPages MapMemory.page
  omega

/-- Aligned maps without a common address have no common page. -/
theorem MapMemory.Disjoint.pages {b c : MapMemory} (h : b.Disjoint c) (hb : b.Aligned)
    (hc : c.Aligned) {v : Nat} (hv : InPages b.vAddr b.size v) : ¬ InPages c.vAddr c.size v := by
  intro hv'
  have hb := hb (by unfold InPages at hv; omega)
  have hc := hc (by unfold InPages at hv'; omega)
  refine h v ?_ ?_
  · unfold InPages at hv
    unfold MapMemory.Covers
    omega
  · unfold InPages at hv'
    unfold MapMemory.Covers
    omega

/-! ## The way in -/

/-- What `m'` is after the maps have been switched in. -/
structure SwitchedIn (L : Layout) (maps : List MapMemory) (m m' : Machine) : Prop where
  paging : PagingOk L m'
  aligned : ∀ pm ∈ maps, pm.Aligned
  view : ∀ pm ∈ maps, ∀ i < pm.size,
    entryView (slot L m' (pm.page i)) = some (add32 pm.pAddr (i * 4096))
  others : ∀ v, PageDir (dirIndex v) → (∀ pm ∈ maps, ¬ InPages pm.vAddr pm.size v) →
    HasTable m (dirIndex v) → entryView (slot L m' v) = entryView (slot L m v)

theorem switchMaps_mapped {L : Layout} {maps : List MapMemory} {m m' : Machine}
    (hm : PagingOk L m) (huser : ∀ pm ∈ maps, UserMap pm)
    (hdis : maps.Pairwise MapMemory.Disjoint) (h : switchMaps L 1 maps m = (0, m')) :
    SwitchedIn L maps m m' := by
  induction maps generalizing m with
  | nil =>
    cases h
    exact ⟨hm, by simp, by simp, fun _ _ _ _ => rfl⟩
  | cons pm rest ih =>
    obtain ⟨hpm, hrest⟩ := List.forall_mem_cons.mp huser
    obtain ⟨hd, hdrest⟩ := List.pairwise_cons.mp hdis
    rw [switchMaps] at h
    by_cases hok : (pageMapRange L pm.pAddr pm.vAddr (switchFlags 1 pm.flags) pm.size m).1 = 0
    · rw [if_neg (not_not_intro hok)] at h
      have hflags : switchFlags 1 pm.flags = pm.flags := rfl
      rw [hflags] at h hok
      have hrun := eq_of_fst_eq_zero hok
      have hmap := pageMapRange_mapped hm hpm.present (fun w hw => hpm.pageDir hw) hrun
      have halign : pm.Aligned := fun hsize =>
        pageMapRange_aligned hpm.present hsize
          (by have := hpm.user; unfold KERNEL_POS at this; omega) hrun
      have hpaging : PagingOk L (pageMapRange L pm.pAddr pm.vAddr pm.flags pm.size m).2 := by
        refine (moved_pageMapRange hm fun j hj => ?_).paging
        have hu := hpm.user
        rw [shiftLeft_page, add32_of_lt (by unfold KERNEL_POS at hu; omega)]
        exact hpm.pageDir (inPages_page hj)
      have htail := ih hpaging hrest hdrest h
      refine ⟨htail.paging, List.forall_mem_cons.mpr ⟨halign, htail.aligned⟩,
        List.forall_mem_cons.mpr ⟨fun i hi => ?_, htail.view⟩, fun v hv hout ht => ?_⟩
      · -- the later maps leave the pages of this one alone
        have hview := hmap.view i hi
        have hout : ∀ q ∈ rest, ¬ InPages q.vAddr q.size (pm.page i) := fun q hq =>
          (hd q hq).pages halign (htail.aligned q hq) (inPages_page hi)
        exact (htail.others _ (hpm.pageDir (inPages_page hi)) hout
          (hasTable_of_view hview)).trans hview
      · obtain ⟨hout₁, hout₂⟩ := List.forall_mem_cons.mp hout
        have ht₁ := (hasTable_congr (hmap.dir _ ht)).mpr ht
        exact (htail.others v hv hout₂ ht₁).trans (hmap.others v hv hout₁ ht)
    · rw [if_pos hok] at h
      exact absurd (congrArg Prod.fst h) hok

/-! ## The way out -/

theorem switchFlags_out (flags : Nat) : switchFlags 0 flags &&& PAGE_PRESENT = 0 := by
  rw [switchFlags, if_pos rfl, Nat.and_assoc]
  exact Nat.and_zero flags

theorem switchFlags_addr {add flags : Nat} (h : flags &&& PAGE_ADDR = 0) :
    switchFlags add flags &&& PAGE_ADDR = 0 := by
  unfold switchFlags
  split
  · rw [Nat.and_assoc, Nat.and_comm 0xFFFFFFFE, ← Nat.and_assoc, h, Nat.zero_and]
  · exact h

/-- One map is switched out: its pages go, and no other page does. -/
theorem pageMapRange_out {L : Layout} {pm : MapMemory} {m : Machine} (hm : PagingOk L m)
    (hpm : UserMap pm) (halign : pm.Aligned) (hpages : ∀ i < pm.size, Present L m (pm.page i)) :
    ∃ m', pageMapRange L pm.pAddr pm.vAddr (switchFlags 0 pm.flags) pm.size m = (0, m') ∧
      PagingOk L m' ∧
      ∀ v < 2 ^ 32, Present L m' v ↔ Present L m v ∧ ¬ InPages pm.vAddr pm.size v := by
  by_cases hsize : 0 < pm.size
  · obtain ⟨hva, hpa, hfa⟩ := halign hsize
    have hflag := switchFlags_out pm.flags
    have hfa' : switchFlags 0 pm.flags &&& PAGE_ADDR = 0 := switchFlags_addr hfa
    have hok := pageMapRange_unmaps hm hpa hva hfa' hflag fun i hi =>
      ⟨hpm.pageDir (inPages_page hi), hpages i hi⟩
    have hrun := eq_of_fst_eq_zero hok
    have hout := pageMapRange_unmapped hm hpa hva hfa' hflag (fun w hw => hpm.pageDir hw) hrun
    exact ⟨_, hrun, hout.paging, hout.present⟩
  · have hzero : pm.size = 0 := by omega
    rw [hzero]
    refine ⟨m, rfl, hm, fun v _ => (and_iff_left ?_).symm⟩
    unfold InPages
    omega

/-- **The way out.**  It succeeds when the pages of all maps are present, and leaves none. -/
theorem switchMaps_unmapped {L : Layout} {maps : List MapMemory} {m : Machine}
    (hm : PagingOk L m) (huser : ∀ pm ∈ maps, UserMap pm) (halign : ∀ pm ∈ maps, pm.Aligned)
    (hdis : maps.Pairwise MapMemory.Disjoint)
    (hpages : ∀ pm ∈ maps, ∀ i < pm.size, Present L m (pm.page i)) :
    ∃ m', switchMaps L 0 maps m = (0, m') ∧
      ∀ v < 2 ^ 32, Present L m' v ↔
        Present L m v ∧ ∀ pm ∈ maps, ¬ InPages pm.vAddr pm.size v := by
  induction maps generalizing m with
  | nil => exact ⟨m, rfl, by simp⟩
  | cons pm rest ih =>
    obtain ⟨hpm, hrest⟩ := List.forall_mem_cons.mp huser
    obtain ⟨hal, halrest⟩ := List.forall_mem_cons.mp halign
    obtain ⟨hd, hdrest⟩ := List.pairwise_cons.mp hdis
    obtain ⟨hp, hprest⟩ := List.forall_mem_cons.mp hpages
    obtain ⟨m₁, hone, hm₁, hpres⟩ := pageMapRange_out hm hpm hal hp
    have hleft : ∀ q ∈ rest, ∀ i < q.size, Present L m₁ (q.page i) := fun q hq i hi => by
      have hlt := ((hrest q hq).pageDir (inPages_page hi)).lt
      refine (hpres _ hlt).mpr ⟨hprest q hq i hi, fun hin => ?_⟩
      exact (hd q hq).pages hal (halrest q hq) hin (inPages_page hi)
    obtain ⟨m', hm', hpres'⟩ := ih hm₁ hrest halrest hdrest hleft
    refine ⟨m', ?_, fun v hv => ?_⟩
    · rw [switchMaps, hone]
      exact hm'
    · rw [hpres' v hv, hpres v hv, List.forall_mem_cons, and_assoc]

/-! ## In and out -/

/-- The page is present and translates to the address. -/
def TranslatesTo (L : Layout) (m : Machine) (v pa : Nat) : Prop :=
  Present L m v ∧ (pageGetPhys L v m).1 = pa

theorem translatesTo_of_view {L : Layout} {m : Machine} {v pa : Nat}
    (h : entryView (slot L m v) = some pa) : TranslatesTo L m v pa := by
  refine ⟨?_, pageGetPhys_of_entryView h⟩
  rw [present_iff]
  intro hno
  rw [entryView_eq_none_iff.mpr hno] at h
  cases h

/-- **A process that has been switched in can be switched out.**  Where page tables have frames
of their own, a successful `process_memory_switch(p, 1)` leaves every page of every map
translated to its own frame, and `process_memory_switch(p, 0)` succeeds after it and leaves no
page of a map present. -/
theorem switch_out_succeeds (L : Layout) (p : Nat) (k k₁ : Kernel)
    (hpaging : PagingOk L k.machine) (huser : ∀ pm ∈ (k.proc p).maps, UserMap pm)
    (hdis : (k.proc p).maps.Pairwise MapMemory.Disjoint)
    (h : processMemorySwitch L (some p) 1 k = (0, k₁)) :
    (∀ pm ∈ (k.proc p).maps, ∀ i < pm.size,
      TranslatesTo L k₁.machine (pm.page i) (add32 pm.pAddr (i * 4096))) ∧
    ∃ k₂, processMemorySwitch L (some p) 0 k₁ = (0, k₂) ∧
      ∀ pm ∈ (k.proc p).maps, ∀ i < pm.size, ¬ Present L k₂.machine (pm.page i) := by
  rw [processMemorySwitch_eq] at h
  have hok : (switchMaps L 1 (k.proc p).maps k.machine).1 = 0 := congrArg Prod.fst h
  have hin := eq_of_fst_eq_zero hok
  have hk₁ : k₁ = k.setMachine (switchMaps L 1 (k.proc p).maps k.machine).2 :=
    (congrArg Prod.snd h).symm
  have hsw := switchMaps_mapped hpaging huser hdis hin
  have htr : ∀ pm ∈ (k.proc p).maps, ∀ i < pm.size,
      TranslatesTo L k₁.machine (pm.page i) (add32 pm.pAddr (i * 4096)) := fun pm hpm i hi => by
    rw [hk₁]
    exact translatesTo_of_view (hsw.view pm hpm i hi)
  refine ⟨htr, ?_⟩
  rw [hk₁] at htr ⊢
  obtain ⟨m₂, hout, hpres⟩ := switchMaps_unmapped hsw.paging huser hsw.aligned hdis
    fun pm hpm i hi => (htr pm hpm i hi).1
  refine ⟨k.setMachine m₂, ?_, fun pm hpm i hi hp => ?_⟩
  · rw [processMemorySwitch_eq]
    show ((switchMaps L 0 (k.proc p).maps _).1, _) = _
    rw [Kernel.setMachine, hout]
    rfl
  · have hlt := ((huser pm hpm).pageDir (inPages_page hi)).lt
    exact ((hpres _ hlt).mp hp).2 pm hpm (inPages_page hi)

/-- A process of four pages, two of them under one directory entry. -/
def Kernel.ready : Kernel where
  machine := ⟨fun _ => 0xFF, fun d => if d = 768 then 0x110001 else 0, fun _ _ => 0⟩
  kmallocs := fun _ => none
  current := none
  processList := [1]
  proc := fun _ =>
    { Process.zero with
      pid := 1
      mmHeap := [⟨0x40000000, 0x600000, 1, 7⟩]
      mmStack := [⟨0xBFFFF000, 0x601000, 1, 7⟩]
      mmCode := ⟨0x40001000, 0x602000, 2, 7⟩ }
  lastPid := 2

theorem ready_paging : PagingOk .sample Kernel.ready.machine := by
  have honly : ∀ d, HasTable Kernel.ready.machine d → d = 768 := by
    intro d h
    by_contra hne
    refine h.1 ?_
    simp [Kernel.ready, hne]
  refine ⟨⟨fun d hd h => ?_, fun d hd h => ?_, fun d e hd _ h _ _ => ?_⟩, fun _ => by decide⟩
  · exact absurd (honly d h) hd.2
  · exact absurd (honly d h) hd.2
  · exact absurd (honly d h) hd.2

/-- It is switched in and out again. -/
theorem ready_switches :
    ∃ k₂, processMemorySwitch .sample (some 1) 0
        (processMemorySwitch .sample (some 1) 1 .ready).2 = (0, k₂) ∧
      ∀ pm ∈ (Kernel.ready.proc 1).maps, ∀ i < pm.size, ¬ Present .sample k₂.machine (pm.page i) := by
  refine (switch_out_succeeds .sample 1 .ready _ ready_paging ?_ ?_
    (eq_of_fst_eq_zero (by decide +kernel))).2
  · intro pm hpm
    simp only [Process.maps, Kernel.ready, List.mem_append, List.mem_cons, List.not_mem_nil,
      or_false] at hpm
    rcases hpm with (rfl | rfl) | rfl
    · exact ⟨by decide, by decide, by decide⟩
    · exact ⟨by decide, by decide, by decide⟩
    · exact ⟨by decide, by decide, by decide⟩
  · simp only [Process.maps, Kernel.ready, MapMemory.Disjoint, MapMemory.Covers,
      List.cons_append, List.nil_append, List.pairwise_cons, List.mem_cons, List.not_mem_nil,
      or_false, forall_eq_or_imp, forall_eq]
    refine ⟨⟨fun v h h' => ?_, fun v h h' => ?_⟩, fun v h h' => ?_, by simp⟩ <;> omega

/-- Two directory entries name one table, and the process has a page under each. -/
def Kernel.sharing : Kernel where
  machine := ⟨fun _ => 0xFF, fun d => if d = 768 then 0x110001
    else if d = 256 ∨ d = 257 then 0x300007 else 0, fun _ _ => 0⟩
  kmallocs := fun _ => none
  current := none
  processList := [1]
  proc := fun _ =>
    { Process.zero with
      pid := 1
      mmHeap := [⟨0x40000000, 0x600000, 1, 7⟩]
      mmCode := ⟨0x40400000, 0x700000, 1, 7⟩ }
  lastPid := 2

/-- The switch succeeds, and the first page shows the frame of the second. -/
theorem shared_table_mixes_maps :
    (∀ pm ∈ (Kernel.sharing.proc 1).maps, UserMap pm) ∧
      (Kernel.sharing.proc 1).maps.Pairwise MapMemory.Disjoint ∧
      (processMemorySwitch .sample (some 1) 1 .sharing).1 = 0 ∧
      (pageGetPhys .sample 0x40000000
        (processMemorySwitch .sample (some 1) 1 .sharing).2.machine).1 = 0x700000 ∧
      ¬ ∀ pm ∈ (Kernel.sharing.proc 1).maps, ∀ i < pm.size, TranslatesTo .sample
        (processMemorySwitch .sample (some 1) 1 .sharing).2.machine (pm.page i)
        (add32 pm.pAddr (i * 4096)) := by
  have hphys : (pageGetPhys .sample 0x40000000
      (processMemorySwitch .sample (some 1) 1 .sharing).2.machine).1 = 0x700000 := by
    decide +kernel
  refine ⟨fun pm hpm => ?_, ?_, by decide +kernel, hphys, fun h => ?_⟩
  · simp only [Process.maps, Kernel.sharing, Process.zero, List.append_nil, List.mem_append,
      List.mem_cons, List.not_mem_nil, or_false] at hpm
    rcases hpm with rfl | rfl
    · exact ⟨by decide, by decide, by decide⟩
    · exact ⟨by decide, by decide, by decide⟩
  · simp only [Process.maps, Kernel.sharing, Process.zero, MapMemory.Disjoint, MapMemory.Covers,
      List.cons_append, List.nil_append, List.append_nil, List.pairwise_cons, List.mem_cons,
      List.not_mem_nil, or_false, forall_eq]
    refine ⟨fun v h h' => ?_, by simp⟩
    omega
  · have hone := (h ⟨0x40000000, 0x600000, 1, 7⟩ (by decide) 0 (by decide)).2
    have haddr : add32 0x600000 (0 * 4096) = 0x600000 := by decide +kernel
    rw [haddr] at hone
    exact absurd (hone.symm.trans hphys) (by decide)

end Moonlight
