import MoonlightKernel.MapRange
import MoonlightKernel.Heap.GiveBack

/-!
# The stack of the kernel: `kernel/mem/stack_setup.c`

The boot code runs on four pages in `.bss`.  `stack_setup` is to show them at the upper end of a
window of sixteen pages and to give the rest of the window frames of its own; `kmain` then adds the
distance to `esp`.  `page_map_at` maps upwards from the address it is given, so the pages for the
rest of the window land on those that show the boot stack, and beyond the window's end.

* `BootStack`, `stackSetup`, `kmainEsp` — the symbols of `boot.asm`, the function and the new `esp`;
* `OnlyPages`, `stackLoop_pages` — what the first loop may change;
* `pageMapAt_mapped` — a successful `page_map_at` maps a run of free frames;
* `stack_setup_loses_stack` — the new stack shows no byte of the old one.
-/

set_option autoImplicit false

namespace Moonlight

open Sys Sys.Bitmap

/-! ## The source -/

def STACK_SIZE : Nat := 0x10000

def STACK_START (L : Layout) : Nat := 0x400000 + PAGE_ALIGN (HEAP_END L)

def STACK_END (L : Layout) : Nat := STACK_START L + STACK_SIZE

/-- The stack of the boot code: 16384 bytes in the image from `stack_bottom` on. -/
structure BootStack (L : Layout) where
  bottom : Nat
  bottom_ge : 0xC0100000 ≤ bottom
  top_le : bottom + 16384 ≤ L.kernelEnd
  aligned : bottom % 4096 = 0

/-- `stack_top`. -/
def BootStack.top {L : Layout} (S : BootStack L) : Nat := S.bottom + 16384

/-- The loop of `stack_setup`, `k` iterations at most: `stack_btmp`, `virt_stack_ptr`.  It answers
the last `virt_stack_ptr`, or nothing after a `kern_panic`, which halts. -/
def stackLoop (L : Layout) (bottom : Nat) :
    Nat → Nat → Nat → Machine → Option (Nat × Machine)
  | 0, _, v, m => some (v, m)
  | k + 1, p, v, m =>
    if p ≠ bottom ∧ STACK_START L ≤ v then
      let r := pageMap L (KERNEL_GET_REAL p) v (PAGE_WRITE ||| PAGE_PRESENT) m
      if r.1 ≠ 0 then none else stackLoop L bottom k (p - 4096) (v - 4096) r.2
    else some (v, m)

/-- `stack_setup`. -/
def stackSetup (L : Layout) (S : BootStack L) (m : Machine) : Option Machine :=
  -- `virt_stack_ptr` leaves the window after as many iterations as the window has pages
  match stackLoop L S.bottom (STACK_SIZE / 4096) S.top (STACK_END L - 4096) m with
  | none => none
  | some (v, m) =>
    let r := pageMapAt L v (PAGE_WRITE ||| PAGE_PRESENT) ((v - STACK_START L) >>> 12) m
    if r.1 ≠ 0 then none else some r.2

/-- The `esp` of `kmain` after `stack_setup`, from the one before. -/
def kmainEsp (L : Layout) (S : BootStack L) (esp : Nat) : Nat := STACK_END L - 1 - (S.top - esp)

theorem STACK_START_bounds (L : Layout) :
    STACK_START L % 4096 = 0 ∧ 0xC0400000 ≤ STACK_START L ∧ STACK_START L < 0xC1C01000 := by
  obtain ⟨haligned, -, hend, heq⟩ := HEAP_START_bounds L
  have hk := L.kernelPage_mem
  have hp := PAGE_ALIGN_spec (p := L.kernelEnd) (by have := L.kernelEnd_le; omega)
  have hs : HEAP_START L = 0x400000 + PAGE_ALIGN L.kernelEnd := rfl
  unfold STACK_START
  rw [PAGE_ALIGN_of_dvd (by omega)]
  omega

/-- The window, and as much again above it, is not in the table of the kernel. -/
theorem stack_pageDir {L : Layout} {v : Nat} (h : STACK_START L / 4096 ≤ v / 4096)
    (h' : v / 4096 < STACK_START L / 4096 + 32) : PageDir (dirIndex v) := by
  have hL := STACK_START_bounds L
  have hd : KERNEL_POS >>> 22 = 768 := by decide
  unfold PageDir
  rw [dirIndex_eq, hd]
  omega

/-! ## The loop -/

/-- From `m` to `m'` the translation has changed on the `n` pages from `va` on only, and no frame
has become free. -/
structure OnlyPages (L : Layout) (m : Machine) (va n : Nat) (m' : Machine) : Prop where
  paging : PagingOk L m'
  others : ∀ v, PageDir (dirIndex v) → ¬ InPages va n v → HasTable m (dirIndex v) →
    entryView (slot L m' v) = entryView (slot L m v)
  dir : ∀ d, HasTable m d → m'.pageDirectory d = m.pageDirectory d
  free : ∀ f, isFree m'.mmBitmap f = true → isFree m.mmBitmap f = true

namespace OnlyPages

variable {L : Layout} {m m₁ m' : Machine} {va n : Nat}

theorem refl (hm : PagingOk L m) : OnlyPages L m va n m :=
  ⟨hm, fun _ _ _ _ => rfl, fun _ _ => rfl, fun _ h => h⟩

theorem hasTable {d : Nat} (h : OnlyPages L m va n m') (hd : HasTable m d) : HasTable m' d :=
  (hasTable_congr (h.dir d hd)).mpr hd

theorem trans (h₁ : OnlyPages L m va n m₁) (h : OnlyPages L m₁ va n m') :
    OnlyPages L m va n m' := by
  refine ⟨h.paging, fun v hv hout ht => ?_, fun d hd => ?_, fun f hf => h₁.free f (h.free f hf)⟩
  · rw [h.others v hv hout (h₁.hasTable ht), h₁.others v hv hout ht]
  · rw [h.dir d (h₁.hasTable hd), h₁.dir d hd]

/-- One `page_map` of a page of the run. -/
theorem single {pa v flag : Nat} (hm : PagingOk L m) (hv : PageDir (dirIndex v))
    (hin : InPages va n v) (hpa : pa < 2 ^ 32) (hflag : flag &&& PAGE_PRESENT ≠ 0)
    (h : pageMap L pa v flag m = (0, m')) : OnlyPages L m va n m' := by
  have hmap := pageMap_mapped hm.toTablesOk hv hpa hflag h
  have hmoved : Moved L m (pageMap L pa v flag m).2 := moved_pageMap hm hv hpa
  rw [h] at hmoved
  refine ⟨hmoved.paging, fun w hw hout ht => hmap.others w hw (fun heq => hout ?_) ht,
    fun d hd => hmap.dir d (.inr hd), fun f hf => ((hmap.bitmap f).mp hf).1⟩
  unfold InPages at hin ⊢
  rwa [heq]

/-- What is mapped over the whole of the run afterwards hides the change. -/
theorem mapped {pa : Nat → Nat} (h₁ : OnlyPages L m va n m₁) (h : RunMapped L m₁ va pa n m') :
    RunMapped L m va pa n m' := by
  refine ⟨h.view, fun v hv hout ht => ?_, fun d hd => ?_⟩
  · rw [h.others v hv hout (h₁.hasTable ht), h₁.others v hv hout ht]
  · rw [h.dir d (h₁.hasTable hd), h₁.dir d hd]

end OnlyPages

/-- The loop, `n` pages above `stack_bottom`: it stops `n` pages further down. -/
theorem stackLoop_pages {L : Layout} {bottom : Nat} (va N n : Nat) :
    ∀ {k p v : Nat} {m : Machine} {r : Nat × Machine}, PagingOk L m → n < k →
      p = bottom + n * 4096 → p < 2 ^ 32 → STACK_START L + n * 4096 ≤ v →
      v / 4096 < STACK_START L / 4096 + 32 → va / 4096 + n ≤ v / 4096 + 1 →
      v / 4096 < va / 4096 + N → stackLoop L bottom k p v m = some r →
        r.1 = v - n * 4096 ∧ OnlyPages L m va N r.2 := by
  induction n with
  | zero =>
    intro k p v m r hm hk hp _ _ _ _ _ h
    obtain ⟨k, rfl⟩ := Nat.exists_eq_succ_of_ne_zero (Nat.ne_of_gt hk)
    rw [stackLoop, if_neg (by omega)] at h
    cases h
    exact ⟨by omega, .refl hm⟩
  | succ n ih =>
    intro k p v m r hm hk hp hp32 hstart hdir hlo hhi h
    obtain ⟨k, rfl⟩ := Nat.exists_eq_succ_of_ne_zero (Nat.ne_of_gt (Nat.zero_lt_of_lt hk))
    rw [stackLoop, if_pos (by omega)] at h
    dsimp only at h
    split at h
    · cases h
    rename_i hok
    have hd : PageDir (dirIndex v) := stack_pageDir (by omega) hdir
    have hpa : KERNEL_GET_REAL p < 2 ^ 32 := Nat.lt_of_le_of_lt (Nat.sub_le _ _) hp32
    have hin : InPages va N v := by
      unfold InPages
      omega
    have hmap : pageMap L (KERNEL_GET_REAL p) v (PAGE_WRITE ||| PAGE_PRESENT) m =
        (0, (pageMap L (KERNEL_GET_REAL p) v (PAGE_WRITE ||| PAGE_PRESENT) m).2) :=
      Prod.ext (not_not.mp hok) rfl
    have hstep := OnlyPages.single hm hd hin hpa (by decide) hmap
    have hstart' : STACK_START L + n * 4096 ≤ v - 4096 := by
      rw [Nat.succ_mul, ← Nat.add_assoc] at hstart
      exact Nat.le_sub_of_add_le hstart
    obtain ⟨hv, hrest⟩ := ih hstep.paging (by omega) (by omega) (by omega) hstart' (by omega)
      (by omega) (by omega) h
    exact ⟨by omega, hstep.trans hrest⟩

/-! ## The rest of the window -/

/-- **A successful `page_map_at`** maps the pages from its address upwards to a run of frames that
were free. -/
theorem pageMapAt_mapped {L : Layout} {va flag n : Nat} {m m' : Machine} (hm : PagingOk L m)
    (hdirs : ∀ w, InPages va n w → PageDir (dirIndex w))
    (h : pageMapAt L va flag n m = (0, m')) :
    ∃ p, 1272 ≤ p ∧ (∀ i < n, isFree m.mmBitmap (p + i) = true) ∧
      RunMapped L m va (fun i => (p + i) * 4096) n m' := by
  unfold pageMapAt at h
  split at h
  · cases h
  rename_i hflag
  split at h
  · cases h
  split at h
  · cases h
  rcases getPhysBlock_spec n m.mmBitmap with hp | ⟨p, hp, hlo, hhi, hfree⟩
  · rw [hp] at h
    cases h
  · rw [hp] at h
    dsimp only at h
    rw [if_neg (by omega)] at h
    split at h
    · rename_i herr
      exact absurd (congrArg Prod.fst h) herr
    rename_i hok
    have hrun := pageMapRange_mapped (hm.taken_run p n) hflag hdirs
      (Prod.ext (not_not.mp hok) (Prod.mk.inj h).2)
    refine ⟨p, hlo, fun i hi => hfree _ (by omega) (by omega), fun i hi => ?_, hrun.others,
      hrun.dir⟩
    rw [hrun.view i hi, add32_of_lt (by omega), Nat.add_mul]

/-- An address in a run of pages that has been mapped. -/
theorem RunMapped.view_mem {L : Layout} {m m' : Machine} {va n v : Nat} {pa : Nat → Nat}
    (h : RunMapped L m va pa n m') (hva : va % 4096 = 0) (hv : InPages va n v) :
    entryView (slot L m' v) = some (pa (v / 4096 - va / 4096)) := by
  unfold InPages at hv
  have hpage : v / 4096 * 4096 = va + (v / 4096 - va / 4096) * 4096 := by omega
  rw [← slot_page, hpage]
  exact h.view _ (by omega)

/-- **The new stack shows no byte of the old one.**  When `stack_setup` returns, the eleven pages
from the fifth below the end of the window upwards have frames that were free, none of them a frame
of the boot stack; any other page that had a table, not the kernel's, is translated as before.  The
`esp` that `kmain` takes then points to another frame than the one before, whatever it was. -/
theorem stack_setup_loses_stack (L : Layout) (S : BootStack L) (m m' : Machine)
    (hm : PagingOk L m) (h : stackSetup L S m = some m') :
    ∃ p, (∀ i < 11, isFree m.mmBitmap (p + i) = true) ∧
      RunMapped L m (STACK_END L - 5 * 4096) (fun i => (p + i) * 4096) 11 m' ∧
      (∀ a, S.bottom ≤ a → a ≤ S.top → ∀ i < 11, p + i ≠ KERNEL_GET_REAL a / 4096) ∧
      ∀ esp, S.bottom ≤ esp → esp ≤ S.top → ∃ f, f ≠ KERNEL_GET_REAL esp / 4096 ∧
        entryView (slot L m' (kmainEsp L S esp)) = some (f * 4096) := by
  obtain ⟨haligned, hlo, hhi⟩ := STACK_START_bounds L
  have hend : STACK_END L = STACK_START L + 16 * 4096 := rfl
  have htop : S.top = S.bottom + 4 * 4096 := rfl
  have htop_le := S.top_le
  have hkernel := L.kernelEnd_le
  unfold stackSetup at h
  split at h
  · cases h
  rename_i v m₁ hloop
  -- four iterations, on pages that the second call maps again
  obtain ⟨hv, hpages⟩ := stackLoop_pages (STACK_END L - 5 * 4096) 11 4 hm (by decide) htop
    (by omega) (by omega) (by omega) (by omega) (by omega) hloop
  have hv' : v = STACK_END L - 5 * 4096 := hv.trans (Nat.sub_sub ..)
  have hcount : (v - STACK_START L) >>> 12 = 11 := by
    rw [shiftRight_page]
    omega
  dsimp only at h
  rw [hcount, hv'] at h
  split at h
  · cases h
  rename_i hok
  have hdirs : ∀ w, InPages (STACK_END L - 5 * 4096) 11 w → PageDir (dirIndex w) := by
    intro w hw
    unfold InPages at hw
    exact stack_pageDir (L := L) (by omega) (by omega)
  obtain ⟨p, hp, hfree, hrun⟩ := pageMapAt_mapped hpages.paging hdirs
    (Prod.ext (not_not.mp hok) (Option.some.inj h))
  -- the image ends below the first frame that the allocator hands out
  have himage : ∀ a, S.bottom ≤ a → a ≤ S.top → ∀ i < 11, p + i ≠ KERNEL_GET_REAL a / 4096 := by
    intro a _ ha i _ heq
    have hreal : KERNEL_GET_REAL a ≤ 0x400000 := by
      unfold KERNEL_GET_REAL KERNEL_POS
      omega
    omega
  refine ⟨p, fun i hi => hpages.free _ (hfree i hi), hpages.mapped hrun, himage,
    fun esp hbottom hesp => ?_⟩
  have hin : InPages (STACK_END L - 5 * 4096) 11 (kmainEsp L S esp) := by
    unfold InPages kmainEsp
    omega
  exact ⟨_, himage esp hbottom hesp _ (by unfold InPages at hin; omega),
    hrun.view_mem (by omega) hin⟩

/-- A boot stack two megabytes above `KERNEL_POS`. -/
def BootStack.sample : BootStack .sample :=
  ⟨0xC0200000, by decide, by decide, by decide⟩

theorem pagingOk_clean : PagingOk .sample .clean :=
  ⟨tablesOk_clean, fun _ => by decide⟩

/-- On a machine with all frames free `stack_setup` returns, and the new stack shows none of the
four pages. -/
theorem stack_setup_loses_sample : ∃ m', stackSetup .sample .sample .clean = some m' ∧
    ∃ p, (∀ i < 11, isFree Machine.clean.mmBitmap (p + i) = true) ∧
      RunMapped .sample .clean (STACK_END .sample - 5 * 4096) (fun i => (p + i) * 4096) 11 m' ∧
      (∀ a, BootStack.sample.bottom ≤ a → a ≤ BootStack.sample.top →
        ∀ i < 11, p + i ≠ KERNEL_GET_REAL a / 4096) ∧
      ∀ esp, BootStack.sample.bottom ≤ esp → esp ≤ BootStack.sample.top →
        ∃ f, f ≠ KERNEL_GET_REAL esp / 4096 ∧
          entryView (slot .sample m' (kmainEsp .sample .sample esp)) = some (f * 4096) := by
  have hreturns : (stackSetup .sample .sample .clean).isSome = true := by decide +kernel
  obtain ⟨m', h⟩ := Option.isSome_iff_exists.mp hreturns
  exact ⟨m', h, stack_setup_loses_stack .sample .sample .clean m' pagingOk_clean h⟩

end Moonlight
