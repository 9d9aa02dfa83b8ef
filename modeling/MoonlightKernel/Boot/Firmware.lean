import MoonlightKernel.Boot.KernelSection
import MoonlightKernel.Boot.MemoryInit
import MoonlightKernel.Process.MemoryRuns

/-!
# From the memory map to the frames of the processes

`memory_init` marks frames free, `page_setup` takes a few out again, and from there on every frame that
anybody has comes out of `get_phys_block`.  No frame is used that the firmware has not reported.

* `start_circulates` — the frames of a kernel that has been set up;
* `memory_from_firmware` — the frames of every state that it reaches.
-/

set_option autoImplicit false

namespace Moonlight

open Sys Sys.Bitmap

section firmware

variable {L : Layout} {es : List MmapEntry}

/-- Before the first call a frame circulates that is free, and nothing else. -/
theorem start_circulates {k : Kernel} (hk : SetUp L k.machine) (hlist : k.processList = []) {f : Nat}
    (hf : MemorySystem.Circulates ⟨k, []⟩ f) : isFree k.machine.mmBitmap f = true := by
  rcases hf with (hfree | ⟨d, hd, htable, -⟩) | ⟨o, ho⟩
  · exact hfree
  · have hzero : k.machine.pageDirectory d = 0 := hk.empty d hd
    exact absurd (by rw [hzero]; rfl) htable.1
  · cases o with
    | kernel =>
      obtain ⟨b, hb, -⟩ := ho
      cases hb
    | process p =>
      have hin : p ∈ k.processList := ho.1.1
      rw [hlist] at hin
      cases hin

/-- An available entry holds every page that it marks. -/
def Faithful (es : List MmapEntry) : Prop := ∀ e ∈ es, e.Available → ∀ q, ¬ e.Overreaches q

theorem Marked.held (hes : Faithful es) {q : Nat} (h : Marked es q) :
    ∃ e ∈ es, e.Available ∧ e.Holds q := by
  obtain ⟨e, he, hav, hmarks⟩ := h
  refine ⟨e, he, hav, ?_⟩
  by_contra hno
  exact hes e he hav q ⟨hmarks, hno⟩

/-- **Memory comes from the firmware.**  `memory_init` ends on every well-formed memory map; and in
every state that the calls reach after it, every frame that is free, that holds a page table, that is
in a block of the kernel's or behind a page of a process lies in memory that the map reports as
available, and outside the image. -/
theorem memory_from_firmware (L : Layout) (S : Sections L) {mem : Bytes} {addr : Nat}
    (haddr : addr % 8 = 0) {es : List MmapEntry} (hinfo : BootInfo mem (add32 addr 8) es)
    (hes : Faithful es) (bm₀ : Bytes) :
    ∃ n bm, (∀ fuel, n ≤ fuel → memoryInit fuel S.start L.kernelEnd mem
        MULTIBOOT2_BOOTLOADER_MAGIC addr bm₀ = some (.ok bm)) ∧
      ∀ (m₀ : Machine) (k₀ : Kernel) (cs : List MemoryCall) (s : MemorySystem),
        m₀.pageDirectory = bootDirectory → m₀.mmBitmap = bm →
        k₀.machine = pageSetupImage L S m₀ → k₀.processList = [] →
        Run (GuardedCall L) ⟨k₀, []⟩ cs s → ∀ f < 2 ^ 20, s.Circulates f →
          (∃ e ∈ es, e.Available ∧ e.Holds f) ∧ ¬ KernelPage S.start L.kernelEnd f := by
  have hstart : S.start < L.kernelEnd := by
    have hpage := S.kernelPage_mem
    have hend := L.kernelPage_mem
    have htext := S.start_le
    have hord := S.ordered
    omega
  obtain ⟨n, bm, hinit, hfree⟩ := memoryInit_spec L hstart haddr hinfo bm₀
  refine ⟨n, bm, hinit, fun m₀ k₀ cs s hboot hbm hk hlist hrun f hf hs => ?_⟩
  obtain ⟨bm', table, hsetup, hreserved, -⟩ := pageSetupImage_eq S m₀
  rw [hsetup] at hk
  have hup : SetUp L k₀.machine := hk ▸ setUp_pageSetup L table bm' hboot
  have hok : MemoryOk L ⟨k₀, []⟩ := .start hup hlist
  have hin := start_circulates hup hlist (hok.run_circulates hrun hs)
  have hbitmap : k₀.machine.mmBitmap = bm' := congrArg Machine.mmBitmap hk
  rw [hbitmap, hreserved, hbm, Bool.and_eq_true] at hin
  obtain ⟨hmarked, hkernel⟩ := (hfree f hf).mp hin.1
  exact ⟨hmarked.held hes, hkernel⟩

end firmware

/-- The entry of the low map marks what it holds. -/
theorem lowMap_faithful : Faithful [⟨0x100000, 0x7EE0000, 1⟩] := by
  intro e he _ q
  rw [List.mem_singleton] at he
  rw [he, overreaches_low (by decide) (by decide) (by decide)]
  dsimp only
  omega

/-- The machine of the boot code, and the kernel that is set up on it. -/
def Machine.booted (bm : Bytes) : Machine := ⟨bm, bootDirectory, fun _ _ => 0⟩

def Kernel.imaged (bm : Bytes) : Kernel :=
  { Kernel.boot with machine := pageSetupImage .sample .sample (.booted bm) }

/-- On a machine with the low map, when the first process has been made, no frame lies outside it. -/
theorem init_memory_from_firmware : ∃ bm s,
    Run (GuardedCall .sample) ⟨.imaged bm, []⟩ [.iniKern 0x1000 4096] s ∧
      ∀ f < 2 ^ 20, s.Circulates f → 0x100000 ≤ f * 4096 ∧ f * 4096 + 4096 ≤ 0x7FE0000 := by
  obtain ⟨n, bm, -, hall⟩ := memory_from_firmware .sample .sample (by decide) lowMap_info
    lowMap_faithful fun _ => 0
  have hfresh : FreshRecord (.imaged bm) := freshRecord_of rfl List.not_mem_nil
  have hcode : CodeBelowStack 0x1000 4096 := by
    unfold CodeBelowStack
    decide +kernel
  have hrun : Run (GuardedCall .sample) ⟨.imaged bm, []⟩ [.iniKern 0x1000 4096]
      ⟨(processIniKern .sample 0x1000 4096 (.imaged bm)).2, []⟩ := .single ⟨⟨hfresh, rfl⟩, hcode⟩
  refine ⟨bm, _, hrun, fun f hf hs => ?_⟩
  obtain ⟨⟨e, he, -, hholds⟩, -⟩ := hall (.booted bm) (.imaged bm) _ _ rfl rfl rfl rfl hrun f hf hs
  rw [List.mem_singleton] at he
  rw [he] at hholds
  exact hholds

end Moonlight
