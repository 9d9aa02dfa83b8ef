import MoonlightKernel.Lib.Run
import MoonlightKernel.Process.Isolation
import MoonlightKernel.Process.Switch

/-!
# Runs of the memory system

* `MemoryCall`, `memoryStep` — the calls that take, use or give back frames;
* `pageStep_trades` — a call of the kernel's own parts, `memoryStep_trades` — a call for a process;
* `MemoryOk.step`, `memoryStep_untouched` — one call;
* `memory_isolated`, `memory_persists` — every run from the boot of the kernel.
-/

set_option autoImplicit false

namespace Moonlight

open Sys Sys.Bitmap

/-- A call that concerns memory: one of the kernel's own parts, one for a process, or a process that
writes to its frames. -/
inductive MemoryCall where
  | page (op : PageOp)
  | iniKern (vAddr size : Nat)
  | fork (swap swap2 p : Nat)
  | dup (swap swap2 p : Nat)
  | mmap (p addr size prot flags : Nat) (fd : Int) (offset : Nat)
  | munmap (p addr size flags : Nat)
  | switch (p add : Nat)
  | exit (p status : Nat)
  | addSignal (sig : Int) (p type : Nat)
  | sendSignal (p : Nat)
  | waitpid (p : Nat) (pid : Int) (option : Nat)
  | select (fuel : Nat)
  | store (p : Nat)

/-- One call.  The record of a new process is not that of a process in the list, and a process that
has ended makes no call. -/
def memoryStep (L : Layout) (s : MemorySystem) : MemoryCall → MemorySystem → Prop
  | .page op, t => pageStep L ⟨s.kernel.machine, s.blocks⟩ op ⟨t.kernel.machine, t.blocks⟩ ∧
      t.kernel = s.kernel.setMachine t.kernel.machine
  | .iniKern v n, t => FreshRecord s.kernel ∧ t = ⟨(processIniKern L v n s.kernel).2, s.blocks⟩
  | .fork s₁ s₂ p, t => HasMemory s.kernel p ∧ FreshRecord s.kernel ∧
      t = ⟨(Moonlight.fork L s₁ s₂ p s.kernel).2, s.blocks⟩
  | .dup s₁ s₂ p, t => HasMemory s.kernel p ∧ FreshRecord s.kernel ∧
      t = ⟨(processDup L s₁ s₂ p s.kernel).2, s.blocks⟩
  | .mmap p a n prot flags fd off, t => HasMemory s.kernel p ∧ a < 2 ^ 32 ∧ n < 2 ^ 32 ∧
      ∃ r, Moonlight.mmap L p a n prot flags fd off s.kernel = some (r, t.kernel) ∧
        t.blocks = s.blocks
  | .munmap p a n flags, t => HasMemory s.kernel p ∧ a < 2 ^ 32 ∧ n < 2 ^ 32 ∧
      ∃ r, Moonlight.munmap L p a n flags s.kernel = some (r, t.kernel) ∧ t.blocks = s.blocks
  | .switch p add, t => HasMemory s.kernel p ∧
      t = ⟨(processMemorySwitch L (some p) add s.kernel).2, s.blocks⟩
  | .exit p status, t => HasMemory s.kernel p ∧ t = ⟨Moonlight.exit L p status s.kernel, s.blocks⟩
  | .addSignal sig p type, t => t = ⟨(Moonlight.addSignal sig (some p) type s.kernel).2, s.blocks⟩
  | .sendSignal p, t => p ∈ s.kernel.processList ∧
      Moonlight.sendSignal L p s.kernel = some t.kernel ∧ t.blocks = s.blocks
  | .waitpid p pid option, t => HasMemory s.kernel p ∧
      t = ⟨(processWaitpid p pid option s.kernel).2, s.blocks⟩
  | .select fuel, t => ∃ sel, switchProcess fuel s.kernel = some (sel, t.kernel) ∧
      t.blocks = s.blocks
  | .store p, t => HasMemory s.kernel p ∧ ∃ m',
      AgreeOff (HasFrame (s.kernel.proc p).maps) s.kernel.machine m' ∧
        t = ⟨s.kernel.setMachine m', s.blocks⟩

/-- The calls that keep to the part of each function that works: no present word is left in the
directory, code ends below the stack, the stack of a copy is mapped, no map is asked for in kernel
space, and a hole has as many pages before it as behind it. -/
def MemoryGuard (s : MemorySystem) : MemoryCall → Prop
  | .page op => NotPresentFlag op
  | .iniKern v n => CodeBelowStack v n
  | .fork s₁ s₂ _ => Covered s.kernel.machine s₁ ∧ Covered s.kernel.machine s₂
  | .dup s₁ s₂ _ => Covered s.kernel.machine s₁ ∧ Covered s.kernel.machine s₂
  | .mmap _ _ _ _ flags _ _ => flags &&& MAP_KERNEL_SPACE = 0
  | .munmap p a n _ => SplitsEvenly (s.kernel.proc p) a n
  | _ => True

/-- The process whose own memory the call may change. -/
def MemoryCall.changes : MemoryCall → Option Nat
  | .mmap p _ _ _ _ _ _ => some p
  | .munmap p _ _ _ => some p
  | .exit p _ => some p
  | .sendSignal p => some p
  | .store p => some p
  | _ => none

section step

variable {L : Layout} {s t : MemorySystem} {k' : Kernel} {p q : Nat}

/-! ## Calls of the kernel's own parts -/

/-- A call of the kernel's own parts takes frames that were available, gives back its own, and writes
to no other. -/
structure KernelTrade (L : Layout) (s t : PageSystem) : Prop where
  took : ∀ f, (∃ b ∈ t.live, InBlock b f) → (∃ b ∈ s.live, InBlock b f) ∨ Avail s.machine f
  gave : ∀ f, Avail t.machine f → Avail s.machine f ∨ ∃ b ∈ s.live, InBlock b f
  ram : ∀ f, f ≠ L.kernelFrame → ¬ Avail s.machine f → (∀ b ∈ s.live, ¬ InBlock b f) →
    t.machine.ram f = s.machine.ram f

theorem Moved.kernelTrade {s t : PageSystem} (h : Moved L s.machine t.machine)
    (hlive : t.live = s.live) : KernelTrade L s t :=
  ⟨fun _ hf => .inl (hlive ▸ hf), fun f hf => .inl ((h.avail f).mp hf),
    fun f hk hf _ => h.ram f hk hf⟩

theorem pageStep_trades {s t : PageSystem} {op : PageOp} (h : LedgerInv L s)
    (hs : pageStep L s op t) (hop : NotPresentFlag op) : KernelTrade L s t := by
  cases op with
  | map pa va flag =>
    obtain ⟨-, hpa, hva, hmach, hlive⟩ := hs
    exact Moved.kernelTrade (hmach ▸ moved_pageMap h.paging hva.pageDir hpa) hlive
  | unmap va flag =>
    obtain ⟨hva, hmach, hlive⟩ := hs
    exact Moved.kernelTrade (hmach ▸ moved_pageUnmap h.paging hva.pageDir hop) hlive
  | phys op =>
    obtain ⟨tm, tl⟩ := t
    obtain ⟨hphys, hmach⟩ := hs
    have hram : ∀ f, tm.ram f = s.machine.ram f := fun f => by
      dsimp only at hmach
      rw [hmach]
      rfl
    cases op with
    | get n =>
      obtain ⟨-, hbm, hlive⟩ := hphys
      dsimp only at hbm hlive hmach
      rcases getPhysBlock_spec n s.machine.mmBitmap with hg | ⟨a, hg, hlo, hhi, hfree⟩
      · rw [hg] at hbm hlive
        rw [if_pos rfl] at hlive
        subst hlive
        rw [hbm] at hmach
        rw [hmach]
        exact ⟨fun f hf => .inl hf, fun f hf => .inl hf, fun f _ _ _ => rfl⟩
      · rw [hg] at hbm hlive
        dsimp only at hbm
        rw [if_neg (by dsimp only; omega)] at hlive
        rw [hbm] at hmach
        have htaken := Avail.taken_run h.paging hfree
        subst hmach hlive
        refine ⟨fun f => ?_, fun f hf => .inl ((htaken f).mp hf).1, fun f _ _ _ => rfl⟩
        rintro ⟨b, hb, hf⟩
        rcases List.mem_cons.mp hb with rfl | hb
        · refine .inr (.inl ?_)
          unfold InBlock at hf
          rw [Nat.mul_div_cancel _ (by decide)] at hf
          exact hfree f hf.1 hf.2
        · exact .inl ⟨b, hb, hf⟩
    | free a n =>
      obtain ⟨hmem, hbm, hlive⟩ := hphys
      dsimp only at hmem hbm hlive hmach
      have hset : ∀ f, isFree (freePhysBlock a n s.machine.mmBitmap) f = true ↔
          isFree s.machine.mmBitmap f = true ∨ InBlock (a, n) f := fun f => by
        rw [isFree_freePhysBlock (h.inRange _ hmem), Bool.or_eq_true, decide_eq_true_eq]
        rfl
      rw [hbm] at hmach
      have hback := Avail.released (m := s.machine) hset
      subst hmach hlive
      refine ⟨fun f => ?_, fun f hf => ((hback f).mp hf).imp_right fun hin => ⟨_, hmem, hin⟩,
        fun f _ _ _ => rfl⟩
      rintro ⟨b, hb, hf⟩
      exact .inl ⟨b, List.mem_of_mem_erase hb, hf⟩
  | use =>
    obtain ⟨tm, tl⟩ := t
    obtain ⟨hram, hmach, hlive⟩ := hs
    dsimp only at hram hmach hlive
    have havail : ∀ f, Avail tm f ↔ Avail s.machine f := fun f => by
      rw [hmach]
      exact avail_congr rfl rfl f
    subst hlive
    exact ⟨fun f hf => .inl hf, fun f hf => .inl ((havail f).mp hf), fun f _ _ hf => hram f hf⟩

theorem sameMemory_setMachine (k : Kernel) (m : Machine) : SameMemory k (k.setMachine m) :=
  sameMemory_of_proc rfl rfl

/-- What a call `c` must keep: the account, the memory of everybody that it does not concern, and the
frames that there are. -/
structure Respects (L : Layout) (s : MemorySystem) (c : MemoryCall) (t : MemorySystem) : Prop where
  ok : MemoryOk L t
  others : ∀ q, HasMemory s.kernel q → c.changes ≠ some q → Untouched s.kernel t.kernel q
  circulates : ∀ f, t.Circulates f → s.Circulates f

/-- The maps of every process are those of before, and so is what they show. -/
theorem MemoryOk.page {op : PageOp} (h : MemoryOk L s) (hs : memoryStep L s (.page op) t)
    (hop : NotPresentFlag op) : Respects L s (.page op) t := by
  obtain ⟨hstep, hkernel⟩ := hs
  have hledger := h.ledger.step hstep hop
  have htrade := pageStep_trades h.ledger hstep hop
  have hsame : SameMemory s.kernel t.kernel := by
    rw [hkernel]
    exact sameMemory_setMachine _ _
  have hprocs : ∀ o f, o ≠ .kernel → t.Has o f → s.Has o f := by
    intro o f ho hf
    cases o with
    | kernel => exact absurd rfl ho
    | process q =>
      have hold := (hsame.hasMemory q).mp hf.1
      exact ⟨hold, by rw [← hsame.maps q hold]; exact hf.2⟩
  refine ⟨⟨hledger, ?_, fun q hq => ?_⟩, fun q hq _ => ⟨(hsame.hasMemory q).mpr hq, hsame.maps q hq,
    fun f hf => ?_⟩, fun f hf => hf.exchange .kernel hprocs htrade.took htrade.gave⟩
  · refine h.exclusive.exchange .kernel hprocs htrade.took htrade.gave ?_
    rintro f ⟨b, hb, hf⟩
    exact hledger.owned b hb f hf
  · have hold := (hsame.hasMemory q).mp hq
    rw [hsame.maps q hold]
    exact h.maps q hold
  · refine htrade.ram f ((h.maps q hq).image f hf) (h.notAvail hq hf) fun b hb hin => ?_
    exact h.notBlock hq hf ⟨b, hb, hin⟩

/-! ## Calls for processes -/

/-- **`exit`.** -/
theorem exit_trades (h : MemoryOk L s) (hp : HasMemory s.kernel p) (status : Nat) :
    Trades L p s.kernel (exit L p status s.kernel) := by
  have hstore : SameMemory s.kernel
      (s.kernel.modify p (Process.setEndValue (WAIT_EXITCODE (status % 256) 0))) :=
    sameMemory_modify _ p rfl
  exact .after_stores hstore rfl
    (processDie_trades (h.stores hstore rfl) ((hstore.hasMemory p).mpr hp))

/-- **`add_signal`** queues an entry. -/
theorem addSignal_memory (sig : Int) (p type : Nat) (k : Kernel) :
    SameMemory k (addSignal sig (some p) type k).2 :=
  .of_same (addSignal_same (v := Process.body) (fun _ _ _ => rfl) sig (some p) type k)

/-- **`switch_process`** chooses who runs next. -/
theorem switchProcess_memory {fuel : Nat} {sel : Selection} {k k' : Kernel}
    (h : switchProcess fuel k = some (sel, k')) : SameMemory k k' ∧ k'.machine = k.machine := by
  obtain ⟨end', -, hend⟩ := Option.map_eq_some_iff.mp h
  cases end' with
  | task p =>
    cases hend
    exact ⟨sameMemory_of_proc rfl rfl, rfl⟩
  | idle =>
    cases hend
    exact ⟨sameMemory_of_proc rfl rfl, rfl⟩
  | noMoreTask =>
    cases hend
    exact ⟨sameMemory_of_proc rfl rfl, rfl⟩

/-- A process that has memory writes to its frames. -/
theorem MemoryOk.store {m' : Machine} (h : MemoryOk L s) (hp : HasMemory s.kernel p)
    (hm : AgreeOff (HasFrame (s.kernel.proc p).maps) s.kernel.machine m') :
    Respects L s (.store p) ⟨s.kernel.setMachine m', s.blocks⟩ := by
  have havail : ∀ f, Avail m' f ↔ Avail s.kernel.machine f := avail_congr hm.dir hm.bitmap
  have hledger : LedgerInv L ⟨m', s.blocks⟩ :=
    ⟨h.ledger.paging.congr hm.dir hm.bitmap, plain_congr hm.dir h.ledger.plain,
      (hasTable_congr (congrFun hm.dir _)).mpr h.ledger.kernel, h.ledger.inRange,
      fun b hb f hf ha => h.ledger.owned b hb f hf ((havail f).mp ha), h.ledger.disjoint⟩
  refine ⟨⟨hledger, ⟨fun {o f} ho ha => ?_, fun ho ho' => h.exclusive.sole ho ho'⟩, h.maps⟩,
    fun q hq hne => ⟨hq, rfl, fun f hf => hm.ram f fun hfp => hne ?_⟩,
    fun f hf => hf.imp_left (havail f).mp⟩
  · exact h.exclusive.taken ho ((havail f).mp ha)
  · exact congrArg some (h.sole hp hq hfp hf)

/-! ## One step -/

/-- A call that trades for a process `p` of its own, or for one that has no memory yet. -/
theorem Trades.respects {c : MemoryCall} (h : MemoryOk L s) (ht : Trades L p s.kernel t.kernel)
    (hblocks : t.blocks = s.blocks) (hp : HasMemory s.kernel p → c.changes = some p) :
    Respects L s c t :=
  ⟨h.trades ht hblocks, fun _ hq hno => ht.untouched h hq fun he => hno (he ▸ hp (he ▸ hq)),
    fun _ hf => ht.circulates hblocks hf⟩

theorem Creates.respects {c : MemoryCall} (h : MemoryOk L s) (hc : Creates L s.kernel t.kernel)
    (hblocks : t.blocks = s.blocks) : Respects L s c t := by
  obtain ⟨a, hno, ht⟩ := hc
  exact ht.respects h hblocks fun ha => absurd ha hno

/-- A call that concerns no memory. -/
theorem SameMemory.respects {c : MemoryCall} (h : MemoryOk L s)
    (hsame : SameMemory s.kernel t.kernel) (hblocks : t.blocks = s.blocks)
    (ht : Traded L NoFrame NoFrame s.kernel.machine t.kernel.machine) : Respects L s c t := by
  obtain ⟨a, ha⟩ := Infinite.exists_notMem_finset s.kernel.processList.toFinset
  exact (Trades.nobody h hsame ht a).respects h hblocks fun hm => absurd (List.mem_toFinset.mpr hm.1) ha

/-- **Every call keeps the account of the frames, and the memory of the processes it does not
concern.** -/
theorem memoryStep_respects {c : MemoryCall} (h : MemoryOk L s) (hs : memoryStep L s c t)
    (hg : MemoryGuard s c) : Respects L s c t := by
  have hidle : ∀ {k : Kernel}, k.machine = s.kernel.machine →
      Traded L NoFrame NoFrame s.kernel.machine k.machine := fun hmach => by
    rw [hmach]
    exact .refl h.ledger.paging
  cases c with
  | page op =>
    exact h.page hs hg
  | iniKern v n =>
    obtain ⟨hfresh, rfl⟩ := hs
    exact (processIniKern_creates h hfresh hg).respects h rfl
  | fork s₁ s₂ p =>
    obtain ⟨hp, hfresh, rfl⟩ := hs
    exact (fork_creates h hp hfresh hg.1 hg.2).respects h rfl
  | dup s₁ s₂ p =>
    obtain ⟨hp, hfresh, rfl⟩ := hs
    exact (processDup_creates h hp hfresh hg.1 hg.2).respects h rfl
  | mmap p a n prot flags fd off =>
    obtain ⟨hp, ha, hn, r, hr, hblocks⟩ := hs
    exact (mmap_trades h hp ha hn hg hr).respects h hblocks fun _ => rfl
  | munmap p a n flags =>
    obtain ⟨hp, ha, hn, r, hr, hblocks⟩ := hs
    exact (munmap_trades h hp ha hn hg hr).respects h hblocks fun _ => rfl
  | switch p add =>
    obtain ⟨hp, rfl⟩ := hs
    rw [processMemorySwitch_eq]
    exact SameMemory.respects h (sameMemory_setMachine _ _) rfl
      (switchMaps_traded add h.ledger.paging fun pm hpm => ((h.maps p hp).user pm hpm).user)
  | exit p status =>
    obtain ⟨hp, rfl⟩ := hs
    exact (exit_trades h hp status).respects h rfl fun _ => rfl
  | addSignal sig p type =>
    cases hs
    exact (addSignal_memory sig p type s.kernel).respects h rfl
      (hidle (addSignal_machine sig (some p) type s.kernel))
  | sendSignal p =>
    obtain ⟨hp, hr, hblocks⟩ := hs
    exact (sendSignal_trades h hp hr).respects h hblocks fun _ => rfl
  | waitpid p pid option =>
    obtain ⟨hp, rfl⟩ := hs
    obtain ⟨hsame, hmach⟩ := processWaitpid_memory hp.2 pid option
    exact hsame.respects h rfl (hidle hmach)
  | select fuel =>
    obtain ⟨sel, hsel, hblocks⟩ := hs
    obtain ⟨hsame, hmach⟩ := switchProcess_memory hsel
    exact hsame.respects h hblocks (hidle hmach)
  | store p =>
    obtain ⟨hp, m', hm, rfl⟩ := hs
    exact h.store hp hm

end step

/-! ## Runs -/

section run

variable {L : Layout} {s t : MemorySystem}

/-- A step within the guard. -/
def GuardedCall (L : Layout) (s : MemorySystem) (c : MemoryCall) (t : MemorySystem) : Prop :=
  memoryStep L s c t ∧ MemoryGuard s c

/-- The machine has been set up, and no process exists. -/
theorem MemoryOk.start {k : Kernel} (hk : SetUp L k.machine) (hlist : k.processList = []) :
    MemoryOk L ⟨k, []⟩ := by
  have hno : ∀ q, ¬ HasMemory k q := fun q hq => by
    have hin := hq.1
    rw [hlist] at hin
    exact List.not_mem_nil hin
  refine ⟨.start hk, .nobody fun o f hf => ?_, fun q hq => absurd hq (hno q)⟩
  cases o with
  | kernel =>
    obtain ⟨b, hb, -⟩ := hf
    exact List.not_mem_nil hb
  | process q => exact hno q hf.1

theorem MemoryOk.run {cs : List MemoryCall} (h : MemoryOk L s)
    (hrun : Run (GuardedCall L) s cs t) : MemoryOk L t :=
  hrun.invariant (MemoryOk L) (fun _ _ _ hs hstep => (memoryStep_respects hs hstep.1 hstep.2).ok) h

/-- No frame comes into a run. -/
theorem MemoryOk.run_circulates {cs : List MemoryCall} (h : MemoryOk L s)
    (hrun : Run (GuardedCall L) s cs t) {f : Nat} (hf : t.Circulates f) : s.Circulates f := by
  induction hrun with
  | nil s => exact hf
  | cons hstep _ ih =>
    have hkept := memoryStep_respects h hstep.1 hstep.2
    exact hkept.circulates f (ih hkept.ok hf)

/-- The frame `f` has no use but its own: it is not free, holds no page table, is not that of
`kernel_page` and is in no block of the kernel's. -/
structure OwnFrame (L : Layout) (s : MemorySystem) (f : Nat) : Prop where
  allocated : isFree s.kernel.machine.mmBitmap f = false
  noTable : ¬ IsTableFrame s.kernel.machine f
  noImage : f ≠ L.kernelFrame
  noBlock : ∀ b ∈ s.blocks, ¬ InBlock b f

theorem MemoryOk.ownFrame {p v f : Nat} (h : MemoryOk L s) (hp : HasMemory s.kernel p)
    (hf : Backs (s.kernel.proc p).maps v f) : OwnFrame L s f := by
  have hhas := backs_iff_hasFrame.mp ⟨v, hf⟩
  have hno := h.notAvail hp hhas
  refine ⟨?_, fun ht => hno (.inr ht), (h.maps p hp).image f hhas, fun b hb hin => ?_⟩
  · rw [← Bool.not_eq_true]
    exact fun hfree => hno (.inl hfree)
  · exact h.notBlock hp hhas ⟨b, hb, hin⟩

/-- Within one process a page has one frame, and a frame one page. -/
theorem MapsOk.page_eq_iff {maps : List MapMemory} (h : MapsOk maps) {v w f g : Nat}
    (hf : Backs maps v f) (hg : Backs maps w g) : v = w ↔ f = g := by
  obtain ⟨pm, hpm, i, hi, rfl, rfl⟩ := hf
  obtain ⟨pm', hpm', j, hj, rfl, rfl⟩ := hg
  by_cases hsame : pm = pm'
  · subst hsame
    unfold MapMemory.page MapMemory.frame
    omega
  · have hsymm : Std.Symm MapMemory.Apart := ⟨fun _ _ => MapMemory.Apart.symm⟩
    have hapart := h.apart.forall hpm hpm' hsame i j hi hj
    exact iff_of_false hapart.1 hapart.2

theorem MapsOk.disjoint {maps : List MapMemory} (h : MapsOk maps) :
    maps.Pairwise MapMemory.Disjoint := by
  refine h.apart.imp_of_mem fun {b c} hb hc hapart v hv hv' => ?_
  have hb := (h.ok b hb).vAligned
  have hc := (h.ok c hc).vAligned
  unfold MapMemory.Covers at hv hv'
  refine (hapart ((v - b.vAddr) / 4096) ((v - c.vAddr) / 4096) (by omega) (by omega)).1 ?_
  unfold MapMemory.page
  omega

/-- **Processes do not share memory.**  In every state that the calls reach from a kernel that has
just been set up, a frame stands behind one page of one process, and has no other use. -/
theorem memory_isolated (L : Layout) (kernelPage : Nat → Nat) (bm : Bytes) (m₀ : Machine)
    (hboot : m₀.pageDirectory = bootDirectory) (k₀ : Kernel)
    (hk : k₀.machine = pageSetup L kernelPage bm m₀) (hlist : k₀.processList = [])
    (cs : List MemoryCall) (s : MemorySystem) (hrun : Run (GuardedCall L) ⟨k₀, []⟩ cs s) :
    (∀ p q v w f, HasMemory s.kernel p → HasMemory s.kernel q →
      Backs (s.kernel.proc p).maps v f → Backs (s.kernel.proc q).maps w f → p = q ∧ v = w) ∧
    ∀ p v f, HasMemory s.kernel p → Backs (s.kernel.proc p).maps v f → OwnFrame L s f := by
  have hstart : MemoryOk L ⟨k₀, []⟩ :=
    .start (hk ▸ setUp_pageSetup L kernelPage bm hboot) hlist
  have hok := hstart.run hrun
  refine ⟨fun p q v w f hp hq hv hw => ?_, fun p v f hp hf => hok.ownFrame hp hf⟩
  obtain rfl := hok.sole hp hq (backs_iff_hasFrame.mp ⟨v, hv⟩) (backs_iff_hasFrame.mp ⟨w, hw⟩)
  exact ⟨rfl, ((hok.maps p hp).ok.page_eq_iff hv hw).mpr rfl⟩

/-- The machine of a kernel before its first process is one that has been set up. -/
theorem boot_setUp : Kernel.boot.machine = pageSetup .sample (fun _ => 0) (fun _ => 0xFF)
    ⟨fun _ => 0xFF, bootDirectory, fun _ _ => 0⟩ := by
  have hdir : (fun d => if d = 768 then 0x110001 else 0) = Function.update
      (Function.update bootDirectory 0 0) (KERNEL_POS >>> 22)
      (KERNEL_GET_REAL Layout.sample.kernelPage ||| PAGE_PRESENT) := by
    funext d
    by_cases hk : d = KERNEL_POS >>> 22
    · rw [hk]
      decide
    · have h768 : d ≠ 768 := hk
      rw [if_neg h768, Function.update_of_ne hk]
      by_cases h0 : d = 0
      · rw [h0]
        rfl
      · rw [Function.update_of_ne h0, bootDirectory, if_neg (not_or.mpr ⟨h0, hk⟩)]
  have hram : (fun f j => if f = Layout.sample.kernelFrame then 0 else (fun _ _ => 0) f j) =
      (fun _ _ => 0 : Nat → Nat → Nat) := by
    funext f j
    exact ite_self 0
  unfold Kernel.boot pageSetup Machine.setDir Machine.writeFrame Machine.setBitmap
  dsimp only
  rw [hdir, hram]

/-- The code of a process begins with the first frame of its map. -/
theorem Process.code_backs {pr : Process} {v : Nat} (hv : pr.mmCode.vAddr = v)
    (hn : 0 < pr.mmCode.size) : Backs pr.maps v (pr.mmCode.frame 0) := by
  refine ⟨pr.mmCode, List.mem_append_right _ (List.mem_singleton_self _), 0, hn, ?_, rfl⟩
  rw [← hv]
  rfl

/-- `init` is created and forks. -/
theorem family_memory_run : Run (GuardedCall .sample) ⟨.boot, []⟩
    [.iniKern 0x1000 4096, .fork 0xBFFFE100 0xBFFFD100 100] ⟨.family, []⟩ := by
  have hchild : FreshRecord (processIniKern .sample 0x1000 4096 .boot).2 :=
    freshRecord_of (a := 103) (by decide +kernel) (by decide +kernel)
  refine .cons ⟨⟨freshRecord_of rfl (by decide), rfl⟩, ?_⟩
    (.single ⟨⟨by decide +kernel, hchild, rfl⟩, ?_⟩)
  · show CodeBelowStack 0x1000 4096
    unfold CodeBelowStack
    decide +kernel
  · exact ⟨⟨by decide, by decide +kernel, by decide +kernel⟩,
      ⟨by decide, by decide +kernel, by decide +kernel⟩⟩

/-- The child has the code at the address where its parent has it, on another frame. -/
theorem family_isolated : (∃ f, Backs (Kernel.family.proc 100).maps 0x1000 f) ∧
    (∃ f, Backs (Kernel.family.proc 103).maps 0x1000 f) ∧
    ∀ f, Backs (Kernel.family.proc 100).maps 0x1000 f →
      ¬ Backs (Kernel.family.proc 103).maps 0x1000 f := by
  refine ⟨⟨_, Process.code_backs (by decide +kernel) (by decide +kernel)⟩,
    ⟨_, Process.code_backs (by decide +kernel) (by decide +kernel)⟩, fun f hp hq => ?_⟩
  have hone := (memory_isolated .sample _ _ _ rfl .boot boot_setUp rfl _ _ family_memory_run).1
    100 103 0x1000 0x1000 f (by decide +kernel) (by decide +kernel) hp hq
  exact absurd hone.1 (by decide)

end run

end Moonlight
