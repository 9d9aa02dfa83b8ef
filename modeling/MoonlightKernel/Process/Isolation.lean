import MoonlightKernel.Process.Holdings
import MoonlightKernel.Process.Mmap

/-!
# New processes and new maps

* `fork_creates`, `processDup_creates`, `processIniKern_creates` — a new process gets frames that
  nobody has;
* `mmap_trades`, `munmap_trades` — a process gets more frames, or gives some back.
-/

set_option autoImplicit false

namespace Moonlight

open Sys Sys.Bitmap

/-! ## New processes -/

section create

variable {L : Layout} {s : MemorySystem} {k k' : Kernel} {swap swap2 p a : Nat} {mflags : Nat}

/-- A process that is not in the list yet has a record. -/
theorem sameMemory_newborn (ha : a ∉ k.processList) (f : Process → Process) :
    SameMemory k (k.modify a f) := by
  have hno : ∀ k₁ : Kernel, k₁.processList = k.processList → ¬ HasMemory k₁ a := fun k₁ hl hm => by
    have hin := hm.1
    rw [hl] at hin
    exact ha hin
  refine ⟨fun q => ?_, fun q hq => ?_⟩
  · by_cases hqa : q = a
    · rw [hqa]
      exact iff_of_false (hno _ rfl) (hno _ rfl)
    · unfold HasMemory
      rw [Kernel.modify_processList, Kernel.modify_proc_of_ne _ hqa]
  · have hqa : q ≠ a := fun he => hno k rfl (he ▸ hq)
    rw [Kernel.modify_proc_of_ne _ hqa]

/-- The others have kept what they had, and the list is that of before. -/
theorem sameMemory_of_others (ha : a ∉ k.processList) (hlist : k'.processList = k.processList)
    (hothers : ∀ q, q ≠ a → (k'.proc q).body = (k.proc q).body) : SameMemory k k' := by
  have hne : ∀ {q}, q ∈ k.processList → q ≠ a := fun hq he => ha (he ▸ hq)
  refine ⟨fun q => ?_, fun q hq => Process.maps_of_body (hothers q (hne hq.1))⟩
  unfold HasMemory
  rw [hlist]
  refine and_congr_right fun hq => ?_
  have hstate : (k'.proc q).state = (k.proc q).state := congrArg Prod.fst (hothers q (hne hq))
  rw [hstate]

/-- A record that gets no place in the list is freed. -/
theorem freeProcess_newborn (ha : a ∉ k.processList) :
    SameMemory k (freeProcess a k) ∧ (freeProcess a k).machine = k.machine := by
  have hfree := freeProcess_same (v := Process.body) (fun _ _ => rfl) a k
  refine ⟨sameMemory_of_others ha ?_ fun q _ => hfree.proc q, freeProcess_machine a k⟩
  rw [hfree.list]
  exact List.erase_of_not_mem ha

theorem forall₂_origin {α β : Type*} {R : α → β → Prop} {l : List α} {l' : List β}
    (h : List.Forall₂ R l l') : ∀ d ∈ l', ∃ b ∈ l, R b d := by
  induction h with
  | nil => exact fun d hd => by cases hd
  | @cons a b l l' hab _ ih =>
    refine List.forall_mem_cons.mpr ⟨⟨a, List.mem_cons_self, hab⟩, fun d hd => ?_⟩
    obtain ⟨c, hc, hcd⟩ := ih d hd
    exact ⟨c, List.mem_cons_of_mem _ hc, hcd⟩

theorem forall₂_pairwise {α β : Type*} {R : α → β → Prop} {S : α → α → Prop} {T : β → β → Prop}
    (hST : ∀ a b c d, R a c → R b d → S a b → T c d) {l : List α} {l' : List β}
    (h : List.Forall₂ R l l') (hl : l.Pairwise S) : l'.Pairwise T := by
  induction h with
  | nil => exact .nil
  | cons hab hrest ih =>
    obtain ⟨hhead, htail⟩ := List.pairwise_cons.mp hl
    refine .cons (fun d hd => ?_) (ih htail)
    obtain ⟨b, hb, hbd⟩ := forall₂_origin hrest d hd
    exact hST _ _ _ _ hab hbd (hhead b hb)

theorem MapMemory.Apart.symm {b c : MapMemory} (h : b.Apart c) : c.Apart b :=
  fun i j hi hj => ⟨(h j i hj hi).1.symm, (h j i hj hi).2.symm⟩

/-- The maps of a child are as sound as those of its parent. -/
theorem MemoryCopied.sound {scratch : Nat → Prop} {m m' : Machine} {pr child : Process}
    (h : MemoryCopied scratch m pr child m') (hpr : MapsSound L pr.maps) :
    MapsSound L child.maps := by
  have hc := h.copied
  have hshape := hc.sameShape
  have hperm : child.copies.Perm child.maps := by
    unfold Process.copies Process.maps
    exact ((List.reverse_perm _).append (List.reverse_perm _)).append_right _
  have hshapes : ∀ new ∈ child.maps, ∃ pm ∈ pr.maps, pm.SameShape new := fun new hnew =>
    forall₂_origin hshape new (hperm.mem_iff.mpr hnew)
  have hpages : child.copies.Pairwise fun b c => ∀ i j, i < b.size → j < c.size →
      b.page i ≠ c.page j := by
    refine forall₂_pairwise (fun a b c d hac hbd hab i j hi hj => ?_) hshape hpr.ok.apart
    obtain ⟨hv, -, hs⟩ := hac
    obtain ⟨hv', -, hs'⟩ := hbd
    unfold MapMemory.page
    rw [hv, hv']
    exact (hab i j (by omega) (by omega)).1
  have hapart : child.copies.Pairwise MapMemory.Apart := by
    refine (hpages.and hc.apart).imp fun hboth i j hi hj => ?_
    exact ⟨hboth.1 i j hi hj, hboth.2 i j hi hj⟩
  refine ⟨⟨fun new hnew => ?_, hperm.pairwise hapart MapMemory.Apart.symm⟩, fun new hnew => ?_,
    fun f hf => ?_⟩
  · obtain ⟨pm, hpm, hv, -, hs⟩ := hshapes new hnew
    have hok := hpr.ok.ok pm hpm
    refine ⟨by rw [hv]; exact hok.vAligned, ?_, fun i hi => ?_,
      hc.inRange new (hperm.mem_iff.mpr hnew)⟩
    · exact hc.aligned new (hperm.mem_iff.mpr hnew)
    · unfold MapMemory.page
      rw [hv]
      exact hok.pages i (by omega)
  · obtain ⟨pm, hpm, hv, hfl, hs⟩ := hshapes new hnew
    have huser := hpr.user pm hpm
    exact ⟨by rw [hv, hs]; exact huser.user, by rw [hfl]; exact huser.present,
      by rw [hfl]; exact huser.small⟩
  · have hlo := (hc.fresh (hasFrame_copies.mpr hf)).1
    have hk := L.kernelFrame_lt
    omega

/-- What the kernel copies for a `fork` is held as the copy needs it. -/
theorem MemoryOk.held (h : MemoryOk L s) (hp : HasMemory s.kernel p)
    (hs : Covered s.kernel.machine swap) (hs2 : Covered s.kernel.machine swap2) :
    ∀ pm ∈ (s.kernel.proc p).maps, pm.Held L swap swap2 s.kernel.machine := by
  intro pm hpm
  have hsound := h.maps p hp
  have hok := hsound.ok.ok pm hpm
  refine ⟨hok.pAligned, hok.frames, (hsound.user pm hpm).present, fun i hi => ?_⟩
  have hf : HasFrame (s.kernel.proc p).maps (pm.frame i) := ⟨pm, hpm, i, hi, rfl⟩
  have hno := h.notAvail hp hf
  refine ⟨?_, fun hscratch => ?_⟩
  · rw [← Bool.not_eq_true]
    exact fun hfree => hno (.inl hfree)
  · exact hno (scratch_avail h.ledger.paging hs hs2 hscratch (hsound.image _ hf))

/-- `process_new` with a block at `a`. -/
theorem processNew_memory (hnew : k.kmallocs 0 = some a) (ha : a ∉ k.processList) :
    ∃ k₁, processNew k = (some a, k₁) ∧ SameMemory k k₁ ∧ k₁.machine = k.machine ∧
      k₁.processList = k.processList ∧ ∀ q, q ≠ a → k₁.proc q = k.proc q := by
  have hborn : processNew k = (some a, k.kmalloc.2.modify a fun _ => Process.zero) := by
    unfold processNew Kernel.kmalloc
    rw [hnew]
  refine ⟨_, hborn, (SameMemory.of_same (Same.kmalloc k)).trans
    (sameMemory_newborn (k := k.kmalloc.2) ha _), rfl, rfl,
    fun q hq => ?_⟩
  rw [Kernel.modify_proc_of_ne _ hq, Kernel.kmalloc_proc]

theorem processNew_noRecord (hnew : k.kmallocs 0 = none) : processNew k = (none, k.kmalloc.2) := by
  unfold processNew Kernel.kmalloc
  rw [hnew]

/-- A creation that fails frees the record; frames it has taken are lost. -/
theorem MemoryOk.failed (h : MemoryOk L s) {got : Nat → Prop} (ha : a ∉ s.kernel.processList)
    (hlist : k'.processList = s.kernel.processList)
    (hothers : ∀ q, q ≠ a → (k'.proc q).body = (s.kernel.proc q).body)
    (ht : Traded L got NoFrame s.kernel.machine k'.machine) :
    Trades L a s.kernel (freeProcess a k') := by
  obtain ⟨hfreed, hmach⟩ := freeProcess_newborn (a := a) (k := k') (by rw [hlist]; exact ha)
  rw [← hmach] at ht
  exact .nobody h ((sameMemory_of_others ha hlist hothers).trans hfreed) ht a

/-- A copy that fails loses frames at most; one that succeeds makes a process with memory of its
own. -/
theorem CopyTraded.trades {err : Int} (h : MemoryOk L s) (hp : HasMemory s.kernel p)
    (ha : a ∉ s.kernel.processList) (hc : CopyTraded L p a s.kernel err k') :
    (err < 0 → Trades L a s.kernel (freeProcess a k')) ∧
      (¬ err < 0 → Trades L a s.kernel k') := by
  constructor
  · intro herr
    obtain ⟨hlist, got, htraded⟩ := hc.failed herr
    exact h.failed ha hlist hc.others htraded
  · intro hok
    obtain ⟨hlist, ⟨scratch, m, hcopied⟩, htraded⟩ := hc.ok hok
    have hno : ¬ HasMemory s.kernel a := fun hm => ha hm.1
    refine ⟨⟨_, NoFrame, htraded, fun _ hf => hf.elim, fun f _ hf => .inr hf⟩, ⟨fun q hq => ?_,
      fun q hq _ => Process.maps_of_body (hc.others q hq)⟩, fun _ => hcopied.sound (h.maps p hp)⟩
    have hstate : (k'.proc q).state = (s.kernel.proc q).state := congrArg Prod.fst (hc.others q hq)
    unfold HasMemory
    rw [hlist, hstate, mem_insertAfter hp.1]
    exact and_congr_left fun _ => or_iff_right hq

/-- A call that creates a process trades for that process, or for nobody. -/
def Creates (L : Layout) (k k' : Kernel) : Prop := ∃ a, ¬ HasMemory k a ∧ Trades L a k k'

/-- Without a block for the record nothing happens. -/
theorem creates_noRecord (h : MemoryOk L s) : Creates L s.kernel s.kernel.kmalloc.2 := by
  obtain ⟨a, ha⟩ := Infinite.exists_notMem_finset s.kernel.processList.toFinset
  refine ⟨a, fun hm => ha (List.mem_toFinset.mpr hm.1), ?_⟩
  exact .nobody h (.of_same (Same.kmalloc _)) (.refl h.ledger.paging) a

/-- What `fork` and `process_dup` have in common. -/
theorem copy_creates (h : MemoryOk L s) (hp : HasMemory s.kernel p) (hfresh : FreshRecord s.kernel)
    (hs : Covered s.kernel.machine swap) (hs2 : Covered s.kernel.machine swap2)
    (hnew : s.kernel.kmallocs 0 = some a) :
    ¬ HasMemory s.kernel a ∧ ∃ k₁, processNew s.kernel = (some a, k₁) ∧
      ((copyProcess L swap swap2 p a k₁).1 < 0 →
        Trades L a s.kernel (freeProcess a (copyProcess L swap swap2 p a k₁).2)) ∧
      (¬ (copyProcess L swap swap2 p a k₁).1 < 0 →
        Trades L a s.kernel (copyProcess L swap swap2 p a k₁).2) := by
  have ha := hfresh a hnew
  have hne : p ≠ a := fun he => ha (he ▸ hp.1)
  obtain ⟨k₁, hborn, hsame, hmach, hlist, -⟩ := processNew_memory hnew ha
  have h₁ := h.stores hsame hmach
  have hp₁ := (hsame.hasMemory p).mpr hp
  rw [← hmach] at hs hs2
  have ht := (copyProcess_traded hne h₁.ledger.paging hs hs2 (h₁.held hp₁ hs hs2)).trades h₁ hp₁
    (by rw [hlist]; exact ha)
  exact ⟨fun hm => ha hm.1, k₁, hborn, fun herr => .after_stores hsame hmach (ht.1 herr),
    fun hok => .after_stores hsame hmach (ht.2 hok)⟩

/-- **`fork`.** -/
theorem fork_creates (h : MemoryOk L s) (hp : HasMemory s.kernel p) (hfresh : FreshRecord s.kernel)
    (hs : Covered s.kernel.machine swap) (hs2 : Covered s.kernel.machine swap2) :
    Creates L s.kernel (fork L swap swap2 p s.kernel).2 := by
  unfold fork
  cases hnew : s.kernel.kmallocs 0 with
  | none =>
    rw [processNew_noRecord hnew]
    exact creates_noRecord h
  | some a =>
    obtain ⟨hno, k₁, hborn, hfail, hok⟩ := copy_creates h hp hfresh hs hs2 hnew
    rw [hborn]
    refine ⟨a, hno, ?_⟩
    dsimp only
    split
    · rename_i herr
      exact hfail herr
    · rename_i hdone
      exact (hok hdone).before_stores
        (sameMemory_modify _ a (f := fun pr => { pr with father := some p }) rfl) rfl

/-- **`process_dup`.** -/
theorem processDup_creates (h : MemoryOk L s) (hp : HasMemory s.kernel p)
    (hfresh : FreshRecord s.kernel) (hs : Covered s.kernel.machine swap)
    (hs2 : Covered s.kernel.machine swap2) :
    Creates L s.kernel (processDup L swap swap2 p s.kernel).2 := by
  unfold processDup
  cases hnew : s.kernel.kmallocs 0 with
  | none =>
    rw [processNew_noRecord hnew]
    exact creates_noRecord h
  | some a =>
    obtain ⟨hno, k₁, hborn, hfail, hok⟩ := copy_creates h hp hfresh hs hs2 hnew
    rw [hborn]
    refine ⟨a, hno, ?_⟩
    dsimp only
    split
    · rename_i herr
      exact hfail herr
    · rename_i hdone
      exact hok hdone

/-- `process_new` leaves a process without maps. -/
theorem processNew_zero {k₁ : Kernel} (h : processNew k = (some a, k₁)) :
    k₁.proc a = Process.zero := by
  unfold processNew at h
  split at h
  · cases h
  · cases h
    exact Kernel.modify_proc_self ..

end create

/-! ## New maps -/

section added

variable {L : Layout} {s : MemorySystem} {k k' : Kernel} {p kind : Nat} {pm : MapMemory}
  {maps : List MapMemory}

theorem MapsSound.nil (L : Layout) : MapsSound L [] :=
  ⟨⟨fun _ h => absurd h List.not_mem_nil, .nil⟩, fun _ h => absurd h List.not_mem_nil,
    fun f h => absurd h (hasFrame_nil f)⟩

/-- One more map. -/
theorem MapsSound.cons (h : MapsSound L maps) (hok : pm.Ok) (huser : UserMap pm)
    (hlo : 1272 ≤ pm.pAddr / 4096) (hapart : ∀ q ∈ maps, pm.Apart q) :
    MapsSound L (pm :: maps) := by
  refine ⟨⟨List.forall_mem_cons.mpr ⟨hok, h.ok.ok⟩, .cons hapart h.ok.apart⟩,
    List.forall_mem_cons.mpr ⟨huser, h.user⟩, fun f hf => ?_⟩
  rcases hasFrame_cons.mp hf with ⟨i, -, rfl⟩ | hf
  · have hk := L.kernelFrame_lt
    unfold MapMemory.frame
    omega
  · exact h.image f hf

/-- A map that `process_memory_add` has made. -/
theorem Added.ok (h : Added L p kind pm k k') (hv : pm.vAddr % 4096 = 0) (huser : UserMap pm) :
    pm.Ok :=
  ⟨hv, h.aligned, fun _ hi => huser.pageDir (inPages_page hi), Nat.le_of_lt h.hi⟩

/-- Its frames were available, and are so no longer. -/
theorem Added.frame (h : Added L p kind pm k k') {i : Nat} (hi : i < pm.size) :
    Avail k.machine (pm.frame i) ∧ ¬ Avail k'.machine (pm.frame i) := by
  have hhas : HasFrame [pm] (pm.frame i) := ⟨pm, List.mem_singleton_self pm, i, hi, rfl⟩
  exact ⟨h.traded.fresh _ hhas, fun ha => (h.traded.avail _ ha).2 hhas⟩

theorem pageAddr_aligned (v : Nat) : (v &&& PAGE_ADDR) % 4096 = 0 := by
  rw [show v &&& PAGE_ADDR = PAGE_GET_ADDR v from rfl, PAGE_GET_ADDR_eq]
  exact Nat.mul_mod_left _ 4096

/-- The code of a new process ends below its stack. -/
def CodeBelowStack (vAddr size : Nat) : Prop :=
  (vAddr &&& PAGE_ADDR) + addPages size vAddr * 4096 ≤ KERNEL_POS - 4096

/-- The page of the stack of a new process. -/
theorem stack_page : (KERNEL_POS - 4096) &&& PAGE_ADDR = KERNEL_POS - 4096 ∧
    addPages 4096 (KERNEL_POS - 4096) = 1 := by
  constructor <;> decide +kernel

theorem addFlags_code : AddFlags PROC_MEM_ADD_CODE (PROC_MEM_ADD_IMEDIATE ||| PROC_MEM_ADD_CODE) :=
  ⟨.inr (.inr rfl), .inr (by decide)⟩

theorem addFlags_stack :
    AddFlags PROC_MEM_ADD_STACK (PROC_MEM_ADD_IMEDIATE ||| PROC_MEM_ADD_STACK) :=
  ⟨.inr (.inl rfl), .inr (by decide)⟩

/-- The two maps of a new process. -/
theorem iniKern_maps {a : Nat} {k₁ k₂ : Kernel} {pm₁ pm₂ : MapMemory}
    (hzero : (k.proc a).maps = Process.zero.maps) (h₁ : Added L a PROC_MEM_ADD_CODE pm₁ k k₁)
    (h₂ : Added L a PROC_MEM_ADD_STACK pm₂ k₁ k₂) : (k₂.proc a).maps = [pm₂, pm₁] := by
  obtain ⟨pr₁, hpr₁, hproc₁⟩ := h₁.proc
  obtain ⟨pr₂, hpr₂, hproc₂⟩ := h₂.proc
  have hcode : pr₁ = { k.proc a with mmCode := pm₁ } := (Option.some.inj hpr₁).symm
  have hk₁ : k₁.proc a = pr₁ := by rw [hproc₁, Function.update_self]
  rw [hk₁] at hpr₂
  have hstack : pr₂ = { pr₁ with mmStack := pm₂ :: pr₁.mmStack } := (Option.some.inj hpr₂).symm
  have hempty : (k.proc a).mmHeap ++ (k.proc a).mmStack = [] := by
    have hlen := congrArg List.length hzero
    unfold Process.maps at hlen
    simp only [List.length_append, List.length_singleton, Process.zero, List.length_nil] at hlen
    rw [← List.length_eq_zero_iff, List.length_append]
    omega
  obtain ⟨hheap, hstk⟩ := List.append_eq_nil_iff.mp hempty
  rw [hproc₂, Function.update_self, hstack, hcode]
  show (k.proc a).mmHeap ++ pm₂ :: (k.proc a).mmStack ++ [pm₁] = _
  rw [hheap, hstk]
  rfl

/-- They are sound: the code ends below the stack, and the frames of the stack were available after
the code had its own. -/
theorem iniKern_sound {a f₁ f₂ vAddr size prot : Nat} {k₁ k₂ : Kernel}
    (hcode : CodeBelowStack vAddr size) (hprot : prot &&& PAGE_PRESENT ≠ 0)
    (hsmall : prot &&& PAGE_SIZE = 0)
    (h₁ : Added L a PROC_MEM_ADD_CODE ⟨vAddr &&& PAGE_ADDR, f₁ * 4096, addPages size vAddr, prot⟩ k k₁)
    (h₂ : Added L a PROC_MEM_ADD_STACK ⟨KERNEL_POS - 4096, f₂ * 4096, 1, prot⟩ k₁ k₂) :
    MapsSound L [⟨KERNEL_POS - 4096, f₂ * 4096, 1, prot⟩,
      ⟨vAddr &&& PAGE_ADDR, f₁ * 4096, addPages size vAddr, prot⟩] := by
  have huser₁ : UserMap ⟨vAddr &&& PAGE_ADDR, f₁ * 4096, addPages size vAddr, prot⟩ :=
    ⟨Nat.le_trans hcode (Nat.sub_le _ _), hprot, hsmall⟩
  have htop : KERNEL_POS - 4096 + 1 * 4096 ≤ KERNEL_POS := by decide
  have huser₂ : UserMap ⟨KERNEL_POS - 4096, f₂ * 4096, 1, prot⟩ := ⟨htop, hprot, hsmall⟩
  have haligned : (KERNEL_POS - 4096) % 4096 = 0 := by decide
  have hok₁ := h₁.ok (pageAddr_aligned vAddr) huser₁
  have hok₂ := h₂.ok haligned huser₂
  refine .cons (.cons (.nil L) hok₁ huser₁ h₁.lo fun q hq => absurd hq List.not_mem_nil)
    hok₂ huser₂ h₂.lo ?_
  rw [List.forall_mem_singleton]
  intro i j hi hj
  have hj' : j < addPages size vAddr := hj
  refine ⟨?_, fun he => ?_⟩
  · unfold CodeBelowStack KERNEL_POS at hcode
    unfold MapMemory.page KERNEL_POS
    dsimp only
    omega
  · have hfree := (h₂.frame hi).1
    rw [he] at hfree
    exact (h₁.frame hj).2 hfree

/-- **`process_ini_kern`.** -/
theorem processIniKern_creates {vAddr size : Nat} (h : MemoryOk L s)
    (hfresh : FreshRecord s.kernel) (hcode : CodeBelowStack vAddr size) :
    Creates L s.kernel (processIniKern L vAddr size s.kernel).2 := by
  unfold processIniKern
  cases hnew : s.kernel.kmallocs 0 with
  | none =>
    rw [processNew_noRecord hnew]
    exact creates_noRecord h
  | some a =>
    have ha := hfresh a hnew
    obtain ⟨k₁, hborn, hsame, hmach, hlist, hproc⟩ := processNew_memory hnew ha
    rw [hborn]
    refine ⟨a, fun hm => ha hm.1, ?_⟩
    dsimp only
    have hpid : Same Process.body k₁ (processAllocPid a k₁).2 :=
      processAllocPid_same (fun _ _ => rfl) a k₁
    have hmach₂ : (processAllocPid a k₁).2.machine = s.kernel.machine := hmach
    have hlist₂ : (processAllocPid a k₁).2.processList = s.kernel.processList := hlist
    have hzero : ((processAllocPid a k₁).2.proc a).maps = Process.zero.maps := by
      rw [Process.maps_of_body (hpid.proc a), processNew_zero hborn]
    have hothers : ∀ q, q ≠ a → ((processAllocPid a k₁).2.proc q).body =
        (s.kernel.proc q).body := fun q hq => by rw [hpid.proc, hproc q hq]
    generalize processAllocPid a k₁ = r at hmach₂ hlist₂ hzero hothers
    have hpaging : PagingOk L r.2.machine := by
      rw [hmach₂]
      exact h.ledger.paging
    split
    · have hidle : Traded L NoFrame NoFrame s.kernel.machine r.2.machine := by
        rw [hmach₂]
        exact .refl h.ledger.paging
      exact h.failed ha hlist₂ hothers hidle
    -- the code
    have hprot : (PAGE_PRESENT ||| PAGE_WRITE ||| PAGE_USER_SUPERVISOR) &&& PAGE_PRESENT ≠ 0 := by
      decide
    have hcodeUser : (vAddr &&& PAGE_ADDR) + addPages size vAddr * 4096 ≤ KERNEL_POS :=
      Nat.le_trans hcode (Nat.sub_le _ _)
    have hadd₁ := processMemoryAdd_traded (L := L) (p := a) addFlags_code hprot hcodeUser hpaging
    have hsame₁ := processMemoryAdd_same L a size vAddr
      (PAGE_PRESENT ||| PAGE_WRITE ||| PAGE_USER_SUPERVISOR)
      (PROC_MEM_ADD_IMEDIATE ||| PROC_MEM_ADD_CODE) r.2
    generalize processMemoryAdd L a size vAddr (PAGE_PRESENT ||| PAGE_WRITE ||| PAGE_USER_SUPERVISOR)
      (PROC_MEM_ADD_IMEDIATE ||| PROC_MEM_ADD_CODE) r.2 = r₁ at hadd₁ hsame₁
    have hlist₃ := hsame₁.list.trans hlist₂
    rw [hmach₂] at hadd₁
    rcases hadd₁ with ⟨herr, hp, ht⟩ | ⟨hok, f₁, hadd₁⟩
    · rw [if_pos herr]
      exact h.failed ha hlist₃ (fun q hq => by rw [hp]; exact hothers q hq) ht
    rw [if_neg (not_not.mpr hok)]
    have hothers₁ : ∀ q, q ≠ a → (r₁.2.proc q).body = (s.kernel.proc q).body := fun q hq => by
      obtain ⟨pr, -, hpr⟩ := hadd₁.proc
      rw [hpr, Function.update_of_ne hq]
      exact hothers q hq
    have ht₁ := hadd₁.traded
    rw [hmach₂] at ht₁
    -- the stack
    obtain ⟨haddr, hone⟩ := stack_page
    have hstackUser : ((KERNEL_POS - 4096) &&& PAGE_ADDR) +
        addPages 4096 (KERNEL_POS - 4096) * 4096 ≤ KERNEL_POS := by
      rw [haddr, hone]
      decide
    have hadd₂ := processMemoryAdd_traded (L := L) (p := a) addFlags_stack hprot hstackUser ht₁.paging
    have hsame₂ := processMemoryAdd_same L a 4096 (KERNEL_POS - 4096)
      (PAGE_PRESENT ||| PAGE_WRITE ||| PAGE_USER_SUPERVISOR)
      (PROC_MEM_ADD_IMEDIATE ||| PROC_MEM_ADD_STACK) r₁.2
    generalize processMemoryAdd L a 4096 (KERNEL_POS - 4096)
      (PAGE_PRESENT ||| PAGE_WRITE ||| PAGE_USER_SUPERVISOR)
      (PROC_MEM_ADD_IMEDIATE ||| PROC_MEM_ADD_STACK) r₁.2 = r₂ at hadd₂ hsame₂
    have hlist₄ := hsame₂.list.trans hlist₃
    rcases hadd₂ with ⟨herr, hp, ht⟩ | ⟨hok₂, f₂, hadd₂⟩
    · rw [if_pos herr]
      exact h.failed ha hlist₄ (fun q hq => by rw [hp]; exact hothers₁ q hq)
        (ht₁.trans ht fun _ hf => hf.elim)
    rw [if_neg (not_not.mpr hok₂)]
    have hothers₂ : ∀ q, q ≠ a → (r₂.2.proc q).body = (s.kernel.proc q).body := fun q hq => by
      obtain ⟨pr, -, hpr⟩ := hadd₂.proc
      rw [hpr, Function.update_of_ne hq]
      exact hothers₁ q hq
    have hmaps := iniKern_maps hzero hadd₁ hadd₂
    have hall := ht₁.trans hadd₂.traded fun _ hf => hf.elim
    rw [haddr, hone] at hmaps hall hadd₂
    refine ⟨⟨_, NoFrame, hall, fun _ hf => hf.elim, fun f _ hf => .inr ?_⟩, ⟨fun q hq => ?_,
      fun q hq _ => Process.maps_of_body (hothers₂ q hq)⟩, fun _ => ?_⟩
    · have hf : HasFrame (r₂.2.proc a).maps f := hf
      rw [hmaps, hasFrame_cons] at hf
      rcases hf with ⟨i, hi, he⟩ | hf
      · exact .inr ⟨_, List.mem_singleton_self _, i, hi, he⟩
      · exact .inl hf
    · have hstate : (r₂.2.proc q).state = (s.kernel.proc q).state := congrArg Prod.fst (hothers₂ q hq)
      show q ∈ a :: r₂.2.processList ∧ (r₂.2.proc q).state ≠ .ZOMBIE ↔ _
      unfold HasMemory
      rw [hlist₄, hstate, List.mem_cons]
      exact and_congr_left fun _ => or_iff_right hq
    · show MapsSound L (r₂.2.proc a).maps
      rw [hmaps]
      exact iniKern_sound hcode hprot (by decide) hadd₁ hadd₂

end added

/-! ## `mmap` and `munmap` -/

section maps

variable {L : Layout} {s : MemorySystem} {k' : Kernel} {p addr size prot flags offset : Nat}
  {fd r : Int} {pm : MapMemory}

/-- The processes are those of before, and so are the fields of each. -/
theorem sameMemory_of_proc {k : Kernel} (hproc : k'.proc = k.proc)
    (hlist : k'.processList = k.processList) : SameMemory k k' :=
  .of_same ⟨hlist, fun q => by rw [hproc]⟩

/-- A map has been added to the heap of `p`. -/
theorem Added.trades (h : MemoryOk L s) (hp : HasMemory s.kernel p)
    (hadd : Added L p PROC_MEM_ADD_HEAP pm s.kernel k')
    (hlist : k'.processList = s.kernel.processList) (hv : pm.vAddr % 4096 = 0)
    (huser : UserMap pm) (hdis : ∀ q ∈ (s.kernel.proc p).maps, pm.Disjoint q) :
    Trades L p s.kernel k' := by
  obtain ⟨pr, hpr, hproc⟩ := hadd.proc
  have hheap : pr = { s.kernel.proc p with mmHeap := pm :: (s.kernel.proc p).mmHeap } :=
    (Option.some.inj hpr).symm
  have hself : k'.proc p = { s.kernel.proc p with mmHeap := pm :: (s.kernel.proc p).mmHeap } := by
    rw [hproc, Function.update_self, hheap]
  have hother : ∀ q, q ≠ p → k'.proc q = s.kernel.proc q := fun q hq => by
    rw [hproc, Function.update_of_ne hq]
  have hmaps : (k'.proc p).maps = pm :: (s.kernel.proc p).maps := by
    rw [hself]
    rfl
  refine ⟨⟨_, NoFrame, hadd.traded, fun _ hf => hf.elim, fun f _ hf => ?_⟩,
    ⟨fun q hq => ?_, fun q hq _ => by rw [hother q hq]⟩, fun _ => ?_⟩
  · rw [hmaps, hasFrame_cons] at hf
    rcases hf with ⟨i, hi, he⟩ | hf
    · exact .inr ⟨pm, List.mem_singleton_self pm, i, hi, he⟩
    · exact .inl ⟨hp, hf, not_false⟩
  · unfold HasMemory
    rw [hlist, hother q hq]
  · rw [hmaps]
    refine (h.maps p hp).cons (hadd.ok hv huser) huser hadd.lo fun q hq i j hi hj => ⟨?_, ?_⟩
    · -- a common page would be an address of both
      intro he
      refine hdis q hq (pm.page i) ?_ ?_
      · unfold MapMemory.Covers MapMemory.page
        omega
      · rw [he]
        unfold MapMemory.Covers MapMemory.page
        omega
    · intro he
      have hfree := (hadd.frame hi).1
      rw [he] at hfree
      exact h.notAvail hp ⟨q, hq, j, hj, rfl⟩ hfree

theorem mmapFlags_small (prot : Nat) : mmapFlags prot &&& PAGE_SIZE = 0 := by
  unfold mmapFlags
  dsimp only
  by_cases hr : prot &&& PROT_READ = 0 <;> by_cases hw : prot &&& PROT_WRITE = 0 <;>
    by_cases hx : prot &&& PROT_EXEC = 0 <;> simp [hr, hw, hx] <;> decide

/-- **`mmap`** for a process with memory. -/
theorem mmap_trades (h : MemoryOk L s) (hp : HasMemory s.kernel p) (haddr : addr < 2 ^ 32)
    (hsize : size < 2 ^ 32) (hflags : flags &&& MAP_KERNEL_SPACE = 0)
    (hr : mmap L p addr size prot flags fd offset s.kernel = some (r, k')) :
    Trades L p s.kernel k' := by
  have hid : Trades L p s.kernel s.kernel :=
    .nobody h (.of_same (Same.refl _)) (.refl h.ledger.paging) p
  have hsound := h.maps p hp
  unfold mmap at hr
  rw [and_PAGE_FLAG] at hr
  split at hr
  · cases hr
    exact hid
  rename_i hargs
  dsimp only at hr
  split at hr
  · cases hr
    exact hid
  obtain ⟨hn, -⟩ := mmapGetNumberOfPage_spec hsize
  obtain ⟨c, hc, hfound⟩ := mmapChoose_spec (s.kernel.proc p) haddr (by omega) hn hflags
  rw [hc, Option.map_some, Option.some.injEq] at hr
  rcases hfound with hneg | ⟨v, rfl, -, hmod, -, hhi, hpages⟩
  · rw [if_pos hneg] at hr
    cases hr
    exact hid
  have hhi : v + mmapGetNumberOfPage size * 4096 ≤ KERNEL_POS := by
    unfold KERNEL_POS at hhi ⊢
    omega
  obtain ⟨hlt, -⟩ := user_pages hhi
  obtain ⟨hpage, -⟩ := whole_pages hmod hlt hn
  have hwhole := addPages_whole hmod hlt hn
  have hfl : AddFlags PROC_MEM_ADD_HEAP (if s.kernel.current = some p
      then PROC_MEM_ADD_HEAP ||| PROC_MEM_ADD_IMEDIATE else PROC_MEM_ADD_HEAP) :=
    ⟨.inl rfl, (mmap_pflags (s.kernel.current = some p))⟩
  generalize (if s.kernel.current = some p then PROC_MEM_ADD_HEAP ||| PROC_MEM_ADD_IMEDIATE
    else PROC_MEM_ADD_HEAP) = pflags at hr hfl
  rw [if_neg (by omega), shiftLeft_page, Int.toNat_natCast] at hr
  have hfits : (v &&& PAGE_ADDR) + addPages (mmapGetNumberOfPage size * 4096) v * 4096 ≤
      KERNEL_POS := by
    rw [hpage, hwhole]
    exact hhi
  have hadd := processMemoryAdd_traded (p := p) hfl (mmapFlags_present prot) hfits h.ledger.paging
  have hlist := (processMemoryAdd_same L p (mmapGetNumberOfPage size * 4096) v (mmapFlags prot)
    pflags s.kernel).list
  generalize processMemoryAdd L p (mmapGetNumberOfPage size * 4096) v (mmapFlags prot) pflags
    s.kernel = q at hr hadd hlist
  rcases hadd with ⟨herr, hproc, ht⟩ | ⟨hok, f, hadd⟩
  · rw [if_pos herr] at hr
    rw [hr] at ht hproc hlist
    exact .nobody h (sameMemory_of_proc hproc hlist) ht p
  · rw [if_neg (not_not.mpr hok)] at hr
    cases hr
    rw [hpage, hwhole] at hadd
    refine hadd.trades h hp hlist hmod ⟨hhi, mmapFlags_present prot, mmapFlags_small prot⟩
      fun q hq => ?_
    have hfree : FreePages (s.kernel.proc p) v (mmapGetNumberOfPage size) := hpages
    refine FreePages.disjoint hmod hfree hq fun _ => ?_
    have huser := (hsound.user q hq).user
    unfold KERNEL_POS at huser
    exact ⟨(hsound.ok.ok q hq).vAligned, by omega⟩

/-- The hole that `munmap` is to make has as many pages of its block before it as behind it. -/
def SplitsEvenly (pr : Process) (addr size : Nat) : Prop :=
  ∀ ref, mmapGetBlock pr addr = some ref →
    pagesBefore (pr.map ref) addr = pagesAfter (pr.map ref) addr size

/-- The parts of a block that are left are as sound as the block. -/
theorem holeParts_sound {B q : MapMemory} {b n c : Nat} (hB : B.Ok) (huser : UserMap B)
    (hsum : b + n + c = B.size) (hq : q ∈ holeParts B b n c) :
    q.Ok ∧ UserMap q ∧
      ∀ i < q.size, ∃ j < B.size, q.page i = B.page j ∧ q.frame i = B.frame j := by
  have hv := hB.vAligned
  have hpa := hB.pAligned
  have hfr := hB.frames
  have hsub : ∀ d e, q = { B with vAddr := B.vAddr + d * 4096, pAddr := B.pAddr + d * 4096, size := e } →
      d + e ≤ B.size → q.Ok ∧ UserMap q ∧
        ∀ i < q.size, ∃ j < B.size, q.page i = B.page j ∧ q.frame i = B.frame j := by
    rintro d e rfl hde
    have hpages : ∀ i, i < e → d + i < B.size ∧ B.vAddr + d * 4096 + i * 4096 = B.page (d + i) ∧
        (B.pAddr + d * 4096) / 4096 + i = B.frame (d + i) := fun i hi => by
      unfold MapMemory.page MapMemory.frame
      omega
    refine ⟨⟨?_, ?_, fun i hi => ?_, ?_⟩, ⟨?_, huser.present, huser.small⟩, fun i hi => ?_⟩
    · dsimp only
      omega
    · dsimp only
      omega
    · obtain ⟨hlt, hpage, -⟩ := hpages i hi
      unfold MapMemory.page
      rw [hpage]
      exact hB.pages _ hlt
    · dsimp only
      omega
    · have hend := huser.user
      unfold KERNEL_POS at hend ⊢
      dsimp only
      omega
    · obtain ⟨hlt, hpage, hframe⟩ := hpages i hi
      exact ⟨d + i, hlt, hpage, hframe⟩
  unfold holeParts at hq
  rw [List.mem_append] at hq
  rcases hq with hq | hq
  · split at hq
    · cases hq
    · rw [List.mem_singleton] at hq
      refine hsub 0 b ?_ (by omega)
      rw [hq, Nat.zero_mul]
      rfl
  · split at hq
    · rw [Option.toList_some, List.mem_singleton] at hq
      exact hsub (n + b) c hq (by omega)
    · cases hq

/-- The part before the hole and the part behind it have nothing in common. -/
theorem holeParts_apart {B : MapMemory} {b n c : Nat} (hpa : B.pAddr % 4096 = 0) (hn : 0 < n) :
    (holeParts B b n c).Pairwise MapMemory.Apart := by
  unfold holeParts
  refine List.pairwise_append.mpr ⟨?_, ?_, fun f hf g hg => ?_⟩
  · split
    · exact .nil
    · exact List.pairwise_singleton _ _
  · split
    · exact List.pairwise_singleton _ _
    · exact .nil
  · split at hf
    · cases hf
    split at hg
    · rw [List.mem_singleton] at hf
      rw [Option.toList_some, List.mem_singleton] at hg
      rw [hf, hg]
      intro i j hi hj
      have hi : i < b := hi
      unfold MapMemory.page MapMemory.frame
      dsimp only
      omega
    · cases hg

/-- **A hole leaves sound maps.** -/
theorem MapsSound.hole {pre post : List MapMemory} {B : MapMemory} {b n c : Nat}
    (h : MapsSound L (pre ++ B :: post)) (hsum : b + n + c = B.size) (hn : 0 < n) :
    MapsSound L (pre ++ holeParts B b n c ++ post) := by
  have hmemB : B ∈ pre ++ B :: post := by simp
  have hB := h.ok.ok B hmemB
  have hparts := fun q (hq : q ∈ holeParts B b n c) =>
    holeParts_sound hB (h.user B hmemB) hsum hq
  have hold : ∀ {q}, q ∈ pre ++ holeParts B b n c ++ post →
      q ∈ pre ++ B :: post ∨ q ∈ holeParts B b n c := fun {q} hq => by
    simp only [List.mem_append, List.mem_cons] at hq ⊢
    tauto
  obtain ⟨hpre, hrest, hcross⟩ := List.pairwise_append.mp h.ok.apart
  obtain ⟨hBpost, hpost⟩ := List.pairwise_cons.mp hrest
  -- a part is apart from whatever the block is apart from
  have hpart : ∀ q ∈ holeParts B b n c, ∀ r, B.Apart r → q.Apart r := fun q hq r hr i j hi hj => by
    obtain ⟨m, hm, hpage, hframe⟩ := (hparts q hq).2.2 i hi
    rw [hpage, hframe]
    exact hr m j hm hj
  refine ⟨⟨fun q hq => ?_, ?_⟩, fun q hq => ?_, fun f hf => ?_⟩
  · rcases hold hq with hq | hq
    · exact h.ok.ok q hq
    · exact (hparts q hq).1
  · rw [List.append_assoc]
    refine List.pairwise_append.mpr ⟨hpre, List.pairwise_append.mpr
      ⟨holeParts_apart hB.pAligned hn, hpost, fun q hq r hr => ?_⟩, fun r hr q hq => ?_⟩
    · exact hpart q hq r (hBpost r hr)
    · rcases List.mem_append.mp hq with hq | hq
      · exact (hpart q hq r (hcross r hr B List.mem_cons_self).symm).symm
      · exact hcross r hr q (List.mem_cons_of_mem _ hq)
  · rcases hold hq with hq | hq
    · exact h.user q hq
    · exact (hparts q hq).2.1
  · obtain ⟨q, hq, i, hi, rfl⟩ := hf
    rcases hold hq with hq | hq
    · exact h.image _ ⟨q, hq, i, hi, rfl⟩
    · obtain ⟨j, hj, -, hframe⟩ := (hparts q hq).2.2 i hi
      exact h.image _ ⟨B, hmemB, j, hj, hframe⟩

/-- **`munmap`** that splits its block evenly. -/
theorem munmap_trades (h : MemoryOk L s) (hp : HasMemory s.kernel p) (haddr : addr < 2 ^ 32)
    (hsize : size < 2 ^ 32) (heven : SplitsEvenly (s.kernel.proc p) addr size)
    (hr : munmap L p addr size flags s.kernel = some (r, k')) : Trades L p s.kernel k' := by
  have hid : Trades L p s.kernel s.kernel :=
    .nobody h (.of_same (Same.refl _)) (.refl h.ledger.paging) p
  have hsound := h.maps p hp
  have hwhole := hr
  unfold munmap at hr
  split at hr
  · cases hr
    exact hid
  rename_i h1
  split at hr
  · cases hr
    exact hid
  rename_i h2
  cases href : mmapGetBlock (s.kernel.proc p) addr with
  | none =>
    rw [href] at hr
    cases hr
    exact hid
  | some ref =>
    obtain ⟨hpos, hal, hN⟩ := munmap_range haddr hsize h1 h2
    obtain ⟨hmem, hcont⟩ := mmapGetBlock_map href
    have hhole := holeIn_of_contains hal hpos hcont
    have hB := hsound.ok.ok _ hmem
    have hev := heven ref href
    rw [href, hN] at hr
    obtain ⟨hlist, hother, hcases⟩ := munmapBlock_traded hB rfl haddr hhole h.ledger.paging hr
    rcases hcases with ⟨-, hproc, ht⟩ | ⟨rfl, newMap, hnone, hpunch⟩
    · exact .nobody h (sameMemory_of_proc hproc hlist) ht p
    have hcode : ref ≠ .code := by
      -- the code is in no list: only its end could be cut off
      rintro rfl
      unfold Process.punch at hpunch
      dsimp only at hpunch
      split at hpunch
      · rename_i hc
        rw [Option.isNone_iff_eq_none, hnone] at hc
        exact hc.2 (hev.trans hc.1)
      · cases hpunch
    have hdone := munmap_ok hsound.ok haddr hsize href hcode hwhole
    obtain ⟨gave, ht, hgave, hnot⟩ := hdone.traded hsound.ok h.ledger.paging
      (fun f hf => h.notAvail hp hf) hev
    obtain ⟨pre, post, hpre, hpost⟩ := hdone.maps
    obtain ⟨hn, hsum⟩ := hole_sizes hdone.hole.sizePos hdone.hole.inside
    refine ⟨⟨NoFrame, gave, ht, fun f hf => ⟨hp, hgave f hf⟩, fun f _ hf => .inl ⟨hp, ?_, fun hg =>
      hnot f hg hf⟩⟩, ⟨fun q hq => ?_, fun q hq _ => by rw [hother q hq]⟩, fun _ => ?_⟩
    · obtain ⟨v, hv⟩ := backs_iff_hasFrame.mpr hf
      exact backs_iff_hasFrame.mp ⟨v, ((hdone.relation hsound.ok v f).mp hv).1⟩
    · unfold HasMemory
      rw [hlist, hother q hq]
    · rw [hpost]
      rw [hpre] at hsound
      exact hsound.hole hsum hn

end maps

end Moonlight
