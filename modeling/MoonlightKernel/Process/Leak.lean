import MoonlightKernel.Process.Inheritance
import MoonlightKernel.Process.World

/-!
# What a process leaves behind

A child lives and dies on the heap of the kernel: its records come from the regions of the heap, and
the frames of its maps from where the regions take theirs.  The account of the child says at every
moment which blocks and which frames are its own.

* `Balanced` — the balance of the heap since the state before the `fork`;
* `Keeps`, `addSignal_keeps` — what a step leaves alone; a queued signal costs a block that nobody
  frees;
* `Alive`, `Spent`, `Gone` — the account of a child before its death, after it, and after its
  reaping;
* `Inv.deliverChild`, `Inv.deliverParent`, `Inv.waitpid` — the steps that may end or reap it.
-/

set_option autoImplicit false

namespace Moonlight

open Sys Sys.Bitmap

theorem small_sizeofProcess : Small sizeofProcess := ⟨by decide, by decide⟩

theorem small_sizeofMapMemory : Small sizeofMapMemory := ⟨by decide, by decide⟩

theorem small_sizeofChildren : Small sizeofChildren := ⟨by decide, by decide⟩

theorem small_sizeofSigQueue : Small sizeofSigQueue := ⟨by decide, by decide⟩

/-! ## The balance of a world -/

/-- The balance since the state `w₀`, in which the regions of the heap were `rs₀`. -/
abbrev Balanced (L : Layout) (word : Machine → Nat → Nat) (w₀ : World) (rs₀ : List (Region L))
    (own : Multiset Nat) (mine : Nat → Prop) (w : World) : Prop :=
  Balance L word sizeofSigQueue w₀.client rs₀ own mine w.client w.calls

namespace World

variable {L : Layout} {word : Machine → Nat → Nat} {w₀ w u v : World} {rs₀ : List (Region L)}
  {own : Multiset Nat} {mine mine' : Nat → Prop}

/-- The stores of the process layer are as before. -/
structure SameRecords (w u : World) : Prop where
  kernel : u.kernel = w.kernel.setMachine u.kernel.machine
  recs : u.recs = w.recs

namespace SameRecords

theorem refl (w : World) : SameRecords w w := ⟨rfl, rfl⟩

theorem trans (h : SameRecords w u) (h' : SameRecords u v) : SameRecords w v :=
  ⟨by rw [h'.kernel, h.kernel]; rfl, h'.recs.trans h.recs⟩

theorem proc (h : SameRecords w u) : u.kernel.proc = w.kernel.proc := by rw [h.kernel]; rfl

theorem kfree (L : Layout) (word : Machine → Nat → Nat) (a : Nat) (w : World) :
    SameRecords w (w.kfree L word a) := ⟨rfl, rfl⟩

theorem setMachine (m : Machine) (w : World) : SameRecords w (w.setMachine m) := ⟨rfl, rfl⟩

end SameRecords

/-- A call of `kmalloc` by its result. -/
theorem kmalloc_cases (L : Layout) (word : Machine → Nat → Nat) (n : Nat) (w : World) :
    (∃ u, w.kmalloc L word n = (none, u) ∧ (w.client.kmalloc L word n).1 = 0 ∧ SameRecords w u ∧
        u.client = (w.client.kmalloc L word n).2 ∧ u.calls = w.calls ++ [⟨w.client, n⟩]) ∨
      ∃ a u, w.kmalloc L word n = (some a, u) ∧ (w.client.kmalloc L word n).1 = a ∧ a ≠ 0 ∧
        SameRecords w u ∧ u.client = (w.client.kmalloc L word n).2 ∧
        u.calls = w.calls ++ [⟨w.client, n⟩] := by
  by_cases hp : (w.client.kmalloc L word n).1 = 0
  · exact .inl ⟨(w.kmalloc L word n).2, Prod.ext (if_pos hp) rfl, hp, ⟨rfl, rfl⟩, rfl, rfl⟩
  · exact .inr ⟨_, (w.kmalloc L word n).2, Prod.ext (if_neg hp) rfl, rfl, hp, ⟨rfl, rfl⟩, rfl, rfl⟩

end World

namespace Balanced

variable {L : Layout} {word : Machine → Nat → Nat} {w₀ w u : World} {rs₀ : List (Region L)}
  {own : Multiset Nat} {mine mine' : Nat → Prop}

theorem paging (h : Balanced L word w₀ rs₀ own mine w) : PagingOk L w.kernel.machine :=
  Balance.paging h

/-- A record is allocated. -/
theorem kmalloc {n : Nat} (h : Balanced L word w₀ rs₀ own mine w) (hn : Small n)
    (hne : n ≠ sizeofSigQueue) :
    (∃ u, w.kmalloc L word n = (none, u) ∧ w.SameRecords u ∧
        Balanced L word w₀ rs₀ own mine u) ∨
      ∃ a u, w.kmalloc L word n = (some a, u) ∧ w.SameRecords u ∧
        Balanced L word w₀ rs₀ (a ::ₘ own) mine u ∧
        ∀ d, HasTable w.kernel.machine d → HasTable u.kernel.machine d := by
  rcases w.kmalloc_cases L word n with ⟨u, he, h0, hsame, hc, hl⟩ | ⟨a, u, he, ha, h0, hsame, hc, hl⟩
  · refine .inl ⟨u, he, hsame, ?_⟩
    rw [Balanced, hc, hl]
    exact h.kmalloc_none hn h0
  · refine .inr ⟨a, u, he, hsame, ?_, fun d hd => ?_⟩
    · have hb := h.kmalloc_own hn hne (ha ▸ h0)
      rw [ha] at hb
      rw [Balanced, hc, hl]
      exact hb
    · have ht := Client.kmalloc_hasTable word h.paging (ha ▸ h0) hd
      rwa [← hc] at ht

/-- A `struct sig_queue` is allocated, or not. -/
theorem kmallocSignal (h : Balanced L word w₀ rs₀ own mine w) :
    w.SameRecords (w.kmalloc L word sizeofSigQueue).2 ∧
      Balanced L word w₀ rs₀ own mine (w.kmalloc L word sizeofSigQueue).2 :=
  ⟨⟨rfl, rfl⟩, h.kmalloc_lost small_sizeofSigQueue⟩

theorem kfree {a : Nat} (h : Balanced L word w₀ rs₀ (a ::ₘ own) mine w) :
    Balanced L word w₀ rs₀ own mine (w.kfree L word a) := Balance.kfree h

theorem move {m : Machine} (h : Balanced L word w₀ rs₀ own mine w) (hm : PagingOk L m)
    (hnames : ∀ v f, HeapPage L v → (Names L m v f ↔ Names L w.kernel.machine v f))
    (hav : ∀ f, Avail m f ∨ mine' f ↔ Avail w.kernel.machine f ∨ mine f)
    (hapart : ∀ f, mine' f → ¬ Avail m f) : Balanced L word w₀ rs₀ own mine' (w.setMachine m) :=
  Balance.move h hm hnames hav hapart

theorem congr (h : Balanced L word w₀ rs₀ own mine w) (hm : ∀ f, mine' f ↔ mine f) :
    Balanced L word w₀ rs₀ own mine' w := by
  rw [show mine' = mine from funext fun f => propext (hm f)]
  exact h

theorem setKernel {k : Kernel} (h : Balanced L word w₀ rs₀ own mine w)
    (hk : k.machine = w.kernel.machine) : Balanced L word w₀ rs₀ own mine (w.setKernel k) := by
  have hc : (w.setKernel k).client = w.client := by
    show Client.mk ⟨w.mem, w.mmVirtHeap, w.heapList, k.machine⟩ w.live = _
    rw [hk]
    rfl
  rw [Balanced, hc]
  exact h

end Balanced

/-! ## The frames of maps -/

/-- No frame belongs to two of the maps. -/
def FramesApart (maps : List MapMemory) : Prop :=
  maps.Pairwise fun b c => ∀ i j, i < b.size → j < c.size → b.frame i ≠ c.frame j

section free

variable {L : Layout} {word : Machine → Nat → Nat} {w₀ w u : World} {rs₀ : List (Region L)}
  {own : Multiset Nat}

/-- Free frames are taken. -/
theorem Balanced.takeRun {mine : Nat → Prop} {f n : Nat} (h : Balanced L word w₀ rs₀ own mine w)
    (hfree : ∀ q, f ≤ q → q < f + n → isFree w.kernel.machine.mmBitmap q = true) :
    Balanced L word w₀ rs₀ own (fun g => (f ≤ g ∧ g < f + n) ∨ mine g)
      (w.setMachine (w.kernel.machine.setBitmap (clearRun f n w.kernel.machine.mmBitmap))) := by
  have hav := Avail.taken_run h.paging hfree
  refine h.move (h.paging.taken_run f n) (fun _ _ _ => Names.congr rfl rfl) (fun g => ?_)
    fun g hg => ?_
  · rw [hav]
    constructor
    · rintro (ha | hin | hg)
      · exact .inl ha.1
      · exact .inl (.inl (hfree g hin.1 hin.2))
      · exact .inr hg
    · rintro (ha | hg)
      · by_cases hin : f ≤ g ∧ g < f + n
        · exact .inr (.inl hin)
        · exact .inl ⟨ha, hin⟩
      · exact .inr (.inr hg)
  · rw [hav]
    rintro ⟨ha, hout⟩
    rcases hg with hin | hg
    · exact hout hin
    · exact h.apart hg ha

/-- Frames are given back. -/
theorem Balanced.giveRun {mine : Nat → Prop} {addr n : Nat}
    (h : Balanced L word w₀ rs₀ own
      (fun g => (addr / 4096 ≤ g ∧ g < addr / 4096 + n) ∨ mine g) w)
    (hrange : addr / 4096 + n ≤ 2 ^ 20)
    (hout : ∀ g, mine g → ¬ (addr / 4096 ≤ g ∧ g < addr / 4096 + n)) :
    Balanced L word w₀ rs₀ own mine
      (w.setMachine (w.kernel.machine.setBitmap
        (freePhysBlock addr n w.kernel.machine.mmBitmap))) := by
  have hfree : ∀ f, isFree (freePhysBlock addr n w.kernel.machine.mmBitmap) f = true ↔
      isFree w.kernel.machine.mmBitmap f = true ∨ (addr / 4096 ≤ f ∧ f < addr / 4096 + n) :=
    fun f => by rw [isFree_freePhysBlock hrange, Bool.or_eq_true, decide_eq_true_iff]
  have hav := Avail.released (m := w.kernel.machine) hfree
  refine h.move (h.paging.setBitmap fun f hf => ?_) (fun _ _ _ => Names.congr rfl rfl) (fun f => ?_)
    fun f hf => ?_
  · rw [← Bool.not_eq_true, hfree]
    rintro (hbit | hin)
    · obtain ⟨d, hd, ht, rfl⟩ := hf
      exact Bool.noConfusion (hbit.symm.trans (h.paging.taken d hd ht))
    · exact h.apart (.inl hin) (.inr hf)
  · rw [hav, or_assoc]
  · rw [hav]
    rintro (ha | hin)
    · exact h.apart (.inr hf) ha
    · exact hout f hf hin

/-- The frames of one map are given back. -/
theorem Balanced.freeMap {pm : MapMemory} {rest : List MapMemory}
    (h : Balanced L word w₀ rs₀ own (HasFrame (pm :: rest)) w)
    (hrange : pm.pAddr / 4096 + pm.size ≤ 2 ^ 20) (hap : FramesApart (pm :: rest))
    (isCurrent : Bool) :
    Balanced L word w₀ rs₀ own (HasFrame rest)
      (w.setMachine (freeMap L isCurrent pm w.kernel.machine)) := by
  rw [freeMap_eq]
  refine (h.congr fun f => ?_).giveRun hrange ?_
  · rw [hasFrame_cons, mem_frames_iff]
  · rintro f ⟨q, hq, j, hj, rfl⟩ hin
    obtain ⟨i, hi, he⟩ := (mem_frames_iff pm _).mp hin
    exact (List.pairwise_cons.mp hap).1 q hq i j hi hj he.symm

/-- The maps and the records that are freed stay in the lists. -/
theorem World.SameRecords.freeRecords (L : Layout) (word : Machine → Nat → Nat) (isCurrent : Bool)
    (maps : List (MapMemory × Nat)) (w : World) :
    w.SameRecords (maps.foldl (World.freeRecord L word isCurrent) w) := by
  induction maps generalizing w with
  | nil => exact .refl w
  | cons x maps ih =>
    have hone : w.SameRecords (World.freeRecord L word isCurrent w x) := ⟨rfl, rfl⟩
    exact hone.trans (ih _)

/-- A list of maps and their records. -/
theorem Balanced.freeRecords (isCurrent : Bool) (rest : List MapMemory) (own : List Nat) :
    ∀ (maps : List MapMemory) (recs : List Nat) {w : World}, recs.length = maps.length →
    FramesApart (maps ++ rest) → (∀ pm ∈ maps, pm.pAddr / 4096 + pm.size ≤ 2 ^ 20) →
    Balanced L word w₀ rs₀ ↑(recs ++ own) (HasFrame (maps ++ rest)) w →
    Balanced L word w₀ rs₀ ↑own (HasFrame rest)
      ((maps.zip recs).foldl (World.freeRecord L word isCurrent) w) := by
  intro maps
  induction maps with
  | nil =>
    intro recs w hlen _ _ h
    obtain rfl := List.length_eq_zero_iff.mp hlen
    exact h
  | cons pm maps ih =>
    intro recs w hlen hap hrange h
    cases recs with
    | nil => exact absurd hlen (by simp)
    | cons a recs =>
      rw [List.zip_cons_cons, List.foldl_cons]
      have h' : Balanced L word w₀ rs₀ (a ::ₘ ↑(recs ++ own)) (HasFrame (pm :: (maps ++ rest))) w := h
      have hmap := (h'.freeMap (hrange pm List.mem_cons_self) hap isCurrent).kfree
      exact ih recs (Nat.succ.inj hlen) (List.pairwise_cons.mp hap).2
        (fun q hq => hrange q (List.mem_cons_of_mem _ hq)) hmap

end free

/-! ## The account of a child -/

namespace World

section account

variable (L : Layout) (word : Machine → Nat → Nat) (p new : Nat) (w₀ : World) (rs₀ : List (Region L))

/-- A step that concerns neither the links nor the maps nor the records of the child. -/
structure Keeps (w u : World) : Prop where
  same : ∀ q, (u.kernel.proc q).kin = (w.kernel.proc q).kin
  recs : u.recs = w.recs
  balance : ∀ {own : Multiset Nat} {mine : Nat → Prop}, Balanced L word w₀ rs₀ own mine w →
    Balanced L word w₀ rs₀ own mine u

/-- The child is linked to its father by the record at address `c`, the first of the father's list;
the father's other records are those of the state `w₀` before the `fork`. -/
structure Linked (c : Nat) (w : World) : Prop where
  father : (w.kernel.proc new).father = some p
  childless : (w.kernel.proc new).children = []
  noRecords : (w.recs new).children = []
  kids : (w.kernel.proc p).children = new :: (w₀.kernel.proc p).children
  record : (w.recs p).children = (new, c) :: (w₀.recs p).children

/-- What the child owns is `own`, the records of its maps and the frames of its maps. -/
structure Endowed (own : List Nat) (w : World) : Prop where
  balance : Balanced L word w₀ rs₀ ↑((w.recs new).heap ++ ((w.recs new).stack ++ own))
    (HasFrame (w.kernel.proc new).maps) w
  heapRecords : (w.recs new).heap.length = (w.kernel.proc new).mmHeap.length
  stackRecords : (w.recs new).stack.length = (w.kernel.proc new).mmStack.length
  apart : FramesApart (w.kernel.proc new).maps
  inRange : ∀ pm ∈ (w.kernel.proc new).maps, pm.pAddr / 4096 + pm.size ≤ 2 ^ 20

/-- The account of a living child: beside its maps it owns its father's record of it and its own. -/
structure Alive (c : Nat) (w : World) : Prop extends Linked p new w₀ c w,
    Endowed L word new w₀ rs₀ [c, new] w where
  state : (w.kernel.proc new).state ≠ .ZOMBIE

/-- The account of a child that has given its memory back. -/
structure Spent (c : Nat) (w : World) : Prop extends Linked p new w₀ c w where
  balance : Balanced L word w₀ rs₀ ↑[c, new] (HasFrame []) w

/-- The account after the reaping. -/
structure Gone (w : World) : Prop where
  kids : (w.kernel.proc p).children = (w₀.kernel.proc p).children
  balance : Balanced L word w₀ rs₀ 0 (HasFrame []) w

/-- The account of a child, whatever has become of it. -/
def Inv (w : World) : Prop :=
  (∃ c, Alive L word p new w₀ rs₀ c w) ∨
    (∃ c, Spent L word p new w₀ rs₀ c w ∧ (w.kernel.proc new).state = .ZOMBIE) ∨
    Gone L word p w₀ rs₀ w

end account

section keep

variable {L : Layout} {word : Machine → Nat → Nat} {p new c : Nat} {w₀ w u v : World}
  {rs₀ : List (Region L)}

namespace Keeps

theorem refl (w : World) : Keeps L word w₀ rs₀ w w := ⟨fun _ => rfl, rfl, id⟩

theorem trans (h : Keeps L word w₀ rs₀ w u) (h' : Keeps L word w₀ rs₀ u v) :
    Keeps L word w₀ rs₀ w v :=
  ⟨fun q => (h'.same q).trans (h.same q), h'.recs.trans h.recs, fun hb => h'.balance (h.balance hb)⟩

theorem modify (w : World) (p : Nat) {f : Process → Process}
    (h : (f (w.kernel.proc p)).kin = (w.kernel.proc p).kin) :
    Keeps L word w₀ rs₀ w (w.modify p f) :=
  ⟨(Same.modify w.kernel p h).proc, rfl, id⟩

theorem children (h : Keeps L word w₀ rs₀ w u) (q : Nat) :
    (u.kernel.proc q).children = (w.kernel.proc q).children :=
  congrArg (fun x => x.1.2) (h.same q)

end Keeps

/-- The ways through `add_signal`. -/
theorem addSignal_cases (L : Layout) (word : Machine → Nat → Nat) (sig : Int) (proc : Option Nat)
    (type : Nat) (w : World) :
    (w.addSignal L word sig proc type).2 = w ∨
      (w.addSignal L word sig proc type).2 = (w.kmalloc L word sizeofSigQueue).2 ∨
      ∃ p, (w.addSignal L word sig proc type).2 =
        (w.kmalloc L word sizeofSigQueue).2.modify p (Process.queueSignal sig.toNat type) := by
  unfold addSignal
  split
  · exact .inl rfl
  split
  · exact .inl rfl
  cases proc with
  | none => exact .inl rfl
  | some p =>
    dsimp only
    split
    · exact .inl rfl
    split
    · exact .inl rfl
    split
    · exact .inl rfl
    split
    · rename_i h
      exact .inr (.inl (by rw [h]))
    · rename_i h
      exact .inr (.inr ⟨p, by rw [h]⟩)

/-- **`add_signal`** loses the block that it gets, and keeps the rest of the account. -/
theorem addSignal_keeps (L : Layout) (word : Machine → Nat → Nat) (w₀ : World)
    (rs₀ : List (Region L)) (sig : Int) (proc : Option Nat) (type : Nat) (w : World) :
    Keeps L word w₀ rs₀ w (w.addSignal L word sig proc type).2 ∧
      ∀ q, ((w.addSignal L word sig proc type).2.kernel.proc q).state = (w.kernel.proc q).state := by
  have hmalloc : Keeps L word w₀ rs₀ w (w.kmalloc L word sizeofSigQueue).2 :=
    ⟨fun _ => rfl, rfl, fun hb => hb.kmallocSignal.2⟩
  rcases w.addSignal_cases L word sig proc type with h | h | ⟨p, h⟩
  · rw [h]
    exact ⟨.refl w, fun _ => rfl⟩
  · rw [h]
    exact ⟨hmalloc, fun _ => rfl⟩
  · rw [h]
    have hstate : Same Process.state (w.kmalloc L word sizeofSigQueue).2.kernel
        ((w.kmalloc L word sizeofSigQueue).2.kernel.modify p (Process.queueSignal sig.toNat type)) :=
      .modify _ p rfl
    exact ⟨hmalloc.trans (.modify _ p rfl), hstate.proc⟩

theorem Linked.congr (h : Linked p new w₀ c w)
    (htree : ∀ q, (u.kernel.proc q).tree = (w.kernel.proc q).tree)
    (hrecs : ∀ q, (u.recs q).children = (w.recs q).children) : Linked p new w₀ c u :=
  ⟨(congrArg Prod.fst (htree new)).trans h.father, (congrArg Prod.snd (htree new)).trans h.childless,
    (hrecs new).trans h.noRecords, (congrArg Prod.snd (htree p)).trans h.kids,
    (hrecs p).trans h.record⟩

theorem Linked.keeps (h : Linked p new w₀ c w) (hk : Keeps L word w₀ rs₀ w u) :
    Linked p new w₀ c u :=
  h.congr (fun q => congrArg Prod.fst (hk.same q)) fun q => by rw [hk.recs]

theorem Endowed.keeps {own : List Nat} (h : Endowed L word new w₀ rs₀ own w)
    (hk : Keeps L word w₀ rs₀ w u) : Endowed L word new w₀ rs₀ own u := by
  have hheap : (u.kernel.proc new).mmHeap = (w.kernel.proc new).mmHeap :=
    congrArg (fun x => x.2.1) (hk.same new)
  have hstack : (u.kernel.proc new).mmStack = (w.kernel.proc new).mmStack :=
    congrArg (fun x => x.2.2.1) (hk.same new)
  have hmaps : (u.kernel.proc new).maps = (w.kernel.proc new).maps :=
    congrArg (fun x => x.2.1 ++ x.2.2.1 ++ [x.2.2.2]) (hk.same new)
  refine ⟨hk.balance ?_, ?_, ?_, ?_, ?_⟩
  · rw [hk.recs, hmaps]
    exact h.balance
  · rw [hk.recs, hheap]
    exact h.heapRecords
  · rw [hk.recs, hstack]
    exact h.stackRecords
  · rw [hmaps]
    exact h.apart
  · rw [hmaps]
    exact h.inRange

/-- The maps and their records are as before. -/
theorem Endowed.same {own own' : List Nat} (h : Endowed L word new w₀ rs₀ own w)
    (hs : w.SameRecords u)
    (hb : Balanced L word w₀ rs₀ ↑((w.recs new).heap ++ ((w.recs new).stack ++ own'))
      (HasFrame (w.kernel.proc new).maps) u) : Endowed L word new w₀ rs₀ own' u := by
  refine ⟨?_, ?_, ?_, ?_, ?_⟩
  · rw [hs.recs, hs.proc]
    exact hb
  · rw [hs.recs, hs.proc]
    exact h.heapRecords
  · rw [hs.recs, hs.proc]
    exact h.stackRecords
  · rw [hs.proc]
    exact h.apart
  · rw [hs.proc]
    exact h.inRange

theorem Alive.keeps (h : Alive L word p new w₀ rs₀ c w) (hk : Keeps L word w₀ rs₀ w u)
    (hs : (u.kernel.proc new).state ≠ .ZOMBIE) : Alive L word p new w₀ rs₀ c u :=
  ⟨h.toLinked.keeps hk, h.toEndowed.keeps hk, hs⟩

theorem Spent.keeps (h : Spent L word p new w₀ rs₀ c w) (hk : Keeps L word w₀ rs₀ w u) :
    Spent L word p new w₀ rs₀ c u := ⟨h.toLinked.keeps hk, hk.balance h.balance⟩

theorem Gone.keeps (h : Gone L word p w₀ rs₀ w) (hk : Keeps L word w₀ rs₀ w u) :
    Gone L word p w₀ rs₀ u := ⟨(hk.children p).trans h.kids, hk.balance h.balance⟩

/-- A step that leaves links, maps and records alone. -/
theorem Inv.keeps (h : Inv L word p new w₀ rs₀ w) (hk : Keeps L word w₀ rs₀ w u)
    (hs : (u.kernel.proc new).state = .ZOMBIE ↔ (w.kernel.proc new).state = .ZOMBIE) :
    Inv L word p new w₀ rs₀ u := by
  rcases h with ⟨c, h⟩ | ⟨c, h, hz⟩ | h
  · exact .inl ⟨c, h.keeps hk fun hz => h.state (hs.mp hz)⟩
  · exact .inr (.inl ⟨c, h.keeps hk, hs.mpr hz⟩)
  · exact .inr (.inr (h.keeps hk))

/-- A store into a process that concerns neither its links nor its maps. -/
theorem Inv.modify (h : Inv L word p new w₀ rs₀ w) (q : Nat) {f : Process → Process}
    (hf : (f (w.kernel.proc q)).kin = (w.kernel.proc q).kin)
    (hs : q = new → ((f (w.kernel.proc q)).state = .ZOMBIE ↔ (w.kernel.proc q).state = .ZOMBIE)) :
    Inv L word p new w₀ rs₀ (w.modify q f) := by
  refine h.keeps (Keeps.modify w q hf) ?_
  show ((w.kernel.modify q f).proc new).state = .ZOMBIE ↔ _
  rw [Kernel.modify_proc]
  split
  · rename_i hq
    rw [hq]
    exact hs hq.symm
  · exact Iff.rfl

/-! ## Reaping -/

/-- The father's record of the child is the first of his list. -/
theorem dropChild_found (L : Layout) (word : Machine → Nat → Nat)
    (hr : (w.recs p).children = (new, c) :: (w₀.recs p).children) :
    w.dropChild L word p new = (w.record p fun r =>
      { r with children := r.children.eraseP fun c => c.1 = new }).kfree L word c := by
  have hc : ((w.recs p).children.find? fun c => c.1 = new) = some (new, c) := by rw [hr]; simp
  unfold dropChild
  rw [hc]

/-- **`free_process`** of a child that has given its memory back. -/
theorem Spent.freeProcess (h : Spent L word p new w₀ rs₀ c w) (hne : p ≠ new) :
    Gone L word p w₀ rs₀ (w.freeProcess L word new) := by
  have hb : Balanced L word w₀ rs₀ (c ::ₘ new ::ₘ 0) (HasFrame [])
      (w.setKernel (Moonlight.freeProcess new w.kernel)) :=
    h.balance.setKernel (freeProcess_machine new w.kernel)
  have hfree : w.freeProcess L word new =
      ((((w.setKernel (Moonlight.freeProcess new w.kernel)).record p fun r =>
        { r with children := r.children.eraseP fun c => c.1 = new }).kfree L word c).record new
          fun r => { r with children := [] }).kfree L word new := by
    unfold World.freeProcess
    dsimp only
    rw [h.father]
    dsimp only
    rw [dropChild_found L word (w := w.setKernel (Moonlight.freeProcess new w.kernel)) h.record]
    have hnone : ((((w.setKernel (Moonlight.freeProcess new w.kernel)).record p fun r =>
        { r with children := r.children.eraseP fun c => c.1 = new }).kfree L word c).recs
          new).children = [] := by
      show (Function.update w.recs p _ new).children = []
      rw [Function.update_of_ne (Ne.symm hne)]
      exact h.noRecords
    rw [hnone, List.foldl_nil]
  rw [hfree]
  refine ⟨?_, ?_⟩
  · show ((Moonlight.freeProcess new w.kernel).proc p).children = _
    rw [((freeProcess_leaf h.childless).2 p).2, if_pos h.father, h.kids, List.erase_cons_head]
  · have hc : Balanced L word w₀ rs₀ (new ::ₘ 0) (HasFrame [])
        (((w.setKernel (Moonlight.freeProcess new w.kernel)).record p fun r =>
          { r with children := r.children.eraseP fun c => c.1 = new }).kfree L word c) :=
      Balanced.kfree hb
    exact Balanced.kfree hc

/-- **`end_of_child`.** -/
theorem Spent.endOfChild (h : Spent L word p new w₀ rs₀ c w) (hne : p ≠ new) :
    Gone L word p w₀ rs₀ (w.endOfChild L word new p) :=
  ((h.keeps (Keeps.modify w p (f := Process.setReply (w.kernel.proc new).pid
    (w.kernel.proc new).endValue) rfl)).freeProcess hne).keeps
      (Keeps.modify _ p (f := Process.setState .RUN) rfl)

/-! ## Death -/

/-- The stores of the process layer after **`process_free_all_memory`**. -/
theorem processFreeAllMemory_stores (L : Layout) (word : Machine → Nat → Nat) (p : Nat) (w : World) :
    (w.processFreeAllMemory L word p).kernel =
        (w.kernel.setMachine (w.processFreeAllMemory L word p).kernel.machine).modify p
          Process.dropMaps ∧
      ∀ q, ((w.processFreeAllMemory L word p).recs q).children = (w.recs q).children := by
  have hsame := (SameRecords.freeRecords L word (decide (w.kernel.current = some p))
    ((w.kernel.proc p).mmHeap.zip (w.recs p).heap) w).trans
      (.freeRecords L word (decide (w.kernel.current = some p))
        ((w.kernel.proc p).mmStack.zip (w.recs p).stack) _)
  unfold processFreeAllMemory
  dsimp only
  generalize ((w.kernel.proc p).mmStack.zip (w.recs p).stack).foldl _ _ = u at hsame
  refine ⟨?_, fun q => ?_⟩
  · rw [record_kernel, modify_kernel]
    show (u.kernel.setMachine _).modify p _ = _
    rw [hsame.kernel]
    rfl
  · have hq : (u.recs q).children = (w.recs q).children := by rw [hsame.recs]
    by_cases hqp : q = p
    · subst hqp
      rw [record_recs_self]
      exact hq
    · rw [record_recs_of_ne _ _ _ hqp]
      exact hq

/-- **`process_free_all_memory`** gives back the frames and the records of the maps. -/
theorem Alive.freeMemory (h : Alive L word p new w₀ rs₀ c w) :
    Spent L word p new w₀ rs₀ c (w.processFreeAllMemory L word new) := by
  have hmaps : (w.kernel.proc new).maps = (w.kernel.proc new).mmHeap ++
      ((w.kernel.proc new).mmStack ++ [(w.kernel.proc new).mmCode]) := List.append_assoc _ _ _
  have hap := h.apart
  have hrange := h.inRange
  have hb := h.balance
  rw [hmaps] at hap hrange hb
  have hb₁ := Balanced.freeRecords (decide (w.kernel.current = some new)) _ _ _ _
    h.heapRecords hap (fun pm hpm => hrange pm (List.mem_append_left _ hpm)) hb
  have hb₂ := Balanced.freeRecords (decide (w.kernel.current = some new)) _ _ _ _
    h.stackRecords (List.pairwise_append.mp hap).2.1
    (fun pm hpm => hrange pm (List.mem_append_right _ (List.mem_append_left _ hpm))) hb₁
  have hb₃ := hb₂.freeMap
    (hrange _ (List.mem_append_right _ (List.mem_append_right _ (List.mem_singleton_self _))))
    (List.pairwise_append.mp (List.pairwise_append.mp hap).2.1).2.1
    (decide (w.kernel.current = some new))
  obtain ⟨hkernel, hchildren⟩ := w.processFreeAllMemory_stores L word new
  refine ⟨h.toLinked.congr (fun q => ?_) hchildren, hb₃⟩
  have htree : Same Process.tree (w.kernel.setMachine _)
      ((w.kernel.setMachine (w.processFreeAllMemory L word new).kernel.machine).modify new
        Process.dropMaps) := .modify _ new rfl
  rw [hkernel]
  exact htree.proc q

/-- The father is told, and the child waits to be reaped or is freed. -/
theorem Spent.notifyFather (h : Spent L word p new w₀ rs₀ c w) (hne : p ≠ new) :
    Inv L word p new w₀ rs₀ (w.notifyFather L word new) := by
  have hdead := (h.keeps (addSignal_keeps L word w₀ rs₀ SIGCHLD (some p) SIG_SOFT w).1).keeps
    (Keeps.modify _ new (f := Process.setState .ZOMBIE) rfl)
  unfold World.notifyFather
  rw [h.father]
  dsimp only
  split
  · exact .inr (.inr (hdead.freeProcess hne))
  · refine .inr (.inl ⟨c, hdead, ?_⟩)
    show ((Kernel.modify _ new _).proc new).state = _
    rw [Kernel.modify_proc_self]
    rfl

/-- **`process_die`.** -/
theorem Alive.die (h : Alive L word p new w₀ rs₀ c w) (hne : p ≠ new) :
    Inv L word p new w₀ rs₀ (w.processDie L word new) := by
  have hi := (h.freeMemory.keeps (Keeps.modify _ new (f := Process.clearQueue) rfl)).notifyFather hne
  unfold processDie processDieSafe
  dsimp only
  split
  · exact hi.keeps ⟨fun _ => rfl, rfl, id⟩ Iff.rfl
  · exact hi

/-- The end value is stored first. -/
theorem Alive.ended (h : Alive L word p new w₀ rs₀ c w) (hne : p ≠ new) (v : Int) :
    Inv L word p new w₀ rs₀ ((w.modify new (Process.setEndValue v)).processDie L word new) := by
  refine (h.keeps (Keeps.modify w new (f := Process.setEndValue v) rfl) ?_).die hne
  show ((w.kernel.modify new _).proc new).state ≠ _
  rw [Kernel.modify_proc_self]
  exact h.state

/-! ## Delivery -/

theorem dropChild_kernel (L : Layout) (word : Machine → Nat → Nat) (f p : Nat) (w : World) :
    (w.dropChild L word f p).kernel =
      w.kernel.setMachine (w.dropChild L word f p).kernel.machine := by
  unfold dropChild
  dsimp only
  split <;> rfl

theorem moveRecord_kernel (L : Layout) (word : Machine → Nat → Nat) (init : Option Nat)
    (records : List (Nat × Nat)) (w : World) :
    (records.foldl (moveRecord L word init) w).kernel =
      w.kernel.setMachine (records.foldl (moveRecord L word init) w).kernel.machine := by
  induction records generalizing w with
  | nil => rfl
  | cons c records ih =>
    have hone : (moveRecord L word init w c).kernel =
        w.kernel.setMachine (moveRecord L word init w c).kernel.machine := by
      unfold moveRecord
      split <;> rfl
    rw [List.foldl_cons, ih, hone]
    rfl

/-- The processes after **`free_process`**. -/
theorem freeProcess_kernel (L : Layout) (word : Machine → Nat → Nat) (p : Nat) (w : World) :
    (w.freeProcess L word p).kernel =
      (Moonlight.freeProcess p w.kernel).setMachine (w.freeProcess L word p).kernel.machine := by
  unfold World.freeProcess
  dsimp only
  refine (congrArg (fun k => Kernel.setMachine k _) (moveRecord_kernel L word _ _ _)).trans ?_
  split
  · rw [dropChild_kernel]
    rfl
  · rfl

theorem freeProcess_state (L : Layout) (word : Machine → Nat → Nat) (p q : Nat) (w : World) :
    ((w.freeProcess L word p).kernel.proc q).state = (w.kernel.proc q).state := by
  rw [freeProcess_kernel]
  exact Moonlight.freeProcess_state p q w.kernel

theorem processDie_state (L : Layout) (word : Machine → Nat → Nat) (p : Nat) (w : World) :
    ((w.processDie L word p).kernel.proc p).state = .ZOMBIE := by
  have hzombie (w : World) :
      ((w.modify p (Process.setState .ZOMBIE)).kernel.proc p).state = .ZOMBIE := by
    show ((w.kernel.modify p _).proc p).state = _
    rw [Kernel.modify_proc_self]
    rfl
  have hnotify (w : World) : ((w.notifyFather L word p).kernel.proc p).state = .ZOMBIE := by
    unfold notifyFather
    split
    · dsimp only
      split
      · rw [freeProcess_state]
        exact hzombie _
      · exact hzombie _
    · rw [freeProcess_state]
      exact hzombie _
  unfold processDie processDieSafe
  dsimp only
  split
  · exact hnotify _
  · exact hnotify _

theorem runHandler_dies (L : Layout) (word : Machine → Nat → Nat) {a : Shandler} (ha : a.Fatal)
    (p signum : Nat) (w : World) :
    ((w.runHandler L word a p signum).kernel.proc p).state = .ZOMBIE := by
  rcases ha with rfl | rfl
  · exact processDie_state L word p _
  · exact processDie_state L word p _

/-- The ways through `send_signal`. -/
theorem sendSignal_cases {q : Nat} (h : w.sendSignal L word q = some u) :
    u = w ∨ u = w.modify q Process.popSignal ∨
      ((w.kernel.proc q).state ≠ .ZOMBIE ∧ ∃ s rest a, (w.kernel.proc q).signal.sigQueue = s :: rest ∧
        s.state ≠ SIG_EXECUTING ∧ handlerFor (w.kernel.proc q) s = some a ∧
        u = if ((w.runHandler L word a q s.sigHandled).kernel.proc q).state = .ZOMBIE
          then w.runHandler L word a q s.sigHandled
          else (w.runHandler L word a q s.sigHandled).modify q
            fun pr => (pr.unblock s.sigHandled).popSignal) := by
  unfold sendSignal at h
  cases hq : (w.kernel.proc q).signal.sigQueue with
  | nil =>
    rw [hq] at h
    exact .inl (Option.some.inj h).symm
  | cons s rest =>
    rw [hq] at h
    dsimp only at h
    by_cases hz : (w.kernel.proc q).state = .ZOMBIE
    · rw [if_pos hz] at h
      exact .inr (.inl (Option.some.inj h).symm)
    by_cases hx : s.state = SIG_EXECUTING
    · rw [if_neg hz, if_pos hx] at h
      exact .inl (Option.some.inj h).symm
    · rw [if_neg hz, if_neg hx, Option.map_eq_some_iff] at h
      obtain ⟨a, ha, hu⟩ := h
      exact .inr (.inr ⟨hz, s, rest, a, rfl, hx, ha, hu.symm⟩)

/-- A handler that neither ends the process nor reaps a child. -/
theorem Inv.runHandler {a : Shandler} {q signum : Nat} (h : Inv L word p new w₀ rs₀ w)
    (hfatal : ¬ a.Fatal) (hz : (w.kernel.proc q).state ≠ .ZOMBIE)
    (hfind : a = .childEnded →
      ((w.kernel.proc q).children.find? fun c => Reapable w.kernel q c) = none) :
    Inv L word p new w₀ rs₀ (w.runHandler L word a q signum) := by
  have hstate (v : Int) : ((w.modify q (Process.setEndValue v)).kernel.proc q).state ≠ .ZOMBIE := by
    show ((w.kernel.modify q _).proc q).state ≠ _
    rw [Kernel.modify_proc_self]
    exact hz
  cases a with
  | sigTerm => exact absurd (.inl rfl) hfatal
  | sigCore => exact absurd (.inr rfl) hfatal
  | sigIgn => exact h
  | user addr => exact h
  | sigStop =>
    exact (h.modify q (f := Process.setEndValue (WAIT_STOPCODE signum)) rfl fun _ => Iff.rfl).modify q
      (f := Process.setState .STOPPED) rfl fun _ => iff_of_false (by rintro ⟨⟩) (hstate _)
  | sigCont =>
    exact (h.modify q (f := Process.setEndValue WAIT_CONTINUED) rfl fun _ => Iff.rfl).modify q
      (f := Process.setState .RUN) rfl fun _ => iff_of_false (by rintro ⟨⟩) (hstate _)
  | childEnded =>
    have hid : w.runHandler L word .childEnded q signum = w := by
      unfold World.runHandler childEnded
      rw [hfind rfl]
    rw [hid]
    exact h

/-- The child has neither ended nor been reaped. -/
theorem Inv.alive (h : Inv L word p new w₀ rs₀ w) (hfresh : new ∉ (w₀.kernel.proc p).children)
    (hin : new ∈ (w.kernel.proc p).children) (hz : (w.kernel.proc new).state ≠ .ZOMBIE) :
    ∃ c, Alive L word p new w₀ rs₀ c w := by
  rcases h with halive | ⟨c, -, hdead⟩ | hgone
  · exact halive
  · exact absurd hdead hz
  · rw [hgone.kids] at hin
    exact absurd hin hfresh

/-- **`send_signal` to the child.** -/
theorem Inv.deliverChild (h : Inv L word p new w₀ rs₀ w) (hne : p ≠ new)
    (hfresh : new ∉ (w₀.kernel.proc p).children) (hin : new ∈ (w.kernel.proc p).children)
    (hs : w.sendSignal L word new = some u) : Inv L word p new w₀ rs₀ u := by
  rcases sendSignal_cases hs with rfl | rfl | ⟨hz, s, rest, a, -, -, -, rfl⟩
  · exact h
  · exact h.modify new rfl fun _ => Iff.rfl
  obtain ⟨c, hc⟩ := h.alive hfresh hin hz
  have hrun : Inv L word p new w₀ rs₀ (w.runHandler L word a new s.sigHandled) := by
    by_cases hfatal : a.Fatal
    · rcases hfatal with rfl | rfl
      · exact hc.ended hne _
      · exact hc.ended hne _
    · exact h.runHandler hfatal hz fun _ => by rw [hc.childless, List.find?_nil]
  split
  · exact hrun
  · exact hrun.modify new rfl fun _ => Iff.rfl

/-- A zombie child of `p` that is reaped. -/
theorem Inv.reap (h : Inv L word p new w₀ rs₀ w) (hne : p ≠ new)
    (hfresh : new ∉ (w₀.kernel.proc p).children) (hin : new ∈ (w.kernel.proc p).children)
    (hz : (w.kernel.proc new).state = .ZOMBIE) :
    Inv L word p new w₀ rs₀ (w.endOfChild L word new p) := by
  rcases h with ⟨c, halive⟩ | ⟨c, hdead, -⟩ | hgone
  · exact absurd hz halive.state
  · exact .inr (.inr (hdead.endOfChild hne))
  · rw [hgone.kids] at hin
    exact absurd hin hfresh

/-- **`send_signal` to the father**, who survives it and reaps no other child. -/
theorem Inv.deliverParent (h : Inv L word p new w₀ rs₀ w) (hne : p ≠ new)
    (hfresh : new ∉ (w₀.kernel.proc p).children) (hs : w.sendSignal L word p = some u)
    (hlive : (u.kernel.proc p).state ≠ .ZOMBIE)
    (honly : ∀ c, freed w.kernel (.sendSignal p) = some c → c = new) :
    Inv L word p new w₀ rs₀ u := by
  rcases sendSignal_cases hs with rfl | rfl | ⟨hz, s, rest, a, hq, hx, ha, rfl⟩
  · exact h
  · exact h.modify p rfl fun he => absurd he hne
  have hrun : Inv L word p new w₀ rs₀ (w.runHandler L word a p s.sigHandled) := by
    by_cases hfatal : a.Fatal
    · have hstate := runHandler_dies L word hfatal p s.sigHandled w
      rw [if_pos hstate] at hlive
      exact absurd hstate hlive
    cases hfind : (w.kernel.proc p).children.find? fun c => Reapable w.kernel p c with
    | none => exact h.runHandler hfatal hz fun _ => hfind
    | some c =>
      by_cases hc : a = .childEnded
      · subst hc
        have hcn : c = new := honly c (by
          rw [freed, hq]
          dsimp only
          rw [if_neg (not_or.mpr ⟨hz, hx⟩), ha]
          exact hfind)
        subst hcn
        have hreap := List.find?_some hfind
        rw [decide_eq_true_iff] at hreap
        have hend : w.runHandler L word .childEnded p s.sigHandled = w.endOfChild L word c p := by
          unfold World.runHandler childEnded
          rw [hfind]
        rw [hend]
        exact h.reap hne hfresh (List.mem_of_find?_eq_some hfind) hreap.1
      · exact h.runHandler hfatal hz fun he => absurd he hc
  split
  · exact hrun
  · exact hrun.modify p rfl fun he => absurd he hne

theorem Inv.takeReply (h : Inv L word p new w₀ rs₀ w) (hne : p ≠ new) :
    Inv L word p new w₀ rs₀ (w.takeReply p).2 :=
  h.modify p (f := fun pr => { pr with waitingReturn := 0 }) rfl fun he => absurd he hne

/-- **`process_waitpid`** of the father, when it reaps no other child. -/
theorem Inv.waitpid {pid : Int} {option : Nat} (h : Inv L word p new w₀ rs₀ w) (hne : p ≠ new)
    (hfresh : new ∉ (w₀.kernel.proc p).children)
    (honly : ∀ c, freed w.kernel (.waitpid p pid option) = some c → c = new) :
    Inv L word p new w₀ rs₀ (w.processWaitpid L word p pid option).2 := by
  have hwait : Inv L word p new w₀ rs₀
      (w.modify p fun pr => { pr with state := .STOPPED, waitingPid := pid }) :=
    h.modify p rfl fun he => absurd he hne
  unfold processWaitpid
  dsimp only
  split
  · exact h
  rename_i hpid
  split
  · exact h.takeReply hne
  rename_i hreply
  cases hc : waitCandidate w.kernel p pid with
  | none =>
    dsimp only
    split
    · split
      · exact h
      · exact hwait
    · exact h
  | some c =>
    dsimp only
    split
    · rename_i hz
      have hcn : c = new := honly c (by
        have hgo := fun hreturn => (or_assoc.mpr hreturn).elim hpid hreply
        rw [freed, if_neg hgo, hc, Option.filter_some, if_pos (by simpa using hz)])
      subst hcn
      exact (h.reap hne hfresh (List.mem_of_find?_eq_some hc) hz).takeReply hne
    · split
      · exact hwait
      · exact h

end keep

end World

end Moonlight
