import Mathlib.Data.List.Nodup

/-!
# A queue with an urgent end

Entries wait in one list from which they are taken at the front.  An urgent entry is put in at the
front, an ordinary one at the back.  So urgent entries come out before ordinary ones, the newest
first, and ordinary entries come out in the order in which they came in.

Entries may be equal; what came in is numbered, in the order of its arrival, and what came out is
told by these numbers.

* `put`, `Log` — the list, and what went in and out;
* `Served` — every entry taken out is the next one by the two rules;
* `Inv` — the list consists of an urgent part and an ordinary part, `Inv.put`, `Inv.take` — both
  operations keep it so;
* `Inv.served` — the numbers of what has been taken.
-/

set_option autoImplicit false

namespace Sys.TwoEnded

variable {α : Type*}

/-- An urgent entry goes to the front. -/
def put (urgent : α → Prop) [DecidablePred urgent] (a : α) (queue : List α) : List α :=
  if urgent a then a :: queue else queue ++ [a]

/-- What was put in, and what was taken out, each with the number of entries put in before. -/
structure Log (α : Type*) where
  accepted : List α
  consumed : List (Nat × α)

/-- Nothing has happened. -/
def Log.empty : Log α := ⟨[], []⟩

/-- An entry is put in. -/
def Log.accept (log : Log α) (a : α) : Log α := { log with accepted := log.accepted ++ [a] }

/-- An entry is taken out. -/
def Log.consume (log : Log α) (a : α) : Log α :=
  { log with consumed := log.consumed ++ [(log.accepted.length, a)] }

/-- The entry number `i` is an urgent one. -/
def UrgentAt (urgent : α → Prop) (accepted : List α) (i : Nat) : Prop :=
  ∃ a, accepted[i]? = some a ∧ urgent a

/-- The entry number `i` is an ordinary one. -/
def OrdinaryAt (urgent : α → Prop) (accepted : List α) (i : Nat) : Prop :=
  ∃ a, accepted[i]? = some a ∧ ¬ urgent a

/-- **What was taken out** are the entries with the numbers `ids`, none of them twice.  When an
urgent entry was taken every newer urgent one had been; when an ordinary one was, every urgent one
and every older ordinary one. -/
inductive Served (urgent : α → Prop) (accepted : List α) : List (Nat × α) → List Nat → Prop
  | nil : Served urgent accepted [] []
  | urgent {consumed : List (Nat × α)} {ids : List Nat} {n i : Nat} {a : α}
      (h : Served urgent accepted consumed ids) (hin : i < n) (ha : accepted[i]? = some a)
      (hnew : i ∉ ids) (hu : urgent a)
      (hnewer : ∀ j, i < j → j < n → UrgentAt urgent accepted j → j ∈ ids) :
      Served urgent accepted (consumed ++ [(n, a)]) (ids ++ [i])
  | ordinary {consumed : List (Nat × α)} {ids : List Nat} {n i : Nat} {a : α}
      (h : Served urgent accepted consumed ids) (hin : i < n) (ha : accepted[i]? = some a)
      (hnew : i ∉ ids) (hu : ¬ urgent a)
      (hurgent : ∀ j < n, UrgentAt urgent accepted j → j ∈ ids)
      (holder : ∀ j < i, OrdinaryAt urgent accepted j → j ∈ ids) :
      Served urgent accepted (consumed ++ [(n, a)]) (ids ++ [i])

section numbers

variable {urgent : α → Prop} {accepted : List α} {i : Nat}

theorem UrgentAt.lt (h : UrgentAt urgent accepted i) : i < accepted.length := by
  obtain ⟨a, ha, -⟩ := h
  exact (List.getElem?_eq_some_iff.mp ha).1

theorem OrdinaryAt.lt (h : OrdinaryAt urgent accepted i) : i < accepted.length := by
  obtain ⟨a, ha, -⟩ := h
  exact (List.getElem?_eq_some_iff.mp ha).1

theorem OrdinaryAt.not_urgentAt (h : OrdinaryAt urgent accepted i) : ¬ UrgentAt urgent accepted i := by
  rintro ⟨a, ha, hu⟩
  obtain ⟨b, hb, hno⟩ := h
  rw [ha] at hb
  exact hno (Option.some.inj hb ▸ hu)

/-- Entries keep their numbers. -/
theorem urgentAt_concat (a : α) (hi : i < accepted.length) :
    UrgentAt urgent (accepted ++ [a]) i ↔ UrgentAt urgent accepted i := by
  rw [UrgentAt, UrgentAt, List.getElem?_append_left hi]

theorem ordinaryAt_concat (a : α) (hi : i < accepted.length) :
    OrdinaryAt urgent (accepted ++ [a]) i ↔ OrdinaryAt urgent accepted i := by
  rw [OrdinaryAt, OrdinaryAt, List.getElem?_append_left hi]

/-- No entry is taken twice. -/
theorem Served.nodup {consumed : List (Nat × α)} {ids : List Nat}
    (h : Served urgent accepted consumed ids) : ids.Nodup := by
  induction h with
  | nil => exact List.nodup_nil
  | urgent _ _ _ hnew _ _ ih => exact (List.concat_eq_append ▸ ih.concat hnew)
  | ordinary _ _ _ hnew _ _ _ ih => exact (List.concat_eq_append ▸ ih.concat hnew)

/-- A later entry does not change what was taken before. -/
theorem Served.concat {consumed : List (Nat × α)} {ids : List Nat}
    (h : Served urgent accepted consumed ids) (hle : ∀ e ∈ consumed, e.1 ≤ accepted.length) (b : α) :
    Served urgent (accepted ++ [b]) consumed ids := by
  induction h with
  | nil => exact .nil
  | @urgent consumed ids n i a _ hin ha hnew hu hnewer ih =>
    have hn : n ≤ accepted.length := hle (n, a) (List.mem_append_right _ (List.mem_singleton_self _))
    refine .urgent (ih fun e he => hle e (List.mem_append_left _ he)) hin ?_ hnew hu
      fun j hij hj hju => hnewer j hij hj ?_
    · rw [List.getElem?_append_left (by omega), ha]
    · exact (urgentAt_concat b (by omega)).mp hju
  | @ordinary consumed ids n i a _ hin ha hnew hu hurgent holder ih =>
    have hn : n ≤ accepted.length := hle (n, a) (List.mem_append_right _ (List.mem_singleton_self _))
    refine .ordinary (ih fun e he => hle e (List.mem_append_left _ he)) hin ?_ hnew hu
      (fun j hj hju => hurgent j hj ?_) fun j hj hjo => holder j hj ?_
    · rw [List.getElem?_append_left (by omega), ha]
    · exact (urgentAt_concat b (by omega)).mp hju
    · exact (ordinaryAt_concat b (by omega)).mp hjo

end numbers

/-- The list holds the urgent entries `us`, newest first, and then the ordinary entries `os`, oldest
first; the entries `ids` have been taken, and there are no others. -/
structure Parts (urgent : α → Prop) (queue : List α) (log : Log α) (us os ids : List Nat) : Prop where
  queue : queue.map some = (us ++ os).map fun i => log.accepted[i]?
  newest : us.Pairwise (· > ·)
  oldest : os.Pairwise (· < ·)
  pressing : ∀ i ∈ us, UrgentAt urgent log.accepted i
  ordinary : ∀ i ∈ os, OrdinaryAt urgent log.accepted i
  cover : ∀ i < log.accepted.length, i ∈ ids ∨ i ∈ us ∨ i ∈ os
  waiting : ∀ i ∈ us ++ os, i ∉ ids
  known : ∀ i ∈ ids, i < log.accepted.length
  served : Served urgent log.accepted log.consumed ids
  before : ∀ e ∈ log.consumed, e.1 ≤ log.accepted.length

/-- **The list has its two parts.** -/
def Inv (urgent : α → Prop) (queue : List α) (log : Log α) : Prop :=
  ∃ us os ids, Parts urgent queue log us os ids

namespace Inv

variable {urgent : α → Prop} {queue : List α} {log : Log α} {a : α}

theorem empty (urgent : α → Prop) : Inv urgent [] .empty :=
  ⟨[], [], [], ⟨rfl, .nil, .nil, by simp, by simp, by simp [Log.empty], by simp, by simp, .nil,
    by simp [Log.empty]⟩⟩

/-- What has been taken out, by its numbers. -/
theorem served (h : Inv urgent queue log) : ∃ ids, Served urgent log.accepted log.consumed ids := by
  obtain ⟨us, os, ids, h⟩ := h
  exact ⟨ids, h.served⟩

/-- The urgent entries come before the ordinary ones. -/
theorem split (h : Inv urgent queue log) :
    ∃ us os, queue = us ++ os ∧ (∀ a ∈ us, urgent a) ∧ ∀ a ∈ os, ¬ urgent a := by
  obtain ⟨us, os, ids, h⟩ := h
  have hqueue := h.queue
  rw [List.map_append] at hqueue
  obtain ⟨queue₁, queue₂, rfl, h₁, h₂⟩ := List.map_eq_append_iff.mp hqueue
  refine ⟨queue₁, queue₂, rfl, fun a ha => ?_, fun a ha => ?_⟩
  · have hmem : some a ∈ us.map fun i => log.accepted[i]? := h₁ ▸ List.mem_map_of_mem ha
    obtain ⟨i, hi, hia⟩ := List.mem_map.mp hmem
    obtain ⟨b, hb, hu⟩ := h.pressing i hi
    exact Option.some.inj (hb.symm.trans hia) ▸ hu
  · have hmem : some a ∈ os.map fun i => log.accepted[i]? := h₂ ▸ List.mem_map_of_mem ha
    obtain ⟨i, hi, hia⟩ := List.mem_map.mp hmem
    obtain ⟨b, hb, hu⟩ := h.ordinary i hi
    exact Option.some.inj (hb.symm.trans hia) ▸ hu

variable [DecidablePred urgent]

/-- **An entry is put in.** -/
theorem put (h : Inv urgent queue log) (a : α) :
    Inv urgent (put urgent a queue) (log.accept a) := by
  obtain ⟨us, os, ids, h⟩ := h
  have hold : ∀ i < log.accepted.length, (log.accepted ++ [a])[i]? = log.accepted[i]? :=
    fun i hi => List.getElem?_append_left hi
  have hnum : (log.accepted ++ [a])[log.accepted.length]? = some a := List.getElem?_concat_length
  have hus : ∀ i ∈ us, i < log.accepted.length := fun i hi => (h.pressing i hi).lt
  have hos : ∀ i ∈ os, i < log.accepted.length := fun i hi => (h.ordinary i hi).lt
  have hqueue : queue.map some = (us ++ os).map fun i => (log.accept a).accepted[i]? := by
    rw [h.queue]
    refine List.map_congr_left fun i hi => (hold i ?_).symm
    exact (List.mem_append.mp hi).elim (hus i) (hos i)
  have hserved := h.served.concat h.before a
  have hlen : (log.accept a).accepted.length = log.accepted.length + 1 := by
    rw [Log.accept, List.length_append, List.length_singleton]
  have hbefore : ∀ e ∈ log.consumed, e.1 ≤ (log.accept a).accepted.length := fun e he => by
    have := h.before e he
    omega
  have hknown : ∀ i ∈ ids, i < (log.accept a).accepted.length := fun i hi => by
    have := h.known i hi
    omega
  have hurgent : ∀ i ∈ us, UrgentAt urgent (log.accept a).accepted i := fun i hi =>
    (urgentAt_concat a (hus i hi)).mpr (h.pressing i hi)
  have hordinary : ∀ i ∈ os, OrdinaryAt urgent (log.accept a).accepted i := fun i hi =>
    (ordinaryAt_concat a (hos i hi)).mpr (h.ordinary i hi)
  have hfresh : log.accepted.length ∉ ids := fun hi => Nat.lt_irrefl _ (h.known _ hi)
  have hcover : ∀ i < (log.accept a).accepted.length,
      i = log.accepted.length ∨ i ∈ ids ∨ i ∈ us ∨ i ∈ os := fun i hi => by
    by_cases hin : i < log.accepted.length
    · exact .inr (h.cover i hin)
    · exact .inl (by omega)
  unfold TwoEnded.put
  by_cases hu : urgent a
  · -- the new entry is the newest urgent one
    rw [if_pos hu]
    refine ⟨log.accepted.length :: us, os, ids, ⟨?_, ?_, h.oldest, ?_, hordinary, ?_, ?_, hknown,
      hserved, hbefore⟩⟩
    · rw [List.map_cons, List.cons_append, List.map_cons, hqueue]
      exact congrArg (· :: _) hnum.symm
    · exact List.pairwise_cons.mpr ⟨hus, h.newest⟩
    · exact List.forall_mem_cons.mpr ⟨⟨a, hnum, hu⟩, hurgent⟩
    · intro i hi
      rw [List.mem_cons]
      rcases hcover i hi with hn | hrest
      · exact .inr (.inl (.inl hn))
      · exact hrest.imp_right (Or.imp_left .inr)
    · rw [List.cons_append]
      exact List.forall_mem_cons.mpr ⟨hfresh, h.waiting⟩
  · -- it is the youngest ordinary one
    rw [if_neg hu]
    refine ⟨us, os ++ [log.accepted.length], ids, ⟨?_, h.newest, ?_, hurgent, ?_, ?_, ?_, hknown,
      hserved, hbefore⟩⟩
    · rw [List.map_append, ← List.append_assoc, List.map_append, hqueue]
      exact congrArg (_ ++ [·]) hnum.symm
    · refine List.pairwise_append.mpr ⟨h.oldest, List.pairwise_singleton _ _, fun i hi j hj => ?_⟩
      rw [List.mem_singleton.mp hj]
      exact hos i hi
    · intro i hi
      rcases List.mem_append.mp hi with hi | hi
      · exact hordinary i hi
      · rw [List.mem_singleton.mp hi]
        exact ⟨a, hnum, hu⟩
    · intro i hi
      rw [List.mem_append, List.mem_singleton]
      rcases hcover i hi with hn | hrest
      · exact .inr (.inr (.inr hn))
      · exact hrest.imp_right (Or.imp_right .inl)
    · rw [← List.append_assoc]
      intro i hi
      rcases List.mem_append.mp hi with hi | hi
      · exact h.waiting i hi
      · rw [List.mem_singleton.mp hi]
        exact hfresh

omit [DecidablePred urgent] in
/-- **The first entry is taken out.** -/
theorem take {rest : List α} (h : Inv urgent (a :: rest) log) : Inv urgent rest (log.consume a) := by
  obtain ⟨us, os, ids, h⟩ := h
  have hqueue := h.queue
  have hbefore : ∀ e ∈ (log.consume a).consumed, e.1 ≤ log.accepted.length := fun e he => by
    rcases List.mem_append.mp he with he | he
    · exact h.before e he
    · exact Nat.le_of_eq (congrArg Prod.fst (List.mem_singleton.mp he))
  have hknown {i : Nat} (hi : i < log.accepted.length) : ∀ j ∈ ids ++ [i], j < log.accepted.length :=
    fun j hj => (List.mem_append.mp hj).elim (h.known j) fun hj => List.mem_singleton.mp hj ▸ hi
  cases us with
  | cons i us =>
    obtain ⟨ha, hrest⟩ := List.cons.inj hqueue
    obtain ⟨hmax, hnewest⟩ := List.pairwise_cons.mp h.newest
    obtain ⟨b, hb, hu⟩ := h.pressing i List.mem_cons_self
    have hba : b = a := Option.some.inj (hb.symm.trans ha.symm)
    rw [hba] at hb hu
    have hi : i ∉ ids := h.waiting i List.mem_cons_self
    refine ⟨us, os, ids ++ [i], ⟨hrest, hnewest, h.oldest, fun j hj => h.pressing j
      (List.mem_cons_of_mem i hj), h.ordinary, fun j hj => ?_, fun j hj => ?_,
      hknown (h.pressing i List.mem_cons_self).lt, ?_, hbefore⟩⟩
    · rw [List.mem_append, List.mem_singleton]
      rcases h.cover j hj with hc | hc | hc
      · exact .inl (.inl hc)
      · exact (List.mem_cons.mp hc).imp .inr .inl
      · exact .inr (.inr hc)
    · rw [List.mem_append, List.mem_singleton, not_or]
      refine ⟨h.waiting j (List.mem_cons_of_mem i hj), ?_⟩
      rintro rfl
      rcases List.mem_append.mp hj with hj | hj
      · exact Nat.lt_irrefl _ (hmax j hj)
      · exact (h.ordinary j hj).not_urgentAt ⟨a, hb, hu⟩
    · refine .urgent h.served (h.pressing i List.mem_cons_self).lt hb hi hu fun j hij hj hju => ?_
      rcases h.cover j hj with hc | hc | hc
      · exact hc
      · rcases List.mem_cons.mp hc with rfl | hc
        · exact absurd hij (Nat.lt_irrefl _)
        · exact absurd hij (Nat.lt_asymm (hmax j hc))
      · exact absurd hju (h.ordinary j hc).not_urgentAt
  | nil =>
    cases os with
    | nil => cases hqueue
    | cons i os =>
      obtain ⟨ha, hrest⟩ := List.cons.inj hqueue
      obtain ⟨hmin, holdest⟩ := List.pairwise_cons.mp h.oldest
      obtain ⟨b, hb, hu⟩ := h.ordinary i List.mem_cons_self
      have hba : b = a := Option.some.inj (hb.symm.trans ha.symm)
      rw [hba] at hb hu
      have hi : i ∉ ids := h.waiting i List.mem_cons_self
      refine ⟨[], os, ids ++ [i], ⟨hrest, .nil, holdest, h.pressing, fun j hj => h.ordinary j
        (List.mem_cons_of_mem i hj), fun j hj => ?_, fun j hj => ?_,
        hknown (h.ordinary i List.mem_cons_self).lt, ?_, hbefore⟩⟩
      · rw [List.mem_append, List.mem_singleton]
        rcases h.cover j hj with hc | hc | hc
        · exact .inl (.inl hc)
        · cases hc
        · exact (List.mem_cons.mp hc).imp .inr .inr
      · rw [List.mem_append, List.mem_singleton, not_or]
        refine ⟨h.waiting j (List.mem_cons_of_mem i hj), ?_⟩
        rintro rfl
        exact Nat.lt_irrefl _ (hmin j hj)
      · refine .ordinary h.served (h.ordinary i List.mem_cons_self).lt hb hi hu
          (fun j hj hju => ?_) fun j hji hjo => ?_
        · rcases h.cover j hj with hc | hc | hc
          · exact hc
          · cases hc
          · exact absurd hju (h.ordinary j hc).not_urgentAt
        · rcases h.cover j hjo.lt with hc | hc | hc
          · exact hc
          · cases hc
          · rcases List.mem_cons.mp hc with rfl | hc
            · exact absurd hji (Nat.lt_irrefl _)
            · exact absurd hji (Nat.lt_asymm (hmin j hc))

end Inv

end Sys.TwoEnded
