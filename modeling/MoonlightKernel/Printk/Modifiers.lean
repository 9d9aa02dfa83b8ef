import MoonlightKernel.Printk.Render

/-!
# What the size modifiers do

* `scanModifiers` — the modifiers that `printk_para_size` takes: each row of its table at most once,
  in the order of the table;
* `printkDisplay_accepted_iff` — the conversions that are accepted, and what they write;
* `ModifiersMean` — at most one modifier, which converts the argument;
* `Calls` — the conversions that a run of `wvprintk` comes to;
* `modifiers_mean_iff` — when the modifiers of a format mean that.
-/

set_option autoImplicit false

namespace Moonlight

open Sys

/-- The size modifiers, in the order of the table. -/
inductive Modifier where
  | hh
  | h
  | l
  | t
  | z
  deriving DecidableEq

namespace Modifier

def text : Modifier → List UInt8
  | hh => [104, 104]
  | h => [104]
  | l => [108]
  | t => [116]
  | z => [122]

/-- The size in the table; that of `h` is `sizeof(char)`. -/
def size : Modifier → Nat
  | hh | h => 1
  | l | t | z => 4

/-- The rows of the table. -/
def table : List Modifier := [hh, h, l, t, z]

/-- The argument as a `char` or a `short`, signed for `d` and `i`, and as it is otherwise. -/
def convert (k : Conversion) (w : BitVec 32) : Modifier → BitVec 32
  | hh => if k = .d ∨ k = .i then (w.setWidth 8).signExtend 32 else (w.setWidth 8).setWidth 32
  | h => if k = .d ∨ k = .i then (w.setWidth 16).signExtend 32 else (w.setWidth 16).setWidth 32
  | l | t | z => w

end Modifier

theorem modifierData_eq : modifierData = Modifier.table.map fun m => (m.text, m.size) := rfl

/-! ## The scan -/

/-- The modifiers that are taken, and the format behind them. -/
def scanModifiers : List Modifier → List UInt8 → List Modifier × List UInt8
  | [], fmt => ([], fmt)
  | m :: ms, fmt =>
    if m.text <+: fmt then
      let r := scanModifiers ms (fmt.drop m.text.length)
      (m :: r.1, r.2)
    else scanModifiers ms fmt

/-- The size after some modifiers: that of the last one. -/
def lastSize (size : Nat) (ms : List Modifier) : Nat := ms.foldl (fun _ m => m.size) size

theorem matchModifier_eq {ms fmt : List UInt8} (hms : 0 ∉ ms) (h0 : 0 ∈ fmt) :
    matchModifier ms fmt = some (if ms <+: fmt then some (fmt.drop ms.length) else none) := by
  induction ms generalizing fmt with
  | nil => simp [matchModifier]
  | cons m ms ih =>
    cases fmt with
    | nil => cases h0
    | cons c fmt =>
      rw [matchModifier]
      by_cases hc : m = c
      · have h0' : 0 ∈ fmt := by
          rcases List.mem_cons.mp h0 with rfl | h0
          · exact absurd (hc ▸ List.mem_cons_self) hms
          · exact h0
        rw [if_neg (not_not.mpr hc), ih (fun h => hms (List.mem_cons_of_mem m h)) h0']
        simp [hc]
      · rw [if_pos hc]
        simp [hc]

theorem zero_notMem_text (m : Modifier) : 0 ∉ m.text := by
  cases m <;> decide

theorem zero_mem_drop {fmt ms : List UInt8} (hms : 0 ∉ ms) (hpre : ms <+: fmt) (h0 : 0 ∈ fmt) :
    0 ∈ fmt.drop ms.length := by
  obtain ⟨rest, rfl⟩ := hpre
  rw [List.drop_left]
  exact (List.mem_append.mp h0).resolve_left hms

/-- **The loop of `printk_para_size`** takes the modifiers of the scan. -/
theorem modifierLoop_scan (ms : List Modifier) {fmt : List UInt8} (h0 : 0 ∈ fmt) (para : PrintkPara) :
    modifierLoop (ms.map fun m => (m.text, m.size)) fmt para =
      some ((scanModifiers ms fmt).2,
        { para with size := lastSize para.size (scanModifiers ms fmt).1 }) ∧
    0 ∈ (scanModifiers ms fmt).2 := by
  induction ms generalizing fmt para with
  | nil => exact ⟨rfl, h0⟩
  | cons m ms ih =>
    rw [List.map_cons, modifierLoop, matchModifier_eq (zero_notMem_text m) h0, scanModifiers]
    by_cases hpre : m.text <+: fmt
    · obtain ⟨hloop, hzero⟩ := ih (zero_mem_drop (zero_notMem_text m) hpre h0) { para with size := m.size }
      rw [if_pos hpre, if_pos hpre]
      exact ⟨hloop, hzero⟩
    · obtain ⟨hloop, hzero⟩ := ih h0 para
      rw [if_neg hpre, if_neg hpre]
      exact ⟨hloop, hzero⟩

/-- The format is the modifiers and the rest. -/
theorem scanModifiers_append (ms : List Modifier) (fmt : List UInt8) :
    (scanModifiers ms fmt).1.flatMap Modifier.text ++ (scanModifiers ms fmt).2 = fmt := by
  induction ms generalizing fmt with
  | nil => rfl
  | cons m ms ih =>
    rw [scanModifiers]
    split
    · rename_i hpre
      obtain ⟨rest, rfl⟩ := hpre
      dsimp only
      rw [List.flatMap_cons, List.append_assoc, ih, List.drop_left]
    · exact ih fmt

/-- One modifier, or none, in front of another character. -/
theorem scanModifiers_single (m : Option Modifier) {c : UInt8} (h : NoModifier c) (fmt : List UInt8) :
    scanModifiers Modifier.table (m.elim [] Modifier.text ++ c :: fmt) = (m.toList, c :: fmt) := by
  obtain ⟨h1, h2, h3, h4⟩ := h
  cases m with
  | none => simp [Modifier.table, scanModifiers, Modifier.text, h1.symm, h2.symm, h3.symm, h4.symm]
  | some m =>
    cases m <;> simp [Modifier.table, scanModifiers, Modifier.text, h1.symm, h2.symm, h3.symm, h4.symm]

theorem lastSize_eq (ms : List Modifier) : lastSize 4 ms = 1 ∨ lastSize 4 ms = 4 := by
  have h : ∀ size, size = 1 ∨ size = 4 → lastSize size ms = 1 ∨ lastSize size ms = 4 := by
    induction ms with
    | nil => exact fun _ h => h
    | cons m ms ih => exact fun _ _ => ih m.size (by cases m <;> decide)
  exact h 4 (.inr rfl)

/-! ## What is accepted -/

/-- The conversion takes the size: those that set a size of their own, and characters and strings,
want that of an `int`. -/
def TakesSize (size : Nat) (k : Conversion) : Prop :=
  size = 4 ∨ k ∈ [Conversion.d, .i, .b, .o, .u, .x, .X, .percent]

/-- What a conversion writes, and the arguments that it leaves. -/
def Outputs (mem : Strings) (k : Conversion) (ap ap' : List (BitVec 32)) (out : List UInt8) : Prop :=
  (k = .percent ∧ ap' = ap ∧ out = [37]) ∨
    k ≠ .percent ∧ ∃ w, ap = w :: ap' ∧ k.text mem w = some out ∧ (k.isString = true → Countable out)

theorem char_of_findRow {c : UInt8} {row : ConvRow} (h : findRow c = some row) :
    ∃ k : Conversion, k.char = c ∧ row = k.row := by
  by_cases hk : ∃ k : Conversion, k.char = c
  · obtain ⟨k, rfl⟩ := hk
    rw [k.findRow_char] at h
    exact ⟨k, rfl, (Option.some.inj h).symm⟩
  · rw [findRow_none fun k hc => hk ⟨k, hc⟩] at h
    cases h

theorem char_injective {k k' : Conversion} (h : k.char = k'.char) : k = k' := by
  revert h
  cases k <;> cases k' <;> decide

section display

variable {mem : Strings} {ap ap' : List (BitVec 32)} {out : List UInt8} {para : PrintkPara}

/-- The size that `printk_para_display` sees. -/
theorem setRow_size {k : Conversion} (hrow : k.row.size = 0 ∨ para.size = 4) :
    (para.setRow k.row).size = para.size := by
  have h : k.row.size = 0 ∨ k.row.size = 4 := by
    cases k with
    | p | D | O | C | S => exact .inr rfl
    | _ => exact .inl rfl
  unfold PrintkPara.setRow
  dsimp only
  split
  · rename_i hne
    rw [h.resolve_left hne, hrow.resolve_left hne]
  · rfl

theorem outputs_iff {k : Conversion} (hp : k ≠ .percent) : Outputs mem k ap ap' out ↔
    ∃ w, ap = w :: ap' ∧ k.text mem w = some out ∧ (k.isString = true → Countable out) := by
  simp [Outputs, hp]

theorem text_of_number (mem : Strings) {k : Conversion} (hk : k.isNumber = true)
    (w : BitVec 32) :
    k.isString = false ∧ k ≠ .percent ∧ k.text mem w = some (k.numberText w) := by
  cases k with
  | c | C | s | S | percent => cases hk
  | _ => exact ⟨rfl, by decide, rfl⟩

theorem accepted_number {k : Conversion} (hk : k.isNumber = true) (hpara : para.displayPrefix = 0)
    (hsize : (para.setRow k.row).size ∈ [1, 2, 4]) :
    (∃ ret : Int, ¬ ret < 0 ∧
        printkParaDisplay mem ap (para.setRow k.row) = some (ret, ap', out)) ↔
      Outputs mem k ap ap' out := by
  rw [outputs_iff (text_of_number mem hk 0).2.1]
  cases ap with
  | nil =>
    rw [printkParaDisplay_number_nil hk hpara hsize]
    simp
  | cons w ap =>
    obtain ⟨ret, hret, hdisplay⟩ :=
      printkParaDisplay_number mem w ap hk hpara hsize
    obtain ⟨hstr, -, htext⟩ := text_of_number mem hk w
    rw [hdisplay]
    constructor
    · rintro ⟨_, -, h⟩
      cases h
      exact ⟨w, rfl, htext, fun h => absurd (hstr.symm.trans h) Bool.false_ne_true⟩
    · rintro ⟨w', happ, htext', -⟩
      cases happ
      cases htext.symm.trans htext'
      exact ⟨ret, hret, rfl⟩

/-- A result of -1 is not accepted. -/
theorem not_accepted {written : List UInt8} {left : List (BitVec 32)} :
    ¬ ∃ ret : Int, ¬ ret < 0 ∧ some ((-1 : Int), left, written) = some (ret, ap', out) := by
  rintro ⟨ret, hret, h⟩
  cases h
  exact hret (by decide)

theorem accepted_string {k : Conversion} (hk : k.isString = true) (hpara : para.displayPrefix = 0) :
    (∃ ret : Int, ¬ ret < 0 ∧
        printkParaDisplay mem ap (para.setRow k.row) = some (ret, ap', out)) ↔
      (para.setRow k.row).size = 4 ∧ Outputs mem k ap ap' out := by
  have hp : k ≠ .percent := by
    rintro rfl
    cases hk
  have htext : ∀ w, k.text mem w = cString (mem w) := fun w => if_pos hk
  rw [outputs_iff hp, printkParaDisplay_string hk hpara]
  by_cases h4 : (para.setRow k.row).size = 4
  · rw [if_neg (not_not.mpr h4)]
    cases ap with
    | nil => simp [vaArg]
    | cons w ap =>
      cases hs : cString (mem w) with
      | none => simp [vaArg, hs, htext]
      | some s =>
        simp only [vaArg, Option.bind_some, hs, Option.map_some]
        constructor
        · rintro ⟨ret, hret, h⟩
          cases h
          rw [count_neg_iff, not_not] at hret
          exact ⟨h4, w, rfl, (htext w).trans hs, fun _ => hret⟩
        · rintro ⟨-, w', happ, hs', hcount⟩
          cases happ
          cases ((htext w).trans hs).symm.trans hs'
          refine ⟨_, ?_, rfl⟩
          rw [count_neg_iff, not_not]
          exact hcount hk
  · rw [if_pos h4]
    exact iff_of_false not_accepted fun h => h4 h.1

theorem accepted_char {k : Conversion} (hk : k = .c ∨ k = .C) (hpara : para.displayPrefix = 0) :
    (∃ ret : Int, ¬ ret < 0 ∧
        printkParaDisplay mem ap (para.setRow k.row) = some (ret, ap', out)) ↔
      (para.setRow k.row).size = 4 ∧ Outputs mem k ap ap' out := by
  have hp : k ≠ .percent ∧ k.isString = false ∧ ∀ w, k.text mem w = some [writeChar w] := by
    rcases hk with rfl | rfl <;> exact ⟨by decide, rfl, fun _ => rfl⟩
  rw [outputs_iff hp.1, printkParaDisplay_char hk hpara]
  by_cases h4 : (para.setRow k.row).size = 4
  · rw [if_neg (not_not.mpr h4)]
    cases ap with
    | nil => simp [vaArg]
    | cons w ap =>
      simp only [vaArg, Option.map_some]
      constructor
      · rintro ⟨ret, hret, h⟩
        cases h
        exact ⟨h4, w, rfl, hp.2.2 w, fun h => absurd (hp.2.1.symm.trans h) Bool.false_ne_true⟩
      · rintro ⟨-, w', happ, htext, -⟩
        cases happ
        cases (hp.2.2 w).symm.trans htext
        exact ⟨1, by decide, rfl⟩
  · rw [if_pos h4]
    exact iff_of_false not_accepted fun h => h4 h.1

theorem accepted_percent :
    (∃ ret : Int, ¬ ret < 0 ∧
        printkParaDisplay mem ap (para.setRow Conversion.percent.row) = some (ret, ap', out)) ↔
      Outputs mem .percent ap ap' out := by
  rw [printkParaDisplay_percent]
  constructor
  · rintro ⟨ret, hret, h⟩
    cases h
    exact .inl ⟨rfl, rfl, rfl⟩
  · rintro (⟨-, rfl, rfl⟩ | ⟨hp, -⟩)
    · exact ⟨1, by decide, rfl⟩
    · exact absurd rfl hp

/-- **What `printk_para_display` accepts**, after `printk_para_conv` has. -/
theorem printkParaDisplay_accepted_iff {k : Conversion} (hpara : para.displayPrefix = 0)
    (hsize : para.size = 1 ∨ para.size = 4) (hrow : k.row.size = 0 ∨ para.size = 4) :
    (∃ ret : Int, ¬ ret < 0 ∧
        printkParaDisplay mem ap (para.setRow k.row) = some (ret, ap', out)) ↔
      TakesSize para.size k ∧ Outputs mem k ap ap' out := by
  have hset := setRow_size hrow
  have hmem : (para.setRow k.row).size ∈ [1, 2, 4] := by
    rw [hset]
    rcases hsize with h | h <;> rw [h] <;> decide
  -- the conversions that want the size of an `int`
  have hwant : k ∉ [Conversion.d, .i, .b, .o, .u, .x, .X, .percent] →
      (TakesSize para.size k ↔ (para.setRow k.row).size = 4) := by
    intro hk
    rw [hset]
    exact ⟨fun h => h.resolve_right hk, .inl⟩
  cases k with
  | d | i | b | o | u | x | X =>
    rw [accepted_number rfl hpara hmem]
    exact ⟨fun h => ⟨.inr (by decide), h⟩, And.right⟩
  | p | D | O =>
    rw [accepted_number rfl hpara hmem]
    exact ⟨fun h => ⟨.inl (hrow.resolve_left (by decide)), h⟩, And.right⟩
  | c => rw [hwant (by decide), accepted_char (.inl rfl) hpara]
  | C => rw [hwant (by decide), accepted_char (.inr rfl) hpara]
  | s | S => rw [hwant (by decide), accepted_string rfl hpara]
  | percent =>
    rw [accepted_percent]
    exact ⟨fun h => ⟨.inr (by decide), h⟩, And.right⟩

end display

/-- A conversion that sets a size of its own takes no other than that of an `int`. -/
theorem TakesSize.eq_four {size : Nat} {k : Conversion} (h : TakesSize size k)
    (hrow : k.row.size ≠ 0) : size = 4 := by
  refine h.resolve_right fun hmem => ?_
  cases k with
  | p | D | O | C | S | c | s => exact absurd hmem (by decide)
  | _ => exact hrow rfl

/-- The modifiers and the conversion that a format starts with are those of the scan. -/
theorem exists_scanned_iff {ms : List Modifier} {k : Conversion} {tail fmt' : List UInt8}
    {P : List Modifier → Conversion → Prop} :
    (∃ ms' k', (ms = ms' ∧ k.char = k'.char ∧ tail = fmt') ∧ P ms' k') ↔ tail = fmt' ∧ P ms k := by
  constructor
  · rintro ⟨_, k', ⟨rfl, hchar, htail⟩, hp⟩
    obtain rfl := char_injective hchar
    exact ⟨htail, hp⟩
  · rintro ⟨htail, hp⟩
    exact ⟨ms, k, ⟨rfl, rfl, htail⟩, hp⟩

/-- An error of `printk_display` is not its success. -/
theorem display_error_ne {fmt fmt' out written : List UInt8} {ap ap' : List (BitVec 32)} :
    some ((-1 : Int), fmt, ap, written) ≠ some (0, fmt', ap', out) := by
  intro h
  exact absurd (congrArg Prod.fst (Option.some.inj h)) (show (-1 : Int) ≠ 0 by decide)

/-- **What `printk_display` accepts**: modifiers that the scan takes, and a conversion that takes
their size. -/
theorem printkDisplay_accepted_iff {mem : Strings} {fmt fmt' out : List UInt8}
    {ap ap' : List (BitVec 32)} (h0 : 0 ∈ fmt) :
    printkDisplay mem fmt ap = some (0, fmt', ap', out) ↔
      ∃ ms k, scanModifiers Modifier.table fmt = (ms, k.char :: fmt') ∧ TakesSize (lastSize 4 ms) k ∧
        Outputs mem k ap ap' out := by
  obtain ⟨hloop, hzero⟩ := modifierLoop_scan Modifier.table h0 .start
  rw [← modifierData_eq] at hloop
  generalize hscan : scanModifiers Modifier.table fmt = r at hloop hzero ⊢
  obtain ⟨ms, rest⟩ := r
  obtain ⟨c, tail, rfl⟩ := List.exists_cons_of_ne_nil (List.ne_nil_of_mem hzero)
  obtain ⟨para, hpara, hlast, hdisplay⟩ : ∃ para, printkParaSize fmt .start = some (c :: tail, para) ∧
      para.size = lastSize 4 ms ∧ para.displayPrefix = 0 := ⟨_, hloop, rfl, rfl⟩
  have hsize := lastSize_eq ms
  rw [← hlast] at hsize
  rw [printkDisplay_behind hpara]
  simp only [Prod.mk.injEq, List.cons.injEq]
  cases hrow : findRow c with
  | none =>
    refine iff_of_false display_error_ne ?_
    rintro ⟨_, k, ⟨-, rfl, -⟩, -⟩
    rw [k.findRow_char] at hrow
    cases hrow
  | some row =>
    obtain ⟨k, rfl, rfl⟩ := char_of_findRow hrow
    rw [exists_scanned_iff, ← hlast]
    dsimp only
    by_cases hno : k.row.size ≠ 0 ∧ para.size ≠ 4
    · rw [if_pos hno]
      exact iff_of_false display_error_ne fun h => hno.2 (h.2.1.eq_four hno.1)
    · rw [if_neg hno]
      have hrow : k.row.size = 0 ∨ para.size = 4 := by
        by_contra hor
        exact hno (not_or.mp hor)
      rw [← printkParaDisplay_accepted_iff hdisplay hsize hrow, Option.map_eq_some_iff]
      constructor
      · rintro ⟨⟨ret, ap₁, out₁⟩, hdisplay, h⟩
        dsimp only at h
        split at h
        · exact absurd (congrArg Prod.fst h) (show (-1 : Int) ≠ 0 by decide)
        · rename_i hret
          cases h
          exact ⟨rfl, ret, hret, hdisplay⟩
      · rintro ⟨rfl, ret, hret, hdisplay⟩
        exact ⟨_, hdisplay, by rw [if_neg hret]⟩

/-! ## Numbers are told apart by their texts -/

theorem digitValue_digitChar (d : Nat) (hd : d < 16) : digitValue (digitChar d) = d := by
  unfold digitValue
  rw [(digitChar_spec d hd).1, Int.toNat_natCast]

theorem digitValue_upperChar (d : Nat) (hd : d < 16) : digitValue (upperChar d) = d := by
  decide +revert

theorem digitText_injective {digit : Nat → UInt8} {b m n : Nat} (hb : 1 < b)
    (hdigit : ∀ d < b, digitValue (digit d) = d) (h : digitText digit b m = digitText digit b n) :
    m = n := by
  have hread : ∀ n, (digitText digit b n).map digitValue = numeral b n := by
    intro n
    unfold digitText
    rw [List.map_map]
    exact (List.map_congr_left fun d hd => hdigit d (numeral_lt hb hd)).trans (List.map_id' _)
  rw [← foldl_numeral b m, ← hread m, h, hread n, foldl_numeral]

theorem numeralText_injective {b m n : Nat} (hb : 1 < b) (hb' : b ≤ 16)
    (h : numeralText b m = numeralText b n) : m = n :=
  digitText_injective hb (fun d hd => digitValue_digitChar d (lt_of_lt_of_le hd hb')) h

theorem decimalText_injective {y z : Int} (h : decimalText y = decimalText z) : y = z := by
  -- a digit is no sign
  have hsign : ∀ m n : Nat, 45 :: numeralText 10 m ≠ numeralText 10 n := by
    intro m n heq
    obtain ⟨d, hd, h45⟩ := mem_numeralText (by decide) (heq ▸ List.mem_cons_self)
    exact (digitChar_spec d (by omega)).2.2.2.1 h45.symm
  unfold decimalText at h
  split at h <;> split at h
  · have := numeralText_injective (by decide) (by decide) (List.cons.inj h).2
    omega
  · exact absurd h (hsign _ _)
  · exact absurd h.symm (hsign _ _)
  · have := numeralText_injective (by decide) (by decide) h
    omega

/-- **Two words with the same rendering are the same.** -/
theorem numberText_injective {k : Conversion} (hk : k.isNumber = true) {v w : BitVec 32}
    (h : k.numberText v = k.numberText w) : v = w := by
  have hbase : ∀ {b : Nat}, 1 < b → b ≤ 16 → numeralText b v.toNat = numeralText b w.toNat → v = w :=
    fun hb hb' heq => BitVec.eq_of_toNat_eq (numeralText_injective hb hb' heq)
  cases k with
  | d | i => exact BitVec.eq_of_toInt_eq (decimalText_injective h)
  | u | D => exact BitVec.eq_of_toNat_eq (Int.ofNat.inj (decimalText_injective h))
  | b => exact hbase (by decide) (by decide) (List.append_cancel_left h)
  | o | O => exact hbase (by decide) (by decide) h
  | x => exact hbase (by decide) (by decide) h
  | p => exact hbase (by decide) (by decide) (List.append_cancel_left h)
  | X => exact BitVec.eq_of_toNat_eq (digitText_injective (by decide) digitValue_upperChar h)
  | c | C | s | S | percent => cases hk

/-! ## Formats -/

/-- What the modifiers should mean, at the conversion that starts with `fmt`: a conversion that is
accepted has one of them at most, and a number is written as the converted argument. -/
def ModifiersMean (mem : Strings) (fmt : List UInt8) (ap : List (BitVec 32)) : Prop :=
  ∀ fmt' ap' out, printkDisplay mem fmt ap = some (0, fmt', ap', out) →
    ∃ (m : Option Modifier) (k : Conversion), fmt = m.elim [] Modifier.text ++ k.char :: fmt' ∧
      (k.isNumber = true → ∃ w, ap = w :: ap' ∧ out = k.numberText (m.elim w (Modifier.convert k w)))

/-- A conversion with arguments that match it has one modifier at most, and one that does not change
the argument of a number. -/
def Straight (mem : Strings) (fmt : List UInt8) (ap : List (BitVec 32)) : Prop :=
  ∀ ms k fmt' ap' out, scanModifiers Modifier.table fmt = (ms, k.char :: fmt') →
    TakesSize (lastSize 4 ms) k → Outputs mem k ap ap' out →
      ms.length ≤ 1 ∧ (k.isNumber = true → ∀ w, ap = w :: ap' → ∀ m ∈ ms, m.convert k w = w)

theorem modifiersMean_iff {mem : Strings} {fmt : List UInt8} {ap : List (BitVec 32)} (h0 : 0 ∈ fmt) :
    ModifiersMean mem fmt ap ↔ Straight mem fmt ap := by
  constructor
  · intro hmean ms k fmt' ap' out hscan htakes hwrites
    obtain ⟨m, k', hfmt, hnumber⟩ :=
      hmean fmt' ap' out ((printkDisplay_accepted_iff h0).mpr ⟨ms, k, hscan, htakes, hwrites⟩)
    rw [hfmt, scanModifiers_single m (noModifier_char k')] at hscan
    obtain ⟨rfl, hrest⟩ := Prod.mk.inj hscan
    obtain rfl := char_injective (List.cons.inj hrest).1
    refine ⟨by cases m <;> simp, fun hk w hap m' hm' => ?_⟩
    obtain rfl := Option.mem_toList.mp hm'
    obtain ⟨w', hap', hout⟩ := hnumber hk
    cases hap.symm.trans hap'
    obtain ⟨-, hp, htext⟩ := text_of_number mem hk w
    obtain ⟨w', hap', hout', -⟩ := (outputs_iff hp).mp hwrites
    cases hap.symm.trans hap'
    rw [htext] at hout'
    exact (numberText_injective hk ((Option.some.inj hout').trans hout)).symm
  · intro hstraight fmt' ap' out hdisplay
    obtain ⟨ms, k, hscan, htakes, hwrites⟩ := (printkDisplay_accepted_iff h0).mp hdisplay
    obtain ⟨hlen, hconvert⟩ := hstraight ms k fmt' ap' out hscan htakes hwrites
    have hfmt := scanModifiers_append Modifier.table fmt
    rw [hscan] at hfmt
    have hnumber : k.isNumber = true → ∃ w, ap = w :: ap' ∧ out = k.numberText w := by
      intro hk
      obtain ⟨-, hp, htext⟩ := text_of_number mem hk 0
      obtain ⟨w, hap, hout, -⟩ := (outputs_iff hp).mp hwrites
      rw [(text_of_number mem hk w).2.2] at hout
      exact ⟨w, hap, (Option.some.inj hout).symm⟩
    match ms, hlen with
    | [], _ => exact ⟨none, k, hfmt.symm, hnumber⟩
    | [m], _ =>
      refine ⟨some m, k, ?_, fun hk => ?_⟩
      · rw [← hfmt]
        simp
      · obtain ⟨w, hap, hout⟩ := hnumber hk
        exact ⟨w, hap, hout.trans (congrArg k.numberText
          (hconvert hk w hap m List.mem_cons_self).symm)⟩

/-- The conversions that a run of `wvprintk` comes to, each with the format behind its `%` and the
arguments that are left. -/
inductive Calls (mem : Strings) : List UInt8 → List (BitVec 32) → List UInt8 → List (BitVec 32) → Prop
  | here (fmt : List UInt8) (ap : List (BitVec 32)) : Calls mem (37 :: fmt) ap fmt ap
  | literal {c : UInt8} {fmt f : List UInt8} {ap a : List (BitVec 32)} (h0 : c ≠ 0) (hc : c ≠ 37)
      (h : Calls mem fmt ap f a) : Calls mem (c :: fmt) ap f a
  | after {fmt fmt' f out : List UInt8} {ap ap' a : List (BitVec 32)}
      (hdisplay : printkDisplay mem fmt ap = some (0, fmt', ap', out)) (h : Calls mem fmt' ap' f a) :
      Calls mem (37 :: fmt) ap f a

theorem Calls.zero_mem {mem : Strings} {fmt f : List UInt8} {ap a : List (BitVec 32)}
    (h : Calls mem fmt ap f a) (h0 : 0 ∈ fmt) : 0 ∈ f := by
  induction h with
  | here fmt ap => exact (List.mem_cons.mp h0).resolve_left (by decide)
  | literal hc _ _ ih => exact ih ((List.mem_cons.mp h0).resolve_left hc.symm)
  | @after fmt fmt' f out ap ap' a hdisplay _ ih =>
    have hfmt : 0 ∈ fmt := (List.mem_cons.mp h0).resolve_left (by decide)
    obtain ⟨ms, k, hscan, -⟩ := (printkDisplay_accepted_iff hfmt).mp hdisplay
    have hrest := (modifierLoop_scan Modifier.table hfmt .start).2
    rw [hscan] at hrest
    refine ih ((List.mem_cons.mp hrest).resolve_left fun hk => ?_)
    exact absurd hk (by cases k <;> decide)

/-- **The modifiers of a format mean what they say** exactly when every conversion that its run comes
to has one at most and an argument in its range. -/
theorem modifiers_mean_iff (mem : Strings) (fmt : List UInt8) (hfmt : 0 ∈ fmt)
    (ap : List (BitVec 32)) :
    (∀ f a, Calls mem fmt ap f a → ModifiersMean mem f a) ↔
      ∀ f a, Calls mem fmt ap f a → Straight mem f a :=
  forall₂_congr fun _ _ => forall_congr' fun h => modifiersMean_iff (h.zero_mem hfmt)

/-- `"%hhx"` of 255. -/
theorem modifiers_mean_sample : ModifiersMean (fun _ => [0]) [104, 104, 120, 0] [255] := by
  have hscan : scanModifiers Modifier.table [104, 104, 120, 0] = ([.hh], [120, 0]) := by decide
  refine (modifiers_mean_iff (fun _ => [0]) [37, 104, 104, 120, 0] (by decide) [255]).mpr ?_ _ _
    (.here _ _)
  intro f a h
  cases h with
  | here =>
    intro ms k fmt' ap' out hk _ _
    obtain ⟨rfl, hrest⟩ := Prod.mk.inj (hscan.symm.trans hk)
    obtain rfl := char_injective (k := .x) (List.cons.inj hrest).1
    refine ⟨Nat.le_refl 1, fun _ w hap m hm => ?_⟩
    cases hap
    rw [List.mem_singleton.mp hm]
    decide
  | literal _ hc => exact absurd rfl hc
  | after hdisplay h =>
    -- behind the conversion the format ends
    obtain ⟨ms, k, hk, -⟩ := (printkDisplay_accepted_iff (by decide)).mp hdisplay
    obtain ⟨-, hrest⟩ := Prod.mk.inj (hscan.symm.trans hk)
    obtain ⟨-, rfl⟩ := List.cons.inj hrest
    cases h with
    | literal h0 => exact absurd rfl h0

/-- `"%hhd"` of 300 writes 300, where the `char` is 44, and `"%hld"` is accepted. -/
theorem modifiers_ignored :
    wvprintk (fun _ => [0]) [37, 104, 104, 100, 0] [300] = some (0, [], [51, 48, 48]) ∧
      ¬ ModifiersMean (fun _ => [0]) [104, 104, 100, 0] [300] ∧
      wvprintk (fun _ => [0]) [37, 104, 108, 100, 0] [5] = some (0, [], [53]) ∧
      ¬ ModifiersMean (fun _ => [0]) [104, 108, 100, 0] [5] := by
  have hwhole : printkDisplay (fun _ => [0]) [104, 104, 100, 0] [300] =
      some (0, [0], [], [51, 48, 48]) := by decide +kernel
  have htwo : printkDisplay (fun _ => [0]) [104, 108, 100, 0] [5] = some (0, [0], [], [53]) := by
    decide +kernel
  refine ⟨?_, ?_, ?_, ?_⟩
  · exact (wvprintkLoop_accepted hwhole).trans (by rw [wvprintkLoop_end]; rfl)
  · rw [modifiersMean_iff (by decide)]
    intro h
    have hconvert := (h [.hh] .d [0] [] [51, 48, 48] (by decide) (.inr (by decide))
      (.inr ⟨by decide, 300, rfl, by decide +kernel, fun h => nomatch h⟩)).2 rfl 300 rfl .hh
      List.mem_cons_self
    exact absurd hconvert (by decide)
  · exact (wvprintkLoop_accepted htwo).trans (by rw [wvprintkLoop_end]; rfl)
  · rw [modifiersMean_iff (by decide)]
    intro h
    have hlen := (h [.h, .l] .d [0] [] [53] (by decide) (.inr (by decide))
      (.inr ⟨by decide, 5, rfl, by decide +kernel, fun h => nomatch h⟩)).1
    exact absurd hlen (by decide)

end Moonlight
