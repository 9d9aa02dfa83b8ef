import MoonlightKernel.Printk.Format

/-!
# What a format means

A format is a list of literal characters and conversions.  `render` says what it stands for: the
literals, and for each conversion its argument in the notation of the conversion.

* `Conversion`, `Item` — the parts of a format; `render` — its text;
* `printkDisplay_conversion` — a conversion writes its rendering and takes its argument;
* `wvprintkLoop_items` — so does a list of items, while `Countable` holds: `printk_para_display`
  returns the length of a string as an `int`, and a length from `2 ^ 31` on is taken for an error;
* `printk_renders_iff` — when a format is rendered.
-/

set_option autoImplicit false

namespace Moonlight

open Sys

/-- The conversions; `percent` is `%%`. -/
inductive Conversion where
  | d
  | i
  | b
  | o
  | u
  | x
  | p
  | X
  | D
  | O
  | c
  | C
  | s
  | S
  | percent
  deriving DecidableEq

namespace Conversion

/-- The character after the `%`. -/
def char : Conversion → UInt8
  | d => 100
  | i => 105
  | b => 98
  | o => 111
  | u => 117
  | x => 120
  | p => 112
  | X => 88
  | D => 68
  | O => 79
  | c => 99
  | C => 67
  | s => 115
  | S => 83
  | percent => 37

/-- The conversions of numbers. -/
def isNumber : Conversion → Bool
  | c | C | s | S | percent => false
  | _ => true

/-- The conversions of strings. -/
def isString : Conversion → Bool
  | s | S => true
  | _ => false

end Conversion

/-- An integer in decimal. -/
def decimalText (z : Int) : List UInt8 := (if z < 0 then [45] else []) ++ numeralText 10 z.natAbs

/-- The character of a digit, in capitals. -/
def upperChar (d : Nat) : UInt8 := upperDigits.getD d 0

/-- The rendering of a number; `D` is unsigned, as `u` is. -/
def Conversion.numberText (w : BitVec 32) : Conversion → List UInt8
  | d | i => decimalText w.toInt
  | u | D => decimalText w.toNat
  | b => [48, 98] ++ numeralText 2 w.toNat
  | o | O => numeralText 8 w.toNat
  | x => numeralText 16 w.toNat
  | p => [48, 120] ++ numeralText 16 w.toNat
  | X => digitText upperChar 16 w.toNat
  | _ => []

/-- The rendering of an argument; a string has to end. -/
def Conversion.text (mem : Strings) (k : Conversion) (w : BitVec 32) : Option (List UInt8) :=
  if k.isString then cString (mem w)
  else if k.isNumber then some (k.numberText w)
  else some [writeChar w]

/-- A part of a format.  A literal is neither the end of the string nor a `%`. -/
inductive Item where
  | literal (c : {c : UInt8 // c ≠ 0 ∧ c ≠ 37})
  | conversion (k : Conversion)

/-- How a part is written in the format. -/
def Item.format : Item → List UInt8
  | literal c => [c.val]
  | conversion k => [37, k.char]

/-- The rendering of a list of parts and the arguments that are left; `none` if the arguments do not
match: there are too few, or a string does not end. -/
def render (mem : Strings) : List Item → List (BitVec 32) → Option (List UInt8 × List (BitVec 32))
  | [], ap => some ([], ap)
  | .literal c :: items, ap => (render mem items ap).map fun r => (c.val :: r.1, r.2)
  | .conversion .percent :: items, ap => (render mem items ap).map fun r => (37 :: r.1, r.2)
  | .conversion _ :: _, [] => none
  | .conversion k :: items, w :: ap => do
    let text ← k.text mem w
    let r ← render mem items ap
    return (text ++ r.1, r.2)

/-- The strings that the parts write. -/
def stringArgs (mem : Strings) : List Item → List (BitVec 32) → List (List UInt8)
  | [], _ => []
  | .literal _ :: items, ap => stringArgs mem items ap
  | .conversion .percent :: items, ap => stringArgs mem items ap
  | .conversion _ :: _, [] => []
  | .conversion k :: items, w :: ap =>
    (if k.isString then (cString (mem w)).toList else []) ++ stringArgs mem items ap

/-- The length of the string, as a word of 32 bits, is not negative as an `int`. -/
def Countable (s : List UInt8) : Prop := s.length % 2 ^ 32 < 2 ^ 31

instance (s : List UInt8) : Decidable (Countable s) := inferInstanceAs (Decidable (_ < _))

/-! ## Strings in memory -/

theorem writeStr_padded {s : List UInt8} {n : Nat} (h : s.length < n) (hs : 0 ∉ s) :
    writeStr (padded 0 n s) = some (BitVec.ofNat 32 s.length, s) := by
  rw [padded_of_lt h, writeStr, cString_append hs]
  rfl

/-- A count is negative as an `int` from `2 ^ 31` on. -/
theorem count_neg_iff (n : Nat) : (BitVec.ofNat 32 n).toInt < 0 ↔ ¬ n % 2 ^ 32 < 2 ^ 31 := by
  rw [BitVec.toInt_eq_toNat_cond, BitVec.toNat_ofNat]
  split <;> omega

/-! ## Numbers -/

namespace Conversion

/-- The row of a conversion. -/
def row (k : Conversion) : ConvRow := (findRow k.char).getD ⟨0, .NONE, 0, 0, [0], [0], 0⟩

theorem findRow_char (k : Conversion) : findRow k.char = some k.row := by
  cases k <;> rfl

/-- The text before the digits. -/
def numberPrefix : Conversion → List UInt8
  | b => [48, 98]
  | p => [48, 120]
  | _ => []

/-- The digits, with their sign. -/
def digits (w : BitVec 32) : Conversion → List UInt8
  | d | i => decimalText w.toInt
  | u | D => decimalText w.toNat
  | b => numeralText 2 w.toNat
  | o | O => numeralText 8 w.toNat
  | x | p => numeralText 16 w.toNat
  | X => digitText upperChar 16 w.toNat
  | _ => []

theorem numberPrefix_digits (k : Conversion) (w : BitVec 32) :
    k.numberPrefix ++ k.digits w = k.numberText w := by
  cases k <;> rfl

end Conversion

section numbers

variable {b : Nat} {set : List UInt8} {digit : Nat → UInt8} {w : BitVec 32}

/-- A number that is printed without a sign. -/
theorem itoaStackMax_unsigned (hb : 1 < b) (hlen : itoaStackMaxLen set = some b)
    (hset : ∀ d < b, set[d]? = some (digit d)) {isUnsigned : Int}
    (h : ¬ (isUnsigned = 0 ∧ w.slt 0)) :
    itoaStackMax set 0 isUnsigned w nbrBuff = some (((digitText digit b w.toNat).length : Int),
      padded 0 132 (digitText digit b w.toNat)) := by
  have hroom : (digitText digit b w.toNat).length ≤ 32 := digitText_length_le hb w.isLt
  rw [nbrBuff_eq]
  exact itoaStackMax_digits (s := []) hb hlen hset h (by rw [List.length_nil]; omega)

theorem itoaStackMax_base (hb : 1 < b) (hb' : b ≤ 16) :
    itoaStackMax (charSet b) 0 1 w nbrBuff = some (((numeralText b w.toNat).length : Int),
      padded 0 132 (numeralText b w.toNat)) :=
  itoaStackMax_unsigned hb (charSet_length hb') (fun _ hd => charSet_digit hb' hd)
    fun h => absurd h.1 (by decide)

/-- The magnitude of a negative word. -/
theorem neg_toNat (h : w.toInt < 0) : (-w).toNat = w.toInt.natAbs := by
  have hlt := w.isLt
  rw [BitVec.toInt_eq_toNat_cond] at h ⊢
  rw [BitVec.toNat_neg]
  split at h
  · omega
  · rename_i hge
    rw [if_neg hge, Nat.mod_eq_of_lt (by omega)]
    omega

/-- **A signed number** in decimal. -/
theorem itoaStackMax_signed : ∃ n, itoaStackMax (charSet 10) 0 0 w nbrBuff =
    some (n, padded 0 132 (decimalText w.toInt)) := by
  have hslt : w.slt 0 = true ↔ w.toInt < 0 := decide_eq_true_iff
  unfold decimalText
  by_cases hneg : w.toInt < 0
  · rw [if_pos hneg, ← neg_toNat hneg]
    exact ⟨_, itoaStackMax_neg (by decide) (by decide) (hslt.mpr hneg)⟩
  · have hnat : w.toInt.natAbs = w.toNat := by
      rw [BitVec.toInt_eq_toNat_cond] at hneg ⊢
      split at hneg <;> rename_i hlt
      · rw [if_pos hlt, Int.natAbs_natCast]
      · omega
    rw [if_neg hneg, hnat]
    exact ⟨_, itoaStackMax_unsigned (by decide) (charSet_length (by decide))
      (fun _ hd => charSet_digit (by decide) hd) fun h => hneg (hslt.mp h.2)⟩

theorem decimalText_nat (n : Nat) : decimalText n = numeralText 10 n := by
  unfold decimalText
  rw [if_neg (by omega), Int.natAbs_natCast]
  rfl

theorem upperChar_get (d : Nat) (hd : d < 16) : (upperDigits ++ [0])[d]? = some (upperChar d) := by
  decide +revert

theorem upperChar_ne_zero (d : Nat) (hd : d < 16) : upperChar d ≠ 0 := by
  decide +revert

/-- **What `itoa_stack_max` makes of a number**, for every conversion. -/
theorem itoaStackMax_row {k : Conversion} (hk : k.isNumber = true) :
    ∃ n, itoaStackMax k.row.charSet 0 k.row.isUnsigned w nbrBuff =
      some (n, padded 0 132 (k.digits w)) := by
  have hdecimal : ∃ n, itoaStackMax (charSet 10) 0 1 w nbrBuff =
      some (n, padded 0 132 (decimalText w.toNat)) := by
    rw [decimalText_nat]
    exact ⟨_, itoaStackMax_base (by decide) (by decide)⟩
  cases k with
  | d | i => exact itoaStackMax_signed
  | u | D => exact hdecimal
  | b | o | O | x | p => exact ⟨_, itoaStackMax_base (by decide) (by decide)⟩
  | X =>
    exact ⟨_, itoaStackMax_unsigned (by decide) (by decide) upperChar_get
      fun h => absurd h.1 (by decide)⟩
  | _ => cases hk

/-- The digits are a short text without a null byte. -/
theorem digits_short (k : Conversion) : (k.digits w).length ≤ 33 ∧ 0 ∉ k.digits w := by
  have hbase : ∀ b, 1 < b → b ≤ 16 → ∀ n, n < 2 ^ 32 →
      (numeralText b n).length ≤ 33 ∧ 0 ∉ numeralText b n := fun b hb hb' n hn =>
    ⟨(numeralText_length_le hb hn).trans (by decide), zero_notMem_numeralText hb hb'⟩
  have hdecimal : ∀ z : Int, z.natAbs < 2 ^ 32 →
      (decimalText z).length ≤ 33 ∧ 0 ∉ decimalText z := by
    intro z hz
    have hlen := numeralText_length_le (b := 10) (by decide) hz
    have hzero := (hbase 10 (by decide) (by decide) _ hz).2
    unfold decimalText
    split
    · rw [List.singleton_append, List.length_cons, List.mem_cons, not_or]
      exact ⟨by omega, by decide, hzero⟩
    · exact ⟨by rw [List.nil_append]; omega, hzero⟩
  have hint : w.toInt.natAbs < 2 ^ 32 := by
    have := w.isLt
    rw [BitVec.toInt_eq_toNat_cond]
    split <;> omega
  cases k with
  | d | i => exact hdecimal _ hint
  | u | D => exact hdecimal _ (by rw [Int.natAbs_natCast]; exact w.isLt)
  | b | o | O | x | p => exact hbase _ (by decide) (by decide) _ w.isLt
  | X =>
    refine ⟨(digitText_length_le (by decide) w.isLt).trans (by decide), fun h0 => ?_⟩
    obtain ⟨d, hd, h0⟩ := mem_digitText (by decide) h0
    exact upperChar_ne_zero d hd h0.symm
  | c | C | s | S | percent => exact ⟨Nat.zero_le _, List.not_mem_nil⟩

/-- The text before the digits, as `printk_para_display` writes it. -/
theorem writePrefix_row {k : Conversion} (hk : k.isNumber = true) {para : PrintkPara}
    (hpara : para.displayPrefix = 0) : writePrefix (para.setRow k.row) =
      some (BitVec.ofNat 32 k.numberPrefix.length, k.numberPrefix) := by
  unfold writePrefix PrintkPara.setRow
  rw [hpara]
  cases k with
  | c | C | s | S | percent => cases hk
  | _ => rfl

theorem type_of_number {k : Conversion} (hk : k.isNumber = true) (para : PrintkPara) :
    (para.setRow k.row).type = .INT := by
  cases k with
  | c | C | s | S | percent => cases hk
  | _ => rfl

/-- **A number is written**, whatever its size. -/
theorem printkParaDisplay_number (mem : Strings) (w : BitVec 32) (ap : List (BitVec 32))
    {k : Conversion} (hk : k.isNumber = true) {para : PrintkPara} (hpara : para.displayPrefix = 0)
    (hsize : (para.setRow k.row).size ∈ [1, 2, 4]) :
    ∃ ret : Int, ¬ ret < 0 ∧
      printkParaDisplay mem (w :: ap) (para.setRow k.row) = some (ret, ap, k.numberText w) := by
  obtain ⟨n, hitoa⟩ := itoaStackMax_row (w := w) hk
  obtain ⟨hlen, hzero⟩ := digits_short (w := w) k
  have hlead : k.numberPrefix.length ≤ 2 := by cases k <;> decide
  have hset : (para.setRow k.row).charSet = k.row.charSet := rfl
  have hsign : (para.setRow k.row).isUnsigned = k.row.isUnsigned := rfl
  refine ⟨(BitVec.ofNat 32 ((k.digits w).length + k.numberPrefix.length)).toInt, ?_, ?_⟩
  · rw [count_neg_iff, not_not]
    omega
  · unfold printkParaDisplay
    rw [writePrefix_row hk hpara, type_of_number hk, hset, hsign]
    simp only [bind, Option.bind_some, pure, vaArg, hitoa, hsize, not_true, if_false,
      writeStr_padded (show (k.digits w).length < 132 by omega) hzero]
    rw [← BitVec.ofNat_add, Conversion.numberPrefix_digits]

/-- Without an argument there is nothing to write. -/
theorem printkParaDisplay_number_nil {mem : Strings} {k : Conversion} (hk : k.isNumber = true)
    {para : PrintkPara} (hpara : para.displayPrefix = 0)
    (hsize : (para.setRow k.row).size ∈ [1, 2, 4]) :
    printkParaDisplay mem [] (para.setRow k.row) = none := by
  unfold printkParaDisplay
  rw [writePrefix_row hk hpara, type_of_number hk]
  simp only [bind, Option.bind_some, hsize, not_true, if_false, vaArg, Option.bind_none]

end numbers

/-! ## Strings and characters -/

section texts

variable {mem : Strings} {k : Conversion} {para : PrintkPara}

/-- A string of any size but that of an `int` is refused. -/
theorem printkParaDisplay_string (hk : k.isString = true) (hpara : para.displayPrefix = 0)
    (ap : List (BitVec 32)) : printkParaDisplay mem ap (para.setRow k.row) =
      if (para.setRow k.row).size ≠ 4 then some (-1, ap, [])
      else (vaArg ap).bind fun r => (cString (mem r.1)).map fun s =>
        ((BitVec.ofNat 32 s.length).toInt, r.2, s) := by
  have hlead : writePrefix (para.setRow k.row) = some (0, []) := by
    unfold writePrefix PrintkPara.setRow
    rw [hpara]
    cases k with
    | s | S => rfl
    | _ => cases hk
  have htype : (para.setRow k.row).type = .STRING := by
    cases k with
    | s | S => rfl
    | _ => cases hk
  unfold printkParaDisplay
  rw [hlead, htype]
  simp only [bind, Option.bind_some, pure]
  split
  · rfl
  · cases vaArg ap with
    | none => rfl
    | some r =>
      cases hs : cString (mem r.1) with
      | none => simp [writeStr, hs]
      | some s => simp [writeStr, hs]

/-- So is a character. -/
theorem printkParaDisplay_char (hk : k = .c ∨ k = .C) (hpara : para.displayPrefix = 0)
    (ap : List (BitVec 32)) : printkParaDisplay mem ap (para.setRow k.row) =
      if (para.setRow k.row).size ≠ 4 then some (-1, ap, [])
      else (vaArg ap).map fun r => (1, r.2, [writeChar r.1]) := by
  have hlead : writePrefix (para.setRow k.row) = some (0, []) := by
    unfold writePrefix PrintkPara.setRow
    rw [hpara]
    rcases hk with rfl | rfl <;> rfl
  have htype : (para.setRow k.row).type = .CHAR := by
    rcases hk with rfl | rfl <;> rfl
  unfold printkParaDisplay
  rw [hlead, htype]
  simp only [bind, Option.bind_some, pure]
  split
  · rfl
  · cases vaArg ap <;> rfl

theorem printkParaDisplay_percent (para : PrintkPara) (ap : List (BitVec 32)) :
    printkParaDisplay mem ap (para.setRow Conversion.percent.row) = some (1, ap, [37]) := rfl

end texts

/-! ## One conversion -/

theorem noModifier_char (k : Conversion) : NoModifier k.char := by
  cases k <;> decide

section conversion

variable {mem : Strings} {ap : List (BitVec 32)} {k : Conversion} {w : BitVec 32} {tail : List UInt8}

/-- `printk_display` at a conversion without a modifier. -/
theorem printkDisplay_char (k : Conversion) (tail : List UInt8) (ap : List (BitVec 32)) :
    printkDisplay mem (k.char :: tail) ap =
      (printkParaDisplay mem ap (PrintkPara.start.setRow k.row)).map fun r =>
        (if r.1 < 0 then -1 else 0, tail, r.2) := by
  rw [printkDisplay_behind (printkParaSize_plain (noModifier_char k) tail .start), k.findRow_char]
  exact if_neg fun h => h.2 rfl

theorem printkDisplay_percent : printkDisplay mem (37 :: tail) ap = some (0, tail, ap, [37]) :=
  printkDisplay_char .percent tail ap

/-- **A string** is written, and a long one taken for an error. -/
theorem printkDisplay_string (ap : List (BitVec 32)) (tail : List UInt8)
    (hk : k.isString = true) {s : List UInt8} (hs : cString (mem w) = some s) :
    printkDisplay mem (k.char :: tail) (w :: ap) =
      some (if Countable s then 0 else -1, tail, ap, s) := by
  have hsize : (PrintkPara.start.setRow k.row).size = 4 := by
    cases k with
    | s | S => rfl
    | _ => cases hk
  have hdisplay : printkParaDisplay mem (w :: ap) (PrintkPara.start.setRow k.row) =
      some ((BitVec.ofNat 32 s.length).toInt, ap, s) := by
    rw [printkParaDisplay_string hk rfl, if_neg (not_not.mpr hsize)]
    simp only [vaArg, Option.bind_some, hs, Option.map_some]
  rw [printkDisplay_char, hdisplay, Option.map_some]
  by_cases hlen : Countable s
  · rw [if_neg (by rw [count_neg_iff, not_not]; exact hlen), if_pos hlen]
  · rw [if_pos ((count_neg_iff _).mpr hlen), if_neg hlen]

/-- **Any other conversion** writes its rendering and takes its argument. -/
theorem printkDisplay_other (hk : k.isString = false) (hp : k ≠ .percent) {text : List UInt8}
    (htext : k.text mem w = some text) :
    printkDisplay mem (k.char :: tail) (w :: ap) = some (0, tail, ap, text) := by
  unfold Conversion.text at htext
  rw [hk, if_neg Bool.false_ne_true] at htext
  by_cases hnum : k.isNumber = true
  · rw [if_pos hnum] at htext
    cases htext
    have hsize : (PrintkPara.start.setRow k.row).size ∈ [1, 2, 4] := by cases k <;> decide
    obtain ⟨ret, hret, hdisplay⟩ :=
      printkParaDisplay_number mem w ap hnum rfl hsize
    rw [printkDisplay_char, hdisplay, Option.map_some, if_neg hret]
  · rw [if_neg hnum] at htext
    cases htext
    cases k with
    | c | C => exact printkDisplay_char _ tail (w :: ap)
    | s | S => cases hk
    | percent => exact absurd rfl hp
    | _ => exact absurd rfl hnum

end conversion

/-! ## A list of parts -/

/-- The text of a list of parts. -/
def formatOf (items : List Item) : List UInt8 := items.flatMap Item.format

section items

variable {mem : Strings}

/-- One conversion of a list: what is rendered, and the strings. -/
theorem render_conversion {k : Conversion} (hp : k ≠ .percent) {items : List Item}
    {ap rest : List (BitVec 32)} {out : List UInt8}
    (h : render mem (.conversion k :: items) ap = some (out, rest)) :
    ∃ w ap' text out', ap = w :: ap' ∧ k.text mem w = some text ∧
      render mem items ap' = some (out', rest) ∧ out = text ++ out' ∧
      stringArgs mem (.conversion k :: items) ap =
        (if k.isString then [text] else []) ++ stringArgs mem items ap' := by
  cases ap with
  | nil => cases k <;> first | cases h | exact absurd rfl hp
  | cons w ap' =>
    have hstep : render mem (.conversion k :: items) (w :: ap') = (do
        let text ← k.text mem w
        let r ← render mem items ap'
        return (text ++ r.1, r.2)) := by
      cases k <;> first | rfl | exact absurd rfl hp
    have hstrings : stringArgs mem (.conversion k :: items) (w :: ap') =
        (if k.isString then (cString (mem w)).toList else []) ++ stringArgs mem items ap' := by
      cases k <;> first | rfl | exact absurd rfl hp
    rw [hstep] at h
    obtain ⟨text, htext, h⟩ := Option.bind_eq_some_iff.mp h
    obtain ⟨⟨out', rest'⟩, hrest, h⟩ := Option.bind_eq_some_iff.mp h
    cases h
    refine ⟨w, ap', text, out', rfl, htext, hrest, rfl, ?_⟩
    rw [hstrings]
    split
    · rename_i hk
      rw [Conversion.text, if_pos hk] at htext
      rw [htext]
      rfl
    · rfl

/-- A literal or a `%%`: one character, and no argument. -/
theorem plain_item {item : Item} (h : ¬ ∃ k, item = .conversion k ∧ k ≠ .percent)
    (items : List Item) (fmt : List UInt8) (ap : List (BitVec 32)) (ret : BitVec 32) :
    ∃ c : UInt8,
      wvprintkLoop mem (formatOf (item :: items) ++ fmt) ap ret =
        emit [c] (wvprintkLoop mem (formatOf items ++ fmt) ap ret) ∧
      render mem (item :: items) ap = (render mem items ap).map (fun r => (c :: r.1, r.2)) ∧
      stringArgs mem (item :: items) ap = stringArgs mem items ap := by
  cases item with
  | literal c => exact ⟨c.val, wvprintkLoop_literal c.property.1 c.property.2, rfl, rfl⟩
  | conversion k =>
    obtain rfl : k = .percent := by
      by_contra hk
      exact h ⟨k, rfl, hk⟩
    exact ⟨37, wvprintkLoop_accepted printkDisplay_percent, rfl, rfl⟩

/-- What is written before the other parts does not matter for an error. -/
theorem emit_error {text : List UInt8} {r : Option (BitVec 32 × List (BitVec 32) × List UInt8)}
    (h : ∃ ap out, r = some (-1, ap, out)) : ∃ ap out, emit text r = some (-1, ap, out) := by
  obtain ⟨ap, out, rfl⟩ := h
  exact ⟨ap, _, rfl⟩

/-- **The parts are rendered one by one**, while the strings are countable; otherwise the call ends
with an error. -/
theorem wvprintkLoop_items (items : List Item) {ap rest : List (BitVec 32)} {out : List UInt8}
    (h : render mem items ap = some (out, rest)) (fmt : List UInt8) (ret : BitVec 32) :
    ((∀ s ∈ stringArgs mem items ap, Countable s) →
      wvprintkLoop mem (formatOf items ++ fmt) ap ret = emit out (wvprintkLoop mem fmt rest ret)) ∧
    ((∃ s ∈ stringArgs mem items ap, ¬ Countable s) →
      ∃ ap' out', wvprintkLoop mem (formatOf items ++ fmt) ap ret = some (-1, ap', out')) := by
  induction items generalizing ap out with
  | nil =>
    cases h
    refine ⟨fun _ => (emit_nil _).symm, ?_⟩
    rintro ⟨s, hs, -⟩
    cases hs
  | cons item items ih =>
    by_cases hplain : ∃ k, item = .conversion k ∧ k ≠ .percent
    · obtain ⟨k, rfl, hp⟩ := hplain
      obtain ⟨w, ap', text, out', rfl, htext, hrest, rfl, hstrings⟩ := render_conversion hp h
      have hformat : formatOf (.conversion k :: items) ++ fmt =
          37 :: k.char :: (formatOf items ++ fmt) := rfl
      obtain ⟨hgood, hbad⟩ := ih hrest
      rw [hstrings, hformat]
      by_cases hk : k.isString = true
      · have hstr : cString (mem w) = some text := by
          rwa [Conversion.text, if_pos hk] at htext
        have hdisplay := printkDisplay_string ap' (formatOf items ++ fmt) hk hstr
        rw [if_pos hk]
        simp only [List.singleton_append, List.forall_mem_cons, List.exists_mem_cons_iff]
        by_cases hc : Countable text
        · rw [if_pos hc] at hdisplay
          rw [wvprintkLoop_accepted hdisplay]
          refine ⟨fun hall => ?_, fun hex => ?_⟩
          · rw [hgood hall.2, emit_emit]
          · exact emit_error (hbad (hex.resolve_left fun hn => hn hc))
        · rw [if_neg hc] at hdisplay
          rw [wvprintkLoop_refused (by decide) hdisplay]
          exact ⟨fun hall => absurd hall.1 hc, fun _ => ⟨_, _, rfl⟩⟩
      · rw [if_neg hk, List.nil_append,
          wvprintkLoop_accepted (printkDisplay_other (eq_false_of_ne_true hk) hp htext)]
        refine ⟨fun hall => ?_, fun hex => ?_⟩
        · rw [hgood hall, emit_emit]
        · exact emit_error (hbad hex)
    · obtain ⟨c, hstep, hrender, hstrings⟩ := plain_item hplain items fmt ap ret
      rw [hrender] at h
      obtain ⟨⟨out', rest'⟩, hrest, h⟩ := Option.map_eq_some_iff.mp h
      cases h
      obtain ⟨hgood, hbad⟩ := ih hrest
      rw [hstrings, hstep]
      refine ⟨fun hall => ?_, fun hex => ?_⟩
      · rw [hgood hall, emit_emit]
        rfl
      · exact emit_error (hbad hex)

/-- A character that ends the format after a `%`: no modifier and no conversion.  The end of the
string is one. -/
def EndsFormat (c : UInt8) : Prop := NoModifier c ∧ ∀ k : Conversion, k.char ≠ c

theorem findRow_none {c : UInt8} (h : ∀ k : Conversion, k.char ≠ c) : findRow c = none := by
  unfold findRow
  rw [List.find?_eq_none]
  intro row hrow
  have hchars : ∀ row ∈ convData, ∃ k : Conversion, k.char = row.convertion := by
    simp only [convData, List.forall_mem_cons]
    exact ⟨⟨.d, rfl⟩, ⟨.b, rfl⟩, ⟨.i, rfl⟩, ⟨.o, rfl⟩, ⟨.u, rfl⟩, ⟨.x, rfl⟩, ⟨.p, rfl⟩, ⟨.X, rfl⟩,
      ⟨.D, rfl⟩, ⟨.O, rfl⟩, ⟨.c, rfl⟩, ⟨.C, rfl⟩, ⟨.percent, rfl⟩, ⟨.s, rfl⟩, ⟨.S, rfl⟩,
      fun _ hmem => absurd hmem List.not_mem_nil⟩
  obtain ⟨k, hk⟩ := hchars row hrow
  rw [decide_eq_true_iff, ← hk]
  exact h k

/-- The rest of a format from such a `%` on. -/
theorem wvprintkLoop_stop {c : UInt8} (h : EndsFormat c) (tail : List UInt8)
    (ap : List (BitVec 32)) (ret : BitVec 32) :
    wvprintkLoop mem (37 :: c :: tail) ap ret = some (-1, ap, badPrintkFormat) := by
  have hrefused : printkDisplay mem (c :: tail) ap = some (-1, c :: tail, ap, []) := by
    rw [printkDisplay_behind (printkParaSize_plain h.1 tail .start), findRow_none h.2]
  exact wvprintkLoop_refused (by decide) hrefused

end items

/-- **`printk` renders its format**, and a bad one up to its end, exactly when no string that it is
given is too long to be counted. -/
theorem printk_renders_iff (mem : Strings) (items : List Item) (ap : List (BitVec 32))
    {out : List UInt8} {rest : List (BitVec 32)} (hmatch : render mem items ap = some (out, rest)) :
    ((∀ tail, wvprintk mem (formatOf items ++ 0 :: tail) ap = some (0, rest, out)) ∧
      ∀ c tail, EndsFormat c → wvprintk mem (formatOf items ++ 37 :: c :: tail) ap =
        some (-1, rest, out ++ badPrintkFormat)) ↔
      ∀ s ∈ stringArgs mem items ap, Countable s := by
  constructor
  · rintro ⟨hgood, -⟩
    by_contra hall
    push Not at hall
    obtain ⟨ap', out', herror⟩ := (wvprintkLoop_items items hmatch [0] 0).2 hall
    have h := hgood []
    unfold wvprintk at h
    rw [herror] at h
    have hret : (-1 : BitVec 32) = 0 := congrArg Prod.fst (Option.some.inj h)
    exact absurd hret (by decide)
  · intro hall
    refine ⟨fun tail => ?_, fun c tail hc => ?_⟩
    · unfold wvprintk
      rw [(wvprintkLoop_items items hmatch (0 :: tail) 0).1 hall, wvprintkLoop_end, emit_some,
        List.append_nil]
    · unfold wvprintk
      rw [(wvprintkLoop_items items hmatch (37 :: c :: tail) 0).1 hall, wvprintkLoop_stop hc, emit_some]

/-- `"%d of %s%%"`, for −5 and the string at address 8. -/
theorem printk_renders_sample :
    wvprintk (fun _ => [111, 107, 0]) [37, 100, 61, 37, 115, 37, 37, 0] [0xFFFFFFFB, 8] =
      some (0, [], [45, 53, 61, 111, 107, 37]) := by
  have hmatch : render (fun _ => [111, 107, 0]) [.conversion .d, .literal ⟨61, by decide⟩,
      .conversion .s, .conversion .percent] [0xFFFFFFFB, 8] =
        some ([45, 53, 61, 111, 107, 37], []) := by decide +kernel
  exact ((printk_renders_iff _ _ _ hmatch).mpr (by decide +kernel)).1 []

/-- A string of `n` letters at every address. -/
def letters (n : Nat) : Strings := fun _ => List.replicate n 97 ++ [0]

/-- A string that is too long is written, and then the format is called bad. -/
theorem letters_refused {n : Nat} (h : ¬ n % 2 ^ 32 < 2 ^ 31) :
    render (letters n) [.conversion .s] [8] = some (List.replicate n 97, []) ∧
      wvprintk (letters n) [37, 115, 0] [8] =
        some (-1, [], List.replicate n 97 ++ badPrintkFormat) := by
  have hstring : cString (letters n 8) = some (List.replicate n 97) :=
    cString_append (fun h0 => absurd (List.eq_of_mem_replicate h0) (by decide)) []
  have hlong : ¬ Countable (List.replicate n (97 : UInt8)) := by
    unfold Countable
    rwa [List.length_replicate]
  constructor
  · have htext : Conversion.text (letters n) .s 8 = cString (letters n 8) := rfl
    simp only [render, htext, hstring, bind, Option.bind_some, pure, List.append_nil]
  · have hdisplay := printkDisplay_string (k := .s) [] [0] rfl hstring
    rw [if_neg hlong] at hdisplay
    exact wvprintkLoop_refused (by decide) hdisplay

/-- The shortest such string. -/
theorem long_string_refused :
    render (letters (2 ^ 31)) [.conversion .s] [8] = some (List.replicate (2 ^ 31) 97, []) ∧
      wvprintk (letters (2 ^ 31)) [37, 115, 0] [8] =
        some (-1, [], List.replicate (2 ^ 31) 97 ++ badPrintkFormat) :=
  letters_refused (by decide)

end Moonlight
