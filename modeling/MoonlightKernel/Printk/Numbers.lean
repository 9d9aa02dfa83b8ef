import MoonlightKernel.Lib.Numeral
import MoonlightKernel.Lib.Padded
import Mathlib.Data.BitVec

/-!
# Numbers as texts: `lib/printk/itoa_stack_max.c`, `lib/str/atoi_base.c`, `lib/str/atoi.c`

`itoa_stack_max` writes a number into a buffer, a recursion for the quotient before a digit for
the remainder.  A negative number takes a path of its own, where the quotient is printed by a call
of the function itself and the place of the last digit is read back from the buffer.  `atoi_base`
and `atoi` read a number.  `int` and `long` are words of 32 bits.

* `itoaStackMax`, `atoiBase`, `atoi` — the functions; `none` is an access outside the buffer;
* `itoaStackMaxRec_padded` — the digits that the recursion writes;
* `itoaStackMax_digits`, `itoaStackMax_neg` — the text of a number, on both paths;
* `readDigits_numeral` — what a text is read as;
* `printed_read_back` — a printed number has the form of a numeral and is read back.
-/

set_option autoImplicit false

namespace Moonlight

open Sys

/-! ## Writing -/

/-- `"0123456789abcdef"`. -/
def hexDigits : List UInt8 := [48, 49, 50, 51, 52, 53, 54, 55, 56, 57, 97, 98, 99, 100, 101, 102]

/-- The `char_set` of a base: its digits, and the end of the string. -/
def charSet (b : Nat) : List UInt8 := hexDigits.take b ++ [0]

/-- The buffer of `printk_para_display`: `sizeof(long int) * 8 + 1` pointers, all null. -/
def nbrBuff : List UInt8 := List.replicate ((4 * 8 + 1) * 4) 0

/-- `itoa_stack_max_len`. -/
def itoaStackMaxLen (str : List UInt8) : Option Nat := textLength 0 str

/-- `itoa_stack_max_rec` at the offset `p` of the buffer. -/
def itoaStackMaxRec (charSet : List UInt8) (n : Nat) (hn : 1 < n) (p nb : Nat) (buff : List UInt8) :
    Option (Nat × List UInt8) := do
  let first := if h : n ≤ nb then
      have : nb / n < nb := Nat.div_lt_self (by omega) hn
      itoaStackMaxRec charSet n hn p (nb / n) buff
    else some (0, buff)
  let rest ← first
  let c ← charSet[nb % n]?
  let buff ← putAt rest.2 (p + rest.1) c
  return (rest.1 + 1, buff)

/-- `itoa_stack_max` at the offset `p` of the buffer. -/
def itoaStackMax (charSet : List UInt8) (p : Nat) (isUnsigned : Int) (nb : BitVec 32)
    (buff : List UInt8) : Option (Int × List UInt8) := do
  let n ← itoaStackMaxLen charSet
  if hn : n ≤ 1 then return (-1, buff)
  else if h : isUnsigned = 0 ∧ nb.slt 0 then
    let len := BitVec.ofNat 32 n
    let buff ← putAt buff p 45
    let newNb := -nb / len
    let quotient := if 0 < newNb then
        (itoaStackMax charSet (p + 1) 1 (-(nb.sdiv len)) buff).map Prod.snd
      else some buff
    let buff ← quotient
    let lastWrite ← itoaStackMaxLen (buff.drop p)
    let c ← charSet[((-(nb.srem len) + len) % len).toNat]?
    let buff ← putAt buff (p + lastWrite) c
    let buff ← putAt buff (p + (lastWrite + 1)) 0
    return ((lastWrite + 1 : Nat), buff)
  else
    let written ← itoaStackMaxRec charSet n (not_le.mp hn) p nb.toNat buff
    let buff ← putAt written.2 (p + written.1) 0
    return (written.1, buff)
termination_by if isUnsigned = 0 then 1 else 0
decreasing_by simp [h.1]

/-! ## Reading -/

/-- The loop that `atoi_base` and `atoi` share. -/
def readDigits (isDigit : UInt8 → Bool) (value : UInt8 → BitVec 32) (base : BitVec 32) :
    List UInt8 → BitVec 32 → Option (BitVec 32)
  | [], _ => none
  | c :: str, res =>
    if isDigit c then readDigits isDigit value base str (res * base + value c) else some res

/-- The sign, and the loop. -/
def readSigned (isDigit : UInt8 → Bool) (value : UInt8 → BitVec 32) (base : BitVec 32) :
    List UInt8 → Option (BitVec 32)
  | [] => none
  | c :: str =>
    let sign : BitVec 32 := if c = 45 then -1 else 1
    (readDigits isDigit value base (if c = 43 ∨ c = 45 then str else c :: str) 0).map (sign * ·)

/-- `char_to_base`. -/
def charToBase (c : UInt8) : Int :=
  if 48 ≤ c ∧ c ≤ 57 then c.toNat - 48
  else if 97 ≤ c ∧ c ≤ 102 then c.toNat - 97 + 10
  else if 65 ≤ c ∧ c ≤ 70 then c.toNat - 65 + 10
  else -1

/-- `atoi_base`. -/
def atoiBase (str : List UInt8) (strBase : BitVec 32) : Option (BitVec 32) :=
  readSigned (fun c => charToBase c ≠ -1) (fun c => BitVec.ofInt 32 (charToBase c)) strBase str

/-- The characters that `atoi` skips. -/
def isBlank (c : UInt8) : Bool := c = 32 || c = 9 || c = 10 || c = 11 || c = 13 || c = 12

/-- `atoi`. -/
def atoi (nptr : List UInt8) : Option (BitVec 32) :=
  readSigned (fun c => c ≠ 0 && 48 ≤ c && c ≤ 57) (fun c => BitVec.ofInt 32 (c.toNat - 48)) 10
    (nptr.dropWhile isBlank)

/-! ## The characters of a base -/

/-- The value of a digit. -/
def digitValue (c : UInt8) : Nat := (charToBase c).toNat

/-- The character of a digit. -/
def digitChar (d : Nat) : UInt8 := hexDigits.getD d 0

section characters

variable {b d : Nat}

theorem hexDigits_take_length (hb : b ≤ 16) : (hexDigits.take b).length = b := by
  rw [List.length_take]
  exact Nat.min_eq_left hb

theorem charSet_length (hb : b ≤ 16) : itoaStackMaxLen (charSet b) = some b := by
  have h : 0 ∉ hexDigits.take b := fun h => absurd (List.mem_of_mem_take h) (by decide)
  unfold itoaStackMaxLen charSet
  rw [textLength_append h, hexDigits_take_length hb]

theorem charSet_digit (hb : b ≤ 16) (hd : d < b) : (charSet b)[d]? = some (digitChar d) := by
  unfold charSet digitChar
  rw [List.getElem?_append_left (by rwa [hexDigits_take_length hb]), List.getElem?_take_of_lt hd,
    List.getD_eq_getElem?_getD]
  cases h : hexDigits[d]? with
  | none => exact absurd (List.getElem?_eq_none_iff.mp h) (not_le.mpr (lt_of_lt_of_le hd hb))
  | some c => rfl

theorem digitChar_mem (hb : b ≤ 16) (hd : d < b) : digitChar d ∈ hexDigits.take b := by
  have h := charSet_digit hb hd
  unfold charSet at h
  rw [List.getElem?_append_left (by rwa [hexDigits_take_length hb])] at h
  exact List.mem_of_getElem? h

/-- What a character of a digit is, and is not. -/
theorem digitChar_spec : ∀ d < 16, charToBase (digitChar d) = d ∧ digitChar d ≠ 0 ∧
    digitChar d ≠ 43 ∧ digitChar d ≠ 45 ∧ isBlank (digitChar d) = false ∧
    (digitChar d = 48 → d = 0) ∧
    (d < 10 → 48 ≤ digitChar d ∧ digitChar d ≤ 57 ∧ (digitChar d).toNat = 48 + d) := by
  decide

end characters

/-- The characters of a number. -/
def numeralText (b n : Nat) : List UInt8 := (numeral b n).map digitChar

/-- The same with other characters for the digits. -/
def digitText (digit : Nat → UInt8) (b n : Nat) : List UInt8 := (numeral b n).map digit

section text

variable {b n : Nat} {digit : Nat → UInt8}

theorem mem_digitText (hb : 2 ≤ b) {c : UInt8} (h : c ∈ digitText digit b n) :
    ∃ d < b, c = digit d := by
  obtain ⟨d, hd, rfl⟩ := List.mem_map.mp h
  exact ⟨d, numeral_lt hb hd, rfl⟩

/-- A word of 32 bits has at most 32 digits. -/
theorem digitText_length_le (hb : 2 ≤ b) (h : n < 2 ^ 32) : (digitText digit b n).length ≤ 32 := by
  unfold digitText
  rw [List.length_map]
  exact numeral_length_le hb (by decide) (lt_of_lt_of_le h (Nat.pow_le_pow_left hb 32))

theorem mem_numeralText (hb : 2 ≤ b) {c : UInt8} (h : c ∈ numeralText b n) :
    ∃ d < b, c = digitChar d :=
  mem_digitText hb h

theorem zero_notMem_numeralText (hb : 2 ≤ b) (hb' : b ≤ 16) : 0 ∉ numeralText b n := by
  intro h
  obtain ⟨d, hd, h0⟩ := mem_numeralText hb h
  exact (digitChar_spec d (lt_of_lt_of_le hd hb')).2.1 h0.symm

theorem numeralText_length_le (hb : 2 ≤ b) (h : n < 2 ^ 32) : (numeralText b n).length ≤ 32 :=
  digitText_length_le hb h

end text

/-! ## The text that is written -/

section write

variable {b : Nat}

section set

variable {set : List UInt8} {digit : Nat → UInt8}

/-- **The recursion** writes the digits after the text. -/
theorem itoaStackMaxRec_padded {N : Nat} {s : List UInt8} (hb : 1 < b)
    (hset : ∀ d < b, set[d]? = some (digit d)) (nb : Nat)
    (hroom : s.length + (digitText digit b nb).length ≤ N) :
    itoaStackMaxRec set b hb s.length nb (padded 0 N s) =
      some ((digitText digit b nb).length, padded 0 N (s ++ digitText digit b nb)) := by
  induction nb using Nat.strongRecOn with
  | ind nb ih =>
    have hdigit := hset _ (Nat.mod_lt nb (by omega : b > 0))
    rw [itoaStackMaxRec]
    by_cases hle : b ≤ nb
    · have htext : digitText digit b nb = digitText digit b (nb / b) ++ [digit (nb % b)] := by
        unfold digitText
        rw [numeral_of_le hb hle, List.map_append, List.map_singleton]
      rw [htext, List.length_append, List.length_singleton] at hroom
      rw [dif_pos hle, ih _ (Nat.div_lt_self (by omega) hb) (by omega), hdigit, htext]
      have hput := putAt_padded (z := 0) (s := s ++ digitText digit b (nb / b)) (n := N)
        (by rw [List.length_append]; omega) (digit (nb % b))
      rw [List.length_append] at hput
      simp only [bind, Option.bind_some, pure, hput, List.length_append, List.length_singleton,
        List.append_assoc]
    · have htext : digitText digit b nb = [digit (nb % b)] := by
        unfold digitText
        rw [numeral_of_lt (not_le.mp hle), Nat.mod_eq_of_lt (not_le.mp hle), List.map_singleton]
      rw [htext, List.length_singleton] at hroom
      rw [dif_neg hle, hdigit, htext]
      have hput := putAt_padded (z := 0) (s := s) (n := N) (by omega) (digit (nb % b))
      simp only [bind, Option.bind_some, pure, Nat.add_zero, hput, List.length_singleton,
        Nat.zero_add]

/-- **An unsigned number**, or one that is not negative, is printed after the text. -/
theorem itoaStackMax_digits {N : Nat} {s : List UInt8} (hb : 1 < b)
    (hlen : itoaStackMaxLen set = some b) (hset : ∀ d < b, set[d]? = some (digit d))
    {isUnsigned : Int} {nb : BitVec 32} (h : ¬ (isUnsigned = 0 ∧ nb.slt 0))
    (hroom : s.length + (digitText digit b nb.toNat).length < N) :
    itoaStackMax set s.length isUnsigned nb (padded 0 N s) =
      some (((digitText digit b nb.toNat).length : Int),
        padded 0 N (s ++ digitText digit b nb.toNat)) := by
  have hput := putAt_end (z := 0) (s := s ++ digitText digit b nb.toNat) (n := N)
    (by rwa [List.length_append])
  rw [List.length_append] at hput
  rw [itoaStackMax, hlen]
  simp only [bind, Option.bind_some, pure]
  rw [dif_neg (not_le.mpr hb), dif_neg h, itoaStackMaxRec_padded hb hset _ hroom.le]
  simp only [Option.bind_some, hput]

end set

theorem itoaStackMax_nonneg {N : Nat} {s : List UInt8} (hb : 1 < b) (hb' : b ≤ 16)
    {isUnsigned : Int} {nb : BitVec 32} (h : ¬ (isUnsigned = 0 ∧ nb.slt 0))
    (hroom : s.length + (numeralText b nb.toNat).length < N) :
    itoaStackMax (charSet b) s.length isUnsigned nb (padded 0 N s) =
      some (((numeralText b nb.toNat).length : Int), padded 0 N (s ++ numeralText b nb.toNat)) :=
  itoaStackMax_digits hb (charSet_length hb') (fun _ hd => charSet_digit hb' hd) h hroom

/-- `len_charset` as a word. -/
theorem len_toNat (hb' : b ≤ 16) : (BitVec.ofNat 32 b).toNat = b := by
  rw [BitVec.toNat_ofNat]
  exact Nat.mod_eq_of_lt (by omega)

section negative

variable {nb : BitVec 32}

theorem len_msb (hb' : b ≤ 16) : (BitVec.ofNat 32 b).msb = false := by
  rw [BitVec.msb_eq_false_iff_two_mul_lt, len_toNat hb']
  omega

/-- The two ways to compute the quotient of a negative number agree. -/
theorem neg_sdiv_toNat (hb' : b ≤ 16) (h : nb.slt 0) :
    (-(nb.sdiv (BitVec.ofNat 32 b))).toNat = (-nb).toNat / b := by
  have hmsb : nb.msb = true := BitVec.slt_zero_iff_msb_cond.mp h
  unfold BitVec.sdiv
  rw [hmsb, len_msb hb']
  dsimp only
  rw [BitVec.neg_eq, BitVec.neg_eq, BitVec.neg_neg, BitVec.udiv_eq, BitVec.toNat_udiv,
    len_toNat hb']

/-- The last digit of a negative number. -/
theorem neg_srem_toNat (hb : 1 < b) (hb' : b ≤ 16) (h : nb.slt 0) :
    ((-(nb.srem (BitVec.ofNat 32 b)) + BitVec.ofNat 32 b) % BitVec.ofNat 32 b).toNat =
      (-nb).toNat % b := by
  have hmsb : nb.msb = true := BitVec.slt_zero_iff_msb_cond.mp h
  have hlt : (-nb).toNat % b < b := Nat.mod_lt _ (by omega)
  unfold BitVec.srem
  rw [hmsb, len_msb hb']
  dsimp only
  rw [BitVec.neg_eq, BitVec.neg_eq, BitVec.neg_neg, BitVec.umod_eq, BitVec.toNat_umod,
    BitVec.toNat_add, BitVec.toNat_umod, len_toNat hb', Nat.mod_eq_of_lt (by omega : _ < 2 ^ 32),
    Nat.add_mod_right, Nat.mod_mod]

theorem nbrBuff_eq : nbrBuff = padded 0 132 [] := by
  unfold padded
  rw [List.nil_append]
  rfl

/-- **A negative number**: the sign, and the digits of its opposite. -/
theorem itoaStackMax_neg (hb : 1 < b) (hb' : b ≤ 16) (h : nb.slt 0) :
    itoaStackMax (charSet b) 0 0 nb nbrBuff =
      some (((numeralText b (-nb).toNat).length + 1 : Int),
        padded 0 132 (45 :: numeralText b (-nb).toNat)) := by
  have hlength := numeralText_length_le (b := b) hb (-nb).isLt
  have hdigit := charSet_digit hb' (Nat.mod_lt (-nb).toNat (by omega : b > 0))
  have hsign : putAt nbrBuff 0 45 = some (padded 0 132 [45]) := by
    rw [nbrBuff_eq]
    exact putAt_padded (s := []) (by decide) 45
  have hquot : (-nb / BitVec.ofNat 32 b).toNat = (-nb).toNat / b := by
    rw [BitVec.toNat_udiv, len_toNat hb']
  -- what is printed before the last digit
  obtain ⟨front, hfront, htext⟩ : ∃ front : List UInt8,
      (if 0 < -nb / BitVec.ofNat 32 b then
        (itoaStackMax (charSet b) 1 1 (-(nb.sdiv (BitVec.ofNat 32 b))) (padded 0 132 [45])).map
          Prod.snd
      else some (padded 0 132 [45])) = some (padded 0 132 (45 :: front)) ∧
      front ++ [digitChar ((-nb).toNat % b)] = numeralText b (-nb).toNat := by
    unfold numeralText
    by_cases hle : b ≤ (-nb).toNat
    · refine ⟨numeralText b ((-nb).toNat / b), ?_, ?_⟩
      · have hpos : 0 < -nb / BitVec.ofNat 32 b := by
          rw [BitVec.lt_def, hquot]
          exact Nat.div_pos hle (by omega)
        have hrest := numeralText_length_le (b := b) hb
          (lt_of_le_of_lt (Nat.div_le_self (-nb).toNat b) (-nb).isLt)
        rw [if_pos hpos, show (1 : Nat) = ([45] : List UInt8).length from rfl,
          itoaStackMax_nonneg hb hb' (fun h1 => absurd h1.1 (by decide)), neg_sdiv_toNat hb' h]
        · rfl
        · rw [neg_sdiv_toNat hb' h, List.length_singleton]
          omega
      · rw [numeral_of_le hb hle, List.map_append]
        rfl
    · refine ⟨[], ?_, ?_⟩
      · rw [if_neg]
        rw [BitVec.lt_def, hquot, Nat.div_eq_of_lt (not_le.mp hle)]
        exact lt_irrefl _
      · rw [numeral_of_lt (not_le.mp hle), Nat.mod_eq_of_lt (not_le.mp hle)]
        rfl
  have hfrontLength : front.length + 1 = (numeralText b (-nb).toNat).length := by
    rw [← htext, List.length_append, List.length_singleton]
  have hfrontZero : (0 : UInt8) ∉ 45 :: front := by
    intro h0
    rcases List.mem_cons.mp h0 with h0 | h0
    · exact absurd h0 (by decide)
    · exact zero_notMem_numeralText hb hb' (htext ▸ List.mem_append_left _ h0)
  have hlast : itoaStackMaxLen (padded 0 132 (45 :: front)) = some (front.length + 1) :=
    textLength_padded (by rw [List.length_cons]; omega) hfrontZero
  have hput := putAt_padded (z := 0) (s := 45 :: front) (n := 132) (by rw [List.length_cons]; omega)
    (digitChar ((-nb).toNat % b))
  rw [List.cons_append, htext, List.length_cons, hfrontLength] at hput
  have hend := putAt_end (z := 0) (s := 45 :: numeralText b (-nb).toNat) (n := 132)
    (by rw [List.length_cons]; omega)
  rw [List.length_cons] at hend
  rw [itoaStackMax, charSet_length hb']
  simp only [bind, Option.bind_some, pure]
  rw [dif_neg (not_le.mpr hb), dif_pos ⟨trivial, h⟩, hsign]
  simp only [Option.bind_some, Nat.zero_add, List.drop_zero]
  rw [hfront]
  simp only [Option.bind_some, hlast, neg_srem_toNat hb hb' h, hdigit, hput, hend, hfrontLength]
  rfl

end negative

end write

/-! ## The text that is read -/

section read

variable {isDigit : UInt8 → Bool} {value : UInt8 → BitVec 32} {b : Nat}

/-- The digits of words are added up modulo `2 ^ 32`. -/
theorem foldl_word (ds : List Nat) (r : Nat) :
    ds.foldl (fun r d => r * BitVec.ofNat 32 b + BitVec.ofNat 32 d) (BitVec.ofNat 32 r) =
      BitVec.ofNat 32 (ds.foldl (fun r d => r * b + d) r) := by
  induction ds generalizing r with
  | nil => rfl
  | cons d ds ih => rw [List.foldl_cons, List.foldl_cons, ← ih, BitVec.ofNat_add, BitVec.ofNat_mul]

/-- The loop reads digits up to the first character that is none. -/
theorem readDigits_map {ds : List Nat} {stop : UInt8} {rest : List UInt8} {base res : BitVec 32}
    (hds : ∀ d ∈ ds, isDigit (digitChar d) = true ∧ value (digitChar d) = BitVec.ofNat 32 d)
    (hstop : isDigit stop = false) :
    readDigits isDigit value base (ds.map digitChar ++ stop :: rest) res =
      some (ds.foldl (fun r d => r * base + BitVec.ofNat 32 d) res) := by
  induction ds generalizing res with
  | nil =>
    refine if_neg ?_
    rw [hstop]
    exact Bool.false_ne_true
  | cons d ds ih =>
    obtain ⟨hd, hvalue⟩ := hds d List.mem_cons_self
    rw [List.map_cons, List.cons_append, readDigits, if_pos hd, hvalue, List.foldl_cons,
      ih fun e he => hds e (List.mem_cons_of_mem d he)]

/-- **A numeral is read** as the number that it stands for. -/
theorem readDigits_numeral {N n : Nat} {s : List UInt8} (hb : 1 < b)
    (hdigit : ∀ d < b, isDigit (digitChar d) = true ∧ value (digitChar d) = BitVec.ofNat 32 d)
    (hstop : isDigit 0 = false) (hroom : (s ++ numeralText b n).length < N) :
    readDigits isDigit value (BitVec.ofNat 32 b)
        ((padded 0 N (s ++ numeralText b n)).drop s.length) 0 = some (BitVec.ofNat 32 n) := by
  rw [padded_of_lt hroom, List.append_assoc, List.drop_left]
  unfold numeralText
  rw [readDigits_map (fun d hd => hdigit d (numeral_lt hb hd)) hstop,
    show (0 : BitVec 32) = BitVec.ofNat 32 0 from rfl, foldl_word, foldl_numeral]

/-- The text after a minus sign is read as the opposite. -/
theorem readSigned_neg {N n : Nat} (hb : 1 < b)
    (hdigit : ∀ d < b, isDigit (digitChar d) = true ∧ value (digitChar d) = BitVec.ofNat 32 d)
    (hstop : isDigit 0 = false) (hroom : (45 :: numeralText b n).length < N) :
    readSigned isDigit value (BitVec.ofNat 32 b) (padded 0 N (45 :: numeralText b n)) =
      some (-BitVec.ofNat 32 n) := by
  have hread := readDigits_numeral (s := [45]) hb hdigit hstop hroom
  unfold padded at hread ⊢
  rw [List.singleton_append, List.cons_append, List.length_singleton, List.drop_one,
    List.tail_cons] at hread
  rw [List.cons_append, readSigned, if_pos rfl, if_pos (.inr rfl), hread, Option.map_some,
    neg_one_mul]

/-- A text without a sign is read as the number. -/
theorem readSigned_nonneg {N n : Nat} (hb : 1 < b) (hb' : b ≤ 16)
    (hdigit : ∀ d < b, isDigit (digitChar d) = true ∧ value (digitChar d) = BitVec.ofNat 32 d)
    (hstop : isDigit 0 = false) (hroom : (numeralText b n).length < N) :
    readSigned isDigit value (BitVec.ofNat 32 b) (padded 0 N (numeralText b n)) =
      some (BitVec.ofNat 32 n) := by
  have hread := readDigits_numeral (s := []) hb hdigit hstop hroom
  rw [List.nil_append, List.length_nil, List.drop_zero] at hread
  obtain ⟨d, ds, htext⟩ := List.exists_cons_of_ne_nil (numeral_ne_nil (b := b) (n := n))
  have hd : d < b := numeral_lt hb (htext ▸ List.mem_cons_self)
  obtain ⟨-, -, hplus, hminus, -⟩ := digitChar_spec d (lt_of_lt_of_le hd hb')
  unfold padded numeralText at hread ⊢
  rw [htext, List.map_cons, List.cons_append] at hread ⊢
  rw [readSigned, if_neg (not_or.mpr ⟨hplus, hminus⟩), if_neg hminus, hread,
    Option.map_some, one_mul]

end read

/-! ## Writing and reading -/

/-- The form of a numeral: the sign exactly when the number is negative, then the digits, at least
one and no zero in front of another one. -/
def IsNumeral (b : Nat) (neg : Prop) [Decidable neg] (s : List UInt8) : Prop :=
  ∃ ds, s = (if neg then [45] else []) ++ ds ∧ ds ≠ [] ∧ (∀ c ∈ ds, c ∈ hexDigits.take b) ∧
    (ds.head? = some 48 → ds = [48])

theorem numeralText_isNumeral {b : Nat} (hb : 2 ≤ b) (hb' : b ≤ 16) (n : Nat) (neg : Prop)
    [Decidable neg] : IsNumeral b neg ((if neg then [45] else []) ++ numeralText b n) := by
  refine ⟨numeralText b n, rfl, ?_, fun c hc => ?_, fun hhead => ?_⟩
  · exact fun h => numeral_ne_nil (List.map_eq_nil_iff.mp h)
  · obtain ⟨d, hd, rfl⟩ := mem_numeralText hb hc
    exact digitChar_mem hb' hd
  · unfold numeralText at hhead ⊢
    rw [List.head?_map] at hhead
    obtain ⟨d, hd, h48⟩ := Option.map_eq_some_iff.mp hhead
    have hlt : d < b := numeral_lt hb (List.mem_of_mem_head? hd)
    rw [(digitChar_spec d (lt_of_lt_of_le hlt hb')).2.2.2.2.2.1 h48] at hd
    rw [numeral_head hd]
    rfl

/-- The opposite of a negative number is read back with its sign. -/
theorem neg_ofNat_neg (nb : BitVec 32) : -BitVec.ofNat 32 (-nb).toNat = nb := by
  rw [BitVec.ofNat_toNat, BitVec.setWidth_eq, BitVec.neg_neg]

/-- `atoi` skips no digit. -/
theorem dropWhile_numeralText {b : Nat} (hb : 2 ≤ b) (hb' : b ≤ 16) (N n : Nat) :
    (padded 0 N (numeralText b n)).dropWhile isBlank = padded 0 N (numeralText b n) := by
  obtain ⟨d, ds, htext⟩ := List.exists_cons_of_ne_nil (numeral_ne_nil (b := b) (n := n))
  have hd : d < b := numeral_lt hb (htext ▸ List.mem_cons_self)
  unfold padded numeralText
  rw [htext, List.map_cons, List.cons_append, List.dropWhile_cons,
    (digitChar_spec d (lt_of_lt_of_le hd hb')).2.2.2.2.1]
  rfl

/-- The two readers know the digits of their bases. -/
theorem charToBase_digit {b : Nat} (hb' : b ≤ 16) (d : Nat) (hd : d < b) :
    decide (charToBase (digitChar d) ≠ -1) = true ∧
      BitVec.ofInt 32 (charToBase (digitChar d)) = BitVec.ofNat 32 d := by
  rw [(digitChar_spec d (lt_of_lt_of_le hd hb')).1]
  exact ⟨decide_eq_true (by omega), rfl⟩

theorem decimal_digit (d : Nat) (hd : d < 10) :
    (digitChar d ≠ 0 && 48 ≤ digitChar d && digitChar d ≤ 57) = true ∧
      BitVec.ofInt 32 ((digitChar d).toNat - 48) = BitVec.ofNat 32 d := by
  decide +revert

/-- **Numbers survive printing and parsing.**  The text of a number has the form of a numeral, its
length is returned, it stays in the buffer and ends there, and both readers give the number back. -/
theorem printed_read_back (b : Nat) (hb : 2 ≤ b ∧ b ≤ 16) (isUnsigned : Int) (nb : BitVec 32) :
    ∃ s : List UInt8,
      itoaStackMax (charSet b) 0 isUnsigned nb nbrBuff = some ((s.length : Int), padded 0 132 s) ∧
        s.length < 132 ∧ 0 ∉ s ∧ IsNumeral b (isUnsigned = 0 ∧ nb.toInt < 0) s ∧
        atoiBase (padded 0 132 s) (BitVec.ofNat 32 b) = some nb ∧
        (b = 10 → atoi (padded 0 132 s) = some nb) := by
  have hslt : nb.slt 0 = true ↔ nb.toInt < 0 := decide_eq_true_iff
  obtain ⟨hb, hb'⟩ := hb
  have hform := fun n => numeralText_isNumeral hb hb' n (isUnsigned = 0 ∧ nb.toInt < 0)
  by_cases hneg : isUnsigned = 0 ∧ nb.toInt < 0
  · have hform := hform (-nb).toNat
    rw [if_pos hneg, List.singleton_append] at hform
    have hroom : (45 :: numeralText b (-nb).toNat).length < 132 := by
      have := numeralText_length_le hb (-nb).isLt
      rw [List.length_cons]
      omega
    refine ⟨45 :: numeralText b (-nb).toNat, ?_, hroom, fun h0 => ?_, hform, ?_, ?_⟩
    · rw [hneg.1, itoaStackMax_neg hb hb' (hslt.mpr hneg.2)]
      rfl
    · rcases List.mem_cons.mp h0 with h0 | h0
      · exact absurd h0 (by decide)
      · exact zero_notMem_numeralText hb hb' h0
    · unfold atoiBase
      rw [readSigned_neg hb (charToBase_digit hb') (by decide) hroom, neg_ofNat_neg]
    · rintro rfl
      unfold atoi
      rw [show (padded 0 132 (45 :: numeralText 10 (-nb).toNat)).dropWhile isBlank =
        padded 0 132 (45 :: numeralText 10 (-nb).toNat) from rfl]
      exact (readSigned_neg hb decimal_digit (by decide) hroom).trans
        (congrArg some (neg_ofNat_neg nb))
  · have hform := hform nb.toNat
    rw [if_neg hneg, List.nil_append] at hform
    have hroom : (numeralText b nb.toNat).length < 132 :=
      lt_of_le_of_lt (numeralText_length_le hb nb.isLt) (by decide)
    refine ⟨numeralText b nb.toNat, ?_, hroom, zero_notMem_numeralText hb hb', hform, ?_, ?_⟩
    · rw [nbrBuff_eq]
      exact itoaStackMax_nonneg (s := []) hb hb' (by rwa [hslt])
        (by rwa [List.length_nil, Nat.zero_add])
    · unfold atoiBase
      rw [readSigned_nonneg hb hb' (charToBase_digit hb') (by decide) hroom, BitVec.ofNat_toNat,
        BitVec.setWidth_eq]
    · rintro rfl
      unfold atoi
      rw [dropWhile_numeralText hb hb']
      exact (readSigned_nonneg hb hb' decimal_digit (by decide) hroom).trans
        (by rw [BitVec.ofNat_toNat, BitVec.setWidth_eq])

/-- The most negative word, in decimal. -/
theorem least_word_survives : ∃ s : List UInt8,
    itoaStackMax (charSet 10) 0 0 0x80000000 nbrBuff = some ((s.length : Int), padded 0 132 s) ∧
      s.length < 132 ∧ IsNumeral 10 True s ∧ atoi (padded 0 132 s) = some 0x80000000 := by
  obtain ⟨s, hprint, hroom, -, ⟨ds, hs, hds⟩, -, hread⟩ :=
    printed_read_back 10 (by decide) 0 0x80000000
  exact ⟨s, hprint, hroom, ⟨ds, hs, hds⟩, hread rfl⟩

example : (itoaStackMax (charSet 16) 0 0 (-254) nbrBuff).map Prod.fst = some 3 := by decide +kernel

end Moonlight
