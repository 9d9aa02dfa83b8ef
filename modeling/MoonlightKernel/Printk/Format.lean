import MoonlightKernel.Printk.Numbers

/-!
# Formatted output: `lib/printk/`

`wvprintk` writes a format string.  At a `%` it calls `printk_display`, where three functions in turn
move the cursor and fill in a parameter record: `printk_para_size` the size modifiers,
`printk_para_conv` the conversion, and `printk_para_display` takes the argument and writes it.

* `wvprintk` — the function: the value that it returns, the arguments that are left and the
  characters that it has written.  `none` is a read outside a string or past the last argument;
* `wvprintkLoop_literal`, `wvprintkLoop_accepted`, `wvprintkLoop_refused` — one pass of its loop;
* `printkParaSize_plain`, `printkDisplay_behind` — the modifiers of a `%`, and what comes after them.

An argument is a word of 32 bits.  `mem` has, for every address, the bytes from there on.  The writer
is that of `kernel/io/printk.c`: it writes the low byte of a character, and a string up to its null
byte.
-/

set_option autoImplicit false

namespace Moonlight

open Sys

/-- `enum printk_para_family`. -/
inductive PrintkParaFamily where
  | NONE
  | STRING
  | CHAR
  | FULL_MACRO
  | INT
  deriving DecidableEq

/-- `struct printk_para`. -/
structure PrintkPara where
  type : PrintkParaFamily
  size : Nat
  isUnsigned : Int
  charSet : List UInt8
  prefixStr : List UInt8
  displayPrefix : Int

/-- The record that `printk_display` starts from; the fields that it does not name are null. -/
def PrintkPara.start : PrintkPara := ⟨.NONE, 4, 0, [0], [0], 0⟩

/-- The bytes from each address on. -/
abbrev Strings := BitVec 32 → List UInt8

/-! ## Size modifiers -/

/-- `data_ptr` of `printk_para_size.c`: `hh`, `h`, `l`, `t` and `z`. -/
def modifierData : List (List UInt8 × Nat) :=
  [([104, 104], 1), ([104], 1), ([108], 4), ([116], 4), ([122], 4)]

/-- The inner loop: the format after the modifier, or `none` in the middle if it is not there. -/
def matchModifier : List UInt8 → List UInt8 → Option (Option (List UInt8))
  | [], fmt => some (some fmt)
  | _ :: _, [] => none
  | m :: ms, c :: fmt => if m ≠ c then some none else matchModifier ms fmt

/-- The outer loop; it goes on after a match. -/
def modifierLoop : List (List UInt8 × Nat) → List UInt8 → PrintkPara →
    Option (List UInt8 × PrintkPara)
  | [], fmt, para => some (fmt, para)
  | row :: rows, fmt, para => do
    match ← matchModifier row.1 fmt with
    | some fmt => modifierLoop rows fmt { para with size := row.2 }
    | none => modifierLoop rows fmt para

/-- `printk_para_size`, which always returns 0. -/
def printkParaSize (fmt : List UInt8) (para : PrintkPara) : Option (List UInt8 × PrintkPara) :=
  modifierLoop modifierData fmt para

/-! ## Conversions -/

/-- A row of `data_ptr` of `printk_para_conv.c`. -/
structure ConvRow where
  convertion : UInt8
  type : PrintkParaFamily
  isUnsigned : Int
  size : Nat
  charSet : List UInt8
  prefixStr : List UInt8
  displayPrefix : Int

/-- `"0123456789ABCDEF"`. -/
def upperDigits : List UInt8 := [48, 49, 50, 51, 52, 53, 54, 55, 56, 57, 65, 66, 67, 68, 69, 70]

/-- `data_ptr` of `printk_para_conv.c`: `d b i o u x p X D O c C % s S`. -/
def convData : List ConvRow :=
  [⟨100, .INT, 0, 0, charSet 10, [0], 0⟩,
   ⟨98, .INT, 1, 0, charSet 2, [48, 98, 0], 1⟩,
   ⟨105, .INT, 0, 0, charSet 10, [0], 0⟩,
   ⟨111, .INT, 1, 0, charSet 8, [48, 0], 0⟩,
   ⟨117, .INT, 1, 0, charSet 10, [0], 0⟩,
   ⟨120, .INT, 1, 0, charSet 16, [48, 120, 0], 0⟩,
   ⟨112, .INT, 1, 4, charSet 16, [48, 120, 0], 1⟩,
   ⟨88, .INT, 1, 0, upperDigits ++ [0], [48, 88, 0], 0⟩,
   ⟨68, .INT, 1, 4, charSet 10, [0], 0⟩,
   ⟨79, .INT, 1, 4, charSet 8, [0], 0⟩,
   ⟨99, .CHAR, 0, 0, [0], [0], 0⟩,
   ⟨67, .CHAR, 0, 4, [0], [0], 0⟩,
   ⟨37, .FULL_MACRO, 0, 0, [0], [37, 0], 1⟩,
   ⟨115, .STRING, 0, 0, [0], [0], 0⟩,
   ⟨83, .STRING, 0, 4, [0], [0], 0⟩]

/-- The row that the loop of `printk_para_conv` stops at. -/
def findRow (c : UInt8) : Option ConvRow := convData.find? fun row => row.convertion = c

/-- The fields that `printk_para_conv` sets. -/
def PrintkPara.setRow (para : PrintkPara) (row : ConvRow) : PrintkPara where
  type := row.type
  size := if row.size ≠ 0 then row.size else para.size
  isUnsigned := row.isUnsigned
  charSet := row.charSet
  prefixStr := row.prefixStr
  displayPrefix := if row.displayPrefix ≠ 0 then row.displayPrefix else para.displayPrefix

/-- `printk_para_conv`; when it fails the record is not looked at any more. -/
def printkParaConv (fmt : List UInt8) (para : PrintkPara) : Option (Int × List UInt8 × PrintkPara) :=
  match fmt with
  | [] => none
  | c :: rest =>
    match findRow c with
    | none => some (1, fmt, para)
    | some row =>
      -- the size is already set
      if row.size ≠ 0 ∧ para.size ≠ 4 then some (-1, fmt, para)
      else some (0, rest, para.setRow row)

/-! ## Arguments and output -/

/-- The characters before the null byte. -/
def cString : List UInt8 → Option (List UInt8)
  | [] => none
  | c :: str => if c = 0 then some [] else (cString str).map (c :: ·)

theorem cString_append {s : List UInt8} (hs : 0 ∉ s) (rest : List UInt8) :
    cString (s ++ 0 :: rest) = some s := by
  induction s with
  | nil => rfl
  | cons c s ih =>
    have hc : c ≠ 0 := fun hc => hs (hc ▸ List.mem_cons_self)
    rw [List.cons_append, cString, if_neg hc, ih fun h => hs (List.mem_cons_of_mem c h)]
    rfl

/-- `va_arg` of any type of 4 bytes. -/
def vaArg : List (BitVec 32) → Option (BitVec 32 × List (BitVec 32))
  | [] => none
  | w :: ap => some (w, ap)

/-- `write_char`: the character that is written. -/
def writeChar (c : BitVec 32) : UInt8 := ⟨c.setWidth 8⟩

/-- `write_str`: the count and the characters. -/
def writeStr (str : List UInt8) : Option (BitVec 32 × List UInt8) :=
  (cString str).map fun s => (BitVec.ofNat 32 s.length, s)

/-- The text in front of the argument. -/
def writePrefix (para : PrintkPara) : Option (BitVec 32 × List UInt8) :=
  if para.displayPrefix ≠ 0 then writeStr para.prefixStr else some (0, [])

/-- `printk_para_display`.  The count is a `size_t`, and what is returned an `int`. -/
def printkParaDisplay (mem : Strings) (ap : List (BitVec 32)) (para : PrintkPara) :
    Option (Int × List (BitVec 32) × List UInt8) := do
  let (ret, out) ← writePrefix para
  match para.type with
  | .STRING =>
    if para.size ≠ 4 then return (-1, ap, out)
    else
      let (str, ap) ← vaArg ap
      let (n, s) ← writeStr (mem str)
      return ((n + ret).toInt, ap, out ++ s)
  | .CHAR =>
    if para.size ≠ 4 then return (-1, ap, out)
    else
      let (c, ap) ← vaArg ap
      return ((1 + ret).toInt, ap, out ++ [writeChar c])
  | .FULL_MACRO => return (ret.toInt, ap, out)
  | .INT =>
    -- the branches for the sizes of char, short, int, long, ptrdiff_t and size_t read one word each
    if para.size ∉ [1, 2, 4] then return (-1, ap, out)
    else
      let (nb, ap) ← vaArg ap
      let (_, nbrBuff) ← itoaStackMax para.charSet 0 para.isUnsigned nb nbrBuff
      let (n, s) ← writeStr nbrBuff
      return ((n + ret).toInt, ap, out ++ s)
  | .NONE => return (0, ap, out)

/-- `printk_display`. -/
def printkDisplay (mem : Strings) (fmt : List UInt8) (ap : List (BitVec 32)) :
    Option (Int × List UInt8 × List (BitVec 32) × List UInt8) := do
  let (fmt, para) ← printkParaSize fmt .start
  let (err, fmt, para) ← printkParaConv fmt para
  if err ≠ 0 then return (-1, fmt, ap, [])
  else
    let (ret, ap, out) ← printkParaDisplay mem ap para
    if ret < 0 then return (-1, fmt, ap, out) else return (0, fmt, ap, out)

/-- `"BAD PRINTK FORMAT !"`. -/
def badPrintkFormat : List UInt8 :=
  [66, 65, 68, 32, 80, 82, 73, 78, 84, 75, 32, 70, 79, 82, 77, 65, 84, 32, 33]

/-! ## The cursor moves forward -/

theorem matchModifier_length {ms fmt fmt' : List UInt8} (h : matchModifier ms fmt = some (some fmt')) :
    fmt'.length ≤ fmt.length := by
  induction ms generalizing fmt with
  | nil =>
    cases h
    exact le_refl _
  | cons m ms ih =>
    cases fmt with
    | nil => cases h
    | cons c fmt =>
      rw [matchModifier] at h
      split at h
      · cases h
      · exact (ih h).trans (Nat.le_succ _)

theorem modifierLoop_length {rows : List (List UInt8 × Nat)} {fmt fmt' : List UInt8}
    {para para' : PrintkPara} (h : modifierLoop rows fmt para = some (fmt', para')) :
    fmt'.length ≤ fmt.length := by
  induction rows generalizing fmt para with
  | nil =>
    cases h
    exact le_refl _
  | cons row rows ih =>
    rw [modifierLoop] at h
    obtain ⟨r, hr, h⟩ := Option.bind_eq_some_iff.mp h
    cases r with
    | none => exact ih h
    | some fmt₁ => exact (ih h).trans (matchModifier_length hr)

theorem printkParaConv_length {fmt fmt' : List UInt8} {para para' : PrintkPara} {err : Int}
    (h : printkParaConv fmt para = some (err, fmt', para')) :
    fmt'.length ≤ fmt.length ∧ (err = 0 → fmt'.length < fmt.length) := by
  unfold printkParaConv at h
  split at h
  · cases h
  split at h
  · cases h
    exact ⟨le_refl _, fun h0 => absurd h0 (by decide)⟩
  · split at h
    · cases h
      exact ⟨le_refl _, fun h0 => absurd h0 (by decide)⟩
    · cases h
      exact ⟨Nat.le_succ _, fun _ => Nat.lt_succ_self _⟩

theorem printkDisplay_length {mem : Strings} {fmt fmt' out : List UInt8} {ap ap' : List (BitVec 32)}
    {ret : Int} (h : printkDisplay mem fmt ap = some (ret, fmt', ap', out)) :
    fmt'.length ≤ fmt.length := by
  unfold printkDisplay at h
  obtain ⟨⟨fmt₁, para₁⟩, hsize, h⟩ := Option.bind_eq_some_iff.mp h
  obtain ⟨⟨err, fmt₂, para₂⟩, hconv, h⟩ := Option.bind_eq_some_iff.mp h
  have hle := (printkParaConv_length hconv).1.trans (modifierLoop_length hsize)
  dsimp only at h
  split at h
  · cases h
    exact hle
  · obtain ⟨⟨ret, ap₁, out₁⟩, -, h⟩ := Option.bind_eq_some_iff.mp h
    dsimp only at h
    split at h <;> · cases h; exact hle

/-! ## The loop -/

/-- What has been written before the rest is. -/
def emit (out : List UInt8) (r : Option (BitVec 32 × List (BitVec 32) × List UInt8)) :
    Option (BitVec 32 × List (BitVec 32) × List UInt8) :=
  r.map fun r => (r.1, r.2.1, out ++ r.2.2)

/-- The loop of `wvprintk`. -/
def wvprintkLoop (mem : Strings) (fmt : List UInt8) (ap : List (BitVec 32)) (ret : BitVec 32) :
    Option (BitVec 32 × List (BitVec 32) × List UInt8) :=
  match fmt with
  | [] => none
  | c :: rest =>
    if c = 0 then some (ret, ap, [])
    else if c = 37 then
      match h : printkDisplay mem rest ap with
      | none => none
      | some (tmp, fmt', ap', out) =>
        if tmp < 0 then some (-1, ap', out ++ badPrintkFormat)
        else
          have : fmt'.length ≤ rest.length := printkDisplay_length h
          emit out (wvprintkLoop mem fmt' ap' (ret + BitVec.ofInt 32 tmp))
    else emit [c] (wvprintkLoop mem rest ap ret)
termination_by fmt.length

/-- `wvprintk`. -/
def wvprintk (mem : Strings) (fmt : List UInt8) (ap : List (BitVec 32)) :
    Option (BitVec 32 × List (BitVec 32) × List UInt8) :=
  wvprintkLoop mem fmt ap 0

@[simp] theorem emit_some (out out' : List UInt8) (ret : BitVec 32) (ap : List (BitVec 32)) :
    emit out (some (ret, ap, out')) = some (ret, ap, out ++ out') := rfl

@[simp] theorem emit_nil (r : Option (BitVec 32 × List (BitVec 32) × List UInt8)) :
    emit [] r = r := by
  cases r <;> rfl

@[simp] theorem emit_emit (out out' : List UInt8)
    (r : Option (BitVec 32 × List (BitVec 32) × List UInt8)) :
    emit out (emit out' r) = emit (out ++ out') r := by
  cases r with
  | none => rfl
  | some r => simp [emit]

section loop

variable {mem : Strings} {fmt fmt' out : List UInt8} {ap ap' : List (BitVec 32)} {ret : BitVec 32}

theorem wvprintkLoop_end (fmt : List UInt8) : wvprintkLoop mem (0 :: fmt) ap ret = some (ret, ap, []) := by
  rw [wvprintkLoop, if_pos rfl]

theorem wvprintkLoop_literal {c : UInt8} (h0 : c ≠ 0) (hc : c ≠ 37) :
    wvprintkLoop mem (c :: fmt) ap ret = emit [c] (wvprintkLoop mem fmt ap ret) := by
  rw [wvprintkLoop, if_neg h0, if_neg hc]

/-- A conversion that is accepted. -/
theorem wvprintkLoop_accepted (h : printkDisplay mem fmt ap = some (0, fmt', ap', out)) :
    wvprintkLoop mem (37 :: fmt) ap ret = emit out (wvprintkLoop mem fmt' ap' ret) := by
  rw [wvprintkLoop, if_neg (by decide), if_pos rfl]
  split
  · rename_i hn
    rw [h] at hn
    cases hn
  · rename_i hs
    rw [h] at hs
    cases hs
    rw [if_neg (by decide)]
    exact congrArg (emit out) (congrArg (wvprintkLoop mem fmt' ap') (BitVec.add_zero ret))

/-- A conversion that is refused ends the call. -/
theorem wvprintkLoop_refused {tmp : Int} (htmp : tmp < 0)
    (h : printkDisplay mem fmt ap = some (tmp, fmt', ap', out)) :
    wvprintkLoop mem (37 :: fmt) ap ret = some (-1, ap', out ++ badPrintkFormat) := by
  rw [wvprintkLoop, if_neg (by decide), if_pos rfl]
  split
  · rename_i hn
    rw [h] at hn
    cases hn
  · rename_i hs
    rw [h] at hs
    cases hs
    rw [if_pos htmp]

end loop

/-! ## The parts of a conversion -/

/-- No modifier starts with the character. -/
def NoModifier (c : UInt8) : Prop := c ≠ 104 ∧ c ≠ 108 ∧ c ≠ 116 ∧ c ≠ 122

instance (c : UInt8) : Decidable (NoModifier c) := inferInstanceAs (Decidable (_ ∧ _))

/-- Without a modifier nothing happens. -/
theorem printkParaSize_plain {c : UInt8} (h : NoModifier c) (fmt : List UInt8) (para : PrintkPara) :
    printkParaSize (c :: fmt) para = some (c :: fmt, para) := by
  obtain ⟨h1, h2, h3, h4⟩ := h
  simp [printkParaSize, modifierData, modifierLoop, matchModifier, h1.symm, h2.symm, h3.symm, h4.symm]

/-- **`printk_display` behind the modifiers.** -/
theorem printkDisplay_behind {mem : Strings} {fmt tail : List UInt8} {c : UInt8} {para : PrintkPara}
    (h : printkParaSize fmt .start = some (c :: tail, para)) (ap : List (BitVec 32)) :
    printkDisplay mem fmt ap =
      match findRow c with
      | none => some (-1, c :: tail, ap, [])
      | some row =>
        if row.size ≠ 0 ∧ para.size ≠ 4 then some (-1, c :: tail, ap, [])
        else (printkParaDisplay mem ap (para.setRow row)).map fun r =>
          (if r.1 < 0 then -1 else 0, tail, r.2) := by
  unfold printkDisplay printkParaConv
  rw [h]
  simp only [bind, Option.bind_some]
  cases findRow c with
  | none => rfl
  | some row =>
    dsimp only
    split
    · rfl
    · rw [Option.bind_some, if_neg (not_not.mpr rfl)]
      cases printkParaDisplay mem ap (para.setRow row) with
      | none => rfl
      | some r =>
        simp only [Option.bind_some, Option.map_some, pure]
        split <;> rfl

end Moonlight
