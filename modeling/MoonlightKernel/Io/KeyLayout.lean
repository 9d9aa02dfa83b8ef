import MoonlightKernel.Lib.Since

/-!
# The keyboard: `kernel/io/key_layout.c`

The interrupt of the keyboard hands each scan code to `key_layout`: a key that goes down sends its
number, a key that comes up its number with the top bit.  One flag, `shift_locked`, stands for two
shift keys.

* `Keyboard`, `keyLayout`, `setLayout`, `getLayout` — the tables, the flag and the functions;
* `getLayout_setLayout` — a layout that is set is the current one;
* `Held` — a key is down, told from the codes alone; `OneUp` — the newest shift code released one
  shift key while the other one was held;
* `shiftLocked_iff` — the flag is set exactly when a shift key is held and not `OneUp`;
* `shift_follows_iff` — when every press is looked up in the right table, and inside it.
-/

set_option autoImplicit false

namespace Moonlight

open Sys

/-! ## The tables -/

/-- The number of entries of each table. -/
def KEYS : Nat := 90

def valueTableQwertyShift : Vector UInt8 KEYS := #v[
  0,
  0, 33, 64, 35, 36, 37, 94, 38, 42, 40, 41, 95, 43, 8,
  0, 81, 87, 69, 82, 84, 89, 85, 73, 79, 80, 123, 125, 10,  -- Q W E R T Y U I O P
  0, 65, 83, 68, 70, 71, 72, 74, 75, 76, 59, 39, 126,  -- A S D F G H J K L
  0, 124, 90, 88, 67, 86, 66, 78, 77, 60, 62, 63, 0,  -- Z X C V B N M
  42, 0, 32, 0,
  0, 0, 0, 0, 0, 0, 0, 0, 0, 0,
  0, 0,
  55, 56, 57, 45,
  52, 53, 54, 43,
  49, 50, 51,
  48, 46, 54,
  0, 0, 0, 0, 0]

def valueTableQwerty : Vector UInt8 KEYS := #v[
  0,
  0, 49, 50, 51, 52, 53, 54, 55, 56, 57, 48, 45, 61, 8,
  0, 113, 119, 101, 114, 116, 121, 117, 105, 111, 112, 91, 93, 10,  -- q w e r t y u i o p
  0, 97, 115, 100, 102, 103, 104, 106, 107, 108, 58, 34, 96,  -- a s d f g h j k l
  0, 92, 122, 120, 99, 118, 98, 110, 109, 44, 46, 47, 0,  -- z x c v b n m
  42, 0, 32, 0,
  0, 0, 0, 0, 0, 0, 0, 0, 0, 0,
  0, 0,
  55, 56, 57, 45,
  52, 53, 54, 43,
  49, 50, 51,
  48, 46, 54,
  0, 0, 0, 0, 0]

def valueTableAzertyShift : Vector UInt8 KEYS := #v[
  0,
  0, 49, 50, 51, 52, 53, 54, 55, 56, 57, 48, 0, 95, 8,
  0, 65, 90, 69, 82, 84, 89, 85, 73, 79, 80, 0, 42, 10,  -- A Z E R T Y U I O P
  0, 81, 83, 68, 70, 71, 72, 74, 75, 76, 77, 37, 62,  -- Q S D F G H J K L M
  0, 0, 87, 88, 67, 86, 66, 78, 63, 46, 47, 43, 0,  -- W X C V B N
  42, 0, 32, 0,
  0, 0, 0, 0, 0, 0, 0, 0, 0, 0,
  0, 0,
  55, 56, 57, 45,
  52, 53, 54, 43,
  49, 50, 51,
  48, 46, 54,
  0, 0, 0, 0, 0]

def valueTableAzerty : Vector UInt8 KEYS := #v[
  0,
  0, 38, 0, 34, 39, 40, 0, 0, 33, 0, 0, 41, 45, 8,
  0, 97, 122, 101, 114, 116, 121, 117, 105, 111, 112, 94, 36, 10,  -- a z e r t y u i o p
  0, 113, 115, 100, 102, 103, 104, 106, 107, 108, 109, 0, 60,  -- q s d f g h j k l m
  0, 96, 119, 120, 99, 118, 98, 110, 44, 59, 58, 61, 0,  -- w x c v b n
  42, 0, 32, 0,
  0, 0, 0, 0, 0, 0, 0, 0, 0, 0,
  0, 0,
  55, 56, 57, 45,
  52, 53, 54, 43,
  49, 50, 51,
  48, 46, 54,
  0, 0, 0, 0, 0]

/-- Which of the two tables. -/
inductive KeyTable
  | shift | plain
  deriving DecidableEq

/-- The static variables of the file. -/
structure Keyboard where
  shiftLocked : Bool
  valueTableShift : Vector UInt8 KEYS
  valueTable : Vector UInt8 KEYS
  deriving DecidableEq

namespace Keyboard

/-- The initialisers: those of the two tables are the entries of the `qwerty` ones. -/
def boot : Keyboard := ⟨false, valueTableQwertyShift, valueTableQwerty⟩

def table (s : Keyboard) : KeyTable → Vector UInt8 KEYS
  | .shift => s.valueTableShift
  | .plain => s.valueTable

end Keyboard

/-- `get_layout`. -/
def getLayout (s : Keyboard) : String :=
  if s.valueTableShift = valueTableQwertyShift ∧ s.valueTable = valueTableQwerty then "qwerty"
  else if s.valueTableShift = valueTableAzertyShift ∧ s.valueTable = valueTableAzerty then "azerty"
  else "unknow"

/-- `set_layout`. -/
def setLayout (keymap : String) (s : Keyboard) : Nat × Keyboard :=
  if keymap = "qwerty" then
    (0, { s with valueTableShift := valueTableQwertyShift, valueTable := valueTableQwerty })
  else if keymap = "azerty" then
    (0, { s with valueTableShift := valueTableAzertyShift, valueTable := valueTableAzerty })
  else (1, s)

/-- **A layout that is set is the current one.** -/
theorem getLayout_setLayout (keymap : String) (s : Keyboard) (h : (setLayout keymap s).1 = 0) :
    getLayout (setLayout keymap s).2 = keymap := by
  unfold setLayout at h ⊢
  split
  · rename_i hq
    rw [hq]
    exact if_pos ⟨rfl, rfl⟩
  split
  · rename_i ha
    rw [ha]
    have hne : valueTableAzertyShift ≠ valueTableQwertyShift := by decide +kernel
    unfold getLayout
    rw [if_neg fun hq => hne hq.1]
    exact if_pos ⟨rfl, rfl⟩
  · rename_i hq ha
    rw [if_neg hq, if_neg ha] at h
    cases h

/-! ## `key_layout` -/

def SHIFT_PRESSED (x : Nat) : Bool := x = 0x36 || x = 0x2A

def SHIFT_RELEASED (x : Nat) : Bool := x = 0xB6 || x = 0xAA

/-- The table and the index that `key_layout` looks up, once the flag is written. -/
def keyLookup (key : Nat) (s : Keyboard) : Option (KeyTable × Nat) :=
  if key = key &&& 0x7F then some (if s.shiftLocked then .shift else .plain, key &&& 0x7F) else none

/-- The flag that `key_layout` writes. -/
def shiftKey (key : Nat) (s : Keyboard) : Keyboard :=
  let s := if SHIFT_PRESSED key then { s with shiftLocked := true } else s
  if SHIFT_RELEASED key then { s with shiftLocked := false } else s

/-- `key_layout`; the character is `none` when it is read outside the table. -/
def keyLayout (key : Nat) (s : Keyboard) : Option UInt8 × Keyboard :=
  let s := shiftKey key s
  match keyLookup key s with
  | some (t, i) => ((s.table t)[i]?, s)
  | none => (some 0, s)

theorem keyLayout_snd (key : Nat) (s : Keyboard) : (keyLayout key s).2 = shiftKey key s := by
  unfold keyLayout
  dsimp only
  split <;> rfl

/-- What happens to the keyboard: a scan code comes in, or the command `layout` is given. -/
inductive KeyboardOp
  | key (code : Nat)
  | layout (keymap : String)

def KeyboardOp.run (s : Keyboard) : KeyboardOp → Keyboard
  | .key code => (keyLayout code s).2
  | .layout keymap => (setLayout keymap s).2

def KeyboardOp.code : KeyboardOp → Option Nat
  | .key code => some code
  | .layout _ => none

/-- The keyboard after a sequence of events. -/
def Keyboard.run (ops : List KeyboardOp) : Keyboard := ops.foldl KeyboardOp.run .boot

/-- The scan codes of a sequence of events. -/
def codes (ops : List KeyboardOp) : List Nat := ops.filterMap KeyboardOp.code

/-! ## Held keys -/

/-- A key goes down. -/
def Press (code : Nat) : Prop := code ≤ 0x7F

/-- The key has been pressed and not released since. -/
def Held (key : Nat) : List Nat → Prop := Since (fun _ c => c = key) fun c => c = key + 0x80

/-- A shift key is held. -/
def ShiftHeld (l : List Nat) : Prop := Held 0x2A l ∨ Held 0x36 l

/-- The shift key that the code does not release. -/
def otherShift (code : Nat) : Nat := if code = 0xAA then 0x36 else 0x2A

/-- The newest shift code released one shift key while the other one was held. -/
def OneUp : List Nat → Prop :=
  Since (fun before c => SHIFT_RELEASED c = true ∧ Held (otherShift c) before)
    fun c => SHIFT_PRESSED c = true ∨ SHIFT_RELEASED c = true

section held

theorem run_concat_key (ops : List KeyboardOp) (c : Nat) :
    Keyboard.run (ops ++ [.key c]) = (keyLayout c (Keyboard.run ops)).2 := by
  unfold Keyboard.run
  rw [List.foldl_append]
  rfl

theorem setLayout_shiftLocked (keymap : String) (s : Keyboard) :
    (setLayout keymap s).2.shiftLocked = s.shiftLocked := by
  unfold setLayout
  split
  · rfl
  split <;> rfl

/-- `key_layout` treats its flag as a latch. -/
theorem shiftKey_shiftLocked (c : Nat) (s : Keyboard) :
    (shiftKey c s).shiftLocked = latch SHIFT_PRESSED SHIFT_RELEASED s.shiftLocked c := by
  unfold shiftKey latch
  cases SHIFT_PRESSED c <;> cases SHIFT_RELEASED c <;> rfl

theorem run_shiftLocked (ops : List KeyboardOp) : (Keyboard.run ops).shiftLocked =
    (codes ops).foldl (latch SHIFT_PRESSED SHIFT_RELEASED) false := by
  induction ops using List.reverseRecOn with
  | nil => rfl
  | append_singleton ops op ih =>
    unfold Keyboard.run codes at *
    rw [List.foldl_append, List.filterMap_append, List.foldl_append, ← ih]
    cases op with
    | key c =>
      show (keyLayout c _).2.shiftLocked = _
      rw [keyLayout_snd, shiftKey_shiftLocked]
      rfl
    | layout keymap => exact setLayout_shiftLocked keymap _

/-- The five kinds of codes. -/
theorem code_cases (c : Nat) : c = 0x2A ∨ c = 0x36 ∨ c = 0xAA ∨ c = 0xB6 ∨
    (c ≠ 0x2A ∧ c ≠ 0x36 ∧ c ≠ 0xAA ∧ c ≠ 0xB6) := by
  omega

/-- The flag as a formula over the codes, next to what it stands for. -/
theorem pressed_since_iff (l : List Nat) :
    (Since (fun _ c => SHIFT_PRESSED c = true) (fun c => SHIFT_RELEASED c = true) l ↔
      ShiftHeld l ∧ ¬ OneUp l) ∧ (OneUp l → ShiftHeld l) := by
  induction l using List.reverseRecOn with
  | nil => simp [ShiftHeld, Held, OneUp]
  | append_singleton l c ih =>
    obtain ⟨hflag, hheld⟩ := ih
    unfold ShiftHeld Held OneUp at *
    simp only [Since.concat_iff, hflag]
    rcases code_cases c with rfl | rfl | rfl | rfl | ⟨h₁, h₂, h₃, h₄⟩
    · simp [SHIFT_PRESSED, SHIFT_RELEASED]
    · simp [SHIFT_PRESSED, SHIFT_RELEASED]
    · simp [SHIFT_PRESSED, SHIFT_RELEASED, otherShift, Held]
    · simp [SHIFT_PRESSED, SHIFT_RELEASED, otherShift, Held]
    · -- a code of another key changes nothing
      have hp : SHIFT_PRESSED c = false := by simp [SHIFT_PRESSED, h₁, h₂]
      have hr : SHIFT_RELEASED c = false := by simp [SHIFT_RELEASED, h₃, h₄]
      simp only [hp, hr, h₁, h₂]
      simpa [h₃, h₄] using hheld

/-- **The flag is set** exactly when a shift key is held and the newest shift code has not released
the other one. -/
theorem shiftLocked_iff (ops : List KeyboardOp) :
    (Keyboard.run ops).shiftLocked = true ↔ ShiftHeld (codes ops) ∧ ¬ OneUp (codes ops) := by
  rw [← (pressed_since_iff (codes ops)).1, ← latch_iff]
  · rw [run_shiftLocked]
  · intro c hc
    simp only [SHIFT_PRESSED, Bool.or_eq_true, decide_eq_true_eq] at hc
    rcases hc with rfl | rfl <;> rfl

end held

/-! ## The lookups -/

/-- The lookup of a press `c` after the events `before`: in the shifted table exactly when a shift
key is held, and inside the table. -/
def LookedUpRightly (before : List KeyboardOp) (c : Nat) : Prop :=
  ∃ t i, keyLookup c (shiftKey c (Keyboard.run before)) = some (t, i) ∧ i < KEYS ∧
    (t = .shift ↔ ShiftHeld (codes (before ++ [.key c])))

/-- Every press of a sequence of events is looked up rightly, and nothing else is looked up. -/
def ShiftFollows (ops : List KeyboardOp) : Prop :=
  ∀ before c, before ++ [.key c] <+: ops →
    (Press c → LookedUpRightly before c) ∧
      (¬ Press c → keyLookup c (shiftKey c (Keyboard.run before)) = none)

section lookup

variable {before : List KeyboardOp} {c : Nat}

theorem press_and (h : Press c) : c &&& 0x7F = c := by
  rw [show (0x7F : Nat) = 2 ^ 7 - 1 from rfl, Nat.and_two_pow_sub_one_eq_mod]
  exact Nat.mod_eq_of_lt (Nat.lt_succ_of_le h)

/-- A code that is no press is looked up nowhere. -/
theorem keyLookup_release (h : ¬ Press c) (s : Keyboard) : keyLookup c s = none := by
  refine if_neg fun hc => h ?_
  rw [hc]
  exact Nat.and_le_right

/-- **One press**: its number has to be an index, and no shift key may be up alone. -/
theorem lookedUpRightly_iff (h : Press c) :
    LookedUpRightly before c ↔ c < KEYS ∧ ¬ OneUp (codes (before ++ [.key c])) := by
  have hlook : keyLookup c (shiftKey c (Keyboard.run before)) =
      some (if (Keyboard.run (before ++ [.key c])).shiftLocked then .shift else .plain, c) := by
    rw [run_concat_key, keyLayout_snd]
    unfold keyLookup
    rw [press_and h, if_pos rfl]
  have hflag := shiftLocked_iff (before ++ [.key c])
  have himp := (pressed_since_iff (codes (before ++ [.key c]))).2
  unfold LookedUpRightly
  rw [hlook]
  constructor
  · rintro ⟨t, i, hti, hi, ht⟩
    obtain ⟨rfl, rfl⟩ := Prod.mk.inj (Option.some.inj hti)
    refine ⟨hi, fun hup => ?_⟩
    rw [if_neg fun hf => (hflag.mp hf).2 hup] at ht
    exact absurd (ht.mpr (himp hup)) (by decide)
  · rintro ⟨hc, hup⟩
    refine ⟨_, c, rfl, hc, ?_⟩
    rw [and_iff_left hup] at hflag
    rw [← hflag]
    cases (Keyboard.run (before ++ [.key c])).shiftLocked <;> decide

end lookup

/-- **The shift state follows the keys** exactly when every key that is pressed is in the tables, and
none is pressed when the newest shift code has released one shift key and the other one is held. -/
theorem shift_follows_iff (ops : List KeyboardOp) :
    ShiftFollows ops ↔ ∀ before c, before ++ [.key c] <+: ops → Press c →
      c < KEYS ∧ ¬ OneUp (codes (before ++ [.key c])) :=
  forall₃_congr fun _ _ _ =>
    (and_iff_left fun h => keyLookup_release h _).trans (forall_congr' lookedUpRightly_iff)

/-- Both shift keys go down and the right one comes up: `a` is looked up without shift. -/
theorem released_shift_hides_held :
    ¬ ShiftFollows [.key 0x2A, .key 0x36, .key 0xB6, .key 0x1E] ∧
      ShiftHeld [0x2A, 0x36, 0xB6, 0x1E] ∧
      (keyLayout 0x1E (Keyboard.run [.key 0x2A, .key 0x36, .key 0xB6])).1 = some 97 ∧
      ¬ ShiftFollows [.key 0x5A] ∧ (keyLayout 0x5A .boot).1 = none := by
  have hup : OneUp [0x2A, 0x36, 0xB6, 0x1E] :=
    ⟨[0x2A, 0x36], 0xB6, [0x1E], rfl, ⟨rfl, [], 0x2A, [0x36], rfl, rfl, by decide⟩, by decide⟩
  refine ⟨fun h => ?_, (pressed_since_iff _).2 hup, by decide +kernel, fun h => ?_, by decide +kernel⟩
  · have hpress : Press 0x1E := by unfold Press; decide
    have hlook := (h [.key 0x2A, .key 0x36, .key 0xB6] 0x1E (List.prefix_refl _)).1 hpress
    exact ((lookedUpRightly_iff hpress).mp hlook).2 hup
  · have hpress : Press 0x5A := by unfold Press; decide
    have hlook := (h [] 0x5A (List.prefix_refl _)).1 hpress
    exact absurd ((lookedUpRightly_iff hpress).mp hlook).1 (by decide)

end Moonlight
