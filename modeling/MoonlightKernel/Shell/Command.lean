import Mathlib.Data.List.Infix
import Mathlib.Data.List.Induction
import MoonlightKernel.Printk.Format

/-!
# The command line of the shell: `kernel/minishell/minishell.c`

`launchshell` takes characters from the terminal and gives them to `pushback_char`, which keeps an
index into `cmd` and a terminator.  At a newline `exec_cmd` reads `cmd` as a string, and `clear_cmd`
starts the next line.

* `removeLastChar`, `pushbackChar`, `clearCmd` — the source; `none` is a write outside `cmd`;
* `Line` — what the buffer is about: the characters in front of the index, and those behind it that
  the terminator does not cut off;
* `pushbackChar_shows`, `typed_shows` — `pushback_char` does to the buffer what `Line.key` does to
  the line, for any characters;
* `command_edited_iff` — when the string in `cmd` is the edited command;
* `launchshell_shows`, `launchshell_command_iff` — the same for every run of the shell's loop.

A backspace puts the terminator behind the character that it deletes, so the character stays in the
string until the next key.  In a full buffer no key does anything.
-/

set_option autoImplicit false

namespace Moonlight

open Sys

/-! ## The source -/

/-- `SIZE_MAX_CMD`. -/
def SIZE_MAX_CMD : Nat := 128

/-- `cmd_ind` and `cmd`. -/
structure Shell where
  cmdInd : Nat
  cmd : List UInt8
  size : cmd.length = SIZE_MAX_CMD

namespace Shell

/-- `cmd[i] = c`. -/
def store (i : Nat) (c : UInt8) (s : Shell) : Option Shell :=
  if i < SIZE_MAX_CMD then some { s with cmd := s.cmd.set i c, size := by simp [s.size] } else none

/-- Both are null at boot. -/
def boot : Shell := ⟨0, List.replicate SIZE_MAX_CMD 0, List.length_replicate⟩

/-- `cmd_ind = i`. -/
def setInd (i : Nat) (s : Shell) : Shell := { s with cmdInd := i }

end Shell

/-- `remove_last_char`. -/
def removeLastChar (s : Shell) : Option Shell := do
  let s ← s.store s.cmdInd 0
  if s.cmdInd ≠ 0 then pure (s.setInd (s.cmdInd - 1)) else pure s

/-- `pushback_char`. -/
def pushbackChar (s : Shell) (c : UInt8) : Option Shell :=
  if s.cmdInd + 1 = SIZE_MAX_CMD then some s
  else if c = 8 then removeLastChar s
  else do
    let s ← s.store s.cmdInd c
    let s := s.setInd (s.cmdInd + 1)
    s.store s.cmdInd 0

/-- `clear_cmd`. -/
def clearCmd (s : Shell) : Option Shell := (s.setInd 0).store 0 0

/-- The characters `cs`, given to `pushback_char` after a `clear_cmd`. -/
def typed (s : Shell) (cs : List UInt8) : Option Shell := do
  let s ← clearCmd s
  cs.foldlM pushbackChar s

/-- One character in the loop of `launchshell`.  `exec_cmd` does not write to `cmd`. -/
def launchshellKey (s : Shell) (c : UInt8) : Option Shell :=
  if c = 0 then some s else if c = 10 then clearCmd s else pushbackChar s c

/-! ## The line -/

/-- The characters in front of `cmd_ind`, and those from there up to the terminator. -/
structure Line where
  kept : List UInt8
  stale : List UInt8

/-- One character.  The one that a backspace deletes is stale. -/
def Line.key (l : Line) (c : UInt8) : Line :=
  if l.kept.length + 1 = SIZE_MAX_CMD then l
  else if c = 8 then ⟨l.kept.dropLast, l.kept.getLast?.toList⟩
  else ⟨l.kept ++ [c], []⟩

/-- The line after the characters `cs`. -/
def lineOf (cs : List UInt8) : Line := cs.foldl Line.key ⟨[], []⟩

@[simp] theorem lineOf_nil : lineOf [] = ⟨[], []⟩ := rfl

@[simp] theorem lineOf_concat (cs : List UInt8) (c : UInt8) :
    lineOf (cs ++ [c]) = (lineOf cs).key c := List.foldl_concat ..

/-- What a line reads as is made of the characters that were typed. -/
theorem Line.mem_key {l : Line} {c d : UInt8} (h : d ∈ (l.key c).kept ++ (l.key c).stale) :
    d ∈ l.kept ++ l.stale ∨ d = c := by
  unfold Line.key at h
  split at h
  · exact .inl h
  split at h
  · refine .inl (List.mem_append.mpr (.inl ?_))
    rcases List.mem_append.mp h with h | h
    · exact List.dropLast_subset _ h
    · exact List.mem_of_getLast? (Option.mem_toList.mp h)
  · rw [List.append_nil, List.mem_append, List.mem_singleton] at h
    exact h.imp (fun h => List.mem_append.mpr (.inl h)) id

theorem mem_of_mem_lineOf {cs : List UInt8} {d : UInt8}
    (h : d ∈ (lineOf cs).kept ++ (lineOf cs).stale) : d ∈ cs := by
  induction cs using List.reverseRecOn with
  | nil => cases h
  | append_singleton cs c ih =>
    rw [lineOf_concat] at h
    rw [List.mem_append, List.mem_singleton]
    exact (Line.mem_key h).imp ih id

/-! ## The buffer shows the line -/

/-- The buffer has the line `l`, and a terminator after it. -/
structure Shell.Shows (l : Line) (s : Shell) : Prop where
  ind : s.cmdInd = l.kept.length
  text : ∃ rest, s.cmd = l.kept ++ (l.stale ++ 0 :: rest)

namespace Shell

theorem Shows.lt {l : Line} {s : Shell} (h : Shows l s) : s.cmdInd < SIZE_MAX_CMD := by
  obtain ⟨rest, htext⟩ := h.text
  have hsize := s.size
  rw [htext] at hsize
  simp only [List.length_append, List.length_cons] at hsize
  have hind := h.ind
  omega

/-- The string in `cmd`. -/
theorem Shows.reads {l : Line} {s : Shell} (h : Shows l s) (h0 : 0 ∉ l.kept ++ l.stale) :
    cString s.cmd = some (l.kept ++ l.stale) := by
  obtain ⟨rest, htext⟩ := h.text
  rw [htext, ← List.append_assoc]
  exact cString_append h0 rest

/-- A store behind the characters `front`. -/
theorem store_behind {s : Shell} {front : List UInt8} {x : UInt8} {rest : List UInt8}
    (h : s.cmd = front ++ x :: rest) (c : UInt8) :
    ∃ s', s.store front.length c = some s' ∧ s'.cmdInd = s.cmdInd ∧ s'.cmd = front ++ c :: rest := by
  have hsize := s.size
  rw [h, List.length_append, List.length_cons] at hsize
  have hlt : front.length < SIZE_MAX_CMD := by omega
  refine ⟨_, if_pos hlt, rfl, ?_⟩
  simp [h]

/-- The byte at the index. -/
theorem Shows.behind {l : Line} {s : Shell} (h : Shows l s) :
    ∃ x rest, s.cmd = l.kept ++ x :: rest := by
  obtain ⟨rest, htext⟩ := h.text
  rw [htext]
  cases l.stale with
  | nil => exact ⟨0, rest, rfl⟩
  | cons d stale => exact ⟨d, stale ++ 0 :: rest, rfl⟩

end Shell

open Shell

theorem clearCmd_shows (s : Shell) : ∃ s', clearCmd s = some s' ∧ Shows ⟨[], []⟩ s' := by
  have hsize := s.size
  cases hcmd : s.cmd with
  | nil =>
    rw [hcmd] at hsize
    cases hsize
  | cons x rest =>
    obtain ⟨s', hstore, hind, htext⟩ := @store_behind (s.setInd 0) [] x rest hcmd 0
    exact ⟨s', hstore, hind, rest, htext⟩

theorem removeLastChar_shows {l : Line} {s : Shell} (h : Shows l s) :
    ∃ s', removeLastChar s = some s' ∧ Shows ⟨l.kept.dropLast, l.kept.getLast?.toList⟩ s' := by
  obtain ⟨x, rest, hcmd⟩ := h.behind
  obtain ⟨s', hstore, hind, htext⟩ := store_behind hcmd 0
  rw [← h.ind] at hstore
  simp only [removeLastChar, hstore, Option.bind_eq_bind, Option.bind_some]
  rw [hind, h.ind]
  rcases List.eq_nil_or_concat l.kept with hk | ⟨kept, d, hk⟩
  · rw [hk] at htext ⊢
    refine ⟨s', if_neg (by simp), ?_, rest, htext⟩
    rw [hind, h.ind, hk]
    rfl
  · rw [List.concat_eq_append] at hk
    rw [hk] at htext ⊢
    refine ⟨_, if_pos (by simp), ?_, rest, ?_⟩
    · simp [setInd]
    · simpa [setInd] using htext

theorem pushbackChar_shows {l : Line} {s : Shell} (h : Shows l s) (c : UInt8) :
    ∃ s', pushbackChar s c = some s' ∧ Shows (l.key c) s' := by
  unfold pushbackChar Line.key
  rw [h.ind]
  split
  · exact ⟨s, rfl, h⟩
  rename_i hroom
  split
  · exact removeLastChar_shows h
  -- the character goes over the byte at the index, the terminator over the one behind it
  obtain ⟨x, rest, hcmd⟩ := h.behind
  obtain ⟨s₁, hstore₁, hind₁, hcmd₁⟩ := store_behind hcmd c
  have hsize := s.size
  rw [hcmd, List.length_append, List.length_cons] at hsize
  cases rest with
  | nil =>
    rw [List.length_nil] at hsize
    omega
  | cons y rest =>
    have hcmd₂ : (s₁.setInd (s₁.cmdInd + 1)).cmd = (l.kept ++ [c]) ++ y :: rest := by
      rw [List.append_assoc]
      exact hcmd₁
    obtain ⟨s₂, hstore₂, hind₂, hcmd₃⟩ := store_behind hcmd₂ 0
    have hind : (s₁.setInd (s₁.cmdInd + 1)).cmdInd = (l.kept ++ [c]).length := by
      rw [List.length_append, List.length_singleton, ← h.ind, ← hind₁]
      rfl
    refine ⟨s₂, ?_, hind₂.trans hind, rest, hcmd₃⟩
    simp only [hstore₁, Option.bind_eq_bind, Option.bind_some]
    rw [hind]
    exact hstore₂

/-- **The buffer follows the line**, whatever is typed: every write is inside `cmd`. -/
theorem typed_shows (s : Shell) (cs : List UInt8) :
    ∃ s', typed s cs = some s' ∧ Shows (lineOf cs) s' := by
  obtain ⟨s₀, hclear, h₀⟩ := clearCmd_shows s
  simp only [typed, hclear, Option.bind_eq_bind, Option.bind_some]
  induction cs using List.reverseRecOn with
  | nil => exact ⟨s₀, rfl, h₀⟩
  | append_singleton cs c ih =>
    obtain ⟨s₁, hrun, h₁⟩ := ih
    obtain ⟨s₂, hpush, h₂⟩ := pushbackChar_shows h₁ c
    refine ⟨s₂, ?_, ?_⟩
    · simp [List.foldlM_append, hrun, hpush]
    · rw [lineOf_concat]
      exact h₂

/-! ## The edited command -/

/-- One character of an editor for at most 127 characters. -/
def editStep (l : List UInt8) (c : UInt8) : List UInt8 :=
  if c = 8 then l.dropLast
  else if c ≠ 0 ∧ l.length < SIZE_MAX_CMD - 1 then l ++ [c]
  else l

/-- The command that `cs` edits. -/
def editedCommand (cs : List UInt8) : List UInt8 := cs.foldl editStep []

@[simp] theorem editedCommand_concat (cs : List UInt8) (c : UInt8) :
    editedCommand (cs ++ [c]) = editStep (editedCommand cs) c := List.foldl_concat ..

/-- The edited command when it had 127 characters for the first time. -/
def firstFull (cs : List UInt8) : Option (List UInt8) :=
  (cs.inits.map editedCommand).find? fun l => l.length + 1 = SIZE_MAX_CMD

theorem firstFull_concat (cs : List UInt8) (c : UInt8) :
    firstFull (cs ++ [c]) = (firstFull cs).or
      (if (editedCommand (cs ++ [c])).length + 1 = SIZE_MAX_CMD
        then some (editedCommand (cs ++ [c])) else none) := by
  have hinits : (cs ++ [c]).inits = cs.inits ++ [cs ++ [c]] := by simp [List.inits_append]
  unfold firstFull
  rw [hinits, List.map_append, List.find?_append]
  congr 1
  simp [List.find?_singleton]

/-- The last character is a backspace that deletes a character. -/
def ErasesLast (cs : List UInt8) : Prop := cs.getLast? = some 8 ∧ editedCommand cs.dropLast ≠ []

instance (cs : List UInt8) : Decidable (ErasesLast cs) := inferInstanceAs (Decidable (_ ∧ _))

/-- A command whose buffer was never full does not end in a backspace that deletes a character, and
one whose buffer was full is again what it was then. -/
def Settled (cs : List UInt8) : Prop :=
  match firstFull cs with
  | some l => editedCommand cs = l
  | none => ¬ ErasesLast cs

instance (cs : List UInt8) : Decidable (Settled cs) :=
  match h : firstFull cs with
  | some l => decidable_of_iff (editedCommand cs = l) (by simp [Settled, h])
  | none => decidable_of_iff (¬ ErasesLast cs) (by simp [Settled, h])

/-! ## The line and the edited command -/

theorem editedCommand_length_lt (cs : List UInt8) : (editedCommand cs).length < SIZE_MAX_CMD := by
  induction cs using List.reverseRecOn with
  | nil => decide
  | append_singleton cs c ih =>
    rw [editedCommand_concat]
    unfold editStep
    split
    · rw [List.length_dropLast]
      omega
    split
    · rename_i hroom
      rw [List.length_append, List.length_singleton]
      omega
    · exact ih

theorem firstFull_none {cs : List UInt8} (h : firstFull cs = none) :
    (editedCommand cs).length + 1 < SIZE_MAX_CMD := by
  have hmem : editedCommand cs ∈ cs.inits.map editedCommand :=
    List.mem_map.mpr ⟨cs, (List.mem_inits cs cs).mpr (List.prefix_refl cs), rfl⟩
  have hne := List.find?_eq_none.mp h _ hmem
  have hlt := editedCommand_length_lt cs
  simp only [decide_eq_true_eq] at hne
  omega

theorem erasesLast_concat (cs : List UInt8) (c : UInt8) :
    ErasesLast (cs ++ [c]) ↔ c = 8 ∧ editedCommand cs ≠ [] := by
  simp [ErasesLast]

/-- A line with room for another character is edited. -/
theorem Line.key_of_room {l : Line} (h : l.kept.length + 1 < SIZE_MAX_CMD) {c : UInt8}
    (hc : c ≠ 0) :
    (l.key c).kept = editStep l.kept c ∧ ((l.key c).stale = [] ↔ ¬ (c = 8 ∧ l.kept ≠ [])) := by
  unfold Line.key editStep
  rw [if_neg (Nat.ne_of_lt h)]
  split
  · rename_i hback
    refine ⟨rfl, ?_⟩
    cases hk : l.kept.getLast? with
    | none => simp [List.getLast?_eq_none_iff.mp hk]
    | some d =>
      have hne : l.kept ≠ [] := fun hnil => by
        rw [hnil] at hk
        cases hk
      simp [hback, hne]
  · rename_i hback
    refine ⟨?_, by simp [hback]⟩
    rw [if_pos ⟨hc, by omega⟩]

/-- Before the buffer is full it has the edited command, with a stale character after a deletion. -/
theorem lineOf_of_firstFull_none {cs : List UInt8} (h : firstFull cs = none) (h0 : 0 ∉ cs) :
    (lineOf cs).kept = editedCommand cs ∧ ((lineOf cs).stale = [] ↔ ¬ ErasesLast cs) := by
  induction cs using List.reverseRecOn with
  | nil => exact ⟨rfl, by simp [ErasesLast]⟩
  | append_singleton cs c ih =>
    rw [firstFull_concat, Option.or_eq_none_iff] at h
    rw [List.mem_append, List.mem_singleton, not_or] at h0
    have hkept := (ih h.1 h0.1).1
    have hroom := firstFull_none h.1
    rw [← hkept] at hroom
    have hkey := Line.key_of_room hroom (Ne.symm h0.2)
    rw [hkept] at hkey
    rw [lineOf_concat, editedCommand_concat, erasesLast_concat]
    exact hkey

/-- A full buffer keeps its line. -/
theorem lineOf_of_firstFull {cs l : List UInt8} (h : firstFull cs = some l) (h0 : 0 ∉ cs) :
    l.length + 1 = SIZE_MAX_CMD ∧ lineOf cs = ⟨l, []⟩ := by
  induction cs using List.reverseRecOn with
  | nil => cases h
  | append_singleton cs c ih =>
    rw [List.mem_append, List.mem_singleton, not_or] at h0
    rw [lineOf_concat]
    rw [firstFull_concat] at h
    cases hfull : firstFull cs with
    | some l' =>
      rw [hfull] at h
      cases h
      obtain ⟨hlen, hline⟩ := ih hfull h0.1
      refine ⟨hlen, ?_⟩
      rw [hline, Line.key, if_pos hlen]
    | none =>
      rw [hfull, Option.none_or, Option.ite_none_right_eq_some, editedCommand_concat] at h
      obtain ⟨hlen, hl⟩ := h
      cases hl
      have hkept := (lineOf_of_firstFull_none hfull h0.1).1
      have hroom := firstFull_none hfull
      obtain ⟨hk, hs⟩ := Line.key_of_room (l := lineOf cs) (by rwa [hkept]) (Ne.symm h0.2)
      rw [hkept] at hk hs
      -- a backspace does not fill the buffer
      have hback : c ≠ 8 := fun hback => by
        rw [editStep, if_pos hback, List.length_dropLast] at hlen
        omega
      refine ⟨hlen, ?_⟩
      rw [← hk, ← hs.mpr fun hboth => hback hboth.1]

/-- What a line reads as is the edited command in a settled line only. -/
theorem lineOf_eq_iff {cs : List UInt8} (h0 : 0 ∉ cs) :
    (lineOf cs).kept ++ (lineOf cs).stale = editedCommand cs ↔ Settled cs := by
  unfold Settled
  split
  · rename_i l hfull
    rw [(lineOf_of_firstFull hfull h0).2, List.append_nil]
    exact eq_comm
  · rename_i hfull
    obtain ⟨hkept, hstale⟩ := lineOf_of_firstFull_none hfull h0
    rw [hkept, List.append_right_eq_self]
    exact hstale

/-- The string is the edited command in a settled line only. -/
theorem Shell.Shows.edited_iff {cs : List UInt8} {s : Shell} (h : Shows (lineOf cs) s)
    (h0 : 0 ∉ cs) : cString s.cmd = some (editedCommand cs) ↔ Settled cs := by
  rw [h.reads fun hmem => h0 (mem_of_mem_lineOf hmem), ← lineOf_eq_iff h0]
  exact Option.some_inj

/-- **The command in `cmd`**: after a `clear_cmd`, every write is inside `cmd`, the index stays below
its size, and the string is the edited command, exactly if the line is settled. -/
theorem command_edited_iff (s : Shell) {cs : List UInt8} (h0 : 0 ∉ cs) :
    (∃ s', typed s cs = some s' ∧ s'.cmdInd < SIZE_MAX_CMD ∧
        cString s'.cmd = some (editedCommand cs)) ↔
      Settled cs := by
  obtain ⟨s', hrun, hshows⟩ := typed_shows s cs
  rw [← hshows.edited_iff h0]
  constructor
  · rintro ⟨s₁, hrun₁, -, hread⟩
    rw [hrun] at hrun₁
    cases hrun₁
    exact hread
  · intro hread
    exact ⟨s', hrun, hshows.lt, hread⟩

/-- `a`, a backspace and `b`. -/
theorem command_edited_retyped :
    0 ∉ ([97, 8, 98] : List UInt8) ∧
      ∃ s, typed Shell.boot [97, 8, 98] = some s ∧ s.cmdInd < SIZE_MAX_CMD ∧
        cString s.cmd = some (editedCommand [97, 8, 98]) :=
  ⟨by decide, (command_edited_iff Shell.boot (by decide)).mpr (by decide)⟩

/-- `a` and a backspace: the string is still `a`.  127 characters and a backspace: the backspace is
ignored. -/
theorem erased_character_read :
    ((typed Shell.boot [97, 8]).bind fun s => cString s.cmd) = some [97] ∧
      editedCommand [97, 8] = [] ∧
    ((typed Shell.boot (List.replicate 127 97 ++ [8])).bind fun s => cString s.cmd) =
        some (List.replicate 127 97) ∧
      editedCommand (List.replicate 127 97 ++ [8]) = List.replicate 126 97 := by
  decide +kernel

/-! ## The loop of the shell -/

/-- The characters that `pushback_char` was given since the last newline. -/
def sinceNewline (keys : List UInt8) : List UInt8 :=
  keys.foldl (fun cs c => if c = 0 then cs else if c = 10 then [] else cs ++ [c]) []

theorem sinceNewline_concat (keys : List UInt8) (c : UInt8) :
    sinceNewline (keys ++ [c]) =
      if c = 0 then sinceNewline keys else if c = 10 then [] else sinceNewline keys ++ [c] :=
  List.foldl_concat ..

/-- `launchshell` gives `pushback_char` no null byte. -/
theorem zero_notMem_sinceNewline (keys : List UInt8) : 0 ∉ sinceNewline keys := by
  induction keys using List.reverseRecOn with
  | nil => exact List.not_mem_nil
  | append_singleton keys c ih =>
    rw [sinceNewline_concat]
    split
    · exact ih
    rename_i hc
    split
    · exact List.not_mem_nil
    · rw [List.mem_append, List.mem_singleton, not_or]
      exact ⟨ih, Ne.symm hc⟩

/-- **The shell at any time**: the buffer shows the characters since the last newline. -/
theorem launchshell_shows {s : Shell} (h : Shows ⟨[], []⟩ s) (keys : List UInt8) :
    ∃ s', keys.foldlM launchshellKey s = some s' ∧ Shows (lineOf (sinceNewline keys)) s' := by
  induction keys using List.reverseRecOn with
  | nil => exact ⟨s, rfl, h⟩
  | append_singleton keys c ih =>
    obtain ⟨s₁, hrun, h₁⟩ := ih
    rw [List.foldlM_append, hrun, sinceNewline_concat]
    simp only [List.foldlM_cons, List.foldlM_nil, Option.bind_eq_bind, Option.bind_some,
      launchshellKey]
    split
    · exact ⟨s₁, rfl, h₁⟩
    split
    · obtain ⟨s₂, hclear, h₂⟩ := clearCmd_shows s₁
      exact ⟨s₂, by simp [hclear], h₂⟩
    · obtain ⟨s₂, hpush, h₂⟩ := pushbackChar_shows h₁ c
      refine ⟨s₂, by simp [hpush], ?_⟩
      rw [lineOf_concat]
      exact h₂

theorem Shell.boot_shows : Shows ⟨[], []⟩ Shell.boot :=
  ⟨rfl, List.replicate (SIZE_MAX_CMD - 1) 0, rfl⟩

/-- **What `exec_cmd` reads**, whatever came before: the command that was edited since the last
newline, exactly if this line is settled. -/
theorem launchshell_command_iff (keys : List UInt8) :
    ∃ s, keys.foldlM launchshellKey Shell.boot = some s ∧ s.cmdInd < SIZE_MAX_CMD ∧
      (cString s.cmd = some (editedCommand (sinceNewline keys)) ↔ Settled (sinceNewline keys)) := by
  obtain ⟨s, hrun, hshows⟩ := launchshell_shows Shell.boot_shows keys
  exact ⟨s, hrun, hshows.lt, hshows.edited_iff (zero_notMem_sinceNewline keys)⟩

end Moonlight
