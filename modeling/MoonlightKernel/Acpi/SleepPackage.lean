import MoonlightKernel.Acpi.Header

/-!
# The sleep types: the search in the DSDT by `initAcpi` of `power_off.c`

The values that switch the machine off stand in the package `\_S5` of the table DSDT, which is AML
code.  `initAcpi` does not interpret it: it looks for the four letters of the name, checks the
opcodes around them, and steps over the length of the package to its first two elements.

* `searchS5`, `parseS5`, `sleepTypes` — the search and the parse;
* `Element`, `S5Package` — the part of the AML encoding that is meant;
* `parseS5_iff` — the parse is that of the encoding; `searchS5_iff` — the search finds the first name;
* `sleepTypes_congr` — no byte is read behind those that `get_ACPIHeader` has copied;
* `sleep_types_read` — the whole.
-/

set_option autoImplicit false

namespace Moonlight

/-! ## The source -/

/-- `memcmp(S5Addr, "_S5_", 4) == 0`. -/
def IsS5 (data : Nat → UInt8) (s5Addr : Nat) : Prop :=
  ∀ i : Fin 4, data (s5Addr + i) = ![0x5F, 0x53, 0x35, 0x5F] i

instance (data : Nat → UInt8) (s5Addr : Nat) : Decidable (IsS5 data s5Addr) :=
  inferInstanceAs (Decidable (∀ _, _))

/-- `dsdtLength` before the loop. -/
def dsdtLength (data : Nat → UInt8) (dsdt : Nat) : Int := (lengthField data dsdt - 36#32).toInt

/-- The loop, for some number of passes: `S5Addr` and `dsdtLength` behind it.  The test that ends it
counts once more, below zero. -/
def searchS5 (data : Nat → UInt8) : Nat → Nat → Nat × Int
  | 0, s5Addr => (s5Addr, -1)
  | n + 1, s5Addr => if IsS5 data s5Addr then (s5Addr, n) else searchS5 data n (s5Addr + 1)

/-- `*(S5Addr)<<10` as a `short`. -/
def sleepType (c : UInt8) : BitVec 16 := (c.toBitVec.signExtend 32 <<< 10).setWidth 16

/-- `if (*S5Addr == 0x0A) S5Addr++;` -/
def byteprefixSkipped (data : Nat → UInt8) (s5Addr : Nat) : Nat :=
  if data s5Addr = 0x0A then s5Addr + 1 else s5Addr

/-- `SLP_TYPa` and `SLP_TYPb`, or a parse error. -/
def parseS5 (data : Nat → UInt8) (s5Addr : Nat) : Option (BitVec 16 × BitVec 16) :=
  if (data (s5Addr - 1) = 0x08 ∨ (data (s5Addr - 2) = 0x08 ∧ data (s5Addr - 1) = 0x5C)) ∧
      data (s5Addr + 4) = 0x12 then
    let s5Addr := s5Addr + 5
    let s5Addr := s5Addr + (((data s5Addr &&& 0xC0) >>> 6).toNat + 2)
    let first := byteprefixSkipped data s5Addr
    let second := byteprefixSkipped data (first + 1)
    some (sleepType (data first), sleepType (data second))
  else none

/-- The search and the parse.  A negative `dsdtLength` makes no pass. -/
def sleepTypes (data : Nat → UInt8) (dsdt : Nat) : Option (BitVec 16 × BitVec 16) :=
  let r := searchS5 data (dsdtLength data dsdt).toNat (dsdt + 36)
  if 0 < r.2 then parseS5 data r.1 else none

/-! ## The encoding -/

/-- An element of a package: a constant of one byte, or a byte behind its prefix. -/
inductive Element where
  | const (v : UInt8) (hv : v ≠ 0x0A)
  | byte (v : UInt8)

def Element.value : Element → UInt8
  | .const v _ | .byte v => v

def Element.bytes : Element → List UInt8
  | .const v _ => [v]
  | .byte v => [0x0A, v]

/-- The bytes `bs` are in memory from `p` on. -/
def HoldsBytes (data : Nat → UInt8) : Nat → List UInt8 → Prop
  | _, [] => True
  | p, b :: bs => data p = b ∧ HoldsBytes data (p + 1) bs

/-- The name at `s` is that of a package, with the elements `a` and `b` first: before it is the name's
opcode, perhaps with the root of the name space, and behind it the opcode of a package, the length
of the package, whose first byte says how many follow, and the number of its elements. -/
structure S5Package (data : Nat → UInt8) (s : Nat) (a b : Element) : Prop where
  name : data (s - 1) = 0x08 ∨ (data (s - 2) = 0x08 ∧ data (s - 1) = 0x5C)
  package : data (s + 4) = 0x12
  elements : HoldsBytes data (s + 7 + ((data (s + 5) &&& 0xC0) >>> 6).toNat) (a.bytes ++ b.bytes)

section parse

variable {data data' : Nat → UInt8} {p s n dsdt : Nat}

theorem holdsBytes_append {xs ys : List UInt8} : HoldsBytes data p (xs ++ ys) ↔
    HoldsBytes data p xs ∧ HoldsBytes data (p + xs.length) ys := by
  induction xs generalizing p with
  | nil => exact (and_iff_right trivial).symm
  | cons x xs ih =>
    rw [List.cons_append, HoldsBytes, HoldsBytes, ih, and_assoc, List.length_cons]
    rw [Nat.add_assoc, Nat.add_comm 1]

/-- Behind the prefix is the value, and behind the value the next element. -/
theorem byteprefixSkipped_of_holds {a : Element} (h : HoldsBytes data p a.bytes) :
    data (byteprefixSkipped data p) = a.value ∧ byteprefixSkipped data p + 1 = p + a.bytes.length := by
  unfold byteprefixSkipped
  cases a with
  | const v hv =>
    obtain ⟨hp, -⟩ := h
    rw [if_neg (hp ▸ hv)]
    exact ⟨hp, rfl⟩
  | byte v =>
    obtain ⟨hbyte, hv, -⟩ := h
    rw [if_pos hbyte]
    exact ⟨hv, rfl⟩

/-- Whatever bytes there are, they are read as an element. -/
theorem exists_element (data : Nat → UInt8) (p : Nat) : ∃ a : Element, HoldsBytes data p a.bytes := by
  by_cases hp : data p = 0x0A
  · exact ⟨.byte (data (p + 1)), hp, rfl, trivial⟩
  · exact ⟨.const (data p) hp, rfl, trivial⟩

/-- **The parse** is that of the encoding. -/
theorem parseS5_iff {r : BitVec 16 × BitVec 16} : parseS5 data s = some r ↔
    ∃ a b, S5Package data s a b ∧ r = (sleepType a.value, sleepType b.value) := by
  have hstart : ∀ k, s + 5 + (k + 2) = s + 7 + k := fun k => by omega
  unfold parseS5
  dsimp only
  rw [hstart]
  generalize hk : s + 7 + ((data (s + 5) &&& 0xC0) >>> 6).toNat = e
  constructor
  · intro h
    split at h
    · rename_i hops
      obtain ⟨a, ha⟩ := exists_element data e
      obtain ⟨hfirst, hnext⟩ := byteprefixSkipped_of_holds ha
      obtain ⟨b, hb⟩ := exists_element data (e + a.bytes.length)
      obtain ⟨hsecond, -⟩ := byteprefixSkipped_of_holds hb
      rw [hnext, hfirst, hsecond] at h
      refine ⟨a, b, ⟨hops.1, hops.2, ?_⟩, (Option.some.inj h).symm⟩
      rw [hk]
      exact holdsBytes_append.mpr ⟨ha, hb⟩
    · cases h
  · rintro ⟨a, b, h, rfl⟩
    obtain ⟨ha, hb⟩ := holdsBytes_append.mp h.elements
    rw [hk] at ha hb
    obtain ⟨hfirst, hnext⟩ := byteprefixSkipped_of_holds ha
    obtain ⟨hsecond, -⟩ := byteprefixSkipped_of_holds hb
    rw [if_pos ⟨h.name, h.package⟩, hnext, hfirst, hsecond]

/-- **The search** stops at the first name, unless that is at the last place. -/
theorem searchS5_iff (n p q : Nat) : 0 < (searchS5 data n p).2 ∧ (searchS5 data n p).1 = q ↔
    ∃ i, i + 1 < n ∧ q = p + i ∧ IsS5 data q ∧ ∀ j < i, ¬ IsS5 data (p + j) := by
  induction n generalizing p with
  | zero =>
    refine iff_of_false (fun h => ?_) fun ⟨i, hi, _⟩ => absurd hi (Nat.not_lt_zero _)
    exact absurd h.1 (by decide : ¬ (0 : Int) < -1)
  | succ n ih =>
    rw [searchS5]
    by_cases hp : IsS5 data p
    · rw [if_pos hp]
      constructor
      · rintro ⟨hn, rfl⟩
        exact ⟨0, Nat.succ_lt_succ (Int.natCast_pos.mp hn), rfl, hp, fun j hj => absurd hj j.not_lt_zero⟩
      · rintro ⟨i, hi, rfl, -, hfirst⟩
        have hzero : i = 0 := by
          by_contra hne
          exact hfirst 0 (Nat.pos_of_ne_zero hne) hp
        subst hzero
        exact ⟨Int.natCast_pos.mpr (Nat.lt_of_succ_lt_succ hi), rfl⟩
    · rw [if_neg hp, ih]
      constructor
      · rintro ⟨i, hi, rfl, hs, hfirst⟩
        refine ⟨i + 1, Nat.succ_lt_succ hi, by omega, hs, fun j hj => ?_⟩
        cases j with
        | zero => exact hp
        | succ j =>
          rw [← Nat.add_assoc, Nat.add_right_comm]
          exact hfirst j (Nat.lt_of_succ_lt_succ hj)
      · rintro ⟨i, hi, rfl, hs, hfirst⟩
        cases i with
        | zero => exact absurd hs hp
        | succ i =>
          refine ⟨i, Nat.lt_of_succ_lt_succ hi, by omega, hs, fun j hj => ?_⟩
          rw [Nat.add_right_comm, Nat.add_assoc]
          exact hfirst (j + 1) (Nat.succ_lt_succ hj)

/-! ## What is read -/

theorem isS5_congr (h : ∀ q, p ≤ q → q < p + 4 → data' q = data q) : IsS5 data' p ↔ IsS5 data p := by
  have hi : ∀ i : Fin 4, data' (p + i) = data (p + i) := fun i => h _ (by omega) (by omega)
  unfold IsS5
  simp only [hi]

theorem searchS5_congr (h : ∀ q, p ≤ q → q < p + n + 3 → data' q = data q) :
    searchS5 data' n p = searchS5 data n p := by
  induction n generalizing p with
  | zero => rfl
  | succ n ih =>
    have hp : IsS5 data' p ↔ IsS5 data p := isS5_congr fun q hq hq' => h q hq (by omega)
    rw [searchS5, searchS5, ih fun q hq hq' => h q (by omega) (by omega)]
    by_cases hs : IsS5 data p
    · rw [if_pos hs, if_pos (hp.mpr hs)]
    · rw [if_neg hs, if_neg fun h' => hs (hp.mp h')]

/-- Two bits say how many bytes the length has. -/
theorem pkgLength_le (c : UInt8) : ((c &&& 0xC0) >>> 6).toNat ≤ 3 := by
  have hlt := (c &&& 0xC0).toNat_lt
  rw [UInt8.toNat_shiftRight, Nat.shiftRight_eq_div_pow]
  show (c &&& 0xC0).toNat / 2 ^ 6 ≤ 3
  omega

theorem byteprefixSkipped_le (data : Nat → UInt8) (p : Nat) :
    p ≤ byteprefixSkipped data p ∧ byteprefixSkipped data p ≤ p + 1 := by
  unfold byteprefixSkipped
  split <;> omega

theorem byteprefixSkipped_congr (h : data' p = data p) :
    byteprefixSkipped data' p = byteprefixSkipped data p := by
  unfold byteprefixSkipped
  rw [h]

/-- The parse looks at sixteen bytes. -/
theorem parseS5_congr (h : ∀ q, s - 2 ≤ q → q < s + 14 → data' q = data q) :
    parseS5 data' s = parseS5 data s := by
  unfold parseS5
  dsimp only
  rw [h (s - 1) (by omega) (by omega), h (s - 2) (by omega) (by omega), h (s + 4) (by omega) (by omega),
    h (s + 5) (by omega) (by omega)]
  have hlen := pkgLength_le (data (s + 5))
  generalize ((data (s + 5) &&& 0xC0) >>> 6).toNat = k at hlen
  generalize he : s + 5 + (k + 2) = e
  rw [byteprefixSkipped_congr (h e (by omega) (by omega))]
  obtain ⟨hle, hle'⟩ := byteprefixSkipped_le data e
  generalize byteprefixSkipped data e = first at hle hle'
  rw [byteprefixSkipped_congr (h (first + 1) (by omega) (by omega))]
  obtain ⟨hle₂, hle₂'⟩ := byteprefixSkipped_le data (first + 1)
  generalize byteprefixSkipped data (first + 1) = second at hle₂ hle₂'
  rw [h first (by omega) (by omega), h second (by omega) (by omega)]

/-- The places of the search are inside the table. -/
theorem dsdtLength_le (data : Nat → UInt8) (dsdt : Nat) :
    (dsdtLength data dsdt).toNat ≠ 0 →
      (dsdtLength data dsdt).toNat + 36 = (lengthField data dsdt).toNat := by
  unfold dsdtLength
  generalize lengthField data dsdt = x
  intro h
  have hx := x.isLt
  have hsub : (x - 36#32).toNat = (2 ^ 32 - 36 + x.toNat) % 2 ^ 32 := by
    rw [BitVec.toNat_sub]
    rfl
  rw [BitVec.toInt_eq_toNat_cond, hsub] at h ⊢
  split at h <;> omega

/-- **Nothing is read behind the copy**: `36 + Length` bytes. -/
theorem sleepTypes_congr
    (h : ∀ q, dsdt ≤ q → q < dsdt + (36 + (lengthField data dsdt).toNat) → data' q = data q) :
    sleepTypes data' dsdt = sleepTypes data dsdt := by
  have hlen : lengthField data' dsdt = lengthField data dsdt :=
    lengthField_congr fun i hi hi' => h _ (by omega) (by omega)
  have hpasses : dsdtLength data' dsdt = dsdtLength data dsdt := by
    unfold dsdtLength
    rw [hlen]
  have hinside := dsdtLength_le data dsdt
  unfold sleepTypes
  dsimp only
  rw [hpasses]
  generalize (dsdtLength data dsdt).toNat = n at hinside
  by_cases hn : n = 0
  · subst hn
    rfl
  replace hinside := hinside hn
  rw [searchS5_congr fun q hq hq' => h q (by omega) (by omega)]
  by_cases hpos : 0 < (searchS5 data n (dsdt + 36)).2
  · rw [if_pos hpos, if_pos hpos]
    obtain ⟨i, hi, hs, -⟩ := (searchS5_iff n (dsdt + 36) _).mp ⟨hpos, rfl⟩
    rw [hs]
    exact parseS5_congr fun q hq hq' => h q (by omega) (by omega)
  · rw [if_neg hpos, if_neg hpos]

/-- **The sleep types** are those of the first package of the name, and they depend on no byte but
those that have been copied. -/
theorem sleep_types_read (data : Nat → UInt8) (dsdt : Nat) :
    (∀ r, sleepTypes data dsdt = some r ↔ ∃ i a b, i + 1 < (dsdtLength data dsdt).toNat ∧
      IsS5 data (dsdt + 36 + i) ∧ (∀ j < i, ¬ IsS5 data (dsdt + 36 + j)) ∧
      S5Package data (dsdt + 36 + i) a b ∧ r = (sleepType a.value, sleepType b.value)) ∧
    ∀ data' : Nat → UInt8,
      (∀ q, dsdt ≤ q → q < dsdt + (36 + (lengthField data dsdt).toNat) → data' q = data q) →
      sleepTypes data' dsdt = sleepTypes data dsdt := by
  refine ⟨fun r => ?_, fun data' => sleepTypes_congr⟩
  have hsearch := @searchS5_iff data (dsdtLength data dsdt).toNat (dsdt + 36)
  unfold sleepTypes
  dsimp only
  constructor
  · intro h
    split at h
    · rename_i hpos
      obtain ⟨i, hi, hs, hname, hfirst⟩ := (hsearch _).mp ⟨hpos, rfl⟩
      rw [hs] at h hname
      obtain ⟨a, b, hpackage, hr⟩ := parseS5_iff.mp h
      exact ⟨i, a, b, hi, hname, hfirst, hpackage, hr⟩
    · cases h
  · rintro ⟨i, a, b, hi, hname, hfirst, hpackage, hr⟩
    obtain ⟨hpos, hs⟩ := (hsearch (dsdt + 36 + i)).mpr ⟨i, hi, rfl, hname, hfirst⟩
    rw [if_pos hpos, hs]
    exact parseS5_iff.mpr ⟨a, b, hpackage, hr⟩

end parse

/-- A table of 52 bytes, with the package of a machine whose sleep types are both 5. -/
def sampleDsdt (i : Nat) : UInt8 :=
  (([0x44, 0x53, 0x44, 0x54, 52, 0, 0, 0] : List UInt8) ++ List.replicate 28 0 ++
    [0x08, 0x5F, 0x53, 0x35, 0x5F, 0x12, 0x06, 0x04, 0x0A, 0x05, 0x0A, 0x05]).getD i 0

example : sleepTypes sampleDsdt 0 = some (sleepType 5, sleepType 5) := by decide +kernel

end Moonlight
