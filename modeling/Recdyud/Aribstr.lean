import Recdyud.Py

/-!
# ARIB STD-B24 character strings

`decode` turns the 8-unit code of SI tables into text. It is a small machine: four designated
character sets, two of them invoked into the left and right half of the code table, and a single
shift that may override the left one for one character. `Decoder` is that state, `Decoder.body` the
body of the `while` loop, and each step reports how many bytes behind the first one it used, so
that the loop can be seen to end.

The codec behind the kanji sets belongs to the language; it is a parameter `eucJis2004` here,
`none` where it raises `UnicodeDecodeError`.

Every index expression is kept fallible, and `decode_eq` shows that none of them is ever out of
range.
-/

namespace Recdyud

/-- The codec `euc_jis_2004`. -/
abbrev Codec := Bytes → Option Str

namespace Aribstr

/-! ## Character sets -/

def kanji : ℕ := 0x42
def jisKanji1 : ℕ := 0x39
def jisKanji2 : ℕ := 0x3A
def additionalSymbols : ℕ := 0x3B
def alnum : ℕ := 0x4A
def hiraganaSet : ℕ := 0x30
def katakanaSet : ℕ := 0x31
def propAlnum : ℕ := 0x36
def propHiragana : ℕ := 0x37
def propKatakana : ℕ := 0x38
def jisX0201Katakana : ℕ := 0x49

def twoByteSets : List ℕ := [kanji, jisKanji1, jisKanji2, additionalSymbols]

/-- Marker for any DRCS set. -/
def drcs : ℕ := 0x100
def drcsTwoByte : ℕ := 0x101

def geta : Str := ['〓']

/-- `_HIRAGANA` -/
def hiragana : Str :=
  (List.range 0x53).map (fun i ↦ Char.ofNat (0x3041 + i)) ++ "   ".toList ++ "ゝゞー。「」、・".toList

/-- `_KATAKANA` -/
def katakana : Str :=
  (List.range 0x56).map (fun i ↦ Char.ofNat (0x30A1 + i)) ++ "ヽヾー。「」、・".toList

/-- `_C1_PARAMS` -/
def c1Params (b : UInt8) : ℕ :=
  if b ∈ [(0x8B : UInt8), 0x90, 0x91, 0x93, 0x94, 0x97, 0x98] then 1 else 0

/-- `_two_byte` -/
def twoByte (eucJis2004 : Codec) (g : ℕ) (b1 b2 : UInt8) : Str :=
  if g = kanji ∨ g = jisKanji1 ∨ g = jisKanji2 then
    let raw :=
      if g = jisKanji2 then [0x8F, b1 ||| 0x80, b2 ||| 0x80] else [b1 ||| 0x80, b2 ||| 0x80]
    (eucJis2004 raw).getD geta
  else
    geta

/-- Indexing a `str`; a negative index counts from the end. -/
def charAt (s : Str) (i : ℤ) : Except IndexError Str :=
  match s[(if i < 0 then i + s.length else i).toNat]? with
  | some c => if i + s.length < 0 then .error .outOfRange else .ok [c]
  | none => .error .outOfRange

/-- `_one_byte` -/
def oneByte (g : ℕ) (b : UInt8) : Except IndexError Str :=
  if g = alnum ∨ g = propAlnum then .ok [Char.ofNat b.toNat]
  else if g = hiraganaSet ∨ g = propHiragana then charAt hiragana (b.toNat - 0x21)
  else if g = katakanaSet ∨ g = propKatakana then charAt katakana (b.toNat - 0x21)
  else if g = jisX0201Katakana ∧ b ≤ 0x5F then .ok [Char.ofNat (0xFF61 + b.toNat - 0x21)]
  else .ok geta

/-! ## The decoder -/

/-- There are four designated sets, with numerals for their indices. -/
instance neZero_four : NeZero 4 := ⟨four_ne_zero⟩

/-- The local variables of `decode`. -/
structure Decoder where
  /-- The designated sets G0 … G3. -/
  g : Fin 4 → ℕ := ![kanji, alnum, hiraganaSet, katakanaSet]
  gl : Fin 4 := 0
  gr : Fin 4 := 2
  single : Option (Fin 4) := none
  out : Str := []

/-- `is_two_byte` -/
def isTwoByte (s : ℕ) : Bool := s ∈ twoByteSets || s == drcsTwoByte

/-- `c - 0x28` for a byte `c` in `0x28 … 0x2B` -/
def designated (c : UInt8) : Option (Fin 4) :=
  if c = 0x28 then some 0 else if c = 0x29 then some 1 else if c = 0x2A then some 2
  else if c = 0x2B then some 3 else none

/-- Designate the set named at `data[i]`, `0x20` introducing a DRCS set: the decoder and the bytes
used. -/
def Decoder.designate (self : Decoder) (data : Bytes) (i : ℕ) (idx : Fin 4) (drcsSet : ℕ) :
    Except IndexError (ℕ × Decoder) := do
  if i < data.length then
    let f ← index data i
    if f = 0x20 then
      return (2, { self with g := Function.update self.g idx drcsSet })
    else
      return (1, { self with g := Function.update self.g idx f.toNat })
  else
    return (0, self)

/-- The `match` on the byte `c` that follows ESC; `i` is the position behind it. -/
def Decoder.escape (self : Decoder) (data : Bytes) (i : ℕ) (c : UInt8) :
    Except IndexError (ℕ × Decoder) := do
  if c = 0x6E then return (0, { self with gl := 2 })
  else if c = 0x6F then return (0, { self with gl := 3 })
  else if c = 0x7E then return (0, { self with gr := 1 })
  else if c = 0x7D then return (0, { self with gr := 2 })
  else if c = 0x7C then return (0, { self with gr := 3 })
  else if c = 0x24 then
    -- a two-byte set; without an explicit target it goes to G0
    if i < data.length then
      let f ← index data i
      match designated f with
      | some idx =>
        let (n, self) ← self.designate data (i + 1) idx drcsTwoByte
        return (n + 1, self)
      | none => return (1, { self with g := Function.update self.g 0 f.toNat })
    else
      return (0, self)
  else
    match designated c with
    | some idx => self.designate data i idx drcs
    | none => return (0, self)

/-- The parameter bytes of a CSI sequence from position `i` on, up to the final byte. -/
def csiParams (data : Bytes) (i : ℕ) : Except IndexError ℕ := do
  if i < data.length then
    let b ← index data i
    if 0x40 ≤ b ∧ b ≤ 0x7E then
      return 0
    else
      return (← csiParams data (i + 1)) + 1
  else
    return 0
termination_by data.length - i

/-- Append the character at position `i`, of the set `gset`. `none` is the `break` in front of a
missing second byte. -/
def Decoder.put (eucJis2004 : Codec) (self : Decoder) (data : Bytes) (i gset : ℕ) (code : UInt8) :
    Except IndexError (Option (ℕ × Decoder)) := do
  if isTwoByte gset then
    if data.length ≤ i + 1 then
      return none
    else
      let b2 ← index data (i + 1)
      return some (1, { self with out := self.out ++ twoByte eucJis2004 gset code (b2 &&& 0x7F) })
  else
    let s ← oneByte gset code
    return some (0, { self with out := self.out ++ s })

/-- A printing character; the left half obeys the single shift and ends it. -/
def Decoder.print (eucJis2004 : Codec) (self : Decoder) (data : Bytes) (i : ℕ) (b : UInt8) :
    Except IndexError (Option (ℕ × Decoder)) :=
  if b < 0x80 then
    { self with single := none }.put eucJis2004 data i (self.g (self.single.getD self.gl)) b
  else
    self.put eucJis2004 data i (self.g self.gr) (b &&& 0x7F)

/-- The `elif` chain for a byte `b` at position `i` that is not ESC: the bytes used behind it. -/
def Decoder.unit (eucJis2004 : Codec) (self : Decoder) (data : Bytes) (i : ℕ) (b : UInt8) :
    Except IndexError (Option (ℕ × Decoder)) :=
  if b = 0x0F then return some (0, { self with gl := 0 })
  else if b = 0x0E then return some (0, { self with gl := 1 })
  else if b = 0x19 then return some (0, { self with single := some 2 })
  else if b = 0x1D then return some (0, { self with single := some 3 })
  else if b = 0x20 ∨ b = 0xA0 then return some (0, { self with out := self.out ++ [' '] })
  else if b = 0x0D then return some (0, { self with out := self.out ++ ['\n'] })
  else if b = 0x16 then return some (1, self)
  else if b = 0x1C then return some (2, self)
  else if b < 0x20 ∨ b = 0x7F ∨ b = 0xFF then return some (0, self)
  else if 0x80 ≤ b ∧ b ≤ 0x9F then
    -- the C1 control codes; only CSI has parameters of no fixed number
    if b = 0x9B then do return some ((← csiParams data (i + 1)) + 1, self)
    else if b = 0x9D then return some (2, self)
    else return some (c1Params b, self)
  else
    self.print eucJis2004 data i b

/-- The body of the loop, at position `i`: the bytes used behind the first one. -/
def Decoder.body (eucJis2004 : Codec) (self : Decoder) (data : Bytes) (i : ℕ) :
    Except IndexError (Option (ℕ × Decoder)) := do
  let b ← index data i
  if b = 0x1B then
    if data.length ≤ i + 1 then
      return none
    else
      let c ← index data (i + 1)
      let (n, self) ← self.escape data (i + 2) c
      return some (n + 1, self)
  else
    self.unit eucJis2004 data i b

/-- The `while` loop. -/
def decodeLoop (eucJis2004 : Codec) (data : Bytes) (i : ℕ) (self : Decoder) :
    Except IndexError Str := do
  if i < data.length then
    match ← self.body eucJis2004 data i with
    | none => return self.out
    | some (n, self) => decodeLoop eucJis2004 data (i + 1 + n) self
  else
    return self.out
termination_by data.length - i

/-- `aribstr.decode` -/
def decode (eucJis2004 : Codec) (data : Bytes) : Except IndexError Str :=
  decodeLoop eucJis2004 data 0 {}

/-! ## No index is out of range -/

theorem charAt_eq {s : Str} {i : ℤ} (h0 : 0 ≤ i) (h : i < s.length) :
    charAt s i = .ok [s.get ⟨i.toNat, by omega⟩] := by
  rw [charAt, if_neg (by omega), List.getElem?_eq_getElem (by omega)]
  exact if_neg (by omega)

theorem neverRaises_charAt {s : Str} {i : ℤ} (h0 : 0 ≤ i) (h : i < s.length) :
    NeverRaises (charAt s i) := ⟨_, charAt_eq h0 h⟩

theorem length_hiragana : hiragana.length = 94 := by
  rw [hiragana, List.length_append, List.length_append, List.length_map, List.length_range]
  rfl

theorem length_katakana : katakana.length = 94 := by
  rw [katakana, List.length_append, List.length_map, List.length_range]
  rfl

/-- The tables cover the 94 code positions of a half of the code table. -/
theorem neverRaises_oneByte {b : UInt8} (h1 : 0x21 ≤ b) (h2 : b ≤ 0x7E) (g : ℕ) :
    NeverRaises (oneByte g b) := by
  have h1' : 0x21 ≤ b.toNat := h1
  have h2' : b.toNat ≤ 0x7E := h2
  rw [oneByte]
  split
  · exact neverRaises_ok _
  split
  · exact neverRaises_charAt (by omega) (by rw [length_hiragana]; omega)
  split
  · exact neverRaises_charAt (by omega) (by rw [length_katakana]; omega)
  split <;> exact neverRaises_ok _

variable {eucJis2004 : Codec} {data : Bytes} {i : ℕ}

theorem neverRaises_designate (self : Decoder) (idx : Fin 4) (drcsSet : ℕ) :
    NeverRaises (self.designate data i idx drcsSet) := by
  rw [Decoder.designate]
  split
  · rename_i h
    refine (neverRaises_index h).bind fun f _ ↦ ?_
    split <;> exact neverRaises_pure _
  · exact neverRaises_pure _

theorem neverRaises_escape (self : Decoder) (c : UInt8) :
    NeverRaises (self.escape data i c) := by
  rw [Decoder.escape]
  iterate 5
    split
    · exact neverRaises_pure _
  split
  · split
    · rename_i h
      refine (neverRaises_index h).bind fun f _ ↦ ?_
      split
      · exact (neverRaises_designate _ _ _).bind fun _ _ ↦ neverRaises_pure _
      · exact neverRaises_pure _
    · exact neverRaises_pure _
  · split
    · exact neverRaises_designate _ _ _
    · exact neverRaises_pure _

theorem neverRaises_csiParams (data : Bytes) (i : ℕ) : NeverRaises (csiParams data i) := by
  induction i using csiParams.induct data with
  | case1 i h ih =>
    rw [csiParams, if_pos h]
    refine (neverRaises_index h).bind fun b _ ↦ ?_
    split
    · exact neverRaises_pure _
    · exact ih.bind fun _ _ ↦ neverRaises_pure _
  | case2 i h =>
    rw [csiParams, if_neg h]
    exact neverRaises_pure _

theorem neverRaises_put (self : Decoder) (gset : ℕ) {code : UInt8} (h1 : 0x21 ≤ code)
    (h2 : code ≤ 0x7E) : NeverRaises (self.put eucJis2004 data i gset code) := by
  rw [Decoder.put]
  split
  · split
    · exact neverRaises_pure _
    · rename_i h
      exact (neverRaises_index (not_le.mp h)).bind fun _ _ ↦ neverRaises_pure _
  · exact (neverRaises_oneByte h1 h2 _).bind fun _ _ ↦ neverRaises_pure _

/-- What is left for printing lies in one of the two halves of the code table. -/
theorem neverRaises_print (self : Decoder) {b : UInt8} (h20 : ¬(b < 0x20 ∨ b = 0x7F ∨ b = 0xFF))
    (hspace : ¬(b = 0x20 ∨ b = 0xA0)) (hc1 : ¬(0x80 ≤ b ∧ b ≤ 0x9F)) :
    NeverRaises (self.print eucJis2004 data i b) := by
  have hmask : (b &&& 0x7F).toNat = b.toNat % 2 ^ 7 := by
    rw [UInt8.toNat_and]
    exact Nat.and_two_pow_sub_one_eq_mod _ 7
  have hlt := b.toNat_lt
  simp only [UInt8.le_iff_toNat_le, UInt8.lt_iff_toNat_lt, ← UInt8.toNat_inj,
    UInt8.reduceToNat] at h20 hspace hc1
  rw [Decoder.print]
  split
  · rename_i h
    simp only [UInt8.lt_iff_toNat_lt, UInt8.reduceToNat] at h
    refine neverRaises_put _ _ ?_ ?_ <;>
      simp only [UInt8.le_iff_toNat_le, UInt8.reduceToNat] <;> omega
  · rename_i h
    simp only [UInt8.lt_iff_toNat_lt, UInt8.reduceToNat] at h
    refine neverRaises_put _ _ ?_ ?_ <;>
      simp only [UInt8.le_iff_toNat_le, UInt8.reduceToNat, hmask] <;> omega

theorem neverRaises_unit (self : Decoder) (b : UInt8) :
    NeverRaises (self.unit eucJis2004 data i b) := by
  rw [Decoder.unit]
  refine .ite (fun _ ↦ neverRaises_pure _) fun _ ↦ ?_
  refine .ite (fun _ ↦ neverRaises_pure _) fun _ ↦ ?_
  refine .ite (fun _ ↦ neverRaises_pure _) fun _ ↦ ?_
  refine .ite (fun _ ↦ neverRaises_pure _) fun _ ↦ ?_
  refine .ite (fun _ ↦ neverRaises_pure _) fun hspace ↦ ?_
  refine .ite (fun _ ↦ neverRaises_pure _) fun _ ↦ ?_
  refine .ite (fun _ ↦ neverRaises_pure _) fun _ ↦ ?_
  refine .ite (fun _ ↦ neverRaises_pure _) fun _ ↦ ?_
  refine .ite (fun _ ↦ neverRaises_pure _) fun h20 ↦ ?_
  refine .ite (fun _ ↦ ?_) fun hc1 ↦ neverRaises_print self h20 hspace hc1
  -- the C1 control codes
  refine .ite (fun _ ↦ ?_) fun _ ↦ .ite (fun _ ↦ neverRaises_pure _) fun _ ↦ neverRaises_pure _
  exact (neverRaises_csiParams data (i + 1)).bind fun _ _ ↦ neverRaises_pure _

theorem neverRaises_body (self : Decoder) (h : i < data.length) :
    NeverRaises (self.body eucJis2004 data i) := by
  rw [Decoder.body]
  refine (neverRaises_index h).bind fun b _ ↦ ?_
  split
  · split
    · exact neverRaises_pure _
    · rename_i h
      refine (neverRaises_index (not_le.mp h)).bind fun c _ ↦ ?_
      exact (neverRaises_escape self c).bind fun _ _ ↦ neverRaises_pure _
  · exact neverRaises_unit self b

theorem neverRaises_decodeLoop (eucJis2004 : Codec) (data : Bytes) (i : ℕ) (self : Decoder) :
    NeverRaises (decodeLoop eucJis2004 data i self) := by
  induction i, self using decodeLoop.induct data with
  | case1 i self h ih =>
    rw [decodeLoop, if_pos h]
    refine (neverRaises_body self h).bind fun r _ ↦ ?_
    match r with
    | none => exact neverRaises_pure _
    | some (n, self) => exact ih n self
  | case2 i self h =>
    rw [decodeLoop, if_neg h]
    exact neverRaises_pure _

/-- The text that `decode` returns. -/
def text (eucJis2004 : Codec) (data : Bytes) : Str := (decode eucJis2004 data).toOption.getD []

/-- `decode` never raises. -/
theorem decode_eq (eucJis2004 : Codec) (data : Bytes) :
    decode eucJis2004 data = .ok (text eucJis2004 data) := by
  obtain ⟨s, hs⟩ := neverRaises_decodeLoop eucJis2004 data 0 {}
  rw [text, decode, hs]
  rfl

end Aribstr

end Recdyud
