import Recdyud.Aribstr.Units

/-!
# Code extension

What an ARIB string says, apart from how it is decoded. Its tokens designate character sets to G0 …
G3, invoke two of them into the left and right half of the code table, and name characters in
either half; a single shift takes one character from G2 or G3. `CodeExtension` is the state of the
reference machine, `interpret` the text of a list of tokens, undefined where a character has not as
many bytes as its set asks for.

`decode` follows the reference machine (`decode_tokens`). A state of the one is a state of the other
(`CodeExtension.toDecoder`), and each token takes both of them to such a pair again
(`decodeLoop_token`).
-/

namespace Recdyud

namespace Aribstr

/-! ## Tokens -/

/-- A position in a half of the code table. -/
structure Code where
  byte : UInt8
  ge : 0x21 ≤ byte
  le : byte ≤ 0x7E

namespace Code

/-- The number of a position, in the tables of 94 characters. -/
def index (b : Code) : ℕ := b.byte.toNat - 0x21

theorem toNat_mem (b : Code) : 0x21 ≤ b.byte.toNat ∧ b.byte.toNat ≤ 0x7E := ⟨b.ge, b.le⟩

theorem index_lt (b : Code) : b.index < 94 := by
  have := b.toNat_mem
  rw [index]
  omega

/-- The same position in the right half. -/
def right (b : Code) : UInt8 := b.byte ||| 0x80

theorem toNat_right (b : Code) : b.right.toNat = b.byte.toNat + 128 := by
  have hlt : b.byte.toNat < 2 ^ 7 := b.toNat_mem.2.trans_lt (by decide)
  have hor : 128 + b.byte.toNat = 128 ||| b.byte.toNat := Nat.two_pow_add_eq_or_of_lt hlt 1
  rw [right, UInt8.toNat_or, Nat.or_comm, Nat.add_comm, hor]
  rfl

theorem byte_and (b : Code) : b.byte &&& 0x7F = b.byte := by
  have := b.toNat_mem
  refine UInt8.toNat_inj.mp ?_
  rw [UInt8.toNat_and]
  exact (Nat.and_two_pow_sub_one_eq_mod _ 7).trans (by omega)

theorem right_and (b : Code) : b.right &&& 0x7F = b.byte := by
  have := b.toNat_mem
  refine UInt8.toNat_inj.mp ?_
  rw [UInt8.toNat_and, toNat_right]
  exact (Nat.and_two_pow_sub_one_eq_mod _ 7).trans (by omega)

end Code

/-- A character of one byte or of two. -/
inductive Character where
  | one (b : Code)
  | two (b1 b2 : Code)

/-- The character in the left half of the code table. -/
def Character.left : Character → Bytes
  | one b => [b.byte]
  | two b1 b2 => [b1.byte, b2.byte]

/-- The character in the right half. -/
def Character.right : Character → Bytes
  | one b => [b.right]
  | two b1 b2 => [b1.right, b2.right]

inductive OneByteSet where
  | alnum | hiragana | katakana | propAlnum | propHiragana | propKatakana | jisX0201Katakana

inductive TwoByteSet where
  | kanji | jisKanji1 | jisKanji2 | additionalSymbols

/-- What can be designated. -/
inductive CharSet where
  | oneByte (s : OneByteSet)
  | twoByte (s : TwoByteSet)
  | drcs
  | drcsTwoByte

/-- The final byte that names the set. -/
def OneByteSet.final : OneByteSet → UInt8
  | alnum => 0x4A
  | hiragana => 0x30
  | katakana => 0x31
  | propAlnum => 0x36
  | propHiragana => 0x37
  | propKatakana => 0x38
  | jisX0201Katakana => 0x49

def TwoByteSet.final : TwoByteSet → UInt8
  | kanji => 0x42
  | jisKanji1 => 0x39
  | jisKanji2 => 0x3A
  | additionalSymbols => 0x3B

inductive LockingShift where
  | ls0 | ls1 | ls2 | ls3 | ls1r | ls2r | ls3r

inductive SingleShift where
  | ss2 | ss3

inductive Token where
  | designate (target : Fin 4) (s : OneByteSet)
  | designateTwoByte (target : Fin 4) (s : TwoByteSet)
  /-- The short form, for G0. -/
  | designateTwoByteShort (s : TwoByteSet)
  | designateDrcs (target : Fin 4) (final : UInt8)
  | designateDrcsTwoByte (target : Fin 4) (final : UInt8)
  | lockingShift (s : LockingShift)
  | singleShift (s : SingleShift) (c : Character)
  | left (c : Character)
  | right (c : Character)
  | space
  | apr

/-- The intermediate byte of a designation. -/
def intermediate (target : Fin 4) : UInt8 := 0x28 + UInt8.ofNat target

def LockingShift.bytes : LockingShift → Bytes
  | ls0 => [0x0F]
  | ls1 => [0x0E]
  | ls2 => [0x1B, 0x6E]
  | ls3 => [0x1B, 0x6F]
  | ls1r => [0x1B, 0x7E]
  | ls2r => [0x1B, 0x7D]
  | ls3r => [0x1B, 0x7C]

def SingleShift.byte : SingleShift → UInt8
  | ss2 => 0x19
  | ss3 => 0x1D

/-- A token as it is transmitted. -/
def Token.bytes : Token → Bytes
  | designate target s => [0x1B, intermediate target, s.final]
  | designateTwoByte target s => [0x1B, 0x24, intermediate target, s.final]
  | designateTwoByteShort s => [0x1B, 0x24, s.final]
  | designateDrcs target final => [0x1B, intermediate target, 0x20, final]
  | designateDrcsTwoByte target final => [0x1B, 0x24, intermediate target, 0x20, final]
  | lockingShift s => s.bytes
  | singleShift s c => s.byte :: c.left
  | left c => c.left
  | right c => c.right
  | space => [0x20]
  | apr => [0x0D]

/-! ## The reference machine -/

/-- Which sets are designated, and which of G0 … G3 are invoked. -/
structure CodeExtension where
  g : Fin 4 → CharSet :=
    ![.twoByte .kanji, .oneByte .alnum, .oneByte .hiragana, .oneByte .katakana]
  gl : Fin 4 := 0
  gr : Fin 4 := 2

def OneByteSet.glyph (b : Code) : OneByteSet → Str
  | alnum | propAlnum => [Char.ofNat b.byte.toNat]
  | hiragana | propHiragana =>
    [Aribstr.hiragana.get ⟨b.index, by rw [length_hiragana]; exact b.index_lt⟩]
  | katakana | propKatakana =>
    [Aribstr.katakana.get ⟨b.index, by rw [length_katakana]; exact b.index_lt⟩]
  | jisX0201Katakana => if b.byte ≤ 0x5F then [Char.ofNat (0xFF61 + b.index)] else geta

def TwoByteSet.glyph (eucJis2004 : Codec) (b1 b2 : Code) : TwoByteSet → Str
  | kanji | jisKanji1 => (eucJis2004 [b1.right, b2.right]).getD geta
  | jisKanji2 => (eucJis2004 [0x8F, b1.right, b2.right]).getD geta
  | additionalSymbols => geta

/-- The character of a set; `none` if it has not as many bytes as the set asks for. -/
def CharSet.glyph (eucJis2004 : Codec) : CharSet → Character → Option Str
  | oneByte s, .one b => some (s.glyph b)
  | twoByte s, .two b1 b2 => some (s.glyph eucJis2004 b1 b2)
  | drcs, .one _ => some geta
  | drcsTwoByte, .two _ _ => some geta
  | _, _ => none

def LockingShift.apply (s : CodeExtension) : LockingShift → CodeExtension
  | ls0 => { s with gl := 0 }
  | ls1 => { s with gl := 1 }
  | ls2 => { s with gl := 2 }
  | ls3 => { s with gl := 3 }
  | ls1r => { s with gr := 1 }
  | ls2r => { s with gr := 2 }
  | ls3r => { s with gr := 3 }

/-- The set a single shift takes its character from. -/
def SingleShift.source : SingleShift → Fin 4
  | ss2 => 2
  | ss3 => 3

namespace CodeExtension

def designate (s : CodeExtension) (target : Fin 4) (set : CharSet) : CodeExtension :=
  { s with g := Function.update s.g target set }

/-- One token: the state behind it and the text it stands for. -/
def step (eucJis2004 : Codec) (s : CodeExtension) : Token → Option (CodeExtension × Str)
  | .designate target set => some (s.designate target (.oneByte set), [])
  | .designateTwoByte target set => some (s.designate target (.twoByte set), [])
  | .designateTwoByteShort set => some (s.designate 0 (.twoByte set), [])
  | .designateDrcs target _ => some (s.designate target .drcs, [])
  | .designateDrcsTwoByte target _ => some (s.designate target .drcsTwoByte, [])
  | .lockingShift shift => some (shift.apply s, [])
  | .singleShift shift c => do return (s, ← (s.g shift.source).glyph eucJis2004 c)
  | .left c => do return (s, ← (s.g s.gl).glyph eucJis2004 c)
  | .right c => do return (s, ← (s.g s.gr).glyph eucJis2004 c)
  | .space => some (s, [' '])
  | .apr => some (s, ['\n'])

/-- The text of a list of tokens. -/
def interpret (eucJis2004 : Codec) (s : CodeExtension) : List Token → Option Str
  | [] => some []
  | t :: ts => do
    let (s, str) ← s.step eucJis2004 t
    return str ++ (← s.interpret eucJis2004 ts)

end CodeExtension

/-! ## `decode` follows it -/

def CharSet.code : CharSet → ℕ
  | oneByte s => s.final.toNat
  | twoByte s => s.final.toNat
  | drcs => Aribstr.drcs
  | drcsTwoByte => Aribstr.drcsTwoByte

/-- The state of the decoder between two tokens. -/
def CodeExtension.toDecoder (s : CodeExtension) (out : Str) : Decoder where
  g i := (s.g i).code
  gl := s.gl
  gr := s.gr
  single := none
  out := out

theorem CodeExtension.toDecoder_fresh : ({} : CodeExtension).toDecoder [] = {} := by
  rw [toDecoder]
  congr 1
  funext i
  revert i
  decide

theorem CodeExtension.toDecoder_designate (s : CodeExtension) (out : Str) (target : Fin 4)
    (set : CharSet) : (s.designate target set).toDecoder out
      = { s.toDecoder out with g := Function.update (s.toDecoder out).g target set.code } := by
  rw [toDecoder, toDecoder]
  congr 1
  exact Function.comp_update CharSet.code s.g target set

section Glyphs

variable {eucJis2004 : Codec}

theorem oneByte_final (s : OneByteSet) (b : Code) :
    oneByte s.final.toNat b.byte = .ok (s.glyph b) := by
  obtain ⟨hge, hle⟩ := b.toNat_mem
  have hindex : ((b.byte.toNat : ℤ) - 0x21).toNat = b.index := by rw [Code.index]; omega
  have hkana {table : Str} (hlen : table.length = 94) :
      charAt table (b.byte.toNat - 0x21)
        = .ok [table.get ⟨b.index, by rw [hlen]; exact b.index_lt⟩] := by
    rw [charAt_eq (by omega) (by omega)]
    simp only [hindex]
  cases s with
  | alnum => rfl
  | propAlnum => rfl
  | hiragana => exact hkana length_hiragana
  | propHiragana => exact hkana length_hiragana
  | katakana => exact hkana length_katakana
  | propKatakana => exact hkana length_katakana
  | jisX0201Katakana =>
    have hset : oneByte OneByteSet.jisX0201Katakana.final.toNat b.byte =
        if jisX0201Katakana = jisX0201Katakana ∧ b.byte ≤ 0x5F
          then .ok [Char.ofNat (0xFF61 + b.byte.toNat - 0x21)] else .ok geta := rfl
    rw [hset, OneByteSet.glyph, Code.index, Nat.add_sub_assoc hge]
    by_cases h : b.byte ≤ 0x5F
    · rw [if_pos ⟨rfl, h⟩, if_pos h]
    · rw [if_neg (not_and_of_not_right _ h), if_neg h]

theorem twoByte_final (s : TwoByteSet) (b1 b2 : Code) :
    twoByte eucJis2004 s.final.toNat b1.byte b2.byte = s.glyph eucJis2004 b1 b2 := by
  cases s <;> rfl

/-- A character of one byte, of its set. -/
theorem put_one {set : CharSet} {b : Code} {str : Str}
    (h : set.glyph eucJis2004 (.one b) = some str) (self : Decoder) (data : Bytes) (i : ℕ) :
    self.put eucJis2004 data i set.code b.byte
      = .ok (some (0, { self with out := self.out ++ str })) := by
  cases set with
  | oneByte s =>
    cases h
    have hwidth : isTwoByte (CharSet.oneByte s).code = false := by cases s <;> decide
    rw [Decoder.put, hwidth, if_neg Bool.false_ne_true, CharSet.code, oneByte_final]
    rfl
  | drcs =>
    cases h
    rfl
  | twoByte s => cases h
  | drcsTwoByte => cases h

/-- A character of two bytes, of its set; the second byte stands at position 1. -/
theorem put_two {set : CharSet} {b1 b2 : Code} {str : Str} {first second : UInt8}
    (h : set.glyph eucJis2004 (.two b1 b2) = some str) (hsecond : second &&& 0x7F = b2.byte)
    (self : Decoder) (w : Bytes) :
    self.put eucJis2004 (first :: second :: w) 0 set.code b1.byte
      = .ok (some (1, { self with out := self.out ++ str })) := by
  have hput {gset : ℕ} (hwidth : isTwoByte gset = true) :
      self.put eucJis2004 (first :: second :: w) 0 gset b1.byte = .ok (some (1,
        { self with out := self.out ++ twoByte eucJis2004 gset b1.byte b2.byte })) := by
    rw [put_second hwidth, hsecond]
  cases set with
  | twoByte s =>
    cases h
    rw [hput (by cases s <;> decide), CharSet.code, twoByte_final]
  | drcsTwoByte =>
    cases h
    exact hput (by decide)
  | oneByte s => cases h
  | drcs => cases h

end Glyphs

section Steps

variable {eucJis2004 : Codec} {self : Decoder} {w : Bytes}

theorem designated_intermediate (target : Fin 4) :
    designated (intermediate target) = some target := by
  revert target
  decide

/-- `ESC ( … ESC +` designate at once. -/
theorem escape_intermediate (target : Fin 4) :
    self.escape w 0 (intermediate target) = self.designate w 0 target Aribstr.drcs :=
  escape_of_designated (designated_intermediate target)

theorem designate_final {f : UInt8} (h : f ≠ 0x20) (target : Fin 4) (drcsSet : ℕ) :
    self.designate (f :: w) 0 target drcsSet
      = .ok (1, { self with g := Function.update self.g target f.toNat }) := by
  have hindex : index (f :: w) 0 = .ok f := rfl
  rw [Decoder.designate, if_pos (by simp), hindex]
  simp only [bind, Except.bind, if_neg h]
  rfl

theorem designate_drcs (target : Fin 4) (drcsSet : ℕ) :
    self.designate (0x20 :: w) 0 target drcsSet
      = .ok (2, { self with g := Function.update self.g target drcsSet }) := rfl

/-- Bytes of the two halves of the code table print. -/
theorem unit_eq_print (eucJis2004 : Codec) (self : Decoder) (data : Bytes) (i : ℕ) {b : UInt8}
    (h : (0x21 ≤ b.toNat ∧ b.toNat ≤ 0x7E) ∨ (0xA1 ≤ b.toNat ∧ b.toNat ≤ 0xFE)) :
    b ≠ 0x1B ∧ self.unit eucJis2004 data i b = self.print eucJis2004 data i b := by
  have hne (c : UInt8) (hc : c.toNat < 0x21 ∨ 0x7E < c.toNat ∧ c.toNat < 0xA1 ∨ 0xFE < c.toNat) :
      b ≠ c := by
    rintro rfl
    omega
  refine ⟨hne 0x1B (by decide), ?_⟩
  have hlow : ¬(b < 0x20 ∨ b = 0x7F ∨ b = 0xFF) := by
    rintro (hlt | heq | heq)
    · have : b.toNat < 0x20 := hlt
      omega
    · exact hne 0x7F (by decide) heq
    · exact hne 0xFF (by decide) heq
  have hc1 : ¬(0x80 ≤ b ∧ b ≤ 0x9F) := by
    rintro ⟨hge, hle⟩
    have h1 : 0x80 ≤ b.toNat := hge
    have h2 : b.toNat ≤ 0x9F := hle
    omega
  rw [Decoder.unit, if_neg (hne 0x0F (by decide)), if_neg (hne 0x0E (by decide)),
    if_neg (hne 0x19 (by decide)), if_neg (hne 0x1D (by decide)),
    if_neg (not_or.mpr ⟨hne 0x20 (by decide), hne 0xA0 (by decide)⟩), if_neg (hne 0x0D (by decide)),
    if_neg (hne 0x16 (by decide)), if_neg (hne 0x1C (by decide)), if_neg hlow, if_neg hc1]

/-- A character in the left half, under a single shift or not. -/
theorem decodeLoop_left {set : CharSet} {c : Character} {str : Str}
    (hset : self.g (self.single.getD self.gl) = set.code)
    (h : set.glyph eucJis2004 c = some str) :
    decodeLoop eucJis2004 (c.left ++ w) 0 self
      = decodeLoop eucJis2004 w 0 { self with single := none, out := self.out ++ str } := by
  have hprint (b : Code) (data : Bytes) : self.body eucJis2004 (b.byte :: data) 0
      = { self with single := none }.put eucJis2004 (b.byte :: data) 0 set.code b.byte := by
    obtain ⟨hesc, hunit⟩ := unit_eq_print eucJis2004 self (b.byte :: data) 0 (.inl b.toNat_mem)
    have hleft : b.byte < 0x80 := by
      have : b.byte.toNat < 0x80 := by have := b.toNat_mem; omega
      exact this
    rw [body_of_ne_esc hesc, hunit, Decoder.print, if_pos hleft, hset]
  cases c with
  | one b => exact decodeLoop_of_unit ((hprint b w).trans (put_one h _ _ _))
  | two b1 b2 => exact decodeLoop_of_unit ((hprint b1 _).trans (put_two h b2.byte_and _ _))

/-- A character in the right half. -/
theorem decodeLoop_right {set : CharSet} {c : Character} {str : Str}
    (hset : self.g self.gr = set.code) (h : set.glyph eucJis2004 c = some str) :
    decodeLoop eucJis2004 (c.right ++ w) 0 self
      = decodeLoop eucJis2004 w 0 { self with out := self.out ++ str } := by
  have hprint (b : Code) (data : Bytes) : self.body eucJis2004 (b.right :: data) 0
      = self.put eucJis2004 (b.right :: data) 0 set.code b.byte := by
    have hmem := b.toNat_mem
    have hright := b.toNat_right
    have hmem' : 0xA1 ≤ b.right.toNat ∧ b.right.toNat ≤ 0xFE := by omega
    obtain ⟨hesc, hunit⟩ := unit_eq_print eucJis2004 self (b.right :: data) 0 (.inr hmem')
    have hnot : ¬b.right < 0x80 := by
      intro hlt
      have : b.right.toNat < 0x80 := hlt
      omega
    rw [body_of_ne_esc hesc, hunit, Decoder.print, if_neg hnot, hset, b.right_and]
  cases c with
  | one b => exact decodeLoop_of_unit ((hprint b w).trans (put_one h _ _ _))
  | two b1 b2 => exact decodeLoop_of_unit ((hprint b1 _).trans (put_two h b2.right_and _ _))

end Steps

section Simulation

variable {eucJis2004 : Codec} {s s' : CodeExtension} {str : Str}

theorem final_ne_space : ∀ s : OneByteSet, s.final ≠ 0x20 := by
  intro s
  cases s <;> decide

theorem twoByte_final_ne_space : ∀ s : TwoByteSet, s.final ≠ 0x20 := by
  intro s
  cases s <;> decide

theorem designated_final : ∀ s : TwoByteSet, designated s.final = none := by
  intro s
  cases s <;> decide

/-- A locking shift invokes another set. -/
theorem decodeLoop_lockingShift (shift : LockingShift) (s : CodeExtension) (out : Str) (w : Bytes) :
    decodeLoop eucJis2004 (shift.bytes ++ w) 0 (s.toDecoder out)
      = decodeLoop eucJis2004 w 0 ((shift.apply s).toDecoder out) := by
  cases shift with
  | ls0 | ls1 =>
    refine decodeLoop_of_unit (n := 0) ?_
    rfl
  | ls2 | ls3 | ls1r | ls2r | ls3r =>
    refine decodeLoop_escape (n := 0) ?_
    rfl

/-- A single shift holds for one character and leaves the state as it was. -/
theorem decodeLoop_singleShift {c : Character} (shift : SingleShift)
    (h : (s.g shift.source).glyph eucJis2004 c = some str) (out : Str) (w : Bytes) :
    decodeLoop eucJis2004 (shift.byte :: (c.left ++ w)) 0 (s.toDecoder out)
      = decodeLoop eucJis2004 w 0 (s.toDecoder (out ++ str)) := by
  have hshift : decodeLoop eucJis2004 (shift.byte :: (c.left ++ w)) 0 (s.toDecoder out)
      = decodeLoop eucJis2004 (c.left ++ w) 0
        { s.toDecoder out with single := some shift.source } := by
    refine decodeLoop_of_unit (n := 0) ?_
    cases shift <;> rfl
  rw [hshift, decodeLoop_left rfl h]
  rfl

/-- **Each token** takes decoder and reference machine to the same state and adds the same text. -/
theorem decodeLoop_token {t : Token} (h : s.step eucJis2004 t = some (s', str)) (out : Str)
    (w : Bytes) : decodeLoop eucJis2004 (t.bytes ++ w) 0 (s.toDecoder out)
      = decodeLoop eucJis2004 w 0 (s'.toDecoder (out ++ str)) := by
  cases t with
  | designate target set =>
    cases h
    rw [List.append_nil, CodeExtension.toDecoder_designate]
    exact decodeLoop_escape ((escape_intermediate target).trans
      (designate_final (final_ne_space set) target _))
  | designateTwoByte target set =>
    cases h
    rw [List.append_nil, CodeExtension.toDecoder_designate]
    refine decodeLoop_escape (n := 2) ?_
    change (s.toDecoder out).escape (intermediate target :: set.final :: w) 0 0x24 = _
    rw [escape_dollar, designated_intermediate]
    dsimp only
    rw [designate_final (twoByte_final_ne_space set)]
    rfl
  | designateTwoByteShort set =>
    cases h
    rw [List.append_nil, CodeExtension.toDecoder_designate]
    refine decodeLoop_escape (n := 1) ?_
    change (s.toDecoder out).escape (set.final :: w) 0 0x24 = _
    rw [escape_dollar, designated_final]
    rfl
  | designateDrcs target final =>
    cases h
    rw [List.append_nil, CodeExtension.toDecoder_designate]
    exact decodeLoop_escape ((escape_intermediate target).trans (designate_drcs target _))
  | designateDrcsTwoByte target final =>
    cases h
    rw [List.append_nil, CodeExtension.toDecoder_designate]
    refine decodeLoop_escape (n := 3) ?_
    change (s.toDecoder out).escape (intermediate target :: 0x20 :: final :: w) 0 0x24 = _
    rw [escape_dollar, designated_intermediate]
    dsimp only
    rw [designate_drcs]
    rfl
  | lockingShift shift =>
    cases h
    rw [List.append_nil]
    exact decodeLoop_lockingShift shift s out w
  | singleShift shift c =>
    obtain ⟨glyph, hglyph, hout⟩ := Option.bind_eq_some_iff.mp h
    cases hout
    exact decodeLoop_singleShift shift hglyph out w
  | left c =>
    obtain ⟨glyph, hglyph, hout⟩ := Option.bind_eq_some_iff.mp h
    cases hout
    exact decodeLoop_left rfl hglyph
  | right c =>
    obtain ⟨glyph, hglyph, hout⟩ := Option.bind_eq_some_iff.mp h
    cases hout
    exact decodeLoop_right rfl hglyph
  | space | apr =>
    cases h
    refine decodeLoop_of_unit (n := 0) ?_
    rfl

theorem decodeLoop_tokens {ts : List Token} (h : s.interpret eucJis2004 ts = some str)
    (out : Str) : decodeLoop eucJis2004 (ts.flatMap Token.bytes) 0 (s.toDecoder out)
      = .ok (out ++ str) := by
  induction ts generalizing s str out with
  | nil =>
    cases h
    rw [List.flatMap_nil, decodeLoop_nil, List.append_nil]
    rfl
  | cons t ts ih =>
    obtain ⟨⟨next, first⟩, hstep, hrest⟩ := Option.bind_eq_some_iff.mp h
    obtain ⟨rest, hinterpret, hstr⟩ := Option.bind_eq_some_iff.mp hrest
    cases hstr
    rw [List.flatMap_cons, decodeLoop_token hstep, ih hinterpret, List.append_assoc]

/-- **`decode` says what the tokens say.** -/
theorem decode_tokens {ts : List Token}
    (h : ({} : CodeExtension).interpret eucJis2004 ts = some str) :
    decode eucJis2004 (ts.flatMap Token.bytes) = .ok str := by
  rw [decode, ← CodeExtension.toDecoder_fresh, decodeLoop_tokens h, List.nil_append]

/-- The codec, on the first kanji of level 1. -/
def firstKanji : Codec := fun raw ↦ if raw = [0xB0, 0xA1] then some ['亜'] else none

/-- A kanji, a letter, a kana under a single shift, a code without a character, a kana from the
right half, a space and a new line. -/
theorem decode_tokens_mixed :
    decode firstKanji ([0x30, 0x21, 0x0E, 0x41, 0x19, 0x21, 0x1B, 0x28, 0x49, 0x0F, 0x60, 0xA2,
      0x20, 0x0D]) = .ok ['亜', 'A', 'ぁ', '〓', 'あ', ' ', '\n'] := by
  have h : ({} : CodeExtension).interpret firstKanji
      [.left (.two ⟨0x30, by decide, by decide⟩ ⟨0x21, by decide, by decide⟩),
        .lockingShift .ls1, .left (.one ⟨0x41, by decide, by decide⟩),
        .singleShift .ss2 (.one ⟨0x21, by decide, by decide⟩), .designate 0 .jisX0201Katakana,
        .lockingShift .ls0, .left (.one ⟨0x60, by decide, by decide⟩),
        .right (.one ⟨0x22, by decide, by decide⟩), .space, .apr]
      = some ['亜', 'A', 'ぁ', '〓', 'あ', ' ', '\n'] := rfl
  exact decode_tokens h

end Simulation

end Aribstr

end Recdyud
