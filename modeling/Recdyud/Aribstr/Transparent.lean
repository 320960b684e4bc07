import Recdyud.Aribstr.CodeExtension

/-!
# Control codes that say nothing

Size, colour, position: most C1 control codes only affect how the text is shown, and a decoder of
the text has to pass over them with all their parameters. `Control` lists them with the parameters
of ARIB STD-B24, and `Transparent` says that such a sequence can be left out, wherever a token may
begin.

`decode` passes over all of them but one. COL takes one parameter, or two when the first is `0x20`
and the second selects a palette; the table `_C1_PARAMS` knows only the first form. The number of
the palette is then read as if it were text, which does no harm exactly when it is a byte that
`decode` drops anyway (`transparent_iff`).
-/

namespace Recdyud

namespace Aribstr

/-- BKF … NSZ and SPL, STL -/
def bareControls : Bytes :=
  [0x80, 0x81, 0x82, 0x83, 0x84, 0x85, 0x86, 0x87, 0x88, 0x89, 0x8A, 0x99, 0x9A]

/-- SZX, FLC, POL, WMM, HLC, RPC and PAPF -/
def oneParameterControls : Bytes := [0x8B, 0x91, 0x93, 0x94, 0x97, 0x98, 0x16]

/-- A control sequence that only affects presentation, with all its parameters. -/
inductive Control where
  | bare (b : UInt8) (h : b ∈ bareControls)
  | oneParameter (b : UInt8) (h : b ∈ oneParameterControls) (p1 : UInt8)
  | aps (p1 p2 : UInt8)
  | color (p1 : UInt8) (h : p1 ≠ 0x20)
  | palette (p2 : UInt8)
  | csi (params : Bytes) (h : ∀ b ∈ params, b < 0x40) (final : UInt8)
    (hfinal : 0x40 ≤ final ∧ final ≤ 0x7E)

def Control.bytes : Control → Bytes
  | bare b _ => [b]
  | oneParameter b _ p1 => [b, p1]
  | aps p1 p2 => [0x1C, p1, p2]
  | color p1 _ => [0x90, p1]
  | palette p2 => [0x90, 0x20, p2]
  | csi params _ final _ => 0x9B :: (params ++ [final])

/-- The sequence can be left out, wherever a token may begin. -/
def Transparent (eucJis2004 : Codec) (c : Control) : Prop :=
  ∀ u, TokenBoundary eucJis2004 u → ∀ v,
    decode eucJis2004 (u ++ c.bytes ++ v) = decode eucJis2004 (u ++ v)

/-- A byte that `decode` drops and that changes nothing. -/
def Dropped (b : UInt8) : Prop :=
  b < 0x20 ∧ b ∉ [(0x0D : UInt8), 0x0E, 0x0F, 0x16, 0x19, 0x1B, 0x1C, 0x1D]
  ∨ b = 0x7F ∨ b = 0xFF
  ∨ 0x80 ≤ b ∧ b ≤ 0x9F ∧ b ∉ [(0x8B : UInt8), 0x90, 0x91, 0x93, 0x94, 0x97, 0x98, 0x9B, 0x9D]

instance : DecidablePred Dropped := fun _ ↦ inferInstanceAs (Decidable (_ ∨ _))

section Passing

variable {eucJis2004 : Codec}

theorem body_dropped (self : Decoder) {b : UInt8} (h : Dropped b) (w : Bytes) :
    self.body eucJis2004 (b :: w) 0 = .ok (some (0, self)) := by
  have hne (c : UInt8) (hc : ¬Dropped c) : b ≠ c := by
    rintro rfl
    exact hc h
  rw [body_of_ne_esc (hne 0x1B (by decide)), Decoder.unit, if_neg (hne 0x0F (by decide)),
    if_neg (hne 0x0E (by decide)), if_neg (hne 0x19 (by decide)), if_neg (hne 0x1D (by decide)),
    if_neg (not_or.mpr ⟨hne 0x20 (by decide), hne 0xA0 (by decide)⟩), if_neg (hne 0x0D (by decide)),
    if_neg (hne 0x16 (by decide)), if_neg (hne 0x1C (by decide))]
  by_cases hlow : b < 0x20 ∨ b = 0x7F ∨ b = 0xFF
  · rw [if_pos hlow]
    rfl
  · have hc1 : 0x80 ≤ b ∧ b ≤ 0x9F := by
      rcases h with ⟨hlt, -⟩ | heq | heq | ⟨hge, hle, -⟩
      · exact absurd (.inl hlt) hlow
      · exact absurd (.inr (.inl heq)) hlow
      · exact absurd (.inr (.inr heq)) hlow
      · exact ⟨hge, hle⟩
    have hparams : c1Params b = 0 := by
      rw [c1Params, if_neg]
      simp only [List.mem_cons, List.not_mem_nil, or_false, not_or]
      exact ⟨hne 0x8B (by decide), hne 0x90 (by decide), hne 0x91 (by decide),
        hne 0x93 (by decide), hne 0x94 (by decide), hne 0x97 (by decide), hne 0x98 (by decide)⟩
    rw [if_neg hlow, if_pos hc1, if_neg (hne 0x9B (by decide)), if_neg (hne 0x9D (by decide)),
      hparams]
    rfl

theorem csiParams_append (params w : Bytes) {final : UInt8} (h : ∀ b ∈ params, b < 0x40)
    (hfinal : 0x40 ≤ final ∧ final ≤ 0x7E) :
    csiParams (params ++ final :: w) 0 = .ok params.length := by
  induction params with
  | nil => exact csiParams_of_final rfl hfinal
  | cons b params ih =>
    have hparam : ¬(0x40 ≤ b ∧ b ≤ 0x7E) := by
      rintro ⟨hge, -⟩
      exact absurd hge (UInt8.not_le.mpr (h b List.mem_cons_self))
    have hrest : csiParams (b :: (params ++ final :: w)) 1 = .ok params.length :=
      (csiParams_append_right [b] (params ++ final :: w) 0).trans
        (ih fun b' hb' ↦ h b' (List.mem_cons_of_mem _ hb'))
    rw [List.cons_append, csiParams_of_param rfl hparam, Nat.zero_add, hrest]
    rfl

/-- A control sequence other than a palette selection is passed over. -/
theorem decodeLoop_control (self : Decoder) {c : Control} (h : ∀ p2, c ≠ .palette p2) (w : Bytes) :
    decodeLoop eucJis2004 (c.bytes ++ w) 0 self = decodeLoop eucJis2004 w 0 self := by
  cases c with
  | bare b hb =>
    refine decodeLoop_of_unit (n := 0) ?_
    simp only [bareControls, List.mem_cons, List.not_mem_nil, or_false] at hb
    rcases hb with rfl | rfl | rfl | rfl | rfl | rfl | rfl | rfl | rfl | rfl | rfl | rfl | rfl <;>
      rfl
  | oneParameter b hb p1 =>
    refine decodeLoop_of_unit (n := 1) ?_
    simp only [oneParameterControls, List.mem_cons, List.not_mem_nil, or_false] at hb
    rcases hb with rfl | rfl | rfl | rfl | rfl | rfl | rfl <;> rfl
  | aps p1 p2 =>
    refine decodeLoop_of_unit (n := 2) ?_
    rfl
  | color p1 hp1 =>
    refine decodeLoop_of_unit (n := 1) ?_
    rfl
  | palette p2 => exact absurd rfl (h p2)
  | csi params hparams final hfinal =>
    have hcsi : csiParams (0x9B :: (params ++ final :: w)) 1 = .ok params.length :=
      (csiParams_append_right [0x9B] (params ++ final :: w) 0).trans
        (csiParams_append params w hparams hfinal)
    have hbody : self.body eucJis2004 (0x9B :: (params ++ final :: w)) 0
        = .ok (some (params.length + 1, self)) := by
      have hunit : self.unit eucJis2004 (0x9B :: (params ++ final :: w)) 0 0x9B
          = do return some ((← csiParams (0x9B :: (params ++ final :: w)) 1) + 1, self) := rfl
      rw [body_of_ne_esc (by decide), hunit, hcsi]
      rfl
    rw [Control.bytes, List.cons_append, List.append_assoc, List.singleton_append,
      decodeLoop_of_unit hbody, ← List.drop_drop, List.drop_left]
    rfl

/-- A palette selection, but for the number of the palette. -/
theorem decodeLoop_palette (self : Decoder) (p2 : UInt8) (w : Bytes) :
    decodeLoop eucJis2004 ((Control.palette p2).bytes ++ w) 0 self
      = decodeLoop eucJis2004 (p2 :: w) 0 self := by
  refine decodeLoop_of_unit (n := 1) ?_
  rfl

theorem transparent_of_ne_palette {c : Control} (h : ∀ p2, c ≠ .palette p2) :
    Transparent eucJis2004 c := by
  intro u hu v
  obtain ⟨self, hself⟩ := hu.exists_decode_eq
  rw [List.append_assoc, hself, hself, decodeLoop_control self h]

theorem transparent_palette_of_dropped {p2 : UInt8} (h : Dropped p2) :
    Transparent eucJis2004 (.palette p2) := by
  intro u hu v
  obtain ⟨self, hself⟩ := hu.exists_decode_eq
  rw [List.append_assoc, hself, hself, decodeLoop_palette,
    decodeLoop_of_unit (body_dropped self h v)]
  rfl

end Passing

/-! ## The number of a palette, read as text -/

section Palette

variable {eucJis2004 : Codec}

/-- The left half invokes the alphanumeric set. -/
def latin : CodeExtension := { gl := 1 }

theorem decode_latin (v : Bytes) :
    decode eucJis2004 (0x0E :: v) = decodeLoop eucJis2004 v 0 (latin.toDecoder []) := by
  have h : decodeLoop eucJis2004 (0x0E :: v) 0 (CodeExtension.toDecoder {} [])
      = decodeLoop eucJis2004 v 0 (latin.toDecoder []) := decodeLoop_lockingShift .ls1 {} [] v
  rwa [CodeExtension.toDecoder_fresh] at h

theorem tokenBoundary_nil : TokenBoundary eucJis2004 [] := fun _ ↦ ⟨{}, .here 0 {}⟩

theorem tokenBoundary_ls1 : TokenBoundary eucJis2004 [0x0E] := by
  intro v
  refine ⟨{ gl := 1 }, .unit (n := 0) (by simp) ?_ (.here 1 _)⟩
  rfl

/-- The letter A. -/
def letterA : Code := ⟨0x41, by decide, by decide⟩

theorem decodeLoop_letterA (out : Str) :
    decodeLoop eucJis2004 [0x41] 0 (latin.toDecoder out) = .ok (out ++ ['A']) := by
  have h : latin.interpret eucJis2004 [.left (.one letterA)] = some ['A'] := rfl
  exact decodeLoop_tokens h out

/-- What stands for itself in the text, and what takes the next byte for a parameter or gives it
another meaning. -/
theorem not_dropped_cases {b : UInt8} (h : ¬Dropped b) :
    b ∈ [(0x0D : UInt8), 0x20, 0xA0] ∨ b ∈ [(0x0E : UInt8), 0x0F, 0x19, 0x1B, 0x1D]
    ∨ b ∈ [(0x16 : UInt8), 0x1C, 0x8B, 0x90, 0x91, 0x93, 0x94, 0x97, 0x98, 0x9B, 0x9D]
    ∨ (0x21 ≤ b.toNat ∧ b.toNat ≤ 0x7E) ∨ (0xA1 ≤ b.toNat ∧ b.toNat ≤ 0xFE) := by
  have hall : ∀ n < 256, ¬Dropped (UInt8.ofNat n) →
      UInt8.ofNat n ∈ [(0x0D : UInt8), 0x20, 0xA0]
      ∨ UInt8.ofNat n ∈ [(0x0E : UInt8), 0x0F, 0x19, 0x1B, 0x1D]
      ∨ UInt8.ofNat n ∈ [(0x16 : UInt8), 0x1C, 0x8B, 0x90, 0x91, 0x93, 0x94, 0x97, 0x98, 0x9B, 0x9D]
      ∨ (0x21 ≤ (UInt8.ofNat n).toNat ∧ (UInt8.ofNat n).toNat ≤ 0x7E)
      ∨ (0xA1 ≤ (UInt8.ofNat n).toNat ∧ (UInt8.ofNat n).toNat ≤ 0xFE) := by
    decide +kernel
  have hb := hall b.toNat b.toNat_lt
  rw [UInt8.ofNat_toNat] at hb
  exact hb h

/-- Text in front of the letter. -/
theorem decodeLoop_ne_of_front {data : Bytes} (str : Str) (hstr : str ≠ [])
    (h : decodeLoop eucJis2004 data 0 (latin.toDecoder [])
      = decodeLoop eucJis2004 [0x41] 0 (latin.toDecoder str)) :
    decodeLoop eucJis2004 data 0 (latin.toDecoder []) ≠ .ok ['A'] := by
  rw [h, decodeLoop_letterA]
  intro hok
  exact hstr (List.append_cancel_right (Except.ok.inj hok))

/-- Nothing is left of the letter. -/
theorem decodeLoop_ne_of_swallowed {b : UInt8} {n : ℕ}
    (h : (latin.toDecoder []).body eucJis2004 [b, 0x41] 0
      = .ok (some (n + 1, latin.toDecoder []))) :
    decodeLoop eucJis2004 [b, 0x41] 0 (latin.toDecoder []) ≠ .ok ['A'] := by
  rw [decodeLoop_of_unit h, List.drop_succ_cons, List.drop_nil, decodeLoop_nil]
  intro hok
  cases hok

/-- Tokens that are another text. -/
theorem decodeLoop_ne_of_tokens {ts : List Token} {str : Str}
    (h : latin.interpret eucJis2004 ts = some str) (hstr : str ≠ ['A']) :
    decodeLoop eucJis2004 (ts.flatMap Token.bytes) 0 (latin.toDecoder []) ≠ .ok ['A'] := by
  rw [decodeLoop_tokens h]
  intro hok
  exact hstr (Except.ok.inj hok)

/-- The left half of a byte of the right half. -/
theorem exists_code_right {b : UInt8} (hlo : 0xA1 ≤ b.toNat) (hhi : b.toNat ≤ 0xFE) :
    ∃ c : Code, c.right = b := by
  have hsub : (b - 0x80).toNat = b.toNat - 128 := UInt8.toNat_sub_of_le _ _ <| by
    rw [UInt8.le_iff_toNat_le]
    exact le_trans (by decide) hlo
  have hge : 0x21 ≤ (b - 0x80).toNat := by omega
  have hle : (b - 0x80).toNat ≤ 0x7E := by omega
  refine ⟨⟨b - 0x80, hge, hle⟩, UInt8.toNat_inj.mp ?_⟩
  rw [Code.toNat_right, hsub]
  omega

/-- A byte that is not dropped changes what the letter behind it gives, or adds text of its own. -/
theorem decodeLoop_latin_ne {b : UInt8} (h : ¬Dropped b) (hls1 : b ≠ 0x0E) :
    decodeLoop eucJis2004 [b, 0x41] 0 (latin.toDecoder []) ≠ .ok ['A'] := by
  have hnil : (Except.ok [] : Except IndexError Str) ≠ .ok ['A'] := by decide
  rcases not_dropped_cases h with hmem | hmem | hmem | hmem | hmem
  · -- a space or a new line in front of the letter
    simp only [List.mem_cons, List.not_mem_nil, or_false] at hmem
    rcases hmem with rfl | rfl | rfl
    · exact decodeLoop_ne_of_front ['\n'] (by decide) (decodeLoop_of_unit (n := 0) rfl)
    · exact decodeLoop_ne_of_front [' '] (by decide) (decodeLoop_of_unit (n := 0) rfl)
    · exact decodeLoop_ne_of_front [' '] (by decide) (decodeLoop_of_unit (n := 0) rfl)
  · -- a shift, or an escape sequence that the letter ends
    simp only [List.mem_cons, List.not_mem_nil, or_false, hls1, false_or] at hmem
    rcases hmem with rfl | rfl | rfl | rfl
    · have hshift : decodeLoop eucJis2004 [0x0F, 0x41] 0 (latin.toDecoder [])
          = decodeLoop eucJis2004 [0x41] 0 ((LockingShift.ls0.apply latin).toDecoder []) :=
        decodeLoop_lockingShift .ls0 latin [] [0x41]
      have hbroken : ((LockingShift.ls0.apply latin).toDecoder []).body eucJis2004 [0x41] 0
          = .ok none := rfl
      rw [decodeLoop_of_broken hbroken] at hshift
      exact fun hok ↦ hnil (hshift.symm.trans hok)
    · have hkana : latin.interpret eucJis2004 [.singleShift .ss2 (.one letterA)]
          = some [hiragana.get ⟨32, by rw [length_hiragana]; decide⟩] := rfl
      exact decodeLoop_ne_of_tokens hkana (by decide)
    · have hescape : decodeLoop eucJis2004 [0x1B, 0x41] 0 (latin.toDecoder [])
          = decodeLoop eucJis2004 [] 0 (latin.toDecoder []) := decodeLoop_escape (n := 0) rfl
      exact fun hok ↦ hnil ((hescape.trans (decodeLoop_nil _)).symm.trans hok)
    · have hkana : latin.interpret eucJis2004 [.singleShift .ss3 (.one letterA)]
          = some [katakana.get ⟨32, by rw [length_katakana]; decide⟩] := rfl
      exact decodeLoop_ne_of_tokens hkana (by decide)
  · -- a control code that takes the letter for a parameter
    have hcsi : csiParams [0x9B, 0x41] 1 = .ok 0 :=
      csiParams_of_final (b := 0x41) rfl (by decide)
    simp only [List.mem_cons, List.not_mem_nil, or_false] at hmem
    rcases hmem with rfl | rfl | rfl | rfl | rfl | rfl | rfl | rfl | rfl | rfl | rfl
    · exact decodeLoop_ne_of_swallowed (n := 0) rfl
    · exact decodeLoop_ne_of_swallowed (n := 1) rfl
    · exact decodeLoop_ne_of_swallowed (n := 0) rfl
    · exact decodeLoop_ne_of_swallowed (n := 0) rfl
    · exact decodeLoop_ne_of_swallowed (n := 0) rfl
    · exact decodeLoop_ne_of_swallowed (n := 0) rfl
    · exact decodeLoop_ne_of_swallowed (n := 0) rfl
    · exact decodeLoop_ne_of_swallowed (n := 0) rfl
    · exact decodeLoop_ne_of_swallowed (n := 0) rfl
    · refine decodeLoop_ne_of_swallowed (n := 0) ?_
      have hunit : (latin.toDecoder []).unit eucJis2004 [0x9B, 0x41] 0 0x9B
          = do return some ((← csiParams [0x9B, 0x41] 1) + 1, latin.toDecoder []) := rfl
      rw [body_of_ne_esc (by decide), hunit, hcsi]
      rfl
    · exact decodeLoop_ne_of_swallowed (n := 1) rfl
  · -- a letter of its own
    have htext : latin.interpret eucJis2004
        [.left (.one ⟨b, hmem.1, hmem.2⟩), .left (.one letterA)]
        = some ([Char.ofNat b.toNat] ++ ['A']) := rfl
    exact decodeLoop_ne_of_tokens htext (by simp)
  · -- a kana of its own
    obtain ⟨c, rfl⟩ := exists_code_right hmem.1 hmem.2
    have htext : latin.interpret eucJis2004 [.right (.one c), .left (.one letterA)]
        = some (OneByteSet.hiragana.glyph c ++ ['A']) := rfl
    exact decodeLoop_ne_of_tokens htext (by simp [OneByteSet.glyph])

theorem not_transparent_palette {p2 : UInt8} (h : ¬Dropped p2) :
    ¬Transparent eucJis2004 (.palette p2) := by
  intro htransparent
  by_cases hls1 : p2 = 0x0E
  · -- the shift is what makes the letter one
    subst hls1
    have hall := htransparent [] tokenBoundary_nil [0x41]
    have hshift : decode eucJis2004 ([] ++ (Control.palette 0x0E).bytes ++ [0x41]) = .ok ['A'] := by
      rw [List.nil_append, decode, decodeLoop_palette, ← decode, decode_latin, decodeLoop_letterA]
      rfl
    have hbroken : ({} : Decoder).body eucJis2004 [0x41] 0 = .ok none := rfl
    rw [hshift, List.nil_append, decode, decodeLoop_of_broken hbroken] at hall
    exact absurd hall (by decide)
  · have hall := htransparent [0x0E] tokenBoundary_ls1 [0x41]
    rw [List.append_assoc, List.singleton_append, List.singleton_append, decode_latin, decode_latin,
      decodeLoop_palette, decodeLoop_letterA] at hall
    exact decodeLoop_latin_ne h hls1 hall

/-- **Control codes are passed over**, all but the palette selections whose number `decode` does not
drop anyway. -/
theorem transparent_iff (c : Control) :
    Transparent eucJis2004 c ↔ ∀ p2, c = .palette p2 → Dropped p2 := by
  constructor
  · rintro h p2 rfl
    by_contra hp2
    exact not_transparent_palette hp2 h
  · intro h
    by_cases hpalette : ∃ p2, c = .palette p2
    · obtain ⟨p2, rfl⟩ := hpalette
      exact transparent_palette_of_dropped (h p2 rfl)
    · exact transparent_of_ne_palette fun p2 hp2 ↦ hpalette ⟨p2, hp2⟩

/-- Palette 65, selected between a shift and the end of the text, leaves a letter behind. -/
theorem not_transparent_palette_letter :
    TokenBoundary firstKanji [0x0E]
    ∧ decode firstKanji ([0x0E] ++ (Control.palette 0x41).bytes ++ []) = .ok ['A']
    ∧ decode firstKanji ([0x0E] ++ []) = .ok [] := by
  refine ⟨tokenBoundary_ls1, ?_, ?_⟩
  · rw [List.append_assoc, List.singleton_append, decode_latin, decodeLoop_palette,
      decodeLoop_letterA]
    rfl
  · rw [List.singleton_append, decode_latin, decodeLoop_nil]
    rfl

end Palette

end Aribstr

end Recdyud
