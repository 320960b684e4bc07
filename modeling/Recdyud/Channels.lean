import Recdyud.Unicode
import Recdyud.Lib.BinaryFloat

/-!
# Channel names

A channel is written as a number, with a `C` for the channels of cable television, or as a
frequency. `parse_channel` reads one of them and `expand_channel_ranges` a list with ranges; both
are code that may raise, and `ChannelRaised` has the exceptions that reach them.

A frequency is read by `float()`: a binary number of 64 bits, or infinity.
-/

namespace Recdyud

open BinaryFormat (binary64)

/-- `MIN_FREQUENCY_KHZ` -/
def minFrequencyKhz : ℤ := 90000

/-- `MAX_FREQUENCY_KHZ` -/
def maxFrequencyKhz : ℤ := 770000

structure Channel where
  name : Str
  frequencyKhz : ℤ
  deriving DecidableEq, Repr

/-- An exception out of the functions of this file. -/
inductive ChannelRaised where
  | invalidChannel (message : Str)
  /-- A `ValueError` of `int()` or `str()`, which is no `InvalidChannel`. -/
  | valueError
  /-- `cannot convert float infinity to integer` -/
  | overflowError
  deriving DecidableEq, Repr

/-- `range(lo, hi)` -/
def intRange (lo hi : ℤ) : List ℤ :=
  (List.range (hi - lo).toNat).map fun k : ℕ ↦ lo + (k : ℤ)

/-- `UHF_RANGE` -/
def uhfRange : List ℤ := intRange 13 63

/-- `CATV_RANGE` -/
def catvRange : List ℤ := intRange 13 64

/-- `VHF_RANGE` -/
def vhfRange : List ℤ := intRange 1 13

/-- The digits of an integer. -/
def strInt (n : ℤ) : Str := if n < 0 then '-' :: str n.natAbs else str n.natAbs

/-! ## Frequencies of channels -/

def uhfFrequency (ch : ℤ) : ℤ := 473143 + 6000 * (ch - 13)

def catvFrequency (ch : ℤ) : Except ChannelRaised ℤ :=
  -- VHF mid band
  if 13 ≤ ch ∧ ch ≤ 21 then .ok (111143 + 6000 * (ch - 13))
  else if ch = 22 then .ok 167143
  else if ch = 23 then .ok 225143
  -- super high band
  else if 24 ≤ ch ∧ ch ≤ 27 then .ok (233143 + 6000 * (ch - 24))
  else if 28 ≤ ch ∧ ch ≤ 63 then .ok (255143 + 6000 * (ch - 28))
  else .error (.invalidChannel ('C' :: strInt ch))

def vhfFrequency (ch : ℤ) : Except ChannelRaised ℤ :=
  -- VHF low band
  if 1 ≤ ch ∧ ch ≤ 3 then .ok (93143 + 6000 * (ch - 1))
  else if 4 ≤ ch ∧ ch ≤ 7 then .ok (173143 + 6000 * (ch - 4))
  else if 8 ≤ ch ∧ ch ≤ 12 then .ok (195143 + 6000 * (ch - 8))
  else .error (.invalidChannel (strInt ch))

/-! ## A raw frequency -/

inductive FrequencyUnit where
  | khz
  | mhz
  deriving DecidableEq, Repr

/-- `khz|mhz` under `re.IGNORECASE`, to which the Kelvin sign is a `k` -/
def frequencyUnit : Str → Option FrequencyUnit
  | [k, h, z] =>
    if h ∈ ['h', 'H'] ∧ z ∈ ['z', 'Z'] then
      if k ∈ ['k', 'K', '\u212A'] then some .khz
      else if k ∈ ['m', 'M'] then some .mhz
      else none
    else none
  | _ => none

/-- What `_FREQ_RE` captures: the digits in front of the point and behind it, and the unit. -/
structure FrequencyText where
  whole : Str
  fraction : Str
  unit : FrequencyUnit
  deriving DecidableEq, Repr

/-- `int()` where it may raise. -/
def raisingInt (U : Unicode) (s : Str) : Except ChannelRaised ℤ :=
  match U.int s with
  | some n => .ok n
  | none => .error .valueError

/-- `f"{n}"`, which refuses as many digits as `int()` does -/
def raisingStr (n : ℤ) : Except ChannelRaised Str :=
  if (str n.natAbs).length ≤ intMaxStrDigits then .ok (strInt n) else .error .valueError

/-- `round()` of a float -/
def raisingRound : Option ℚ → Except ChannelRaised ℤ
  | some x => .ok (roundHalfEven x)
  | none => .error .overflowError

/-- The frequency of `x` units in kHz: `x` is what was written, of which `float()` takes the nearest
number. -/
def FrequencyUnit.toKhz (unit : FrequencyUnit) (x : ℚ) : Except ChannelRaised ℤ :=
  let value := binary64.nearest x
  match unit with
  | .mhz => raisingRound (value.bind fun v ↦ binary64.nearest (v * 1000))
  | .khz => raisingRound value

section Parse

variable (U : Unicode)

/-- `\d` -/
def Unicode.isDecimal (c : Char) : Bool := (U.decimal c).isSome

/-- `(?:\.\d+)?`: the digits behind a point, and what follows them -/
def pointDigits (rest : Str) : Str × Str :=
  if rest.head? = some '.' ∧ rest.tail.takeWhile U.isDecimal ≠ [] then
    (rest.tail.takeWhile U.isDecimal, rest.tail.dropWhile U.isDecimal)
  else ([], rest)

/-- `_FREQ_RE.match`, of a text that was stripped. No character is of two of the classes that follow
one another, so the longest run of each is the only one that can match. -/
def freqMatch (s : Str) : Option FrequencyText :=
  let whole := s.takeWhile U.isDecimal
  let (fraction, rest) := pointDigits U (s.dropWhile U.isDecimal)
  if whole = [] then none
  else (frequencyUnit (rest.dropWhile U.isSpace)).map fun unit ↦ ⟨whole, fraction, unit⟩

/-- The number that stands in front of the unit. -/
def FrequencyText.value (m : FrequencyText) : ℚ :=
  decimalValue (m.whole.map U.toAscii)
    + decimalValue (m.fraction.map U.toAscii) / 10 ^ m.fraction.length

/-- A raw frequency, given as `spec`. -/
def frequencyChannel (spec : Str) (m : FrequencyText) : Except ChannelRaised Channel := do
  let khz ← m.unit.toKhz (m.value U)
  if minFrequencyKhz ≤ khz ∧ khz ≤ maxFrequencyKhz then
    return ⟨strInt khz ++ ['k', 'H', 'z'], khz⟩
  else
    throw (.invalidChannel ("frequency out of range: ".toList ++ spec))

/-- The last line of `parse_channel`. -/
def unsupportedChannel (spec : Str) : ChannelRaised :=
  .invalidChannel ("unsupported channel: ".toList ++ U.repr spec
    ++ " (use 13-62, C13-C63, 1-12 or a frequency like 473143kHz)".toList)

/-- `CATV` -/
def catvChannel (spec : Str) (ch : ℤ) : Except ChannelRaised Channel :=
  if ch ∈ catvRange then do
    return ⟨'C' :: strInt ch, ← catvFrequency ch⟩
  else throw (unsupportedChannel U spec)

/-- Terrestrial channels. -/
def numberedChannel (spec : Str) (ch : ℤ) : Except ChannelRaised Channel :=
  if ch ∈ uhfRange then
    return ⟨strInt ch, uhfFrequency ch⟩
  else if ch ∈ vhfRange then do
    return ⟨strInt ch, ← vhfFrequency ch⟩
  else throw (unsupportedChannel U spec)

/-- The text that is left of "GR27", "27ch" and similar spellings. -/
def channelText (spec : Str) : Str :=
  removeSuffix ['C', 'H'] (removePrefix ['G', 'R'] (U.toUpper (U.strip spec)))

/-- `parse_channel` -/
def parseChannel (spec : Str) : Except ChannelRaised Channel :=
  match freqMatch U (U.strip spec) with
  | some m => frequencyChannel U spec m
  | none =>
    let upper := channelText U spec
    if ['C'] <+: upper ∧ U.isDigits (upper.drop 1) then do
      catvChannel U spec (← raisingInt U (upper.drop 1))
    else if U.isDigits upper then do
      numberedChannel U spec (← raisingInt U upper)
    else throw (unsupportedChannel U spec)

/-! ## Lists of channels -/

/-- A side of a range, in upper case. -/
def rangeSide (side : Str) : Str := U.toUpper (U.strip side)

/-- The `C` in front of the numbers of a range. -/
def rangePrefix (lo : Str) : Str := if ['C'] <+: lo then ['C'] else []

/-- The channels that a part stands for. -/
def expandPart (part : Str) : Except ChannelRaised (List Channel) :=
  if '-' ∈ part then do
    let lo := rangeSide U (partition '-' part).1
    let hi := rangeSide U (partition '-' part).2
    let loN ← raisingInt U (removePrefix ['C'] lo)
    let hiN ← raisingInt U (removePrefix ['C'] hi)
    if loN > hiN then
      throw (.invalidChannel ("bad range: ".toList ++ part))
    (intRange loN (hiN + 1)).mapM fun n ↦ do
      parseChannel U (rangePrefix lo ++ (← raisingStr n))
  else do
    return [← parseChannel U part]

/-- The parts between commas that are not blank. -/
def channelParts (spec : Str) : List Str :=
  ((spec.splitOn ',').map U.strip).filter (· ≠ [])

/-- `expand_channel_ranges` -/
def expandChannelRanges (spec : Str) : Except ChannelRaised (List Channel) := do
  return (← (channelParts U spec).mapM (expandPart U)).flatten

end Parse

theorem mem_intRange {lo hi n : ℤ} : n ∈ intRange lo hi ↔ lo ≤ n ∧ n < hi := by
  rw [intRange, List.mem_map]
  constructor
  · rintro ⟨k, hk, rfl⟩
    rw [List.mem_range] at hk
    omega
  · rintro ⟨hlo, hhi⟩
    exact ⟨(n - lo).toNat, by rw [List.mem_range]; omega, by omega⟩

/-! ## The expression -/

/-- The point and the digits behind it, which may be left out. -/
def pointed (fraction : Str) : Str := if fraction = [] then [] else '.' :: fraction

/-- The text is a match: digits, a point with digits, white space and a unit. -/
structure FrequencyText.Matched (U : Unicode) (m : FrequencyText) (s : Str) : Prop where
  split : ∃ spaces letters, s = m.whole ++ (pointed m.fraction ++ (spaces ++ letters)) ∧
    (∀ c ∈ spaces, U.isSpace c) ∧ frequencyUnit letters = some m.unit
  ne_nil : m.whole ≠ []
  whole : ∀ c ∈ m.whole, U.isDecimal c
  fraction : ∀ c ∈ m.fraction, U.isDecimal c

section Match

variable {U : Unicode} {s letters : Str} {m : FrequencyText} {unit : FrequencyUnit} {c : Char}

theorem Unicode.isDecimal_ascii (h : c.toNat < 128) : U.isDecimal c = c.isDigit := by
  rw [isDecimal, U.decimal_ascii h]
  cases c.isDigit <;> rfl

theorem Unicode.not_isDecimal_of_isSpace (h : U.isSpace c) : ¬U.isDecimal c := by
  intro hdecimal
  obtain ⟨d, hd⟩ := Option.isSome_iff_exists.mp hdecimal
  rw [U.not_isSpace_of_isDigit (U.isDigit_of_decimal hd)] at h
  exact Bool.false_ne_true h

theorem mem_of_frequencyUnit (h : frequencyUnit letters = some unit) (hc : c ∈ letters.head?) :
    c ∈ ['k', 'K', '\u212A', 'm', 'M'] := by
  unfold frequencyUnit at h
  split at h
  · obtain rfl := Option.some.inj hc
    split at h
    · split at h
      · rename_i hk
        simp only [List.mem_cons] at hk ⊢
        tauto
      · split at h
        · rename_i hm
          simp only [List.mem_cons] at hm ⊢
          tauto
        · cases h
    · cases h
  · cases h

/-- A unit begins with a letter. -/
theorem letter_of_frequencyUnit (U : Unicode) (h : frequencyUnit letters = some unit)
    (hc : c ∈ letters.head?) : ¬U.isDecimal c ∧ ¬U.isSpace c ∧ c ≠ '.' := by
  have hmem := mem_of_frequencyUnit h hc
  rcases eq_or_ne c '\u212A' with rfl | hne
  · refine ⟨fun hdecimal ↦ ?_, by rw [U.isSpace_kelvin]; decide, by decide⟩
    obtain ⟨d, hd⟩ := Option.isSome_iff_exists.mp hdecimal
    exact Bool.false_ne_true (U.isDigit_kelvin.symm.trans (U.isDigit_of_decimal hd))
  · have hascii : c ∈ ['k', 'K', 'm', 'M'] := by
      simp only [List.mem_cons] at hmem ⊢
      tauto
    have hall : ∀ d ∈ ['k', 'K', 'm', 'M'],
        d.toNat < 128 ∧ d.isDigit = false ∧ isAsciiSpace d = false ∧ d ≠ '.' :=
      List.all_iff_forall_prop.mp (by decide)
    obtain ⟨hlt, hdigit, hspace, hpoint⟩ := hall c hascii
    rw [U.isDecimal_ascii hlt, hdigit, U.isSpace_ascii hlt, hspace]
    exact ⟨Bool.false_ne_true, Bool.false_ne_true, hpoint⟩

theorem not_isDecimal_point : ¬U.isDecimal '.' := by
  rw [U.isDecimal_ascii (by decide)]
  decide

/-- What follows the digits does not begin with one. -/
theorem head_of_matched {spaces : Str} (hspaces : ∀ c ∈ spaces, U.isSpace c)
    (h : frequencyUnit letters = some unit) (hc : c ∈ (spaces ++ letters).head?) :
    ¬U.isDecimal c ∧ c ≠ '.' := by
  rcases spaces with _ | ⟨d, spaces⟩
  · have := letter_of_frequencyUnit U h hc
    exact ⟨this.1, this.2.2⟩
  · obtain rfl := Option.some.inj hc
    have hspace := hspaces d List.mem_cons_self
    refine ⟨U.not_isDecimal_of_isSpace hspace, ?_⟩
    rintro rfl
    rw [U.isSpace_ascii (by decide)] at hspace
    exact absurd hspace (by decide)

theorem pointDigits_append {fraction rest : Str} (hfraction : ∀ c ∈ fraction, U.isDecimal c)
    (hrest : ∀ c ∈ rest.head?, ¬U.isDecimal c) (hpoint : '.' ∉ rest.head?) :
    pointDigits U (pointed fraction ++ rest) = (fraction, rest) := by
  rw [pointDigits, pointed]
  split
  · rename_i hnil
    rw [List.nil_append, if_neg (fun hboth ↦ hpoint hboth.1), hnil]
  · rename_i hne
    rw [List.cons_append, List.head?_cons, List.tail_cons, takeWhile_append_of_head hfraction hrest,
      dropWhile_append_of_head hfraction hrest]
    exact if_pos ⟨rfl, hne⟩

theorem pointDigits_split (U : Unicode) (rest : Str) :
    rest = pointed (pointDigits U rest).1 ++ (pointDigits U rest).2 := by
  rw [pointDigits]
  split
  · rename_i hboth
    obtain ⟨tail, rfl⟩ := List.head?_eq_some_iff.mp hboth.1
    rw [pointed, if_neg hboth.2, List.cons_append, List.takeWhile_append_dropWhile, List.tail_cons]
  · rw [pointed, if_pos rfl, List.nil_append]

theorem isDecimal_of_mem_pointDigits (U : Unicode) (rest : Str) :
    ∀ c ∈ (pointDigits U rest).1, U.isDecimal c := by
  intro c hc
  rw [pointDigits] at hc
  split at hc
  · exact List.mem_takeWhile_imp hc
  · cases hc

/-- The longest runs are the match, if there is one. -/
theorem freqMatch_of_matched (h : m.Matched U s) : freqMatch U s = some m := by
  obtain ⟨⟨spaces, letters, rfl, hspaces, hunit⟩, hne, hwhole, hfraction⟩ := h
  have hhead : ∀ c ∈ (spaces ++ letters).head?, ¬U.isDecimal c := fun c hc ↦
    (head_of_matched hspaces hunit hc).1
  have hrest : ∀ c ∈ (pointed m.fraction ++ (spaces ++ letters)).head?, ¬U.isDecimal c := by
    intro c hc
    rw [pointed] at hc
    split at hc
    · exact hhead c hc
    · obtain rfl := Option.some.inj hc
      exact not_isDecimal_point
  have hletters : (spaces ++ letters).dropWhile U.isSpace = letters :=
    dropWhile_append_of_head hspaces fun c hc ↦ (letter_of_frequencyUnit U hunit hc).2.1
  have hpoint : pointDigits U (pointed m.fraction ++ (spaces ++ letters))
      = (m.fraction, spaces ++ letters) := by
    refine pointDigits_append hfraction hhead fun hc ↦ ?_
    exact (head_of_matched hspaces hunit hc).2 rfl
  rw [freqMatch, takeWhile_append_of_head hwhole hrest, dropWhile_append_of_head hwhole hrest,
    hpoint]
  dsimp only
  rw [if_neg hne, hletters, hunit, Option.map_some]

theorem matched_of_freqMatch (h : freqMatch U s = some m) : m.Matched U s := by
  have hsplit := pointDigits_split U (s.dropWhile U.isDecimal)
  have hfraction := isDecimal_of_mem_pointDigits U (s.dropWhile U.isDecimal)
  rw [freqMatch] at h
  dsimp only at h
  split at h
  · cases h
  rename_i hne
  obtain ⟨unit, hunit, rfl⟩ := Option.map_eq_some_iff.mp h
  refine ⟨⟨(pointDigits U (s.dropWhile U.isDecimal)).2.takeWhile U.isSpace, _, ?_,
    fun c ↦ List.mem_takeWhile_imp, hunit⟩, hne, fun c ↦ List.mem_takeWhile_imp, hfraction⟩
  dsimp only
  rw [List.takeWhile_append_dropWhile, ← hsplit, List.takeWhile_append_dropWhile]

/-- **The expression** matches exactly what it says. -/
theorem freqMatch_eq_some_iff : freqMatch U s = some m ↔ m.Matched U s :=
  ⟨matched_of_freqMatch, freqMatch_of_matched⟩

end Match

end Recdyud
