import Recdyud.Text

/-!
# Characters and `int()`

What the methods of `str` say of a character comes from tables that differ between versions of
Unicode. They are a parameter, `Unicode`, with what is used of them: on ASCII they are fixed, and
the decimal digits are digits. A character is a Unicode scalar value.

`int()` takes white space at both ends, a sign, and digits with single underscores between them, and
refuses more than 4300 digits. Digits of other scripts count, but not every character that
`isdigit()` accepts is one of them.
-/

namespace Recdyud

/-- White space of ASCII, for `str`. -/
def isAsciiSpace (c : Char) : Bool :=
  (0x09 ≤ c.toNat ∧ c.toNat ≤ 0x0D) ∨ (0x1C ≤ c.toNat ∧ c.toNat ≤ 0x20)

/-- The tables behind the methods of `str`. -/
structure Unicode where
  /-- The value of a decimal digit, `unicodedata.decimal`. -/
  decimal : Char → Option ℕ
  /-- `c.isdigit()` -/
  isDigit : Char → Bool
  /-- `c.isspace()` -/
  isSpace : Char → Bool
  /-- `c.upper()` -/
  upper : Char → Str
  /-- `repr(s)`, which depends on what is printable -/
  repr : Str → Str
  decimal_lt : ∀ {c : Char} {d : ℕ}, decimal c = some d → d < 10
  isDigit_of_decimal : ∀ {c : Char} {d : ℕ}, decimal c = some d → isDigit c = true
  not_isSpace_of_isDigit : ∀ {c : Char}, isDigit c = true → isSpace c = false
  decimal_ascii : ∀ {c : Char}, c.toNat < 128 →
    decimal c = if c.isDigit then some (c.toNat - 48) else none
  isDigit_ascii : ∀ {c : Char}, c.toNat < 128 → isDigit c = c.isDigit
  isSpace_ascii : ∀ {c : Char}, c.toNat < 128 → isSpace c = isAsciiSpace c
  upper_ascii : ∀ {c : Char}, c.toNat < 128 → upper c = [c.toUpper]
  /-- The Kelvin sign is a letter. -/
  isDigit_kelvin : isDigit '\u212A' = false
  isSpace_kelvin : isSpace '\u212A' = false

/-- The tables of ASCII, with nothing beyond it. -/
def Unicode.ascii : Unicode where
  decimal c := if c.isDigit then some (c.toNat - 48) else none
  isDigit := Char.isDigit
  isSpace := isAsciiSpace
  upper c := [c.toUpper]
  repr s := "'".toList ++ s ++ "'".toList
  decimal_lt := by
    intro c d h
    split at h
    · rename_i hdigit
      have := toNat_of_isDigit hdigit
      obtain rfl := Option.some.inj h
      omega
    · cases h
  isDigit_of_decimal := by
    intro c d h
    split at h
    · rename_i hdigit
      exact hdigit
    · cases h
  not_isSpace_of_isDigit := by
    intro c h
    have := toNat_of_isDigit h
    rw [isAsciiSpace, decide_eq_false_iff_not]
    omega
  decimal_ascii _ := rfl
  isDigit_ascii _ := rfl
  isSpace_ascii _ := rfl
  upper_ascii _ := rfl
  isDigit_kelvin := by decide
  isSpace_kelvin := by decide

namespace Unicode

variable (U : Unicode)

/-- `s.strip()` -/
def strip (s : Str) : Str := trim U.isSpace s

/-- `s.isdigit()` -/
def isDigits (s : Str) : Bool := !s.isEmpty && s.all U.isDigit

/-- `s.upper()` -/
def toUpper (s : Str) : Str := s.flatMap U.upper

end Unicode

/-- `s.removeprefix(p)` -/
def removePrefix (p s : Str) : Str := if p <+: s then s.drop p.length else s

/-- `s.removesuffix(p)` -/
def removeSuffix (p s : Str) : Str :=
  if p <:+ s then s.take (s.length - p.length) else s

/-- The parts of `s` in front of the first `sep` and behind it, as of `s.partition(sep)` and
`s.split(sep, 1)`. -/
def partition (sep : Char) (s : Str) : Str × Str :=
  (s.takeWhile (· ≠ sep), (s.dropWhile (· ≠ sep)).tail)

/-! ## `int()` -/

/-- More digits are refused. -/
def intMaxStrDigits : ℕ := 4300

/-- White space of the C library. -/
def isCSpace (c : Char) : Bool := (0x09 ≤ c.toNat ∧ c.toNat ≤ 0x0D) ∨ c.toNat = 0x20

/-- A character as the C library gets to see it: decimal digits of any script as those of ASCII,
and a question mark for what is neither a digit nor white space. -/
def Unicode.toAscii (U : Unicode) (c : Char) : Char :=
  if c.toNat < 127 then c
  else if U.isSpace c then ' '
  else
    match U.decimal c with
    | some d => Nat.digitChar d
    | none => '?'

/-- Digits with single underscores between them. -/
def intDigits (s : Str) : Option ℕ :=
  let groups := s.splitOn '_'
  if (∀ g ∈ groups, g ≠ [] ∧ ∀ c ∈ g, c.isDigit) ∧ groups.flatten.length ≤ intMaxStrDigits then
    some (decimalValue groups.flatten)
  else
    none

/-- `int(s)`, with `none` where it raises `ValueError` -/
def Unicode.int (U : Unicode) (s : Str) : Option ℤ :=
  let s := trim isCSpace (s.map U.toAscii)
  if s.head? = some '-' then (intDigits s.tail).map fun n : ℕ ↦ -(n : ℤ)
  else if s.head? = some '+' then (intDigits s.tail).map fun n : ℕ ↦ (n : ℤ)
  else (intDigits s).map fun n : ℕ ↦ (n : ℤ)

/-! ## Digits -/

/-- A string of the digits `0` to `9`. -/
structure AllDigits (s : Str) : Prop where
  ne_nil : s ≠ []
  isDigit : ∀ c ∈ s, c.isDigit

theorem allDigits_str (n : ℕ) : AllDigits (str n) := ⟨str_ne_nil n, fun _ ↦ isDigit_of_mem_str⟩

theorem lt_128_of_isDigit {c : Char} (h : c.isDigit) : c.toNat < 128 := by
  have := toNat_of_isDigit h
  omega

section Digits

variable {U : Unicode} {s : Str} {c : Char}

theorem Unicode.not_isSpace_of_ascii_isDigit (h : c.isDigit) : U.isSpace c = false :=
  U.not_isSpace_of_isDigit ((U.isDigit_ascii (lt_128_of_isDigit h)).trans h)

theorem Unicode.isDigits_eq_false (hc : c ∈ s) (h : U.isDigit c = false) :
    U.isDigits s = false := by
  rw [Unicode.isDigits, Bool.and_eq_false_iff]
  refine .inr (List.all_eq_false.mpr ⟨c, hc, ?_⟩)
  rw [h]
  exact Bool.false_ne_true

theorem AllDigits.isDigits (h : AllDigits s) (U : Unicode) : U.isDigits s = true := by
  rw [Unicode.isDigits, Bool.and_eq_true, Bool.not_eq_true', List.isEmpty_eq_false_iff,
    List.all_eq_true]
  refine ⟨h.ne_nil, fun c hc ↦ ?_⟩
  rw [U.isDigit_ascii (lt_128_of_isDigit (h.isDigit c hc))]
  exact h.isDigit c hc

theorem AllDigits.strip (h : AllDigits s) (U : Unicode) : U.strip s = s :=
  trim_of_not_mem fun c hc ↦ by rw [U.not_isSpace_of_ascii_isDigit (h.isDigit c hc)]; decide

theorem not_isCSpace_of_isDigit (h : c.isDigit) : isCSpace c = false := by
  have := toNat_of_isDigit h
  rw [isCSpace, decide_eq_false_iff_not]
  omega

theorem toAscii_of_lt (h : c.toNat < 127) : U.toAscii c = c := if_pos h

theorem intDigits_of_allDigits (h : AllDigits s) :
    intDigits s = if s.length ≤ intMaxStrDigits then some (decimalValue s) else none := by
  have hsplit : s.splitOn '_' = [s] := by
    refine List.splitOn_eq_singleton fun hmem ↦ ?_
    exact absurd (h.isDigit '_' hmem) (by decide)
  have hgroups : ∀ g ∈ [s], g ≠ [] ∧ ∀ c ∈ g, c.isDigit := by
    intro g hg
    rw [List.mem_singleton.mp hg]
    exact ⟨h.ne_nil, h.isDigit⟩
  rw [intDigits, hsplit, List.flatten_singleton]
  by_cases hlen : s.length ≤ intMaxStrDigits
  · rw [if_pos hlen]
    exact if_pos ⟨hgroups, hlen⟩
  · rw [if_neg hlen]
    exact if_neg fun hall ↦ hlen hall.2

/-- There is at least one digit. -/
theorem intDigits_nil : intDigits [] = none := by
  rw [intDigits, List.splitOn_nil]
  exact if_neg fun hall ↦ (hall.1 [] List.mem_cons_self).1 rfl

theorem int_nil (U : Unicode) : U.int [] = none := by
  have hint : U.int [] = (intDigits []).map fun n : ℕ ↦ (n : ℤ) := rfl
  rw [hint, intDigits_nil, Option.map_none]

/-- A character that is neither a digit nor an underscore is refused. -/
theorem intDigits_of_mem (h : c ∈ s) (hdigit : ¬c.isDigit) (hunderscore : c ≠ '_') :
    intDigits s = none := by
  have hjoin : c ∈ join ['_'] (s.splitOn '_') := by rwa [join, List.intercalate_splitOn]
  obtain ⟨g, hg, hc⟩ := (mem_join hjoin).resolve_left (by simpa using hunderscore)
  refine if_neg ?_
  rintro ⟨hall, -⟩
  exact hdigit ((hall g hg).2 c hc)

/-- Neither white space nor a sign. -/
theorem unsigned_of_isDigit_or (h : c.isDigit = true ∨ c = '?') :
    ¬isCSpace c ∧ c ≠ '-' ∧ c ≠ '+' := by
  rcases h with hdigit | rfl
  · refine ⟨?_, ?_, ?_⟩
    · rw [not_isCSpace_of_isDigit hdigit]
      decide
    · rintro rfl
      exact absurd hdigit (by decide)
    · rintro rfl
      exact absurd hdigit (by decide)
  · decide

/-- Without white space and without a sign, the digits decide. -/
theorem Unicode.int_of_unsigned
    (h : ∀ c ∈ s, (U.toAscii c).isDigit = true ∨ U.toAscii c = '?') :
    U.int s = (intDigits (s.map U.toAscii)).map fun n : ℕ ↦ (n : ℤ) := by
  have hunsigned : ∀ c ∈ s.map U.toAscii, ¬isCSpace c ∧ c ≠ '-' ∧ c ≠ '+' :=
    List.forall_mem_map.mpr fun c hc ↦ unsigned_of_isDigit_or (h c hc)
  have htrim : trim isCSpace (s.map U.toAscii) = s.map U.toAscii :=
    trim_of_not_mem fun c hc ↦ (hunsigned c hc).1
  have hminus : (s.map U.toAscii).head? ≠ some '-' := fun hhead ↦
    (hunsigned '-' (List.mem_of_mem_head? hhead)).2.1 rfl
  have hplus : (s.map U.toAscii).head? ≠ some '+' := fun hhead ↦
    (hunsigned '+' (List.mem_of_mem_head? hhead)).2.2 rfl
  rw [int, htrim, if_neg hminus, if_neg hplus]

theorem AllDigits.map_toAscii (h : AllDigits s) (U : Unicode) : s.map U.toAscii = s := by
  refine (List.map_congr_left fun c hc ↦ ?_).trans (List.map_id s)
  have := toNat_of_isDigit (h.isDigit c hc)
  exact toAscii_of_lt (by omega)

/-- `int()` of the digits `0` to `9`. -/
theorem AllDigits.int (h : AllDigits s) (U : Unicode) :
    U.int s = if s.length ≤ intMaxStrDigits then some (decimalValue s : ℤ) else none := by
  have hdigits : ∀ c ∈ s, (U.toAscii c).isDigit = true ∨ U.toAscii c = '?' := by
    intro c hc
    have hdigit := h.isDigit c hc
    have := toNat_of_isDigit hdigit
    rw [toAscii_of_lt (by omega)]
    exact .inl hdigit
  rw [Unicode.int_of_unsigned hdigits, h.map_toAscii U, intDigits_of_allDigits h]
  split <;> rfl

theorem int_str (U : Unicode) {n : ℕ} (h : (str n).length ≤ intMaxStrDigits) :
    U.int (str n) = some (n : ℤ) := by
  rw [(allDigits_str n).int U, if_pos h, decimalValue_str]

/-- A character that `isdigit()` accepts is a decimal digit, or nothing that `int()` knows. -/
theorem toAscii_of_isDigit (h : U.isDigit c = true) :
    (U.decimal c).isSome ∧ (U.toAscii c).isDigit = true
      ∨ U.decimal c = none ∧ U.toAscii c = '?' := by
  rcases Nat.lt_or_ge c.toNat 128 with hlt | hge
  · have hdigit : c.isDigit = true := by rwa [U.isDigit_ascii hlt] at h
    have := toNat_of_isDigit hdigit
    refine .inl ⟨?_, ?_⟩
    · rw [U.decimal_ascii hlt, if_pos hdigit]
      rfl
    · rwa [toAscii_of_lt (by omega)]
  · have hascii : U.toAscii c = match U.decimal c with
        | some d => Nat.digitChar d
        | none => '?' := by
      rw [Unicode.toAscii, if_neg (show ¬c.toNat < 127 by omega), U.not_isSpace_of_isDigit h]
      rfl
    rcases hdecimal : U.decimal c with _ | d
    · rw [hdecimal] at hascii
      exact .inr ⟨rfl, hascii⟩
    · rw [hdecimal] at hascii
      have hd := U.decimal_lt hdecimal
      refine .inl ⟨rfl, ?_⟩
      rw [hascii]
      interval_cases d <;> decide

/-- `int()` of what `isdigit()` accepts. -/
theorem int_of_isDigits (h : U.isDigits s = true) :
    U.int s = if (∀ c ∈ s, (U.decimal c).isSome) ∧ s.length ≤ intMaxStrDigits then
      some (decimalValue (s.map U.toAscii) : ℤ) else none := by
  rw [Unicode.isDigits, Bool.and_eq_true, Bool.not_eq_true', List.isEmpty_eq_false_iff,
    List.all_eq_true] at h
  obtain ⟨hne, hall⟩ := h
  have hchar : ∀ c ∈ s, (U.toAscii c).isDigit = true ∨ U.toAscii c = '?' := fun c hc ↦
    (toAscii_of_isDigit (hall c hc)).imp And.right And.right
  rw [Unicode.int_of_unsigned hchar]
  by_cases hdecimal : ∀ c ∈ s, (U.decimal c).isSome
  · have hdigits : AllDigits (s.map U.toAscii) := by
      refine ⟨by simpa using hne, fun d hd ↦ ?_⟩
      obtain ⟨c, hc, rfl⟩ := List.mem_map.mp hd
      rcases toAscii_of_isDigit (hall c hc) with ⟨-, hdigit⟩ | ⟨hnone, -⟩
      · exact hdigit
      · exact absurd (hdecimal c hc) (by rw [hnone]; decide)
    rw [intDigits_of_allDigits hdigits, List.length_map]
    by_cases hlen : s.length ≤ intMaxStrDigits
    · rw [if_pos hlen, if_pos ⟨hdecimal, hlen⟩]
      rfl
    · rw [if_neg hlen, if_neg fun hboth ↦ hlen hboth.2]
      rfl
  · rw [if_neg fun hboth ↦ hdecimal hboth.1]
    push Not at hdecimal
    obtain ⟨c, hc, hnone⟩ := hdecimal
    have hquestion := (toAscii_of_isDigit (hall c hc)).resolve_left fun hsome ↦ hnone hsome.1
    have hmem : '?' ∈ s.map U.toAscii := List.mem_map.mpr ⟨c, hc, hquestion.2⟩
    rw [intDigits_of_mem hmem (by decide) (by decide)]
    rfl

end Digits

end Recdyud
