import Recdyud.Channels

/-!
# The numbers that are accepted as frequencies

`parse_channel` compares a frequency after it was rounded to a float, scaled and rounded to an
integer. Each of the steps moves a bound by half a step of what it rounds to, so what is accepted
and what overflows are intervals of the number that was written, with the bounds below.
-/

namespace Recdyud

open BinaryFormat (binary64)

namespace FrequencyUnit

/-- From this number on, `round()` gets to see infinity. -/
def overflowAt : FrequencyUnit → ℚ
  | .khz => (2 ^ 54 - 1) * 2 ^ 970
  | .mhz => 9223372036854775 * 2 ^ 961

/-- The numbers whose frequency is between 90000 and 770000 kHz when it is rounded. -/
def InRange : FrequencyUnit → ℚ → Prop
  | .khz, x => 89999 + 1 / 2 - 1 / 2 ^ 37 ≤ x ∧ x ≤ 770000 + 1 / 2 + 1 / 2 ^ 34
  | .mhz, x => 12666303583235341 / 2 ^ 47 < x ∧ x < 13545992050293343 / 2 ^ 44

end FrequencyUnit

section Bounds

variable {x y : ℚ}

/-- Both bounds are even, so the midpoints beyond them are rounded to them. -/
theorem roundHalfEven_within_iff :
    (minFrequencyKhz ≤ roundHalfEven y ∧ roundHalfEven y ≤ maxFrequencyKhz)
      ↔ 89999 + 1 / 2 ≤ y ∧ y ≤ 770000 + 1 / 2 := by
  have hmin : Even minFrequencyKhz := by decide
  have hmax : ¬Even (maxFrequencyKhz + 1) := by decide
  have hmin' : ((minFrequencyKhz : ℤ) : ℚ) - 1 / 2 = 89999 + 1 / 2 := by norm_num [minFrequencyKhz]
  have hmax' : ((maxFrequencyKhz + 1 : ℤ) : ℚ) - 1 / 2 = 770000 + 1 / 2 := by
    norm_num [maxFrequencyKhz]
  refine and_congr ?_ ?_
  · rw [le_roundHalfEven_iff, hmin', le_iff_lt_or_eq]
    simp only [hmin, and_true]
  · rw [← Int.lt_add_one_iff, ← not_le, le_roundHalfEven_iff, hmax']
    simp only [hmax, and_false, or_false, not_lt]

variable (hx : 0 ≤ x)
include hx

theorem minKhz_le_round_iff :
    89999 + 1 / 2 ≤ binary64.round x ↔ 89999 + 1 / 2 - 1 / 2 ^ 37 ≤ x := by
  have hround := BinaryFormat.le_round_iff (F := binary64) (m := 179999 * 2 ^ 35) (e := -36) hx
    (by decide) (by decide) (by decide)
  have heven : Even (179999 * 2 ^ 35 : ℤ) := by decide
  norm_num [heven] at hround ⊢
  rw [hround, le_iff_lt_or_eq]

theorem maxKhz_lt_round_iff :
    770000 + 1 / 2 < binary64.round x ↔ 770000 + 1 / 2 + 1 / 2 ^ 34 < x := by
  have hround := BinaryFormat.lt_round_iff_of_between (F := binary64) (t := 770000 + 1 / 2)
    (m := 1540001 * 2 ^ 32 + 1) (e := -33) hx (by decide) (by decide) (by decide)
    (by norm_num) (by norm_num)
  have hodd : ¬Even (1540001 * 2 ^ 32 + 1 : ℤ) := by decide
  rw [hround]
  norm_num [hodd]

theorem minMhz_le_round_iff :
    89999 + 1 / 2 - 1 / 2 ^ 37 ≤ binary64.round x * 1000 ↔ 12666303583235341 / 2 ^ 47 < x := by
  have hround := BinaryFormat.le_round_iff_of_between (F := binary64)
    (t := (89999 + 1 / 2 - 1 / 2 ^ 37) / 1000) (m := 6333151791617671) (e := -46) hx
    (by decide) (by decide) (by decide) (by norm_num) (by norm_num)
  have hodd : ¬Even (6333151791617671 : ℤ) := by decide
  rw [← div_le_iff₀ (by norm_num), hround]
  norm_num [hodd]

theorem maxMhz_lt_round_iff :
    770000 + 1 / 2 + 1 / 2 ^ 34 < binary64.round x * 1000 ↔ 13545992050293343 / 2 ^ 44 ≤ x := by
  have hround := BinaryFormat.lt_round_iff_of_between (F := binary64)
    (t := (770000 + 1 / 2 + 1 / 2 ^ 34) / 1000) (m := 6772996025146672) (e := -43) hx
    (by decide) (by decide) (by decide) (by norm_num) (by norm_num)
  have heven : Even (6772996025146672 : ℤ) := by decide
  rw [← div_lt_iff₀ (by norm_num), hround, le_iff_lt_or_eq]
  norm_num [heven]

theorem nearest_eq_none_iff_overflowAt :
    binary64.nearest x = none ↔ FrequencyUnit.overflowAt .khz ≤ x := by
  have hnone := BinaryFormat.nearest_eq_none_iff (F := binary64) hx (by decide)
  have hbound : ((2 : ℚ) ^ binary64.precision - 1 / 2)
      * 2 ^ (binary64.maxExponent - binary64.precision) = FrequencyUnit.overflowAt .khz := by
    have hpow : (2 : ℚ) ^ (binary64.maxExponent - binary64.precision) = 2 * 2 ^ 970 :=
      zpow_add₀ two_ne_zero 1 970
    rw [hpow, FrequencyUnit.overflowAt]
    generalize (2 : ℚ) ^ 970 = u
    norm_num [binary64]
    ring
  rw [hnone, hbound]

theorem overflowMhz_le_round_iff :
    FrequencyUnit.overflowAt .khz ≤ binary64.round x * 1000
      ↔ FrequencyUnit.overflowAt .mhz ≤ x := by
  have hone : (1 : ℚ) ≤ 2 ^ 961 := one_le_pow₀ one_le_two
  have hkhz : FrequencyUnit.overflowAt .khz = (2 ^ 54 - 1) * (2 ^ 9 * 2 ^ 961) := by
    rw [← pow_add]
    rfl
  have hpow : (2 : ℚ) ^ (962 : ℤ) = 2 * 2 ^ 961 := zpow_add₀ two_ne_zero 1 961
  have hround := BinaryFormat.le_round_iff_of_between (F := binary64)
    (t := FrequencyUnit.overflowAt .khz / 1000) (m := 4611686018427388) (e := 962) hx
    (by decide) (by decide) (by decide)
  have heven : Even (4611686018427388 : ℤ) := by decide
  rw [← div_le_iff₀ (by norm_num)]
  rw [hkhz, hpow] at hround
  rw [hkhz, FrequencyUnit.overflowAt]
  generalize (2 : ℚ) ^ 961 = u at hone hround ⊢
  push_cast at hround
  rw [hround (by linarith) (by linarith), le_iff_lt_or_eq,
    show ((4611686018427388 : ℚ) - 1 / 2) * (2 * u) = 9223372036854775 * u by ring]
  simp only [heven, and_true]

end Bounds

namespace FrequencyUnit

variable {x : ℚ}

theorem overflowAt_mhz_lt : overflowAt .mhz < overflowAt .khz := by
  have hone : (1 : ℚ) ≤ 2 ^ 961 := one_le_pow₀ one_le_two
  have hpow : (2 : ℚ) ^ 970 = 2 ^ 9 * 2 ^ 961 := pow_add 2 9 961
  rw [overflowAt, overflowAt, hpow]
  generalize (2 : ℚ) ^ 961 = u at hone
  linarith

/-- What is accepted does not overflow. -/
theorem InRange.lt_overflowAt {unit : FrequencyUnit} (h : unit.InRange x) :
    x < unit.overflowAt := by
  have hone : (1 : ℚ) ≤ 2 ^ 961 := one_le_pow₀ one_le_two
  have hsmall : (10 ^ 6 : ℚ) < overflowAt .mhz := by
    rw [overflowAt]
    generalize (2 : ℚ) ^ 961 = u at hone
    linarith
  cases unit with
  | khz =>
    refine (h.2.trans_lt ?_).trans overflowAt_mhz_lt
    exact lt_trans (by norm_num) hsmall
  | mhz => exact h.2.trans (lt_trans (by norm_num) hsmall)

theorem nearest_of_lt (hx : 0 ≤ x) (h : x < overflowAt .khz) :
    binary64.nearest x = some (binary64.round x) := by
  refine (BinaryFormat.nearest_eq_none_or x).resolve_left fun hnone ↦ ?_
  exact absurd ((nearest_eq_none_iff_overflowAt hx).mp hnone) (not_le.mpr h)

/-- The number that is rounded to an integer. -/
def scaled (unit : FrequencyUnit) (x : ℚ) : ℚ :=
  match unit with
  | .khz => binary64.round x
  | .mhz => binary64.round (binary64.round x * 1000)

/-- **Overflow** is from a number on, and below it the frequency is an integer. -/
theorem toKhz_eq (unit : FrequencyUnit) (hx : 0 ≤ x) :
    unit.toKhz x = if unit.overflowAt ≤ x then .error .overflowError
      else .ok (roundHalfEven (unit.scaled x)) := by
  have hscaled : 0 ≤ binary64.round x * 1000 :=
    mul_nonneg (BinaryFormat.round_nonneg hx) (by norm_num)
  rcases lt_or_ge x (overflowAt .khz) with hlt | hge
  · have hnearest := nearest_of_lt hx hlt
    cases unit with
    | khz =>
      rw [toKhz, hnearest, if_neg (not_le.mpr hlt)]
      rfl
    | mhz =>
      rw [toKhz, hnearest]
      dsimp only [Option.bind_some]
      split
      · rename_i hover
        rw [(nearest_eq_none_iff_overflowAt hscaled).mpr ((overflowMhz_le_round_iff hx).mpr hover)]
        rfl
      · rename_i hnot
        rw [nearest_of_lt hscaled (not_le.mp fun h ↦ hnot ((overflowMhz_le_round_iff hx).mp h))]
        rfl
  · have hnone := (nearest_eq_none_iff_overflowAt hx).mpr hge
    cases unit with
    | khz =>
      rw [toKhz, hnone, if_pos hge]
      rfl
    | mhz =>
      rw [toKhz, hnone, if_pos (overflowAt_mhz_lt.le.trans hge)]
      rfl

theorem scaled_within_iff (unit : FrequencyUnit) (hx : 0 ≤ x) :
    (89999 + 1 / 2 ≤ unit.scaled x ∧ unit.scaled x ≤ 770000 + 1 / 2) ↔ unit.InRange x := by
  cases unit with
  | khz =>
    refine and_congr (minKhz_le_round_iff hx) ?_
    rw [← not_lt, scaled, maxKhz_lt_round_iff hx, not_lt]
  | mhz =>
    have hscaled : 0 ≤ binary64.round x * 1000 :=
      mul_nonneg (BinaryFormat.round_nonneg hx) (by norm_num)
    refine and_congr ?_ ?_
    · rw [scaled, minKhz_le_round_iff hscaled, minMhz_le_round_iff hx]
    · rw [← not_lt, scaled, maxKhz_lt_round_iff hscaled, maxMhz_lt_round_iff hx, not_le]

/-- **What is accepted** is an interval of the numbers that were written. -/
theorem toKhz_within_iff (unit : FrequencyUnit) (hx : 0 ≤ x) :
    (∃ khz, unit.toKhz x = .ok khz ∧ minFrequencyKhz ≤ khz ∧ khz ≤ maxFrequencyKhz)
      ↔ unit.InRange x := by
  rw [← scaled_within_iff unit hx, ← roundHalfEven_within_iff, toKhz_eq unit hx]
  constructor
  · rintro ⟨khz, hkhz, hwithin⟩
    split at hkhz
    · cases hkhz
    · obtain rfl := Except.ok.inj hkhz
      exact hwithin
  · intro hwithin
    have hrange := (scaled_within_iff unit hx).mp (roundHalfEven_within_iff.mp hwithin)
    exact ⟨_, if_neg (not_le.mpr hrange.lt_overflowAt), hwithin⟩

end FrequencyUnit

end Recdyud
