import Mathlib

/-!
# Binary floating point, rounded to nearest

A format keeps `precision` binary digits of a number, in steps no finer than `2 ^ minExponent`, and
takes what reaches `2 ^ maxExponent` for infinite. Numbers are not negative here.

Its numbers cut the line at the midpoints between them, and a midpoint goes to the even neighbour:
`le_round_iff` says so of one number of the format, and `le_round_iff_of_between` and
`lt_round_iff_of_between` of any bound, which the format rounds up to the next of its numbers.

Sums and differences are rounded by a `Rounding`: the format's, on both sides of zero, or none at
all (`Rounding.exact`). What holds for every `Rounding` holds of exact numbers and of floats.
-/

section HalfEven

variable {K : Type} [Field K] [LinearOrder K] [IsStrictOrderedRing K] [FloorRing K]

/-- The nearest integer, and of two the even one. -/
def roundHalfEven (x : K) : ℤ :=
  if Int.fract x < 1 / 2 ∨ (Int.fract x = 1 / 2 ∧ Even ⌊x⌋) then ⌊x⌋ else ⌊x⌋ + 1

variable {x : K} {n : ℤ}

theorem le_roundHalfEven_iff :
    n ≤ roundHalfEven x ↔ (n : K) - 1 / 2 < x ∨ ((n : K) - 1 / 2 = x ∧ Even n) := by
  have hfloor : (⌊x⌋ : K) ≤ x := Int.floor_le x
  have hlt : x < ⌊x⌋ + 1 := Int.lt_floor_add_one x
  have hcast : ∀ {a b : ℤ}, a ≤ b → (a : K) ≤ b := fun h ↦ Int.cast_le.mpr h
  rw [roundHalfEven, Int.fract]
  split_ifs with hdown
  · constructor
    · intro h
      have := hcast h
      exact .inl (by linarith)
    · intro h
      by_contra hn
      have hnext := hcast (Int.add_one_le_iff.mpr (not_le.mp hn))
      push_cast at hnext
      rcases hdown with hdown | ⟨hdown, heven⟩
      · rcases h with h | ⟨h, -⟩ <;> linarith
      · rcases h with h | ⟨h, hneven⟩
        · linarith
        · -- the midpoint, and its even neighbour is below
          have hcastn : (n : K) = (⌊x⌋ + 1 : ℤ) := by
            push_cast
            linarith
          rw [Int.cast_inj.mp hcastn] at hneven
          exact absurd heven (Int.even_add_one.mp hneven)
  · push Not at hdown
    obtain ⟨hhalf, hodd⟩ := hdown
    constructor
    · intro h
      have hn := hcast h
      push_cast at hn
      rcases lt_or_eq_of_le (show (n : K) - 1 / 2 ≤ x by linarith) with hlt' | heq
      · exact .inl hlt'
      · have hcastn : (n : K) = (⌊x⌋ + 1 : ℤ) := by
          push_cast
          linarith
        have hnext := Int.cast_inj.mp hcastn
        refine .inr ⟨heq, ?_⟩
        rw [hnext, Int.even_add_one]
        refine hodd ?_
        rw [hnext] at heq
        push_cast at heq
        linarith
    · intro h
      by_contra hn
      have hnext := hcast (Int.add_one_le_iff.mpr (not_le.mp hn))
      push_cast at hnext
      rcases h with h | ⟨h, -⟩ <;> linarith

theorem le_roundHalfEven (h : (n : K) ≤ x) : n ≤ roundHalfEven x :=
  le_roundHalfEven_iff.mpr (.inl (by linarith))

theorem roundHalfEven_le (h : x ≤ n) : roundHalfEven x ≤ n := by
  refine Int.lt_add_one_iff.mp (not_le.mp fun hle ↦ ?_)
  rcases le_roundHalfEven_iff.mp hle with hlt | ⟨heq, -⟩
  · push_cast at hlt
    linarith
  · push_cast at heq
    linarith

theorem roundHalfEven_mono {y : K} (h : x ≤ y) : roundHalfEven x ≤ roundHalfEven y := by
  rcases le_roundHalfEven_iff.mp (le_refl (roundHalfEven x)) with hlt | ⟨heq, heven⟩
  · exact le_roundHalfEven_iff.mpr (.inl (hlt.trans_le h))
  · rcases h.eq_or_lt with rfl | hlt
    · rfl
    · exact le_roundHalfEven_iff.mpr (.inl (heq.trans_lt hlt))

@[simp] theorem roundHalfEven_intCast (n : ℤ) : roundHalfEven (n : K) = n :=
  le_antisymm (roundHalfEven_le le_rfl) (le_roundHalfEven le_rfl)

end HalfEven

structure BinaryFormat where
  precision : ℕ
  minExponent : ℤ
  maxExponent : ℤ
  precision_pos : 0 < precision

/-- The format of 64 bits. -/
def BinaryFormat.binary64 : BinaryFormat := ⟨53, -1074, 1024, by decide⟩

namespace BinaryFormat

variable (F : BinaryFormat)
variable {K : Type} [Field K] [LinearOrder K] [IsStrictOrderedRing K] [FloorRing K]

/-- The exponent of the steps at `x`. -/
def quantum (x : K) : ℤ := max (Int.log 2 x - (F.precision - 1)) F.minExponent

/-- The nearest number of the format, if its exponent were not bounded above. -/
def round (x : K) : K := roundHalfEven (x / 2 ^ F.quantum x) * 2 ^ F.quantum x

/-- The nearest number of the format, with `none` for infinity. -/
def nearest (x : K) : Option K :=
  if F.round x < 2 ^ F.maxExponent then some (F.round x) else none

variable {F} {x t : K} {m e : ℤ}

@[simp] theorem round_zero : F.round (0 : K) = 0 := by
  have hzero : roundHalfEven (0 : K) = 0 := by exact_mod_cast roundHalfEven_intCast (K := K) 0
  rw [round, zero_div, hzero, Int.cast_zero, zero_mul]

theorem round_nonneg (hx : 0 ≤ x) : 0 ≤ F.round x := by
  have hpos : (0 : K) < 2 ^ F.quantum x := zpow_pos two_pos _
  have hint : 0 ≤ roundHalfEven (x / 2 ^ F.quantum x) := by
    refine le_roundHalfEven ?_
    rw [Int.cast_zero]
    exact div_nonneg hx hpos.le
  exact mul_nonneg (Int.cast_nonneg hint) hpos.le

omit [IsStrictOrderedRing K] in
theorem nearest_eq_none_or (x : K) : F.nearest x = none ∨ F.nearest x = some (F.round x) := by
  rw [nearest]
  split
  · exact .inr rfl
  · exact .inl rfl

theorem lt_quantum_add (x : K) : x < 2 ^ (F.quantum x + F.precision) := by
  have hlog : x < ((2 : ℕ) : K) ^ (Int.log 2 x + 1) := Int.lt_zpow_succ_log_self (by decide) x
  refine hlog.trans_le ?_
  rw [Nat.cast_ofNat]
  refine zpow_le_zpow_right₀ one_le_two ?_
  have := le_max_left (Int.log 2 x - (F.precision - 1)) F.minExponent
  rw [quantum]
  omega

/-- Above the finest steps, all digits are in use. -/
theorem quantum_add_le (hx : 0 < x) (h : F.minExponent < F.quantum x) :
    (2 : K) ^ (F.quantum x + F.precision - 1) ≤ x := by
  have hlog : ((2 : ℕ) : K) ^ Int.log 2 x ≤ x := Int.zpow_log_le_self (by decide) hx
  have hquantum : F.quantum x = Int.log 2 x - (F.precision - 1) :=
    (max_choice _ _).resolve_right fun hmin ↦ h.ne' hmin
  rwa [Nat.cast_ofNat, show Int.log 2 x = F.quantum x + F.precision - 1 by omega] at hlog

omit [IsStrictOrderedRing K] in
theorem zpow_precision (e : ℤ) : (2 : K) ^ (e + F.precision) = 2 ^ F.precision * 2 ^ e := by
  rw [zpow_add₀ two_ne_zero, zpow_natCast, mul_comm]

omit [IsStrictOrderedRing K] in
theorem zpow_precision_pred (e : ℤ) :
    (2 : K) ^ (e + F.precision - 1) = 2 ^ (F.precision - 1) * 2 ^ e := by
  have hpos := F.precision_pos
  rw [show e + (F.precision : ℤ) - 1 = e + ((F.precision - 1 : ℕ) : ℤ) by omega,
    zpow_add₀ two_ne_zero, zpow_natCast, mul_comm]

theorem round_le (x : K) : F.round x ≤ 2 ^ (F.quantum x + F.precision) := by
  have hpos : (0 : K) < 2 ^ F.quantum x := zpow_pos two_pos _
  have hscaled : x / 2 ^ F.quantum x ≤ ((2 ^ F.precision : ℤ) : K) := by
    rw [div_le_iff₀ hpos]
    push_cast
    rw [← zpow_precision]
    exact (lt_quantum_add x).le
  have hround := roundHalfEven_le hscaled
  rw [round, zpow_precision]
  refine mul_le_mul_of_nonneg_right ?_ hpos.le
  exact_mod_cast hround

theorem le_round (hx : 0 < x) (h : F.minExponent < F.quantum x) :
    (2 : K) ^ (F.quantum x + F.precision - 1) ≤ F.round x := by
  have hpos : (0 : K) < 2 ^ F.quantum x := zpow_pos two_pos _
  have hscaled : ((2 ^ (F.precision - 1) : ℤ) : K) ≤ x / 2 ^ F.quantum x := by
    rw [le_div_iff₀ hpos]
    push_cast
    rw [← zpow_precision_pred]
    exact quantum_add_le hx h
  have hround := le_roundHalfEven hscaled
  rw [round, zpow_precision_pred]
  refine mul_le_mul_of_nonneg_right ?_ hpos.le
  exact_mod_cast hround

theorem quantum_mono {y : K} (hx : 0 < x) (h : x ≤ y) : F.quantum x ≤ F.quantum y :=
  max_le_max_right _ (sub_le_sub_right (Int.log_mono_right hx h) _)

theorem round_mono {y : K} (hx : 0 ≤ x) (h : x ≤ y) : F.round x ≤ F.round y := by
  rcases hx.eq_or_lt with rfl | hx
  · rw [round_zero]
    exact round_nonneg h
  have hpos : (0 : K) < 2 ^ F.quantum y := zpow_pos two_pos _
  rcases (quantum_mono (F := F) hx h).eq_or_lt with heq | hlt
  · rw [round, round, heq]
    exact mul_le_mul_of_nonneg_right
      (Int.cast_le.mpr (roundHalfEven_mono (div_le_div_of_nonneg_right h hpos.le))) hpos.le
  · -- the larger number has coarser steps
    calc F.round x ≤ 2 ^ (F.quantum x + F.precision) := round_le x
      _ ≤ 2 ^ (F.quantum y + F.precision - 1) := zpow_le_zpow_right₀ one_le_two (by omega)
      _ ≤ F.round y := le_round (hx.trans_le h) ((le_max_right _ _).trans_lt hlt)

/-- The smallest step is a number of the format. -/
theorem round_pos (h : (2 : K) ^ F.minExponent ≤ x) : 0 < F.round x := by
  have hpos : (0 : K) < 2 ^ F.minExponent := zpow_pos two_pos _
  have hquantum : F.quantum ((2 : K) ^ F.minExponent) = F.minExponent := by
    have hlog : Int.log 2 ((2 : K) ^ F.minExponent) = F.minExponent := by
      exact_mod_cast Int.log_zpow (R := K) one_lt_two F.minExponent
    have := F.precision_pos
    rw [quantum, hlog, max_eq_right (by omega)]
  have hround : F.round ((2 : K) ^ F.minExponent) = 2 ^ F.minExponent := by
    have hone : roundHalfEven (1 : K) = 1 := by exact_mod_cast roundHalfEven_intCast (K := K) 1
    rw [round, hquantum, div_self hpos.ne', hone, Int.cast_one, one_mul]
  calc (0 : K) < 2 ^ F.minExponent := hpos
    _ = F.round (2 ^ F.minExponent) := hround.symm
    _ ≤ F.round x := round_mono hpos.le h

section Midpoint

variable (hx : 0 ≤ x) (hm : 2 ^ (F.precision - 1) < m) (hm' : m ≤ 2 ^ F.precision)
variable (he : F.minExponent ≤ e)

include hm in
/-- Where the steps are finer than `2 ^ e`, everything is below `m * 2 ^ e`. -/
theorem zpow_le_of_quantum_lt (h : F.quantum x < e) :
    (2 : K) ^ (F.quantum x + F.precision) ≤ (m - 1) * 2 ^ e := by
  have hpos : (0 : K) < 2 ^ e := zpow_pos two_pos _
  have hpred : ((2 ^ (F.precision - 1) : ℤ) : K) ≤ ((m - 1 : ℤ) : K) :=
    Int.cast_le.mpr (Int.le_sub_one_iff.mpr hm)
  push_cast at hpred
  calc (2 : K) ^ (F.quantum x + F.precision)
      ≤ 2 ^ (e + F.precision - 1) := zpow_le_zpow_right₀ one_le_two (by omega)
    _ = 2 ^ (F.precision - 1) * 2 ^ e := zpow_precision_pred e
    _ ≤ (m - 1) * 2 ^ e := mul_le_mul_of_nonneg_right hpred hpos.le

include hm' in
/-- Where the steps are coarser, everything is above it. -/
theorem le_zpow_of_lt_quantum (h : e < F.quantum x) :
    (m : K) * 2 ^ e ≤ 2 ^ (F.quantum x + F.precision - 1) := by
  have hpos : (0 : K) < 2 ^ e := zpow_pos two_pos _
  have hcast : (m : K) ≤ ((2 ^ F.precision : ℤ) : K) := Int.cast_le.mpr hm'
  push_cast at hcast
  calc (m : K) * 2 ^ e ≤ 2 ^ F.precision * 2 ^ e := mul_le_mul_of_nonneg_right hcast hpos.le
    _ = 2 ^ (e + F.precision) := (zpow_precision e).symm
    _ ≤ 2 ^ (F.quantum x + F.precision - 1) := zpow_le_zpow_right₀ one_le_two (by omega)

include hm in
theorem one_lt_cast : (1 : K) < m := by
  have hpow : (1 : ℤ) ≤ 2 ^ (F.precision - 1) := one_le_pow₀ one_le_two
  exact_mod_cast hpow.trans_lt hm

include hx hm hm' he

/-- **Rounding** reaches a number of the format exactly from the midpoint below it on; the midpoint
itself counts if the number is even. -/
theorem le_round_iff :
    (m : K) * 2 ^ e ≤ F.round x ↔
      ((m : K) - 1 / 2) * 2 ^ e < x ∨ (((m : K) - 1 / 2) * 2 ^ e = x ∧ Even m) := by
  have hpos : (0 : K) < 2 ^ e := zpow_pos two_pos _
  have hone := one_lt_cast (K := K) hm
  rcases hx.eq_or_lt with rfl | hx
  · rw [round_zero]
    constructor
    · intro h
      nlinarith
    · rintro (h | ⟨h, -⟩) <;> nlinarith
  rcases lt_trichotomy (F.quantum x) e with hlt | heq | hgt
  · have hbound := zpow_le_of_quantum_lt (x := x) hm hlt
    have hround := round_le (F := F) x
    have hself := lt_quantum_add (F := F) x
    constructor
    · intro h
      nlinarith
    · rintro (h | ⟨h, -⟩) <;> nlinarith
  · rw [round, heq, mul_le_mul_iff_of_pos_right hpos, Int.cast_le, le_roundHalfEven_iff,
      lt_div_iff₀ hpos, eq_div_iff hpos.ne']
  · have hbound := le_zpow_of_lt_quantum (x := x) hm' hgt
    have hround := le_round hx (he.trans_lt hgt)
    have hself := quantum_add_le hx (he.trans_lt hgt)
    constructor
    · intro _
      exact .inl (by nlinarith)
    · intro _
      exact hbound.trans hround

/-- There is nothing in between. -/
theorem round_le_pred (h : F.round x < m * 2 ^ e) : F.round x ≤ (m - 1) * 2 ^ e := by
  have hpos : (0 : K) < 2 ^ e := zpow_pos two_pos _
  rcases hx.eq_or_lt with rfl | hx
  · rw [round_zero]
    exact mul_nonneg (sub_nonneg.mpr (one_lt_cast hm).le) hpos.le
  rcases lt_trichotomy (F.quantum x) e with hlt | heq | hgt
  · exact (round_le x).trans (zpow_le_of_quantum_lt hm hlt)
  · rw [round, heq] at h ⊢
    have hint : roundHalfEven (x / 2 ^ e) < m := Int.cast_lt.mp (lt_of_mul_lt_mul_right h hpos.le)
    refine mul_le_mul_of_nonneg_right ?_ hpos.le
    exact_mod_cast Int.le_sub_one_iff.mpr hint
  · have hround := le_round hx (he.trans_lt hgt)
    exact absurd h (not_lt.mpr ((le_zpow_of_lt_quantum hm' hgt).trans hround))

theorem le_round_iff_of_between (ht : (m - 1) * 2 ^ e < t) (ht' : t ≤ m * 2 ^ e) :
    t ≤ F.round x ↔
      ((m : K) - 1 / 2) * 2 ^ e < x ∨ (((m : K) - 1 / 2) * 2 ^ e = x ∧ Even m) := by
  rw [← le_round_iff hx hm hm' he]
  refine ⟨fun h ↦ ?_, ht'.trans⟩
  by_contra hlt
  exact absurd (h.trans (round_le_pred hx hm hm' he (not_le.mp hlt))) (not_le.mpr ht)

theorem lt_round_iff_of_between (ht : (m - 1) * 2 ^ e ≤ t) (ht' : t < m * 2 ^ e) :
    t < F.round x ↔
      ((m : K) - 1 / 2) * 2 ^ e < x ∨ (((m : K) - 1 / 2) * 2 ^ e = x ∧ Even m) := by
  rw [← le_round_iff hx hm hm' he]
  refine ⟨fun h ↦ ?_, ht'.trans_le⟩
  by_contra hlt
  exact absurd (h.trans_le (round_le_pred hx hm hm' he (not_le.mp hlt))) (not_lt.mpr ht)

end Midpoint

/-- A natural number of no more digits than the format has is one of its numbers. -/
theorem round_natCast {n : ℕ} (h : n < 2 ^ F.precision) (hmin : F.minExponent ≤ 0) :
    F.round (n : K) = n := by
  have hquantum : F.quantum (n : K) ≤ 0 := by
    refine max_le ?_ hmin
    rw [Int.log_natCast]
    rcases Nat.eq_zero_or_pos n with rfl | hpos
    · have := F.precision_pos
      simp
      omega
    · have hlog := Nat.log_lt_of_lt_pow hpos.ne' h
      omega
  have hscaled : (n : K) / 2 ^ F.quantum (n : K)
      = ((n * 2 ^ (-F.quantum (n : K)).toNat : ℤ) : K) := by
    push_cast
    rw [div_eq_mul_inv, ← zpow_neg, ← zpow_natCast, Int.toNat_of_nonneg (by omega)]
  rw [round, hscaled, roundHalfEven_intCast, ← hscaled]
  exact div_mul_cancel₀ _ (zpow_ne_zero _ two_ne_zero)

/-- What is rounded to infinity. -/
theorem nearest_eq_none_iff (hx : 0 ≤ x) (h : F.minExponent + F.precision ≤ F.maxExponent) :
    F.nearest x = none ↔ (2 ^ F.precision - 1 / 2) * 2 ^ (F.maxExponent - F.precision) ≤ x := by
  have hpos := F.precision_pos
  have hlow : (2 : ℤ) ^ (F.precision - 1) < 2 ^ F.precision :=
    pow_lt_pow_right₀ one_lt_two (by omega)
  have hround := le_round_iff (F := F) hx hlow le_rfl
    (show F.minExponent ≤ F.maxExponent - F.precision by omega)
  have heven : Even ((2 : ℤ) ^ F.precision) := (even_two).pow_of_ne_zero hpos.ne'
  push_cast at hround
  rw [← zpow_precision, sub_add_cancel] at hround
  rw [nearest, ite_eq_right_iff, le_iff_lt_or_eq]
  simp only [reduceCtorEq, imp_false, not_lt, hround, heven, and_true]

/-- The nearest number of the format, on both sides of zero. -/
def roundSigned (F : BinaryFormat) (x : K) : K := if 0 ≤ x then F.round x else -F.round (-x)

theorem roundSigned_mono : Monotone (F.roundSigned : K → K) := by
  intro x y h
  rw [roundSigned, roundSigned]
  split_ifs with hx hy hy
  · exact round_mono hx h
  · exact absurd (hx.trans h) hy
  · exact (neg_nonpos.mpr (round_nonneg (neg_nonneg.mpr (not_le.mp hx).le))).trans (round_nonneg hy)
  · exact neg_le_neg (round_mono (neg_nonneg.mpr (not_le.mp hy).le) (neg_le_neg h))

end BinaryFormat

/-! ## Rounded sums and differences -/

/-- How results are rounded, and which numbers there are. Two of these are told apart by their
difference. -/
structure Rounding (K : Type) [Field K] [LinearOrder K] where
  round : K → K
  mono : Monotone round
  IsNumber : K → Prop
  round_sub_ne_zero : ∀ {a b}, IsNumber a → IsNumber b → a ≠ b → round (a - b) ≠ 0

namespace Rounding

variable {K : Type} [Field K] [LinearOrder K] [IsStrictOrderedRing K]

section Operations

variable (R : Rounding K)

def add (a b : K) : K := R.round (a + b)

def sub (a b : K) : K := R.round (a - b)

variable {a b : K}

theorem add_mono (h : a ≤ b) (c : K) : R.add a c ≤ R.add b c := R.mono (add_le_add_left h c)

theorem sub_mono (h : a ≤ b) (c : K) : R.sub a c ≤ R.sub b c := R.mono (sub_le_sub_right h c)

end Operations

/-- Nothing is rounded. -/
def exact : Rounding K where
  round := id
  mono := monotone_id
  IsNumber _ := True
  round_sub_ne_zero _ _ := sub_ne_zero.mpr

end Rounding

/-- The rounding of a format, for the multiples of its smallest step. -/
def BinaryFormat.rounding (F : BinaryFormat) {K : Type} [Field K] [LinearOrder K]
    [IsStrictOrderedRing K] [FloorRing K] : Rounding K where
  round := F.roundSigned
  mono := F.roundSigned_mono
  IsNumber a := ∃ n : ℤ, a = n * 2 ^ F.minExponent
  round_sub_ne_zero := by
    rintro _ _ ⟨m, rfl⟩ ⟨n, rfl⟩ hne
    have hpos : (0 : K) < 2 ^ F.minExponent := zpow_pos two_pos _
    have hround {k : ℤ} (hk : 0 < k) : 0 < F.round ((k : K) * 2 ^ F.minExponent) :=
      BinaryFormat.round_pos (le_mul_of_one_le_left hpos.le (by exact_mod_cast hk))
    rw [← sub_mul, ← Int.cast_sub, BinaryFormat.roundSigned]
    rcases lt_trichotomy m n with hlt | rfl | hgt
    · have hneg : ¬(0 : K) ≤ ((m - n : ℤ) : K) * 2 ^ F.minExponent := by
        rw [not_le]
        exact mul_neg_of_neg_of_pos (by exact_mod_cast sub_neg.mpr hlt) hpos
      rw [if_neg hneg, ← neg_mul, ← Int.cast_neg, neg_sub]
      exact (neg_neg_of_pos (hround (sub_pos.mpr hlt))).ne
    · exact absurd rfl hne
    · have hnonneg : (0 : K) ≤ ((m - n : ℤ) : K) * 2 ^ F.minExponent :=
        mul_nonneg (by exact_mod_cast (sub_pos.mpr hgt).le) hpos.le
      rw [if_pos hnonneg]
      exact (hround (sub_pos.mpr hgt)).ne'

/-- What has no finer steps is one of the multiples. -/
theorem BinaryFormat.isNumber_rounding {F : BinaryFormat} {K : Type} [Field K] [LinearOrder K]
    [IsStrictOrderedRing K] [FloorRing K] {e : ℤ} (he : F.minExponent ≤ e) (m : ℤ) :
    F.rounding.IsNumber ((m : K) * 2 ^ e) := by
  refine ⟨m * 2 ^ (e - F.minExponent).toNat, ?_⟩
  have hsplit : (2 : K) ^ e = 2 ^ (e - F.minExponent).toNat * 2 ^ F.minExponent := by
    rw [← zpow_natCast, Int.toNat_of_nonneg (by omega), ← zpow_add₀ two_ne_zero, sub_add_cancel]
  rw [hsplit]
  push_cast
  ring
