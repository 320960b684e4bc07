import Recdyud.Channels.Names

/-!
# What is reported as an invalid channel

A channel list from outside is read under a handler for `InvalidChannel` alone. What else comes out
of the two functions is characterised here: a frequency so large that `round()` sees infinity,
digits that `isdigit()` accepts and `int()` does not, and a side of a range that `int()` refuses
(`reported_iff`). A list is read in order, so only what stands behind channels counts.
-/

namespace Recdyud

/-- The result is as it should be, or `InvalidChannel` is raised. -/
def Reported {α : Type} (P : α → Prop) : Except ChannelRaised α → Prop
  | .ok a => P a
  | .error (.invalidChannel _) => True
  | .error _ => False

/-- Digits that `int()` refuses. -/
def Unreadable (U : Unicode) (t : Str) : Prop :=
  U.isDigits t = true ∧ ((∃ c ∈ t, U.decimal c = none) ∨ intMaxStrDigits < t.length)

/-- The text names a channel. -/
inductive ChannelAccepted (U : Unicode) (spec : Str) : Prop where
  | frequency {m : FrequencyText} (h : freqMatch U (U.strip spec) = some m)
    (hrange : m.unit.InRange (m.value U))
  | member {cable : Bool} {t : Str} {ch : ℤ} (h : freqMatch U (U.strip spec) = none)
    (htext : channelText U spec = cablePrefix cable ++ t) (hdigits : U.isDigits t = true)
    (hint : U.int t = some ch) (hmem : InMembers cable ch)

/-- The text raises something else than `InvalidChannel`. -/
inductive ChannelEscapes (U : Unicode) (spec : Str) : Prop where
  | overflow {m : FrequencyText} (h : freqMatch U (U.strip spec) = some m)
    (hover : m.unit.overflowAt ≤ m.value U)
  | digits {cable : Bool} {t : Str} (h : freqMatch U (U.strip spec) = none)
    (htext : channelText U spec = cablePrefix cable ++ t) (ht : Unreadable U t)

/-- The number at a side of a range. -/
def sideNumber (U : Unicode) (side : Str) : Option ℤ :=
  U.int (removePrefix ['C'] (rangeSide U side))

/-- There is a `C` at the low side. -/
def rangeCable (U : Unicode) (part : Str) : Bool := ['C'] <+: rangeSide U (partition '-' part).1

/-- The part of a list stands for channels. -/
inductive PartAccepted (U : Unicode) (part : Str) : Prop where
  | single (hminus : '-' ∉ part) (h : ChannelAccepted U part)
  | range {lo hi : ℤ} (hminus : '-' ∈ part) (hlo : sideNumber U (partition '-' part).1 = some lo)
    (hhi : sideNumber U (partition '-' part).2 = some hi) (hle : lo ≤ hi)
    (hmem : ∀ n, lo ≤ n → n ≤ hi → InMembers (rangeCable U part) n)

/-- The part raises something else than `InvalidChannel`. -/
inductive PartEscapes (U : Unicode) (part : Str) : Prop where
  | single (hminus : '-' ∉ part) (h : ChannelEscapes U part)
  | range (hminus : '-' ∈ part)
    (h : sideNumber U (partition '-' part).1 = none ∨ sideNumber U (partition '-' part).2 = none)

section Parse

variable {U : Unicode} {spec t : Str} {cable : Bool} {ch : ℤ} {m : FrequencyText}

theorem value_nonneg (U : Unicode) (m : FrequencyText) : 0 ≤ m.value U := by
  rw [FrequencyText.value]
  positivity

theorem raisingInt_of_some (h : U.int t = some ch) : raisingInt U t = .ok ch := by
  rw [raisingInt, h]

theorem raisingInt_of_none (h : U.int t = none) : raisingInt U t = .error .valueError := by
  rw [raisingInt, h]

/-- `int()` of digits. -/
theorem int_eq_none_iff (h : U.isDigits t = true) : U.int t = none ↔ Unreadable U t := by
  rw [int_of_isDigits h, ite_eq_right_iff, Unreadable]
  simp only [reduceCtorEq, imp_false, not_and_or, not_forall, Option.not_isSome_iff_eq_none, not_le,
    exists_prop, h, true_and]

/-- What a handler for `InvalidChannel` catches. -/
theorem reported_error_iff {α : Type} {P : α → Prop} {e : ChannelRaised} :
    Reported P (.error e) ↔ ∃ message, e = .invalidChannel message := by
  cases e with
  | invalidChannel message => exact ⟨fun _ ↦ ⟨message, rfl⟩, fun _ ↦ trivial⟩
  | valueError => exact ⟨False.elim, nofun⟩
  | overflowError => exact ⟨False.elim, nofun⟩

/-- Three outcomes that exclude one another: `A` returns, `B` escapes, and the third is reported. -/
theorem reported_iff_of_cases {α : Type} {P : α → Prop} {r : Except ChannelRaised α} {A B : Prop}
    (hA : A → ∃ a, r = .ok a) (hB : B → ∃ e, r = .error e ∧ ∀ message, e ≠ .invalidChannel message)
    (hP : ∀ a, r = .ok a → P a) (h : A ∨ B ∨ ∃ message, r = .error (.invalidChannel message)) :
    (Reported P r ↔ ¬B) ∧ ((∃ a, r = .ok a) ↔ A) := by
  have hreported : Reported P r → ¬B := by
    intro hr hb
    obtain ⟨e, rfl, he⟩ := hB hb
    obtain ⟨message, hmessage⟩ := reported_error_iff.mp hr
    exact he message hmessage
  refine ⟨⟨hreported, fun hb ↦ ?_⟩, fun ⟨a, ha⟩ ↦ ?_, hA⟩
  · rcases h with ha | hb' | ⟨message, rfl⟩
    · obtain ⟨a, rfl⟩ := hA ha
      exact hP a rfl
    · exact absurd hb' hb
    · exact trivial
  · rcases h with hA' | hb | ⟨message, hr⟩
    · exact hA'
    · obtain ⟨e, he, -⟩ := hB hb
      rw [ha] at he
      cases he
    · rw [ha] at hr
      cases hr

theorem ChannelAccepted.ok (h : ChannelAccepted U spec) : ∃ c, parseChannel U spec = .ok c := by
  cases h with
  | frequency h hrange =>
    obtain ⟨khz, hkhz, hwithin⟩ :=
      (FrequencyUnit.toKhz_within_iff _ (value_nonneg U _)).mpr hrange
    rw [parseChannel_of_match h, frequencyChannel_of_ok hkhz, if_pos hwithin]
    exact ⟨_, rfl⟩
  | member h htext hdigits hint hmem =>
    obtain ⟨f, -, hread⟩ := memberChannel_of_mem hmem
    rw [parseChannel_of_digits h htext hdigits, raisingInt_of_some hint]
    exact ⟨_, hread U spec⟩

theorem ChannelEscapes.raises (h : ChannelEscapes U spec) :
    ∃ e, parseChannel U spec = .error e ∧ ∀ message, e ≠ .invalidChannel message := by
  cases h with
  | @overflow m h hover =>
    have hkhz := FrequencyUnit.toKhz_eq m.unit (value_nonneg U m)
    rw [if_pos hover] at hkhz
    exact ⟨_, (parseChannel_of_match h).trans (frequencyChannel_of_error hkhz), nofun⟩
  | digits h htext ht =>
    refine ⟨.valueError, ?_, nofun⟩
    rw [parseChannel_of_digits h htext ht.1, raisingInt_of_none ((int_eq_none_iff ht.1).mpr ht)]
    rfl

theorem parseChannel_outcomes (U : Unicode) (spec : Str) :
    ChannelAccepted U spec ∨ ChannelEscapes U spec ∨
      ∃ message, parseChannel U spec = .error (.invalidChannel message) := by
  rcases parseChannel_cases U spec with
    ⟨m, hmatch, hparse⟩ | ⟨hnone, cable, t, htext, hdigits, hparse⟩ | ⟨-, -, hparse⟩
  · by_cases hover : m.unit.overflowAt ≤ m.value U
    · exact .inr (.inl (.overflow hmatch hover))
    by_cases hrange : m.unit.InRange (m.value U)
    · exact .inl (.frequency hmatch hrange)
    have hkhz := FrequencyUnit.toKhz_eq m.unit (value_nonneg U m)
    rw [if_neg hover] at hkhz
    rw [frequencyChannel_of_ok hkhz, if_neg] at hparse
    · exact .inr (.inr ⟨_, hparse⟩)
    · intro hwithin
      exact hrange ((FrequencyUnit.toKhz_within_iff _ (value_nonneg U m)).mp ⟨_, hkhz, hwithin⟩)
  · rcases hint : U.int t with _ | ch
    · exact .inr (.inl (.digits hnone htext ((int_eq_none_iff hdigits).mp hint)))
    by_cases hmem : InMembers cable ch
    · exact .inl (.member hnone htext hdigits hint hmem)
    rw [raisingInt_of_some hint] at hparse
    exact .inr (.inr ⟨_, hparse.trans (memberChannel_of_not_mem hmem)⟩)
  · exact .inr (.inr ⟨_, hparse⟩)

theorem parseChannel_reported_iff (U : Unicode) (spec : Str) :
    (Reported Channel.Within (parseChannel U spec) ↔ ¬ChannelEscapes U spec) ∧
      ((∃ c, parseChannel U spec = .ok c) ↔ ChannelAccepted U spec) :=
  reported_iff_of_cases ChannelAccepted.ok ChannelEscapes.raises
    (fun _ h ↦ (named_of_parseChannel h).within) (parseChannel_outcomes U spec)

end Parse

/-! ## Parts of a list -/

section Parts

variable {U : Unicode} {part s : Str} {lo hi n : ℤ}

theorem intDigits_lt {d : ℕ} (h : intDigits s = some d) : d < 10 ^ intMaxStrDigits := by
  rw [intDigits] at h
  split at h
  · rename_i hall
    obtain rfl := Option.some.inj h
    refine (decimalValue_lt fun c hc ↦ ?_).trans_le (Nat.pow_le_pow_right (by decide) hall.2)
    obtain ⟨g, hg, hc⟩ := List.mem_flatten.mp hc
    exact (hall.1 g hg).2 c hc
  · cases h

/-- What `int()` has read is short enough to be written again. -/
theorem natAbs_lt_of_int (h : U.int s = some n) : n.natAbs < 10 ^ intMaxStrDigits := by
  rw [Unicode.int] at h
  have hmap : ∀ {t : Str} {f : ℕ → ℤ}, (∀ d, (f d).natAbs = d) →
      (intDigits t).map f = some n → n.natAbs < 10 ^ intMaxStrDigits := by
    intro t f hf ht
    obtain ⟨d, hd, rfl⟩ := Option.map_eq_some_iff.mp ht
    rw [hf]
    exact intDigits_lt hd
  split at h
  · exact hmap (fun d ↦ by rw [Int.natAbs_neg, Int.natAbs_natCast]) h
  · split at h
    · exact hmap Int.natAbs_natCast h
    · exact hmap Int.natAbs_natCast h

theorem length_str_le_of_between {a b : ℤ} (ha : a.natAbs < 10 ^ intMaxStrDigits)
    (hb : b.natAbs < 10 ^ intMaxStrDigits) (hlo : a ≤ n) (hhi : n ≤ b) :
    (str n.natAbs).length ≤ intMaxStrDigits := by
  refine (Nat.length_toDigits_le_iff (by decide) (by decide)).mpr ?_
  generalize 10 ^ intMaxStrDigits = bound at ha hb ⊢
  omega

theorem rangePrefix_eq (U : Unicode) (part : Str) :
    rangePrefix (rangeSide U (partition '-' part).1) = cablePrefix (rangeCable U part) := by
  simp only [rangePrefix, cablePrefix, rangeCable, decide_eq_true_eq]

/-- Both sides of a range are numbers. -/
theorem expandPart_of_sides (hminus : '-' ∈ part)
    (hlo : sideNumber U (partition '-' part).1 = some lo)
    (hhi : sideNumber U (partition '-' part).2 = some hi) :
    expandPart U part = if lo > hi then .error (.invalidChannel ("bad range: ".toList ++ part))
      else (intRange lo (hi + 1)).mapM fun n ↦
        memberChannel U (memberText (rangeCable U part) n) (rangeCable U part) n := by
  have hmembers : ∀ n ∈ intRange lo (hi + 1),
      (do parseChannel U (rangePrefix (rangeSide U (partition '-' part).1) ++ (← raisingStr n)))
        = memberChannel U (memberText (rangeCable U part) n) (rangeCable U part) n := by
    intro n hn
    have hbounds := mem_intRange.mp hn
    have hlen := length_str_le_of_between (natAbs_lt_of_int hlo) (natAbs_lt_of_int hhi) hbounds.1
      (Int.lt_add_one_iff.mp hbounds.2)
    rw [rangePrefix_eq, raisingStr, if_pos hlen]
    exact (pure_bind (strInt n) _).trans (parseChannel_int hlen)
  rw [expandPart, if_pos hminus]
  dsimp only
  rw [sideNumber] at hlo hhi
  rw [raisingInt_of_some hlo, raisingInt_of_some hhi, ← mapM_congr hmembers]
  rfl

theorem PartAccepted.ok (h : PartAccepted U part) : ∃ l, expandPart U part = .ok l := by
  cases h with
  | single hminus h =>
    obtain ⟨c, hc⟩ := h.ok
    rw [expandPart_of_not_mem hminus, hc]
    exact ⟨_, rfl⟩
  | @range lo hi hminus hlo hhi hle hmem =>
    have hmembers : ∀ n ∈ intRange lo (hi + 1), InMembers (rangeCable U part) n := fun n hn ↦ by
      have hbounds := mem_intRange.mp hn
      exact hmem n hbounds.1 (by omega)
    obtain ⟨channels, -, -, hread⟩ := exists_members U hmembers
    have hsame : ∀ n ∈ intRange lo (hi + 1),
        memberChannel U (memberText (rangeCable U part) n) (rangeCable U part) n
          = parseChannel U (memberText (rangeCable U part) n) := fun n hn ↦
      (parseChannel_of_inMembers (hmembers n hn)).symm
    rw [expandPart_of_sides hminus hlo hhi, if_neg (not_lt.mpr hle), mapM_congr hsame]
    exact ⟨channels, hread⟩

theorem PartEscapes.raises (h : PartEscapes U part) :
    ∃ e, expandPart U part = .error e ∧ ∀ message, e ≠ .invalidChannel message := by
  cases h with
  | single hminus h =>
    obtain ⟨e, he, hother⟩ := h.raises
    rw [expandPart_of_not_mem hminus, he]
    exact ⟨e, rfl, hother⟩
  | range hminus h =>
    refine ⟨.valueError, ?_, nofun⟩
    rw [expandPart, if_pos hminus]
    dsimp only
    rcases hlo : sideNumber U (partition '-' part).1 with _ | lo
    · rw [sideNumber] at hlo
      rw [raisingInt_of_none hlo]
      rfl
    · have hhi := h.resolve_left (by rw [hlo]; exact Option.some_ne_none lo)
      rw [sideNumber] at hlo hhi
      rw [raisingInt_of_some hlo, raisingInt_of_none hhi]
      rfl

theorem expandPart_outcomes (U : Unicode) (part : Str) :
    PartAccepted U part ∨ PartEscapes U part ∨
      ∃ message, expandPart U part = .error (.invalidChannel message) := by
  by_cases hminus : '-' ∈ part
  · rcases hlo : sideNumber U (partition '-' part).1 with _ | lo
    · exact .inr (.inl (.range hminus (.inl hlo)))
    rcases hhi : sideNumber U (partition '-' part).2 with _ | hi
    · exact .inr (.inl (.range hminus (.inr hhi)))
    have hpart := expandPart_of_sides hminus hlo hhi
    rcases lt_or_ge hi lo with hlt | hle
    · rw [if_pos hlt] at hpart
      exact .inr (.inr ⟨_, hpart⟩)
    rw [if_neg (not_lt.mpr hle)] at hpart
    by_cases hmem : ∀ n, lo ≤ n → n ≤ hi → InMembers (rangeCable U part) n
    · exact .inl (.range hminus hlo hhi hle hmem)
    -- the first number that is no channel
    rcases hmap : (intRange lo (hi + 1)).mapM fun n ↦
      memberChannel U (memberText (rangeCable U part) n) (rangeCable U part) n with e | l
    · obtain ⟨-, n, -, -, -, hn⟩ := mapM_eq_error_iff.mp hmap
      by_cases hin : InMembers (rangeCable U part) n
      · obtain ⟨f, -, hread⟩ := memberChannel_of_mem hin
        rw [hread] at hn
        cases hn
      · rw [memberChannel_of_not_mem hin] at hn
        obtain rfl := Except.error.inj hn
        exact .inr (.inr ⟨_, hpart.trans hmap⟩)
    · refine absurd (fun n hlow hhigh ↦ ?_) hmem
      have hn : n ∈ intRange lo (hi + 1) := mem_intRange.mpr ⟨hlow, by omega⟩
      obtain ⟨c, -, hc⟩ := exists_of_forall₂ (mapM_eq_ok_iff.mp hmap) hn
      exact (memberChannel_eq_ok hc).1
  · rcases parseChannel_outcomes U part with haccepted | hescapes | ⟨message, hmessage⟩
    · exact .inl (.single hminus haccepted)
    · exact .inr (.inl (.single hminus hescapes))
    · refine .inr (.inr ⟨message, ?_⟩)
      rw [expandPart_of_not_mem hminus, hmessage]
      rfl

/-- What a part stands for can be tuned to. -/
theorem within_of_expandPart {l : List Channel} (h : expandPart U part = .ok l) :
    ∀ c ∈ l, c.Within := by
  intro c hc
  by_cases hminus : '-' ∈ part
  · rcases hlo : sideNumber U (partition '-' part).1 with _ | lo
    · obtain ⟨e, he, -⟩ := PartEscapes.raises (.range hminus (.inl hlo))
      rw [h] at he
      cases he
    rcases hhi : sideNumber U (partition '-' part).2 with _ | hi
    · obtain ⟨e, he, -⟩ := PartEscapes.raises (.range hminus (.inr hhi))
      rw [h] at he
      cases he
    rw [expandPart_of_sides hminus hlo hhi] at h
    split at h
    · cases h
    · obtain ⟨n, -, hn⟩ := exists_of_forall₂ (mapM_eq_ok_iff.mp h).flip hc
      exact (memberChannel_eq_ok hn).2.1.within
  · rw [expandPart_of_not_mem hminus] at h
    rcases hparse : parseChannel U part with e | c'
    · rw [hparse] at h
      cases h
    · rw [hparse] at h
      obtain rfl := Except.ok.inj h
      rw [List.mem_singleton.mp hc]
      exact (named_of_parseChannel hparse).within

theorem expandPart_reported_iff (U : Unicode) (part : Str) :
    (Reported (fun l ↦ ∀ c ∈ l, c.Within) (expandPart U part) ↔ ¬PartEscapes U part) ∧
      ((∃ l, expandPart U part = .ok l) ↔ PartAccepted U part) :=
  reported_iff_of_cases PartAccepted.ok PartEscapes.raises (fun _ h ↦ within_of_expandPart h)
    (expandPart_outcomes U part)

/-- A list is read up to the first part that is not a channel. -/
theorem expandChannelRanges_reported_iff (U : Unicode) (spec : Str) :
    Reported (fun l ↦ ∀ c ∈ l, c.Within) (expandChannelRanges U spec) ↔
      ∀ pre part post, channelParts U spec = pre ++ part :: post →
        (∀ p ∈ pre, PartAccepted U p) → ¬PartEscapes U part := by
  constructor
  · rintro hreported pre part post hparts hpre hescapes
    obtain ⟨e, he, hother⟩ := hescapes.raises
    have herror : (channelParts U spec).mapM (expandPart U) = .error e :=
      mapM_eq_error_iff.mpr ⟨pre, part, post, hparts, fun p hp ↦ (hpre p hp).ok, he⟩
    rw [expandChannelRanges, herror] at hreported
    obtain ⟨message, hmessage⟩ := reported_error_iff.mp hreported
    exact hother message hmessage
  · intro h
    rcases hmap : (channelParts U spec).mapM (expandPart U) with e | lists
    · obtain ⟨pre, part, post, hparts, hpre, he⟩ := mapM_eq_error_iff.mp hmap
      have hnot := h pre part post hparts fun p hp ↦
        (expandPart_reported_iff U p).2.mp (hpre p hp)
      have hreported := (expandPart_reported_iff U part).1.mpr hnot
      rw [he] at hreported
      rw [expandChannelRanges, hmap]
      exact reported_error_iff.mpr (reported_error_iff.mp hreported)
    · rw [expandChannelRanges, hmap]
      intro c hc
      obtain ⟨l, hl, hcl⟩ := List.mem_flatten.mp hc
      obtain ⟨part, -, hpart⟩ := exists_of_forall₂ (mapM_eq_ok_iff.mp hmap).flip hl
      exact within_of_expandPart hpart c hcl

end Parts

/-- **What escapes** the handlers for `InvalidChannel`, of both functions and for every text. -/
theorem reported_iff (U : Unicode) (spec : Str) :
    (Reported Channel.Within (parseChannel U spec) ↔ ¬ChannelEscapes U spec) ∧
      (Reported (fun l ↦ ∀ c ∈ l, c.Within) (expandChannelRanges U spec) ↔
        ∀ pre part post, channelParts U spec = pre ++ part :: post →
          (∀ p ∈ pre, PartAccepted U p) → ¬PartEscapes U part) :=
  ⟨(parseChannel_reported_iff U spec).1, expandChannelRanges_reported_iff U spec⟩

/-- A range without an end: `13-`. -/
theorem not_reported_openRange :
    ¬∀ (U : Unicode) (spec : Str), Reported Channel.Within (parseChannel U spec) ∧
      Reported (fun l ↦ ∀ c ∈ l, c.Within) (expandChannelRanges U spec) := by
  intro h
  -- a name for the text, so that nothing evaluates the functions on it
  obtain ⟨spec, hspec⟩ : ∃ spec : Str, spec = ['1', '3', '-'] := ⟨_, rfl⟩
  have hword : Word .ascii ['1', '3', '-'] := by simp [Word, Unicode.ascii, isAsciiSpace]
  have hparts : channelParts .ascii spec = [] ++ ['1', '3', '-'] :: [] := by
    rw [hspec]
    exact (laid_self .ascii [['1', '3', '-']]).channelParts (by simp [hword])
  have hside : sideNumber .ascii (partition '-' ['1', '3', '-']).2 = none := int_nil .ascii
  have hnot := (expandChannelRanges_reported_iff .ascii spec).mp (h .ascii spec).2
  exact hnot [] _ [] hparts (by simp) (.range (by decide) (.inr hside))

end Recdyud
