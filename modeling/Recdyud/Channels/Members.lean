import Recdyud.Channels.Frequency

/-!
# What is read as a channel

A text is a frequency, or digits with or without a `C`, or it is refused (`parseChannel_cases`); a
number is a channel in a range, and its frequency and its name do not depend on how it was written
(`memberChannel_of_mem`). An integer as a program writes it is read as that number
(`parseChannel_int`).
-/

namespace Recdyud

section Plain

variable {U : Unicode} {s t : Str} {c : Char}

/-- A text that `strip()` and `upper()` leave as it is. -/
def Stable (U : Unicode) (s : Str) : Prop := ∀ c ∈ s, U.isSpace c = false ∧ U.upper c = [c]

theorem Stable.append (hs : Stable U s) (ht : Stable U t) : Stable U (s ++ t) := fun c hc ↦
  (List.mem_append.mp hc).elim (hs c) (ht c)

theorem Stable.strip (h : Stable U s) : U.strip s = s :=
  trim_of_not_mem fun c hc ↦ by rw [(h c hc).1]; exact Bool.false_ne_true

theorem Stable.toUpper (h : Stable U s) : U.toUpper s = s := by
  rw [Unicode.toUpper, List.flatMap_congr fun c hc ↦ (h c hc).2, List.flatMap_singleton']

theorem toUpper_of_isDigit (h : c.isDigit) : c.toUpper = c := by
  refine Char.toUpper_eq_of_not_isLower fun hlower ↦ ?_
  rw [Char.isLower, Bool.and_eq_true, decide_eq_true_eq, decide_eq_true_eq] at hlower
  have hlow : 97 ≤ c.toNat := hlower.1
  have := toNat_of_isDigit h
  omega

theorem AllDigits.stable (h : AllDigits s) (U : Unicode) : Stable U s := by
  intro c hc
  have hdigit := h.isDigit c hc
  refine ⟨U.not_isSpace_of_ascii_isDigit hdigit, ?_⟩
  rw [U.upper_ascii (lt_128_of_isDigit hdigit), toUpper_of_isDigit hdigit]

theorem stable_singleton (U : Unicode) (h : c ∈ ['C', '-']) : Stable U [c] := by
  intro d hd
  obtain rfl := List.mem_singleton.mp hd
  have hall : ∀ c ∈ ['C', '-'], c.toNat < 128 ∧ isAsciiSpace c = false ∧ c.toUpper = c :=
    List.all_iff_forall_prop.mp (by decide)
  obtain ⟨hlt, hspace, hupper⟩ := hall d h
  rw [U.isSpace_ascii hlt, U.upper_ascii hlt, hupper]
  exact ⟨hspace, rfl⟩

end Plain

/-! ## What is read -/

/-- The `C` of the channels of cable television. -/
def cablePrefix (cable : Bool) : Str := if cable then ['C'] else []

/-- The channels with a number. -/
def memberChannel (U : Unicode) (spec : Str) (cable : Bool) (ch : ℤ) :
    Except ChannelRaised Channel :=
  if cable then catvChannel U spec ch else numberedChannel U spec ch

section Read

variable {U : Unicode} {spec s t : Str} {cable : Bool} {c : Char}

theorem parseChannel_of_match {m : FrequencyText} (h : freqMatch U (U.strip spec) = some m) :
    parseChannel U spec = frequencyChannel U spec m := by
  rw [parseChannel, h]

theorem head_of_isDigits (h : U.isDigits t = true) (hc : c ∈ t.head?) : U.isDigit c = true := by
  rw [Unicode.isDigits, Bool.and_eq_true, List.all_eq_true] at h
  exact h.2 c (List.mem_of_mem_head? hc)

theorem not_prefix_of_isDigits (h : U.isDigits t = true) : ¬['C'] <+: t := by
  rintro ⟨rest, rfl⟩
  have hdigit := head_of_isDigits h rfl
  rw [U.isDigit_ascii (by decide)] at hdigit
  exact absurd hdigit (by decide)

/-- A text of digits, with or without a `C`. -/
theorem parseChannel_of_digits (hnone : freqMatch U (U.strip spec) = none)
    (htext : channelText U spec = cablePrefix cable ++ t) (hdigits : U.isDigits t = true) :
    parseChannel U spec = (do memberChannel U spec cable (← raisingInt U t)) := by
  rw [parseChannel, hnone]
  dsimp only
  rw [htext]
  cases cable with
  | true => exact if_pos ⟨List.prefix_append _ _, hdigits⟩
  | false =>
    have hnot : ¬(['C'] <+: t ∧ U.isDigits (t.drop 1) = true) := fun hboth ↦
      not_prefix_of_isDigits hdigits hboth.1
    exact (if_neg hnot).trans (if_pos hdigits)

/-- Anything else is refused. -/
theorem parseChannel_of_no_digits (hnone : freqMatch U (U.strip spec) = none)
    (h : ∀ cable t, channelText U spec = cablePrefix cable ++ t → U.isDigits t = false) :
    parseChannel U spec = .error (unsupportedChannel U spec) := by
  have hcable :
      ¬(['C'] <+: channelText U spec ∧ U.isDigits ((channelText U spec).drop 1) = true) := by
    rintro ⟨⟨rest, hrest⟩, hdigits⟩
    rw [← hrest] at hdigits
    exact Bool.false_ne_true ((h true rest hrest.symm).symm.trans hdigits)
  have hplain : ¬U.isDigits (channelText U spec) = true := fun hdigits ↦
    Bool.false_ne_true ((h false (channelText U spec) rfl).symm.trans hdigits)
  rw [parseChannel, hnone]
  exact (if_neg hcable).trans (if_neg hplain)

theorem freqMatch_of_head (h : ∀ c ∈ s.head?, ¬U.isDecimal c) : freqMatch U s = none := by
  rw [freqMatch]
  exact if_pos (takeWhile_eq_nil h)

theorem AllDigits.isDecimal (h : AllDigits t) (hc : c ∈ t) : U.isDecimal c := by
  rw [U.isDecimal_ascii (lt_128_of_isDigit (h.isDigit c hc))]
  exact h.isDigit c hc

/-- There is no unit. -/
theorem freqMatch_of_allDigits (h : AllDigits t) : freqMatch U t = none := by
  have hrun : t.takeWhile U.isDecimal = t :=
    List.takeWhile_eq_self_iff.mpr fun c hc ↦ h.isDecimal hc
  have hrest : t.dropWhile U.isDecimal = [] :=
    List.dropWhile_eq_nil_iff.mpr fun c hc ↦ h.isDecimal hc
  rw [freqMatch, hrun, hrest]
  exact if_neg h.ne_nil

theorem channelText_of_stable (hs : Stable U s) (hg : 'G' ∉ s) (hh : 'H' ∉ s) :
    channelText U s = s := by
  have hgr : ¬['G', 'R'] <+: s := fun h ↦ hg (h.subset List.mem_cons_self)
  have hch : ¬['C', 'H'] <:+ s := fun h ↦ hh (h.subset (List.mem_cons_of_mem _ List.mem_cons_self))
  rw [channelText, hs.strip, hs.toUpper, removePrefix, if_neg hgr, removeSuffix, if_neg hch]

theorem AllDigits.not_mem (h : AllDigits t) (hc : c.isDigit = false) : c ∉ t := fun hmem ↦
  Bool.false_ne_true (hc.symm.trans (h.isDigit c hmem))

theorem stable_cablePrefix (U : Unicode) (cable : Bool) : Stable U (cablePrefix cable) := by
  cases cable with
  | true => exact stable_singleton U (by decide)
  | false => exact fun c hc ↦ by cases hc

theorem not_mem_cablePrefix (h : c ≠ 'C') : c ∉ cablePrefix cable := by
  cases cable with
  | true => simpa [cablePrefix] using h
  | false => simp [cablePrefix]

/-- A number as a program writes it. -/
theorem parseChannel_member (h : AllDigits t) :
    parseChannel U (cablePrefix cable ++ t)
      = (do memberChannel U (cablePrefix cable ++ t) cable (← raisingInt U t)) := by
  have hstable : Stable U (cablePrefix cable ++ t) :=
    (stable_cablePrefix U cable).append (h.stable U)
  refine parseChannel_of_digits ?_ ?_ (h.isDigits U)
  · rw [hstable.strip]
    cases cable with
    | true =>
      refine freqMatch_of_head fun c hc ↦ ?_
      obtain rfl := Option.some.inj hc
      rw [U.isDecimal_ascii (by decide)]
      decide
    | false => exact freqMatch_of_allDigits h
  · refine channelText_of_stable hstable ?_ ?_ <;> rw [List.mem_append, not_or]
    · exact ⟨not_mem_cablePrefix (by decide), h.not_mem (by decide)⟩
    · exact ⟨not_mem_cablePrefix (by decide), h.not_mem (by decide)⟩

end Read

/-! ## The channels -/

/-- The numbers of channels. -/
def InMembers (cable : Bool) (ch : ℤ) : Prop :=
  if cable then 13 ≤ ch ∧ ch ≤ 63 else 1 ≤ ch ∧ ch ≤ 62

instance (cable : Bool) (ch : ℤ) : Decidable (InMembers cable ch) :=
  inferInstanceAs (Decidable (if cable then 13 ≤ ch ∧ ch ≤ 63 else 1 ≤ ch ∧ ch ≤ 62))

/-- The frequency is one that the tuner is given. -/
def Channel.Within (c : Channel) : Prop :=
  minFrequencyKhz ≤ c.frequencyKhz ∧ c.frequencyKhz ≤ maxFrequencyKhz

section Channels

variable {U : Unicode} {spec : Str} {cable : Bool} {ch : ℤ} {c : Channel}

theorem catvFrequency_eq_ok (h : 13 ≤ ch ∧ ch ≤ 63) :
    ∃ f, catvFrequency ch = .ok f ∧ minFrequencyKhz ≤ f ∧ f ≤ maxFrequencyKhz := by
  rw [minFrequencyKhz, maxFrequencyKhz, catvFrequency]
  split_ifs
  all_goals first
    | exact ⟨_, rfl, by omega, by omega⟩
    | omega

theorem vhfFrequency_eq_ok (h : 1 ≤ ch ∧ ch ≤ 12) :
    ∃ f, vhfFrequency ch = .ok f ∧ minFrequencyKhz ≤ f ∧ f ≤ maxFrequencyKhz := by
  rw [minFrequencyKhz, maxFrequencyKhz, vhfFrequency]
  split_ifs
  all_goals first
    | exact ⟨_, rfl, by omega, by omega⟩
    | omega

theorem mem_uhfRange : ch ∈ uhfRange ↔ 13 ≤ ch ∧ ch < 63 := mem_intRange

theorem mem_catvRange : ch ∈ catvRange ↔ 13 ≤ ch ∧ ch < 64 := mem_intRange

theorem mem_vhfRange : ch ∈ vhfRange ↔ 1 ≤ ch ∧ ch < 13 := mem_intRange

/-- A number in range is a channel, whatever was written. -/
theorem memberChannel_of_mem (h : InMembers cable ch) :
    ∃ f, (minFrequencyKhz ≤ f ∧ f ≤ maxFrequencyKhz) ∧
      ∀ U spec, memberChannel U spec cable ch = .ok ⟨cablePrefix cable ++ strInt ch, f⟩ := by
  cases cable with
  | true =>
    have hrange : 13 ≤ ch ∧ ch ≤ 63 := h
    obtain ⟨f, hf, hwithin⟩ := catvFrequency_eq_ok hrange
    refine ⟨f, hwithin, fun U spec ↦ ?_⟩
    have hcatv : catvChannel U spec ch = .ok ⟨'C' :: strInt ch, f⟩ := by
      rw [catvChannel, if_pos (mem_catvRange.mpr (by omega)), hf]
      rfl
    exact hcatv
  | false =>
    have hrange : 1 ≤ ch ∧ ch ≤ 62 := h
    rcases lt_or_ge ch 13 with hlow | hhigh
    · obtain ⟨f, hf, hwithin⟩ := vhfFrequency_eq_ok (show 1 ≤ ch ∧ ch ≤ 12 by omega)
      refine ⟨f, hwithin, fun U spec ↦ ?_⟩
      have hnot : ch ∉ uhfRange := fun hmem ↦ by
        have := mem_uhfRange.mp hmem
        omega
      have hvhf : numberedChannel U spec ch = .ok ⟨strInt ch, f⟩ := by
        rw [numberedChannel, if_neg hnot, if_pos (mem_vhfRange.mpr (by omega)), hf]
        rfl
      exact hvhf
    · refine ⟨uhfFrequency ch, ?_, fun U spec ↦ ?_⟩
      · rw [minFrequencyKhz, maxFrequencyKhz, uhfFrequency]
        omega
      · have huhf : numberedChannel U spec ch = .ok ⟨strInt ch, uhfFrequency ch⟩ :=
          if_pos (mem_uhfRange.mpr (by omega))
        exact huhf

theorem memberChannel_of_not_mem (h : ¬InMembers cable ch) :
    memberChannel U spec cable ch = .error (unsupportedChannel U spec) := by
  cases cable with
  | true =>
    have hrange : ¬(13 ≤ ch ∧ ch ≤ 63) := h
    have hnot : ch ∉ catvRange := fun hmem ↦ by
      have := mem_catvRange.mp hmem
      omega
    exact if_neg hnot
  | false =>
    have hrange : ¬(1 ≤ ch ∧ ch ≤ 62) := h
    have huhf : ch ∉ uhfRange := fun hmem ↦ by
      have := mem_uhfRange.mp hmem
      omega
    have hvhf : ch ∉ vhfRange := fun hmem ↦ by
      have := mem_vhfRange.mp hmem
      omega
    exact (if_neg huhf).trans (if_neg hvhf)

/-- What `parse_channel` returns. -/
inductive NamedChannel : Channel → Prop where
  | frequency {khz : ℤ} (h : minFrequencyKhz ≤ khz ∧ khz ≤ maxFrequencyKhz) :
    NamedChannel ⟨strInt khz ++ ['k', 'H', 'z'], khz⟩
  | member {cable : Bool} {ch f : ℤ} (h : InMembers cable ch)
    (hf : minFrequencyKhz ≤ f ∧ f ≤ maxFrequencyKhz)
    (hread : ∀ U spec, memberChannel U spec cable ch
      = .ok ⟨cablePrefix cable ++ strInt ch, f⟩) :
    NamedChannel ⟨cablePrefix cable ++ strInt ch, f⟩

theorem NamedChannel.within (h : NamedChannel c) : c.Within := by
  cases h with
  | frequency h => exact h
  | member _ hf _ => exact hf

theorem frequencyChannel_of_ok {m : FrequencyText} {khz : ℤ}
    (h : m.unit.toKhz (m.value U) = .ok khz) :
    frequencyChannel U spec m = if minFrequencyKhz ≤ khz ∧ khz ≤ maxFrequencyKhz then
        .ok ⟨strInt khz ++ ['k', 'H', 'z'], khz⟩
      else .error (.invalidChannel ("frequency out of range: ".toList ++ spec)) := by
  rw [frequencyChannel, h]
  rfl

theorem frequencyChannel_of_error {m : FrequencyText} {e : ChannelRaised}
    (h : m.unit.toKhz (m.value U) = .error e) : frequencyChannel U spec m = .error e := by
  rw [frequencyChannel, h]
  rfl

theorem frequencyChannel_eq_ok {m : FrequencyText} (h : frequencyChannel U spec m = .ok c) :
    NamedChannel c := by
  rcases hkhz : m.unit.toKhz (m.value U) with e | khz
  · rw [frequencyChannel_of_error hkhz] at h
    cases h
  · rw [frequencyChannel_of_ok hkhz] at h
    split at h
    · rename_i hrange
      obtain rfl := Except.ok.inj h
      exact .frequency hrange
    · cases h

theorem memberChannel_eq_ok (h : memberChannel U spec cable ch = .ok c) :
    InMembers cable ch ∧ NamedChannel c ∧ c.name = cablePrefix cable ++ strInt ch := by
  by_cases hmem : InMembers cable ch
  · obtain ⟨f, hwithin, hread⟩ := memberChannel_of_mem hmem
    rw [hread] at h
    obtain rfl := Except.ok.inj h
    exact ⟨hmem, .member hmem hwithin hread, rfl⟩
  · rw [memberChannel_of_not_mem hmem] at h
    cases h

/-- The three ways to read a text. -/
theorem parseChannel_cases (U : Unicode) (spec : Str) :
    (∃ m, freqMatch U (U.strip spec) = some m ∧
      parseChannel U spec = frequencyChannel U spec m) ∨
    (freqMatch U (U.strip spec) = none ∧ ∃ cable t, channelText U spec = cablePrefix cable ++ t ∧
      U.isDigits t = true ∧
      parseChannel U spec = (do memberChannel U spec cable (← raisingInt U t))) ∨
    (freqMatch U (U.strip spec) = none ∧
      (∀ cable t, channelText U spec = cablePrefix cable ++ t → U.isDigits t = false) ∧
      parseChannel U spec = .error (unsupportedChannel U spec)) := by
  rcases hmatch : freqMatch U (U.strip spec) with _ | m
  · refine .inr ?_
    by_cases hdigits : ∃ cable t, channelText U spec = cablePrefix cable ++ t ∧ U.isDigits t = true
    · obtain ⟨cable, t, htext, ht⟩ := hdigits
      exact .inl ⟨rfl, cable, t, htext, ht, parseChannel_of_digits hmatch htext ht⟩
    · push Not at hdigits
      have hno : ∀ cable t, channelText U spec = cablePrefix cable ++ t → U.isDigits t = false :=
        fun cable t htext ↦ Bool.eq_false_iff.mpr (hdigits cable t htext)
      exact .inr ⟨rfl, hno, parseChannel_of_no_digits hmatch hno⟩
  · exact .inl ⟨m, rfl, parseChannel_of_match hmatch⟩

theorem named_of_parseChannel (h : parseChannel U spec = .ok c) : NamedChannel c := by
  rcases parseChannel_cases U spec with
    ⟨m, -, hparse⟩ | ⟨-, cable, t, -, -, hparse⟩ | ⟨-, -, hparse⟩
  · rw [hparse] at h
    exact frequencyChannel_eq_ok h
  · rw [hparse] at h
    rcases hint : raisingInt U t with e | ch <;> rw [hint] at h
    · cases h
    · exact (memberChannel_eq_ok h).2.1
  · rw [hparse] at h
    cases h

end Channels

/-! ## Numbers -/

section Numbers

variable {U : Unicode} {spec : Str} {cable : Bool} {ch : ℤ} {c : Channel}

theorem strInt_of_nonneg {n : ℤ} (h : 0 ≤ n) : strInt n = str n.natAbs := if_neg (not_lt.mpr h)

theorem raisingInt_str {n : ℕ} (h : (str n).length ≤ intMaxStrDigits) :
    raisingInt U (str n) = .ok (n : ℤ) := by
  rw [raisingInt, int_str U h]

theorem length_str_le {n : ℕ} (h : n < 100) : (str n).length ≤ intMaxStrDigits :=
  ((Nat.length_toDigits_le_iff (k := 2) (by decide) (by decide)).mpr h).trans (by decide)

theorem InMembers.bounds (h : InMembers cable ch) : 0 < ch ∧ ch < 100 := by
  cases cable with
  | true =>
    have hrange : 13 ≤ ch ∧ ch ≤ 63 := h
    omega
  | false =>
    have hrange : 1 ≤ ch ∧ ch ≤ 62 := h
    omega

theorem not_isDigits_of_minus {s : Str} (h : '-' ∈ s) : U.isDigits s = false :=
  U.isDigits_eq_false h ((U.isDigit_ascii (by decide)).trans (by decide))

/-- A number in front of which there is a minus is refused. -/
theorem parseChannel_minus (cable : Bool) (n : ℕ) :
    parseChannel U (cablePrefix cable ++ '-' :: str n)
      = .error (unsupportedChannel U (cablePrefix cable ++ '-' :: str n)) := by
  have hdigits := allDigits_str n
  have hstable : Stable U (cablePrefix cable ++ '-' :: str n) :=
    (stable_cablePrefix U cable).append
      ((stable_singleton U (by decide)).append (hdigits.stable U))
  have hnot : ∀ {x : Char}, x ≠ 'C' → x ≠ '-' → x.isDigit = false →
      x ∉ cablePrefix cable ++ '-' :: str n := by
    intro x hC hminus hdigit
    rw [List.mem_append, List.mem_cons, not_or, not_or]
    exact ⟨not_mem_cablePrefix hC, hminus, hdigits.not_mem hdigit⟩
  have htext := channelText_of_stable hstable (hnot (by decide) (by decide) (by decide))
    (hnot (by decide) (by decide) (by decide))
  refine parseChannel_of_no_digits ?_ fun cable' t ht ↦ ?_
  · rw [hstable.strip]
    refine freqMatch_of_head fun c hc ↦ ?_
    have hhead : c ∈ ['C', '-'] := by
      cases cable <;> obtain rfl := Option.some.inj hc <;> decide
    have hall : ∀ c ∈ ['C', '-'], c.toNat < 128 ∧ c.isDigit = false :=
      List.all_iff_forall_prop.mp (by decide)
    obtain ⟨hlt, hdigit⟩ := hall c hhead
    rw [U.isDecimal_ascii hlt, hdigit]
    exact Bool.false_ne_true
  · refine not_isDigits_of_minus ?_
    have hmem : '-' ∈ cablePrefix cable' ++ t := by
      rw [← ht, htext]
      simp
    exact (List.mem_append.mp hmem).resolve_left (not_mem_cablePrefix (by decide))

/-- **An integer** is read as it is, if it is not too long. -/
theorem parseChannel_int (h : (str ch.natAbs).length ≤ intMaxStrDigits) :
    parseChannel U (cablePrefix cable ++ strInt ch)
      = memberChannel U (cablePrefix cable ++ strInt ch) cable ch := by
  rcases lt_or_ge ch 0 with hneg | hnonneg
  · have hnot : ¬InMembers cable ch := fun hmem ↦ absurd hmem.bounds.1 (not_lt.mpr hneg.le)
    rw [memberChannel_of_not_mem hnot, strInt, if_pos hneg]
    exact parseChannel_minus cable ch.natAbs
  · rw [strInt_of_nonneg hnonneg, parseChannel_member (allDigits_str _), raisingInt_str h,
      Int.natAbs_of_nonneg hnonneg]
    rfl

theorem parseChannel_of_inMembers (h : InMembers cable ch) :
    parseChannel U (cablePrefix cable ++ strInt ch)
      = memberChannel U (cablePrefix cable ++ strInt ch) cable ch := by
  have hbounds := h.bounds
  exact parseChannel_int (length_str_le (by omega))

/-- What is accepted of the integers. -/
theorem inMembers_of_parseChannel (h : parseChannel U (cablePrefix cable ++ strInt ch) = .ok c) :
    InMembers cable ch ∧ c.name = cablePrefix cable ++ strInt ch := by
  by_cases hlen : (str ch.natAbs).length ≤ intMaxStrDigits
  · rw [parseChannel_int hlen] at h
    have hmember := memberChannel_eq_ok h
    exact ⟨hmember.1, hmember.2.2⟩
  · rcases lt_or_ge ch 0 with hneg | hnonneg
    · rw [strInt, if_pos hneg, parseChannel_minus] at h
      cases h
    · have hint : raisingInt U (str ch.natAbs) = .error .valueError := by
        rw [raisingInt, (allDigits_str _).int U, if_neg hlen]
      rw [strInt_of_nonneg hnonneg, parseChannel_member (allDigits_str _), hint] at h
      cases h

end Numbers

end Recdyud
