import Recdyud.Channels.Members

/-!
# Names that are read again

What `parse_channel` returns has a name of one of three forms, a number, a number behind a `C` and a
frequency in kHz, and each is read as the channel that it names. A list of names, and a range of
them, is read as the list of the channels (`namesRoundTrip`).
-/

namespace Recdyud

/-! ## Names -/

section Names

variable {U : Unicode} {c : Channel}

theorem matched_khz (U : Unicode) (n : ℕ) :
    FrequencyText.Matched U ⟨str n, [], .khz⟩ (str n ++ ['k', 'H', 'z']) where
  split := ⟨[], ['k', 'H', 'z'], rfl, by simp, rfl⟩
  ne_nil := str_ne_nil n
  whole _ hc := (allDigits_str n).isDecimal hc
  fraction := by simp

/-- A frequency in kHz is read as it is. -/
theorem toKhz_natCast {n : ℕ} (h : minFrequencyKhz ≤ n ∧ (n : ℤ) ≤ maxFrequencyKhz) :
    FrequencyUnit.toKhz .khz (n : ℚ) = .ok (n : ℤ) := by
  rw [minFrequencyKhz, maxFrequencyKhz] at h
  have hmin : (90000 : ℚ) ≤ n := by exact_mod_cast h.1
  have hmax : (n : ℚ) ≤ 770000 := by exact_mod_cast h.2
  have hrange : FrequencyUnit.InRange .khz (n : ℚ) := by
    constructor
    · norm_num
      linarith
    · norm_num
      linarith
  have hround : FrequencyUnit.scaled .khz (n : ℚ) = ((n : ℤ) : ℚ) :=
    BinaryFormat.round_natCast (lt_of_le_of_lt (by omega : n ≤ 770000) (by decide)) (by decide)
  rw [FrequencyUnit.toKhz_eq .khz (Nat.cast_nonneg n), if_neg (not_le.mpr hrange.lt_overflowAt),
    hround, roundHalfEven_intCast]

theorem value_khz (U : Unicode) (n : ℕ) : FrequencyText.value U ⟨str n, [], .khz⟩ = (n : ℚ) := by
  rw [FrequencyText.value, (allDigits_str n).map_toAscii U, decimalValue_str]
  simp [decimalValue]

/-- The characters of a name. -/
theorem mem_name (h : NamedChannel c) {x : Char} (hx : x ∈ c.name) :
    x.isDigit ∨ x ∈ ['C', 'k', 'H', 'z'] := by
  have hnumber : ∀ {n : ℤ}, 0 ≤ n → x ∈ strInt n → x.isDigit := by
    intro n hn hmem
    rw [strInt_of_nonneg hn] at hmem
    exact isDigit_of_mem_str hmem
  cases h with
  | frequency h =>
    rcases List.mem_append.mp hx with hx | hx
    · exact .inl (hnumber (le_trans (by decide) h.1) hx)
    · exact .inr (List.mem_cons_of_mem _ hx)
  | @member cable ch f h hf hread =>
    rcases List.mem_append.mp hx with hx | hx
    · refine .inr ?_
      cases cable with
      | true => exact List.mem_of_mem_take (i := 1) hx
      | false => cases hx
    · exact .inl (hnumber h.bounds.1.le hx)

theorem strInt_ne_nil (n : ℤ) : strInt n ≠ [] := by
  rw [strInt]
  split
  · exact List.cons_ne_nil _ _
  · exact str_ne_nil _

theorem name_ne_nil (h : NamedChannel c) : c.name ≠ [] := by
  cases h with
  | frequency h => exact List.append_ne_nil_of_left_ne_nil (strInt_ne_nil _) _
  | member => exact List.append_ne_nil_of_right_ne_nil _ (strInt_ne_nil _)

theorem not_isSpace_name (h : NamedChannel c) {x : Char} (hx : x ∈ c.name) :
    U.isSpace x = false := by
  rcases mem_name h hx with hdigit | hletter
  · exact U.not_isSpace_of_ascii_isDigit hdigit
  · have hall : ∀ c ∈ ['C', 'k', 'H', 'z'], c.toNat < 128 ∧ isAsciiSpace c = false :=
      List.all_iff_forall_prop.mp (by decide)
    obtain ⟨hlt, hspace⟩ := hall x hletter
    rw [U.isSpace_ascii hlt, hspace]

theorem strip_name (h : NamedChannel c) : U.strip c.name = c.name :=
  trim_of_not_mem fun x hx ↦ by rw [not_isSpace_name h hx]; exact Bool.false_ne_true

/-- **A name** is read as the channel that has it. -/
theorem parseChannel_name (U : Unicode) (h : NamedChannel c) : parseChannel U c.name = .ok c := by
  have hstrip := strip_name (U := U) h
  cases h with
  | @frequency khz h =>
    have hnonneg : 0 ≤ khz := le_trans (by decide) h.1
    have habs : ((khz.natAbs : ℕ) : ℤ) = khz := Int.natAbs_of_nonneg hnonneg
    have hmatch : freqMatch U (U.strip (strInt khz ++ ['k', 'H', 'z']))
        = some ⟨str khz.natAbs, [], .khz⟩ := by
      rw [hstrip, strInt_of_nonneg hnonneg]
      exact freqMatch_of_matched (matched_khz U _)
    have hread : FrequencyUnit.toKhz .khz (FrequencyText.value U ⟨str khz.natAbs, [], .khz⟩)
        = .ok khz := by
      rw [value_khz, toKhz_natCast (by rwa [habs]), habs]
    rw [parseChannel_of_match hmatch, frequencyChannel_of_ok hread, if_pos h]
  | member h hf hread => rw [parseChannel_of_inMembers h, hread]

theorem not_mem_name (h : NamedChannel c) {x : Char} (hdigit : x.isDigit = false)
    (hletter : x ∉ ['C', 'k', 'H', 'z']) : x ∉ c.name := by
  intro hx
  rcases mem_name h hx with hx | hx
  · exact Bool.false_ne_true (hdigit.symm.trans hx)
  · exact hletter hx

end Names

/-! ## Lists of names -/

/-- `parts` are the names in order, with white space around them and blank parts between. -/
inductive Laid (U : Unicode) : List Str → List Str → Prop where
  | nil : Laid U [] []
  | blank {w : Str} {parts names : List Str} (hw : ∀ c ∈ w, U.isSpace c)
    (h : Laid U parts names) : Laid U (w :: parts) names
  | name {w w' n : Str} {parts names : List Str} (hw : ∀ c ∈ w, U.isSpace c)
    (hw' : ∀ c ∈ w', U.isSpace c) (h : Laid U parts names) :
    Laid U ((w ++ n ++ w') :: parts) (n :: names)

section Lists

variable {U : Unicode} {parts names : List Str} {cable : Bool} {lo hi : ℤ}
variable {channels : List Channel} {s : Str} {c : Channel}

theorem laid_self (U : Unicode) (names : List Str) : Laid U names names := by
  induction names with
  | nil => exact .nil
  | cons n names ih =>
    have hname : Laid U (([] ++ n ++ []) :: names) (n :: names) := .name (by simp) (by simp) ih
    simpa using hname

theorem comma_not_isSpace : U.isSpace ',' = false :=
  (U.isSpace_ascii (by decide)).trans (by decide)

/-- A text that stands between commas, with no white space in it. -/
def Word (U : Unicode) (n : Str) : Prop := n ≠ [] ∧ ∀ c ∈ n, U.isSpace c = false ∧ c ≠ ','

theorem Laid.not_mem (h : Laid U parts names) (hnames : ∀ n ∈ names, Word U n) :
    ∀ p ∈ parts, ',' ∉ p := by
  have hspaces : ∀ {w : Str}, (∀ c ∈ w, U.isSpace c) → ',' ∉ w := fun hw hmem ↦
    Bool.false_ne_true (comma_not_isSpace.symm.trans (hw ',' hmem))
  induction h with
  | nil => simp
  | blank hw _ ih => exact List.forall_mem_cons.mpr ⟨hspaces hw, ih hnames⟩
  | name hw hw' _ ih =>
    obtain ⟨hn, hrest⟩ := List.forall_mem_cons.mp hnames
    refine List.forall_mem_cons.mpr ⟨?_, ih hrest⟩
    rw [List.mem_append, List.mem_append, not_or, not_or]
    exact ⟨⟨hspaces hw, fun hmem ↦ (hn.2 ',' hmem).2 rfl⟩, hspaces hw'⟩

theorem Laid.filter_strip (h : Laid U parts names) (hnames : ∀ n ∈ names, Word U n) :
    (parts.map U.strip).filter (· ≠ []) = names := by
  induction h with
  | nil => rfl
  | blank hw _ ih =>
    rw [List.map_cons, Unicode.strip, trim_of_forall hw]
    exact ih hnames
  | @name w w' n parts names hw hw' _ ih =>
    obtain ⟨hn, hrest⟩ := List.forall_mem_cons.mp hnames
    have hedge : ∀ c ∈ n, ¬U.isSpace c := fun c hc ↦ by
      rw [(hn.2 c hc).1]
      exact Bool.false_ne_true
    have hstrip : U.strip (w ++ n ++ w') = n :=
      trim_append hw hw' (fun c hc ↦ hedge c (List.mem_of_mem_head? hc))
        fun c hc ↦ hedge c (List.mem_of_getLast? hc)
    rw [List.map_cons, hstrip, List.filter_cons_of_pos (by simpa using hn.1), ih hrest]

/-- The parts of a list of names. -/
theorem Laid.channelParts (h : Laid U parts names) (hnames : ∀ n ∈ names, Word U n) :
    channelParts U (join [','] parts) = names := by
  rcases eq_or_ne parts [] with rfl | hne
  · cases h
    rfl
  · rw [Recdyud.channelParts, join, List.splitOn_intercalate ',' (h.not_mem hnames) hne,
      h.filter_strip hnames]

theorem word_name (h : NamedChannel c) : Word U c.name := by
  refine ⟨name_ne_nil h, fun x hx ↦ ⟨not_isSpace_name h hx, ?_⟩⟩
  rintro rfl
  exact not_mem_name h (by decide) (by decide) hx

/-- A single channel. -/
theorem expandPart_of_not_mem (h : '-' ∉ s) :
    expandPart U s = (parseChannel U s).map fun c ↦ [c] := by
  rw [expandPart, if_neg h]
  rcases parseChannel U s with e | c <;> rfl

theorem expandPart_name (h : NamedChannel c) : expandPart U c.name = .ok [c] := by
  rw [expandPart_of_not_mem (not_mem_name h (by decide) (by decide)), parseChannel_name U h]
  rfl

theorem expandChannelRanges_of_parts {lists : List (List Channel)}
    (hparts : channelParts U s = names)
    (h : List.Forall₂ (fun part l ↦ expandPart U part = .ok l) names lists) :
    expandChannelRanges U s = .ok lists.flatten := by
  rw [expandChannelRanges, hparts, mapM_eq_ok_iff.mpr h]
  rfl

theorem expandChannelRanges_names (hchannels : ∀ c ∈ channels, NamedChannel c)
    (h : Laid U parts (channels.map Channel.name)) :
    expandChannelRanges U (join [','] parts) = .ok channels := by
  have hwords : ∀ n ∈ channels.map Channel.name, Word U n := by
    intro n hn
    obtain ⟨c, hc, rfl⟩ := List.mem_map.mp hn
    exact word_name (hchannels c hc)
  have hread : List.Forall₂ (fun part l ↦ expandPart U part = .ok l) (channels.map Channel.name)
      (channels.map fun c ↦ [c]) := by
    rw [List.forall₂_map_left_iff, List.forall₂_map_right_iff, List.forall₂_same]
    exact fun c hc ↦ expandPart_name (hchannels c hc)
  rw [expandChannelRanges_of_parts (h.channelParts hwords) hread, ← List.flatMap_def,
    List.flatMap_singleton']

/-! ## Ranges -/

/-- `str(n)` behind the prefix, for a channel of the range. -/
def memberText (cable : Bool) (n : ℤ) : Str := cablePrefix cable ++ strInt n

/-- `lo-hi`, with the prefix at both. -/
def rangeText (cable : Bool) (lo hi : ℤ) : Str :=
  memberText cable lo ++ '-' :: memberText cable hi

theorem mem_memberText (h : InMembers cable lo) {x : Char} (hx : x ∈ memberText cable lo) :
    x.isDigit ∨ x = 'C' := by
  rcases List.mem_append.mp hx with hx | hx
  · cases cable with
    | true => exact .inr (List.mem_singleton.mp hx)
    | false => cases hx
  · rw [strInt_of_nonneg h.bounds.1.le] at hx
    exact .inl (isDigit_of_mem_str hx)

theorem stable_memberText (U : Unicode) (h : InMembers cable lo) :
    Stable U (memberText cable lo) := by
  rw [memberText, strInt_of_nonneg h.bounds.1.le]
  exact (stable_cablePrefix U cable).append ((allDigits_str _).stable U)

theorem not_minus_memberText (h : InMembers cable lo) : '-' ∉ memberText cable lo := by
  intro hmem
  rcases mem_memberText h hmem with hdigit | hC
  · exact absurd hdigit (by decide)
  · exact absurd hC (by decide)

/-- The sides of a range. -/
theorem partition_rangeText (hlo : InMembers cable lo) :
    partition '-' (rangeText cable lo hi) = (memberText cable lo, memberText cable hi) := by
  have hnot : ∀ c ∈ memberText cable lo, decide (c ≠ '-') = true := by
    intro c hc
    refine decide_eq_true ?_
    rintro rfl
    exact not_minus_memberText hlo hc
  rw [partition, rangeText, List.takeWhile_append_of_pos hnot, List.dropWhile_append_of_pos hnot]
  simp

theorem rangeSide_memberText (h : InMembers cable lo) :
    rangeSide U (memberText cable lo) = memberText cable lo := by
  rw [rangeSide, (stable_memberText U h).strip, (stable_memberText U h).toUpper]

theorem prefix_memberText_iff (h : InMembers cable lo) :
    ['C'] <+: memberText cable lo ↔ cable = true := by
  cases cable with
  | true => exact ⟨fun _ ↦ rfl, fun _ ↦ List.prefix_append _ _⟩
  | false =>
    refine ⟨fun hpre ↦ ?_, nofun⟩
    have hmem : 'C' ∈ strInt lo := hpre.subset List.mem_cons_self
    rw [strInt_of_nonneg h.bounds.1.le] at hmem
    exact absurd (isDigit_of_mem_str hmem) (by decide)

theorem rangePrefix_memberText (h : InMembers cable lo) :
    rangePrefix (memberText cable lo) = cablePrefix cable := by
  rw [rangePrefix, cablePrefix]
  simp only [prefix_memberText_iff h]

theorem removePrefix_memberText (h : InMembers cable lo) :
    removePrefix ['C'] (memberText cable lo) = strInt lo := by
  rw [removePrefix]
  simp only [prefix_memberText_iff h]
  cases cable <;> rfl

theorem raisingInt_strInt (h : InMembers cable lo) : raisingInt U (strInt lo) = .ok lo := by
  have hbounds := h.bounds
  rw [strInt_of_nonneg hbounds.1.le, raisingInt_str (length_str_le (by omega)),
    Int.natAbs_of_nonneg hbounds.1.le]

theorem raisingStr_eq_ok (h : InMembers cable lo) : raisingStr lo = .ok (strInt lo) := by
  have hbounds := h.bounds
  exact if_pos (length_str_le (by omega))

/-- A range stands for its members. -/
theorem expandPart_rangeText (hle : lo ≤ hi) (h : ∀ n, lo ≤ n → n ≤ hi → InMembers cable n) :
    expandPart U (rangeText cable lo hi)
      = (intRange lo (hi + 1)).mapM fun n ↦ parseChannel U (memberText cable n) := by
  have hlo := h lo le_rfl hle
  have hhi := h hi hle le_rfl
  have hminus : '-' ∈ rangeText cable lo hi := by simp [rangeText]
  rw [expandPart, if_pos hminus, partition_rangeText hlo]
  dsimp only
  rw [rangeSide_memberText hlo, rangeSide_memberText hhi, removePrefix_memberText hlo,
    removePrefix_memberText hhi, raisingInt_strInt hlo, raisingInt_strInt hhi,
    rangePrefix_memberText hlo]
  have hmembers : ∀ n ∈ intRange lo (hi + 1),
      (do parseChannel U (cablePrefix cable ++ (← raisingStr n)))
        = parseChannel U (memberText cable n) := by
    intro n hn
    have hbounds := mem_intRange.mp hn
    rw [raisingStr_eq_ok (h n hbounds.1 (by omega))]
    rfl
  rw [← mapM_congr hmembers]
  exact if_neg (not_lt.mpr hle)

theorem word_rangeText (hlo : InMembers cable lo) (hhi : InMembers cable hi) :
    Word U (rangeText cable lo hi) := by
  refine ⟨by simp [rangeText], fun c hc ↦ ⟨?_, ?_⟩⟩
  · have hstable : Stable U (rangeText cable lo hi) := (stable_memberText U hlo).append
      ((stable_singleton U (by decide)).append (stable_memberText U hhi))
    exact (hstable c hc).1
  · rintro rfl
    rcases List.mem_append.mp hc with hmem | hmem
    · exact absurd (mem_memberText hlo hmem) (by decide)
    · rcases List.mem_cons.mp hmem with hminus | hmem
      · exact absurd hminus (by decide)
      · exact absurd (mem_memberText hhi hmem) (by decide)

/-- Channels that are read one by one. -/
theorem exists_members (U : Unicode) {l : List ℤ} (h : ∀ n ∈ l, InMembers cable n) :
    ∃ channels : List Channel, (∀ c ∈ channels, NamedChannel c) ∧
      channels.map Channel.name = l.map (memberText cable) ∧
      l.mapM (fun n ↦ parseChannel U (memberText cable n)) = .ok channels := by
  induction l with
  | nil => exact ⟨[], by simp, rfl, rfl⟩
  | cons n l ih =>
    obtain ⟨hn, hrest⟩ := List.forall_mem_cons.mp h
    obtain ⟨channels, hnamed, hnames, hread⟩ := ih hrest
    obtain ⟨f, hwithin, hmember⟩ := memberChannel_of_mem hn
    refine ⟨⟨memberText cable n, f⟩ :: channels,
      List.forall_mem_cons.mpr ⟨.member hn hwithin hmember, hnamed⟩, ?_, ?_⟩
    · rw [List.map_cons, List.map_cons, hnames]
    · rw [List.mapM_cons, memberText, parseChannel_of_inMembers hn, hmember, hread]
      rfl

/-- A range and the list of its members. -/
theorem expandChannelRanges_range (hle : lo ≤ hi)
    (h : ∀ n, lo ≤ n → n ≤ hi → InMembers cable n) :
    ∃ channels, expandChannelRanges U (rangeText cable lo hi) = .ok channels ∧
      expandChannelRanges U (join [','] ((intRange lo (hi + 1)).map (memberText cable)))
        = .ok channels := by
  have hrange : ∀ n ∈ intRange lo (hi + 1), InMembers cable n := fun n hn ↦ by
    have hbounds := mem_intRange.mp hn
    exact h n hbounds.1 (by omega)
  obtain ⟨channels, hnamed, hnames, hmembers⟩ := exists_members U hrange
  refine ⟨channels, ?_, ?_⟩
  · have hparts : channelParts U (join [','] [rangeText cable lo hi]) = [rangeText cable lo hi] :=
      (laid_self U _).channelParts fun n hn ↦ by
        rw [List.mem_singleton.mp hn]
        exact word_rangeText (h lo le_rfl hle) (h hi hle le_rfl)
    rw [join, List.intercalate_singleton] at hparts
    have hread : List.Forall₂ (fun part l ↦ expandPart U part = .ok l) [rangeText cable lo hi]
        [channels] := .cons ((expandPart_rangeText hle h).trans hmembers) .nil
    rw [expandChannelRanges_of_parts hparts hread, List.flatten_singleton]
  · rw [← hnames]
    exact expandChannelRanges_names hnamed (laid_self U _)

end Lists

/-- The names of channels mean the same channels again. -/
structure NamesRoundTrip (U : Unicode) : Prop where
  name : ∀ s c, parseChannel U s = .ok c → parseChannel U c.name = .ok c
  list : ∀ specs channels parts,
    List.Forall₂ (fun s c ↦ parseChannel U s = .ok c) specs channels →
    Laid U parts (channels.map Channel.name) →
    expandChannelRanges U (join [','] parts) = .ok channels
  range : ∀ cable lo hi, lo ≤ hi →
    (∀ n, lo ≤ n → n ≤ hi → ∃ c, parseChannel U (memberText cable n) = .ok c) →
    ∃ channels, expandChannelRanges U (rangeText cable lo hi) = .ok channels ∧
      expandChannelRanges U (join [','] ((intRange lo (hi + 1)).map (memberText cable)))
        = .ok channels

/-- **Names round-trip** through the list syntax. -/
theorem namesRoundTrip (U : Unicode) : NamesRoundTrip U where
  name _ _ h := parseChannel_name U (named_of_parseChannel h)
  list specs channels parts hread hlaid := by
    refine expandChannelRanges_names (fun c hc ↦ ?_) hlaid
    obtain ⟨s, -, hs⟩ := exists_of_forall₂ hread.flip hc
    exact named_of_parseChannel hs
  range cable lo hi hle hread := by
    refine expandChannelRanges_range hle fun n hlo hhi ↦ ?_
    obtain ⟨c, hc⟩ := hread n hlo hhi
    exact (inMembers_of_parseChannel hc).1

/-- Two channels, with a blank part and white space around them. -/
theorem namesRoundTrip_twoChannels :
    expandChannelRanges .ascii (join [','] [[' ', '2', '7'], [], ['C', '1', '3', '\n']])
      = .ok [⟨['2', '7'], 557143⟩, ⟨['C', '1', '3'], 111143⟩] := by
  have hlaid : Laid .ascii [[' '] ++ ['2', '7'] ++ [], [], [] ++ ['C', '1', '3'] ++ ['\n']]
      [['2', '7'], ['C', '1', '3']] :=
    .name (by simp [Unicode.ascii, isAsciiSpace]) (by simp)
      (.blank (by simp) (.name (by simp) (by simp [Unicode.ascii, isAsciiSpace]) .nil))
  have huhf : parseChannel .ascii (memberText false 27) = .ok ⟨['2', '7'], 557143⟩ := by
    rw [memberText, parseChannel_of_inMembers (by decide)]
    decide
  have hcatv : parseChannel .ascii (memberText true 13) = .ok ⟨['C', '1', '3'], 111143⟩ := by
    rw [memberText, parseChannel_of_inMembers (by decide)]
    decide
  exact (namesRoundTrip .ascii).list _ _ _ (.cons huhf (.cons hcatv .nil)) hlaid

end Recdyud
