import Recdyud.Channels.Reports
import Recdyud.Diag.Scan
import Recdyud.Lib.JsonString
import Recdyud.Ts.TableRoundTrip

/-!
# The channels section for mirakc

`cmd_scan` scans the channels of a list one after the other and, with `--mirakc`, prints an entry
for each that was received. The name of an entry comes off the air; `_yaml_str` writes it as a JSON
string, which is also a string of YAML.

`readConfig` reads such a section the way the scalars in it are defined: the name is a JSON string,
a comment may follow, and the channel stands between single quotes. Whatever names were received,
the section reads back as the channels that were, with their names (`readConfig_mirakcConfig`); and
each channel in it is one that `parse_channel` reads as the channel that was scanned.
-/

namespace Recdyud

/-! ## Scanning the list -/

/-- The loop of `cmd_scan`: in front of each channel the stop event is looked at. `none` while the
scan of a channel has not ended. -/
def scanAll (eucJis2004 : Codec) (args : ScanArgs) :
    List Channel → List (Bool × ScanSession) → Except MonitorRaised (Option (List ScanResult))
  | [], _ => .ok (some [])
  | _ :: _, [] => .ok none
  | ch :: channels, (stop, w) :: sessions =>
    if stop then .ok (some [])
    else
      match scanChannel eucJis2004 args ch w with
      | .error e => .error e
      | .ok none => .ok none
      | .ok (some r) =>
        match scanAll eucJis2004 args channels sessions with
        | .error e => .error e
        | .ok none => .ok none
        | .ok (some results) => .ok (some (r :: results))

/-- What `cmd_scan` returns. -/
def scanCode (results : List ScanResult) : ℕ :=
  if results.filter ScanResult.received ≠ [] then 0 else 1

/-- `f"{x:.1f}"`, for a number that is not negative -/
def fixed1 (x : ℚ) : Str :=
  let tenths := (roundHalfEven (x * 10)).toNat
  str (tenths / 10) ++ '.' :: str (tenths % 10)

/-- `_yaml_str`: `json.dumps(s, ensure_ascii=False)` -/
def yamlStr (s : Str) : Str := JsonString.quote s

section Config

variable (normalize : Str → Str)

/-- `unicodedata.normalize("NFKC", r.name or r.channel)` -/
def mirakcName (r : ScanResult) : Str := normalize (if r.name ≠ [] then r.name else r.channel)

/-- `note` -/
def mirakcNote (r : ScanResult) : Str :=
  if r.teiPercent ≥ 1 then
    "  # TEI ".toList ++ fixed1 r.teiPercent ++ "%: poor reception".toList
  else
    []

/-- The front of an entry. -/
def nameKey : Str := "  - name: ".toList

/-- The second line of an entry and the front of its third. -/
def channelKey : Str := "    type: GR\n    channel: '".toList

/-- The end of an entry. -/
def entryEnd : Str := ['\'', '\n']

/-- The three lines of an entry. -/
def mirakcEntry (r : ScanResult) : Str :=
  nameKey ++ (yamlStr (mirakcName normalize r) ++ (mirakcNote r ++ ('\n' ::
    (channelKey ++ (r.channel ++ entryEnd)))))

/-- The front of the section. -/
def mirakcHead : Str := "\n# mirakc config.yml\nchannels:\n".toList

/-- What `--mirakc` prints behind the scan. -/
def mirakcConfig (results : List ScanResult) : Str :=
  mirakcHead ++ (results.filter ScanResult.received).flatMap (mirakcEntry normalize)

end Config

/-! ## Reading the section -/

/-- A text behind what it has to begin with. -/
def expect (front text : Str) : Option Str :=
  if front <+: text then some (text.drop front.length) else none

/-- The end of a line, perhaps with a comment. -/
def endOfLine (text : Str) : Option Str :=
  let line := text.takeWhile (· ≠ '\n')
  if line = [] ∨ "  # ".toList <+: line then expect ['\n'] (text.dropWhile (· ≠ '\n')) else none

/-- An entry, and what follows it. -/
def readEntry (text : Str) : Option ((Str × Str) × Str) :=
  (expect nameKey text).bind fun text ↦
    (JsonString.read text).bind fun (name, text) ↦
      (endOfLine text).bind fun text ↦
        (expect channelKey text).bind fun text ↦
          (expect entryEnd (text.dropWhile (· ≠ '\''))).map fun rest ↦
            ((name, text.takeWhile (· ≠ '\'')), rest)

/-- Entries up to the end of the text, no more than `fuel`. -/
def readConfigEntries : ℕ → Str → Option (List (Str × Str))
  | _, [] => some []
  | 0, _ :: _ => none
  | fuel + 1, c :: text => do
    let (entry, rest) ← readEntry (c :: text)
    let entries ← readConfigEntries fuel rest
    return entry :: entries

/-- The names and channels of a section. -/
def readConfig (text : Str) : Option (List (Str × Str)) := do
  let text ← expect mirakcHead text
  readConfigEntries text.length text

/-! ### What is printed is read back -/

theorem expect_append (front text : Str) : expect front (front ++ text) = some text := by
  rw [expect, if_pos (List.prefix_append _ _), List.drop_left]

/-- Up to a character that does not occur in front of it. -/
theorem takeWhile_ne_append {c : Char} {front : Str} (h : c ∉ front) (rest : Str) :
    (front ++ c :: rest).takeWhile (· ≠ c) = front ∧
      (front ++ c :: rest).dropWhile (· ≠ c) = c :: rest := by
  have hfront : ∀ x ∈ front, decide (x ≠ c) = true := fun x hx ↦
    decide_eq_true fun hxc ↦ h (hxc ▸ hx)
  constructor
  · rw [List.takeWhile_append_of_pos hfront, List.takeWhile_cons_of_neg (by simp), List.append_nil]
  · rw [List.dropWhile_append_of_pos hfront, List.dropWhile_cons_of_neg (by simp)]

theorem endOfLine_append {line text : Str} (hline : '\n' ∉ line)
    (hcomment : line = [] ∨ "  # ".toList <+: line) :
    endOfLine (line ++ '\n' :: text) = some text := by
  obtain ⟨htake, hdrop⟩ := takeWhile_ne_append hline text
  rw [endOfLine, htake, hdrop, if_pos hcomment]
  exact expect_append ['\n'] text

/-- No line ends in a number. -/
theorem newline_not_mem_fixed1 (x : ℚ) : '\n' ∉ fixed1 x := by
  have hdigits (n : ℕ) : '\n' ∉ str n := fun h ↦ absurd (isDigit_of_mem_str h) (by decide)
  rw [fixed1]
  simp only [List.mem_append, List.mem_cons, not_or]
  exact ⟨hdigits _, by decide, hdigits _⟩

theorem mirakcNote_spec (r : ScanResult) :
    '\n' ∉ mirakcNote r ∧ (mirakcNote r = [] ∨ "  # ".toList <+: mirakcNote r) := by
  rw [mirakcNote]
  split
  · refine ⟨?_, .inr ?_⟩
    · simp only [List.mem_append, not_or]
      exact ⟨⟨by decide +kernel, newline_not_mem_fixed1 _⟩, by decide +kernel⟩
    · rw [List.append_assoc]
      exact List.IsPrefix.trans ⟨"TEI ".toList, rfl⟩ (List.prefix_append _ _)
  · exact ⟨List.not_mem_nil, .inl rfl⟩

theorem readEntry_mirakcEntry (normalize : Str → Str) {r : ScanResult} (h : '\'' ∉ r.channel)
    (rest : Str) :
    readEntry (mirakcEntry normalize r ++ rest)
      = some ((mirakcName normalize r, r.channel), rest) := by
  obtain ⟨hline, hcomment⟩ := mirakcNote_spec r
  have hchannel := takeWhile_ne_append h ('\n' :: rest)
  have hentry : mirakcEntry normalize r ++ rest
      = nameKey ++ (yamlStr (mirakcName normalize r) ++ (mirakcNote r ++ ('\n' ::
        (channelKey ++ (r.channel ++ '\'' :: '\n' :: rest))))) := by
    simp only [mirakcEntry, entryEnd, List.append_assoc, List.cons_append, List.nil_append]
  have hend : expect entryEnd ('\'' :: '\n' :: rest) = some rest := expect_append entryEnd rest
  rw [hentry, readEntry, expect_append, Option.bind_some, yamlStr, JsonString.read_quote,
    Option.bind_some]
  dsimp only
  rw [endOfLine_append hline hcomment, Option.bind_some, expect_append, Option.bind_some,
    hchannel.1, hchannel.2, hend]
  rfl

theorem readConfigEntries_flatMap (normalize : Str → Str) {results : List ScanResult}
    (h : ∀ r ∈ results, '\'' ∉ r.channel) {fuel : ℕ} (hfuel : results.length ≤ fuel) :
    readConfigEntries fuel (results.flatMap (mirakcEntry normalize))
      = some (results.map fun r ↦ (mirakcName normalize r, r.channel)) := by
  induction results generalizing fuel with
  | nil => cases fuel <;> rfl
  | cons r results ih =>
    obtain ⟨hr, hresults⟩ := List.forall_mem_cons.mp h
    have hentry := readEntry_mirakcEntry normalize hr (results.flatMap (mirakcEntry normalize))
    cases fuel with
    | zero => cases hfuel
    | succ fuel =>
      have hrest := ih hresults (Nat.le_of_succ_le_succ hfuel)
      obtain ⟨c, text, hcons⟩ : ∃ c text, mirakcEntry normalize r
          ++ results.flatMap (mirakcEntry normalize) = c :: text := ⟨_, _, rfl⟩
      rw [List.flatMap_cons, hcons, readConfigEntries, ← hcons, hentry]
      simp only [Option.bind_eq_bind, Option.bind_some, hrest]
      rfl

/-- A name takes room, so the text is long enough for its entries. -/
theorem length_le_flatMap_mirakcEntry (normalize : Str → Str) (results : List ScanResult) :
    results.length ≤ (results.flatMap (mirakcEntry normalize)).length := by
  induction results with
  | nil => exact le_refl _
  | cons r results ih =>
    rw [List.flatMap_cons, List.length_append, List.length_cons]
    have hpos : 0 < (mirakcEntry normalize r).length := List.length_pos_of_ne_nil nofun
    omega

/-- **The section reads back** as the channels that were received, with their names. -/
theorem readConfig_mirakcConfig (normalize : Str → Str) {results : List ScanResult}
    (h : ∀ r ∈ results, '\'' ∉ r.channel) :
    readConfig (mirakcConfig normalize results)
      = some ((results.filter ScanResult.received).map fun r ↦
        (mirakcName normalize r, r.channel)) := by
  rw [readConfig, mirakcConfig, expect_append]
  exact readConfigEntries_flatMap normalize (fun r hr ↦ h r (List.mem_of_mem_filter hr))
    (length_le_flatMap_mirakcEntry normalize _)

/-! ## From the list of channels to the section -/

section Channels

variable {U : Unicode}

/-- What a part stands for has names that are read again. -/
theorem named_of_expandPart {part : Str} {l : List Channel} (h : expandPart U part = .ok l) :
    ∀ c ∈ l, NamedChannel c := by
  intro c hc
  by_cases hminus : '-' ∈ part
  · rcases hlo : sideNumber U (partition '-' part).1 with _ | lo
    · obtain ⟨e, he, -⟩ := PartEscapes.raises (.range hminus (.inl hlo))
      rw [h] at he
      cases he
    rcases hhi : sideNumber U (partition '-' part).2 with _ | hi
    · obtain ⟨e, he, -⟩ := PartEscapes.raises (.range hminus (.inr hhi))
      rw [h] at he
      cases he
    rw [expandPart_of_sides hminus hlo hhi] at h
    split at h
    · cases h
    · obtain ⟨n, -, hn⟩ := exists_of_forall₂ (mapM_eq_ok_iff.mp h).flip hc
      exact (memberChannel_eq_ok hn).2.1
  · rw [expandPart_of_not_mem hminus] at h
    rcases hparse : parseChannel U part with e | c'
    · rw [hparse] at h
      cases h
    · rw [hparse] at h
      obtain rfl := Except.ok.inj h
      rw [List.mem_singleton.mp hc]
      exact named_of_parseChannel hparse

theorem named_of_expandChannelRanges {spec : Str} {channels : List Channel}
    (h : expandChannelRanges U spec = .ok channels) : ∀ c ∈ channels, NamedChannel c := by
  rw [expandChannelRanges] at h
  rcases hparts : (channelParts U spec).mapM (expandPart U) with e | lists
  · rw [hparts] at h
    cases h
  · rw [hparts] at h
    obtain rfl := Except.ok.inj h
    intro c hc
    obtain ⟨l, hl, hcl⟩ := List.mem_flatten.mp hc
    obtain ⟨part, -, hpart⟩ := exists_of_forall₂ (mapM_eq_ok_iff.mp hparts).flip hl
    exact named_of_expandPart hpart c hcl

end Channels

/-- The results are about an initial part of the list, one by one. -/
theorem scanAll_eq_ok {eucJis2004 : Codec} {args : ScanArgs} {channels : List Channel}
    {sessions : List (Bool × ScanSession)} {results : List ScanResult}
    (h : scanAll eucJis2004 args channels sessions = .ok (some results)) :
    results.map (fun r ↦ (⟨r.channel, r.frequencyKhz⟩ : Channel)) <+: channels := by
  induction channels generalizing sessions results with
  | nil =>
    cases h
    exact List.nil_prefix
  | cons ch channels ih =>
    cases sessions with
    | nil => cases h
    | cons session sessions =>
      obtain ⟨stop, w⟩ := session
      rw [scanAll] at h
      cases stop with
      | true =>
        cases h
        exact List.nil_prefix
      | false =>
        rw [if_neg Bool.false_ne_true] at h
        have houtcome := scanChannel_outcome eucJis2004 args ch w
        cases hscan : scanChannel eucJis2004 args ch w with
        | error e =>
          rw [hscan] at h
          cases h
        | ok scanned =>
          rw [hscan] at h houtcome
          cases scanned with
          | none => cases h
          | some r =>
            have hr : r.channel = ch.name ∧ r.frequencyKhz = ch.frequencyKhz := by
              cases houtcome with
              | unlocked _ hname hfrequency => exact ⟨hname, hfrequency⟩
              | finished _ hname hfrequency => exact ⟨hname, hfrequency⟩
            dsimp only at h
            rcases hrest : scanAll eucJis2004 args channels sessions with e | _ | rest <;>
              rw [hrest] at h
            · cases h
            · cases h
            · obtain rfl := Option.some.inj (Except.ok.inj h)
              rw [List.map_cons, hr.1, hr.2]
              exact List.cons_prefix_cons.mpr ⟨rfl, ih hrest⟩

/-- **The section for mirakc reads back.** Whatever was received on the channels of a list, the
results are about its first channels in their order, the section that is printed reads back as the
channels that were received with their names, and each channel it may name is one that
`parse_channel` reads as the channel that was tuned. -/
theorem mirakc_reads_back {U : Unicode} (normalize : Str → Str) {eucJis2004 : Codec}
    {args : ScanArgs} {spec : Str} {channels : List Channel} {sessions : List (Bool × ScanSession)}
    {results : List ScanResult} (hspec : expandChannelRanges U spec = .ok channels)
    (hscan : scanAll eucJis2004 args channels sessions = .ok (some results)) :
    results.map (fun r ↦ (⟨r.channel, r.frequencyKhz⟩ : Channel)) <+: channels ∧
      readConfig (mirakcConfig normalize results)
        = some ((results.filter ScanResult.received).map fun r ↦
          (mirakcName normalize r, r.channel)) ∧
      ∀ r ∈ results, parseChannel U r.channel = .ok ⟨r.channel, r.frequencyKhz⟩ := by
  have hfront := scanAll_eq_ok hscan
  have hnamed : ∀ r ∈ results, NamedChannel ⟨r.channel, r.frequencyKhz⟩ := fun r hr ↦
    named_of_expandChannelRanges hspec _ (hfront.subset (List.mem_map_of_mem hr))
  refine ⟨hfront, readConfig_mirakcConfig normalize fun r hr ↦ ?_, fun r hr ↦ ?_⟩
  · exact not_mem_name (hnamed r hr) (by decide) (by decide)
  · exact parseChannel_name U (hnamed r hr)

/-- A scan of one channel: the tables come with the first read, and two null packets behind them. -/
def oneChannel : ScanSession where
  tune := .ok ()
  waitLock := .ok 20
  level := .ok ⟨true, 65536⟩
  purge := .ok ()
  rounding := BinaryFormat.binary64.rounding
  started := 0
  turns := [⟨false, 0, .ok ((Broadcast.twoStreamNetwork.packets 0 0 0).flatMap Packet.bytes
    ++ (Pipeline.nullPacket ++ Pipeline.nullPacket))⟩, ⟨false, 2, .ok []⟩]
  sample _ := .ok ⟨true, 65536⟩
  lock := .ok 20

/-- What comes out of it, given what the stages hold behind the read. -/
def oneChannelResult (monitor : Monitor) : ScanResult :=
  let level := SignalLevel.value ⟨true, 65536⟩
  ScanResult.fill ⟨['2', '7'], 557143, 20, level, 0, 0, 0, 0, none, [], [], none, none⟩ monitor
    [level, level, level] 20

theorem mirakc_reads_back_oneChannel : ∃ results,
    scanAll Broadcast.katakanaRow ⟨6, 1⟩ [⟨['2', '7'], 557143⟩] [(false, oneChannel)]
      = .ok (some results) ∧ scanCode results = 0 ∧
    readConfig (mirakcConfig id results)
      = some ((results.filter ScanResult.received).map fun r ↦ (mirakcName id r, r.channel)) := by
  have hread : parseChannel .ascii (memberText false 27) = .ok ⟨['2', '7'], 557143⟩ := by
    rw [memberText, parseChannel_of_inMembers (by decide)]
    decide
  have hspec : expandChannelRanges .ascii (join [','] [['2', '7']])
      = .ok [⟨['2', '7'], 557143⟩] := by
    refine expandChannelRanges_names (fun c hc ↦ ?_) (laid_self .ascii _)
    rw [List.mem_singleton.mp hc]
    exact named_of_parseChannel hread
  have hlookup : ((scanLoop Broadcast.katakanaRow ⟨6, 1⟩ oneChannel ({}, {}, {})
      oneChannel.turns).toOption.join.bind fun monitor ↦
        monitor.2.2.info.services.lookup 1024).isSome := by decide +kernel
  obtain ⟨service, hservice⟩ := Option.isSome_iff_exists.mp hlookup
  obtain ⟨monitor, hmonitor, hservice⟩ := Option.bind_eq_some_iff.mp hservice
  have hloop : scanLoop Broadcast.katakanaRow ⟨6, 1⟩ oneChannel ({}, {}, {}) oneChannel.turns
      = .ok (some monitor) := by
    rcases hall : scanLoop Broadcast.katakanaRow ⟨6, 1⟩ oneChannel ({}, {}, {}) oneChannel.turns
      with e | loop <;> rw [hall] at hmonitor
    · cases hmonitor
    · exact congrArg Except.ok hmonitor
  have hchannel : scanChannel Broadcast.katakanaRow ⟨6, 1⟩ ⟨['2', '7'], 557143⟩ oneChannel
      = .ok (some (oneChannelResult monitor)) := by
    change (scanLoop Broadcast.katakanaRow ⟨6, 1⟩ oneChannel ({}, {}, {}) oneChannel.turns >>= _)
      = _
    rw [hloop]
    rfl
  have hscan : scanAll Broadcast.katakanaRow ⟨6, 1⟩ [⟨['2', '7'], 557143⟩] [(false, oneChannel)]
      = .ok (some [oneChannelResult monitor]) := by
    rw [scanAll, if_neg Bool.false_ne_true, hchannel]
    rfl
  have hreceived : (oneChannelResult monitor).received = true :=
    Bool.and_eq_true_iff.mpr ⟨rfl, decide_eq_true (scanServices_ne_nil hservice)⟩
  refine ⟨_, hscan, ?_, (mirakc_reads_back id hspec hscan).2.1⟩
  rw [scanCode, List.filter_cons_of_pos hreceived, if_pos (List.cons_ne_nil _ _)]

end Recdyud
