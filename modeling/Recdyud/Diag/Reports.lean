import Recdyud.Diag.Monitor

/-!
# What the reports add up to

Each report of the monitor is about its own window. What the windows gained adds up to the counters
of the stream, so a stream can be judged from its reports: nothing is counted twice, and no error
falls between two of them.
-/

namespace Recdyud

variable {eucJis2004 : Codec}

/-! ## Windows one by one -/

theorem Window.report_eq_ok {clock : MonitorClock} {last : ℚ} {before : Bytes} {w : Window}
    {record : MonitorReport} (h : w.report clock last before = .ok record) :
    ∃ lock level, w.due.lock = .ok lock ∧ w.due.level = .ok level ∧
      record = .of clock last (dataOf w.turns).length
        (countersOf (before ++ dataOf w.turns) - countersOf before)
        (countersOf (before ++ dataOf w.turns))
        (PacketAligner.absorb {} (before ++ dataOf w.turns)).1.syncLosses w.due.now lock level
        w.due.tsErrors := by
  rw [Window.report] at h
  rcases hlock : w.due.lock with e | lock
  · rw [hlock] at h
    cases h
  rcases hlevel : w.due.level with e | level
  · rw [hlock, hlevel] at h
    cases h
  rw [hlock, hlevel] at h
  exact ⟨lock, level, rfl, rfl, (Except.ok.inj h).symm⟩

/-- The reports of windows are one by one those of a first window and of the others. -/
theorem reportsOf_cons {clock : MonitorClock} {last : ℚ} {before : Bytes} {w : Window}
    {ws : List Window} {records : List MonitorReport}
    (h : reportsOf clock last before (w :: ws) = .ok records) :
    ∃ record others, w.report clock last before = .ok record ∧
      reportsOf clock w.due.now (before ++ dataOf w.turns) ws = .ok others ∧
      records = record :: others := by
  rw [reportsOf] at h
  rcases hw : w.report clock last before with e | record
  · rw [hw] at h
    cases h
  rcases hws : reportsOf clock w.due.now (before ++ dataOf w.turns) ws with e | others
  · rw [hw] at h
    simp only [bind, Except.bind, hws] at h
    cases h
  rw [hw] at h
  simp only [bind, Except.bind, hws] at h
  exact ⟨record, others, rfl, rfl, (Except.ok.inj h).symm⟩

/-- What is gained while a stream goes on is consistent. -/
theorem consistent_countersOf (before fresh : Bytes) :
    (countersOf (before ++ fresh) - countersOf before).Consistent := by
  have hgains := TsAnalyzer.gains_foldl (TsAnalyzer.booked (alignedPackets before))
    (packetsOf ((PacketAligner.absorb {} before).1.absorb fresh).2)
  rw [← TsAnalyzer.foldl_account_eq, ← List.foldl_append, ← alignedPackets_append,
    TsAnalyzer.foldl_account_eq, TsAnalyzer.foldl_account_eq] at hgains
  exact hgains.consistent

/-- What is reported as gained adds up to what was gained. -/
theorem sum_reportsOf {f : TsCounters → ℤ} {g : MonitorReport → ℤ}
    (hsub : ∀ t u, f (t - u) = f t - f u)
    (hg : ∀ clock last received delta total losses now lock level errors,
      g (.of clock last received delta total losses now lock level errors) = f delta)
    {clock : MonitorClock} {last : ℚ} {before : Bytes} {ws : List Window}
    {records : List MonitorReport} (h : reportsOf clock last before ws = .ok records) :
    (records.map g).sum
      = f (countersOf (before ++ dataOf (turnsOf ws))) - f (countersOf before) := by
  induction ws generalizing last before records with
  | nil =>
    obtain rfl := Except.ok.inj h
    rw [turnsOf, List.flatMap_nil, dataOf, List.flatMap_nil, List.append_nil, Int.sub_self]
    rfl
  | cons w ws ih =>
    obtain ⟨record, others, hw, hws, rfl⟩ := reportsOf_cons h
    obtain ⟨lock, level, -, -, rfl⟩ := Window.report_eq_ok hw
    rw [List.map_cons, List.sum_cons, ih hws, hg, hsub, turnsOf_cons, dataOf_append,
      ← List.append_assoc]
    omega

theorem countersOf_nil : countersOf [] = {} := (monitored_eq (fun _ ↦ none) []).2.symm

/-- What holds of the reports of any window holds of all of them. -/
theorem forall_reportsOf {Q : MonitorReport → Prop}
    (hQ : ∀ clock last before w record, Window.report clock last before w = .ok record →
      Q record) {clock : MonitorClock} {last : ℚ} {before : Bytes} {ws : List Window}
    {records : List MonitorReport} (h : reportsOf clock last before ws = .ok records) :
    ∀ r ∈ records, Q r := by
  induction ws generalizing last before records with
  | nil =>
    obtain rfl := Except.ok.inj h
    exact fun _ hr ↦ absurd hr List.not_mem_nil
  | cons w ws ih =>
    obtain ⟨record, others, hw, hws, rfl⟩ := reportsOf_cons h
    exact List.forall_mem_cons.mpr ⟨hQ _ _ _ _ _ hw, ih hws⟩

/-- The counts of all reports, against the counters of the stream. -/
theorem totals_reported {clock : MonitorClock} {turns : List MonitorTurn} {windows : List Window}
    {rest : List MonitorTurn} {s : MonitorState}
    (h : s.Reported eucJis2004 clock turns windows rest) :
    (s.reports.map (·.packets)).sum = (countersOf (dataOf (turnsOf windows))).packets ∧
      (s.reports.map (·.tei)).sum = (countersOf (dataOf (turnsOf windows))).tei ∧
      (s.reports.map (·.ccErrors)).sum = (countersOf (dataOf (turnsOf windows))).ccErrors := by
  have hpackets := sum_reportsOf (f := (·.packets)) (g := (·.packets)) (fun _ _ ↦ rfl)
    (fun _ _ _ _ _ _ _ _ _ _ ↦ rfl) h.reports
  have htei := sum_reportsOf (f := (·.tei)) (g := (·.tei)) (fun _ _ ↦ rfl)
    (fun _ _ _ _ _ _ _ _ _ _ ↦ rfl) h.reports
  have hcc := sum_reportsOf (f := (·.ccErrors)) (g := (·.ccErrors)) (fun _ _ ↦ rfl)
    (fun _ _ _ _ _ _ _ _ _ _ ↦ rfl) h.reports
  rw [countersOf_nil, List.nil_append] at hpackets htei hcc
  exact ⟨hpackets.trans (Int.sub_zero _), htei.trans (Int.sub_zero _), hcc.trans (Int.sub_zero _)⟩

/-- **The monitor reports the stream.** The turns of every run are windows, each up to a report, and
a rest; the reports are computed from the bytes of the windows alone, however they were cut into
chunks; what they report as gained adds up to the counters of the whole stream in front of the last
of them; and the loop raises no `IndexError`. -/
theorem monitor_reports {args : MonitorArgs} {clock : MonitorClock} {turns : List MonitorTurn}
    {s : MonitorState} (hrun : (monitorMachine eucJis2004 args clock).Run turns s) :
    ∃ windows rest, turns = turnsOf windows ++ rest ∧
      reportsOf clock clock.started [] windows = .ok s.reports ∧
      (s.reports.map (·.packets)).sum = (countersOf (dataOf (turnsOf windows))).packets ∧
      (s.reports.map (·.tei)).sum = (countersOf (dataOf (turnsOf windows))).tei ∧
      (s.reports.map (·.ccErrors)).sum = (countersOf (dataOf (turnsOf windows))).ccErrors ∧
      s.exit ≠ some (.raised .indexError) := by
  obtain ⟨windows, rest, h⟩ := exists_reported hrun
  obtain ⟨hpackets, htei, hcc⟩ := totals_reported h
  exact ⟨windows, rest, h.turns, h.reports, hpackets, htei, hcc, h.exit⟩

/-- A clock of floats. -/
def startedAtZero : MonitorClock := ⟨BinaryFormat.binary64.rounding, 0⟩

/-- Four null packets, with a report at 1 s and another turn behind it. -/
def fourPackets : List MonitorTurn :=
  let chunk : Bytes := (List.replicate 4 Pipeline.nullPacket).flatten
  [{ chunk := some chunk, now := 1, lock := .ok 20, level := .ok ⟨true, 65536⟩, tsErrors := 0 },
    { chunk := none, now := 3 / 2, lock := .ok 20, level := .ok ⟨true, 65536⟩, tsErrors := 0 }]

theorem monitor_reports_fourPackets : ∃ s,
    (monitorMachine (fun _ ↦ none) ⟨1, 0, true⟩ startedAtZero).Run fourPackets s ∧
      ∃ windows rest, fourPackets = turnsOf windows ++ rest ∧
        reportsOf startedAtZero 0 [] windows = .ok s.reports :=
  have ⟨s, hrun⟩ := Option.isSome_iff_exists.mp (by decide +kernel)
  have ⟨windows, rest, hturns, hreports, _⟩ := monitor_reports hrun
  ⟨s, hrun, windows, rest, hturns, hreports⟩

/-! ## Verdicts -/

/-- Nothing is wrong with a window: the tuner was locked, packets came, and none of them was errored
or broke a counter. -/
theorem verdict_eq_ok_iff {lock : ℕ} {delta : TsCounters} :
    verdict lock delta = .ok
      ↔ lock > lockThreshold ∧ delta.packets ≠ 0 ∧ delta.tei = 0 ∧ delta.ccErrors = 0 := by
  have hpercent : delta.tei = 0 → ¬delta.teiPercent ≥ 90 := by
    intro htei
    rw [TsCounters.teiPercent, htei]
    norm_num
  rw [verdict]
  split <;> rename_i hlock
  · exact ⟨nofun, fun h ↦ absurd h.1 (not_lt.mpr hlock)⟩
  split <;> rename_i hpackets
  · exact ⟨nofun, fun h ↦ absurd hpackets h.2.1⟩
  split <;> rename_i hlost
  · exact ⟨nofun, fun h ↦ absurd hlost (hpercent h.2.2.1)⟩
  split <;> rename_i htei
  · exact ⟨nofun, fun h ↦ absurd h.2.2.1 htei⟩
  split <;> rename_i hcc
  · exact ⟨nofun, fun h ↦ absurd h.2.2.2 hcc⟩
  · exact ⟨fun _ ↦ ⟨not_le.mp hlock, hpackets, not_not.mp htei, not_not.mp hcc⟩, fun _ ↦ rfl⟩

/-- What the report of a window says, and that its counts are counts. -/
theorem Window.verdict_of_report {clock : MonitorClock} {last : ℚ} {before : Bytes} {w : Window}
    {record : MonitorReport} (h : w.report clock last before = .ok record) :
    (record.verdict = .ok ↔ (record.locked = true ∧ record.packets ≠ 0) ∧
      record.tei = 0 ∧ record.ccErrors = 0) ∧ 0 ≤ record.tei ∧ 0 ≤ record.ccErrors := by
  obtain ⟨lock, level, -, -, rfl⟩ := Window.report_eq_ok h
  have hconsistent := consistent_countersOf before (dataOf w.turns)
  refine ⟨?_, hconsistent.tei_nonneg, hconsistent.ccErrors_nonneg⟩
  refine verdict_eq_ok_iff.trans ?_
  rw [and_assoc]
  exact and_congr_left fun _ ↦ (decide_eq_true_iff).symm

/-- A sum of counts is 0 when all of them are. -/
theorem sum_map_eq_zero_iff {α : Type} {f : α → ℤ} {l : List α} (h : ∀ a ∈ l, 0 ≤ f a) :
    (l.map f).sum = 0 ↔ ∀ a ∈ l, f a = 0 := by
  induction l with
  | nil => exact ⟨fun _ _ ha ↦ absurd ha List.not_mem_nil, fun _ ↦ rfl⟩
  | cons a l ih =>
    obtain ⟨ha, hl⟩ := List.forall_mem_cons.mp h
    have hsum : 0 ≤ (l.map f).sum := List.sum_nonneg (List.forall_mem_map.mpr hl)
    rw [List.map_cons, List.sum_cons, List.forall_mem_cons, ← ih hl]
    omega

/-- The counters of a stream without errors. -/
theorem countersOf_eq_zero_iff (stream : Bytes) :
    (countersOf stream).tei = 0 ∧ (countersOf stream).ccErrors = 0
      ↔ (∀ p ∈ alignedPackets stream, p.tei = false) ∧ ∀ pid ∈ TsAnalyzer.countedPids,
        breaks TsAnalyzer.GoesOn (TsAnalyzer.ccsOf pid (alignedPackets stream)) = 0 := by
  refine and_congr ?_ ?_
  · change ((alignedPackets stream).countP (·.tei) : ℤ) = 0 ↔ _
    rw [Int.natCast_eq_zero, List.countP_eq_zero]
    exact forall₂_congr fun p _ ↦ iff_of_eq (Bool.not_eq_true _)
  · change (TsAnalyzer.ccErrorsOf (alignedPackets stream) : ℤ) = 0 ↔ _
    rw [Int.natCast_eq_zero, TsAnalyzer.ccErrorsOf, Finset.sum_eq_zero_iff]

/-- **No error escapes the verdicts.** All reports of a run say OK exactly when at each of them the
tuner was locked and packets had come, and the whole stream in front of the last report has no
errored packet and no break in the counters of any PID, between reports as well as within them. -/
theorem monitor_all_ok_iff {args : MonitorArgs} {clock : MonitorClock} {turns : List MonitorTurn}
    {s : MonitorState} (hrun : (monitorMachine eucJis2004 args clock).Run turns s) :
    ∃ windows rest, turns = turnsOf windows ++ rest ∧
      reportsOf clock clock.started [] windows = .ok s.reports ∧
      ((∀ r ∈ s.reports, r.verdict = .ok) ↔
        (∀ r ∈ s.reports, r.locked = true ∧ r.packets ≠ 0) ∧
        (∀ p ∈ alignedPackets (dataOf (turnsOf windows)), p.tei = false) ∧
        ∀ pid ∈ TsAnalyzer.countedPids, breaks TsAnalyzer.GoesOn
          (TsAnalyzer.ccsOf pid (alignedPackets (dataOf (turnsOf windows)))) = 0) := by
  obtain ⟨windows, rest, h⟩ := exists_reported hrun
  obtain ⟨hpackets, htei, hcc⟩ := totals_reported h
  have hreport := forall_reportsOf (fun _ _ _ _ _ hw ↦ Window.verdict_of_report hw) h.reports
  refine ⟨windows, rest, h.turns, h.reports, ?_⟩
  rw [← countersOf_eq_zero_iff, ← htei, ← hcc, sum_map_eq_zero_iff fun r hr ↦ (hreport r hr).2.1,
    sum_map_eq_zero_iff fun r hr ↦ (hreport r hr).2.2, ← forall₂_and, ← forall₂_and]
  exact forall₂_congr fun r hr ↦ (hreport r hr).1

theorem monitor_all_ok_iff_fourPackets : ∃ s,
    (monitorMachine (fun _ ↦ none) ⟨1, 0, true⟩ startedAtZero).Run fourPackets s ∧
      ∃ windows rest, fourPackets = turnsOf windows ++ rest ∧
        reportsOf startedAtZero 0 [] windows = .ok s.reports :=
  have ⟨s, hrun⟩ := Option.isSome_iff_exists.mp (by decide +kernel)
  have ⟨windows, rest, hturns, hreports, _⟩ := monitor_all_ok_iff hrun
  ⟨s, hrun, windows, rest, hturns, hreports⟩

end Recdyud
