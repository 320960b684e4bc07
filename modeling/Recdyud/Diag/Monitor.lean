import Recdyud.Cli.Receive
import Recdyud.Device.Status
import Recdyud.Lib.Machine
import Recdyud.Ts.CounterBounds

/-!
# The monitor

`cmd_monitor` takes chunks from the reader and, whenever a report is due, asks the tuner for lock
and level and prints what was gained since the report before. The turns of its loop are the actions
of a machine: what a turn meets — a chunk or none, the clock, the answers of the tuner — comes from
outside, and the machine says what is printed.

The loop keeps running totals and differences of them. `Window` is the same run seen from its
reports: the turns between two reports, and the one in which the second is due. `reportsOf` says
what is printed about windows without looking at the state of the loop, from the bytes alone, and
`monitor_reports` that the loop prints that.
-/

namespace Recdyud

/-! ## The loop -/

/-- The verdicts of `_verdict`. -/
inductive Verdict where
  | noLock
  | noData
  | fullsegLost
  | tei
  | cc
  | ok
  deriving DecidableEq, Repr

/-- The text that is returned. -/
def Verdict.text : Verdict → String
  | noLock => "NG: no lock"
  | noData => "NG: no data"
  | fullsegLost => "NG: full-seg layer lost"
  | tei => "NG: TEI"
  | cc => "NG: CC"
  | ok => "OK"

/-- `_verdict` -/
def verdict (lock : ℕ) (delta : TsCounters) : Verdict :=
  if lock ≤ lockThreshold then .noLock
  else if delta.packets = 0 then .noData
  else if delta.teiPercent ≥ 90 then .fullsegLost
  else if delta.tei ≠ 0 then .tei
  else if delta.ccErrors ≠ 0 then .cc
  else .ok

/-- The `record` of a report, before its numbers are rounded. -/
structure MonitorReport where
  time : ℚ
  lock : ℕ
  locked : Bool
  signal : ℚ
  signalRaw : ℕ
  mbps : ℚ
  packets : ℤ
  tei : ℤ
  teiPercent : ℚ
  ccErrors : ℤ
  teiTotal : ℤ
  ccErrorsTotal : ℤ
  syncLosses : ℕ
  usbErrors : ℕ
  scrambledPercent : ℚ
  verdict : Verdict

/-- What is printed: reports, and once the line with the services. -/
inductive Printed where
  | report (record : MonitorReport)
  | services (info : TransportInfo)

/-- What a turn of the loop meets. -/
structure MonitorTurn where
  /-- `reader.queue.get(timeout=0.05)`, or `none` for `queue.Empty` -/
  chunk : Option Bytes
  /-- `time.monotonic()` -/
  now : ℚ
  /-- `tuner.get_lock_status()`, if it is called -/
  lock : Except Raised ℕ
  /-- `tuner.get_signal_level()`, if it is called -/
  level : Except Raised SignalLevel
  /-- `tuner.ts_errors` -/
  tsErrors : ℕ

/-- An exception out of the loop. -/
inductive MonitorRaised where
  | indexError
  | zeroDivisionError
  | tuner (e : Raised)
  deriving DecidableEq, Repr

/-- The clock: `started`, and how its sums and differences are rounded. -/
structure MonitorClock where
  rounding : Rounding ℚ
  started : ℚ

/-- `now - started` -/
def MonitorClock.elapsed (clock : MonitorClock) (now : ℚ) : ℚ :=
  clock.rounding.sub now clock.started

/-- `next_report` behind a report at `now` -/
def MonitorClock.next (clock : MonitorClock) (interval nextReport now : ℚ) : ℚ :=
  let nextReport := clock.rounding.add nextReport interval
  if nextReport < now then clock.rounding.add now interval else nextReport

/-- The options of `cmd_monitor`. -/
structure MonitorArgs where
  interval : ℚ
  duration : ℚ
  json : Bool

/-- The variables of the loop. -/
structure MonitorLoop where
  monitor : Monitor := ({}, {}, {})
  clock : MonitorClock
  last : ℚ
  nextReport : ℚ
  prev : TsCounters := {}
  received : ℕ := 0
  siPrinted : Bool := false

/-- In front of the first turn. -/
def MonitorLoop.start (args : MonitorArgs) (clock : MonitorClock) : MonitorLoop :=
  { clock, last := clock.started, nextReport := clock.rounding.add clock.started args.interval }

/-- The bytes of a turn; neither `None` nor `b""` passes `if chunk`. -/
def MonitorTurn.data (t : MonitorTurn) : Bytes := t.chunk.getD []

/-- What a report says, given what was gained since the last one. -/
def MonitorReport.of (clock : MonitorClock) (last : ℚ) (received : ℕ) (delta total : TsCounters)
    (syncLosses : ℕ) (now : ℚ) (lock : ℕ) (level : SignalLevel) (usbErrors : ℕ) :
    MonitorReport where
  time := clock.elapsed now
  lock
  locked := decide (lock > lockThreshold)
  signal := level.value
  signalRaw := level.raw
  mbps := clock.rounding.round
    (clock.rounding.round (received * 8 / clock.rounding.sub now last) / 1000000)
  packets := delta.packets
  tei := delta.tei
  teiPercent := delta.teiPercent
  ccErrors := delta.ccErrors
  teiTotal := total.tei
  ccErrorsTotal := total.ccErrors
  syncLosses
  usbErrors
  scrambledPercent := delta.scrambledPercent
  verdict := Recdyud.verdict lock delta

variable (eucJis2004 : Codec)

namespace MonitorLoop

/-- `if chunk:` -/
def take (self : MonitorLoop) (chunk : Bytes) : Except MonitorRaised MonitorLoop :=
  match receive eucJis2004 self.monitor chunk with
  | .error _ => .error .indexError
  | .ok monitor => .ok { self with monitor, received := self.received + chunk.length }

/-- What follows `if now < next_report: continue`. The last component is whether the loop is left by
its `break`. -/
def report (args : MonitorArgs) (self : MonitorLoop) (t : MonitorTurn) :
    Except MonitorRaised (MonitorLoop × List Printed × Bool) :=
  match t.lock with
  | .error e => .error (.tuner e)
  | .ok lock =>
    match t.level with
    | .error e => .error (.tuner e)
    | .ok level =>
      let (aligner, analyzer, si) := self.monitor
      let total := analyzer.total
      if self.clock.rounding.sub t.now self.last = 0 then
        .error .zeroDivisionError
      else
        let record := MonitorReport.of self.clock self.last self.received (total - self.prev)
          total aligner.syncLosses t.now lock level t.tsErrors
        let announce := !args.json && !self.siPrinted && si.info.complete
        .ok ({ self with
            prev := total
            received := 0
            last := t.now
            siPrinted := self.siPrinted || announce
            nextReport := self.clock.next args.interval self.nextReport t.now },
          .report record :: if announce then [.services si.info] else [],
          decide (args.duration ≠ 0 ∧ self.clock.elapsed t.now ≥ args.duration))

/-- A turn of the loop. -/
def turn (args : MonitorArgs) (self : MonitorLoop) (t : MonitorTurn) :
    Except MonitorRaised (MonitorLoop × List Printed × Bool) :=
  match self.take eucJis2004 t.data with
  | .error e => .error e
  | .ok self => if t.now < self.nextReport then .ok (self, [], false) else self.report args t

end MonitorLoop

/-- How the loop was left, other than by the stop event. -/
inductive MonitorExit where
  /-- the `break` -/
  | duration
  | raised (e : MonitorRaised)
  deriving DecidableEq, Repr

/-- The loop, with what it has printed and whether it was left. -/
structure MonitorState where
  loop : MonitorLoop
  printed : List Printed := []
  exit : Option MonitorExit := none

/-- A turn of `cmd_monitor`. -/
def MonitorState.step (args : MonitorArgs) (s : MonitorState) (t : MonitorTurn) :
    Option MonitorState :=
  if s.exit.isSome then none
  else match s.loop.turn eucJis2004 args t with
    | .error e => some { s with exit := some (.raised e) }
    | .ok (loop, printed, stop) =>
      some { loop, printed := s.printed ++ printed, exit := if stop then some .duration else none }

/-- The runs of `cmd_monitor` behind `reader.start()`, up to the stop event. -/
def monitorMachine (args : MonitorArgs) (clock : MonitorClock) :
    Machine MonitorState MonitorTurn where
  init := { loop := .start args clock }
  step s t := s.step eucJis2004 args t

/-- The reports among what was printed. -/
def MonitorState.reports (s : MonitorState) : List MonitorReport :=
  s.printed.filterMap fun
    | .report record => some record
    | .services _ => none

/-! ## Windows -/

/-- The turns up to a report: those in which none was due, and the one in which it was. -/
structure Window where
  quiet : List MonitorTurn
  due : MonitorTurn

/-- The turns of a window. -/
def Window.turns (w : Window) : List MonitorTurn := w.quiet ++ [w.due]

/-- The bytes of some turns. -/
def dataOf (turns : List MonitorTurn) : Bytes := turns.flatMap MonitorTurn.data

/-- The counters of a stream, from its packets. -/
def countersOf (stream : Bytes) : TsCounters := (TsAnalyzer.booked (alignedPackets stream)).total

/-- What is to be reported at the end of a window, with `before` received in front of it. -/
def Window.report (clock : MonitorClock) (last : ℚ) (before : Bytes) (w : Window) :
    Except Raised MonitorReport := do
  let lock ← w.due.lock
  let level ← w.due.level
  let stream := before ++ dataOf w.turns
  return .of clock last (dataOf w.turns).length (countersOf stream - countersOf before)
    (countersOf stream) (PacketAligner.absorb {} stream).1.syncLosses w.due.now lock level
    w.due.tsErrors

/-- The time of the last report, or `last` when there is none. -/
def lastDue (last : ℚ) (windows : List Window) : ℚ := windows.foldl (fun _ w ↦ w.due.now) last

/-- The turns of some windows. -/
def turnsOf (windows : List Window) : List MonitorTurn := windows.flatMap Window.turns

/-- What is to be reported about windows that follow each other. -/
def reportsOf (clock : MonitorClock) (last : ℚ) (before : Bytes) :
    List Window → Except Raised (List MonitorReport)
  | [] => .ok []
  | w :: ws => do
    let record ← w.report clock last before
    let records ← reportsOf clock w.due.now (before ++ dataOf w.turns) ws
    return record :: records

theorem dataOf_append (a b : List MonitorTurn) : dataOf (a ++ b) = dataOf a ++ dataOf b :=
  List.flatMap_append

theorem turnsOf_concat (ws : List Window) (w : Window) :
    turnsOf (ws ++ [w]) = turnsOf ws ++ w.turns := by
  rw [turnsOf, List.flatMap_append, List.flatMap_singleton]
  rfl

theorem turnsOf_cons (w : Window) (ws : List Window) : turnsOf (w :: ws) = w.turns ++ turnsOf ws :=
  List.flatMap_cons

theorem lastDue_concat (last : ℚ) (ws : List Window) (w : Window) :
    lastDue last (ws ++ [w]) = w.due.now := by
  rw [lastDue, List.foldl_append]
  rfl

/-- One window more. -/
theorem reportsOf_concat {clock : MonitorClock} {last : ℚ} {before : Bytes} {ws : List Window}
    {w : Window} {records : List MonitorReport} {record : MonitorReport}
    (hws : reportsOf clock last before ws = .ok records)
    (hw : w.report clock (lastDue last ws) (before ++ dataOf (turnsOf ws)) = .ok record) :
    reportsOf clock last before (ws ++ [w]) = .ok (records ++ [record]) := by
  induction ws generalizing last before records with
  | nil =>
    obtain rfl := Except.ok.inj hws
    rw [turnsOf, List.flatMap_nil, dataOf, List.flatMap_nil, List.append_nil] at hw
    rw [List.nil_append, reportsOf, show w.report clock last before = .ok record from hw]
    rfl
  | cons v vs ih =>
    rw [reportsOf] at hws
    rw [turnsOf_cons, dataOf_append, ← List.append_assoc] at hw
    rcases hv : v.report clock last before with e | first
    · rw [hv] at hws
      cases hws
    · rcases hvs : reportsOf clock v.due.now (before ++ dataOf v.turns) vs with e | others
      · rw [hv] at hws
        simp only [bind, Except.bind, hvs] at hws
        cases hws
      · rw [hv] at hws
        simp only [bind, Except.bind, hvs] at hws
        obtain rfl := Except.ok.inj hws
        rw [List.cons_append, reportsOf, hv]
        simp only [bind, Except.bind, ih hvs hw]
        rfl

/-! ## The loop prints what is to be reported -/

/-- What the monitor holds after a stream. -/
def monitored (stream : Bytes) : Monitor := (monitorStage eucJis2004 ({}, {}, {}) stream).1

theorem receive_monitored (stream chunk : Bytes) :
    receive eucJis2004 (monitored eucJis2004 stream) chunk
      = .ok (monitored eucJis2004 (stream ++ chunk)) := by
  have happend := (monitorStage_incremental eucJis2004).state ({}, {}, {}) stream chunk trivial
    trivial
  rw [receive_eq, monitored, monitored, happend]

/-- The aligner and the analyzer after a stream. -/
theorem monitored_eq (stream : Bytes) :
    (monitored eucJis2004 stream).1 = (PacketAligner.absorb {} stream).1 ∧
      (monitored eucJis2004 stream).2.1.total = countersOf stream := by
  cases stream with
  | nil =>
    have hnone : alignedPackets [] = [] := by
      rw [alignedPackets, PacketAligner.absorb_nil_fresh, packetsOf_of_lt (by decide)]
    rw [PacketAligner.absorb_nil_fresh, countersOf, hnone, TsAnalyzer.booked_nil]
    exact ⟨rfl, rfl⟩
  | cons b stream =>
    refine ⟨rfl, ?_⟩
    change (bookPackets {} (PacketAligner.absorb {} (b :: stream)).2).total = _
    rw [bookPackets, TsAnalyzer.foldl_account_eq]
    rfl

/-- What is known of the loop between its turns: `windows` have been reported, `rest` has come
since. -/
structure MonitorLoop.Holds (loop : MonitorLoop) (clock : MonitorClock) (windows : List Window)
    (rest : List MonitorTurn) : Prop where
  start : loop.clock = clock
  monitor : loop.monitor = monitored eucJis2004 (dataOf (turnsOf windows ++ rest))
  prev : loop.prev = countersOf (dataOf (turnsOf windows))
  received : loop.received = (dataOf rest).length
  last : loop.last = lastDue clock.started windows

/-- What a turn of a loop that goes on can do: raise, or wait, or report. -/
inductive MonitorStep (args : MonitorArgs) (clock : MonitorClock) (windows : List Window)
    (rest : List MonitorTurn) (s : MonitorState) (t : MonitorTurn) (s' : MonitorState) : Prop
  | raised (e : MonitorRaised) (hindex : e ≠ .indexError)
    (hzero : e = .zeroDivisionError → s.loop.nextReport ≤ t.now ∧
      clock.rounding.sub t.now (lastDue clock.started windows) = 0)
    (hexit : s'.exit = some (.raised e)) (hreports : s'.reports = s.reports)
  | waited (hnow : t.now < s.loop.nextReport) (hexit : s'.exit = none)
    (hreports : s'.reports = s.reports)
    (hholds : s'.loop.Holds eucJis2004 clock windows (rest ++ [t]))
    (hnext : s'.loop.nextReport = s.loop.nextReport)
  | reported (record : MonitorReport) (hnow : s.loop.nextReport ≤ t.now)
    (hrecord : Window.report clock (lastDue clock.started windows) (dataOf (turnsOf windows))
      ⟨rest, t⟩ = .ok record)
    (hexit : s'.exit = if args.duration ≠ 0 ∧ clock.elapsed t.now ≥ args.duration
      then some .duration else none)
    (hreports : s'.reports = s.reports ++ [record])
    (hholds : s'.loop.Holds eucJis2004 clock (windows ++ [⟨rest, t⟩]) [])
    (hnext : s'.loop.nextReport = clock.next args.interval s.loop.nextReport t.now)

/-- What a run has come to: its turns are windows and a rest, the reports are those of the windows,
and a loop that goes on holds what it should. -/
structure MonitorState.Reported (s : MonitorState) (clock : MonitorClock) (turns : List MonitorTurn)
    (windows : List Window) (rest : List MonitorTurn) : Prop where
  turns : turns = turnsOf windows ++ rest
  reports : reportsOf clock clock.started [] windows = .ok s.reports
  holds : s.exit = none → s.loop.Holds eucJis2004 clock windows rest
  exit : s.exit ≠ some (.raised .indexError)

variable {eucJis2004}

theorem MonitorLoop.Holds.take {loop : MonitorLoop} {clock : MonitorClock} {windows : List Window}
    {rest : List MonitorTurn} (h : loop.Holds eucJis2004 clock windows rest) (t : MonitorTurn) :
    ∃ loop', loop.take eucJis2004 t.data = .ok loop' ∧
      loop'.Holds eucJis2004 clock windows (rest ++ [t]) ∧
      loop'.nextReport = loop.nextReport := by
  have hdata : dataOf (turnsOf windows ++ rest) ++ t.data
      = dataOf (turnsOf windows ++ (rest ++ [t])) := by
    rw [← List.append_assoc, dataOf_append _ [t]]
    exact congrArg _ (List.flatMap_singleton _ _).symm
  have htake : loop.take eucJis2004 t.data = .ok { loop with
      monitor := monitored eucJis2004 (dataOf (turnsOf windows ++ (rest ++ [t])))
      received := loop.received + t.data.length } := by
    rw [MonitorLoop.take, h.monitor, receive_monitored, hdata]
  refine ⟨_, htake, ⟨h.start, rfl, h.prev, ?_, h.last⟩, rfl⟩
  change loop.received + t.data.length = _
  rw [h.received, dataOf_append, List.length_append]
  exact congrArg _ (congrArg _ (List.flatMap_singleton _ _).symm)

theorem MonitorLoop.report_error {args : MonitorArgs} {loop : MonitorLoop} {t : MonitorTurn}
    {e : MonitorRaised} (h : loop.report args t = .error e) :
    e ≠ .indexError ∧ (e = .zeroDivisionError → loop.clock.rounding.sub t.now loop.last = 0) := by
  rw [MonitorLoop.report] at h
  rcases hlock : t.lock with e' | lock
  · rw [hlock] at h
    obtain rfl := Except.error.inj h
    exact ⟨nofun, nofun⟩
  rcases hlevel : t.level with e' | level
  · rw [hlock, hlevel] at h
    obtain rfl := Except.error.inj h
    exact ⟨nofun, nofun⟩
  rw [hlock, hlevel] at h
  dsimp only at h
  split at h
  · rename_i hzero
    obtain rfl := Except.error.inj h
    exact ⟨nofun, fun _ ↦ hzero⟩
  · cases h

/-- A report that is made is the one of the window, and the loop goes on behind it. -/
theorem MonitorLoop.Holds.report {args : MonitorArgs} {loop loop' : MonitorLoop}
    {clock : MonitorClock} {windows : List Window} {rest : List MonitorTurn} {t : MonitorTurn}
    {printed : List Printed} {stop : Bool}
    (hloop : loop.Holds eucJis2004 clock windows (rest ++ [t]))
    (h : loop.report args t = .ok (loop', printed, stop)) :
    ∃ record info, printed = .report record :: info ∧
      (∀ x ∈ info, ∃ services, x = .services services) ∧
      Window.report clock (lastDue clock.started windows) (dataOf (turnsOf windows)) ⟨rest, t⟩
        = .ok record ∧
      stop = decide (args.duration ≠ 0 ∧ clock.elapsed t.now ≥ args.duration) ∧
      loop'.Holds eucJis2004 clock (windows ++ [⟨rest, t⟩]) [] ∧
      loop'.nextReport = clock.next args.interval loop.nextReport t.now := by
  obtain ⟨haligner, htotal⟩ := monitored_eq eucJis2004 (dataOf (turnsOf windows ++ (rest ++ [t])))
  rw [← hloop.monitor] at haligner htotal
  have hstream : dataOf (turnsOf windows ++ (rest ++ [t]))
      = dataOf (turnsOf windows) ++ dataOf (Window.turns ⟨rest, t⟩) := dataOf_append _ _
  have hturns : turnsOf (windows ++ [⟨rest, t⟩]) ++ [] = turnsOf windows ++ (rest ++ [t]) := by
    rw [List.append_nil, turnsOf_concat]
    rfl
  rw [MonitorLoop.report] at h
  rcases hlock : t.lock with e | lock
  · rw [hlock] at h
    cases h
  rcases hlevel : t.level with e | level
  · rw [hlock, hlevel] at h
    cases h
  rw [hlock, hlevel] at h
  dsimp only at h
  split at h
  · cases h
  rw [hloop.last, hloop.start] at h
  cases h
  have hdue := (lastDue_concat clock.started windows ⟨rest, t⟩).symm
  refine ⟨_, _, rfl, ?_, ?_, rfl, ⟨rfl, ?_, ?_, rfl, hdue⟩, rfl⟩
  · intro x hx
    split at hx
    · exact ⟨_, List.mem_singleton.mp hx⟩
    · cases hx
  · rw [Window.report, hlock, hlevel, haligner, htotal, hloop.prev, hloop.received, hstream]
    rfl
  · rw [hloop.monitor, hturns]
  · rw [turnsOf_concat, dataOf_append, ← hstream]
    exact htotal

theorem MonitorState.reports_append {s s' : MonitorState} {record : MonitorReport}
    {info : List Printed} (hprinted : s'.printed = s.printed ++ .report record :: info)
    (hinfo : ∀ x ∈ info, ∃ services, x = .services services) :
    s'.reports = s.reports ++ [record] := by
  have hnone : info.filterMap (fun
      | .report record => some record
      | .services _ => none) = [] := by
    refine List.filterMap_eq_nil_iff.mpr fun x hx ↦ ?_
    obtain ⟨services, rfl⟩ := hinfo x hx
    rfl
  rw [MonitorState.reports, hprinted, List.filterMap_append, List.filterMap_cons, hnone]
  rfl

/-- **A turn of the loop.** -/
theorem MonitorState.step_cases {args : MonitorArgs} {clock : MonitorClock} {windows : List Window}
    {rest : List MonitorTurn} {s s' : MonitorState} {t : MonitorTurn}
    (hholds : s.exit = none → s.loop.Holds eucJis2004 clock windows rest)
    (h : s.step eucJis2004 args t = some s') :
    s.exit = none ∧ MonitorStep eucJis2004 args clock windows rest s t s' := by
  rw [MonitorState.step] at h
  cases hexit : s.exit with
  | some exit => rw [hexit] at h; cases h
  | none =>
    refine ⟨rfl, ?_⟩
    obtain ⟨loop, htake, hloop, hnext⟩ := (hholds hexit).take t
    rw [hexit, if_neg (by simp), MonitorLoop.turn, htake] at h
    dsimp only at h
    rw [hnext] at h
    by_cases hnow : t.now < s.loop.nextReport
    · rw [if_pos hnow] at h
      obtain rfl := Option.some.inj h
      refine .waited hnow rfl ?_ hloop hnext
      rw [MonitorState.reports, MonitorState.reports, List.append_nil]
    · rw [if_neg hnow] at h
      rcases hreport : loop.report args t with e | ⟨loop', printed, stop⟩
      · obtain ⟨hindex, hzero⟩ := MonitorLoop.report_error hreport
        rw [hreport] at h
        obtain rfl := Option.some.inj h
        rw [hloop.start, hloop.last] at hzero
        exact .raised e hindex (fun he ↦ ⟨not_lt.mp hnow, hzero he⟩) rfl rfl
      · obtain ⟨record, info, hprinted, hinfo, hrecord, hstop, hholds', hnext'⟩ :=
          hloop.report hreport
        rw [hreport] at h
        obtain rfl := Option.some.inj h
        refine .reported record (not_lt.mp hnow) hrecord ?_ ?_ hholds' (hnext ▸ hnext')
        · rw [hstop]
          simp only [decide_eq_true_eq]
        · exact MonitorState.reports_append (by rw [hprinted]) hinfo

/-! ## Runs -/

section Reported

variable {args : MonitorArgs} {clock : MonitorClock} {turns : List MonitorTurn}
  {windows : List Window} {rest : List MonitorTurn} {s s' : MonitorState} {t : MonitorTurn}

theorem MonitorState.Reported.raised {e : MonitorRaised}
    (h : s.Reported eucJis2004 clock turns windows rest)
    (hindex : e ≠ .indexError) (hexit : s'.exit = some (.raised e))
    (hreports : s'.reports = s.reports) :
    s'.Reported eucJis2004 clock (turns ++ [t]) windows (rest ++ [t]) := by
  refine ⟨?_, hreports ▸ h.reports, ?_, ?_⟩
  · rw [h.turns, List.append_assoc]
  · rw [hexit]
    exact nofun
  · rw [hexit]
    exact fun he ↦ hindex (MonitorExit.raised.inj (Option.some.inj he))

theorem MonitorState.Reported.waited
    (h : s.Reported eucJis2004 clock turns windows rest)
    (hexit : s'.exit = none) (hreports : s'.reports = s.reports)
    (hholds : s'.loop.Holds eucJis2004 clock windows (rest ++ [t])) :
    s'.Reported eucJis2004 clock (turns ++ [t]) windows (rest ++ [t]) := by
  refine ⟨?_, hreports ▸ h.reports, fun _ ↦ hholds, ?_⟩
  · rw [h.turns, List.append_assoc]
  · rw [hexit]
    exact nofun

theorem MonitorState.Reported.reported {record : MonitorReport}
    (h : s.Reported eucJis2004 clock turns windows rest)
    (hrecord : Window.report clock (lastDue clock.started windows) (dataOf (turnsOf windows))
      ⟨rest, t⟩ = .ok record)
    (hexit : s'.exit ≠ some (.raised .indexError)) (hreports : s'.reports = s.reports ++ [record])
    (hholds : s'.loop.Holds eucJis2004 clock (windows ++ [⟨rest, t⟩]) []) :
    s'.Reported eucJis2004 clock (turns ++ [t]) (windows ++ [⟨rest, t⟩]) [] := by
  refine ⟨?_, ?_, fun _ ↦ hholds, hexit⟩
  · rw [h.turns, turnsOf_concat, List.append_nil, List.append_assoc]
    rfl
  · rw [hreports]
    exact reportsOf_concat h.reports hrecord

theorem MonitorState.reported_init :
    (monitorMachine eucJis2004 args clock).init.Reported eucJis2004 clock []
      [] [] :=
  ⟨rfl, rfl, fun _ ↦ ⟨rfl, rfl, (monitored_eq eucJis2004 []).2, rfl, rfl⟩, nofun⟩

/-- **Runs** come to windows and a rest. -/
theorem exists_reported (hrun : (monitorMachine eucJis2004 args clock).Run turns s) :
    ∃ windows rest, s.Reported eucJis2004 clock turns windows rest := by
  refine Machine.Run.induction (M := monitorMachine eucJis2004 args clock)
    (I := fun turns s ↦ ∃ windows rest,
      s.Reported eucJis2004 clock turns windows rest)
    ⟨[], [], MonitorState.reported_init⟩ ?_ hrun
  rintro turns s t s' - ⟨windows, rest, h⟩ hstep
  cases (MonitorState.step_cases h.holds hstep).2 with
  | raised e hindex hzero hexit hreports => exact ⟨_, _, h.raised hindex hexit hreports⟩
  | waited hnow hexit hreports hholds hnext => exact ⟨_, _, h.waited hexit hreports hholds⟩
  | reported record hnow hrecord hexit hreports hholds hnext =>
    refine ⟨_, _, h.reported hrecord ?_ hreports hholds⟩
    rw [hexit]
    split <;> exact nofun

end Reported

end Recdyud
