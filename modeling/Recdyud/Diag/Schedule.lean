import Recdyud.Diag.Reports

/-!
# When the monitor reports

`next_report` goes on by the interval, or restarts from the clock when that is already past. The
reports are therefore never ahead of their schedule, and never behind it by more than a turn.

The rate is computed over the time since the last report, and the loop does not check that any time
has passed. It raises `ZeroDivisionError` only when the clock stands where it stood at that report.

The schedule is a sum of intervals, each addition rounded (`MonitorClock.earliest`). In floats a
report may so come a little before its number of intervals has passed; in exact numbers it may not.
-/

namespace Recdyud

variable {eucJis2004 : Codec}

/-- Where the `k`-th report is due, unless one before it was late. -/
def MonitorClock.earliest (clock : MonitorClock) (interval : ℚ) : ℕ → ℚ
  | 0 => clock.started
  | k + 1 => clock.rounding.add (clock.earliest interval k) interval

theorem MonitorClock.elapsed_earliest {clock : MonitorClock} (h : clock.rounding = .exact)
    (interval : ℚ) (k : ℕ) : clock.elapsed (clock.earliest interval k) = k * interval := by
  have hsub (now : ℚ) : clock.elapsed now = now - clock.started := by
    rw [elapsed, h]
    rfl
  have hadd (a : ℚ) : clock.rounding.add a interval = a + interval := by
    rw [h]
    rfl
  rw [hsub]
  induction k with
  | zero => rw [earliest, Nat.cast_zero, zero_mul, sub_self]
  | succ k ih =>
    rw [earliest, hadd, add_sub_right_comm, ih]
    push_cast
    ring

/-- All readings of the clock are numbers that it tells apart. -/
def MonitorClock.Reads (clock : MonitorClock) (turns : List MonitorTurn) : Prop :=
  ∀ x ∈ clock.started :: turns.map MonitorTurn.now, clock.rounding.IsNumber x

/-- The clock goes on: each reading is later than those in front of it. -/
def Ticking (started : ℚ) (turns : List MonitorTurn) : Prop :=
  (started :: turns.map MonitorTurn.now).Pairwise (· < ·)

/-- The last report, or the start, is one of the readings. -/
theorem lastDue_mem (started : ℚ) (windows : List Window) :
    lastDue started windows ∈ started :: (turnsOf windows).map MonitorTurn.now := by
  cases windows using List.reverseRecOn with
  | nil => exact List.mem_cons_self
  | append_singleton ws w =>
    rw [lastDue_concat, turnsOf_concat, Window.turns]
    refine List.mem_cons_of_mem _ (List.mem_map.mpr ⟨w.due, ?_, rfl⟩)
    simp

/-- The last report, and the start, are in front of the turn. -/
theorem Ticking.lastDue_lt {started : ℚ} {windows : List Window} {rest : List MonitorTurn}
    {t : MonitorTurn} (h : Ticking started (turnsOf windows ++ rest ++ [t])) :
    lastDue started windows < t.now := by
  rw [Ticking, List.map_append, ← List.cons_append, List.pairwise_append] at h
  refine h.2.2 _ ?_ _ (List.mem_singleton.mpr rfl)
  rw [List.map_append, ← List.cons_append]
  exact List.mem_append_left _ (lastDue_mem started windows)

/-- What the loop keeps of its schedule, when `windows` have been reported and `rest` has come
since. -/
structure MonitorState.OnSchedule (s : MonitorState) (args : MonitorArgs) (clock : MonitorClock)
    (windows : List Window) (rest : List MonitorTurn) : Prop where
  early : s.exit = none →
    clock.earliest args.interval (s.reports.length + 1) ≤ s.loop.nextReport
  late : s.exit = none →
    s.loop.nextReport ≤ clock.rounding.add (lastDue clock.started windows) args.interval
  waiting : s.exit = none → ∀ t ∈ rest, t.now < s.loop.nextReport
  times : ∀ (k : ℕ) (r : MonitorReport), s.reports[k]? = some r →
    clock.elapsed (clock.earliest args.interval (k + 1)) ≤ r.time
  exit : s.exit = some .duration ↔ args.duration ≠ 0 ∧ ∃ r ∈ s.reports, r.time ≥ args.duration
  zero : s.exit = some (.raised .zeroDivisionError) → ∃ front t, rest = front ++ [t] ∧
    clock.rounding.sub t.now (lastDue clock.started windows) = 0

theorem getElem?_concat_eq_some {α : Type} {l : List α} {a b : α} {k : ℕ}
    (h : (l ++ [a])[k]? = some b) : l[k]? = some b ∨ k = l.length ∧ a = b := by
  rw [List.getElem?_append] at h
  split at h
  · exact .inl h
  · obtain ⟨hlt, hb⟩ := List.getElem?_eq_some_iff.mp h
    rw [List.length_singleton] at hlt
    exact .inr ⟨by omega, by simpa using hb⟩

/-- A report moves the schedule on by an interval at least, and sets it ahead of the clock by an
interval at most. -/
theorem MonitorClock.next_bounds (clock : MonitorClock) (interval : ℚ) {nextReport now : ℚ}
    (h : nextReport ≤ now) :
    clock.rounding.add nextReport interval ≤ clock.next interval nextReport now ∧
      clock.next interval nextReport now ≤ clock.rounding.add now interval := by
  have hmono := clock.rounding.add_mono h interval
  rw [next]
  split
  · exact ⟨hmono, le_rfl⟩
  · exact ⟨le_rfl, hmono⟩

namespace MonitorState.OnSchedule

variable {args : MonitorArgs} {clock : MonitorClock} {windows : List Window}
  {rest : List MonitorTurn} {s s' : MonitorState} {t : MonitorTurn}

/-- No report so far has ended a loop that goes on. -/
theorem time_lt (h : s.OnSchedule args clock windows rest) (hexit : s.exit = none) :
    ¬(args.duration ≠ 0 ∧ ∃ r ∈ s.reports, r.time ≥ args.duration) := by
  rw [← h.exit, hexit]
  exact nofun

theorem raised {e : MonitorRaised} (h : s.OnSchedule args clock windows rest)
    (hrunning : s.exit = none)
    (hzero : e = .zeroDivisionError →
      clock.rounding.sub t.now (lastDue clock.started windows) = 0)
    (hexit : s'.exit = some (.raised e)) (hreports : s'.reports = s.reports) :
    s'.OnSchedule args clock windows (rest ++ [t]) where
  early hnone := by rw [hexit] at hnone; cases hnone
  late hnone := by rw [hexit] at hnone; cases hnone
  waiting hnone := by rw [hexit] at hnone; cases hnone
  times := by rw [hreports]; exact h.times
  exit := by
    rw [hexit, hreports]
    exact iff_of_false nofun (h.time_lt hrunning)
  zero := by
    rw [hexit]
    exact fun he ↦ ⟨rest, t, rfl, hzero (MonitorExit.raised.inj (Option.some.inj he))⟩

theorem waited (h : s.OnSchedule args clock windows rest) (hrunning : s.exit = none)
    (hnow : t.now < s.loop.nextReport) (hexit : s'.exit = none)
    (hreports : s'.reports = s.reports) (hnext : s'.loop.nextReport = s.loop.nextReport) :
    s'.OnSchedule args clock windows (rest ++ [t]) where
  early _ := by rw [hreports, hnext]; exact h.early hrunning
  late _ := by rw [hnext]; exact h.late hrunning
  waiting _ := by
    rw [hnext]
    exact List.forall_mem_append.mpr ⟨h.waiting hrunning, List.forall_mem_singleton.mpr hnow⟩
  times := by rw [hreports]; exact h.times
  exit := by rw [hexit, ← hrunning, hreports]; exact h.exit
  zero := by rw [hexit]; exact nofun

theorem reported {record : MonitorReport} (h : s.OnSchedule args clock windows rest)
    (hrunning : s.exit = none) (hnow : s.loop.nextReport ≤ t.now)
    (htime : record.time = clock.elapsed t.now)
    (hexit : s'.exit = if args.duration ≠ 0 ∧ clock.elapsed t.now ≥ args.duration
      then some .duration else none)
    (hreports : s'.reports = s.reports ++ [record])
    (hnext : s'.loop.nextReport = clock.next args.interval s.loop.nextReport t.now) :
    s'.OnSchedule args clock (windows ++ [⟨rest, t⟩]) [] := by
  have hearly := h.early hrunning
  obtain ⟨hnext_ge, hnext_le⟩ := clock.next_bounds args.interval hnow
  refine ⟨fun _ ↦ ?_, fun _ ↦ ?_, fun _ _ ht ↦ absurd ht List.not_mem_nil, ?_, ?_, ?_⟩
  · rw [hreports, hnext, List.length_append, List.length_singleton]
    exact (clock.rounding.add_mono hearly args.interval).trans hnext_ge
  · rw [lastDue_concat, hnext]
    exact hnext_le
  · intro k r hr
    rw [hreports] at hr
    rcases getElem?_concat_eq_some hr with hold | ⟨rfl, rfl⟩
    · exact h.times k r hold
    · rw [htime]
      exact clock.rounding.sub_mono (hearly.trans hnow) clock.started
  · have hold := h.time_lt hrunning
    rw [hreports, hexit]
    by_cases hduration : args.duration ≠ 0 ∧ clock.elapsed t.now ≥ args.duration
    · rw [if_pos hduration]
      refine iff_of_true rfl ⟨hduration.1, record, ?_, htime ▸ hduration.2⟩
      exact List.mem_append_right _ List.mem_cons_self
    · rw [if_neg hduration]
      refine iff_of_false nofun ?_
      rintro ⟨hne, r, hr, hge⟩
      rcases List.mem_append.mp hr with hr | hr
      · exact hold ⟨hne, r, hr, hge⟩
      · rw [List.mem_singleton.mp hr, htime] at hge
        exact hduration ⟨hne, hge⟩
  · rw [hexit]
    split <;> exact nofun

theorem initial : (monitorMachine eucJis2004 args clock).init.OnSchedule args clock [] [] where
  early _ := le_refl _
  late _ := le_refl _
  waiting _ _ ht := absurd ht List.not_mem_nil
  times _ _ hr := by cases hr
  exit := iff_of_false nofun fun ⟨_, _, hr, _⟩ ↦ absurd hr List.not_mem_nil
  zero := nofun

end MonitorState.OnSchedule

/-- A clock that tells its readings apart gives a difference of 0 only where it stands. -/
theorem MonitorClock.Reads.eq_of_sub {clock : MonitorClock} {windows : List Window}
    {front : List MonitorTurn} {t : MonitorTurn}
    (h : clock.Reads (turnsOf windows ++ (front ++ [t])))
    (hzero : clock.rounding.sub t.now (lastDue clock.started windows) = 0) :
    t.now = lastDue clock.started windows := by
  by_contra hne
  refine clock.rounding.round_sub_ne_zero (h _ ?_) (h _ ?_) hne hzero
  · simp
  · rw [List.map_append, ← List.cons_append]
    exact List.mem_append_left _ (lastDue_mem clock.started windows)

/-- **The monitor reports on time.** The `k`-th report of any run is not before `k` intervals, added
one by one, have passed, and in exact numbers not before `k` times the interval; while the loop goes
on, no turn comes an interval or more after the last report without reporting; the loop is left by
its duration exactly when a report was made at or behind it; and the rate divides by zero only when
the clock stands where it stood at the last report, so never with a clock that goes on from turn to
turn. -/
theorem monitor_schedule {args : MonitorArgs} {clock : MonitorClock} {turns : List MonitorTurn}
    {s : MonitorState} (hrun : (monitorMachine eucJis2004 args clock).Run turns s) :
    ∃ windows rest, turns = turnsOf windows ++ rest ∧
      reportsOf clock clock.started [] windows = .ok s.reports ∧
      (∀ (k : ℕ) (r : MonitorReport), s.reports[k]? = some r →
        clock.elapsed (clock.earliest args.interval (k + 1)) ≤ r.time ∧
        (clock.rounding = .exact → (k + 1) * args.interval ≤ r.time)) ∧
      (s.exit = none → ∀ t ∈ rest,
        t.now < clock.rounding.add (lastDue clock.started windows) args.interval) ∧
      (s.exit = some .duration ↔
        args.duration ≠ 0 ∧ ∃ r ∈ s.reports, r.time ≥ args.duration) ∧
      (clock.Reads turns →
        (s.exit = some (.raised .zeroDivisionError) →
          ∃ front t, rest = front ++ [t] ∧ t.now = lastDue clock.started windows) ∧
        (Ticking clock.started turns → s.exit ≠ some (.raised .zeroDivisionError))) := by
  have hinvariant := Machine.Run.induction (M := monitorMachine eucJis2004 args clock)
    (I := fun turns s ↦ ∃ windows rest, s.Reported eucJis2004 clock turns windows rest ∧
      s.OnSchedule args clock windows rest)
    ⟨[], [], MonitorState.reported_init, .initial⟩ ?_ hrun
  · obtain ⟨windows, rest, hreported, hschedule⟩ := hinvariant
    refine ⟨windows, rest, hreported.turns, hreported.reports, fun k r hr ↦ ?_, ?_,
      hschedule.exit, fun hreads ↦ ?_⟩
    · refine ⟨hschedule.times k r hr, fun hexact ↦ ?_⟩
      have hk := hschedule.times k r hr
      rwa [MonitorClock.elapsed_earliest hexact, Nat.cast_succ] at hk
    · exact fun hexit t ht ↦ (hschedule.waiting hexit t ht).trans_le (hschedule.late hexit)
    · have hzero (hexit : s.exit = some (.raised .zeroDivisionError)) :
          ∃ front t, rest = front ++ [t] ∧ t.now = lastDue clock.started windows := by
        obtain ⟨front, t, hrest, hsub⟩ := hschedule.zero hexit
        rw [hreported.turns, hrest] at hreads
        exact ⟨front, t, hrest, hreads.eq_of_sub hsub⟩
      refine ⟨hzero, fun htick hexit ↦ ?_⟩
      obtain ⟨front, t, rfl, hnow⟩ := hzero hexit
      rw [hreported.turns, ← List.append_assoc] at htick
      exact htick.lastDue_lt.ne hnow.symm
  · rintro turns s t s' - ⟨windows, rest, h, hs⟩ hstep
    obtain ⟨hrunning, hcases⟩ := MonitorState.step_cases h.holds hstep
    cases hcases with
    | raised e hindex hzero hexit hreports =>
      exact ⟨_, _, h.raised hindex hexit hreports,
        hs.raised hrunning (fun he ↦ (hzero he).2) hexit hreports⟩
    | waited hnow hexit hreports hholds hnext =>
      exact ⟨_, _, h.waited hexit hreports hholds, hs.waited hrunning hnow hexit hreports hnext⟩
    | reported record hnow hrecord hexit hreports hholds hnext =>
      obtain ⟨lock, level, -, -, hof⟩ := Window.report_eq_ok hrecord
      have htime : record.time = clock.elapsed t.now := by rw [hof]; rfl
      refine ⟨_, _, h.reported hrecord ?_ hreports hholds,
        hs.reported hrunning hnow htime hexit hreports hnext⟩
      rw [hexit]
      split <;> exact nofun

theorem monitor_schedule_fourPackets : ∃ s,
    (monitorMachine (fun _ ↦ none) ⟨1, 0, true⟩ startedAtZero).Run fourPackets s ∧
      s.exit ≠ some (.raised .zeroDivisionError) :=
  have ⟨s, hrun⟩ := Option.isSome_iff_exists.mp (by decide +kernel)
  have ⟨_, _, _, _, _, _, _, hzero⟩ := monitor_schedule hrun
  have hreads : startedAtZero.Reads fourPackets := by
    have hhalves (x : ℚ) (m : ℤ) (hx : x = m * 2 ^ (-1 : ℤ)) : startedAtZero.rounding.IsNumber x :=
      hx ▸ BinaryFormat.isNumber_rounding (by decide) m
    refine List.forall_mem_cons.mpr ⟨hhalves 0 0 (by norm_num), List.forall_mem_cons.mpr
      ⟨hhalves 1 2 (by norm_num), List.forall_mem_singleton.mpr (hhalves (3 / 2) 3 (by norm_num))⟩⟩
  ⟨s, hrun, (hzero hreads).2 (by rw [Ticking]; decide +kernel)⟩

end Recdyud
