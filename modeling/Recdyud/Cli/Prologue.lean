import Recdyud.Device.Status
import Recdyud.Lib.BinaryFloat
import Recdyud.Lib.Polling
import Recdyud.Ts.Sync

/-!
# In front of the recording

`stream` tunes, polls the lock status until it is above the threshold or the time for it is over,
and throws away the first packets behind the lock. Only then does it start to record. Both loops
poll: `wait_lock` the tuner and the clock, `purge` the clock and the stream. Their time limits are
sums of clock values, which a `Rounding` rounds.

A recording is never started on a tuner that was not locked when it was last asked, nor in front of
the end of the purge; and the prologue does not go on for longer than its two time limits and one
more turn of each loop (`stream_prologue`).
-/

namespace Recdyud

open Polling

/-! ## The model -/

/-- `PURGE_PACKETS` -/
def purgePackets : ℕ := 2048

/-- A turn of the loop of `wait_lock`. -/
structure LockPoll where
  /-- `self.get_lock_status()` -/
  status : Except Raised ℕ
  /-- `time.monotonic()`, right behind it -/
  now : ℚ

/-- The loop of `wait_lock`. -/
def waitLockTurn (deadline : ℚ) (_ : Unit) (t : LockPoll) : Except Raised (Unit ⊕ ℕ) := do
  let status ← t.status
  if status > lockThreshold ∨ t.now ≥ deadline then return .inr status
  return .inl ()

/-- `wait_lock`, entered at `started` -/
def waitLock (R : Rounding ℚ) (started timeout : ℚ) (polls : List LockPoll) :
    Except Raised (Option ℕ) :=
  pollUntil (waitLockTurn (R.add started timeout)) () polls

/-- A turn of the loop of `purge`. -/
structure PurgeTurn where
  /-- `time.monotonic()` of its condition -/
  now : ℚ
  /-- `tuner.read_ts(buf, timeout=500)` -/
  read : Except Raised ℕ

/-- The condition and the body of the loop of `purge`, with `remaining`. -/
def purgeTurn (deadline : ℚ) (remaining : ℤ) (t : PurgeTurn) : Except Raised (ℤ ⊕ ℤ) := do
  if remaining > 0 ∧ t.now < deadline then
    let n ← t.read
    return .inl (remaining - n)
  return .inr remaining

/-- `purge`, entered at `started`; its result is what is left of `remaining`. -/
def purge (R : Rounding ℚ) (started : ℚ) (packets : ℕ) (turns : List PurgeTurn) :
    Except Raised (Option ℤ) :=
  pollUntil (purgeTurn (R.add started 3)) (packets * packetSize : ℤ) turns

/-- What `stream` meets in front of the recording. -/
structure PrologueSession where
  /-- of the time limits -/
  rounding : Rounding ℚ
  tune : Except Raised Unit
  waitStarted : ℚ
  polls : List LockPoll
  purgeStarted : ℚ
  purgeTurns : List PurgeTurn
  /-- `stop.is_set()` -/
  stop : Bool

namespace PrologueSession

/-- The `deadline` of `wait_lock`. -/
def lockDeadline (w : PrologueSession) (lockTimeout : ℚ) : ℚ :=
  w.rounding.add w.waitStarted lockTimeout

/-- The `deadline` of `purge`. -/
def purgeDeadline (w : PrologueSession) : ℚ := w.rounding.add w.purgeStarted 3

end PrologueSession

/-- How `stream` goes on. -/
inductive PrologueEnd where
  /-- It returns 2. -/
  | notLocked (status : ℕ)
  /-- It returns 0. -/
  | stopped
  | recording
  deriving DecidableEq, Repr

/-- `stream` behind the lock. -/
def purgeAndStart (w : PrologueSession) : Except Raised (Option PrologueEnd) := do
  match ← purge w.rounding w.purgeStarted purgePackets w.purgeTurns with
  | none => return none
  | some _ => return some (if w.stop then .stopped else .recording)

/-- `stream` up to the start of the reader; `none` while one of the loops has not ended. -/
def streamPrologue (lockTimeout : ℚ) (w : PrologueSession) :
    Except Raised (Option PrologueEnd) := do
  w.tune
  if lockTimeout > 0 then
    match ← waitLock w.rounding w.waitStarted lockTimeout w.polls with
    | none => return none
    | some status =>
      if status ≤ lockThreshold then
        return some (.notLocked status)
      purgeAndStart w
  else
    purgeAndStart w

/-! ## Waiting for the lock -/

/-- The tuner was asked once more, as it was not locked and there was time. -/
def LockPoll.Goes (deadline : ℚ) (t : LockPoll) : Prop :=
  (∃ status, t.status = .ok status ∧ status ≤ lockThreshold) ∧ t.now < deadline

theorem waitLockTurn_cases (deadline : ℚ) (t : LockPoll) :
    (∃ e, t.status = .error e ∧ waitLockTurn deadline () t = .error e) ∨
    (t.Goes deadline ∧ waitLockTurn deadline () t = .ok (.inl ())) ∨
    ∃ status, t.status = .ok status ∧ (status > lockThreshold ∨ t.now ≥ deadline) ∧
      waitLockTurn deadline () t = .ok (.inr status) := by
  rw [waitLockTurn]
  rcases hstatus : t.status with e | status
  · exact .inl ⟨e, rfl, rfl⟩
  by_cases hends : status > lockThreshold ∨ t.now ≥ deadline
  · refine .inr (.inr ⟨status, rfl, hends, ?_⟩)
    change (if status > lockThreshold ∨ t.now ≥ deadline then _ else _) = _
    rw [if_pos hends]
    rfl
  · refine .inr (.inl ⟨?_, ?_⟩)
    · rw [not_or, not_lt, ge_iff_le, not_le] at hends
      exact ⟨⟨status, hstatus, hends.1⟩, hends.2⟩
    · change (if status > lockThreshold ∨ t.now ≥ deadline then _ else _) = _
      rw [if_neg hends]
      rfl

/-- `wait_lock` returns the last status it read. -/
structure Waited (deadline : ℚ) (polls : List LockPoll) (status : ℕ) : Prop where
  split : ∃ front t rest, polls = front ++ t :: rest ∧ (∀ u ∈ front, u.Goes deadline) ∧
    t.status = .ok status ∧ (status > lockThreshold ∨ t.now ≥ deadline)

theorem waitLock_cases (R : Rounding ℚ) (started timeout : ℚ) (polls : List LockPoll) :
    (∃ e, waitLock R started timeout polls = .error e) ∨
    (waitLock R started timeout polls = .ok none ∧ ∀ t ∈ polls, t.Goes (R.add started timeout)) ∨
    ∃ status, waitLock R started timeout polls = .ok (some status) ∧
      Waited (R.add started timeout) polls status := by
  rw [waitLock]
  generalize R.add started timeout = deadline
  have hgoes : ∀ (s : Unit) (t : LockPoll) (s' : Unit),
      waitLockTurn deadline s t = .ok (.inl s') → t.Goes deadline := by
    intro s t s' h
    rcases waitLockTurn_cases deadline t with ⟨e, -, he⟩ | ⟨ht, -⟩ | ⟨_, -, -, hr⟩
    · rw [he] at h
      cases h
    · exact ht
    · rw [hr] at h
      cases h
  rcases hwait : pollUntil (waitLockTurn deadline) () polls with e | _ | status
  · exact .inl ⟨e, rfl⟩
  · obtain ⟨_, hon⟩ := pollUntil_eq_ok_none_iff.mp hwait
    exact .inr (.inl ⟨rfl, hon.forall_turns hgoes⟩)
  · obtain ⟨front, t, rest, _, hpolls, hfront, ht⟩ := pollUntil_eq_ok_some_iff.mp hwait
    refine .inr (.inr ⟨status, rfl, front, t, rest, hpolls, hfront.forall_turns hgoes, ?_⟩)
    rcases waitLockTurn_cases deadline t with ⟨e, -, he⟩ | ⟨-, hon⟩ | ⟨_, hs, hends, hr⟩
    · rw [he] at ht
      cases ht
    · rw [hon] at ht
      cases ht
    · rw [hr] at ht
      obtain rfl := Sum.inr.inj (Except.ok.inj ht)
      exact ⟨hs, hends⟩

/-! ## Purging -/

/-- The bytes that some turns of `purge` threw away. -/
def discarded (turns : List PurgeTurn) : ℕ := (turns.map fun t ↦ t.read.toOption.getD 0).sum

theorem purgeTurn_cases (deadline : ℚ) (remaining : ℤ) (t : PurgeTurn) :
    (∃ e, purgeTurn deadline remaining t = .error e) ∨
    (∃ n, remaining > 0 ∧ t.now < deadline ∧ t.read = .ok n ∧
      purgeTurn deadline remaining t = .ok (.inl (remaining - n))) ∨
    ((remaining ≤ 0 ∨ t.now ≥ deadline) ∧
      purgeTurn deadline remaining t = .ok (.inr remaining)) := by
  rw [purgeTurn]
  by_cases hon : remaining > 0 ∧ t.now < deadline
  · rw [if_pos hon]
    rcases hread : t.read with e | n
    · exact .inl ⟨e, rfl⟩
    · exact .inr (.inl ⟨n, hon.1, hon.2, rfl, rfl⟩)
  · rw [if_neg hon]
    refine .inr (.inr ⟨?_, rfl⟩)
    rwa [not_and_or, not_lt, not_lt] at hon

/-- The turns of a purge that goes on: there was time, what they read is thrown away, and no more
than the last read too much. -/
theorem goesOn_purgeTurn {deadline : ℚ} {remaining remaining' : ℤ} {turns : List PurgeTurn}
    (h : GoesOn (purgeTurn deadline) remaining turns remaining') :
    (∀ t ∈ turns, t.now < deadline) ∧ remaining' = remaining - discarded turns ∧
      ∀ size : ℕ, (∀ t ∈ turns, ∀ n, t.read = .ok n → n ≤ size) → -(size : ℤ) < remaining →
        -(size : ℤ) < remaining' := by
  induction h with
  | nil => exact ⟨fun _ ht ↦ absurd ht List.not_mem_nil, (sub_zero _).symm, fun _ _ hr ↦ hr⟩
  | @cons remaining₀ remaining₁ _ t turns ht _ ih =>
    rcases purgeTurn_cases deadline remaining₀ t with ⟨e, he⟩ | ⟨n, hpos, hnow, hread, hon⟩ |
      ⟨-, hend⟩
    · rw [he] at ht
      cases ht
    · rw [hon] at ht
      obtain rfl := Sum.inl.inj (Except.ok.inj ht)
      obtain ⟨hnows, hremaining, hsize⟩ := ih
      refine ⟨List.forall_mem_cons.mpr ⟨hnow, hnows⟩, ?_, fun size hreads _ ↦ ?_⟩
      · have hsum : discarded (t :: turns) = n + discarded turns := by
          rw [discarded, List.map_cons, List.sum_cons, hread]
          rfl
        rw [hremaining, hsum]
        omega
      · obtain ⟨hfirst, hrest⟩ := List.forall_mem_cons.mp hreads
        have hn := hfirst n hread
        exact hsize size hrest (by omega)
    · rw [hend] at ht
      cases ht

/-- The purge is over: enough was thrown away, or its time is. -/
structure Purged (w : PrologueSession) : Prop where
  split : ∃ front t rest, w.purgeTurns = front ++ t :: rest ∧
    (∀ u ∈ front, u.now < w.purgeDeadline) ∧
    (purgePackets * packetSize ≤ discarded front ∨ t.now ≥ w.purgeDeadline) ∧
    ∀ size : ℕ, (∀ u ∈ front, ∀ n, u.read = .ok n → n ≤ size) →
      discarded front < purgePackets * packetSize + size

theorem purgeAndStart_cases (w : PrologueSession) :
    (∃ e, purgeAndStart w = .error e) ∨
    (purgeAndStart w = .ok none ∧ ∀ t ∈ w.purgeTurns, t.now < w.purgeDeadline) ∨
    purgeAndStart w = .ok (some (if w.stop then .stopped else .recording)) ∧ Purged w := by
  rw [purgeAndStart]
  rcases hpurge : purge w.rounding w.purgeStarted purgePackets w.purgeTurns with e | _ | remaining
  · exact .inl ⟨e, rfl⟩
  · obtain ⟨_, hon⟩ := pollUntil_eq_ok_none_iff.mp hpurge
    exact .inr (.inl ⟨rfl, (goesOn_purgeTurn hon).1⟩)
  · obtain ⟨front, t, rest, remaining', hturns, hfront, ht⟩ := pollUntil_eq_ok_some_iff.mp hpurge
    obtain ⟨hnows, hremaining, hsize⟩ := goesOn_purgeTurn hfront
    have hpositive : (0 : ℤ) < purgePackets * packetSize := by decide
    refine .inr (.inr ⟨rfl, front, t, rest, hturns, hnows, ?_, fun size hreads ↦ ?_⟩)
    · change purgeTurn w.purgeDeadline remaining' t = _ at ht
      rcases purgeTurn_cases w.purgeDeadline remaining' t with ⟨e, he⟩ |
        ⟨n, -, -, -, hon⟩ | ⟨hends, -⟩
      · rw [he] at ht
        cases ht
      · rw [hon] at ht
        cases ht
      · refine hends.imp_left fun hle ↦ ?_
        omega
    · have hmore := hsize size hreads (by omega)
      omega

/-! ## The prologue -/

/-- An exception, no end of the polls, no lock, or the purge. -/
theorem streamPrologue_cases (lockTimeout : ℚ) (w : PrologueSession) :
    (∃ e, streamPrologue lockTimeout w = .error e) ∨
    (0 < lockTimeout ∧ (∀ t ∈ w.polls, t.Goes (w.lockDeadline lockTimeout)) ∧
      streamPrologue lockTimeout w = .ok none) ∨
    (∃ status, 0 < lockTimeout ∧ Waited (w.lockDeadline lockTimeout) w.polls status ∧
      status ≤ lockThreshold ∧ streamPrologue lockTimeout w = .ok (some (.notLocked status))) ∨
    (lockTimeout ≤ 0 ∨ ∃ status, status > lockThreshold ∧
      Waited (w.lockDeadline lockTimeout) w.polls status) ∧
      streamPrologue lockTimeout w = purgeAndStart w := by
  rw [streamPrologue]
  rcases w.tune with e | _
  · exact .inl ⟨e, rfl⟩
  by_cases hwaits : lockTimeout > 0
  · rw [if_pos hwaits]
    rcases waitLock_cases w.rounding w.waitStarted lockTimeout w.polls with
      ⟨e, hwait⟩ | ⟨hwait, hgoes⟩ | ⟨status, hwait, hwaited⟩
    · rw [hwait]
      exact .inl ⟨e, rfl⟩
    · rw [hwait]
      exact .inr (.inl ⟨hwaits, hgoes, rfl⟩)
    · rw [hwait]
      by_cases hlock : status ≤ lockThreshold
      · refine .inr (.inr (.inl ⟨status, hwaits, hwaited, hlock, ?_⟩))
        change (if status ≤ lockThreshold then _ else _) = _
        rw [if_pos hlock]
        rfl
      · refine .inr (.inr (.inr ⟨.inr ⟨status, not_le.mp hlock, hwaited⟩, ?_⟩))
        change (if status ≤ lockThreshold then _ else _) = _
        rw [if_neg hlock]
  · rw [if_neg hwaits]
    exact .inr (.inr (.inr ⟨.inl (not_lt.mp hwaits), rfl⟩))

/-- **In front of the recording.** `stream` returns 2 only when the tuner was not locked whenever it
was asked, the last time behind the time limit. It records only when no lock was waited for or the
last status was above the threshold, without the stop event, and behind the end of the purge, which
has thrown away its packets and less than one read more, or used up its three seconds. And when the
polls are an interval apart, it has not ended only while the polls fit into the time limit, or all
turns of the purge into its three seconds. -/
theorem stream_prologue (lockTimeout : ℚ) (w : PrologueSession) :
    (∀ status, streamPrologue lockTimeout w = .ok (some (.notLocked status)) →
      0 < lockTimeout ∧ status ≤ lockThreshold ∧
      ∃ front t rest, w.polls = front ++ t :: rest ∧
        (∀ u ∈ front, u.Goes (w.lockDeadline lockTimeout)) ∧ t.status = .ok status ∧
        t.now ≥ w.lockDeadline lockTimeout) ∧
      (streamPrologue lockTimeout w = .ok (some .recording) →
        (lockTimeout ≤ 0 ∨ ∃ status, status > lockThreshold ∧
          Waited (w.lockDeadline lockTimeout) w.polls status) ∧ Purged w ∧ w.stop = false) ∧
      ∀ interval : ℚ, Paced LockPoll.now interval w.polls →
        (∀ t ∈ w.polls.head?, w.waitStarted ≤ t.now) → streamPrologue lockTimeout w = .ok none →
        0 < lockTimeout ∧ (w.polls ≠ [] →
          w.waitStarted + ((w.polls.length : ℚ) - 1) * interval < w.lockDeadline lockTimeout) ∨
          ∀ t ∈ w.purgeTurns, t.now < w.purgeDeadline := by
  rcases streamPrologue_cases lockTimeout w with ⟨e, h⟩ | ⟨hwaits, hgoes, h⟩ |
    ⟨status, hwaits, hwaited, hlock, h⟩ | ⟨hlocked, h⟩ <;> rw [h]
  · exact ⟨(fun _ h ↦ by cases h), (fun h ↦ by cases h), (fun _ _ _ h ↦ by cases h)⟩
  · refine ⟨(fun _ h ↦ by cases h), (fun h ↦ by cases h), ?_⟩
    intro interval hpaced hhead _
    refine .inl ⟨hwaits, fun hsome ↦ ?_⟩
    have hbound := length_le_of_paced hpaced hhead (fun t ht ↦ (hgoes t ht).2) hsome
    linarith
  · refine ⟨fun status' h ↦ ?_, (fun h ↦ by cases h), (fun _ _ _ h ↦ by cases h)⟩
    obtain rfl := PrologueEnd.notLocked.inj (Option.some.inj (Except.ok.inj h))
    obtain ⟨front, t, rest, hpolls, hfront, hstatus, hends⟩ := hwaited.split
    exact ⟨hwaits, hlock, front, t, rest, hpolls, hfront, hstatus,
      hends.resolve_left (not_lt.mpr hlock)⟩
  · rcases purgeAndStart_cases w with ⟨e, hpurge⟩ | ⟨hpurge, hnows⟩ | ⟨hpurge, hpurged⟩ <;>
      rw [hpurge]
    · exact ⟨(fun _ h ↦ by cases h), (fun h ↦ by cases h), (fun _ _ _ h ↦ by cases h)⟩
    · exact ⟨(fun _ h ↦ by cases h), (fun h ↦ by cases h), fun _ _ _ _ ↦ .inr hnows⟩
    · refine ⟨fun status h ↦ ?_, fun h ↦ ⟨hlocked, hpurged, ?_⟩, (fun _ _ _ h ↦ by cases h)⟩
      · cases hstop : w.stop <;> rw [hstop] at h <;> cases h
      · cases hstop : w.stop with
        | false => rfl
        | true =>
          rw [hstop] at h
          cases h

/-- A lock at the second poll, and a purge that its time ends. -/
def secondPoll : PrologueSession where
  rounding := BinaryFormat.binary64.rounding
  tune := .ok ()
  waitStarted := 0
  polls := [⟨.ok 0, 0⟩, ⟨.ok 20, 1 / 10⟩]
  purgeStarted := 1 / 10
  purgeTurns := [⟨1 / 10, .ok 16384⟩, ⟨4, .ok 16384⟩]
  stop := false

theorem stream_prologue_secondPoll :
    streamPrologue 5 secondPoll = .ok (some .recording) ∧ Purged secondPoll :=
  have hrecording : streamPrologue 5 secondPoll = .ok (some .recording) := by decide +kernel
  ⟨hrecording, ((stream_prologue 5 secondPoll).2.1 hrecording).2.1⟩

end Recdyud
