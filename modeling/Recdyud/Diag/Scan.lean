import Recdyud.Channels
import Recdyud.Diag.Monitor
import Recdyud.Lib.BinaryFloat

/-!
# Scanning a channel

`scan_channel` tunes, waits for a lock, and reads the stream until the tables are complete or the
dwell time is over; what the stages hold then, and the level sampled behind it, is the result. What
the tuner, the clock and the stop event do is a `ScanSession` here, and the reads of the loop are
its turns.

Where the loop ends depends on the bytes read so far and the clock alone, and so does the result
(`scanChannel_outcomes`): the reads may be cut in any way. Each service of a collection is filed
under its own id (`Keyed`), so a result lists no service twice.
-/

namespace Recdyud

/-! ## Numbers for display -/

/-- `round(x, digits)` of a float -/
def roundDigits (x : ℚ) (digits : ℕ) : ℚ :=
  BinaryFormat.binary64.round (roundHalfEven (x * 10 ^ digits) / 10 ^ digits)

/-! ## The model -/

/-- An entry of `ScanResult.services`. -/
structure ScanService where
  serviceId : ℕ
  serviceType : ℕ
  name : Str
  deriving DecidableEq, Repr

structure ScanResult where
  channel : Str
  frequencyKhz : ℤ
  lock : ℕ
  signal : ℚ
  packets : ℤ := 0
  tei : ℤ := 0
  teiPercent : ℚ := 0
  ccErrors : ℤ := 0
  transportStreamId : Option ℕ := none
  networkName : Str := []
  tsName : Str := []
  remoteControlKeyId : Option ℕ := none
  services : Option (List ScanService) := none
  deriving DecidableEq, Repr

namespace ScanResult

/-- `ScanResult.locked` -/
def locked (self : ScanResult) : Bool := self.lock > lockThreshold

/-- `ScanResult.name` -/
def name (self : ScanResult) : Str := if self.tsName ≠ [] then self.tsName else self.networkName

/-- `ScanResult.received` -/
def received (self : ScanResult) : Bool := self.locked && self.services.getD [] ≠ []

end ScanResult

/-- The options of `scan_channel`. -/
structure ScanArgs where
  dwell : ℚ
  minDwell : ℚ

/-- What a turn of the loop meets. -/
structure ScanTurn where
  /-- `stop.is_set()` -/
  stop : Bool
  /-- `time.monotonic()` -/
  now : ℚ
  /-- `buf[:n]` behind `tuner.read_ts(buf, timeout=500)` -/
  read : Except Raised Bytes

/-- What `scan_channel` meets. -/
structure ScanSession where
  tune : Except Raised Unit
  /-- `tuner.wait_lock(args.lock_timeout)` -/
  waitLock : Except Raised ℕ
  /-- `tuner.get_signal_level()`, right behind the lock -/
  level : Except Raised SignalLevel
  purge : Except Raised Unit
  /-- of a difference of clock values -/
  rounding : Rounding ℚ
  started : ℚ
  turns : List ScanTurn
  /-- `tuner.get_signal_level()` behind the loop -/
  sample : Fin 3 → Except Raised SignalLevel
  /-- `tuner.get_lock_status()` -/
  lock : Except Raised ℕ

/-- An exception of the tuner goes on. -/
def fromTuner {α : Type} : Except Raised α → Except MonitorRaised α
  | .ok a => .ok a
  | .error e => .error (.tuner e)

variable (eucJis2004 : Codec)

/-- `elapsed` in a turn -/
def ScanSession.elapsed (w : ScanSession) (t : ScanTurn) : ℚ := w.rounding.sub t.now w.started

/-- The condition of the `break`, and of the `while`. -/
def scanEnds (args : ScanArgs) (w : ScanSession) (info : TransportInfo) (t : ScanTurn) : Prop :=
  t.stop = true ∨ w.elapsed t ≥ args.dwell ∨ (info.complete = true ∧ w.elapsed t ≥ args.minDwell)

instance (args : ScanArgs) (w : ScanSession) (info : TransportInfo) (t : ScanTurn) :
    Decidable (scanEnds args w info t) := inferInstanceAs (Decidable (_ ∨ _))

/-- The loop of `scan_channel`; `none` while it has not ended. -/
def scanLoop (args : ScanArgs) (w : ScanSession) :
    Monitor → List ScanTurn → Except MonitorRaised (Option Monitor)
  | _, [] => .ok none
  | monitor, t :: turns =>
    if scanEnds args w monitor.2.2.info t then .ok (some monitor)
    else
      match t.read with
      | .error e => .error (.tuner e)
      | .ok data =>
        match receive eucJis2004 monitor data with
        | .error _ => .error .indexError
        | .ok monitor => scanLoop args w monitor turns

/-- The values of `info.services`. -/
def serviceValues (info : TransportInfo) : List ServiceInfo :=
  (info.services.keys.sort (· ≤ ·)).filterMap info.services.lookup

/-- `sorted(info.services.values(), key=lambda s: s.service_id)`, as dictionaries -/
def scanServices (info : TransportInfo) : List ScanService :=
  ((serviceValues info).mergeSort fun s t ↦ s.serviceId ≤ t.serviceId).map fun s ↦
    ⟨s.serviceId, s.serviceType, s.name⟩

/-- The result behind the loop. -/
def ScanResult.fill (self : ScanResult) (monitor : Monitor) (samples : List ℚ) (lock : ℕ) :
    ScanResult :=
  let total := monitor.2.1.total
  let info := monitor.2.2.info
  { self with
    -- the levels have 24 digits, so only the division rounds
    signal := BinaryFormat.binary64.round (samples.sum / samples.length)
    lock
    packets := total.packets
    tei := total.tei
    teiPercent := roundDigits (BinaryFormat.binary64.round total.teiPercent) 2
    ccErrors := total.ccErrors
    transportStreamId := info.transportStreamId
    networkName := info.networkName
    tsName := info.tsName
    remoteControlKeyId := info.remoteControlKeyId
    services := some (scanServices info) }

/-- `scan_channel`; `none` while its loop has not ended. -/
def scanChannel (args : ScanArgs) (ch : Channel) (w : ScanSession) :
    Except MonitorRaised (Option ScanResult) := do
  fromTuner w.tune
  let lock ← fromTuner w.waitLock
  let level ← fromTuner w.level
  let result : ScanResult := ⟨ch.name, ch.frequencyKhz, lock, level.value, 0, 0, 0, 0, none, [], [],
    none, none⟩
  if lock ≤ lockThreshold then
    return some result
  fromTuner w.purge
  match ← scanLoop eucJis2004 args w ({}, {}, {}) w.turns with
  | none => return none
  | some monitor =>
    let samples ← [0, 1, 2].mapM fun i ↦ fromTuner (w.sample i)
    let lock ← fromTuner w.lock
    return some (result.fill monitor (samples.map SignalLevel.value) lock)

/-! ## Services under their own ids -/

/-- Each service is filed under its own id. -/
def TransportInfo.Keyed (info : TransportInfo) : Prop :=
  ∀ id s, info.services.lookup id = some s → s.serviceId = id

theorem TransportInfo.Keyed.of_services {info info' : TransportInfo} (h : info.Keyed)
    (hsame : info'.services = info.services) : info'.Keyed := by
  rw [Keyed, hsame]
  exact h

theorem TransportInfo.Keyed.addService {info : TransportInfo} (h : info.Keyed) (s : ServiceInfo) :
    (info.addService s).Keyed := by
  intro id t ht
  change (info.services.insert s.serviceId s).lookup id = some t at ht
  by_cases hid : id = s.serviceId
  · subst hid
    rw [Finmap.lookup_insert] at ht
    rw [← Option.some.inj ht]
  · rw [Finmap.lookup_insert_of_ne _ hid] at ht
    exact h id t ht

/-- What every step of a loop keeps, the loop keeps. -/
theorem TransportInfo.Keyed.foldl {α : Type} {f : TransportInfo → α → TransportInfo}
    (hf : ∀ info a, info.Keyed → (f info a).Keyed) {info : TransportInfo} (h : info.Keyed)
    (l : List α) : (l.foldl f info).Keyed := by
  induction l generalizing info with
  | nil => exact h
  | cons a l ih => exact ih (hf info a h)

theorem TransportInfo.Keyed.addEntry {info : TransportInfo} (h : info.Keyed) (e : NitEntry) :
    (info.addEntry e).Keyed := by
  rw [TransportInfo.addEntry]
  split
  · refine TransportInfo.Keyed.foldl (fun _ _ h ↦ ?_) h _
    exact h.of_services rfl
  · exact h

/-- A section keeps it, whatever it holds. -/
theorem keyed_catching {info : TransportInfo} (h : info.Keyed) (t : Table) (sec : Bytes) :
    ((t.parser eucJis2004 sec).catching info).Keyed := by
  by_cases hsec : sec = []
  · subst hsec
    cases t <;> exact h
  cases t with
  | pat =>
    rw [Table.parser, (does_parsePat hsec).catching]
    split
    · refine TransportInfo.Keyed.foldl (fun _ _ h ↦ ?_) ?_ _
      · exact h.of_services rfl
      · exact h.of_services rfl
    · exact h
  | sdt =>
    rw [Table.parser, (does_parseSdt hsec).catching]
    split
    · refine TransportInfo.Keyed.foldl (fun _ s h ↦ h.addService s) ?_ _
      exact h.of_services rfl
    · exact h
  | nit =>
    rw [Table.parser, (does_parseNit hsec).catching]
    split
    · refine TransportInfo.Keyed.foldl (fun _ e h ↦ h.addEntry e) ?_ _
      refine TransportInfo.Keyed.foldl (fun _ _ h ↦ ?_) h _
      exact h.of_services rfl
    · exact h

theorem keyed_foldl_take {si : SiCollector} (h : si.info.Keyed) (t : Table) (secs : List Bytes) :
    (secs.foldl (SiCollector.take eucJis2004 t) si).info.Keyed := by
  induction secs generalizing si with
  | nil => exact h
  | cons sec secs ih => exact ih (keyed_catching eucJis2004 h t sec)

theorem keyed_collect {si : SiCollector} (h : si.info.Keyed) (p : Packet) :
    (si.collect eucJis2004 p).info.Keyed := by
  rw [SiCollector.collect]
  split
  · exact h
  · refine keyed_foldl_take eucJis2004 ?_ _ _
    exact h

theorem keyed_collectPackets {si : SiCollector} (h : si.info.Keyed) (packets : Bytes) :
    (collectPackets eucJis2004 si packets).info.Keyed := by
  rw [collectPackets]
  induction packetsOf packets generalizing si with
  | nil => exact h
  | cons p ps ih => exact ih (keyed_collect eucJis2004 h p)

/-- The tables in a stream. -/
def tablesOf (stream : Bytes) : TransportInfo := (monitored eucJis2004 stream).2.2.info

/-- **Whatever was received**, each service is filed under its own id. -/
theorem keyed_tablesOf (stream : Bytes) : (tablesOf eucJis2004 stream).Keyed := by
  have hfresh : ({} : SiCollector).info.Keyed := fun _ _ h ↦ by cases h
  cases stream with
  | nil => exact hfresh
  | cons b stream => exact keyed_collectPackets eucJis2004 hfresh _

/-! ## The services of a result -/

theorem mem_serviceValues {info : TransportInfo} (h : info.Keyed) {s : ServiceInfo} :
    s ∈ serviceValues info ↔ info.services.lookup s.serviceId = some s := by
  rw [serviceValues, List.mem_filterMap]
  constructor
  · rintro ⟨id, -, hid⟩
    rwa [h id s hid]
  · intro hs
    refine ⟨s.serviceId, (Finset.mem_sort _).mpr (Finmap.mem_keys.mpr ?_), hs⟩
    exact Finmap.mem_of_lookup_eq_some hs

theorem nodup_serviceValues {info : TransportInfo} (h : info.Keyed) :
    ((serviceValues info).map ServiceInfo.serviceId).Nodup := by
  have hids : (serviceValues info).map ServiceInfo.serviceId
      = (info.services.keys.sort (· ≤ ·)).filterMap fun id ↦
        (info.services.lookup id).map ServiceInfo.serviceId := by
    rw [serviceValues, List.map_filterMap]
  rw [hids]
  refine (Finset.sort_nodup _ _).filterMap ?_
  intro id id' a ha ha'
  obtain ⟨s, hs, rfl⟩ := Option.map_eq_some_iff.mp (Option.mem_def.mp ha)
  obtain ⟨s', hs', heq⟩ := Option.map_eq_some_iff.mp (Option.mem_def.mp ha')
  rw [← h id s hs, ← heq, h id' s' hs']

theorem scanServices_ne_nil {info : TransportInfo} {id : ℕ} {s : ServiceInfo}
    (h : info.services.lookup id = some s) : scanServices info ≠ [] := by
  have hmem : s ∈ serviceValues info := by
    rw [serviceValues, List.mem_filterMap]
    exact ⟨id, (Finset.mem_sort _).mpr (Finmap.mem_keys.mpr (Finmap.mem_of_lookup_eq_some h)), h⟩
  rw [scanServices, ne_eq, List.map_eq_nil_iff]
  exact List.ne_nil_of_mem ((List.mergeSort_perm _ _).mem_iff.mpr hmem)

/-- The services of a result are those collected, by increasing ids. -/
theorem scanServices_spec {info : TransportInfo} (h : info.Keyed) :
    ((scanServices info).map ScanService.serviceId).Pairwise (· < ·) ∧
      ∀ s, s ∈ scanServices info ↔ ∃ service, info.services.lookup s.serviceId = some service ∧
        service.serviceType = s.serviceType ∧ service.name = s.name := by
  have hperm := List.mergeSort_perm (serviceValues info)
    fun s t ↦ decide (s.serviceId ≤ t.serviceId)
  have hids : (scanServices info).map ScanService.serviceId
      = ((serviceValues info).mergeSort fun s t ↦ s.serviceId ≤ t.serviceId).map
        ServiceInfo.serviceId := by
    rw [scanServices, List.map_map]
    rfl
  constructor
  · have hnodup : ((scanServices info).map ScanService.serviceId).Nodup := by
      rw [hids]
      exact ((hperm.map _).nodup_iff).mpr (nodup_serviceValues h)
    have hsorted : ((scanServices info).map ScanService.serviceId).Pairwise (· ≤ ·) := by
      rw [hids, List.pairwise_map]
      refine (List.pairwise_mergeSort (fun a b c hab hbc ↦ ?_) (fun a b ↦ ?_) _).imp
        of_decide_eq_true
      · simp only [decide_eq_true_eq] at hab hbc ⊢
        omega
      · simp only [Bool.or_eq_true, decide_eq_true_eq]
        omega
    exact (hsorted.and hnodup).imp fun ⟨hle, hne⟩ ↦ lt_of_le_of_ne hle hne
  · intro s
    rw [scanServices, List.mem_map]
    constructor
    · rintro ⟨service, hservice, rfl⟩
      exact ⟨service, (mem_serviceValues h).mp (hperm.mem_iff.mp hservice), rfl, rfl⟩
    · rintro ⟨service, hlookup, htype, hname⟩
      have hid := h _ _ hlookup
      refine ⟨service, hperm.mem_iff.mpr ((mem_serviceValues h).mpr (hid ▸ hlookup)), ?_⟩
      rw [hid, htype, hname]

/-! ## The loop -/

/-- The bytes that some turns read. -/
def bytesOf (turns : List ScanTurn) : Bytes := turns.flatMap fun t ↦ t.read.toOption.getD []

/-- The loop goes through these turns, having read some bytes before. -/
def ReadOn (args : ScanArgs) (w : ScanSession) : Bytes → List ScanTurn → Prop
  | _, [] => True
  | before, t :: turns => ¬scanEnds args w (tablesOf eucJis2004 before) t ∧
      ∃ data, t.read = .ok data ∧ ReadOn args w (before ++ data) turns

/-- **How the loop ends**: at a turn with its condition, at one with an exception of the tuner, or
not among these turns. Up to there it has read on. -/
theorem scanLoop_cases (args : ScanArgs) (w : ScanSession) (before : Bytes)
    (turns : List ScanTurn) :
    (∃ front t rest, turns = front ++ t :: rest ∧ ReadOn eucJis2004 args w before front ∧
      scanEnds args w (tablesOf eucJis2004 (before ++ bytesOf front)) t ∧
      scanLoop eucJis2004 args w (monitored eucJis2004 before) turns
        = .ok (some (monitored eucJis2004 (before ++ bytesOf front)))) ∨
    (∃ e, scanLoop eucJis2004 args w (monitored eucJis2004 before) turns
      = .error (.tuner e)) ∨
    ReadOn eucJis2004 args w before turns ∧
      scanLoop eucJis2004 args w (monitored eucJis2004 before) turns = .ok none := by
  induction turns generalizing before with
  | nil => exact .inr (.inr ⟨trivial, rfl⟩)
  | cons t turns ih =>
    rw [scanLoop]
    by_cases hends : scanEnds args w (monitored eucJis2004 before).2.2.info t
    · rw [if_pos hends]
      refine .inl ⟨[], t, turns, rfl, trivial, ?_, ?_⟩
      · rwa [bytesOf, List.flatMap_nil, List.append_nil]
      · rw [bytesOf, List.flatMap_nil, List.append_nil]
    rw [if_neg hends]
    rcases hread : t.read with e | data
    · exact .inr (.inl ⟨e, rfl⟩)
    dsimp only
    rw [receive_monitored]
    have hbytes (front : List ScanTurn) :
        before ++ bytesOf (t :: front) = before ++ data ++ bytesOf front := by
      rw [bytesOf, List.flatMap_cons, hread, ← List.append_assoc]
      rfl
    rcases ih (before ++ data) with ⟨front, t', rest, rfl, hon, hends', hloop⟩ | herror |
      ⟨hon, hloop⟩
    · refine .inl ⟨t :: front, t', rest, rfl, ⟨hends, data, hread, hon⟩, ?_, ?_⟩
      · rwa [hbytes]
      · rwa [hbytes]
    · exact .inr (.inl herror)
    · exact .inr (.inr ⟨⟨hends, data, hread, hon⟩, hloop⟩)

/-- A loop that reads on has met no stop event, and no end of the dwell time. -/
theorem ReadOn.forall_turns {args : ScanArgs} {w : ScanSession} {before : Bytes}
    {turns : List ScanTurn} (h : ReadOn eucJis2004 args w before turns) :
    ∀ t ∈ turns, ¬(t.stop = true ∨ w.elapsed t ≥ args.dwell) := by
  induction turns generalizing before with
  | nil => exact fun _ ht ↦ absurd ht List.not_mem_nil
  | cons t turns ih =>
    obtain ⟨hends, data, hread, hon⟩ := h
    refine List.forall_mem_cons.mpr ⟨fun hstops ↦ hends ?_, ih hon⟩
    rcases hstops with hstop | hdwell
    · exact .inl hstop
    · exact .inr (.inl hdwell)

/-! ## The result -/

/-- A result is about a stream: its counters, and what its tables tell. -/
structure ScanResult.Describes (r : ScanResult) (stream : Bytes) : Prop where
  packets : r.packets = (countersOf stream).packets
  tei : r.tei = (countersOf stream).tei
  ccErrors : r.ccErrors = (countersOf stream).ccErrors
  transportStreamId : r.transportStreamId = (tablesOf eucJis2004 stream).transportStreamId
  networkName : r.networkName = (tablesOf eucJis2004 stream).networkName
  tsName : r.tsName = (tablesOf eucJis2004 stream).tsName
  remoteControlKeyId : r.remoteControlKeyId = (tablesOf eucJis2004 stream).remoteControlKeyId
  services : ∃ services, r.services = some services ∧
    (services.map ScanService.serviceId).Pairwise (· < ·) ∧
    ∀ s, s ∈ services ↔ ∃ service,
      (tablesOf eucJis2004 stream).services.lookup s.serviceId = some service ∧
      service.serviceType = s.serviceType ∧ service.name = s.name

theorem ScanResult.describes_fill (r : ScanResult) (stream : Bytes) (samples : List ℚ)
    (lock : ℕ) :
    (r.fill (monitored eucJis2004 stream) samples lock).Describes eucJis2004 stream := by
  obtain ⟨-, htotal⟩ := monitored_eq eucJis2004 stream
  refine ⟨?_, ?_, ?_, rfl, rfl, rfl, rfl, _, rfl, scanServices_spec (keyed_tablesOf _ stream)⟩
  · exact congrArg TsCounters.packets htotal
  · exact congrArg TsCounters.tei htotal
  · exact congrArg TsCounters.ccErrors htotal

theorem fromTuner_bind {α β : Type} (x : Except Raised α) (f : α → Except MonitorRaised β) :
    (∃ e, x = .error e ∧ (fromTuner x >>= f) = .error (.tuner e)) ∨
      ∃ a, x = .ok a ∧ (fromTuner x >>= f) = f a := by
  rcases x with e | a
  · exact .inl ⟨e, rfl, rfl⟩
  · exact .inr ⟨a, rfl, rfl⟩

theorem exists_mapM_fromTuner {α β : Type} (f : α → Except Raised β) (l : List α) :
    ∃ x, (l.mapM fun a ↦ fromTuner (f a)) = fromTuner x := by
  induction l with
  | nil => exact ⟨.ok [], rfl⟩
  | cons a l ih =>
    obtain ⟨x, hx⟩ := ih
    rw [List.mapM_cons, hx]
    rcases f a with e | b
    · exact ⟨.error e, rfl⟩
    · rcases x with e | bs
      · exact ⟨.error e, rfl⟩
      · exact ⟨.ok (b :: bs), rfl⟩

/-- What comes out of a scan: an exception of the tuner, a result without a lock, nothing as long as
the loop reads on, or a result about what it has read. -/
inductive ScanOutcome (args : ScanArgs) (ch : Channel) (w : ScanSession) :
    Except MonitorRaised (Option ScanResult) → Prop
  | raised (e : Raised) : ScanOutcome args ch w (.error (.tuner e))
  | unlocked (r : ScanResult) (hname : r.channel = ch.name)
    (hfrequency : r.frequencyKhz = ch.frequencyKhz) (hlocked : r.locked = false)
    (hservices : r.services = none) : ScanOutcome args ch w (.ok (some r))
  | unfinished (hon : ReadOn eucJis2004 args w [] w.turns) :
    ScanOutcome args ch w (.ok none)
  | finished (r : ScanResult) (hname : r.channel = ch.name)
    (hfrequency : r.frequencyKhz = ch.frequencyKhz) (front : List ScanTurn) (t : ScanTurn)
    (rest : List ScanTurn) (hturns : w.turns = front ++ t :: rest)
    (hon : ReadOn eucJis2004 args w [] front)
    (hends : scanEnds args w (tablesOf eucJis2004 (bytesOf front)) t)
    (hdescribes : r.Describes eucJis2004 (bytesOf front)) : ScanOutcome args ch w (.ok (some r))

theorem scanChannel_outcome (args : ScanArgs) (ch : Channel) (w : ScanSession) :
    ScanOutcome eucJis2004 args ch w (scanChannel eucJis2004 args ch w) := by
  rw [scanChannel]
  rcases fromTuner_bind w.tune _ with ⟨e, -, h⟩ | ⟨_, -, h⟩ <;> rw [h]
  · exact .raised e
  rcases fromTuner_bind w.waitLock _ with ⟨e, -, h⟩ | ⟨lock, -, h⟩ <;> rw [h]
  · exact .raised e
  rcases fromTuner_bind w.level _ with ⟨e, -, h⟩ | ⟨level, -, h⟩ <;> rw [h]
  · exact .raised e
  dsimp only
  split
  · rename_i hlock
    exact .unlocked _ rfl rfl (decide_eq_false (not_lt.mpr hlock)) rfl
  rcases fromTuner_bind w.purge _ with ⟨e, -, h⟩ | ⟨_, -, h⟩ <;> rw [h]
  · exact .raised e
  have hfresh : (({}, {}, {}) : Monitor) = monitored eucJis2004 [] := rfl
  rw [hfresh]
  rcases scanLoop_cases eucJis2004 args w [] w.turns with
    ⟨front, t, rest, hturns, hon, hends, hloop⟩ | ⟨e, hloop⟩ | ⟨hon, hloop⟩ <;> rw [hloop]
  · rw [List.nil_append] at hends ⊢
    obtain ⟨samples, hsamples⟩ := exists_mapM_fromTuner w.sample [0, 1, 2]
    change ScanOutcome eucJis2004 args ch w (([0, 1, 2].mapM fun i ↦ fromTuner (w.sample i)) >>= _)
    rw [hsamples]
    rcases fromTuner_bind samples _ with ⟨e, -, h⟩ | ⟨levels, -, h⟩ <;> rw [h]
    · exact .raised e
    rcases fromTuner_bind w.lock _ with ⟨e, -, h⟩ | ⟨lock', -, h⟩ <;> rw [h]
    · exact .raised e
    exact .finished _ rfl rfl front t rest hturns hon hends
      (ScanResult.describes_fill eucJis2004 _ _ _ _)
  · exact .raised e
  · exact .unfinished hon

/-- **A scan is about what it read.** Nothing but an exception of the tuner comes out of
`scan_channel`; it ends at the latest with the first turn behind the dwell time or the stop event;
and a result is about the channel it was asked for, and either was not locked, or is about the very
bytes that were read until the first turn that met the condition to stop, however these were cut: it
has the counters of their packets, the ids and names of their tables, and exactly their services,
each once and by increasing ids. -/
theorem scanChannel_outcomes (args : ScanArgs) (ch : Channel) (w : ScanSession) :
    (∀ e, scanChannel eucJis2004 args ch w = .error e → ∃ e', e = .tuner e') ∧
      ((∃ t ∈ w.turns, t.stop = true ∨ w.elapsed t ≥ args.dwell) →
        scanChannel eucJis2004 args ch w ≠ .ok none) ∧
      ∀ r, scanChannel eucJis2004 args ch w = .ok (some r) →
        r.channel = ch.name ∧ r.frequencyKhz = ch.frequencyKhz ∧
        (r.locked = false ∧ r.services = none ∨ ∃ front t rest, w.turns = front ++ t :: rest ∧
          ReadOn eucJis2004 args w [] front ∧
          scanEnds args w (tablesOf eucJis2004 (bytesOf front)) t ∧
          r.Describes eucJis2004 (bytesOf front)) := by
  have houtcome := scanChannel_outcome eucJis2004 args ch w
  refine ⟨fun e he ↦ ?_, fun ⟨t, ht, hstops⟩ hnone ↦ ?_, fun r hr ↦ ?_⟩
  · rw [he] at houtcome
    cases houtcome with
    | raised e' => exact ⟨e', rfl⟩
  · rw [hnone] at houtcome
    cases houtcome with
    | unfinished hon => exact hon.forall_turns eucJis2004 t ht hstops
  · rw [hr] at houtcome
    cases houtcome with
    | unlocked r hname hfrequency hlocked hservices =>
      exact ⟨hname, hfrequency, .inl ⟨hlocked, hservices⟩⟩
    | finished r hname hfrequency front t rest hturns hon hends hdescribes =>
      exact ⟨hname, hfrequency, .inr ⟨front, t, rest, hturns, hon, hends, hdescribes⟩⟩

end Recdyud
