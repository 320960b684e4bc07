import Recdyud.Aribstr

/-!
# PAT, SDT and NIT

The three parsers write what they read into a shared `TransportInfo`. They run in `Parser`: an
`IndexError` ends one of them, but what it has written before stays written.

Each parser is described by a *reading* of the section — `Pat`, `Sdt`, `Nit` — and by what such a
reading does to the `TransportInfo` (`Pat.apply`, `Sdt.apply`, `Nit.apply`). The readings say what a
section contains; they do not depend on what was collected before.
-/

namespace Recdyud

structure ServiceInfo where
  serviceId : ℕ
  serviceType : ℕ
  name : Str
  provider : Str := []
  deriving DecidableEq, Repr

/-- What the tables have told so far. -/
@[ext] structure TransportInfo where
  transportStreamId : Option ℕ := none
  originalNetworkId : Option ℕ := none
  networkName : Str := []
  tsName : Str := []
  remoteControlKeyId : Option ℕ := none
  /-- service_id to PMT PID -/
  programs : Finmap fun _ : ℕ ↦ ℕ := ∅
  services : Finmap fun _ : ℕ ↦ ServiceInfo := ∅
  deriving DecidableEq

/-- `TransportInfo.complete` -/
def TransportInfo.complete (self : TransportInfo) : Bool :=
  self.services ≠ ∅ ∧ (self.networkName ≠ [] ∨ self.tsName ≠ [])

/-- A parser of sections: it writes to the `TransportInfo` and may raise. -/
abbrev Parser := ExceptT IndexError (StateM TransportInfo)

/-- Run a parser, catching what it raises: the `try` of `SiCollector.update`. -/
def Parser.catching (x : Parser Unit) (info : TransportInfo) : TransportInfo :=
  (x.run.run info).2

/-! ## The parsers -/

/-- `for tag, body in _descriptors(data): f(tag, body)`, the generator being at position `i` -/
def forDescriptors (data : Bytes) (i : ℕ) (f : UInt8 → Bytes → Parser Unit) : Parser Unit := do
  if i + 2 ≤ data.length then
    let tag ← index data i
    let length := (← index data (i + 1)).toNat
    f tag (slice data (i + 2) (i + 2 + length))
    forDescriptors data (i + 2 + length) f
  else
    pure ()
termination_by data.length - i

/-- The loop body of `parse_pat`. -/
def patEntry (sec : Bytes) (i : ℕ) : Parser Unit := do
  let number := intFromBytes (slice sec i (i + 2))
  let pid := intFromBytes (slice sec (i + 2) (i + 4)) &&& 0x1FFF
  if number ≠ 0 then
    modify fun info ↦ { info with programs := info.programs.insert number pid }

/-- `parse_pat` -/
def parsePat (sec : Bytes) : Parser Unit := do
  if (← index sec 0) ≠ 0x00 then return ()
  modify fun info ↦ { info with transportStreamId := some (intFromBytes (slice sec 3 5)) }
  (pyRange 8 (sec.length - 4) 4).forM (patEntry sec)

/-- The descriptor loop body of `parse_sdt`. -/
def serviceDescriptor (eucJis2004 : Codec) (serviceId : ℕ) (tag : UInt8) (body : Bytes) :
    Parser Unit := do
  if tag = 0x48 ∧ 3 ≤ body.length then
    let stype ← index body 0
    let plen := (← index body 1).toNat
    let provider ← Aribstr.decode eucJis2004 (slice body 2 (2 + plen))
    let nlen ← (if 2 + plen < body.length then index body (2 + plen) else pure 0 : Except _ _)
    let name ← Aribstr.decode eucJis2004 (slice body (3 + plen) (3 + plen + nlen.toNat))
    modify fun info ↦ { info with
      services := info.services.insert serviceId ⟨serviceId, stype.toNat, name, provider⟩ }

/-- The `while` loop of `parse_sdt`; `fin` is its `end`. -/
def sdtLoop (eucJis2004 : Codec) (sec : Bytes) (fin i : ℕ) : Parser Unit := do
  if i + 5 ≤ fin then
    let serviceId := intFromBytes (slice sec i (i + 2))
    let loopLen := intFromBytes (slice sec (i + 3) (i + 5)) &&& 0x0FFF
    forDescriptors (slice sec (i + 5) (i + 5 + loopLen)) 0 (serviceDescriptor eucJis2004 serviceId)
    sdtLoop eucJis2004 sec fin (i + (5 + loopLen))
  else
    pure ()
termination_by fin - i

/-- `parse_sdt` -/
def parseSdt (eucJis2004 : Codec) (sec : Bytes) : Parser Unit := do
  if (← index sec 0) ≠ 0x42 then return ()
  modify fun info ↦ { info with
    transportStreamId := info.transportStreamId.or (some (intFromBytes (slice sec 3 5))) }
  modify fun info ↦ { info with originalNetworkId := some (intFromBytes (slice sec 8 10)) }
  sdtLoop eucJis2004 sec (sec.length - 4) 11

/-- The network descriptor loop body of `parse_nit`. -/
def networkDescriptor (eucJis2004 : Codec) (tag : UInt8) (body : Bytes) : Parser Unit := do
  if tag = 0x40 then
    let name ← Aribstr.decode eucJis2004 body
    modify fun info ↦ { info with networkName := name }

/-- The transport stream descriptor loop body of `parse_nit`. -/
def tsInformationDescriptor (eucJis2004 : Codec) (tag : UInt8) (body : Bytes) : Parser Unit := do
  if tag = 0xCD ∧ 2 ≤ body.length then
    -- the key is written before the name is read
    let key ← index body 0
    modify fun info ↦ { info with remoteControlKeyId := some key.toNat }
    let nameLen := ((← index body 1) >>> 2).toNat
    let name ← Aribstr.decode eucJis2004 (slice body 2 (2 + nameLen))
    modify fun info ↦ { info with tsName := name }

/-- The `while` loop of `parse_nit`; `fin` is its `end`. -/
def nitLoop (eucJis2004 : Codec) (sec : Bytes) (fin i : ℕ) : Parser Unit := do
  if i + 6 ≤ fin then
    let tsid := intFromBytes (slice sec i (i + 2))
    let dLen := intFromBytes (slice sec (i + 4) (i + 6)) &&& 0x0FFF
    let info ← get
    -- as long as no table has told the id, every stream is taken for our own
    if info.transportStreamId = none ∨ info.transportStreamId = some tsid then
      forDescriptors (slice sec (i + 6) (i + 6 + dLen)) 0 (tsInformationDescriptor eucJis2004)
    nitLoop eucJis2004 sec fin (i + (6 + dLen))
  else
    pure ()
termination_by fin - i

/-- `parse_nit` -/
def parseNit (eucJis2004 : Codec) (sec : Bytes) : Parser Unit := do
  if (← index sec 0) ≠ 0x40 then return ()
  let ndLen := intFromBytes (slice sec 8 10) &&& 0x0FFF
  forDescriptors (slice sec 10 (10 + ndLen)) 0 (networkDescriptor eucJis2004)
  let i := 10 + ndLen
  let tsLoopLen := intFromBytes (slice sec i (i + 2)) &&& 0x0FFF
  nitLoop eucJis2004 sec (min (i + 2 + tsLoopLen) (sec.length - 4)) (i + 2)

/-! ## Readings -/

/-- The descriptors of a loop from position `i` on, with their tags. -/
def descriptorsFrom (data : Bytes) (i : ℕ) : List (UInt8 × Bytes) :=
  if i + 2 ≤ data.length then
    (data.getD i 0, slice data (i + 2) (i + 2 + (data.getD (i + 1) 0).toNat))
      :: descriptorsFrom data (i + 2 + (data.getD (i + 1) 0).toNat)
  else
    []
termination_by data.length - i

/-- `_descriptors(data)` as a list -/
def descriptors (data : Bytes) : List (UInt8 × Bytes) := descriptorsFrom data 0

/-- A program association table. -/
structure Pat where
  transportStreamId : ℕ
  /-- program numbers and PMT PIDs -/
  programs : List (ℕ × ℕ)

/-- A service description table. -/
structure Sdt where
  transportStreamId : ℕ
  originalNetworkId : ℕ
  services : List ServiceInfo

/-- An entry of the transport stream loop: the id, and the keys and names of its TS information
descriptors. -/
structure NitEntry where
  transportStreamId : ℕ
  tsInformation : List (ℕ × Str)

/-- A network information table: the network names and the transport streams. -/
structure Nit where
  networkNames : List Str
  transportStreams : List NitEntry

/-- The program listed at offset `i`; number 0 is the network PID. -/
def readProgram (sec : Bytes) (i : ℕ) : Option (ℕ × ℕ) :=
  let number := intFromBytes (slice sec i (i + 2))
  if number ≠ 0 then some (number, intFromBytes (slice sec (i + 2) (i + 4)) &&& 0x1FFF) else none

def readPat (sec : Bytes) : Pat where
  transportStreamId := intFromBytes (slice sec 3 5)
  programs := (pyRange 8 (sec.length - 4) 4).filterMap (readProgram sec)

/-- The service a descriptor describes. -/
def readService (eucJis2004 : Codec) (serviceId : ℕ) (d : UInt8 × Bytes) : Option ServiceInfo :=
  if d.1 = 0x48 ∧ 3 ≤ d.2.length then
    let plen := (d.2.getD 1 0).toNat
    let nlen := (d.2.getD (2 + plen) 0).toNat
    some {
      serviceId
      serviceType := (d.2.getD 0 0).toNat
      name := Aribstr.text eucJis2004 (slice d.2 (3 + plen) (3 + plen + nlen))
      provider := Aribstr.text eucJis2004 (slice d.2 2 (2 + plen)) }
  else
    none

def readServices (eucJis2004 : Codec) (sec : Bytes) (fin i : ℕ) : List ServiceInfo :=
  if i + 5 ≤ fin then
    let loopLen := intFromBytes (slice sec (i + 3) (i + 5)) &&& 0x0FFF
    (descriptors (slice sec (i + 5) (i + 5 + loopLen))).filterMap
        (readService eucJis2004 (intFromBytes (slice sec i (i + 2))))
      ++ readServices eucJis2004 sec fin (i + (5 + loopLen))
  else
    []
termination_by fin - i

def readSdt (eucJis2004 : Codec) (sec : Bytes) : Sdt where
  transportStreamId := intFromBytes (slice sec 3 5)
  originalNetworkId := intFromBytes (slice sec 8 10)
  services := readServices eucJis2004 sec (sec.length - 4) 11

/-- The key and the name a TS information descriptor gives. -/
def readTsInformation (eucJis2004 : Codec) (d : UInt8 × Bytes) : Option (ℕ × Str) :=
  if d.1 = 0xCD ∧ 2 ≤ d.2.length then
    some ((d.2.getD 0 0).toNat,
      Aribstr.text eucJis2004 (slice d.2 2 (2 + (d.2.getD 1 0 >>> 2).toNat)))
  else
    none

def readEntries (eucJis2004 : Codec) (sec : Bytes) (fin i : ℕ) : List NitEntry :=
  if i + 6 ≤ fin then
    let dLen := intFromBytes (slice sec (i + 4) (i + 6)) &&& 0x0FFF
    { transportStreamId := intFromBytes (slice sec i (i + 2))
      tsInformation := (descriptors (slice sec (i + 6) (i + 6 + dLen))).filterMap
        (readTsInformation eucJis2004) }
      :: readEntries eucJis2004 sec fin (i + (6 + dLen))
  else
    []
termination_by fin - i

/-- Length of the network descriptor loop. -/
def networkLoopLength (sec : Bytes) : ℕ := intFromBytes (slice sec 8 10) &&& 0x0FFF

def readNit (eucJis2004 : Codec) (sec : Bytes) : Nit where
  networkNames := (descriptors (slice sec 10 (10 + networkLoopLength sec))).filterMap fun d ↦
    if d.1 = 0x40 then some (Aribstr.text eucJis2004 d.2) else none
  transportStreams :=
    let i := 10 + networkLoopLength sec
    readEntries eucJis2004 sec
      (min (i + 2 + (intFromBytes (slice sec i (i + 2)) &&& 0x0FFF)) (sec.length - 4)) (i + 2)

/-! ## What a reading does -/

namespace TransportInfo

def addProgram (info : TransportInfo) (x : ℕ × ℕ) : TransportInfo :=
  { info with programs := info.programs.insert x.1 x.2 }

def addService (info : TransportInfo) (s : ServiceInfo) : TransportInfo :=
  { info with services := info.services.insert s.serviceId s }

def setTsInformation (info : TransportInfo) (x : ℕ × Str) : TransportInfo :=
  { info with remoteControlKeyId := some x.1, tsName := x.2 }

/-- Take the TS information of an entry, unless it is known to be about another stream. -/
def addEntry (info : TransportInfo) (e : NitEntry) : TransportInfo :=
  if info.transportStreamId = none ∨ info.transportStreamId = some e.transportStreamId then
    e.tsInformation.foldl setTsInformation info
  else
    info

end TransportInfo

def Pat.apply (t : Pat) (info : TransportInfo) : TransportInfo :=
  t.programs.foldl TransportInfo.addProgram
    { info with transportStreamId := some t.transportStreamId }

def Sdt.apply (t : Sdt) (info : TransportInfo) : TransportInfo :=
  t.services.foldl TransportInfo.addService { info with
    transportStreamId := info.transportStreamId.or (some t.transportStreamId)
    originalNetworkId := some t.originalNetworkId }

def Nit.apply (t : Nit) (info : TransportInfo) : TransportInfo :=
  t.transportStreams.foldl TransportInfo.addEntry
    (t.networkNames.foldl (fun info name ↦ { info with networkName := name }) info)

/-! ## The parsers do what the readings say -/

/-- A parser that raises nothing and does `f`. -/
def Parser.Does (x : Parser Unit) (f : TransportInfo → TransportInfo) : Prop :=
  ∀ info, x.run.run info = (.ok (), f info)

namespace Parser

theorem Does.catching {x : Parser Unit} {f : TransportInfo → TransportInfo} (h : x.Does f)
    (info : TransportInfo) : x.catching info = f info := by
  rw [Parser.catching, h info]

theorem does_pure : Does (pure ()) id := fun _ ↦ rfl

theorem does_modify (f : TransportInfo → TransportInfo) : Does (modify f) f := fun _ ↦ rfl

theorem Does.seq {x y : Parser Unit} {f g : TransportInfo → TransportInfo} (hx : x.Does f)
    (hy : y.Does g) : Does (x >>= fun _ ↦ y) fun info ↦ g (f info) := by
  intro info
  have hrun : (x >>= fun _ ↦ y).run.run info = (match x.run.run info with
      | (.ok _, s) => y.run.run s
      | (.error e, s) => (.error e, s)) := by
    rw [ExceptT.run_bind, StateT.run_bind]
    cases x.run.run info with
    | mk r s => cases r <;> rfl
  rw [hrun, hx info]
  exact hy (f info)

/-- A fallible step that raises nothing. -/
theorem Does.bindOk {α : Type} {e : Except IndexError α} {a : α} {x : α → Parser Unit}
    {f : TransportInfo → TransportInfo} (he : e = .ok a) (hx : (x a).Does f) :
    Does (liftM e >>= x) f := by
  subst he
  exact hx

theorem does_get {x : TransportInfo → Parser Unit} {f : TransportInfo → TransportInfo}
    (h : ∀ info, (x info).run.run info = (.ok (), f info)) : Does (get >>= x) f := h

theorem Does.congr {x : Parser Unit} {f g : TransportInfo → TransportInfo} (h : x.Does f)
    (hfg : ∀ info, f info = g info) : x.Does g := fun info ↦ by rw [h info, hfg info]

end Parser

/-! ### Descriptors -/

theorem index_eq_getD {data : Bytes} {i : ℕ} (h : i < data.length) :
    index data i = .ok (data.getD i 0) := by
  rw [index_eq_ok h, List.getD_eq_getElem _ _ h]

/-- A descriptor loop takes the descriptors its body reads something from, one after the other. -/
theorem does_forDescriptors {f : UInt8 → Bytes → Parser Unit} {β : Type}
    {read : UInt8 × Bytes → Option β} {act : TransportInfo → β → TransportInfo}
    (hf : ∀ d : UInt8 × Bytes, (f d.1 d.2).Does fun info ↦ (read d).elim info (act info))
    (data : Bytes) : (forDescriptors data 0 f).Does fun info ↦
      ((descriptors data).filterMap read).foldl act info := by
  suffices key : ∀ i, (forDescriptors data i f).Does fun info ↦
      ((descriptorsFrom data i).filterMap read).foldl act info from key 0
  intro i
  induction i using descriptorsFrom.induct data with
  | case1 i h ih =>
    rw [forDescriptors, if_pos h, descriptorsFrom, if_pos h]
    refine .bindOk (index_eq_getD (by omega)) (.bindOk (index_eq_getD (by omega)) ?_)
    set d := (data.getD i 0, slice data (i + 2) (i + 2 + (data.getD (i + 1) 0).toNat))
    refine ((hf d).seq ih).congr fun info ↦ ?_
    rw [List.filterMap_cons]
    cases read d <;> rfl
  | case2 i h =>
    rw [forDescriptors, if_neg h, descriptorsFrom, if_neg h]
    exact Parser.does_pure

variable (eucJis2004 : Codec)

theorem does_serviceDescriptor {serviceId : ℕ} (d : UInt8 × Bytes) :
    (serviceDescriptor eucJis2004 serviceId d.1 d.2).Does fun info ↦
      (readService eucJis2004 serviceId d).elim info info.addService := by
  rw [serviceDescriptor, readService]
  split
  · rename_i h
    have hnlen : ∀ i, (if i < d.2.length then index d.2 i else pure 0)
        = (.ok (d.2.getD i 0) : Except IndexError UInt8) := by
      intro i
      split
      · rename_i h
        exact index_eq_getD h
      · rename_i h
        rw [List.getD_eq_default _ _ (by omega)]
        rfl
    refine .bindOk (index_eq_getD (by omega)) (.bindOk (index_eq_getD (by omega)) ?_)
    refine .bindOk (Aribstr.decode_eq _ _) (.bindOk (hnlen _) ?_)
    exact .bindOk (Aribstr.decode_eq _ _) (Parser.does_modify _)
  · exact Parser.does_pure

theorem does_networkDescriptor (d : UInt8 × Bytes) :
    (networkDescriptor eucJis2004 d.1 d.2).Does fun info ↦
      (if d.1 = 0x40 then some (Aribstr.text eucJis2004 d.2) else none).elim info
        fun name ↦ { info with networkName := name } := by
  rw [networkDescriptor]
  split
  · exact .bindOk (Aribstr.decode_eq _ _) (Parser.does_modify _)
  · exact Parser.does_pure

theorem does_tsInformationDescriptor (d : UInt8 × Bytes) :
    (tsInformationDescriptor eucJis2004 d.1 d.2).Does fun info ↦
      (readTsInformation eucJis2004 d).elim info info.setTsInformation := by
  rw [tsInformationDescriptor, readTsInformation]
  split
  · rename_i h
    refine .bindOk (index_eq_getD (by omega)) ?_
    refine ((Parser.does_modify _).seq (.bindOk (index_eq_getD (by omega))
      (.bindOk (Aribstr.decode_eq _ _) (Parser.does_modify _)))).congr fun info ↦ rfl
  · exact Parser.does_pure

/-! ### Sections -/

variable {eucJis2004} {sec : Bytes}

/-- A parser looks at its own table only. -/
theorem does_ofTable {x : Parser Unit} {f : TransportInfo → TransportInfo} (hsec : sec ≠ [])
    (tableId : UInt8) (hx : x.Does f) :
    Parser.Does (do if (← index sec 0) ≠ tableId then return () else x) fun info ↦
      if sec[0]? = some tableId then f info else info := by
  obtain ⟨b, rest, rfl⟩ := List.exists_cons_of_ne_nil hsec
  refine .bindOk (index_eq_ok_of_getElem? (i := 0) rfl) ?_
  by_cases hb : b = tableId
  · rw [if_neg (not_not.mpr hb)]
    exact hx.congr fun info ↦ by simp [hb]
  · rw [if_pos hb]
    exact Parser.does_pure.congr fun info ↦ by simp [hb]

theorem does_forM {α β : Type} {f : α → Parser Unit} {read : α → Option β}
    {act : TransportInfo → β → TransportInfo}
    (hf : ∀ a, (f a).Does fun info ↦ (read a).elim info (act info)) (l : List α) :
    (l.forM f).Does fun info ↦ (l.filterMap read).foldl act info := by
  induction l with
  | nil => exact Parser.does_pure
  | cons a l ih =>
    change (f a >>= fun _ ↦ l.forM f).Does _
    refine ((hf a).seq ih).congr fun info ↦ ?_
    rw [List.filterMap_cons]
    cases read a <;> rfl

theorem does_patEntry (i : ℕ) :
    (patEntry sec i).Does fun info ↦ (readProgram sec i).elim info info.addProgram := by
  rw [patEntry, readProgram]
  split
  · exact Parser.does_modify _
  · exact Parser.does_pure

theorem does_parsePat (hsec : sec ≠ []) :
    (parsePat sec).Does fun info ↦
      if sec[0]? = some 0x00 then (readPat sec).apply info else info :=
  does_ofTable hsec 0x00 ((Parser.does_modify _).seq (does_forM does_patEntry _))

theorem does_sdtLoop (fin i : ℕ) :
    (sdtLoop eucJis2004 sec fin i).Does fun info ↦
      (readServices eucJis2004 sec fin i).foldl TransportInfo.addService info := by
  induction i using readServices.induct sec fin with
  | case1 i h loopLen ih =>
    rw [sdtLoop, if_pos h, readServices, if_pos h]
    refine ((does_forDescriptors (does_serviceDescriptor eucJis2004) _).seq ih).congr fun info ↦ ?_
    rw [List.foldl_append]
  | case2 i h =>
    rw [sdtLoop, if_neg h, readServices, if_neg h]
    exact Parser.does_pure

theorem does_parseSdt (hsec : sec ≠ []) :
    (parseSdt eucJis2004 sec).Does fun info ↦
      if sec[0]? = some 0x42 then (readSdt eucJis2004 sec).apply info else info :=
  does_ofTable hsec 0x42
    ((Parser.does_modify _).seq ((Parser.does_modify _).seq (does_sdtLoop _ _)))

theorem does_nitLoop (fin i : ℕ) :
    (nitLoop eucJis2004 sec fin i).Does fun info ↦
      (readEntries eucJis2004 sec fin i).foldl TransportInfo.addEntry info := by
  induction i using readEntries.induct sec fin with
  | case1 i h dLen ih =>
    rw [nitLoop, if_pos h, readEntries, if_pos h]
    refine Parser.does_get fun info ↦ ?_
    have hentry := does_forDescriptors (does_tsInformationDescriptor eucJis2004)
      (slice sec (i + 6) (i + 6 + dLen))
    rw [List.foldl_cons, TransportInfo.addEntry]
    split
    · exact (hentry.seq ih) info
    · exact ih info
  | case2 i h =>
    rw [nitLoop, if_neg h, readEntries, if_neg h]
    exact Parser.does_pure

theorem does_parseNit (hsec : sec ≠ []) :
    (parseNit eucJis2004 sec).Does fun info ↦
      if sec[0]? = some 0x40 then (readNit eucJis2004 sec).apply info else info :=
  does_ofTable hsec 0x40
    ((does_forDescriptors (does_networkDescriptor eucJis2004) _).seq (does_nitLoop _ _))

end Recdyud
