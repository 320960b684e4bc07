import Recdyud.Ts.TableBuild
import Recdyud.Ts.Tables

/-!
# What the tables describe

A `Broadcast` is what a broadcaster has to say: the programs, the services and the network of one
transport stream, in data that fit the fields they are written to. Its sections have the layout of
the tests, except that every descriptor loop may hold other descriptors as well, in any order.

Reading such a section gives the description back. The proofs follow a position through the section:
what stands there is given by `List.drop`, and each field read moves on to the next one.
-/

namespace Recdyud

/-! ## Descriptor loops -/

/-- A descriptor; the length field has one byte. -/
structure Descriptor where
  tag : UInt8
  body : Bytes
  fits : body.length < 256

def Descriptor.bytes (d : Descriptor) : Bytes := d.tag :: UInt8.ofNat d.body.length :: d.body

def loopBytes (ds : List Descriptor) : Bytes := ds.flatMap Descriptor.bytes

/-- Descriptors of other tags than `tag`, in front of and behind those with it. -/
structure Others (tag : UInt8) where
  before : List Descriptor
  behind : List Descriptor
  other : ∀ d ∈ before ++ behind, d.tag ≠ tag

def Others.around {tag : UInt8} (o : Others tag) (own : Option Descriptor) : List Descriptor :=
  o.before ++ own.toList ++ o.behind

theorem toNat_ofNat_of_lt {n : ℕ} (h : n < 256) : (UInt8.ofNat n).toNat = n := by
  rw [UInt8.toNat_ofNat']
  exact Nat.mod_eq_of_lt h

theorem descriptorsFrom_of_drop {data : Bytes} {ds : List Descriptor} {i : ℕ}
    (h : data.drop i = loopBytes ds) :
    descriptorsFrom data i = ds.map fun d ↦ (d.tag, d.body) := by
  induction ds generalizing i with
  | nil =>
    have hend : data.length ≤ i := List.drop_eq_nil_iff.mp h
    rw [descriptorsFrom, if_neg (by omega)]
    rfl
  | cons d ds ih =>
    rw [loopBytes, List.flatMap_cons, ← loopBytes] at h
    have htag : data.drop i = d.tag :: (UInt8.ofNat d.body.length :: d.body ++ loopBytes ds) := h
    have hlen : data.drop (i + 1) = UInt8.ofNat d.body.length :: (d.body ++ loopBytes ds) :=
      drop_of_drop (a := [d.tag]) htag rfl
    have hbody : data.drop (i + 2) = d.body ++ loopBytes ds :=
      drop_of_drop (a := [_]) hlen rfl
    have hrest : data.drop (i + 2 + d.body.length) = loopBytes ds := drop_of_drop hbody rfl
    have hle := length_of_drop h (List.cons_ne_nil _ _)
    rw [Descriptor.bytes, List.length_cons, List.length_cons] at hle
    rw [descriptorsFrom, if_pos (by omega), getD_of_drop htag, getD_of_drop hlen,
      toNat_ofNat_of_lt d.fits, slice_of_drop hbody rfl, ih hrest]
    rfl

/-- A loop, read back. -/
theorem descriptors_loopBytes (ds : List Descriptor) :
    descriptors (loopBytes ds) = ds.map fun d ↦ (d.tag, d.body) :=
  descriptorsFrom_of_drop List.drop_zero

/-- Whoever looks for one tag does not see the others. -/
theorem filterMap_around {tag : UInt8} (o : Others tag) (own : Option Descriptor) {β : Type}
    {read : UInt8 × Bytes → Option β} (hread : ∀ d : UInt8 × Bytes, d.1 ≠ tag → read d = none) :
    (descriptors (loopBytes (o.around own))).filterMap read
      = (own.bind fun d ↦ read (d.tag, d.body)).toList := by
  have hnone (ds : List Descriptor) (hds : ∀ d ∈ ds, d.tag ≠ tag) :
      (ds.map fun d ↦ (d.tag, d.body)).filterMap read = [] := by
    rw [List.filterMap_map, List.filterMap_eq_nil_iff]
    exact fun d hd ↦ hread _ (hds d hd)
  rw [descriptors_loopBytes, Others.around, List.map_append, List.map_append, List.filterMap_append,
    List.filterMap_append, hnone _ fun d hd ↦ o.other d (List.mem_append_left _ hd),
    hnone _ fun d hd ↦ o.other d (List.mem_append_right _ hd), List.nil_append, List.append_nil]
  cases own with
  | none => rfl
  | some d =>
    rw [Option.toList_some, List.map_singleton, Option.bind_some]
    cases h : read (d.tag, d.body) <;> simp [h]

/-- The length of a loop, behind the flags in front of it. -/
theorem loopLength_of_drop {data rest : Bytes} {flags n i j : ℕ} (hflags : flags % 2 ^ 12 = 0)
    (hflags' : flags < 2 ^ 16) (hn : n < 4096) (h : data.drop i = toBytes (flags ||| n) 2 ++ rest)
    (hj : j = i + 2) : intFromBytes (slice data i j) &&& 0x0FFF = n := by
  have hlt : flags ||| n < 256 ^ 2 := Nat.or_lt_two_pow hflags' (by omega)
  rw [intFromBytes_of_drop h hlt hj]
  exact or_and_mask 12 hflags hn

/-! ## The programs -/

/-- The body of a PAT. -/
def patBody (programs : List (ℕ × ℕ)) : Bytes :=
  programs.flatMap fun x ↦ toBytes x.1 2 ++ toBytes (0xE000 ||| x.2) 2

/-- A program number and a PID that can be written. -/
def ProgramFits (x : ℕ × ℕ) : Prop := 0 < x.1 ∧ x.1 < 65536 ∧ x.2 < 8192

instance (x : ℕ × ℕ) : Decidable (ProgramFits x) :=
  inferInstanceAs (Decidable (0 < x.1 ∧ x.1 < 65536 ∧ x.2 < 8192))

theorem length_patBody (programs : List (ℕ × ℕ)) :
    (patBody programs).length = 4 * programs.length := by
  induction programs with
  | nil => rfl
  | cons x programs ih =>
    rw [patBody, List.flatMap_cons, ← patBody, List.length_append, ih, List.length_append,
      length_toBytes, length_toBytes, List.length_cons, Nat.mul_succ, Nat.add_comm]

theorem readPrograms_of_drop {data rest : Bytes} {programs : List (ℕ × ℕ)}
    (hfit : ∀ x ∈ programs, ProgramFits x) {i : ℕ} (h : data.drop i = patBody programs ++ rest) :
    (List.range' i programs.length 4).filterMap (readProgram data) = programs := by
  induction programs generalizing i with
  | nil => rfl
  | cons x programs ih =>
    obtain ⟨hpos, hnumber, hpid⟩ := hfit x List.mem_cons_self
    rw [patBody, List.flatMap_cons, ← patBody, List.append_assoc, List.append_assoc] at h
    have hnext : data.drop (i + 2) = toBytes (0xE000 ||| x.2) 2 ++ (patBody programs ++ rest) :=
      drop_of_drop h (by rw [length_toBytes])
    have hrest : data.drop (i + 4) = patBody programs ++ rest :=
      drop_of_drop hnext (by rw [length_toBytes])
    have hlt : 0xE000 ||| x.2 < 256 ^ 2 := Nat.or_lt_two_pow (n := 16) (by decide) (by omega)
    have hmask : (0xE000 ||| x.2) &&& 0x1FFF = x.2 := or_and_mask 13 (by decide) hpid
    have hread : readProgram data i = some x := by
      rw [readProgram, intFromBytes_of_drop h hnumber rfl, if_pos (by omega),
        intFromBytes_of_drop hnext hlt rfl, hmask]
    rw [List.length_cons, List.range'_succ, List.filterMap_cons, hread]
    exact congrArg (x :: ·) (ih (fun y hy ↦ hfit y (List.mem_cons_of_mem _ hy)) hrest)

/-- **The PAT**, read back. -/
theorem readPat_psiSection {tsid : ℕ} {programs : List (ℕ × ℕ)} (htsid : tsid < 65536)
    (hfit : ∀ x ∈ programs, ProgramFits x) :
    readPat (psiSection 0x00 tsid (patBody programs)) = ⟨tsid, programs⟩ := by
  obtain ⟨crc, -, hdrop⟩ := @exists_drop_psiSection 0x00 tsid 0 (patBody programs)
  have hrange : pyRange 8 ((psiSection 0x00 tsid (patBody programs)).length - 4) 4
      = List.range' 8 programs.length 4 := by
    have hcount : (8 + 4 * programs.length + 4 - 4 - 8 + 4 - 1) / 4 = programs.length := by omega
    rw [length_psiSection, length_patBody, pyRange, hcount]
    exact List.ext_getElem (by simp) fun k _ _ ↦ by simp
  rw [readPat, intFromBytes_ext htsid, hrange, readPrograms_of_drop hfit hdrop]

/-! ## The services -/

/-- A service, as it is described. -/
structure ServiceText where
  serviceId : ℕ
  serviceType : UInt8
  provider : Bytes
  name : Bytes
  id_lt : serviceId < 65536
  fits : 3 + provider.length + name.length < 256

namespace ServiceText

variable (s : ServiceText)

/-- The body of the service descriptor. -/
def body : Bytes :=
  [s.serviceType, UInt8.ofNat s.provider.length] ++ s.provider
    ++ [UInt8.ofNat s.name.length] ++ s.name

/-- The service descriptor. -/
def descriptor : Descriptor where
  tag := 0x48
  body := s.body
  fits := by
    have := s.fits
    simp only [body, List.length_append, List.length_cons, List.length_nil]
    omega

/-- What a receiver is to know of the service. -/
def info (eucJis2004 : Codec) : ServiceInfo where
  serviceId := s.serviceId
  serviceType := s.serviceType.toNat
  name := Aribstr.text eucJis2004 s.name
  provider := Aribstr.text eucJis2004 s.provider

theorem readService_body (eucJis2004 : Codec) :
    readService eucJis2004 s.serviceId (0x48, s.body) = some (s.info eucJis2004) := by
  have hfits := s.fits
  have hlen : s.body.length = 3 + s.provider.length + s.name.length := by
    simp only [body, List.length_append, List.length_cons, List.length_nil]
    omega
  have hprovider : s.body.drop 2 = s.provider ++ (UInt8.ofNat s.name.length :: s.name) := by
    rw [body, List.append_assoc, List.append_assoc]
    rfl
  have hlast : s.body.drop (2 + s.provider.length) = UInt8.ofNat s.name.length :: s.name :=
    drop_of_drop hprovider rfl
  have hname : s.body.drop (3 + s.provider.length) = s.name ++ [] := by
    rw [List.append_nil]
    exact drop_of_drop (a := [_]) hlast (by rw [List.length_singleton]; omega)
  have hplen : (s.body.getD 1 0).toNat = s.provider.length := toNat_ofNat_of_lt (by omega)
  have hnlen : (s.body.getD (2 + s.provider.length) 0).toNat = s.name.length := by
    rw [getD_of_drop hlast, toNat_ofNat_of_lt (by omega)]
  have hthree : 3 ≤ s.body.length := by omega
  rw [readService, if_pos ⟨rfl, hthree⟩]
  dsimp only
  rw [hplen, hnlen, slice_of_drop hprovider rfl, slice_of_drop hname rfl]
  rfl

end ServiceText

/-- An entry of the service loop. -/
structure ServiceEntry where
  service : ServiceText
  others : Others 0x48
  fits : (loopBytes (others.around (some service.descriptor))).length < 4096

namespace ServiceEntry

variable (e : ServiceEntry)

def loop : Bytes := loopBytes (e.others.around (some e.service.descriptor))

def bytes : Bytes :=
  toBytes e.service.serviceId 2 ++ [0xFC] ++ toBytes (0x8000 ||| e.loop.length) 2 ++ e.loop

theorem length_bytes : e.bytes.length = 5 + e.loop.length := by
  rw [bytes, List.length_append, List.length_append, List.length_append, length_toBytes,
    length_toBytes]
  rfl

end ServiceEntry

/-- The body of an SDT. -/
def sdtBody (originalNetworkId : ℕ) (services : List ServiceEntry) : Bytes :=
  toBytes originalNetworkId 2 ++ [0xFF] ++ services.flatMap ServiceEntry.bytes

section Services

variable {eucJis2004 : Codec} {sec rest : Bytes}

theorem readServices_of_drop {services : List ServiceEntry} {i fin : ℕ}
    (h : sec.drop i = services.flatMap ServiceEntry.bytes ++ rest)
    (hfin : fin = i + (services.flatMap ServiceEntry.bytes).length) :
    readServices eucJis2004 sec fin i = services.map fun e ↦ e.service.info eucJis2004 := by
  induction services generalizing i with
  | nil =>
    rw [readServices, if_neg (by simp [hfin])]
    rfl
  | cons e services ih =>
    rw [List.flatMap_cons, List.length_append, e.length_bytes] at hfin
    have hloop : e.loop.length < 4096 := e.fits
    rw [List.flatMap_cons, ServiceEntry.bytes, List.append_assoc, List.append_assoc,
      List.append_assoc, List.append_assoc] at h
    have hflags := drop_of_drop (j := i + 2) h (by rw [length_toBytes])
    have hlength := drop_of_drop (j := i + 3) hflags rfl
    have hdescriptors := drop_of_drop (j := i + 5) hlength (by rw [length_toBytes])
    have hrest := drop_of_drop hdescriptors rfl
    have hfound : (descriptors e.loop).filterMap (readService eucJis2004 e.service.serviceId)
        = [e.service.info eucJis2004] := by
      have hskip : ∀ d : UInt8 × Bytes, d.1 ≠ 0x48 →
          readService eucJis2004 e.service.serviceId d = none :=
        fun d hd ↦ if_neg fun h ↦ hd h.1
      rw [ServiceEntry.loop, filterMap_around e.others _ hskip]
      exact congrArg Option.toList (e.service.readService_body eucJis2004)
    rw [readServices, if_pos (by omega), intFromBytes_of_drop h e.service.id_lt rfl,
      loopLength_of_drop (by decide) (by decide) hloop hlength rfl]
    dsimp only
    rw [slice_of_drop hdescriptors rfl, hfound, ← Nat.add_assoc, ih hrest (by omega)]
    rfl

/-- **The SDT**, read back. -/
theorem readSdt_psiSection {tsid onid : ℕ} (htsid : tsid < 65536) (honid : onid < 65536)
    (services : List ServiceEntry) :
    readSdt eucJis2004 (psiSection 0x42 tsid (sdtBody onid services))
      = ⟨tsid, onid, services.map fun e ↦ e.service.info eucJis2004⟩ := by
  obtain ⟨crc, -, hdrop⟩ := @exists_drop_psiSection 0x42 tsid 0 (sdtBody onid services)
  have hbody : (psiSection 0x42 tsid (sdtBody onid services)).drop 8
      = toBytes onid 2 ++ ([0xFF] ++ (services.flatMap ServiceEntry.bytes ++ crc)) := by
    rw [hdrop, sdtBody, List.append_assoc, List.append_assoc]
  have hflags := drop_of_drop (j := 10) hbody (by rw [length_toBytes])
  have hservices := drop_of_drop (j := 11) hflags rfl
  have hfin : (psiSection 0x42 tsid (sdtBody onid services)).length - 4
      = 11 + (services.flatMap ServiceEntry.bytes).length := by
    rw [length_psiSection, sdtBody, List.length_append, List.length_append, length_toBytes,
      List.length_singleton]
    omega
  rw [readSdt, intFromBytes_ext htsid, intFromBytes_of_drop hbody honid rfl,
    readServices_of_drop hservices hfin]

end Services

/-! ## The network -/

/-- The remote control key and the name of a transport stream. -/
structure TsInformation where
  key : UInt8
  name : Bytes
  fits : name.length ≤ 63

namespace TsInformation

variable (t : TsInformation)

/-- The body of the TS information descriptor; the length of the name has six bits. -/
def body : Bytes := [t.key, UInt8.ofNat (t.name.length <<< 2)] ++ t.name

/-- The TS information descriptor. -/
def descriptor : Descriptor where
  tag := 0xCD
  body := t.body
  fits := by
    have := t.fits
    simp only [body, List.length_append, List.length_cons, List.length_nil]
    omega

theorem readTsInformation_body (eucJis2004 : Codec) :
    readTsInformation eucJis2004 (0xCD, t.body)
      = some (t.key.toNat, Aribstr.text eucJis2004 t.name) := by
  have hfits := t.fits
  have htwo : 2 ≤ t.body.length := by
    rw [body, List.length_append]
    exact Nat.le_add_right _ _
  have hname : t.body.drop 2 = t.name ++ [] := (List.append_nil _).symm
  have hlen : (t.body.getD 1 0 >>> 2).toNat = t.name.length := by
    have hfield : t.body.getD 1 0 = UInt8.ofNat (t.name.length <<< 2) := rfl
    have hall : ∀ n < 64, (UInt8.ofNat (n <<< 2) >>> 2).toNat = n := by decide
    rw [hfield, hall _ (by omega)]
  rw [readTsInformation, if_pos ⟨rfl, htwo⟩]
  dsimp only
  rw [hlen, slice_of_drop hname rfl]
  rfl

end TsInformation

/-- An entry of the transport stream loop. -/
structure StreamEntry where
  transportStreamId : ℕ
  originalNetworkId : ℕ
  tsInformation : Option TsInformation
  others : Others 0xCD
  id_lt : transportStreamId < 65536
  network_lt : originalNetworkId < 65536
  fits : (loopBytes (others.around (tsInformation.map TsInformation.descriptor))).length < 4096

namespace StreamEntry

variable (e : StreamEntry)

def loop : Bytes := loopBytes (e.others.around (e.tsInformation.map TsInformation.descriptor))

def bytes : Bytes :=
  toBytes e.transportStreamId 2 ++ toBytes e.originalNetworkId 2
    ++ toBytes (0xF000 ||| e.loop.length) 2 ++ e.loop

/-- What the parser reads of the entry. -/
def entry (eucJis2004 : Codec) : NitEntry where
  transportStreamId := e.transportStreamId
  tsInformation := (e.tsInformation.map fun t ↦
    (t.key.toNat, Aribstr.text eucJis2004 t.name)).toList

theorem length_bytes : e.bytes.length = 6 + e.loop.length := by
  rw [bytes, List.length_append, List.length_append, List.length_append, length_toBytes,
    length_toBytes, length_toBytes]

end StreamEntry

/-- The name of a network, and what stands around it. -/
structure NetworkText where
  name : Bytes
  others : Others 0x40
  name_fits : name.length < 256
  fits : (loopBytes (others.around (some ⟨0x40, name, name_fits⟩))).length < 4096

def NetworkText.loop (n : NetworkText) : Bytes :=
  loopBytes (n.others.around (some ⟨0x40, n.name, n.name_fits⟩))

/-- The body of a NIT. -/
def nitBody (network : NetworkText) (streams : List StreamEntry) : Bytes :=
  toBytes (0xF000 ||| network.loop.length) 2 ++ network.loop
    ++ toBytes (0xF000 ||| (streams.flatMap StreamEntry.bytes).length) 2
    ++ streams.flatMap StreamEntry.bytes

section Network

variable {eucJis2004 : Codec} {sec rest : Bytes}

theorem readEntries_of_drop {streams : List StreamEntry} {i fin : ℕ}
    (h : sec.drop i = streams.flatMap StreamEntry.bytes ++ rest)
    (hfin : fin = i + (streams.flatMap StreamEntry.bytes).length) :
    readEntries eucJis2004 sec fin i = streams.map fun e ↦ e.entry eucJis2004 := by
  induction streams generalizing i with
  | nil =>
    rw [readEntries, if_neg (by simp [hfin])]
    rfl
  | cons e streams ih =>
    rw [List.flatMap_cons, List.length_append, e.length_bytes] at hfin
    have hloop : e.loop.length < 4096 := e.fits
    rw [List.flatMap_cons, StreamEntry.bytes, List.append_assoc, List.append_assoc,
      List.append_assoc, List.append_assoc] at h
    have hnetwork := drop_of_drop (j := i + 2) h (by rw [length_toBytes])
    have hlength := drop_of_drop (j := i + 4) hnetwork (by rw [length_toBytes])
    have hdescriptors := drop_of_drop (j := i + 6) hlength (by rw [length_toBytes])
    have hrest := drop_of_drop hdescriptors rfl
    have hfound : (descriptors e.loop).filterMap (readTsInformation eucJis2004)
        = (e.entry eucJis2004).tsInformation := by
      have hskip : ∀ d : UInt8 × Bytes, d.1 ≠ 0xCD → readTsInformation eucJis2004 d = none :=
        fun d hd ↦ if_neg fun h ↦ hd h.1
      rw [StreamEntry.loop, filterMap_around e.others _ hskip, StreamEntry.entry]
      refine congrArg Option.toList ?_
      cases e.tsInformation with
      | none => rfl
      | some t => exact t.readTsInformation_body eucJis2004
    rw [readEntries, if_pos (by omega), intFromBytes_of_drop h e.id_lt rfl,
      loopLength_of_drop (by decide) (by decide) hloop hlength rfl]
    dsimp only
    rw [slice_of_drop hdescriptors rfl, hfound, ← Nat.add_assoc, ih hrest (by omega)]
    rfl

/-- **The NIT**, read back. -/
theorem readNit_psiSection {networkId : ℕ} (network : NetworkText) (streams : List StreamEntry)
    (hfits : (streams.flatMap StreamEntry.bytes).length < 4096) :
    readNit eucJis2004 (psiSection 0x40 networkId (nitBody network streams))
      = ⟨[Aribstr.text eucJis2004 network.name],
        streams.map fun e ↦ e.entry eucJis2004⟩ := by
  obtain ⟨crc, -, hdrop⟩ := @exists_drop_psiSection 0x40 networkId 0 (nitBody network streams)
  have hbody : (psiSection 0x40 networkId (nitBody network streams)).drop 8
      = toBytes (0xF000 ||| network.loop.length) 2 ++ (network.loop
        ++ (toBytes (0xF000 ||| (streams.flatMap StreamEntry.bytes).length) 2
          ++ (streams.flatMap StreamEntry.bytes ++ crc))) := by
    rw [hdrop, nitBody, List.append_assoc, List.append_assoc, List.append_assoc]
  have hnetwork := drop_of_drop (j := 10) hbody (by rw [length_toBytes])
  have hlength := drop_of_drop hnetwork rfl
  have hstreams := drop_of_drop (j := 10 + network.loop.length + 2) hlength (by rw [length_toBytes])
  have hlen : networkLoopLength (psiSection 0x40 networkId (nitBody network streams))
      = network.loop.length :=
    loopLength_of_drop (by decide) (by decide) network.fits hbody rfl
  have hfound : (descriptors network.loop).filterMap (fun d ↦
      if d.1 = 0x40 then some (Aribstr.text eucJis2004 d.2) else none)
        = [Aribstr.text eucJis2004 network.name] := by
    rw [NetworkText.loop, filterMap_around network.others _ fun d hd ↦ if_neg hd]
    rfl
  have hend : min (10 + network.loop.length + 2 + (streams.flatMap StreamEntry.bytes).length)
      ((psiSection 0x40 networkId (nitBody network streams)).length - 4)
        = 10 + network.loop.length + 2 + (streams.flatMap StreamEntry.bytes).length := by
    rw [length_psiSection, nitBody, List.length_append, List.length_append, List.length_append,
      length_toBytes, length_toBytes]
    omega
  rw [readNit, hlen, slice_of_drop hnetwork rfl, hfound]
  dsimp only
  rw [loopLength_of_drop (by decide) (by decide) hfits hlength rfl, hend,
    readEntries_of_drop hstreams rfl]

end Network

end Recdyud
