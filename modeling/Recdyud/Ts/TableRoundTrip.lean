import Recdyud.Ts.TableDescription
import Recdyud.Ts.TableOrder

/-!
# From the description to the collected tables, and back

The sections of a `Broadcast`, cut into packets and fed to a fresh collector, give exactly what was
described (`update_packets`). Each table travels on its own PID, so its packets go to one assembler
and leave the others alone (`collect_table`); the section comes out whole, is read back, and what is
read is written to the `TransportInfo` in the order PAT, SDT, NIT.

With the PAT first the id of the stream is known when the NIT comes, so of all transport streams in
the network only our own is taken.
-/

namespace Recdyud

/-! ## A map, entry by entry -/

/-- Entries with distinct keys, inserted one after the other. -/
theorem foldl_insert_eq_toFinmap {β : Type} {l : List (ℕ × β)} (h : (l.map Prod.fst).Nodup) :
    l.foldl (fun (m : Finmap fun _ : ℕ ↦ β) x ↦ m.insert x.1 x.2) ∅
      = (l.map Prod.toSigma).toFinmap := by
  induction l using List.reverseRecOn with
  | nil => rfl
  | append_singleton l x ih =>
    rw [List.map_append, List.map_singleton, List.nodup_append] at h
    obtain ⟨hl, -, hx⟩ := h
    have hnew : x.1 ∉ (l.map Prod.toSigma).keys := by
      intro hmem
      rw [List.keys, List.map_map] at hmem
      exact hx x.1 hmem x.1 List.mem_cons_self rfl
    rw [List.foldl_append, ih hl, List.foldl_cons, List.foldl_nil]
    refine Finmap.ext_lookup fun k ↦ ?_
    rw [Finmap.dlookup_list_toFinmap, List.map_append, List.dlookup_append]
    by_cases hk : k = x.1
    · subst hk
      rw [Finmap.lookup_insert, List.dlookup_eq_none.mpr hnew, Option.none_or]
      exact (List.dlookup_cons_eq (β := fun _ ↦ β) [] x.1 x.2).symm
    · rw [Finmap.lookup_insert_of_ne _ hk, Finmap.dlookup_list_toFinmap, List.map_singleton,
        List.dlookup_cons_ne _ _ hk, List.dlookup_nil, Option.or_none]

/-! ## Collecting one table -/

namespace SiCollector

variable {eucJis2004 : Codec}

theorem foldl_take (t : Table) (self : SiCollector) (secs : List Bytes) :
    (secs.foldl (take eucJis2004 t) self).asm = self.asm
    ∧ (secs.foldl (take eucJis2004 t) self).info
      = secs.foldl (fun info sec ↦ (t.parser eucJis2004 sec).catching info) self.info := by
  induction secs generalizing self with
  | nil => exact ⟨rfl, rfl⟩
  | cons sec secs ih => exact ih (take eucJis2004 t self sec)

/-- Packets of one table go to its assembler, and what that gives to its parser. -/
theorem collect_table {t : Table} {ps : List Packet} (hps : ∀ p ∈ ps, p.table = some t)
    {self : SiCollector} {asm : SectionAssembler} {secs : List Bytes}
    (h : feedAll SectionAssembler.push (self.asm t) (ps.map Packet.bytes) = .ok (asm, secs)) :
    (ps.foldl (collect eucJis2004) self).info
      = secs.foldl (fun info sec ↦ (t.parser eucJis2004 sec).catching info) self.info
    ∧ ∀ u ≠ t, (ps.foldl (collect eucJis2004) self).asm u = self.asm u := by
  induction ps generalizing self secs with
  | nil =>
    obtain ⟨-, rfl⟩ := Prod.mk.inj (Except.ok.inj h)
    exact ⟨rfl, fun _ _ ↦ rfl⟩
  | cons p ps ih =>
    rw [List.map_cons, feedAll, SectionAssembler.push_eq_pushed] at h
    have hcollect : self.collect eucJis2004 p
        = ((self.asm t).pushed p).2.foldl (take eucJis2004 t)
          { self with asm := Function.update self.asm t ((self.asm t).pushed p).1 } := by
      rw [collect, hps p List.mem_cons_self]
    obtain ⟨hasm, hinfo⟩ := @foldl_take eucJis2004 t
      { self with asm := Function.update self.asm t ((self.asm t).pushed p).1 }
      ((self.asm t).pushed p).2
    rw [← hcollect] at hasm hinfo
    dsimp only at hasm hinfo
    have hown : (self.collect eucJis2004 p).asm t = ((self.asm t).pushed p).1 := by
      rw [hasm, Function.update_self]
    simp only [bind, Except.bind, ← hown] at h
    cases hrest : feedAll SectionAssembler.push ((self.collect eucJis2004 p).asm t)
        (ps.map Packet.bytes) with
    | error e =>
      rw [hrest] at h
      cases h
    | ok x =>
      rw [hrest] at h
      obtain ⟨rfl, rfl⟩ := Prod.mk.inj (Except.ok.inj h)
      obtain ⟨hinfo', hasm'⟩ := ih (fun q hq ↦ hps q (List.mem_cons_of_mem _ hq)) hrest
      refine ⟨?_, fun u hu ↦ ?_⟩
      · rw [List.foldl_cons, hinfo', hinfo, List.foldl_append]
      · rw [List.foldl_cons, hasm' u hu, hasm, Function.update_of_ne hu]

end SiCollector

/-! ## A broadcast -/

/-- What is said of one transport stream, in data that fit their fields. -/
structure Broadcast where
  transportStreamId : ℕ
  /-- program numbers and PMT PIDs -/
  programs : List (ℕ × ℕ)
  originalNetworkId : ℕ
  services : List ServiceEntry
  networkId : ℕ
  network : NetworkText
  streams : List StreamEntry
  /-- The transport stream itself, as the network lists it. -/
  own : StreamEntry
  transportStreamId_lt : transportStreamId < 65536
  originalNetworkId_lt : originalNetworkId < 65536
  networkId_lt : networkId < 65536
  programs_fit : ∀ x ∈ programs, ProgramFits x
  programs_nodup : (programs.map Prod.fst).Nodup
  services_nodup : (services.map fun e ↦ e.service.serviceId).Nodup
  streams_nodup : (streams.map StreamEntry.transportStreamId).Nodup
  own_mem : own ∈ streams
  own_id : own.transportStreamId = transportStreamId
  pat_fits : 5 + (patBody programs).length + 4 < 4096
  sdt_fits : 5 + (sdtBody originalNetworkId services).length + 4 < 4096
  nit_fits : 5 + (nitBody network streams).length + 4 < 4096

namespace Broadcast

variable (b : Broadcast)

def pat : Bytes := psiSection 0x00 b.transportStreamId (patBody b.programs)

def sdt : Bytes := psiSection 0x42 b.transportStreamId (sdtBody b.originalNetworkId b.services)

def nit : Bytes := psiSection 0x40 b.networkId (nitBody b.network b.streams)

/-- PAT, SDT and NIT in packets, the counters of the three PIDs beginning at `c₁`, `c₂`, `c₃`. -/
def packets (c₁ c₂ c₃ : ℕ) : List Packet :=
  sectionPackets 0x00 b.pat c₁ ++ sectionPackets 0x11 b.sdt c₂ ++ sectionPackets 0x10 b.nit c₃

/-- What is to be collected. `Aribstr.text` is what `decode` returns. -/
def info (eucJis2004 : Codec) : TransportInfo where
  transportStreamId := some b.transportStreamId
  originalNetworkId := some b.originalNetworkId
  networkName := Aribstr.text eucJis2004 b.network.name
  tsName := (b.own.tsInformation.map fun t ↦ Aribstr.text eucJis2004 t.name).getD []
  remoteControlKeyId := b.own.tsInformation.map fun t ↦ t.key.toNat
  programs := (b.programs.map Prod.toSigma).toFinmap
  services := (b.services.map fun e ↦
    ⟨e.service.serviceId, e.service.info eucJis2004⟩).toFinmap

variable {eucJis2004 : Codec}

/-- Of the streams the network lists, the parser takes our own. -/
theorem ownTsInformation (names : List Str) :
    (Nit.mk names (b.streams.map fun e ↦ e.entry eucJis2004)).tsInformation
      (some b.transportStreamId) = (b.own.entry eucJis2004).tsInformation := by
  obtain ⟨before, behind, hstreams⟩ := List.append_of_mem b.own_mem
  have hnodup := b.streams_nodup
  rw [hstreams, List.map_append, List.map_cons, List.nodup_middle, List.nodup_cons,
    ← List.map_append] at hnodup
  have hother (es : List StreamEntry) (hes : ∀ e ∈ es, e ∈ before ++ behind) :
      (Nit.mk names (es.map fun e ↦ e.entry eucJis2004)).tsInformation
        (some b.transportStreamId) = [] := by
    rw [Nit.tsInformation, List.flatMap_eq_nil_iff]
    rintro x hx
    obtain ⟨e, he, rfl⟩ := List.mem_map.mp hx
    refine if_neg ?_
    rintro (h | h)
    · cases h
    · refine hnodup.1 ?_
      rw [b.own_id, Option.some.inj h]
      exact List.mem_map_of_mem (hes e he)
  have hbefore := hother before fun e he ↦ List.mem_append_left _ he
  have hbehind := hother behind fun e he ↦ List.mem_append_right _ he
  rw [Nit.tsInformation] at hbefore hbehind ⊢
  dsimp only at hbefore hbehind ⊢
  rw [hstreams, List.map_append, List.map_cons, List.flatMap_append, List.flatMap_cons, hbefore,
    hbehind, List.nil_append, List.append_nil, ← b.own_id]
  exact if_pos (.inr rfl)

theorem foldl_insertService :
    (b.services.map fun e ↦ e.service.info eucJis2004).foldl insertService ∅
      = (b.info eucJis2004).services := by
  have hnodup : ((b.services.map fun e ↦
      (e.service.serviceId, e.service.info eucJis2004)).map Prod.fst).Nodup := by
    rw [List.map_map]
    exact b.services_nodup
  have hinsert := foldl_insert_eq_toFinmap hnodup
  rw [List.foldl_map, List.map_map] at hinsert
  rw [List.foldl_map]
  exact hinsert

/-- The three sections, read and written down in their order. -/
theorem apply_tables :
    (readNit eucJis2004 b.nit).apply ((readSdt eucJis2004 b.sdt).apply ((readPat b.pat).apply {}))
      = b.info eucJis2004 := by
  have hstreams : (b.streams.flatMap StreamEntry.bytes).length < 4096 := by
    have hfits := b.nit_fits
    rw [nitBody, List.length_append] at hfits
    omega
  rw [pat, readPat_psiSection b.transportStreamId_lt b.programs_fit, Pat.apply_eq, sdt,
    readSdt_psiSection b.transportStreamId_lt b.originalNetworkId_lt, Sdt.apply_eq, nit,
    readNit_psiSection _ _ hstreams, Nit.apply_eq]
  dsimp only [Option.some_or]
  rw [b.ownTsInformation, foldl_insert_eq_toFinmap b.programs_nodup, StreamEntry.entry,
    b.foldl_insertService, info]
  cases b.own.tsInformation <;> rfl

theorem table_of_mem {t : Table} {sec : Bytes} {cc : ℕ} {p : Packet}
    (h : p ∈ sectionPackets t.pid sec cc) : p.table = some t := by
  obtain ⟨first, cc, payload, rfl⟩ := exists_chunk h
  have hpid : t.pid < 256 := by cases t <;> decide
  have hbyte1 : (chunkPacket t.pid first cc payload).byte 1 = if first then 0x40 else 0 :=
    (flags_chunkPacket hpid).2.2
  rw [Packet.table, hbyte1]
  cases t <;> cases first <;> rfl

/-- One section in its packets. -/
theorem collect_section (t : Table) {tableId : UInt8} {ext : ℕ} {body : Bytes} (cc : ℕ)
    (htable : tableId ≠ 0xFF) (hfits : 5 + body.length + 4 < 4096) {self : SiCollector}
    (hself : self.asm t = {}) :
    ((sectionPackets t.pid (psiSection tableId ext body) cc).foldl
        (SiCollector.collect eucJis2004) self).info
      = (t.parser eucJis2004 (psiSection tableId ext body)).catching self.info
    ∧ ∀ u ≠ t, ((sectionPackets t.pid (psiSection tableId ext body) cc).foldl
        (SiCollector.collect eucJis2004) self).asm u = self.asm u := by
  have hpid : t.pid < 256 := by cases t <;> decide
  have hvalid : SectionAssembler.ValidSection (psiSection tableId ext body) :=
    validSection_psiSection htable hfits
  have hpackets (ps : List Packet) : (cellsOf ps).map Cell.packet = ps := by
    rw [cellsOf, List.map_map]
    exact List.map_id ps
  have hlegal : LegalPacketisation [psiSection tableId ext body]
      (cellsOf (sectionPackets t.pid (psiSection tableId ext body) cc)) :=
    legalPacketisation_sectionPackets hpid psiSection_ne_nil
  obtain ⟨asm, hasm⟩ := SectionAssembler.feedAll_push_legal (List.forall_mem_singleton.mpr hvalid)
    hlegal
  rw [hpackets, ← hself] at hasm
  exact SiCollector.collect_table (fun p hp ↦ table_of_mem hp) hasm

/-- **The tables round-trip.** -/
theorem update_packets (c₁ c₂ c₃ : ℕ) : ∃ final,
    ({} : SiCollector).update eucJis2004 ((b.packets c₁ c₂ c₃).flatMap Packet.bytes) = .ok final
    ∧ final.info = b.info eucJis2004 := by
  rw [SiCollector.update_eq, packetsOf_flatMap_bytes]
  refine ⟨_, rfl, ?_⟩
  rw [packets, List.foldl_append, List.foldl_append]
  have hpatId : (0x00 : UInt8) ≠ 0xFF := by decide
  have hsdtId : (0x42 : UInt8) ≠ 0xFF := by decide
  have hnitId : (0x40 : UInt8) ≠ 0xFF := by decide
  obtain ⟨hpat, hpatAsm⟩ := @collect_section eucJis2004 .pat 0x00 b.transportStreamId
    (patBody b.programs) c₁ hpatId b.pat_fits {} rfl
  obtain ⟨hsdt, hsdtAsm⟩ := @collect_section eucJis2004 .sdt 0x42 b.transportStreamId
    (sdtBody b.originalNetworkId b.services) c₂ hsdtId b.sdt_fits _ (hpatAsm .sdt (by decide))
  obtain ⟨hnit, -⟩ := @collect_section eucJis2004 .nit 0x40 b.networkId
    (nitBody b.network b.streams) c₃ hnitId b.nit_fits _
    ((hsdtAsm .nit (by decide)).trans (hpatAsm .nit (by decide)))
  rw [hsdt, hpat, Table.parser, Table.parser, Table.parser,
    (does_parsePat psiSection_ne_nil).catching, (does_parseSdt psiSection_ne_nil).catching,
    (does_parseNit psiSection_ne_nil).catching, if_pos psiSection_table_id,
    if_pos psiSection_table_id, if_pos psiSection_table_id] at hnit
  exact hnit.trans b.apply_tables

/-! ### The broadcast of the tests -/

/-- Of the codec, the row of the katakana. -/
def katakanaRow : Codec
  | [0xA5, b] => Aribstr.katakana[b.toNat - 0xA1]?.map ([·])
  | _ => none

def serviceName : Bytes := [0x25, 0x46, 0x25, 0x39, 0x25, 0x48]

def networkName : Bytes := [0x25, 0x4D, 0x25, 0x43, 0x25, 0x48]

/-- A descriptor that none of the parsers reads. -/
def linkage : Descriptor := ⟨0x4A, [0x7F, 0xE1, 0x00, 0x04], by decide⟩

def ownStream : StreamEntry where
  transportStreamId := 0x7FE0
  originalNetworkId := 0x0004
  tsInformation := some ⟨1, networkName, by decide⟩
  others := ⟨[linkage], [], by decide⟩
  id_lt := by decide
  network_lt := by decide
  fits := by decide

def otherStream : StreamEntry where
  transportStreamId := 0x7FE1
  originalNetworkId := 0x0004
  tsInformation := some ⟨2, serviceName, by decide⟩
  others := ⟨[], [], by decide⟩
  id_lt := by decide
  network_lt := by decide
  fits := by decide

/-- What the tests build, in a network that lists a second stream. -/
def twoStreamNetwork : Broadcast where
  transportStreamId := 0x7FE0
  programs := [(1024, 0x1F0)]
  originalNetworkId := 0x0004
  services := [⟨⟨1024, 0x01, [], serviceName, by decide, by decide⟩, ⟨[], [linkage], by decide⟩,
    by decide⟩]
  networkId := 0x7FE0
  network := ⟨networkName, ⟨[], [linkage], by decide⟩, by decide, by decide⟩
  streams := [ownStream, otherStream]
  own := ownStream
  transportStreamId_lt := by decide
  originalNetworkId_lt := by decide
  networkId_lt := by decide
  programs_fit := by decide
  programs_nodup := by decide
  services_nodup := by decide
  streams_nodup := by decide
  own_mem := List.mem_cons_self
  own_id := rfl
  pat_fits := by decide
  sdt_fits := by decide
  nit_fits := by decide

theorem update_packets_twoStreamNetwork : ∃ final,
    ({} : SiCollector).update katakanaRow
      ((twoStreamNetwork.packets 0 0 0).flatMap Packet.bytes) = .ok final
    ∧ final.info.networkName = "ネット".toList ∧ final.info.tsName = "ネット".toList
    ∧ final.info.remoteControlKeyId = some 1 := by
  obtain ⟨final, hrun, hinfo⟩ := @update_packets twoStreamNetwork katakanaRow 0 0 0
  have hname : Aribstr.text katakanaRow networkName = "ネット".toList := by decide +kernel
  refine ⟨final, hrun, ?_, ?_, ?_⟩
  · rw [hinfo]
    exact hname
  · rw [hinfo]
    exact hname
  · rw [hinfo]
    rfl

end Broadcast

end Recdyud
