import Recdyud.Ts.SectionAssembler
import Recdyud.Ts.Tables

/-!
# Collecting SI tables

`SiCollector.update` walks a buffer of packets, hands the packets of the three table PIDs to their
assemblers and the sections that come out to the parser of the PID, catching the `IndexError` of a
parser. `collect` is the same for one packet, and `update_eq` says that a call collects the packets
of its buffer one after the other. In particular no call raises: `push` is safe on a whole packet.
-/

namespace Recdyud

/-- The three tables that are collected: the keys of `_asm` and `_parsers`. -/
inductive Table where
  | pat
  | nit
  | sdt
  deriving DecidableEq, Repr

namespace Table

def pid : Table → ℕ
  | pat => 0x0000
  | nit => 0x0010
  | sdt => 0x0011

/-- The lookup `p in self._asm`. -/
def ofPid (p : ℕ) : Option Table :=
  if p = pat.pid then some pat else if p = nit.pid then some nit
  else if p = sdt.pid then some sdt else none

/-- `self._parsers[p](sec, self.info)` -/
def parser (eucJis2004 : Codec) : Table → Bytes → Parser Unit
  | pat => parsePat
  | nit => parseNit eucJis2004
  | sdt => parseSdt eucJis2004

end Table

/-- Collects PAT / NIT / SDT from aligned TS packets. -/
structure SiCollector where
  info : TransportInfo := {}
  asm : Table → SectionAssembler := fun _ ↦ {}

namespace SiCollector

variable (eucJis2004 : Codec)

/-- Hand a section to its parser, catching `IndexError`. -/
def take (t : Table) (self : SiCollector) (sec : Bytes) : SiCollector :=
  { self with info := (t.parser eucJis2004 sec).catching self.info }

/-- The loop body of `update`. -/
def updateBody (packets : Bytes) (self : SiCollector) (off : ℕ) :
    Except IndexError SiCollector := do
  let b1 ← index packets (off + 1)
  -- the PIDs of the tables are below 0x100
  if b1 &&& 0x1F != 0 then
    return self
  else
    let p ← index packets (off + 2)
    match Table.ofPid p.toNat with
    | none => return self
    | some t =>
      let (asm, secs) ← (self.asm t).push (slice packets off (off + packetSize))
      let self := { self with asm := Function.update self.asm t asm }
      return secs.foldl (take eucJis2004 t) self

/-- `SiCollector.update` -/
def update (self : SiCollector) (packets : Bytes) : Except IndexError SiCollector :=
  (offsets packets).foldlM (updateBody eucJis2004 packets) self

end SiCollector

/-! ## A push raises nothing -/

namespace SectionAssembler

theorem neverRaises_drainLoop (buf : Bytes) (out : List Bytes) :
    NeverRaises (drainLoop buf out) := by
  induction h : buf.length using Nat.strong_induction_on generalizing buf out with
  | _ n ih =>
    by_cases h3 : buf.length < 3
    · exact ⟨_, drainLoop_of_short h3 out⟩
    by_cases hff : buf[0]? = some 0xFF
    · exact ⟨_, drainLoop_of_stuffing hff out⟩
    rw [drainLoop_of_header (by omega) hff]
    have hsize : 3 ≤ sectionSize buf := Nat.le_add_right _ _
    refine .ite (fun _ ↦ neverRaises_ok _) fun _ ↦ ih _ ?_ _ _ rfl
    rw [List.length_drop]
    omega

theorem neverRaises_drain (self : SectionAssembler) : NeverRaises self.drain := by
  rw [drain]
  refine (neverRaises_drainLoop _ _).bind fun x _ ↦ ?_
  exact .ite (fun _ ↦ neverRaises_pure _) fun _ ↦ neverRaises_pure _

theorem neverRaises_extend (self : SectionAssembler) (data : Bytes) :
    NeverRaises (self.extend data) := by
  rw [extend]
  exact .ite (fun _ ↦ neverRaises_drain _) fun _ ↦ neverRaises_pure _

theorem neverRaises_collect (self : SectionAssembler) (p : Packet) :
    NeverRaises (self.collect p.bytes (p.byte 1) p.afc) := by
  cases hpayload : p.payload with
  | nil => exact ⟨_, collect_of_idle hpayload⟩
  | cons pointer body =>
    cases hpusi : p.pusi with
    | false =>
      rw [collect_of_continuation hpusi (by simp [hpayload])]
      exact neverRaises_extend _ _
    | true =>
      rw [collect_of_start hpusi hpayload]
      refine (neverRaises_extend _ _).bind fun x _ ↦ ?_
      exact (neverRaises_drain _).bind fun y _ ↦ neverRaises_pure _

theorem neverRaises_push (self : SectionAssembler) (p : Packet) :
    NeverRaises (self.push p.bytes) := by
  cases htei : p.tei with
  | true => exact ⟨_, push_of_tei htei⟩
  | false =>
    rw [push_eq htei]
    exact .ite (fun _ ↦ neverRaises_ok _) fun _ ↦ neverRaises_collect _ p

/-- What `push` returns. -/
def pushed (self : SectionAssembler) (p : Packet) : SectionAssembler × List Bytes :=
  (self.push p.bytes).toOption.getD (self, [])

theorem push_eq_pushed (self : SectionAssembler) (p : Packet) :
    self.push p.bytes = .ok (self.pushed p) := by
  obtain ⟨x, hx⟩ := neverRaises_push self p
  rw [pushed, hx]
  rfl

end SectionAssembler

/-! ## One packet at a time -/

namespace Packet

variable (p : Packet)

/-- The table whose PID the packet carries. -/
def table : Option Table :=
  if p.byte 1 one_lt_packetSize &&& 0x1F != 0 then none
  else Table.ofPid (p.byte 2 two_lt_packetSize).toNat

end Packet

namespace SiCollector

variable (eucJis2004 : Codec)

/-- Collect one packet. -/
def collect (self : SiCollector) (p : Packet) : SiCollector :=
  match p.table with
  | none => self
  | some t =>
    ((self.asm t).pushed p).2.foldl (take eucJis2004 t)
      { self with asm := Function.update self.asm t ((self.asm t).pushed p).1 }

theorem updateBody_eq {packets : Bytes} {off : ℕ} {p : Packet}
    (hp : p.bytes = slice packets off (off + packetSize)) (self : SiCollector) :
    updateBody eucJis2004 packets self off = .ok (self.collect eucJis2004 p) := by
  rw [updateBody, Packet.index_of_slice hp 1, Packet.index_of_slice hp 2, ← hp, collect,
    Packet.table]
  simp only [bind, Except.bind]
  split
  · rfl
  · cases Table.ofPid (p.byte 2).toNat with
    | none => rfl
    | some t =>
      dsimp only
      rw [SectionAssembler.push_eq_pushed]
      rfl

/-- `update` raises nothing and collects the packets of the buffer one by one. -/
theorem update_eq (self : SiCollector) (packets : Bytes) :
    self.update eucJis2004 packets
      = .ok ((packetsOf packets).foldl (collect eucJis2004) self) := by
  rw [update, foldlM_offsets (g := fun self p ↦ .ok (collect eucJis2004 self p))
    fun self off p _ hp ↦ updateBody_eq eucJis2004 hp self]
  exact List.foldlM_pure

/-- Two buffers of whole packets are collected like their concatenation. -/
theorem foldl_collect_append (self : SiCollector) {a : Bytes} (ha : Aligned a) (b : Bytes) :
    (packetsOf (a ++ b)).foldl (collect eucJis2004) self
      = (packetsOf b).foldl (collect eucJis2004)
        ((packetsOf a).foldl (collect eucJis2004) self) := by
  rw [packetsOf_append ha, List.foldl_append]

end SiCollector

end Recdyud
