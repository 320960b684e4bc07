import Recdyud.Ts.SiCollector

/-!
# The handler that is never entered

`SiCollector.update` guards each parser with `except IndexError: pass`. `updateRaising` is the same
function without the guard: whatever a parser raises leaves it. The two agree on every input
(`updateRaising_eq`), so the handler is dead code and no section is ever applied by halves.

Two things make the parsers safe. Their loops check each header against the length of the section,
and slices cannot raise; only `sec[0]` is read unchecked. And the assembler returns nothing shorter
than a section header, whatever it is fed (`pushed_valid`).
-/

namespace Recdyud

/-! ## What comes out is a section -/

namespace SectionAssembler

variable {self st : SectionAssembler} {out : List Bytes}

/-- The front of a buffer, cut to the size its header gives. -/
theorem validSection_take {buf : Bytes} (hff : buf[0]? ≠ some 0xFF)
    (hsize : sectionSize buf ≤ buf.length) (hcrc : crc32Mpeg2 (buf.take (sectionSize buf)) = 0) :
    ValidSection (buf.take (sectionSize buf)) := by
  have hlen : (buf.take (sectionSize buf)).length = sectionSize buf := by
    rw [List.length_take, Nat.min_eq_left hsize]
  have hthree : 3 ≤ sectionSize buf := Nat.le_add_right _ _
  constructor
  · have happend := sectionSize_append (hlen ▸ hthree) (buf.drop (sectionSize buf))
    rw [List.take_append_drop] at happend
    exact hlen.trans happend
  · rw [List.getElem?_take_of_lt (by omega)]
    exact hff
  · exact hcrc

theorem drainLoop_valid {buf buf' : Bytes} {out out' : List Bytes}
    (h : drainLoop buf out = .ok (buf', out')) (hout : ∀ s ∈ out, ValidSection s) :
    ∀ s ∈ out', ValidSection s := by
  induction hn : buf.length using Nat.strong_induction_on generalizing buf out with
  | _ n ih =>
    by_cases h3 : buf.length < 3
    · rw [drainLoop_of_short h3] at h
      obtain ⟨-, rfl⟩ := Prod.mk.inj (Except.ok.inj h)
      exact hout
    by_cases hff : buf[0]? = some 0xFF
    · rw [drainLoop_of_stuffing hff] at h
      obtain ⟨-, rfl⟩ := Prod.mk.inj (Except.ok.inj h)
      exact hout
    rw [drainLoop_of_header (not_lt.mp h3) hff] at h
    have hthree : 3 ≤ sectionSize buf := Nat.le_add_right _ _
    split at h
    · obtain ⟨-, rfl⟩ := Prod.mk.inj (Except.ok.inj h)
      exact hout
    · rename_i hsize
      refine ih _ ?_ h ?_ rfl
      · rw [List.length_drop]
        omega
      · split
        · rename_i hcrc
          rintro s hs
          rcases List.mem_append.mp hs with hs | hs
          · exact hout s hs
          · rw [List.mem_singleton.mp hs]
            exact validSection_take hff (not_lt.mp hsize) hcrc
        · exact hout

theorem drain_valid (h : self.drain = .ok (st, out)) : ∀ s ∈ out, ValidSection s := by
  obtain ⟨⟨buf, out'⟩, hloop⟩ := neverRaises_drainLoop self.buf []
  have hvalid := drainLoop_valid hloop (List.forall_mem_nil _)
  have hout : out = out' := by
    rw [drain, hloop] at h
    simp only [bind, Except.bind] at h
    split at h <;> exact (Prod.mk.inj (Except.ok.inj h)).2.symm
  rwa [hout]

theorem extend_valid {data : Bytes} (h : self.extend data = .ok (st, out)) :
    ∀ s ∈ out, ValidSection s := by
  rw [extend] at h
  split at h
  · exact drain_valid h
  · obtain ⟨-, rfl⟩ := Prod.mk.inj (Except.ok.inj h)
    exact List.forall_mem_nil _

theorem collect_valid {p : Packet} (h : self.collect p.bytes (p.byte 1) p.afc = .ok (st, out)) :
    ∀ s ∈ out, ValidSection s := by
  cases hpayload : p.payload with
  | nil =>
    rw [collect_of_idle hpayload] at h
    obtain ⟨-, rfl⟩ := Prod.mk.inj (Except.ok.inj h)
    exact List.forall_mem_nil _
  | cons pointer body =>
    cases hpusi : p.pusi with
    | false =>
      rw [collect_of_continuation hpusi (by simp [hpayload])] at h
      exact extend_valid h
    | true =>
      rw [collect_of_start hpusi hpayload] at h
      obtain ⟨⟨st₁, finished⟩, hfinished⟩ := neverRaises_extend self (body.take pointer.toNat)
      obtain ⟨⟨st₂, more⟩, hmore⟩ :=
        neverRaises_drain { st₁ with buf := body.drop pointer.toNat, active := true }
      rw [hfinished] at h
      simp only [bind, Except.bind, hmore] at h
      obtain ⟨-, rfl⟩ := Prod.mk.inj (Except.ok.inj h)
      rintro s hs
      rcases List.mem_append.mp hs with hs | hs
      · exact extend_valid hfinished s hs
      · exact drain_valid hmore s hs

/-- **Every section that comes out is one**, whatever packets went in. -/
theorem pushed_valid (self : SectionAssembler) (p : Packet) :
    ∀ s ∈ (self.pushed p).2, ValidSection s := by
  have hpush := push_eq_pushed self p
  cases htei : p.tei with
  | true =>
    rw [push_of_tei htei] at hpush
    rw [← Except.ok.inj hpush]
    exact List.forall_mem_nil _
  | false =>
    rw [push_eq htei] at hpush
    split at hpush
    · rw [← Except.ok.inj hpush]
      exact List.forall_mem_nil _
    · exact collect_valid hpush

end SectionAssembler

/-! ## Without the handler -/

namespace SiCollector

variable (eucJis2004 : Codec)

/-- Hand a section to its parser; what it raises goes on. -/
def takeRaising (t : Table) (self : SiCollector) (sec : Bytes) : Except IndexError SiCollector :=
  match (t.parser eucJis2004 sec).run.run self.info with
  | (.ok _, info) => .ok { self with info }
  | (.error e, _) => .error e

/-- The loop body of `update`, without the `try`. -/
def updateRaisingBody (packets : Bytes) (self : SiCollector) (off : ℕ) :
    Except IndexError SiCollector := do
  let b1 ← index packets (off + 1)
  if b1 &&& 0x1F != 0 then
    return self
  else
    let p ← index packets (off + 2)
    match Table.ofPid p.toNat with
    | none => return self
    | some t =>
      let (asm, secs) ← (self.asm t).push (slice packets off (off + packetSize))
      let self := { self with asm := Function.update self.asm t asm }
      secs.foldlM (takeRaising eucJis2004 t) self

/-- `SiCollector.update` without its `try`. -/
def updateRaising (self : SiCollector) (packets : Bytes) : Except IndexError SiCollector :=
  (offsets packets).foldlM (updateRaisingBody eucJis2004 packets) self

/-- On a section that is not empty, each parser runs to its end. -/
theorem parser_does (t : Table) {sec : Bytes} (hsec : sec ≠ []) :
    ∃ f, (t.parser eucJis2004 sec).Does f := by
  cases t with
  | pat => exact ⟨_, does_parsePat hsec⟩
  | nit => exact ⟨_, does_parseNit hsec⟩
  | sdt => exact ⟨_, does_parseSdt hsec⟩

theorem takeRaising_eq (t : Table) (self : SiCollector) {sec : Bytes} (hsec : sec ≠ []) :
    takeRaising eucJis2004 t self sec = .ok (take eucJis2004 t self sec) := by
  obtain ⟨f, hf⟩ := parser_does eucJis2004 t hsec
  rw [takeRaising, take, hf self.info, hf.catching]

theorem foldlM_takeRaising (t : Table) (self : SiCollector) {secs : List Bytes}
    (hsecs : ∀ sec ∈ secs, sec ≠ []) :
    secs.foldlM (takeRaising eucJis2004 t) self = .ok (secs.foldl (take eucJis2004 t) self) := by
  induction secs generalizing self with
  | nil => rfl
  | cons sec secs ih =>
    rw [List.foldlM_cons, takeRaising_eq eucJis2004 t self (hsecs sec List.mem_cons_self)]
    exact ih _ fun s hs ↦ hsecs s (List.mem_cons_of_mem _ hs)

theorem updateRaisingBody_eq {packets : Bytes} {off : ℕ} {p : Packet}
    (hp : p.bytes = slice packets off (off + packetSize)) (self : SiCollector) :
    updateRaisingBody eucJis2004 packets self off = .ok (self.collect eucJis2004 p) := by
  rw [updateRaisingBody, Packet.index_of_slice hp 1, Packet.index_of_slice hp 2, ← hp, collect,
    Packet.table]
  simp only [bind, Except.bind]
  split
  · rfl
  · cases Table.ofPid (p.byte 2).toNat with
    | none => rfl
    | some t =>
      dsimp only
      rw [SectionAssembler.push_eq_pushed]
      refine foldlM_takeRaising eucJis2004 t _ fun sec hsec ↦ ?_
      have hthree := (SectionAssembler.pushed_valid (self.asm t) p sec hsec).three_le
      exact List.ne_nil_of_length_pos (by omega)

/-- The handler makes no difference. -/
theorem updateRaising_eq (self : SiCollector) (packets : Bytes) :
    self.updateRaising eucJis2004 packets = self.update eucJis2004 packets := by
  rw [update_eq, updateRaising, foldlM_offsets (g := fun self p ↦ .ok (collect eucJis2004 self p))
    fun self off p _ hp ↦ updateRaisingBody_eq eucJis2004 hp self]
  exact List.foldlM_pure

/-- **No exception**, on any reception: the calls go through, and they do without the handler what
they do with it. -/
theorem foldlM_updateRaising (calls : List Bytes) : ∃ final,
    calls.foldlM (updateRaising eucJis2004) {} = .ok final
    ∧ calls.foldlM (update eucJis2004) {} = .ok final := by
  have hsame : updateRaising eucJis2004 = update eucJis2004 :=
    funext fun self ↦ funext fun packets ↦ updateRaising_eq eucJis2004 self packets
  rw [hsame]
  generalize ({} : SiCollector) = self
  induction calls generalizing self with
  | nil => exact ⟨self, rfl, rfl⟩
  | cons packets calls ih =>
    rw [List.foldlM_cons, update_eq]
    exact ih _

end SiCollector

end Recdyud
