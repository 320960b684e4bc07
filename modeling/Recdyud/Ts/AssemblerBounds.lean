import Recdyud.Ts.Crc32
import Recdyud.Ts.SiSafety

/-!
# What the assembler holds

Between two pushes the buffer of a `SectionAssembler` holds the beginning of one section and nothing
else: `Settled` says so, and every push settles, whatever flags, counters and lengths the packet
claims. The buffer is therefore bounded by the size a section can give itself.

The sections that come out are at least five bytes long. Three bytes never check, and the only four
bytes that do begin like stuffing.
-/

namespace Recdyud

namespace SectionAssembler

variable {self st : SectionAssembler} {out : List Bytes}

/-- The beginning of a section, with bytes still missing. -/
def Unfinished (buf : Bytes) : Prop :=
  buf[0]? ≠ some 0xFF ∧ (buf.length < 3 ∨ buf.length < sectionSize buf)

/-- Only an active assembler holds something, and then the beginning of a section. -/
structure Settled (a : SectionAssembler) : Prop where
  idle : a.active = false → a.buf = []
  unfinished : a.active = true → a.buf = [] ∨ Unfinished a.buf

theorem sectionSize_le (s : Bytes) : sectionSize s ≤ 4098 := by
  have hhigh : ((s.getD 1 0 &&& 0x0F).toNat <<< 8) < 2 ^ 12 := by
    have : (s.getD 1 0 &&& 0x0F).toNat ≤ 0x0F := by
      rw [UInt8.toNat_and]
      exact Nat.and_le_right
    rw [Nat.shiftLeft_eq]
    omega
  have hlow : (s.getD 2 0).toNat < 2 ^ 12 := (s.getD 2 0).toNat_lt.trans (by decide)
  have := Nat.or_lt_two_pow hhigh hlow
  rw [sectionSize]
  omega

theorem Settled.length_le (h : self.Settled) : self.buf.length ≤ 4097 := by
  cases hactive : self.active with
  | false => rw [h.idle hactive]; decide
  | true =>
    rcases h.unfinished hactive with hnil | ⟨-, hshort | hshort⟩
    · rw [hnil]
      decide
    · omega
    · have := sectionSize_le self.buf
      omega

/-! ## Every push settles -/

/-- The loop stops at stuffing or in front of an unfinished section. -/
theorem drainLoop_stops {buf buf' : Bytes} {out out' : List Bytes}
    (h : drainLoop buf out = .ok (buf', out')) :
    buf'.length < 3 ∨ buf'[0]? = some 0xFF ∨ buf'.length < sectionSize buf' := by
  induction hn : buf.length using Nat.strong_induction_on generalizing buf out with
  | _ n ih =>
    by_cases h3 : buf.length < 3
    · rw [drainLoop_of_short h3] at h
      obtain ⟨rfl, -⟩ := Prod.mk.inj (Except.ok.inj h)
      exact .inl h3
    by_cases hff : buf[0]? = some 0xFF
    · rw [drainLoop_of_stuffing hff] at h
      obtain ⟨rfl, -⟩ := Prod.mk.inj (Except.ok.inj h)
      exact .inr (.inl hff)
    rw [drainLoop_of_header (not_lt.mp h3) hff] at h
    have hthree : 3 ≤ sectionSize buf := Nat.le_add_right _ _
    split at h
    · obtain ⟨rfl, -⟩ := Prod.mk.inj (Except.ok.inj h)
      exact .inr (.inr ‹_›)
    · refine ih _ ?_ h rfl
      rw [List.length_drop]
      omega

theorem drain_settled (hactive : self.active = true) (h : self.drain = .ok (st, out)) :
    st.Settled := by
  obtain ⟨⟨buf, out'⟩, hloop⟩ := neverRaises_drainLoop self.buf []
  have hstops := drainLoop_stops hloop
  rw [drain, hloop] at h
  simp only [bind, Except.bind] at h
  split at h
  · obtain ⟨rfl, -⟩ := Prod.mk.inj (Except.ok.inj h)
    exact ⟨fun _ ↦ rfl, fun _ ↦ .inl rfl⟩
  · rename_i hhead
    obtain ⟨rfl, -⟩ := Prod.mk.inj (Except.ok.inj h)
    refine ⟨fun hidle ↦ absurd (hactive.symm.trans hidle) (by decide), fun _ ↦ ?_⟩
    cases hbuf : buf with
    | nil => exact .inl rfl
    | cons b rest =>
      have hff : buf[0]? ≠ some 0xFF := by
        intro hff
        rw [hbuf, List.getElem?_cons_zero] at hff
        refine hhead ?_
        rw [hbuf, List.take_succ_cons, List.take_zero, Option.some.inj hff]
      right
      refine ⟨hbuf ▸ hff, ?_⟩
      rw [← hbuf]
      exact hstops.imp_right fun h ↦ h.resolve_left hff

theorem extend_settled {data : Bytes} (hself : self.Settled)
    (h : self.extend data = .ok (st, out)) : st.Settled := by
  cases hactive : self.active with
  | true =>
    rw [extend_of_active hactive] at h
    refine drain_settled ?_ h
    exact hactive
  | false =>
    rw [extend_of_inactive hactive] at h
    obtain ⟨rfl, -⟩ := Prod.mk.inj (Except.ok.inj h)
    exact hself

theorem collect_settled {p : Packet} (hself : self.Settled)
    (h : self.collect p.bytes (p.byte 1) p.afc = .ok (st, out)) : st.Settled := by
  cases hpayload : p.payload with
  | nil =>
    rw [collect_of_idle hpayload] at h
    obtain ⟨rfl, -⟩ := Prod.mk.inj (Except.ok.inj h)
    exact hself
  | cons pointer body =>
    cases hpusi : p.pusi with
    | false =>
      rw [collect_of_continuation hpusi (by simp [hpayload])] at h
      exact extend_settled hself h
    | true =>
      -- the buffer is given up for the section that starts here
      rw [collect_of_start hpusi hpayload] at h
      obtain ⟨⟨st₁, finished⟩, hfinished⟩ := neverRaises_extend self (body.take pointer.toNat)
      obtain ⟨⟨st₂, more⟩, hmore⟩ :=
        neverRaises_drain { st₁ with buf := body.drop pointer.toNat, active := true }
      rw [hfinished] at h
      simp only [bind, Except.bind, hmore] at h
      obtain ⟨rfl, -⟩ := Prod.mk.inj (Except.ok.inj h)
      exact drain_settled rfl hmore

theorem resync_settled (hself : self.Settled) (cc : ℕ) : (self.resync cc).Settled := by
  rw [resync]
  split
  · exact ⟨hself.idle, hself.unfinished⟩
  · split
    · exact ⟨fun _ ↦ rfl, fun _ ↦ .inl rfl⟩
    · exact ⟨hself.idle, hself.unfinished⟩

theorem pushed_settled (hself : self.Settled) (p : Packet) : (self.pushed p).1.Settled := by
  have hpush := push_eq_pushed self p
  cases htei : p.tei with
  | true =>
    rw [push_of_tei htei] at hpush
    rw [← Except.ok.inj hpush]
    exact hself
  | false =>
    rw [push_eq htei] at hpush
    split at hpush
    · rw [← Except.ok.inj hpush]
      exact hself
    · exact collect_settled (resync_settled hself p.cc) hpush

/-! ## No section is shorter than five bytes -/

theorem ValidSection.five_le {s : Bytes} (hs : ValidSection s) : 5 ≤ s.length := by
  by_contra hlt
  rcases Nat.lt_or_ge s.length 4 with hshort | hge
  · exact crc32Mpeg2_ne_zero_of_short hshort hs.crc
  · have hfour := (crc32Mpeg2_eq_zero_iff_of_four (by omega)).mp hs.crc
    exact hs.table_id (by rw [hfour]; rfl)

/-! ## Runs -/

theorem settled_fresh : ({} : SectionAssembler).Settled := ⟨fun _ ↦ rfl, fun _ ↦ .inl rfl⟩

theorem feedAll_push_settled (hself : self.Settled) (ps : List Packet) : ∃ final out,
    feedAll push self (ps.map Packet.bytes) = .ok (final, out) ∧ final.Settled
    ∧ ∀ s ∈ out, ValidSection s := by
  induction ps generalizing self with
  | nil => exact ⟨self, [], rfl, hself, List.forall_mem_nil _⟩
  | cons p ps ih =>
    obtain ⟨final, out, hrun, hfinal, hout⟩ := ih (pushed_settled hself p)
    refine ⟨final, _, feedAll_cons_ok (push_eq_pushed self p) hrun, hfinal, ?_⟩
    rintro s hs
    rcases List.mem_append.mp hs with hs | hs
    · exact pushed_valid self p s hs
    · exact hout s hs

/-- **After any packets**, an idle assembler holds nothing and an active one the beginning of a
section, of at most 4097 bytes; and whatever came out is a section that checks, of at least five
bytes. -/
theorem feedAll_push_bounded (ps : List Packet) : ∃ final out,
    feedAll push {} (ps.map Packet.bytes) = .ok (final, out)
    ∧ (final.active = false → final.buf = [])
    ∧ (final.active = true → final.buf = []
      ∨ final.buf[0]? ≠ some 0xFF
        ∧ (final.buf.length < 3 ∨ final.buf.length < sectionSize final.buf))
    ∧ final.buf.length ≤ 4097
    ∧ ∀ s ∈ out, s.length = sectionSize s ∧ s[0]? ≠ some 0xFF ∧ crc32Mpeg2 s = 0
      ∧ 5 ≤ s.length := by
  obtain ⟨final, out, hrun, hfinal, hout⟩ := feedAll_push_settled settled_fresh ps
  refine ⟨final, out, hrun, hfinal.idle, hfinal.unfinished, hfinal.length_le, fun s hs ↦ ?_⟩
  have hvalid := hout s hs
  exact ⟨hvalid.size, hvalid.table_id, hvalid.crc, hvalid.five_le⟩

end SectionAssembler

end Recdyud
