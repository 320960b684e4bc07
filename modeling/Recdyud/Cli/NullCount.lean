import Recdyud.Cli.DropNull
import Recdyud.Ts.Analyzer

/-!
# What counts as a null packet

`drop_null_packets` goes by the PID alone. `TsAnalyzer.update` looks at the error flag first, since
the header of an errored packet cannot be relied on, and never counts such a packet as a null
packet. So the recorder drops what the analyzer counts, and also every errored packet whose PID
reads `0x1FFF`.
-/

namespace Recdyud

namespace NullCount

/-- A null packet for `TsAnalyzer.update`. -/
def Null (p : Packet) : Prop := p.tei = false ∧ (p.pid : ℕ) = nullPid

/-- An errored packet that reads like a null packet. -/
def ErroredNull (p : Packet) : Prop := p.tei = true ∧ (p.pid : ℕ) = nullPid

instance : DecidablePred Null := fun _ ↦ inferInstanceAs (Decidable (_ ∧ _))

instance : DecidablePred ErroredNull := fun _ ↦ inferInstanceAs (Decidable (_ ∧ _))

theorem null_foldl_account (self : TsAnalyzer) (ps : List Packet) :
    (ps.foldl TsAnalyzer.account self).total.null = self.total.null + ps.countP (Null ·) := by
  induction ps generalizing self with
  | nil => simp
  | cons p ps ih =>
    have hown : (self.account p).total.null = self.total.null + if Null p then 1 else 0 := rfl
    rw [List.foldl_cons, ih, hown, List.countP_cons]
    by_cases hp : Null p
    · simp [hp]
      ring
    · simp [hp]

theorem packets_foldl_account (self : TsAnalyzer) (ps : List Packet) :
    (ps.foldl TsAnalyzer.account self).total.packets = self.total.packets + ps.length := by
  induction ps generalizing self with
  | nil => simp
  | cons p ps ih =>
    have hown : (self.account p).total.packets = self.total.packets + 1 := rfl
    rw [List.foldl_cons, ih, hown, List.length_cons]
    push_cast
    ring

/-- What the filter takes out: the null packets, and the errored ones that read like them. -/
theorem length_filter_kept (ps : List Packet) :
    (ps.filter Packet.kept).length + ps.countP (Null ·) + ps.countP (ErroredNull ·)
      = ps.length := by
  induction ps with
  | nil => rfl
  | cons p ps ih =>
    rw [List.countP_cons, List.countP_cons, List.length_cons, ← ih]
    by_cases hpid : (p.pid : ℕ) = nullPid
    · rw [List.filter_cons_of_neg (by simpa [Packet.kept] using hpid)]
      cases htei : p.tei <;> simp [Null, ErroredNull, htei, hpid] <;> omega
    · rw [List.filter_cons_of_pos (by simpa [Packet.kept] using hpid), List.length_cons]
      simp [Null, ErroredNull, hpid]
      omega

end NullCount

/-- Recorder and analyzer agree on a buffer: as many packets are dropped as are counted as null
packets, and the others are what remains. -/
def NullsAgree (analyzer : TsAnalyzer) (packets : Bytes) : Prop :=
  ∃ analyzer' delta out, analyzer.update packets = .ok (analyzer', delta)
    ∧ dropNullPackets packets = .ok out
    ∧ ((packetsOf packets).length : ℤ) - (packetsOf out).length = delta.null
    ∧ (out.length : ℤ) = 188 * (delta.packets - delta.null)

theorem nullsAgree_iff_countP (analyzer : TsAnalyzer) {packets : Bytes} (h : Aligned packets) :
    NullsAgree analyzer packets ↔ (packetsOf packets).countP (NullCount.ErroredNull ·) = 0 := by
  set ps := packetsOf packets with hps
  set after := ps.foldl TsAnalyzer.account analyzer with hafter
  have hnull : (after.total - analyzer.total).null = ps.countP (NullCount.Null ·) := by
    change after.total.null - analyzer.total.null = _
    rw [hafter, NullCount.null_foldl_account, add_sub_cancel_left]
  have hpackets : (after.total - analyzer.total).packets = ps.length := by
    change after.total.packets - analyzer.total.packets = _
    rw [hafter, NullCount.packets_foldl_account, add_sub_cancel_left]
  have hout : ((withoutNull packets).length : ℤ) = 188 * (ps.filter Packet.kept).length := by
    rw [withoutNull, length_flatMap_bytes, ← hps]
    push_cast
    rfl
  have hcount := NullCount.length_filter_kept ps
  constructor
  · rintro ⟨analyzer', delta, out, hupdate, hdrop, hremoved, -⟩
    rw [TsAnalyzer.update_eq, ← hps] at hupdate
    rw [dropNullPackets_eq h] at hdrop
    cases hupdate
    cases hdrop
    rw [packetsOf_withoutNull, ← hps, ← hafter, hnull] at hremoved
    omega
  · intro hzero
    refine ⟨after, after.total - analyzer.total, withoutNull packets, ?_, dropNullPackets_eq h,
      ?_, ?_⟩
    · rw [TsAnalyzer.update_eq]
    · rw [packetsOf_withoutNull, ← hps, hnull]
      omega
    · rw [hout, hnull, hpackets]
      omega

/-- **Recorder and analyzer agree** on exactly the buffers without an errored packet that reads like
a null packet. -/
theorem nullsAgree_iff (analyzer : TsAnalyzer) {packets : Bytes} (h : Aligned packets) :
    NullsAgree analyzer packets ↔
      ∀ p ∈ packetsOf packets, p.tei = true → (p.pid : ℕ) ≠ 0x1FFF := by
  rw [nullsAgree_iff_countP analyzer h, List.countP_eq_zero]
  constructor
  · intro hnone p hp htei hpid
    exact hnone p hp (decide_eq_true ⟨htei, hpid⟩)
  · rintro hpid p hp herrored
    obtain ⟨htei, hnull⟩ := of_decide_eq_true herrored
    exact hpid p hp htei hnull

theorem nullsAgree_barePacket : NullsAgree {} (barePacket 0x1F 0xFF).bytes := by
  refine (nullsAgree_iff {} (barePacket 0x1F 0xFF).aligned_bytes).mpr ?_
  rw [packetsOf_bytes]
  intro p hp htei
  rw [List.mem_singleton.mp hp] at htei
  exact absurd htei (by decide)

/-- An errored packet whose PID reads `0x1FFF` is dropped, and not counted. -/
theorem not_nullsAgree_errored : ¬NullsAgree {} (barePacket 0x9F 0xFF).bytes := by
  rw [nullsAgree_iff_countP {} (barePacket 0x9F 0xFF).aligned_bytes, packetsOf_bytes,
    List.countP_singleton]
  have herrored : NullCount.ErroredNull (barePacket 0x9F 0xFF) := by decide
  simp [herrored]

end Recdyud
