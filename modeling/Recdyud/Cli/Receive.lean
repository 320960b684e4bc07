import Recdyud.Cli.DropNull
import Recdyud.Cli.Pipeline
import Recdyud.Ts.AlignerOutput
import Recdyud.Ts.Analyzer
import Recdyud.Ts.SiCollector

/-!
# The receive path

Chunks from the tuner run through the aligner and then, as whole packets, through the later stages:
the recorder counts them, drops null packets and writes; the monitor counts them and collects the
tables. Where the transport cut the stream is visible to every one of these calls, and must not
matter to what is written or shown.

Each path is a composition of incremental stages in the sense of `Stage.Incremental`: the aligner on
arbitrary bytes, the others on whole packets, which is all the aligner ever hands on
(`aligned_absorb`).
-/

namespace Recdyud

/-- The packets that the aligner finds in a stream. -/
def alignedPackets (stream : Bytes) : List Packet := packetsOf (PacketAligner.absorb {} stream).2

/-- The aligner goes on with the packets where a stream was cut. -/
theorem alignedPackets_append (a b : Bytes) :
    alignedPackets (a ++ b)
      = alignedPackets a ++ packetsOf ((PacketAligner.absorb {} a).1.absorb b).2 := by
  have houtput := PacketAligner.absorb_incremental.output {} a b trivial trivial
  rw [alignedPackets, houtput, packetsOf_append (PacketAligner.aligned_absorb {} a)]
  rfl

/-! ## Recording -/

variable {δ : Type} (E : Environment δ) (keepNull : Bool)

/-- What `stream` works with: aligner, analyzer, and the pipeline with its environment. -/
abbrev Recorder (δ : Type) := PacketAligner × TsAnalyzer × Pipeline × δ

/-- `handle`, with the bytes written to the output. -/
def handle (self : Recorder δ) (chunk : Bytes) : Except IndexError (Recorder δ × Bytes) := do
  let (aligner, analyzer, pipeline, d) := self
  let (aligner, packets) ← aligner.feed chunk
  if packets = [] then
    return ((aligner, analyzer, pipeline, d), [])
  else
    let (analyzer, _) ← analyzer.update packets
    let packets ← (if keepNull then pure packets else dropNullPackets packets : Except _ _)
    let ((pipeline, d), data) := pipeline.process E d packets
    return ((aligner, analyzer, pipeline, d), data)

/-- The packets that are written. -/
def written (packets : Bytes) : Bytes := if keepNull then packets else withoutNull packets

theorem written_append {a b : Bytes} (ha : Aligned a) :
    written keepNull (a ++ b) = written keepNull a ++ written keepNull b := by
  rw [written, written, written]
  split
  · rfl
  · exact withoutNull_append ha b

/-- Booking packets in the analyzer. -/
def bookPackets (analyzer : TsAnalyzer) (packets : Bytes) : TsAnalyzer :=
  (packetsOf packets).foldl TsAnalyzer.account analyzer

/-- The recording path as a composition of stages. -/
def recordStage : Stage (Recorder δ) UInt8 UInt8 :=
  Stage.comp PacketAligner.absorb
    (Stage.comp (Stage.observe bookPackets) (Stage.ofFun (written keepNull)))

theorem recordStage_incremental : (recordStage (δ := δ) keepNull).Incremental fun _ ↦ True := by
  have hbook : (Stage.observe bookPackets).Incremental Aligned :=
    .observe fun analyzer a b ha _ ↦ analyzer.foldl_account_append ha b
  have hwrite : (Stage.ofFun (written keepNull) : Stage (Pipeline × δ) _ _).Incremental Aligned :=
    .ofFun fun a b ha _ ↦ written_append keepNull ha
  exact PacketAligner.absorb_incremental.comp (hbook.comp hwrite fun _ _ h ↦ h)
    fun self chunk _ ↦ self.aligned_absorb chunk

theorem written_nil : written keepNull [] = [] := by
  rw [written, withoutNull, packetsOf_of_lt (by decide)]
  split <;> rfl

theorem bookPackets_nil (analyzer : TsAnalyzer) : bookPackets analyzer [] = analyzer := by
  rw [bookPackets, packetsOf_of_lt (by decide)]
  rfl

/-- Without a descrambler, `handle` is that composition. -/
theorem handle_eq {self : Recorder δ} (h : self.2.2.1.descrambler = false) (chunk : Bytes) :
    handle E keepNull self chunk = .ok (recordStage keepNull self chunk) := by
  obtain ⟨aligner, analyzer, pipeline, d⟩ := self
  have haligned := aligner.aligned_absorb chunk
  have hdrop : (if keepNull then pure (aligner.absorb chunk).2
      else dropNullPackets (aligner.absorb chunk).2)
        = (.ok (written keepNull (aligner.absorb chunk).2) : Except IndexError Bytes) := by
    rw [written]
    split
    · rfl
    · exact dropNullPackets_eq haligned
  rw [handle, aligner.feed_eq]
  simp only [bind, Except.bind]
  rw [recordStage, Stage.comp, Stage.comp, Stage.observe, Stage.ofFun]
  dsimp only
  split
  · -- the early return: the later stages do nothing on no packets
    rename_i hempty
    rw [hempty, bookPackets_nil, written_nil]
    rfl
  · rw [TsAnalyzer.update_eq]
    dsimp only
    rw [hdrop]
    dsimp only
    rw [Pipeline.process_of_no_descrambler h]
    rfl

theorem feedAll_handle {pipeline : Pipeline} (h : pipeline.descrambler = false) (d : δ)
    (chunks : List Bytes) :
    feedAll (handle E keepNull) ({}, {}, pipeline, d) chunks
      = .ok (recordStage keepNull ({}, {}, pipeline, d) chunks.flatten) := by
  have hfresh : recordStage keepNull (({}, {}, pipeline, d) : Recorder δ) []
      = (({}, {}, pipeline, d), []) := by
    rw [recordStage, Stage.comp, Stage.comp, Stage.observe, Stage.ofFun,
      PacketAligner.absorb_nil_fresh]
    dsimp only
    rw [bookPackets_nil, written_nil]
  rw [feedAll_eq_pure (g := recordStage keepNull) (I := fun s ↦ s.2.2.1.descrambler = false)
      (fun _ hs chunk ↦ handle_eq E keepNull hs chunk) (fun _ hs _ ↦ hs) h chunks,
    (recordStage_incremental keepNull).runs_eq trivial (fun _ _ _ _ ↦ trivial) hfresh chunks
      fun _ _ ↦ trivial]
  rfl

/-! ## Monitoring -/

/-- What the monitor works with. -/
abbrev Monitor := PacketAligner × TsAnalyzer × SiCollector

variable (eucJis2004 : Codec)

/-- A chunk in `cmd_monitor`. -/
def receive (self : Monitor) (chunk : Bytes) : Except IndexError Monitor := do
  if chunk = [] then
    return self
  else
    let (aligner, analyzer, si) := self
    let (aligner, packets) ← aligner.feed chunk
    let (analyzer, _) ← analyzer.update packets
    let si ← si.update eucJis2004 packets
    return (aligner, analyzer, si)

/-- Collecting tables from packets. -/
def collectPackets (si : SiCollector) (packets : Bytes) : SiCollector :=
  (packetsOf packets).foldl (SiCollector.collect eucJis2004) si

/-- The monitoring path as a composition of stages. -/
def monitorStage : Stage Monitor UInt8 UInt8 :=
  Stage.skipEmpty (Stage.comp PacketAligner.absorb
    (Stage.comp (Stage.observe bookPackets) (Stage.observe (collectPackets eucJis2004))))

theorem monitorStage_incremental : (monitorStage eucJis2004).Incremental fun _ ↦ True := by
  have hbook : (Stage.observe bookPackets).Incremental Aligned :=
    .observe fun analyzer a b ha _ ↦ analyzer.foldl_account_append ha b
  have hcollect : (Stage.observe (collectPackets eucJis2004)).Incremental Aligned :=
    .observe fun si a b ha _ ↦ si.foldl_collect_append eucJis2004 ha b
  exact (PacketAligner.absorb_incremental.comp (hbook.comp hcollect fun _ _ h ↦ h)
    fun self chunk _ ↦ self.aligned_absorb chunk).skipEmpty

theorem receive_eq (self : Monitor) (chunk : Bytes) :
    receive eucJis2004 self chunk = .ok (monitorStage eucJis2004 self chunk).1 := by
  obtain ⟨aligner, analyzer, si⟩ := self
  cases chunk with
  | nil => rfl
  | cons b chunk =>
    rw [receive, if_neg (List.cons_ne_nil _ _), aligner.feed_eq]
    simp only [bind, Except.bind]
    rw [TsAnalyzer.update_eq]
    dsimp only
    rw [SiCollector.update_eq]
    rfl

theorem foldlM_receive (self : Monitor) (chunks : List Bytes) :
    chunks.foldlM (receive eucJis2004) self
      = .ok (monitorStage eucJis2004 self chunks.flatten).1 := by
  have hpure : chunks.foldlM (receive eucJis2004) self
      = .ok (chunks.foldl (fun s c ↦ (monitorStage eucJis2004 s c).1) self) := by
    rw [funext₂ (receive_eq eucJis2004)]
    exact List.foldlM_pure
  rw [hpure, ← Stage.runs_fst, (monitorStage_incremental eucJis2004).runs_eq trivial
    (fun _ _ _ _ ↦ trivial) rfl chunks fun _ _ ↦ trivial]

/-! ## Independence of the cut -/

/-- **The receive path does not depend on the chunks.** However a stream is cut, the recorder
without a descrambler writes the same bytes, and the monitor ends in the same state: counters,
tables and assemblers. No call raises. -/
theorem receive_chunk_independent (d : δ) (startTimeout : ℚ) {chunks₁ chunks₂ : List Bytes}
    (h : chunks₁.flatten = chunks₂.flatten) :
    (∃ final out,
      feedAll (handle E keepNull) ({}, {}, { descrambler := false, startTimeout }, d) chunks₁
        = .ok (final, out) ∧
      feedAll (handle E keepNull) ({}, {}, { descrambler := false, startTimeout }, d) chunks₂
        = .ok (final, out)) ∧
    ∃ final, chunks₁.foldlM (receive eucJis2004) ({}, {}, {}) = .ok final ∧
      chunks₂.foldlM (receive eucJis2004) ({}, {}, {}) = .ok final := by
  have hpipeline : ({ descrambler := false, startTimeout } : Pipeline).descrambler = false := rfl
  have hrecord := feedAll_handle E keepNull hpipeline d chunks₁
  have hmonitor := foldlM_receive eucJis2004 ({}, {}, {}) chunks₁
  rw [h] at hrecord hmonitor
  exact ⟨⟨_, _, hrecord, feedAll_handle E keepNull rfl d chunks₂⟩,
    ⟨_, hmonitor, foldlM_receive eucJis2004 ({}, {}, {}) chunks₂⟩⟩

/-- A packet of PID `0x100` without tables. -/
def plainPacket : Bytes := [0x47, 0x01, 0x00, 0x10] ++ List.replicate 184 0x00

/-- It stands between null packets. -/
def mixedPackets : Bytes :=
  Pipeline.nullPacket ++ plainPacket ++ Pipeline.nullPacket ++ Pipeline.nullPacket

/-- Four packets, cut within the second or not; no codec is asked. Without the null packets, one is
written. -/
theorem receive_mixedPackets :
    (∃ final, feedAll (handle Pipeline.rollback false)
          ({}, {}, { descrambler := false, startTimeout := 0 }, [])
          [mixedPackets.take 300, mixedPackets.drop 300] = .ok (final, plainPacket) ∧
        feedAll (handle Pipeline.rollback false)
          ({}, {}, { descrambler := false, startTimeout := 0 }, []) [mixedPackets]
          = .ok (final, plainPacket)) ∧
      ∃ final, [mixedPackets.take 300, mixedPackets.drop 300].foldlM (receive fun _ ↦ none)
          ({}, {}, {}) = .ok final ∧
        [mixedPackets].foldlM (receive fun _ ↦ none) ({}, {}, {}) = .ok final := by
  have hflatten : [mixedPackets.take 300, mixedPackets.drop 300].flatten
      = [mixedPackets].flatten := by
    decide +kernel
  obtain ⟨⟨final, out, hcut, hwhole⟩, hmonitor⟩ :=
    receive_chunk_independent Pipeline.rollback false (fun _ ↦ none) [] 0 hflatten
  have hout : (feedAll (handle Pipeline.rollback false)
      ({}, {}, { descrambler := false, startTimeout := 0 }, []) [mixedPackets]).map Prod.snd
        = .ok plainPacket := by
    decide +kernel
  rw [hwhole] at hout
  obtain rfl : out = plainPacket := Except.ok.inj hout
  exact ⟨⟨final, hcut, hwhole⟩, hmonitor⟩

end Recdyud
