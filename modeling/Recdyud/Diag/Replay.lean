import Recdyud.Cli.Output
import Recdyud.Diag.Scan
import Recdyud.Ts.Resync
import Recdyud.Ts.TableRoundTrip

/-!
# A recording is as good as the stream

What the recorder writes is read again with the same stages: aligner, analyzer and collector. A file
of whole packets that begin with sync bytes is aligned from its first byte, so a fresh aligner
returns all of it, provided it holds the four packets it needs to lock on
(`alignedPackets_flatMap_bytes`). And what the recorder leaves out, the null packets, no table is
built from and no continuity is counted in. So the file tells the same as the stream it was cut from
(`recording_replays`), and recording it again changes nothing.
-/

namespace Recdyud

/-! ## Aligning packets again -/

/-- No packet is in no bytes. -/
theorem packetsOf_nil : packetsOf [] = [] := packetsOf_of_lt (by decide)

/-- What a scan returns are packets with sync bytes. -/
theorem synced_scan (locked : Bool) (data : Bytes) :
    ∀ p ∈ packetsOf (scan locked data).out, p.Synced := by
  induction locked, data using scan.induct with
  | case1 data h =>
    rw [scan_true_of_lt h]
    dsimp only
    rw [packetsOf_nil]
    exact fun _ hp ↦ absurd hp List.not_mem_nil
  | case2 data h hsync ih =>
    rw [not_lt] at h
    have hlen : (data.take packetSize).length = packetSize := by
      rw [List.length_take, Nat.min_eq_left h]
    have hhead : (data.take packetSize)[0]? = some syncByte := by
      rwa [List.getElem?_take_of_lt (by decide)]
    rw [scan_true_of_sync h hsync]
    change ∀ p ∈ packetsOf ((⟨data.take packetSize, hlen⟩ : Packet).bytes ++ _), p.Synced
    rw [packetsOf_append (Packet.aligned_bytes _), packetsOf_bytes]
    exact List.forall_mem_cons.mpr ⟨hhead, ih⟩
  | case3 data h hsync ih =>
    rw [scan_true_of_loss (not_lt.mp h) hsync]
    exact ih
  | case4 locked data h hnone =>
    rw [Bool.not_eq_true] at h
    rw [h, scan_false_of_none hnone]
    dsimp only
    rw [packetsOf_nil]
    exact fun _ hp ↦ absurd hp List.not_mem_nil
  | case5 locked data h j hsome ih =>
    rw [Bool.not_eq_true] at h
    rw [h, scan_false_of_some hsome]
    exact ih

theorem synced_alignedPackets (stream : Bytes) : ∀ p ∈ alignedPackets stream, p.Synced :=
  synced_scan _ _

/-- In too few bytes there is nothing to lock on. -/
theorem firstSync_of_le {data : Bytes} (h : data.length ≤ packetSize * (syncConfirm - 1)) :
    firstSync data = none := by
  rcases hsync : firstSync data with _ | j
  · rfl
  · have hlt := (firstSync_eq_some_iff.mp hsync).1.lt_length
    omega

/-- **Packets are aligned from the first byte**, if they are enough to lock on. -/
theorem alignedPackets_flatMap_bytes {ps : List Packet} (hs : ∀ p ∈ ps, p.Synced) :
    alignedPackets (ps.flatMap Packet.bytes) = if syncConfirm ≤ ps.length then ps else [] := by
  rw [alignedPackets, PacketAligner.absorb]
  dsimp only
  rw [List.nil_append]
  split
  · rename_i hlen
    have hsync := syncAt_flatMap_bytes hs hlen []
    have hpackets := scan_true_of_packets hs []
    have hscan := scan_false_of_garbage (g := [])
      (fun k hk ↦ absurd hk (Nat.not_lt_zero k)) hsync
    have hend : scan true [] = ⟨[], 0, 0, true, []⟩ := scan_true_of_lt (by decide)
    rw [hend] at hpackets
    rw [List.nil_append, hpackets] at hscan
    dsimp only at hscan
    rw [List.append_nil] at hscan
    rw [hscan]
    exact packetsOf_flatMap_bytes ps
  · rename_i hlen
    have hshort : (ps.flatMap Packet.bytes).length ≤ packetSize * (syncConfirm - 1) := by
      rw [length_flatMap_bytes]
      exact Nat.mul_le_mul_left _ (by simp only [syncConfirm] at hlen ⊢; omega)
    rw [scan_false_of_none (firstSync_of_le hshort)]
    exact packetsOf_nil

/-! ## What is left out -/

section Filter

variable {keep : Packet → Bool}

/-- The packets of a PID of which none is left out. -/
theorem projection_filter {pid : Fin 8192} (h : ∀ p : Packet, p.pid = pid → keep p = true)
    (ps : List Packet) :
    projection Packet.pid pid (ps.filter keep) = projection Packet.pid pid ps := by
  rw [projection, projection, List.filter_filter]
  refine List.filter_congr fun p _ ↦ ?_
  by_cases hpid : p.pid = pid
  · rw [h p hpid, Bool.and_true]
  · rw [decide_eq_false hpid, Bool.false_and]

theorem kept_of_pid {p : Packet} (h : (p.pid : ℕ) ≠ nullPid) : p.kept = true := decide_eq_true h

/-- Without null packets the counters break where they did. -/
theorem ccErrorsOf_filter (h : ∀ p : Packet, (p.pid : ℕ) ≠ nullPid → keep p = true)
    (ps : List Packet) : TsAnalyzer.ccErrorsOf (ps.filter keep) = TsAnalyzer.ccErrorsOf ps := by
  refine Finset.sum_congr rfl fun pid hpid ↦ congrArg _ ?_
  have hnull : (pid : ℕ) ≠ nullPid := TsAnalyzer.mem_countedPids.mp hpid
  rw [TsAnalyzer.ccsOf, TsAnalyzer.ccsOf, projection_filter fun p hp ↦ h p (hp ▸ hnull)]

/-- A count of packets that are never left out. -/
theorem countP_filter_of_imp {P : Packet → Bool} (h : ∀ p, P p = true → keep p = true)
    (ps : List Packet) : (ps.filter keep).countP P = ps.countP P := by
  rw [List.countP_filter]
  refine List.countP_congr fun p _ ↦ ?_
  rw [Bool.and_eq_true]
  exact ⟨And.left, fun hp ↦ ⟨hp, h p hp⟩⟩

/-- No table is built from a null packet. -/
theorem table_eq_none_of_null {p : Packet} (h : (p.pid : ℕ) = nullPid) : p.table = none := by
  rw [Packet.table, if_pos]
  rw [bne_iff_ne]
  intro hzero
  have hpid : (p.pid : ℕ) = ((p.byte 1 &&& 0x1F).toNat <<< 8) ||| (p.byte 2).toNat := rfl
  rw [hzero, h] at hpid
  have hlt : (p.byte 2).toNat < 256 := UInt8.toNat_lt _
  have hshift : (0 : UInt8).toNat <<< 8 ||| (p.byte 2).toNat = (p.byte 2).toNat := Nat.zero_or _
  rw [hshift, nullPid] at hpid
  omega

theorem foldl_collect_filter (eucJis2004 : Codec)
    (h : ∀ p : Packet, (p.pid : ℕ) ≠ nullPid → keep p = true) (si : SiCollector)
    (ps : List Packet) :
    (ps.filter keep).foldl (SiCollector.collect eucJis2004) si
      = ps.foldl (SiCollector.collect eucJis2004) si := by
  induction ps generalizing si with
  | nil => rfl
  | cons p ps ih =>
    by_cases hkeep : keep p = true
    · rw [List.filter_cons_of_pos hkeep, List.foldl_cons, List.foldl_cons, ih]
    · have hnull : (p.pid : ℕ) = nullPid := not_ne_iff.mp fun hne ↦ hkeep (h p hne)
      have hcollect : si.collect eucJis2004 p = si := by
        rw [SiCollector.collect, table_eq_none_of_null hnull]
      rw [List.filter_cons_of_neg hkeep, List.foldl_cons, hcollect, ih]

/-- The packets that are neither null nor errored, out of the counters. -/
theorem payloadPackets_booked (ps : List Packet) :
    (TsAnalyzer.booked ps).total.payloadPackets
      = ps.countP fun p ↦ p.tei = false ∧ (p.pid : ℕ) ≠ nullPid := by
  change (ps.length : ℤ) - ps.countP (fun p ↦ p.tei = false ∧ (p.pid : ℕ) = nullPid)
    - ps.countP (·.tei) = _
  induction ps with
  | nil => rfl
  | cons p ps ih =>
    have hone : (if p.tei = false ∧ (p.pid : ℕ) = nullPid then 1 else 0)
        + (if p.tei then 1 else 0)
        + (if p.tei = false ∧ (p.pid : ℕ) ≠ nullPid then 1 else 0) = 1 := by
      by_cases htei : p.tei = true <;> by_cases hnull : (p.pid : ℕ) = nullPid <;>
        simp [htei, hnull]
    rw [List.length_cons, List.countP_cons, List.countP_cons, List.countP_cons]
    simp only [decide_eq_true_eq]
    omega

end Filter

/-! ## The file -/

variable {δ : Type} (E : Environment δ) (keepNull : Bool)

/-- The packets that are to be written of a stream. -/
def recordedPackets (stream : Bytes) : List Packet :=
  (alignedPackets stream).filter fun p ↦ keepNull || p.kept

theorem tablesOf_eq (eucJis2004 : Codec) (stream : Bytes) :
    tablesOf eucJis2004 stream
      = ((alignedPackets stream).foldl (SiCollector.collect eucJis2004) {}).info := by
  cases stream with
  | nil =>
    have hnone : alignedPackets [] = [] := @alignedPackets_flatMap_bytes [] nofun
    rw [hnone]
    rfl
  | cons b stream => rfl

/-- A file that is long enough to lock on is aligned to the packets that were written. -/
theorem alignedPackets_recordedBytes {stream : Bytes}
    (h : packetSize * syncConfirm ≤ (recordedBytes keepNull stream).length) :
    alignedPackets (recordedBytes keepNull stream) = recordedPackets keepNull stream := by
  have hsynced : ∀ p ∈ recordedPackets keepNull stream, p.Synced := fun p hp ↦
    synced_alignedPackets stream p (List.mem_of_mem_filter hp)
  have hlen : syncConfirm ≤ (recordedPackets keepNull stream).length := by
    rw [recordedBytes, length_flatMap_bytes] at h
    exact Nat.le_of_mul_le_mul_left h (by decide)
  have halign := alignedPackets_flatMap_bytes hsynced
  rwa [if_pos hlen] at halign

/-- **A recording replays.** For every interleaving of the reader and the recorder and every cut of
the reads, a finished recording without descrambler of at least four packets is a stream of its own:
a fresh aligner returns exactly its packets, recording it again gives the same bytes, its tables are
those of the stream that was received, and so are its continuity errors, its scrambled packets and
the number of its packets that are neither null nor errored. -/
theorem recording_replays (eucJis2004 : Codec) {hasDeadline : Bool} {actions : List StreamAction}
    {s : StreamState} (hrun : (streamMachine hasDeadline).Run actions s)
    (hdone : s.consumer = .done) (startTimeout : ℚ) (d : δ)
    (calls : ℕ → Except WriteError ℕ+) {final : Recording δ}
    (hfinal : (Recording.start startTimeout d calls).recordAll E keepNull s.handled
      = (.ok (), final))
    (hlong : packetSize * syncConfirm ≤ final.output.fd.content.length) :
    let accepted := ((s.log.filter Accepted).map Prod.fst).flatten
    let file := final.output.fd.content
    alignedPackets file = recordedPackets keepNull accepted ∧
      recordedBytes keepNull file = file ∧
      tablesOf eucJis2004 file = tablesOf eucJis2004 accepted ∧
      (countersOf file).ccErrors = (countersOf accepted).ccErrors ∧
      (countersOf file).scrambled = (countersOf accepted).scrambled ∧
      (countersOf file).payloadPackets = (countersOf accepted).payloadPackets := by
  intro accepted file
  have hfile : file = recordedBytes keepNull accepted :=
    (content_of_recordAll E keepNull hrun hdone startTimeout d calls hfinal).1
  have hpackets : alignedPackets file = recordedPackets keepNull accepted := by
    rw [hfile]
    exact alignedPackets_recordedBytes keepNull (hfile ▸ hlong)
  have hkeep : ∀ p : Packet, (p.pid : ℕ) ≠ nullPid → (keepNull || p.kept) = true := fun p hp ↦ by
    rw [kept_of_pid hp, Bool.or_true]
  refine ⟨hpackets, ?_, ?_, ?_, ?_, ?_⟩
  · rw [recordedBytes, hpackets, hfile, recordedBytes, recordedPackets, List.filter_filter]
    simp only [Bool.and_self]
  · rw [tablesOf_eq, tablesOf_eq, hpackets, recordedPackets, foldl_collect_filter _ hkeep]
  · rw [countersOf, countersOf, hpackets]
    exact congrArg Nat.cast (ccErrorsOf_filter hkeep _)
  · rw [countersOf, countersOf, hpackets]
    refine congrArg Nat.cast (countP_filter_of_imp (fun p hp ↦ hkeep p ?_) _)
    exact (of_decide_eq_true hp).2.1
  · rw [countersOf, countersOf, payloadPackets_booked, payloadPackets_booked, hpackets]
    refine congrArg Nat.cast (countP_filter_of_imp (fun p hp ↦ hkeep p ?_) _)
    exact (of_decide_eq_true hp).2

/-- The tables of the tests, twice, with null packets in between. -/
def tablesTwice : Bytes :=
  (Broadcast.twoStreamNetwork.packets 0 0 0).flatMap Packet.bytes ++
    (Pipeline.nullPacket ++ Pipeline.nullPacket) ++
    (Broadcast.twoStreamNetwork.packets 1 1 1).flatMap Packet.bytes

/-- The state that the run ends in in which they are read at once. -/
def tablesTwiceEnd : StreamState :=
  ((streamMachine true).exec {} (oneChunk tablesTwice)).get (by decide +kernel)

/-- The null packets are dropped, and the rest replays. -/
theorem recording_replays_tablesTwice : ∃ final : Recording Bytes,
    (Recording.start 0 [] fun _ ↦ .ok 500).recordAll Pipeline.rollback false
        tablesTwiceEnd.handled = (.ok (), final) ∧
      final.output.fd.content.length + 2 * packetSize = tablesTwice.length ∧
      recordedBytes false final.output.fd.content = final.output.fd.content ∧
      tablesOf Broadcast.katakanaRow final.output.fd.content
        = tablesOf Broadcast.katakanaRow
          ((tablesTwiceEnd.log.filter Accepted).map Prod.fst).flatten := by
  have hrun : (streamMachine true).Run (oneChunk tablesTwice) tablesTwiceEnd :=
    (Option.some_get _).symm
  have hok : ((Recording.start 0 ([] : Bytes) fun _ ↦ .ok 500).recordAll Pipeline.rollback false
      tablesTwiceEnd.handled).1 = .ok () := by
    decide +kernel
  have hlength : ((Recording.start 0 ([] : Bytes) fun _ ↦ .ok 500).recordAll Pipeline.rollback
      false tablesTwiceEnd.handled).2.output.fd.content.length + 2 * packetSize
        = tablesTwice.length := by
    decide +kernel
  have hlong : packetSize * syncConfirm + 2 * packetSize ≤ tablesTwice.length := by
    decide +kernel
  obtain ⟨-, hagain, htables, -⟩ := recording_replays Pipeline.rollback false
    Broadcast.katakanaRow hrun (by decide +kernel) 0 [] _ (Prod.ext hok rfl)
    (Nat.le_of_add_le_add_right (hlong.trans_eq hlength.symm))
  exact ⟨_, Prod.ext hok rfl, hlength, hagain, htables⟩

end Recdyud
