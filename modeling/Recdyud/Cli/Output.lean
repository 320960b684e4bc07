import Recdyud.Cli.Receive
import Recdyud.Cli.Stream
import Recdyud.Ts.Continuity

/-!
# What is written

`os.write` may take less than it is given, so `Output.write` goes on with the rest until nothing is
left or a call fails. The outcomes of the calls come from outside: `Fd` holds them, and what has
arrived.

`Recording` puts the stages together: chunks from the queue through the recorder to the output. A
recording has written an initial part of what its recorder hands out, all of it unless a call failed
(`handleAll_cases`); with what the two threads and the stages keep, the file holds the packets of
the stream that the tuner delivered, for every interleaving and however reads and writes are cut
(`record_writes`).
-/

namespace Recdyud

/-! ## The output -/

/-- An exception out of `os.write`. -/
inductive WriteError where
  | brokenPipe
  | osError (message : String)
  deriving DecidableEq, Repr

/-- A descriptor: what has arrived, and how the calls to come end. A call that succeeds takes
something, and no more than it is given. -/
structure Fd where
  content : Bytes := []
  calls : ℕ → Except WriteError ℕ+

/-- The descriptor behind a call that took some bytes. -/
def Fd.after (self : Fd) (taken : Bytes) : Fd where
  content := self.content ++ taken
  calls k := self.calls (k + 1)

/-- `os.write(fd, view)` -/
def Fd.write (self : Fd) (view : Bytes) : Except WriteError ℕ × Fd :=
  match self.calls 0 with
  | .error e => (.error e, self.after [])
  | .ok n => (.ok (min n view.length), self.after (view.take n))

/-- A call on something leaves less. -/
theorem Fd.length_drop_lt {self fd : Fd} {view : Bytes} {n : ℕ} (hview : ¬view = [])
    (h : self.write view = (.ok n, fd)) : (view.drop n).length < view.length := by
  have hlength := List.length_pos_of_ne_nil hview
  rw [Fd.write] at h
  rcases hcall : self.calls 0 with e | m
  · rw [hcall] at h
    cases h
  · rw [hcall] at h
    cases h
    have hpos := m.pos
    rw [List.length_drop]
    omega

theorem Fd.content_of_ok {self fd : Fd} {view : Bytes} {n : ℕ}
    (h : self.write view = (.ok n, fd)) : fd.content = self.content ++ view.take n := by
  rw [Fd.write] at h
  rcases hcall : self.calls 0 with e | m
  · rw [hcall] at h
    cases h
  · rw [hcall] at h
    cases h
    rw [Fd.after, ← List.take_take, List.take_length]

theorem Fd.content_of_error {self fd : Fd} {view : Bytes} {e : WriteError}
    (h : self.write view = (.error e, fd)) : fd.content = self.content ++ [] := by
  rw [Fd.write] at h
  rcases hcall : self.calls 0 with e' | m
  · rw [hcall] at h
    cases h
    rfl
  · rw [hcall] at h
    cases h

structure Output where
  fd : Fd
  bytes : ℕ := 0

namespace Output

/-- The loop of `write`. -/
def writeLoop (view : Bytes) (fd : Fd) : Except WriteError Unit × Fd :=
  if _ : view = [] then (.ok (), fd)
  else
    match _ : fd.write view with
    | (.error e, fd) => (.error e, fd)
    | (.ok n, fd) => writeLoop (view.drop n) fd
termination_by view.length
decreasing_by exact Fd.length_drop_lt ‹_› ‹_›

/-- `Output.write` -/
def write (self : Output) (data : Bytes) : Except WriteError Unit × Output :=
  match writeLoop data self.fd with
  | (.error e, fd) => (.error e, { self with fd })
  | (.ok (), fd) => (.ok (), { fd, bytes := self.bytes + data.length })

theorem writeLoop_nil (fd : Fd) : writeLoop [] fd = (.ok (), fd) := by
  rw [writeLoop, dif_pos rfl]

theorem writeLoop_of_error {view : Bytes} {fd fd' : Fd} {e : WriteError} (hview : view ≠ [])
    (h : fd.write view = (.error e, fd')) : writeLoop view fd = (.error e, fd') := by
  rw [writeLoop, dif_neg hview]
  split <;> rename_i hwrite <;> rw [h] at hwrite <;> cases hwrite
  rfl

theorem writeLoop_of_ok {view : Bytes} {fd fd' : Fd} {n : ℕ} (hview : view ≠ [])
    (h : fd.write view = (.ok n, fd')) : writeLoop view fd = writeLoop (view.drop n) fd' := by
  rw [writeLoop, dif_neg hview]
  split <;> rename_i hwrite <;> rw [h] at hwrite <;> cases hwrite
  rfl

/-- The loop writes everything, or a call fails with something left. -/
theorem writeLoop_cases (view : Bytes) (fd : Fd) :
    (∃ fd', writeLoop view fd = (.ok (), fd') ∧ fd'.content = fd.content ++ view) ∨
      ∃ e fd' done rest, writeLoop view fd = (.error e, fd') ∧ view = done ++ rest ∧ rest ≠ [] ∧
        fd'.content = fd.content ++ done := by
  induction h : view.length using Nat.strong_induction_on generalizing view fd with
  | _ length ih =>
    by_cases hview : view = []
    · subst hview
      exact .inl ⟨fd, writeLoop_nil fd, (List.append_nil _).symm⟩
    rcases hwrite : fd.write view with ⟨e | n, fd'⟩
    · refine .inr ⟨e, fd', [], view, writeLoop_of_error hview hwrite, rfl, hview, ?_⟩
      exact Fd.content_of_error hwrite
    · have hless := Fd.length_drop_lt hview hwrite
      have hcontent := Fd.content_of_ok hwrite
      rw [writeLoop_of_ok hview hwrite]
      rcases ih _ (h ▸ hless) (view.drop n) fd' rfl with
        ⟨final, hloop, hfinal⟩ | ⟨e, final, done, rest, hloop, hrest, hne, hfinal⟩
      · refine .inl ⟨final, hloop, ?_⟩
        rw [hfinal, hcontent, List.append_assoc, List.take_append_drop]
      · refine .inr ⟨e, final, view.take n ++ done, rest, hloop, ?_, hne, ?_⟩
        · rw [List.append_assoc, ← hrest, List.take_append_drop]
        · rw [hfinal, hcontent, List.append_assoc]

/-- **A write** puts everything on the descriptor and counts it, or fails with something left. -/
theorem write_cases (self : Output) (data : Bytes) :
    (∃ output, self.write data = (.ok (), output) ∧
      output.fd.content = self.fd.content ++ data ∧ output.bytes = self.bytes + data.length) ∨
    ∃ e output done rest, self.write data = (.error e, output) ∧ data = done ++ rest ∧
      rest ≠ [] ∧ output.fd.content = self.fd.content ++ done := by
  rw [write]
  rcases writeLoop_cases data self.fd with
    ⟨fd, hloop, hcontent⟩ | ⟨e, fd, done, rest, hloop, hrest, hne, hcontent⟩
  · rw [hloop]
    exact .inl ⟨_, rfl, hcontent, rfl⟩
  · rw [hloop]
    exact .inr ⟨e, _, done, rest, rfl, hrest, hne, hcontent⟩

end Output

/-! ## Recording -/

section Recording

variable {δ : Type} (E : Environment δ) (keepNull : Bool)

/-- An exception out of `handle`. -/
inductive HandleRaised where
  | indexError
  | write (e : WriteError)
  deriving DecidableEq, Repr

/-- The recorder and its output. -/
structure Recording (δ : Type) where
  recorder : Recorder δ
  output : Output

namespace Recording

/-- `if data: output.write(data)` -/
def put (self : Recording δ) (data : Bytes) : Except HandleRaised Unit × Recording δ :=
  if data = [] then (.ok (), self)
  else
    match self.output.write data with
    | (.error e, output) => (.error (.write e), { self with output })
    | (.ok (), output) => (.ok (), { self with output })

/-- `handle` -/
def handle (self : Recording δ) (chunk : Bytes) : Except HandleRaised Unit × Recording δ :=
  match Recdyud.handle E keepNull self.recorder chunk with
  | .error _ => (.error .indexError, self)
  | .ok (recorder, data) => { self with recorder }.put data

/-- The calls of `handle` in `stream`, up to the first that raises. -/
def handleAll (self : Recording δ) : List Bytes → Except HandleRaised Unit × Recording δ
  | [] => (.ok (), self)
  | chunk :: chunks =>
    match self.handle E keepNull chunk with
    | (.error e, self) => (.error e, self)
    | (.ok (), self) => handleAll self chunks

/-- `tail = pipeline.finish()`, and its output. -/
def finish (self : Recording δ) : Except HandleRaised Unit × Recording δ :=
  let (aligner, analyzer, pipeline, d) := self.recorder
  let (tail, d) := pipeline.finish E d
  { self with recorder := (aligner, analyzer, pipeline, d) }.put tail

/-- The calls of `handle`, and `finish` behind them. -/
def recordAll (self : Recording δ) (chunks : List Bytes) :
    Except HandleRaised Unit × Recording δ :=
  match self.handleAll E keepNull chunks with
  | (.error e, self) => (.error e, self)
  | (.ok (), self) => self.finish E

variable {E keepNull}

theorem put_cases (self : Recording δ) (data : Bytes) :
    (∃ output, self.put data = (.ok (), { self with output }) ∧
      output.fd.content = self.output.fd.content ++ data ∧
      output.bytes = self.output.bytes + data.length) ∨
    ∃ e self' done rest, self.put data = (.error (.write e), self') ∧ data = done ++ rest ∧
      rest ≠ [] ∧ self'.output.fd.content = self.output.fd.content ++ done := by
  rw [put]
  by_cases hdata : data = []
  · subst hdata
    exact .inl ⟨self.output, if_pos rfl, (List.append_nil _).symm, rfl⟩
  · rw [if_neg hdata]
    rcases self.output.write_cases data with
      ⟨output, hwrite, hcontent, hbytes⟩ | ⟨e, output, done, rest, hwrite, hrest, hne, hcontent⟩
    · rw [hwrite]
      exact .inl ⟨output, rfl, hcontent, hbytes⟩
    · rw [hwrite]
      exact .inr ⟨e, _, done, rest, rfl, hrest, hne, hcontent⟩

/-- A recording writes what its recorder hands out, or a call fails with some of it left. -/
theorem handleAll_cases (self : Recording δ) {chunks : List Bytes} {final : Recorder δ}
    {out : Bytes} (h : feedAll (Recdyud.handle E keepNull) self.recorder chunks
      = .ok (final, out)) :
    (∃ output, self.handleAll E keepNull chunks = (.ok (), ⟨final, output⟩) ∧
      output.fd.content = self.output.fd.content ++ out ∧
      output.bytes = self.output.bytes + out.length) ∨
    ∃ e self' done rest, self.handleAll E keepNull chunks = (.error (.write e), self') ∧
      out = done ++ rest ∧ rest ≠ [] ∧
      self'.output.fd.content = self.output.fd.content ++ done := by
  induction chunks generalizing self out with
  | nil =>
    cases h
    exact .inl ⟨self.output, rfl, (List.append_nil _).symm, rfl⟩
  | cons chunk chunks ih =>
    obtain ⟨recorder, data, outs, hchunk, hrest, rfl⟩ := feedAll_cons_inv h
    rw [handleAll, handle, hchunk]
    dsimp only
    rcases put_cases { self with recorder } data with
      ⟨output, hput, hcontent, hbytes⟩ | ⟨e, self', done, rest, hput, hdata, hne, hcontent⟩
    · rw [hput]
      dsimp only
      rcases ih ⟨recorder, output⟩ hrest with ⟨final', hall, hcontent', hbytes'⟩ |
        ⟨e, self', done, rest, hall, hout, hne, hcontent'⟩
      · refine .inl ⟨final', hall, ?_, ?_⟩
        · rw [hcontent', hcontent, List.append_assoc]
        · rw [hbytes', hbytes, List.length_append, Nat.add_assoc]
      · refine .inr ⟨e, self', data ++ done, rest, hall, ?_, hne, ?_⟩
        · rw [hout, List.append_assoc]
        · rw [hcontent', hcontent, List.append_assoc]
    · rw [hput]
      refine .inr ⟨e, self', done, rest ++ outs, rfl, ?_, by simp [hne], hcontent⟩
      rw [hdata, List.append_assoc]

/-- In front of the first chunk of a recording without descrambler. -/
def start (startTimeout : ℚ) (d : δ) (calls : ℕ → Except WriteError ℕ+) : Recording δ where
  recorder := ({}, {}, { descrambler := false, startTimeout }, d)
  output := { fd := { calls } }

end Recording

/-- What is to be written of a stream: its packets, without the null packets unless these are
kept. -/
def recordedBytes (keepNull : Bool) (stream : Bytes) : Bytes :=
  ((alignedPackets stream).filter fun p ↦ keepNull || p.kept).flatMap Packet.bytes

theorem written_absorb (stream : Bytes) :
    written keepNull (PacketAligner.absorb {} stream).2 = recordedBytes keepNull stream := by
  have haligned := PacketAligner.aligned_absorb {} stream
  rw [written, recordedBytes]
  cases keepNull with
  | true =>
    rw [if_pos rfl, alignedPackets]
    simp only [Bool.true_or, List.filter_true]
    exact (flatMap_bytes_packetsOf haligned).symm
  | false =>
    simp only [Bool.false_or]
    rfl

theorem recordedBytes_prefix (keepNull : Bool) (a b : Bytes) :
    recordedBytes keepNull a <+: recordedBytes keepNull (a ++ b) := by
  rw [recordedBytes, recordedBytes, alignedPackets_append, List.filter_append,
    List.flatMap_append]
  exact List.prefix_append _ _

/-- The recorder without descrambler, after some chunks. -/
theorem feedAll_start (startTimeout : ℚ) (d : δ) (calls : ℕ → Except WriteError ℕ+)
    (chunks : List Bytes) :
    feedAll (handle E keepNull) (Recording.start startTimeout d calls).recorder chunks
      = .ok (((PacketAligner.absorb {} chunks.flatten).1,
          TsAnalyzer.booked (alignedPackets chunks.flatten),
          { descrambler := false, startTimeout }, d), recordedBytes keepNull chunks.flatten) := by
  have hpipeline : ({ descrambler := false, startTimeout } : Pipeline).descrambler = false := rfl
  rw [← written_absorb, ← TsAnalyzer.foldl_account_eq]
  exact feedAll_handle E keepNull hpipeline d chunks

/-- Without a descrambler nothing is left to flush. -/
theorem finish_of_no_descrambler {aligner : PacketAligner} {analyzer : TsAnalyzer}
    {startTimeout : ℚ} {d : δ} {output : Output} :
    Recording.finish E ⟨(aligner, analyzer, { descrambler := false, startTimeout }, d), output⟩
      = (.ok (), ⟨(aligner, analyzer, { descrambler := false, startTimeout }, d), output⟩) := rfl

/-- The chunks that were accepted, one behind the other. -/
theorem accepted_eq {hasDeadline : Bool} {actions : List StreamAction} {s : StreamState}
    (hrun : (streamMachine hasDeadline).Run actions s) :
    ((s.log.filter Accepted).map Prod.fst).flatten
      = s.handled.flatten ++ (s.inHand ++ s.queue.items).flatten := by
  rw [← List.flatten_append, (flow_run hrun).accepted]

/-- What a recording that was not stopped has written. -/
theorem content_of_recordAll {hasDeadline : Bool} {actions : List StreamAction} {s : StreamState}
    (hrun : (streamMachine hasDeadline).Run actions s) (hdone : s.consumer = .done)
    (startTimeout : ℚ) (d : δ) (calls : ℕ → Except WriteError ℕ+) {final : Recording δ}
    (hfinal : (Recording.start startTimeout d calls).recordAll E keepNull s.handled
      = (.ok (), final)) :
    let accepted := ((s.log.filter Accepted).map Prod.fst).flatten
    final.output.fd.content = recordedBytes keepNull accepted ∧
      final.output.bytes = (recordedBytes keepNull accepted).length ∧
      final.recorder.2.1 = TsAnalyzer.booked (alignedPackets accepted) := by
  intro accepted
  have haccepted : accepted = s.handled.flatten := by
    have hinHand : s.inHand = [] := if_neg (by simp [hdone])
    have hempty : s.queue.items = [] :=
      (flow_run hrun).drained (by simp [ConsumerPc.Drained, hdone])
    have hall := accepted_eq hrun
    rwa [hinHand, hempty, List.append_nil, List.flatten_nil, List.append_nil] at hall
  rw [Recording.recordAll] at hfinal
  rcases Recording.handleAll_cases (Recording.start startTimeout d calls)
    (feedAll_start E keepNull startTimeout d calls s.handled) with
    ⟨output, hall, hcontent, hbytes⟩ | ⟨e, self, done, rest, hall, -⟩
  · rw [hall] at hfinal
    dsimp only at hfinal
    rw [finish_of_no_descrambler] at hfinal
    cases hfinal
    rw [haccepted]
    exact ⟨hcontent, hbytes.trans (Nat.zero_add _), rfl⟩
  · rw [hall] at hfinal
    cases hfinal

/-- **What is recorded.** For every interleaving of the reader and the recorder, every cut of the
reads and every outcome of the calls of `os.write`, without descrambler: at any moment the output
holds an initial part of the packets of the stream of accepted chunks, without the null packets
unless these are kept, and nothing but a failing `os.write` stops the recorder. When it is done and
none has failed, the output holds all of them, their size is what `output.bytes` counted, and the
counters are those of the stream. -/
theorem record_writes {hasDeadline : Bool} {actions : List StreamAction} {s : StreamState}
    (hrun : (streamMachine hasDeadline).Run actions s) (startTimeout : ℚ) (d : δ)
    (calls : ℕ → Except WriteError ℕ+) :
    let accepted := ((s.log.filter Accepted).map Prod.fst).flatten
    let begun := Recording.start startTimeout d calls
    (begun.handleAll E keepNull s.handled).2.output.fd.content
        <+: recordedBytes keepNull accepted ∧
      (∀ e, (begun.handleAll E keepNull s.handled).1 = .error e → ∃ w, e = .write w) ∧
      (s.consumer = .done → ∀ final, begun.recordAll E keepNull s.handled = (.ok (), final) →
        final.output.fd.content = recordedBytes keepNull accepted ∧
        final.output.bytes = (recordedBytes keepNull accepted).length ∧
        final.recorder.2.1 = TsAnalyzer.booked (alignedPackets accepted)) := by
  intro accepted begun
  have haccepted : accepted = s.handled.flatten ++ (s.inHand ++ s.queue.items).flatten :=
    accepted_eq hrun
  have hprefix := recordedBytes_prefix keepNull s.handled.flatten
    (s.inHand ++ s.queue.items).flatten
  rw [← haccepted] at hprefix
  rcases Recording.handleAll_cases begun
    (feedAll_start E keepNull startTimeout d calls s.handled) with
    ⟨output, hall, hcontent, -⟩ | ⟨e, self, done, rest, hall, hout, -, hcontent⟩
  · refine ⟨?_, ?_, fun hdone _ ↦ content_of_recordAll E keepNull hrun hdone startTimeout d calls⟩
    · rw [hall, hcontent]
      exact hprefix
    · rw [hall]
      exact fun e he ↦ absurd he nofun
  · refine ⟨?_, ?_, fun hdone _ ↦ content_of_recordAll E keepNull hrun hdone startTimeout d calls⟩
    · rw [hall, hcontent]
      rw [hout] at hprefix
      exact (List.prefix_append done rest).trans hprefix
    · rw [hall]
      exact fun e' he ↦ ⟨e, (Except.error.inj he).symm⟩

/-- One chunk is read and handled, then the deadline passes. -/
def oneChunk (data : Bytes) : List StreamAction :=
  [.reader .checkHalt, .reader (.read data), .reader .account, .reader .put,
    .consumer .checkStop, .consumer (.checkDeadline false), .consumer .get, .consumer .handle,
    .consumer .checkStop, .consumer (.checkDeadline true), .consumer .setHalt, .reader .checkHalt,
    .consumer .join, .consumer .drain, .consumer .finalHalt, .consumer .finalJoin]

/-- The state that the run with four packets ends in. -/
def mixedPacketsEnd : StreamState :=
  ((streamMachine true).exec {} (oneChunk mixedPackets)).get (by decide +kernel)

/-- Of the four packets one is written, a hundred bytes at a time. -/
theorem record_writes_mixedPackets : ∃ final : Recording Bytes,
    (Recording.start 0 [] fun _ ↦ .ok 100).recordAll Pipeline.rollback false
        mixedPacketsEnd.handled = (.ok (), final) ∧
      final.output.fd.content = plainPacket ∧ final.output.bytes = 188 ∧
      final.recorder.2.1.total.packets = 4 := by
  have hrun : (streamMachine true).Run (oneChunk mixedPackets) mixedPacketsEnd :=
    (Option.some_get _).symm
  obtain ⟨-, -, hdone⟩ := record_writes Pipeline.rollback false hrun 0 [] fun _ ↦ .ok 100
  have hok : ((Recording.start 0 ([] : Bytes) fun _ ↦ .ok 100).recordAll Pipeline.rollback false
      mixedPacketsEnd.handled).1 = .ok () := by
    decide +kernel
  obtain ⟨hcontent, hbytes, hcounters⟩ := hdone (by decide +kernel) _ (Prod.ext hok rfl)
  have hrecorded : recordedBytes false
      ((mixedPacketsEnd.log.filter Accepted).map Prod.fst).flatten = plainPacket := by
    decide +kernel
  have hpackets : (TsAnalyzer.booked (alignedPackets
      ((mixedPacketsEnd.log.filter Accepted).map Prod.fst).flatten)).total.packets = 4 := by
    decide +kernel
  rw [hrecorded] at hcontent hbytes
  exact ⟨_, Prod.ext hok rfl, hcontent, hbytes,
    (congrArg (·.total.packets) hcounters).trans hpackets⟩

end Recording

end Recdyud
