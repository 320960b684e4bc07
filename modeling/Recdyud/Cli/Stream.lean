import Recdyud.Lib.Machine
import Recdyud.Py

/-!
# The reader thread and the recorder

`TsReader.run` reads the tuner and puts the chunks into a bounded queue; the loop of `stream` takes
them out and handles them until the stop event or the deadline, then halts the reader, waits for it
and drains the queue. The two threads are one machine here: an action is a step of one of them, or
a signal, so a run is an interleaving together with the results of the reads and the readings of
the clock.

The queue is an atomic bounded FIFO by construction, and `join` is possible only when the reader
has ended. `log` records every attempt to put a chunk, with the number of chunks that were queued
at that moment.

## Nothing is lost between the threads

`Flow` is the invariant: what was handled, what is in hand and what is queued are together, in
order, the chunks the queue accepted. Once the consumer drains, the reader has ended and the queue
can only become empty, so at the end the accepted chunks are exactly those handled.
-/

namespace Recdyud

/-- An atomic FIFO of bounded size. -/
structure BoundedQueue (α : Type) (size : ℕ) where
  items : List α
  length_le : items.length ≤ size
  deriving DecidableEq

namespace BoundedQueue

variable {α : Type} {size : ℕ}

def empty : BoundedQueue α size := ⟨[], Nat.zero_le _⟩

/-- `put_nowait`; `none` is `queue.Full`. -/
def put (q : BoundedQueue α size) (x : α) : Option (BoundedQueue α size) :=
  if h : q.items.length < size then
    some ⟨q.items ++ [x], by rw [List.length_append]; exact h⟩
  else
    none

/-- `get_nowait`; `none` is `queue.Empty`. -/
def get (q : BoundedQueue α size) : Option (α × BoundedQueue α size) :=
  match q with
  | ⟨[], _⟩ => none
  | ⟨x :: items, h⟩ => some (x, ⟨items, Nat.le_of_succ_le h⟩)

end BoundedQueue

def queueChunks : ℕ := 1536

/-- Where `TsReader.run` stands. -/
inductive ReaderPc where
  /-- `while not self._halt.is_set()` -/
  | check
  /-- `read_ts` -/
  | read
  /-- `self.timeouts = 0; self.bytes += n` -/
  | account
  /-- `put_nowait` -/
  | put
  /-- `self.error = e` is done, the event is not set -/
  | failed
  | ended
  deriving DecidableEq, Repr

/-- Where the consumer stands, from the loop of `stream` on. -/
inductive ConsumerPc where
  /-- `while not stop.is_set()` -/
  | checkStop
  /-- `if remaining <= 0: break` -/
  | checkDeadline
  /-- `reader.queue.get(timeout=timeout)` -/
  | get
  /-- `handle(…)` in the loop -/
  | handle
  /-- `self._halt.set()` of the first `halt` -/
  | halt
  /-- `self.join(timeout)` of the first `halt` -/
  | join
  /-- the next chunk of `drain` -/
  | drain
  /-- `handle(chunk)` behind the loop -/
  | drainHandle
  /-- `self._halt.set()` of the `halt` in the `finally` block -/
  | finalHalt
  | finalJoin
  | done
  deriving DecidableEq, Repr

/-- Both threads, and what they share. -/
structure StreamState where
  queue : BoundedQueue Bytes queueChunks := .empty
  /-- the global stop event, `on_error` of the reader -/
  stop : Bool := false
  halt : Bool := false
  reader : ReaderPc := .check
  /-- `buf[:n]` -/
  buf : Bytes := []
  overflows : ℕ := 0
  timeouts : ℕ := 0
  bytes : ℕ := 0
  error : Bool := false
  /-- Every attempt to put a chunk, with the number of chunks queued at that moment. -/
  log : List (Bytes × ℕ) := []
  consumer : ConsumerPc := .checkStop
  /-- the chunk in hand -/
  item : Bytes := []
  /-- the chunks passed to `handle` so far -/
  handled : List Bytes := []
  deriving DecidableEq

/-- A step of `TsReader.run`. -/
inductive ReaderAction where
  | checkHalt
  /-- `read_ts` returns `data`, empty when it timed out. -/
  | read (data : Bytes)
  | readRaises
  | account
  | put
  | reportError
  deriving DecidableEq, Repr

/-- A step of the consumer. -/
inductive ConsumerAction where
  | checkStop
  | checkDeadline (expired : Bool)
  | get
  /-- `get` raises `queue.Empty`. -/
  | getTimeout
  | handle
  | setHalt
  | join
  | drain
  | drainHandle
  | finalHalt
  | finalJoin
  deriving DecidableEq, Repr

/-- A step of the system; a signal may arrive at any time. -/
inductive StreamAction where
  | reader (a : ReaderAction)
  | consumer (a : ConsumerAction)
  | signal
  deriving DecidableEq, Repr

namespace StreamState

def readerStep (s : StreamState) : ReaderAction → Option StreamState
  | .checkHalt =>
    if s.reader = .check then some { s with reader := if s.halt then .ended else .read } else none
  | .read data =>
    if s.reader = .read then
      some (if data = [] then { s with timeouts := s.timeouts + 1, reader := .check }
        else { s with buf := data, reader := .account })
    else none
  | .readRaises =>
    if s.reader = .read then some { s with error := true, reader := .failed } else none
  | .account =>
    if s.reader = .account then
      some { s with timeouts := 0, bytes := s.bytes + s.buf.length, reader := .put }
    else none
  | .put =>
    if s.reader = .put then
      let log := s.log ++ [(s.buf, s.queue.items.length)]
      match s.queue.put s.buf with
      | some queue => some { s with queue, log, reader := .check }
      | none => some { s with overflows := s.overflows + 1, log, reader := .check }
    else none
  | .reportError =>
    if s.reader = .failed then some { s with stop := true, reader := .ended } else none

def consumerStep (hasDeadline : Bool) (s : StreamState) : ConsumerAction → Option StreamState
  | .checkStop =>
    if s.consumer = .checkStop then
      some { s with consumer :=
        if s.stop then .halt else if hasDeadline then .checkDeadline else .get }
    else none
  | .checkDeadline expired =>
    if s.consumer = .checkDeadline then
      some { s with consumer := if expired then .halt else .get }
    else none
  | .get =>
    if s.consumer = .get then
      match s.queue.get with
      | some (item, queue) => some { s with item, queue, consumer := .handle }
      | none => none
    else none
  | .getTimeout =>
    if s.consumer = .get ∧ s.queue.items = [] then some { s with consumer := .checkStop } else none
  | .handle =>
    if s.consumer = .handle then
      some { s with handled := s.handled ++ [s.item], consumer := .checkStop }
    else none
  | .setHalt => if s.consumer = .halt then some { s with halt := true, consumer := .join } else none
  | .join =>
    if s.consumer = .join ∧ s.reader = .ended then some { s with consumer := .drain } else none
  | .drain =>
    if s.consumer = .drain then
      match s.queue.get with
      | some (item, queue) => some { s with item, queue, consumer := .drainHandle }
      | none => some { s with consumer := .finalHalt }
    else none
  | .drainHandle =>
    if s.consumer = .drainHandle then
      some { s with handled := s.handled ++ [s.item], consumer := .drain }
    else none
  | .finalHalt =>
    if s.consumer = .finalHalt then some { s with halt := true, consumer := .finalJoin } else none
  | .finalJoin =>
    if s.consumer = .finalJoin ∧ s.reader = .ended then some { s with consumer := .done } else none

end StreamState

/-- The reader thread and the consumer. -/
def streamMachine (hasDeadline : Bool) : Machine StreamState StreamAction where
  init := {}
  step s
    | .reader a => s.readerStep a
    | .consumer a => s.consumerStep hasDeadline a
    | .signal => some { s with stop := true }

/-- The chunk an action reads; a read that timed out reads none. -/
def ReaderAction.chunk : ReaderAction → List Bytes
  | .read data => if data = [] then [] else [data]
  | .checkHalt | .readRaises | .account | .put | .reportError => []

def StreamAction.chunk : StreamAction → List Bytes
  | .reader a => a.chunk
  | .consumer _ | .signal => []

/-- The chunks read from the tuner. -/
def readsOf (actions : List StreamAction) : List Bytes := actions.flatMap StreamAction.chunk

/-! ## What a step can be -/

/-- The steps of the reader, by where it stands. -/
inductive ReaderSteps (s : StreamState) : ReaderAction → StreamState → Prop where
  | checkHalt (hpc : s.reader = .check) :
    ReaderSteps s .checkHalt { s with reader := if s.halt then .ended else .read }
  | timedOut (hpc : s.reader = .read) :
    ReaderSteps s (.read []) { s with timeouts := s.timeouts + 1, reader := .check }
  | read (hpc : s.reader = .read) {data : Bytes} (hdata : data ≠ []) :
    ReaderSteps s (.read data) { s with buf := data, reader := .account }
  | readRaises (hpc : s.reader = .read) :
    ReaderSteps s .readRaises { s with error := true, reader := .failed }
  | account (hpc : s.reader = .account) :
    ReaderSteps s .account
      { s with timeouts := 0, bytes := s.bytes + s.buf.length, reader := .put }
  | accepted (hpc : s.reader = .put) {queue : BoundedQueue Bytes queueChunks}
    (hput : s.queue.put s.buf = some queue) :
    ReaderSteps s .put { s with
      queue, log := s.log ++ [(s.buf, s.queue.items.length)], reader := .check }
  | dropped (hpc : s.reader = .put) (hput : s.queue.put s.buf = none) :
    ReaderSteps s .put { s with
      overflows := s.overflows + 1
      log := s.log ++ [(s.buf, s.queue.items.length)]
      reader := .check }
  | reportError (hpc : s.reader = .failed) :
    ReaderSteps s .reportError { s with stop := true, reader := .ended }

/-- The steps of the consumer, by where it stands. -/
inductive ConsumerSteps (hasDeadline : Bool) (s : StreamState) :
    ConsumerAction → StreamState → Prop where
  | checkStop (hpc : s.consumer = .checkStop) :
    ConsumerSteps hasDeadline s .checkStop { s with consumer :=
      if s.stop then .halt else if hasDeadline then .checkDeadline else .get }
  | checkDeadline (hpc : s.consumer = .checkDeadline) (expired : Bool) :
    ConsumerSteps hasDeadline s (.checkDeadline expired)
      { s with consumer := if expired then .halt else .get }
  | get (hpc : s.consumer = .get) {item : Bytes} {queue : BoundedQueue Bytes queueChunks}
    (hget : s.queue.get = some (item, queue)) :
    ConsumerSteps hasDeadline s .get { s with item, queue, consumer := .handle }
  | getTimeout (hpc : s.consumer = .get) (hempty : s.queue.items = []) :
    ConsumerSteps hasDeadline s .getTimeout { s with consumer := .checkStop }
  | handle (hpc : s.consumer = .handle) :
    ConsumerSteps hasDeadline s .handle
      { s with handled := s.handled ++ [s.item], consumer := .checkStop }
  | setHalt (hpc : s.consumer = .halt) :
    ConsumerSteps hasDeadline s .setHalt { s with halt := true, consumer := .join }
  | join (hpc : s.consumer = .join) (hended : s.reader = .ended) :
    ConsumerSteps hasDeadline s .join { s with consumer := .drain }
  | drain (hpc : s.consumer = .drain) {item : Bytes} {queue : BoundedQueue Bytes queueChunks}
    (hget : s.queue.get = some (item, queue)) :
    ConsumerSteps hasDeadline s .drain { s with item, queue, consumer := .drainHandle }
  | drained (hpc : s.consumer = .drain) (hget : s.queue.get = none) :
    ConsumerSteps hasDeadline s .drain { s with consumer := .finalHalt }
  | drainHandle (hpc : s.consumer = .drainHandle) :
    ConsumerSteps hasDeadline s .drainHandle
      { s with handled := s.handled ++ [s.item], consumer := .drain }
  | finalHalt (hpc : s.consumer = .finalHalt) :
    ConsumerSteps hasDeadline s .finalHalt { s with halt := true, consumer := .finalJoin }
  | finalJoin (hpc : s.consumer = .finalJoin) (hended : s.reader = .ended) :
    ConsumerSteps hasDeadline s .finalJoin { s with consumer := .done }

theorem readerSteps_of_eq {s s' : StreamState} {a : ReaderAction} (h : s.readerStep a = some s') :
    ReaderSteps s a s' := by
  cases a with
  | checkHalt =>
    obtain ⟨hpc, h⟩ := Option.ite_none_right_eq_some.mp h
    cases h
    exact .checkHalt hpc
  | read data =>
    obtain ⟨hpc, h⟩ := Option.ite_none_right_eq_some.mp h
    by_cases hdata : data = []
    · rw [if_pos hdata] at h
      cases h
      exact hdata ▸ .timedOut hpc
    · rw [if_neg hdata] at h
      cases h
      exact .read hpc hdata
  | readRaises =>
    obtain ⟨hpc, h⟩ := Option.ite_none_right_eq_some.mp h
    cases h
    exact .readRaises hpc
  | account =>
    obtain ⟨hpc, h⟩ := Option.ite_none_right_eq_some.mp h
    cases h
    exact .account hpc
  | put =>
    obtain ⟨hpc, h⟩ := Option.ite_none_right_eq_some.mp h
    split at h
    · rename_i queue hput
      cases h
      exact .accepted hpc hput
    · rename_i hput
      cases h
      exact .dropped hpc hput
  | reportError =>
    obtain ⟨hpc, h⟩ := Option.ite_none_right_eq_some.mp h
    cases h
    exact .reportError hpc

theorem consumerSteps_of_eq {hasDeadline : Bool} {s s' : StreamState} {a : ConsumerAction}
    (h : s.consumerStep hasDeadline a = some s') : ConsumerSteps hasDeadline s a s' := by
  cases a with
  | checkStop =>
    obtain ⟨hpc, h⟩ := Option.ite_none_right_eq_some.mp h
    cases h
    exact .checkStop hpc
  | checkDeadline expired =>
    obtain ⟨hpc, h⟩ := Option.ite_none_right_eq_some.mp h
    cases h
    exact .checkDeadline hpc expired
  | get =>
    obtain ⟨hpc, h⟩ := Option.ite_none_right_eq_some.mp h
    split at h
    · rename_i item queue hget
      cases h
      exact .get hpc hget
    · cases h
  | getTimeout =>
    obtain ⟨⟨hpc, hempty⟩, h⟩ := Option.ite_none_right_eq_some.mp h
    cases h
    exact .getTimeout hpc hempty
  | handle =>
    obtain ⟨hpc, h⟩ := Option.ite_none_right_eq_some.mp h
    cases h
    exact .handle hpc
  | setHalt =>
    obtain ⟨hpc, h⟩ := Option.ite_none_right_eq_some.mp h
    cases h
    exact .setHalt hpc
  | join =>
    obtain ⟨⟨hpc, hended⟩, h⟩ := Option.ite_none_right_eq_some.mp h
    cases h
    exact .join hpc hended
  | drain =>
    obtain ⟨hpc, h⟩ := Option.ite_none_right_eq_some.mp h
    split at h
    · rename_i item queue hget
      cases h
      exact .drain hpc hget
    · rename_i hget
      cases h
      exact .drained hpc hget
  | drainHandle =>
    obtain ⟨hpc, h⟩ := Option.ite_none_right_eq_some.mp h
    cases h
    exact .drainHandle hpc
  | finalHalt =>
    obtain ⟨hpc, h⟩ := Option.ite_none_right_eq_some.mp h
    cases h
    exact .finalHalt hpc
  | finalJoin =>
    obtain ⟨⟨hpc, hended⟩, h⟩ := Option.ite_none_right_eq_some.mp h
    cases h
    exact .finalJoin hpc hended

/-! ## The invariant -/

/-- An attempt to put a chunk that found room in the queue. -/
def Accepted (x : Bytes × ℕ) : Bool := x.2 < queueChunks

/-- `x` was dropped because the queue was full. -/
def Dropped (x : Bytes × ℕ) : Bool := !Accepted x

namespace StreamState

/-- A chunk that was read and not yet put. -/
def pending (s : StreamState) : List Bytes :=
  if s.reader = .account ∨ s.reader = .put then [s.buf] else []

/-- A chunk that was taken out and not yet handled. -/
def inHand (s : StreamState) : List Bytes :=
  if s.consumer = .handle ∨ s.consumer = .drainHandle then [s.item] else []

end StreamState

/-- The consumer has seen the reader end. -/
def ConsumerPc.Joined (pc : ConsumerPc) : Prop :=
  pc = .drain ∨ pc = .drainHandle ∨ pc = .finalHalt ∨ pc = .finalJoin ∨ pc = .done

/-- The consumer has found the queue empty after that. -/
def ConsumerPc.Drained (pc : ConsumerPc) : Prop := pc = .finalHalt ∨ pc = .finalJoin ∨ pc = .done

/-- Where the chunks `reads` are. -/
structure Flow (reads : List Bytes) (s : StreamState) : Prop where
  read : s.log.map Prod.fst ++ s.pending = reads
  accepted : s.handled ++ (s.inHand ++ s.queue.items) = (s.log.filter Accepted).map Prod.fst
  overflows : s.overflows = (s.log.filter Dropped).length
  bytes : s.bytes + (if s.reader = .account then s.buf.length else 0)
    = (reads.map List.length).sum
  joined : s.consumer.Joined → s.reader = .ended
  drained : s.consumer.Drained → s.queue.items = []

theorem ConsumerPc.Drained.joined {pc : ConsumerPc} (h : pc.Drained) : pc.Joined := by
  rcases h with rfl | rfl | rfl <;> simp [ConsumerPc.Joined]

theorem BoundedQueue.put_eq_some {α : Type} {size : ℕ} {q q' : BoundedQueue α size} {x : α}
    (h : q.put x = some q') : q.items.length < size ∧ q'.items = q.items ++ [x] := by
  rw [put] at h
  split at h
  · rename_i hlt
    cases h
    exact ⟨hlt, rfl⟩
  · cases h

theorem BoundedQueue.put_eq_none {α : Type} {size : ℕ} {q : BoundedQueue α size} {x : α}
    (h : q.put x = none) : ¬q.items.length < size := by
  rw [put] at h
  split at h
  · cases h
  · assumption

theorem BoundedQueue.get_eq_some {α : Type} {size : ℕ} {q q' : BoundedQueue α size} {x : α}
    (h : q.get = some (x, q')) : q.items = x :: q'.items := by
  obtain ⟨items, hle⟩ := q
  cases items with
  | nil => cases h
  | cons y items => cases h; rfl

theorem BoundedQueue.get_eq_none {α : Type} {size : ℕ} {q : BoundedQueue α size}
    (h : q.get = none) : q.items = [] := by
  obtain ⟨items, hle⟩ := q
  cases items with
  | nil => rfl
  | cons y items => cases h

namespace Flow

variable {reads : List Bytes} {s s' : StreamState}

/-- While the reader runs, the consumer has not joined it. -/
theorem not_joined (h : Flow reads s) (hreader : s.reader ≠ .ended) : ¬s.consumer.Joined :=
  fun hj ↦ hreader (h.joined hj)

/-- A step of the reader that moves no chunk. -/
theorem of_quiet_reader (h : Flow reads s) {pc : ReaderPc} {stop error : Bool} {timeouts : ℕ}
    (hreader : s.reader ≠ .ended) (hfrom : s.reader ≠ .account ∧ s.reader ≠ .put)
    (hto : pc ≠ .account ∧ pc ≠ .put) :
    Flow reads { s with reader := pc, stop, error, timeouts } := by
  have hj := h.not_joined hreader
  have hread := h.read
  have hbytes := h.bytes
  refine ⟨?_, h.accepted, h.overflows, ?_, fun hc ↦ absurd hc hj, fun hc ↦ absurd hc.joined hj⟩
  · simpa [StreamState.pending, hfrom, hto] using hread
  · simpa [hfrom, hto] using hbytes

/-- The reader has read a chunk. -/
theorem of_read (h : Flow reads s) (hpc : s.reader = .read) (data : Bytes) :
    Flow (reads ++ [data]) { s with buf := data, reader := .account } := by
  have hj := h.not_joined (by simp [hpc])
  have hread := h.read
  have hbytes := h.bytes
  refine ⟨?_, h.accepted, h.overflows, ?_, fun hc ↦ absurd hc hj, fun hc ↦ absurd hc.joined hj⟩
  · simpa [StreamState.pending, hpc] using hread
  · simpa [hpc] using hbytes

/-- The reader has counted the chunk. -/
theorem of_account (h : Flow reads s) (hpc : s.reader = .account) :
    Flow reads { s with timeouts := 0, bytes := s.bytes + s.buf.length, reader := .put } := by
  have hj := h.not_joined (by simp [hpc])
  have hread := h.read
  have hbytes := h.bytes
  refine ⟨?_, h.accepted, h.overflows, ?_, fun hc ↦ absurd hc hj, fun hc ↦ absurd hc.joined hj⟩
  · simpa [StreamState.pending, hpc] using hread
  · simpa [hpc] using hbytes

/-- The attempt to put the chunk goes into the log. -/
theorem read_logged (h : Flow reads s) (hpc : s.reader = .put) (n : ℕ) :
    (s.log ++ [(s.buf, n)]).map Prod.fst = reads := by
  have hread := h.read
  rw [StreamState.pending, if_pos (.inr hpc)] at hread
  rwa [List.map_append]

/-- There was room: the chunk goes to the end of the queue. -/
theorem of_accepted (h : Flow reads s) (hpc : s.reader = .put)
    {queue : BoundedQueue Bytes queueChunks} (hput : s.queue.put s.buf = some queue) :
    Flow reads { s with
      queue, log := s.log ++ [(s.buf, s.queue.items.length)], reader := .check } := by
  have hj := h.not_joined (by simp [hpc])
  have hbytes := h.bytes
  obtain ⟨hlt, hitems⟩ := BoundedQueue.put_eq_some hput
  have hacc : Accepted (s.buf, s.queue.items.length) = true := by simpa [Accepted] using hlt
  refine ⟨?_, ?_, ?_, ?_, fun hc ↦ absurd hc hj, fun hc ↦ absurd hc.joined hj⟩
  · simpa [StreamState.pending] using h.read_logged hpc s.queue.items.length
  · rw [List.filter_append, List.map_append, ← h.accepted, hitems, List.append_assoc,
      List.append_assoc]
    simp [StreamState.inHand, hacc]
  · simpa [Dropped, List.filter_append, hacc] using h.overflows
  · simpa [hpc] using hbytes

/-- There was none: the chunk goes into the log only, and is counted. -/
theorem of_dropped (h : Flow reads s) (hpc : s.reader = .put)
    (hput : s.queue.put s.buf = none) :
    Flow reads { s with
      overflows := s.overflows + 1
      log := s.log ++ [(s.buf, s.queue.items.length)]
      reader := .check } := by
  have hj := h.not_joined (by simp [hpc])
  have hbytes := h.bytes
  have hfull := BoundedQueue.put_eq_none hput
  have hacc : Accepted (s.buf, s.queue.items.length) = false := by simpa [Accepted] using hfull
  refine ⟨?_, ?_, ?_, ?_, fun hc ↦ absurd hc hj, fun hc ↦ absurd hc.joined hj⟩
  · simpa [StreamState.pending] using h.read_logged hpc s.queue.items.length
  · rw [List.filter_append, List.map_append, ← h.accepted]
    simp [StreamState.inHand, hacc]
  · simpa [Dropped, List.filter_append, hacc] using h.overflows
  · simpa [hpc] using hbytes

/-- A step of the reader. A chunk it reads is new; putting it moves it to the log. -/
theorem readerStep (h : Flow reads s) {a : ReaderAction} (hs : s.readerStep a = some s') :
    Flow (reads ++ a.chunk) s' := by
  cases readerSteps_of_eq hs with
  | checkHalt hpc =>
    rw [ReaderAction.chunk, List.append_nil]
    refine h.of_quiet_reader (by simp [hpc]) (by simp [hpc]) ?_
    split <;> decide
  | timedOut hpc =>
    have hto : ReaderPc.check ≠ .account ∧ ReaderPc.check ≠ .put := by decide
    rw [ReaderAction.chunk, if_pos rfl, List.append_nil]
    exact h.of_quiet_reader (by simp [hpc]) (by simp [hpc]) hto
  | read hpc hdata =>
    rw [ReaderAction.chunk, if_neg hdata]
    exact h.of_read hpc _
  | readRaises hpc =>
    rw [ReaderAction.chunk, List.append_nil]
    exact h.of_quiet_reader (by simp [hpc]) (by simp [hpc]) (by decide)
  | account hpc =>
    rw [ReaderAction.chunk, List.append_nil]
    exact h.of_account hpc
  | accepted hpc hput =>
    rw [ReaderAction.chunk, List.append_nil]
    exact h.of_accepted hpc hput
  | dropped hpc hput =>
    rw [ReaderAction.chunk, List.append_nil]
    exact h.of_dropped hpc hput
  | reportError hpc =>
    rw [ReaderAction.chunk, List.append_nil]
    exact h.of_quiet_reader (by simp [hpc]) (by simp [hpc]) (by decide)

/-- A step of the consumer that moves no chunk. -/
theorem of_quiet_consumer (h : Flow reads s) {pc : ConsumerPc} {halt : Bool}
    (hfrom : s.consumer ≠ .handle ∧ s.consumer ≠ .drainHandle)
    (hto : pc ≠ .handle ∧ pc ≠ .drainHandle) (hjoined : pc.Joined → s.reader = .ended)
    (hdrained : pc.Drained → s.queue.items = []) :
    Flow reads { s with consumer := pc, halt } := by
  refine ⟨h.read, ?_, h.overflows, h.bytes, hjoined, hdrained⟩
  simpa [StreamState.inHand, hfrom, hto] using h.accepted

/-- The consumer takes a chunk out. -/
theorem of_take (h : Flow reads s) {pc : ConsumerPc} {item : Bytes}
    {queue : BoundedQueue Bytes queueChunks} (hget : s.queue.get = some (item, queue))
    (hfrom : s.consumer ≠ .handle ∧ s.consumer ≠ .drainHandle)
    (hto : pc = .handle ∨ pc = .drainHandle) (hjoined : pc.Joined → s.reader = .ended) :
    Flow reads { s with item, queue, consumer := pc } := by
  have haccepted := h.accepted
  have hinHand : s.inHand = [] := by simp [StreamState.inHand, hfrom]
  rw [hinHand, BoundedQueue.get_eq_some hget] at haccepted
  refine ⟨h.read, ?_, h.overflows, h.bytes, hjoined, ?_⟩
  · rw [← haccepted, StreamState.inHand, if_pos hto]
    rfl
  · rcases hto with rfl | rfl <;> simp [ConsumerPc.Drained]

/-- The consumer has handled the chunk in hand. -/
theorem of_handled (h : Flow reads s) {pc : ConsumerPc}
    (hfrom : s.consumer = .handle ∨ s.consumer = .drainHandle)
    (hto : pc = .checkStop ∨ pc = .drain) (hjoined : pc.Joined → s.reader = .ended) :
    Flow reads { s with handled := s.handled ++ [s.item], consumer := pc } := by
  have haccepted := h.accepted
  have hinHand : s.inHand = [s.item] := if_pos hfrom
  rw [hinHand] at haccepted
  refine ⟨h.read, ?_, h.overflows, h.bytes, hjoined, ?_⟩
  · rw [← haccepted, List.append_assoc]
    rcases hto with rfl | rfl <;> simp [StreamState.inHand]
  · rcases hto with rfl | rfl <;> simp [ConsumerPc.Drained]

/-- A step of the consumer. -/
theorem consumerStep (h : Flow reads s) {hasDeadline : Bool} {a : ConsumerAction}
    (hs : s.consumerStep hasDeadline a = some s') : Flow reads s' := by
  cases consumerSteps_of_eq hs with
  | checkStop hpc =>
    refine h.of_quiet_consumer (by simp [hpc]) ?_ ?_ ?_ <;>
      cases s.stop <;> cases hasDeadline <;> simp [ConsumerPc.Joined, ConsumerPc.Drained]
  | checkDeadline hpc expired =>
    refine h.of_quiet_consumer (by simp [hpc]) ?_ ?_ ?_ <;>
      cases expired <;> simp [ConsumerPc.Joined, ConsumerPc.Drained]
  | get hpc hget => exact h.of_take hget (by simp [hpc]) (.inl rfl) (by simp [ConsumerPc.Joined])
  | getTimeout hpc =>
    exact h.of_quiet_consumer (by simp [hpc]) (by decide) (by simp [ConsumerPc.Joined])
      (by simp [ConsumerPc.Drained])
  | handle hpc => exact h.of_handled (.inl hpc) (.inl rfl) (by simp [ConsumerPc.Joined])
  | setHalt hpc =>
    exact h.of_quiet_consumer (by simp [hpc]) (by decide) (by simp [ConsumerPc.Joined])
      (by simp [ConsumerPc.Drained])
  | join hpc hended =>
    exact h.of_quiet_consumer (by simp [hpc]) (by decide) (fun _ ↦ hended)
      (by simp [ConsumerPc.Drained])
  | drain hpc hget =>
    have hended : s.reader = .ended := h.joined (by simp [ConsumerPc.Joined, hpc])
    exact h.of_take hget (by simp [hpc]) (.inr rfl) fun _ ↦ hended
  | drained hpc hget =>
    -- the reader has ended, so an empty queue stays empty
    have hended : s.reader = .ended := h.joined (by simp [ConsumerPc.Joined, hpc])
    exact h.of_quiet_consumer (by simp [hpc]) (by decide) (fun _ ↦ hended)
      fun _ ↦ BoundedQueue.get_eq_none hget
  | drainHandle hpc =>
    have hended : s.reader = .ended := h.joined (by simp [ConsumerPc.Joined, hpc])
    exact h.of_handled (.inr hpc) (.inr rfl) fun _ ↦ hended
  | finalHalt hpc =>
    exact h.of_quiet_consumer (by simp [hpc]) (by decide)
      (fun _ ↦ h.joined (by simp [ConsumerPc.Joined, hpc]))
      (fun _ ↦ h.drained (by simp [ConsumerPc.Drained, hpc]))
  | finalJoin hpc hended =>
    exact h.of_quiet_consumer (by simp [hpc]) (by decide) (fun _ ↦ hended)
      (fun _ ↦ h.drained (by simp [ConsumerPc.Drained, hpc]))

end Flow

theorem flow_run {hasDeadline : Bool} {actions : List StreamAction} {s : StreamState}
    (h : (streamMachine hasDeadline).Run actions s) : Flow (readsOf actions) s := by
  refine Machine.Run.induction (I := fun actions s ↦ Flow (readsOf actions) s) ?_ ?_ h
  · exact ⟨rfl, rfl, rfl, rfl, by simp [streamMachine, ConsumerPc.Joined], fun _ ↦ rfl⟩
  · intro actions s a s' _ hflow hs
    rw [readsOf, List.flatMap_append, List.flatMap_singleton]
    cases a with
    | reader a => exact hflow.readerStep hs
    | consumer a =>
      rw [StreamAction.chunk, List.append_nil]
      exact hflow.consumerStep hs
    | signal =>
      cases hs
      rw [StreamAction.chunk, List.append_nil]
      exact ⟨hflow.read, hflow.accepted, hflow.overflows, hflow.bytes, hflow.joined, hflow.drained⟩

/-- **No loss, duplication or reordering.** Whatever the interleaving of the reader and the
consumer, the results of the reads, and the moment at which a signal, the deadline or a read error
ends the run: when the consumer is done, the chunks passed to `handle` are the non-empty chunks
read from the tuner, in order and each once, but for those dropped because the queue was full. The
reader has counted the latter in `overflows` and all that was read in `bytes`. -/
theorem handled_eq {hasDeadline : Bool} {actions : List StreamAction} {s : StreamState}
    (h : (streamMachine hasDeadline).Run actions s) (hdone : s.consumer = .done) :
    s.log.map Prod.fst = readsOf actions ∧
      s.handled = (s.log.filter Accepted).map Prod.fst ∧
      s.overflows = (s.log.filter Dropped).length ∧
      s.bytes = ((readsOf actions).map List.length).sum := by
  have hflow := flow_run h
  have hended : s.reader = .ended := hflow.joined (by simp [ConsumerPc.Joined, hdone])
  have hempty : s.queue.items = [] := hflow.drained (by simp [ConsumerPc.Drained, hdone])
  refine ⟨?_, ?_, hflow.overflows, ?_⟩
  · have hread := hflow.read
    rwa [StreamState.pending, if_neg (by simp [hended]), List.append_nil] at hread
  · have haccepted := hflow.accepted
    rwa [StreamState.inHand, if_neg (by simp [hdone]), hempty, List.append_nil, List.append_nil]
      at haccepted
  · have hbytes := hflow.bytes
    rwa [if_neg (by simp [hended]), Nat.add_zero] at hbytes

/-- Two chunks: the first is handled by the loop; the deadline passes while the second is read, so
it is drained. -/
def twoChunks : List StreamAction :=
  [.reader .checkHalt, .reader (.read [0x47]), .consumer .checkStop, .reader .account,
    .reader .put, .consumer (.checkDeadline false), .consumer .get, .reader .checkHalt,
    .consumer .handle, .reader (.read [0x48]), .consumer .checkStop,
    .consumer (.checkDeadline true), .reader .account, .consumer .setHalt, .reader .put,
    .reader .checkHalt, .consumer .join, .consumer .drain, .consumer .drainHandle,
    .consumer .drain, .consumer .finalHalt, .consumer .finalJoin]

/-- The state that run ends in. -/
def twoChunksEnd : StreamState :=
  ((streamMachine true).exec {} twoChunks).get (by decide +kernel)

theorem handled_twoChunks :
    twoChunksEnd.log.map Prod.fst = readsOf twoChunks ∧
      twoChunksEnd.handled = (twoChunksEnd.log.filter Accepted).map Prod.fst ∧
      twoChunksEnd.overflows = (twoChunksEnd.log.filter Dropped).length ∧
      twoChunksEnd.bytes = ((readsOf twoChunks).map List.length).sum :=
  handled_eq (Option.some_get _).symm (by decide +kernel)

end Recdyud
