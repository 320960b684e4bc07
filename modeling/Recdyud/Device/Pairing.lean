import Recdyud.Device.Commands

/-!
# Responses and the commands they belong to

The device answers every frame it receives with one response; the responses come out of the
endpoint in the order of the frames. `Endpoint` keeps all of them, with the number of the frame each
one answers, and how many have been read. How a transfer goes is fixed beforehand by `transfers`:
the frame does not arrive, or it arrives and the write fails, or the read times out, or the read
takes the oldest response there is.

## Where the pairing goes wrong

`command` gives up on a response that does not come in time and nothing takes it away later:
`_drain` only runs in `initialize`. So a transfer that leaves its response behind shifts every
later one. `Endpoint.Counted` is the invariant: the responses not yet read are as many as the
transfers that left one. A response is the answer to the frame just written exactly when there were
none, that is, when every transfer before it took its response or lost its frame.
-/

namespace Recdyud

open CommandCodec

/-- A device that answers every frame. -/
class Responder (δ : Type) where
  respond : Bytes → δ → Bytes × δ

/-- How the transfer of a command and its response goes. -/
inductive Transfer where
  /-- The write fails and the frame does not arrive. -/
  | lost (e : UsbError)
  /-- The write fails although the frame arrives. -/
  | broken (e : UsbError)
  /-- The frame arrives, and the read times out. -/
  | timeout (e : UsbError)
  /-- The frame arrives, and the read takes the oldest response. -/
  | answered
  deriving DecidableEq, Repr

namespace Transfer

/-- The response of this frame stays behind. -/
def LeavesResponse : Transfer → Prop
  | .lost _ => False
  | .broken _ => True
  | .timeout _ => True
  | .answered => False

instance : DecidablePred LeavesResponse
  | .lost _ => inferInstanceAs (Decidable False)
  | .broken _ => inferInstanceAs (Decidable True)
  | .timeout _ => inferInstanceAs (Decidable True)
  | .answered => inferInstanceAs (Decidable False)

end Transfer

/-- A response, and the number of the frame it answers. -/
structure Response where
  answers : ℕ
  raw : Bytes
  deriving DecidableEq, Repr

/-- A response that was read right after a frame was written. -/
structure Reading where
  frame : ℕ
  response : Response
  deriving DecidableEq, Repr

namespace Reading

/-- The response answers the frame that was just written. -/
def Own (r : Reading) : Prop := r.response.answers = r.frame

instance : DecidablePred Own := fun _ ↦ inferInstanceAs (Decidable (_ = _))

end Reading

/-- The device behind the two endpoints of the command channel. -/
structure Endpoint (δ : Type) where
  device : δ
  transfers : ℕ → Transfer
  /-- how many frames were written -/
  sent : ℕ := 0
  /-- every response of the device, in order -/
  responses : List Response := []
  /-- how many of them were read -/
  taken : ℕ := 0
  log : List Reading := []

namespace Endpoint

variable {δ : Type} [Responder δ]

/-- The device receives the frame and answers it. -/
def arrive (self : Endpoint δ) (frame : Bytes) : Endpoint δ :=
  let (raw, device) := Responder.respond frame self.device
  { self with device, sent := self.sent + 1, responses := self.responses ++ [⟨self.sent, raw⟩] }

def write (frame : Bytes) (self : Endpoint δ) : Except UsbError Unit × Endpoint δ :=
  match self.transfers self.sent with
  | .lost e => (.error e, { self with sent := self.sent + 1 })
  | .broken e => (.error e, self.arrive frame)
  | .timeout _ => (.ok (), self.arrive frame)
  | .answered => (.ok (), self.arrive frame)

/-- The read of the transfer under way. -/
def read (self : Endpoint δ) : Except UsbError Bytes × Endpoint δ :=
  match self.transfers (self.sent - 1) with
  | .lost e => (.error e, self)
  | .broken e => (.error e, self)
  | .timeout e => (.error e, self)
  | .answered =>
    match self.responses[self.taken]? with
    | none => (.error ⟨"Operation timed out"⟩, self)
    | some response =>
      (.ok response.raw,
        { self with taken := self.taken + 1, log := self.log ++ [⟨self.sent - 1, response⟩] })

instance : Usb (Endpoint δ) where
  write := write
  read := read

/-! ## One exchange -/

/-- How many of the transfers so far left their response behind. -/
def left (self : Endpoint δ) : ℕ :=
  (List.range self.sent).countP fun i ↦ (self.transfers i).LeavesResponse

/-- No transfer before this one left its response behind. -/
def Settled (transfers : ℕ → Transfer) (frame : ℕ) : Prop :=
  ∀ i < frame, ¬ (transfers i).LeavesResponse

/-- The responses not read are as many as were left behind, and what was read is as it should be
unless one was. -/
structure Counted (dev : Endpoint δ) : Prop where
  count : dev.responses.length = dev.taken + dev.left
  answers_lt : ∀ response ∈ dev.responses, response.answers < dev.sent
  own_iff : ∀ r ∈ dev.log, r.Own ↔ Settled dev.transfers r.frame
  mem_responses : ∀ r ∈ dev.log, r.response ∈ dev.responses

omit [Responder δ] in
theorem counted_initial (device : δ) (transfers : ℕ → Transfer) :
    Counted { device, transfers : Endpoint δ } where
  count := rfl
  answers_lt := fun _ h ↦ absurd h List.not_mem_nil
  own_iff := fun _ h ↦ absurd h List.not_mem_nil
  mem_responses := fun _ h ↦ absurd h List.not_mem_nil

omit [Responder δ] in
theorem left_eq_zero_iff (self : Endpoint δ) :
    self.left = 0 ↔ Settled self.transfers self.sent := by
  rw [left, List.countP_eq_zero]
  simp only [List.mem_range, decide_eq_true_eq]
  rfl

omit [Responder δ] in
/-- The number of responses left behind after one more transfer. -/
theorem left_succ (self self' : Endpoint δ) (ht : self'.transfers = self.transfers)
    (hs : self'.sent = self.sent + 1) :
    self'.left = self.left + if (self.transfers self.sent).LeavesResponse then 1 else 0 := by
  rw [left, ht, hs, List.range_succ, List.countP_append, List.countP_singleton, left]
  simp only [decide_eq_true_eq]

omit [Responder δ] in
theorem counted_lost {self : Endpoint δ} (h : self.Counted) {e : UsbError}
    (ht : self.transfers self.sent = .lost e) : Counted { self with sent := self.sent + 1 } where
  count := by
    rw [left_succ self { self with sent := self.sent + 1 } rfl rfl, ht]
    exact h.count
  answers_lt := fun response hr ↦ Nat.lt_succ_of_lt (h.answers_lt response hr)
  own_iff := h.own_iff
  mem_responses := h.mem_responses

/-- The frame has arrived; its response makes one more. -/
theorem length_responses_arrive (self : Endpoint δ) (frame : Bytes) :
    (self.arrive frame).responses.length = self.responses.length + 1 := by
  rw [arrive, List.length_append, List.length_singleton]

theorem answers_lt_arrive {self : Endpoint δ} (h : self.Counted) (frame : Bytes) :
    ∀ response ∈ (self.arrive frame).responses, response.answers < self.sent + 1 := by
  intro response hr
  rcases List.mem_append.mp hr with hr | hr
  · exact Nat.lt_succ_of_lt (h.answers_lt response hr)
  · rw [List.mem_singleton.mp hr]
    exact Nat.lt_succ_self _

theorem counted_arrive {self : Endpoint δ} (h : self.Counted) (frame : Bytes)
    (ht : (self.transfers self.sent).LeavesResponse) : (self.arrive frame).Counted where
  count := by
    rw [length_responses_arrive, left_succ self (self.arrive frame) rfl rfl, if_pos ht, h.count]
    rfl
  answers_lt := answers_lt_arrive h frame
  own_iff := h.own_iff
  mem_responses := fun r hr ↦ List.mem_append_left _ (h.mem_responses r hr)

/-- **The oldest response** belongs to the frame just written if and only if none was left
behind. -/
theorem exists_oldest {self : Endpoint δ} (h : self.Counted) (frame : Bytes) :
    ∃ response, (self.arrive frame).responses[self.taken]? = some response ∧
      (response.answers = self.sent ↔ Settled self.transfers self.sent) := by
  have hcount := h.count
  rw [← left_eq_zero_iff]
  rcases Nat.eq_zero_or_pos self.left with hzero | hpos
  · -- every older response was read, so this one is next
    refine ⟨⟨self.sent, (Responder.respond frame self.device).1⟩, ?_, iff_of_true rfl hzero⟩
    have htaken : self.taken = self.responses.length := by omega
    rw [arrive, htaken]
    exact List.getElem?_concat_length
  · -- an older response stands in front, and it answers an earlier frame
    have hlt : self.taken < self.responses.length := by omega
    refine ⟨self.responses[self.taken], ?_, iff_of_false (ne_of_lt ?_) (by omega)⟩
    · rw [arrive]
      exact (List.getElem?_append_left hlt).trans (List.getElem?_eq_getElem hlt)
    · exact h.answers_lt _ (List.getElem_mem hlt)

/-- The endpoint after a response was read for the frame. -/
def readResponse (self : Endpoint δ) (frame : Bytes) (response : Response) : Endpoint δ :=
  { self.arrive frame with
    taken := self.taken + 1
    log := self.log ++ [⟨self.sent, response⟩] }

theorem counted_readResponse {self : Endpoint δ} (h : self.Counted) {frame : Bytes}
    {response : Response} (ht : self.transfers self.sent = .answered)
    (hmem : response ∈ (self.arrive frame).responses)
    (hown : response.answers = self.sent ↔ Settled self.transfers self.sent) :
    (self.readResponse frame response).Counted where
  count := by
    have hleft : (self.readResponse frame response).left = self.left := by
      rw [left_succ self (self.readResponse frame response) rfl rfl, ht]
      rfl
    rw [hleft]
    show (self.arrive frame).responses.length = self.taken + 1 + self.left
    rw [length_responses_arrive, h.count]
    omega
  answers_lt := answers_lt_arrive h frame
  own_iff := by
    intro r hr
    rcases List.mem_append.mp hr with hr | hr
    · exact h.own_iff r hr
    · rw [List.mem_singleton.mp hr]
      exact hown
  mem_responses := by
    intro r hr
    rcases List.mem_append.mp hr with hr | hr
    · exact List.mem_append_left _ (h.mem_responses r hr)
    · rw [List.mem_singleton.mp hr]
      exact hmem

/-- **One exchange**: it raises and nothing is read, or it returns the oldest response. -/
theorem exchange_cases {self : Endpoint δ} (h : self.Counted) (frame : Bytes) :
    (∃ e self', DyUd200.exchange frame self = (.error e, self') ∧ self'.Counted) ∨
    ∃ response, DyUd200.exchange frame self = (.ok response.raw, self.readResponse frame response) ∧
      (self.readResponse frame response).Counted := by
  rcases ht : self.transfers self.sent with e | e | e | _
  -- the read is reached in the last two cases only
  · refine .inl ⟨e, _, ?_, counted_lost h ht⟩
    simp only [DyUd200.exchange, Usb.write, write, ht]
  · refine .inl ⟨e, _, ?_, counted_arrive h frame (by rw [ht]; trivial)⟩
    simp only [DyUd200.exchange, Usb.write, write, ht]
  · refine .inl ⟨e, _, ?_, counted_arrive h frame (by rw [ht]; trivial)⟩
    have hread : (self.arrive frame).transfers ((self.arrive frame).sent - 1) = .timeout e := ht
    simp only [DyUd200.exchange, Usb.write, write, ht, Usb.read, read, hread]
  · obtain ⟨response, holdest, hown⟩ := exists_oldest h frame
    refine .inr ⟨response, ?_, counted_readResponse h ht (List.mem_of_getElem? holdest) hown⟩
    have hread : (self.arrive frame).transfers ((self.arrive frame).sent - 1) = .answered := ht
    have hnext : (self.arrive frame).responses[(self.arrive frame).taken]? = some response :=
      holdest
    simp only [DyUd200.exchange, Usb.write, write, ht, Usb.read, read, hread, hnext]
    rfl

theorem transfers_write (frame : Bytes) (self : Endpoint δ) :
    (write frame self).2.transfers = self.transfers := by
  rw [write]
  split <;> rfl

omit [Responder δ] in
theorem transfers_read (self : Endpoint δ) : (read self).2.transfers = self.transfers := by
  rw [read]
  split
  · rfl
  · rfl
  · rfl
  · split <;> rfl

theorem transfers_exchange (frame : Bytes) (self : Endpoint δ) :
    (DyUd200.exchange frame self).2.transfers = self.transfers := by
  have hwrite := transfers_write frame self
  rcases hw : write frame self with ⟨_ | _, dev⟩
  · rw [hw] at hwrite
    simpa only [DyUd200.exchange, Usb.write, hw] using hwrite
  · rw [hw] at hwrite
    simpa only [DyUd200.exchange, Usb.write, Usb.read, hw] using (transfers_read dev).trans hwrite

theorem counted_exchange (frame : Bytes) (self : Endpoint δ) (h : self.Counted) :
    (DyUd200.exchange frame self).2.Counted := by
  obtain ⟨e, self', hx, hnext⟩ | ⟨response, hx, hnext⟩ := exchange_cases h frame <;>
    rwa [hx]

/-! ## Runs -/

/-- What is kept by every exchange of a run. -/
structure Paired (transfers : ℕ → Transfer) (dev : Endpoint δ) : Prop extends Counted dev where
  transfers_eq : dev.transfers = transfers

theorem paired_exchange {transfers : ℕ → Transfer} (frame : Bytes) (dev : Endpoint δ)
    (h : dev.Paired transfers) : (DyUd200.exchange frame dev).2.Paired transfers :=
  ⟨counted_exchange frame dev h.toCounted, (transfers_exchange frame dev).trans h.transfers_eq⟩

/-- A call returned the response of this reading, the last one, for the frame it wrote last. -/
structure Returned (P : Primitives) (dev : Endpoint δ) (res : Bytes) (r : Reading) : Prop where
  last : dev.log.getLast? = some r
  frame : r.frame + 1 = dev.sent
  mem_responses : r.response ∈ dev.responses
  decodes : decode P r.response.raw = .ok res

variable {P : Primitives}

/-- **A command that returns** has read the response it returns, and the response is its own if and
only if none was left behind. -/
theorem command_returned {transfers : ℕ → Transfer} {s s' : DyUd200 (Endpoint δ)}
    (h : s.dev.Paired transfers) {cmd res : Bytes} {check : Bool}
    (hcommand : s.command P cmd check = (.ok res, s')) :
    ∃ r, s'.dev.Returned P res r ∧ (r.Own ↔ Settled transfers r.frame) := by
  obtain ⟨frame, raw, hx, hdecode⟩ := DyUd200.exchange_of_command_eq_ok hcommand
  obtain ⟨e, dev, hx', -⟩ | ⟨response, hx', hcounted⟩ := exchange_cases h.toCounted frame
  · rw [hx'] at hx
    cases hx
  · rw [hx'] at hx
    obtain ⟨hraw, hdev⟩ := Prod.mk.inj hx
    obtain rfl := Except.ok.inj hraw
    have hmem : ⟨s.dev.sent, response⟩ ∈ s'.dev.log := by
      rw [← hdev]
      exact List.mem_append_right _ (List.mem_singleton_self _)
    rw [hdev] at hcounted
    refine ⟨⟨s.dev.sent, response⟩, ⟨?_, ?_, hcounted.mem_responses _ hmem, hdecode⟩, ?_⟩
    · rw [← hdev]
      exact List.getLast?_concat
    · rw [← hdev]
      rfl
    · have htransfers : s'.dev.transfers = transfers := by
        rw [← hdev]
        exact h.transfers_eq
      rw [← htransfers]
      exact hcounted.own_iff _ hmem

/-- **Pairing.** In every run of calls, a response that was read is the answer to the frame just
written if and only if no transfer before it left its response behind; and what a command or a
transmission returns is in such a response. -/
theorem own_iff_settled {device : δ} {transfers : ℕ → Transfer} {calls : List Call}
    {s : DyUd200 (Endpoint δ)}
    (hrun : (tunerMachine P { device, transfers : Endpoint δ }).Run calls s) :
    (∀ r ∈ s.dev.log, r.Own ↔ Settled transfers r.frame) ∧
    (∀ cmd check res s', s.command P cmd check = (.ok res, s') →
      ∃ r, s'.dev.Returned P res r ∧ (r.Own ↔ Settled transfers r.frame)) ∧
    ∀ apdu retries payload s', s.bcasTransmit P apdu retries = (.ok payload, s') →
      ∃ r res, s'.dev.Returned P res r ∧ DyUd200.bcasPayload res = .ok (.ok payload) ∧
        (r.Own ↔ Settled transfers r.frame) := by
  have hpaired : s.dev.Paired transfers :=
    tunerMachine_keeps paired_exchange ⟨counted_initial device transfers, rfl⟩ hrun
  refine ⟨?_, ?_, ?_⟩
  · have hown := hpaired.own_iff
    rwa [hpaired.transfers_eq] at hown
  · intro cmd check res s' h
    exact command_returned hpaired h
  · intro apdu retries payload s' h
    obtain ⟨t, block, res, ht, hcommand, hpayload⟩ :=
      DyUd200.command_of_bcasTransmit_eq_ok paired_exchange hpaired h
    obtain ⟨r, hreturned, hown⟩ := command_returned ht hcommand
    exact ⟨r, res, hreturned, hpayload, hown⟩

end Endpoint

/-! ## A device that numbers its responses -/

/-- Response `n` has status 0 and carries the number `n`. -/
structure NumberingDevice where
  answered : ℕ
  deriving DecidableEq, Repr

def numbered (n : ℕ) : Bytes := [0, UInt8.ofNat n] ++ List.replicate 126 0

instance : Responder NumberingDevice where
  respond _ self := (numbered self.answered, ⟨self.answered + 1⟩)

/-- The device before the first command, when the transfers go like this. -/
def numberingEndpoint (transfers : ℕ → Transfer) : Endpoint NumberingDevice :=
  { device := ⟨0⟩, transfers }

namespace Endpoint

/-- The second frame is lost, and takes no response with it. -/
def secondLost (n : ℕ) : Transfer := if n = 1 then .lost ⟨"No such device"⟩ else .answered

/-- Three commands behind one another. -/
def threeCommands : DyUd200 (Endpoint NumberingDevice) :=
  [Call.command cmdBcasActivate true, .command cmdBcasActivate true,
    .command cmdBcasDeactivate true].foldl (fun s call ↦ call.perform .plain s)
    { dev := numberingEndpoint secondLost }

theorem own_of_secondLost :
    threeCommands.dev.log = [⟨0, ⟨0, numbered 0⟩⟩, ⟨2, ⟨2, numbered 1⟩⟩] ∧
      ∀ r ∈ threeCommands.dev.log, r.Own := by
  have hrun : (tunerMachine .plain (numberingEndpoint secondLost)).Run
    [.command cmdBcasActivate true, .command cmdBcasActivate true,
      .command cmdBcasDeactivate true] threeCommands := rfl
  have hsettled : ∀ n, Settled secondLost n := by
    intro n i _
    rw [secondLost]
    split <;> exact id
  exact ⟨by decide +kernel, fun r hr ↦ ((own_iff_settled hrun).1 r hr).mpr (hsettled r.frame)⟩

/-- The first command times out. -/
def timedOut : DyUd200 (Endpoint NumberingDevice) :=
  (Call.command cmdBcasActivate true).perform .plain
    { dev := numberingEndpoint fun n ↦
        if n = 0 then .timeout ⟨"Operation timed out"⟩ else .answered }

/-- **A late answer** is returned by the next command: the first command times out, and the second
returns response 0 although response 1 answers it. -/
theorem late_response_returned :
    (∃ transfers, (tunerMachine .plain (numberingEndpoint transfers)).Run
        [.command cmdBcasActivate true] timedOut) ∧
      ∃ s' r, timedOut.command .plain cmdBcasActivate true = (.ok (numbered 0), s') ∧
        s'.dev.Returned .plain (numbered 0) r ∧ ¬ r.Own ∧
        s'.dev.responses = [⟨0, numbered 0⟩, ⟨1, numbered 1⟩] ∧ numbered 0 ≠ numbered 1 := by
  have hres : (timedOut.command .plain cmdBcasActivate true).1 = .ok (numbered 0) := by
    decide +kernel
  refine ⟨⟨_, rfl⟩, (timedOut.command .plain cmdBcasActivate true).2, ⟨1, ⟨0, numbered 0⟩⟩, ?_,
    ⟨?_, ?_, ?_, ?_⟩, ?_, ?_, ?_⟩
  · rw [← hres]
  all_goals decide +kernel

end Endpoint

end Recdyud
