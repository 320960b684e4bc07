import Recdyud.Device.Commands
import Recdyud.Protocol.Session

/-!
# The T=1 sequence bit

The card accepts an I-block whose send-sequence bit is the one it expects and then expects the other
one; it expects 0 after activation. `bcas_transmit` flips its own bit before every attempt, whether
or not the block can be built and reaches the card.

`CardChannel` is the device of `Recdyud.Protocol.Session` with such a card behind it: frames are
decrypted, and what the card sees is what `t1_block` put into the command. `events` is the history
of the card, with an entry for every attempt that did not reach it.

## When host and card agree

`Agreed` is the invariant: the bit of the host is the one the card expects exactly when an even
number of attempts in a row has missed the card. A block that reaches the card restores agreement,
accepted or not: after one that was refused, the flip has brought the host to what the card still
expects. So a block carries the right bit if and only if the attempts missed since the last block or
activation are even in number.
-/

namespace Recdyud

open CommandCodec

/-- What happens to the card. -/
inductive CardEvent where
  | activated
  /-- An attempt flipped the bit of the host and did not reach the card. -/
  | missed
  /-- An I-block arrived, with this sequence bit, when that one was expected. -/
  | block (carried expected : Bool)
  deriving DecidableEq, Repr

/-- The card, as the T=1 protocol sees it. -/
structure Card where
  expected : Bool := false
  events : List CardEvent := []
  deriving DecidableEq, Repr

namespace Card

def miss (self : Card) : Card := { self with events := self.events ++ [.missed] }

def activate (self : Card) : Card := { expected := false, events := self.events ++ [.activated] }

/-- An I-block arrives. -/
def block (self : Card) (carried : Bool) : Card where
  expected := if carried = self.expected then !self.expected else self.expected
  events := self.events ++ [.block carried self.expected]

/-- A command arrives at the reader: `31` carries a block, whose PCB is byte 10, and `41` activates
the card. -/
def receive (self : Card) (command : Bytes) : Card :=
  if command.take 3 = [0x1f, 0xf0, 0xf0] then
    if command[6]? = some 0x31 then self.block (command[10]?.any fun pcb ↦ pcb &&& 0x40 ≠ 0)
    else if command[6]? = some 0x41 then self.activate
    else self
  else
    self

end Card

/-- How an exchange with the card goes. -/
inductive CardTransfer where
  /-- The request does not arrive. -/
  | lost (e : UsbError)
  /-- The request arrives, the reply does not. -/
  | failed (e : UsbError)
  /-- The request arrives and these bytes are read. -/
  | replied (raw : Bytes)
  deriving DecidableEq, Repr

/-- The device with the card in it; it computes with the primitives `P`. -/
structure CardChannel (P : Primitives) where
  transfers : ℕ → CardTransfer
  /-- how many frames were written -/
  sent : ℕ := 0
  reader : ReferenceDevice := {}
  card : Card := {}

namespace CardChannel

variable {P : Primitives}

def miss (self : CardChannel P) : CardChannel P := { self with card := self.card.miss }

/-- A frame arrives and is decrypted. -/
def arrive (self : CardChannel P) (frame : Bytes) : CardChannel P :=
  match self.reader.receive P frame with
  | (none, reader) => { self with reader }
  | (some command, reader) => { self with reader, card := self.card.receive command }

def write (frame : Bytes) (self : CardChannel P) : Except UsbError Unit × CardChannel P :=
  let next := { self with sent := self.sent + 1 }
  match self.transfers self.sent with
  | .lost e => (.error e, next.miss)
  | .failed _ => (.ok (), next.arrive frame)
  | .replied _ => (.ok (), next.arrive frame)

/-- The read of the transfer under way. -/
def read (self : CardChannel P) : Except UsbError Bytes × CardChannel P :=
  match self.transfers (self.sent - 1) with
  | .lost e => (.error e, self)
  | .failed e => (.error e, self)
  | .replied raw => (.ok raw, self)

instance : Usb (CardChannel P) where
  write := write
  read := read

@[simp] theorem sent_arrive (self : CardChannel P) (frame : Bytes) :
    (self.arrive frame).sent = self.sent := by
  rw [arrive]
  split <;> rfl

@[simp] theorem transfers_arrive (self : CardChannel P) (frame : Bytes) :
    (self.arrive frame).transfers = self.transfers := by
  rw [arrive]
  split <;> rfl

theorem exchange_eq (frame : Bytes) (self : CardChannel P) :
    DyUd200.exchange frame self =
      let next := { self with sent := self.sent + 1 }
      match self.transfers self.sent with
      | .lost e => (.error e, next.miss)
      | .failed e => (.error e, next.arrive frame)
      | .replied raw => (.ok raw, next.arrive frame) := by
  rcases ht : self.transfers self.sent <;>
    simp only [DyUd200.exchange, Usb.write, Usb.read, write, read, sent_arrive, transfers_arrive,
      Nat.add_sub_cancel, ht]

/-- The channel after the transfer of a command. -/
def transfer (self : CardChannel P) (cmd : Bytes) : CardChannel P :=
  let next := { self with sent := self.sent + 1 }
  match self.transfers self.sent with
  | .lost _ => next.miss
  | .failed _ => { next with card := next.card.receive (padded cmd) }
  | .replied _ => { next with card := next.card.receive (padded cmd) }

end CardChannel

/-! ## One command -/

section Transfer

variable {P : Primitives} {s s' : DyUd200 (CardChannel P)} {cmd res : Bytes} {check : Bool}

/-- Host and device hold the same key. -/
def SameKey (s : DyUd200 (CardChannel P)) : Prop :=
  s.dev.reader.sessionKey = s.codec.commandKey

/-- What `encode` makes of an ordinary command is what the device recovers it from. -/
theorem arrive_encoded (hkey : SameKey s) (hlen : cmd.length ≤ commandSize)
    (hord : Ordinary (plainFrame P cmd)) (dev : CardChannel P) (hdev : dev.reader = s.dev.reader) :
    ∃ frame, s.codec.encode P cmd = (.ok frame, s.codec) ∧
      dev.arrive frame = { dev with card := dev.card.receive (padded cmd) } := by
  have hreceive := dev.reader.receive_window P (length_plainFrame P hlen)
    (List.take_left' (length_padded hlen)) (List.drop_left' (length_padded hlen))
  rw [ReferenceDevice.keyFor_eq, if_pos hord, if_pos hord, hdev, hkey] at hreceive
  refine ⟨window (P.aes s.codec.commandKey.toList) (plainFrame P cmd),
    encode_of_ordinary hlen hord, ?_⟩
  rw [CardChannel.arrive, hdev, hreceive, ← hdev]

/-- **A command** that sets no key changes the channel by one transfer, and nothing else. -/
theorem command_snd_eq (hkey : SameKey s) (hlen : cmd.length ≤ commandSize)
    (hord : Ordinary (plainFrame P cmd)) :
    (s.command P cmd check).2 = { s with dev := s.dev.transfer cmd } := by
  obtain ⟨frame, hencode, harrive⟩ :=
    arrive_encoded hkey hlen hord { s.dev with sent := s.dev.sent + 1 } rfl
  have hx := CardChannel.exchange_eq frame s.dev
  simp only [harrive] at hx
  rw [CardChannel.transfer]
  rcases ht : s.dev.transfers s.dev.sent with e | e | raw <;> rw [ht] at hx
  · rw [DyUd200.command_of_exchange_error hencode hx]
  · rw [DyUd200.command_of_exchange_error hencode hx]
  · rw [DyUd200.command_of_exchange_ok hencode hx]

/-- A command that returns has reached the reader. -/
theorem transfer_of_command_eq_ok (h : s.command P cmd check = (.ok res, s')) :
    ∃ raw, s.dev.transfers s.dev.sent = .replied raw := by
  obtain ⟨frame, raw, hx, -⟩ := DyUd200.exchange_of_command_eq_ok h
  rw [CardChannel.exchange_eq] at hx
  rcases ht : s.dev.transfers s.dev.sent with e | e | raw'
  · rw [ht] at hx
    cases hx
  · rw [ht] at hx
    cases hx
  · exact ⟨raw', rfl⟩

theorem eq_of_command_eq_ok (hkey : SameKey s) (hlen : cmd.length ≤ commandSize)
    (hord : Ordinary (plainFrame P cmd)) (h : s.command P cmd check = (.ok res, s')) :
    s' = { s with
      dev := { s.dev with sent := s.dev.sent + 1, card := s.dev.card.receive (padded cmd) } } := by
  obtain ⟨raw, ht⟩ := transfer_of_command_eq_ok h
  have hsnd : (s.command P cmd check).2 = _ := command_snd_eq hkey hlen hord
  rw [h, CardChannel.transfer, ht] at hsnd
  exact hsnd

end Transfer

/-! ## What the card sees -/

theorem receive_deactivate (card : Card) : card.receive (padded cmdBcasDeactivate) = card := rfl

theorem receive_activate (card : Card) :
    card.receive (padded cmdBcasActivate) = card.activate := rfl

/-- The command around a block is ordinary, fits into a frame and gives the card its PCB. -/
theorem t1Block_spec {apdu block : Bytes} {pcb : UInt8} (h : t1Block apdu pcb = .ok block) :
    block.length ≤ commandSize ∧ (∀ P, Ordinary (plainFrame P block)) ∧
      ∀ card : Card, card.receive (padded block) = card.block (pcb &&& 0x40 ≠ 0) := by
  rw [t1Block] at h
  split at h
  · cases h
  rename_i hlen
  obtain rfl := Except.ok.inj h
  refine ⟨?_, fun P ↦ ?_, fun card ↦ ?_⟩
  · simp only [List.length_append, List.length_cons, List.length_nil, length_toBytes, commandSize]
    omega
  · show (0x1f : UInt8) &&& 0x10 ≠ 0
    decide
  · rfl

/-! ## Agreement -/

/-- The attempts missed since the last block or activation. -/
def misses (events : List CardEvent) : ℕ :=
  events.foldl (fun n e ↦ if e = .missed then n + 1 else 0) 0

@[simp] theorem misses_concat (events : List CardEvent) (e : CardEvent) :
    misses (events ++ [e]) = if e = .missed then misses events + 1 else 0 := by
  rw [misses, List.foldl_append]
  rfl

/-- The PCB of an I-block with this sequence bit. -/
def pcbOf (bit : Bool) : UInt8 := if bit then 0x40 else 0x00

theorem pcbOf_xor (bit : Bool) : pcbOf bit ^^^ 0x40 = pcbOf !bit := by cases bit <;> rfl

theorem decide_pcbOf (bit : Bool) : decide (pcbOf bit &&& 0x40 ≠ 0) = bit := by cases bit <;> rfl

/-- Every block came with the expected bit exactly when the attempts missed before it are even. -/
def BlocksAgree (events : List CardEvent) : Prop :=
  ∀ before carried expected after, events = before ++ .block carried expected :: after →
    (carried = expected ↔ Even (misses before))

theorem blocksAgree_concat {events : List CardEvent} {e : CardEvent} (h : BlocksAgree events)
    (he : ∀ carried expected, e = .block carried expected →
      (carried = expected ↔ Even (misses events))) : BlocksAgree (events ++ [e]) := by
  intro before carried expected after heq
  rcases List.eq_nil_or_concat after with rfl | ⟨after', e', rfl⟩
  · obtain ⟨rfl, hlast⟩ := List.append_inj' heq rfl
    exact he carried expected (List.singleton_injective hlast)
  · rw [List.concat_eq_append, ← List.cons_append, ← List.append_assoc] at heq
    exact h before carried expected after' (List.append_inj' heq rfl).1

/-- **Agreement** between the host, with this PCB, and the card. -/
structure CardAgrees (pcb : UInt8) (card : Card) : Prop where
  pcb_eq : ∃ bit, pcb = pcbOf bit ∧ (bit = card.expected ↔ Even (misses card.events))
  blocks : BlocksAgree card.events

namespace CardAgrees

variable {pcb : UInt8} {card : Card}

theorem initial : CardAgrees 0x00 {} where
  pcb_eq := ⟨false, rfl, iff_of_true rfl Even.zero⟩
  blocks := by
    rintro (_ | ⟨_, _⟩) _ _ _ h <;> cases h

/-- An attempt that does not reach the card changes the parity. -/
theorem miss (h : CardAgrees pcb card) : CardAgrees (pcb ^^^ 0x40) card.miss where
  pcb_eq := by
    obtain ⟨bit, rfl, hbit⟩ := h.pcb_eq
    refine ⟨!bit, pcbOf_xor bit, ?_⟩
    have hparity : misses card.miss.events = misses card.events + 1 := misses_concat _ _
    rw [hparity, Nat.even_add_one, ← hbit]
    exact Bool.not_eq_iff
  blocks := blocksAgree_concat h.blocks fun _ _ he ↦ CardEvent.noConfusion he

theorem activate (h : BlocksAgree card.events) : CardAgrees 0x00 card.activate where
  pcb_eq := by
    refine ⟨false, rfl, iff_of_true rfl ?_⟩
    have hmisses : misses card.activate.events = 0 := misses_concat _ _
    rw [hmisses]
    exact Even.zero
  blocks := blocksAgree_concat h fun _ _ he ↦ CardEvent.noConfusion he

/-- A block that reaches the card leaves host and card in agreement, accepted or not. -/
theorem block (h : CardAgrees pcb card) :
    CardAgrees (pcb ^^^ 0x40) (card.block (pcb &&& 0x40 ≠ 0)) where
  pcb_eq := by
    obtain ⟨bit, rfl, -⟩ := h.pcb_eq
    refine ⟨!bit, pcbOf_xor bit, ?_⟩
    rw [decide_pcbOf]
    have hmisses : misses (card.block bit).events = 0 := misses_concat _ _
    rw [hmisses]
    refine iff_of_true ?_ Even.zero
    -- accepted, both bits flip; refused, only that of the host does, and they meet
    show (!bit) = if bit = card.expected then !card.expected else card.expected
    split
    · rename_i heq
      rw [heq]
    · rename_i hne
      exact Bool.not_eq_iff.mpr hne
  blocks := by
    obtain ⟨bit, rfl, hbit⟩ := h.pcb_eq
    rw [decide_pcbOf]
    refine blocksAgree_concat h.blocks fun carried expected he ↦ ?_
    obtain ⟨rfl, rfl⟩ := CardEvent.block.inj he
    exact hbit

end CardAgrees

/-! ## Runs -/

/-- A call that goes to the card. -/
inductive CardCall where
  | bcasReset
  | bcasTransmit (apdu : Bytes) (retries : ℕ)
  deriving DecidableEq, Repr

section Runs

variable {P : Primitives}

/-- A call; a reset that raises ends the run. An APDU that is too long is an attempt the channel
does not see, so it is entered here. -/
def cardStep (s : DyUd200 (CardChannel P)) : CardCall → Option (DyUd200 (CardChannel P))
  | .bcasReset =>
    match s.bcasReset P with
    | (.ok _, s) => some s
    | (.error _, _) => none
  | .bcasTransmit apdu retries =>
    let s := (s.bcasTransmit P apdu retries).2
    some (if apdu.length > 115 then { s with dev := s.dev.miss } else s)

/-- The runs of calls on a new tuner with an activated card. -/
def cardMachine (P : Primitives) (transfers : ℕ → CardTransfer) :
    Machine (DyUd200 (CardChannel P)) CardCall where
  init := { dev := { transfers } }
  step := cardStep

/-- **The invariant** of a run. -/
structure Agreed (s : DyUd200 (CardChannel P)) : Prop where
  sameKey : SameKey s
  card : CardAgrees s.bcasPcb s.dev.card

variable {s s' : DyUd200 (CardChannel P)} {apdu : Bytes}

/-- **One attempt** keeps the agreement when the block can be built. -/
theorem agreed_bcasAttempt (h : Agreed s) (hlen : apdu.length ≤ 115) :
    Agreed (s.bcasAttempt P apdu).2 := by
  obtain ⟨block, hblock⟩ : ∃ block, t1Block apdu s.bcasPcb = .ok block := by
    rw [t1Block, if_neg (not_lt.mpr hlen)]
    exact ⟨_, rfl⟩
  obtain ⟨hfits, hord, hreceive⟩ := t1Block_spec hblock
  have hkey : SameKey s.flipPcb := h.sameKey
  have hnext : (s.flipPcb.command P block false).2 = _ := command_snd_eq hkey hfits (hord P)
  rw [DyUd200.bcasAttempt_snd, hblock]
  simp only
  rw [hnext, CardChannel.transfer, hreceive]
  show Agreed { s.flipPcb with dev := _ }
  rcases ht : s.flipPcb.dev.transfers s.flipPcb.dev.sent with e | e | raw
  · exact ⟨h.sameKey, h.card.miss⟩
  · exact ⟨h.sameKey, h.card.block⟩
  · exact ⟨h.sameKey, h.card.block⟩

/-- An APDU that is too long flips the bit once and reaches nothing. -/
theorem bcasTransmit_snd_of_lt (hlen : 115 < apdu.length) (retries : ℕ) :
    (s.bcasTransmit P apdu retries).2 = s.flipPcb := by
  have hblock : ∀ pcb, t1Block apdu pcb =
      .error ⟨s!"APDU too long for DY-UD200: {apdu.length} bytes (max 115)"⟩ := fun pcb ↦ by
    rw [t1Block, if_pos hlen]
  rw [DyUd200.bcasTransmit, DyUd200.bcasAttempts, DyUd200.bcasAttempt, hblock]

/-- **A reset** that succeeds makes host and card agree, whatever they were before. -/
theorem agreed_bcasReset {result : Unit} (h : Agreed s)
    (hreset : s.bcasReset P = (.ok result, s')) : Agreed s' := by
  have hord : (0x1f : UInt8) &&& 0x10 ≠ 0 := by decide
  have hdeactivate : Ordinary (plainFrame P cmdBcasDeactivate) := hord
  have hactivate : Ordinary (plainFrame P cmdBcasActivate) := hord
  rw [DyUd200.bcasReset] at hreset
  rcases hd : s.command P cmdBcasDeactivate false with ⟨_ | _, s₁⟩ <;> rw [hd] at hreset
  · cases hreset
  simp only at hreset
  rcases ha : s₁.command P cmdBcasActivate false with ⟨_ | _, s₂⟩ <;> rw [ha] at hreset
  · cases hreset
  obtain ⟨-, rfl⟩ := Prod.mk.inj hreset
  have hs₁ := eq_of_command_eq_ok h.sameKey (by decide) hdeactivate hd
  have hkey : SameKey s₁ := by
    rw [hs₁]
    exact h.sameKey
  have hs₂ := eq_of_command_eq_ok hkey (by decide) hactivate ha
  have hcard : s₁.dev.card = s.dev.card := by
    rw [hs₁, receive_deactivate]
  rw [hs₂, receive_activate, hcard]
  exact ⟨hkey, .activate h.card.blocks⟩

theorem agreed_cardStep {call : CardCall} (h : Agreed s) (hstep : cardStep s call = some s') :
    Agreed s' := by
  cases call with
  | bcasReset =>
    rw [cardStep] at hstep
    split at hstep
    · obtain rfl := Option.some.inj hstep
      exact agreed_bcasReset h ‹_›
    · cases hstep
  | bcasTransmit apdu retries =>
    obtain rfl := Option.some.inj hstep
    by_cases hlen : apdu.length > 115
    · -- one attempt, which the card misses
      rw [if_pos hlen, bcasTransmit_snd_of_lt hlen]
      exact ⟨h.sameKey, h.card.miss⟩
    · rw [if_neg hlen]
      exact DyUd200.bcasAttempts_keeps (fun _ hs ↦ agreed_bcasAttempt hs (not_lt.mp hlen)) _ _ h

theorem agreed_run {transfers : ℕ → CardTransfer} {calls : List CardCall}
    (hrun : (cardMachine P transfers).Run calls s) : Agreed s := by
  have hinit : Agreed (cardMachine P transfers).init := ⟨rfl, .initial⟩
  exact Machine.Run.induction (I := fun _ s ↦ Agreed s) hinit
    (fun _ _ _ _ _ h hstep ↦ agreed_cardStep h hstep) hrun

/-- **Sequence agreement.** In every run of resets and transmissions, a block that reaches the card
carries the bit the card expects if and only if an even number of attempts has missed the card since
the last block or activation. -/
theorem carried_eq_expected_iff {transfers : ℕ → CardTransfer} {calls : List CardCall}
    (hrun : (cardMachine P transfers).Run calls s) (before after : List CardEvent)
    (carried expected : Bool)
    (hevents : s.dev.card.events = before ++ .block carried expected :: after) :
    carried = expected ↔ Even (misses before) :=
  (agreed_run hrun).card.blocks before carried expected after hevents

/-- A reply with status 0 and an empty APDU. -/
def emptyReply : Bytes := [0, 6] ++ List.replicate 126 0

/-- The history of the card in a run, if no reset fails. -/
def history (transfers : ℕ → CardTransfer) (calls : List CardCall) : Option (List CardEvent) :=
  ((cardMachine .plain transfers).exec (cardMachine .plain transfers).init calls).map
    (·.dev.card.events)

theorem exists_run_of_history {transfers : ℕ → CardTransfer} {calls : List CardCall}
    {events : List CardEvent} (h : history transfers calls = some events) :
    ∃ s, (cardMachine .plain transfers).Run calls s ∧ s.dev.card.events = events :=
  Option.map_eq_some_iff.mp h

theorem carried_eq_expected_twoBlocks :
    ∃ s, (cardMachine .plain fun _ ↦ .replied emptyReply).Run
        [.bcasReset, .bcasTransmit [0x90, 0x30] 2, .bcasTransmit [0x90, 0x32] 2] s ∧
      s.dev.card.events = [.activated, .block false false, .block true true] ∧
      (true = true ↔ Even (misses [.activated, .block false false])) := by
  have hhistory : history (fun _ ↦ .replied emptyReply)
      [.bcasReset, .bcasTransmit [0x90, 0x30] 2, .bcasTransmit [0x90, 0x32] 2] =
        some [.activated, .block false false, .block true true] := by decide +kernel
  obtain ⟨s, hrun, hevents⟩ := exists_run_of_history hhistory
  exact ⟨s, hrun, hevents,
    carried_eq_expected_iff hrun [.activated, .block false false] [] true true hevents⟩

/-- **A lost request** leaves host and card out of step: the retry carries 1, and the card expects
0. -/
theorem lost_request_disagrees :
    ∃ s, (cardMachine .plain fun n ↦
          if n = 2 then .lost ⟨"Input/Output Error"⟩ else .replied emptyReply).Run
        [.bcasReset, .bcasTransmit [0x90, 0x30] 2] s ∧
      s.dev.card.events = [.activated, .missed, .block true false] :=
  exists_run_of_history (by decide +kernel)

end Runs

end Recdyud
