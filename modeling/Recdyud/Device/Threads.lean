import Recdyud.Device.Pairing
import Recdyud.Lib.CriticalSection

/-!
# Commands from several threads

`command` may be called from any thread. It encodes the command, takes `_io_lock` for the write and
the read, and decodes the response when it has given the lock back. Here the write and the read are
two atomic steps, threads interleave between all of them, and the codec is shared outside the lock.

## The lock is enough for ordinary commands

An ordinary command leaves the codec alone, so it does not matter that frames are encoded in another
order than they are written in. Whatever the interleaving, the device and what every thread gets
back are what the same commands give when one thread makes them one after the other
(`commands_linearizable`), so what is proved of a tuner whose calls do not overlap holds of one that
is shared. A command that sets a new key is another matter: `initialize` runs before anybody else
has the tuner.
-/

namespace Recdyud

open CommandCodec

/-- A call of `command` behind `encode`. -/
structure CommandCall where
  cmd : Bytes
  check : Bool
  frame : Bytes
  deriving DecidableEq

/-- What is left to do under the lock. -/
inductive CommandStep where
  | write (frame : Bytes)
  | read
  deriving DecidableEq

section Threads

variable (P : Primitives) {ι ω : Type} [Usb ω]

/-- The block under `with self._io_lock`. -/
def ioSection (ω : Type) [Usb ω] : Section ω CommandCall CommandStep (Except UsbError Bytes) where
  enter call := .write call.frame
  step
    | .write frame, dev =>
      match Usb.write frame dev with
      | (.error e, dev) => (.inr (.error e), dev)
      | (.ok (), dev) => (.inl .read, dev)
    | .read, dev => (.inr (Usb.read dev).1, (Usb.read dev).2)

/-- What `command` makes of the outcome of the transfers. -/
def CommandCall.result (call : CommandCall) : Except UsbError Bytes → Except Raised Bytes
  | .error e => .error (commandError call.cmd s!" failed: {e.message}")
  | .ok raw => DyUd200.checkResponse P call.cmd call.check raw

/-- A tuner with the threads that call its methods. -/
structure SharedTuner (ι ω : Type) where
  codec : CommandCodec
  threads : Threads ι ω CommandCall CommandStep (Except UsbError Bytes)

/-- A step of a thread. -/
inductive CommandAction (ι : Type) where
  /-- The call begins: the command is encoded. -/
  | call (t : ι) (cmd : Bytes) (check : Bool)
  | acquire (t : ι)
  /-- The write or the read. -/
  | transfer (t : ι)
  /-- The lock is given back; what is left of the call touches nothing that is shared. -/
  | release (t : ι)

namespace SharedTuner

variable [DecidableEq ι]

/-- A step of one of the threads; a `ValueError` of `encode` ends the call in front of the lock. -/
def act (s : SharedTuner ι ω) : CommandAction ι → Option (SharedTuner ι ω)
  | .call t cmd check =>
    match s.codec.encode P cmd with
    | (.error _, codec) => some { s with codec }
    | (.ok frame, codec) =>
      (s.threads.act (ioSection ω) (.request t ⟨cmd, check, frame⟩)).map fun threads ↦
        { codec, threads }
  | .acquire t => (s.threads.act (ioSection ω) (.acquire t)).map fun threads ↦ { s with threads }
  | .transfer t => (s.threads.act (ioSection ω) (.step t)).map fun threads ↦ { s with threads }
  | .release t => (s.threads.act (ioSection ω) (.release t)).map fun threads ↦ { s with threads }

end SharedTuner

/-- Threads that call `command` on one tuner. -/
def commandMachine (ι : Type) [DecidableEq ι] (codec : CommandCodec) (dev : ω) :
    Machine (SharedTuner ι ω) (CommandAction ι) where
  init := ⟨codec, { object := dev }⟩
  step s a := s.act P a

/-- The commands one after the other, from one thread. -/
def DyUd200.commands (self : DyUd200 ω) :
    List (Bytes × Bool) → List (Except Raised Bytes) × DyUd200 ω
  | [] => ([], self)
  | (cmd, check) :: calls =>
    let (result, self) := self.command P cmd check
    let (results, self) := self.commands calls
    (result :: results, self)

/-! ## One after the other -/

variable {P} {dev : ω} {codec : CommandCodec}

/-- The block under the lock is the exchange. -/
theorem exchange_of_returns {call : CommandCall} {dev' : ω} {r : Except UsbError Bytes}
    (h : (ioSection ω).Returns call dev r dev') :
    DyUd200.exchange call.frame dev = (r, dev') := by
  obtain ⟨k, dev₁, hreaches, hlast⟩ := h
  -- a section comes to the read behind a write that went well, and nowhere else
  have hplace : (k = .write call.frame ∧ dev₁ = dev)
      ∨ (k = .read ∧ Usb.write call.frame dev = (.ok (), dev₁)) := by
    refine hreaches.keeps (I := fun k dev₁ ↦ (k = .write call.frame ∧ dev₁ = dev)
      ∨ (k = .read ∧ Usb.write call.frame dev = (.ok (), dev₁))) ?_ (.inl ⟨rfl, rfl⟩)
    rintro k dev₁ k' dev₂ (⟨rfl, rfl⟩ | ⟨rfl, -⟩) hstep
    · rcases hwrite : Usb.write call.frame dev₁ with ⟨_ | _, dev₃⟩
      · simp [ioSection, hwrite] at hstep
      · simp only [ioSection, hwrite, Prod.mk.injEq, Sum.inl.injEq] at hstep
        obtain ⟨rfl, rfl⟩ := hstep
        exact .inr ⟨rfl, rfl⟩
    · simp [ioSection] at hstep
  rcases hplace with ⟨rfl, rfl⟩ | ⟨rfl, hwrite⟩
  · rcases hwrite : Usb.write call.frame dev₁ with ⟨_ | _, dev₃⟩
    · simp only [ioSection, hwrite, Prod.mk.injEq, Sum.inr.injEq] at hlast
      obtain ⟨rfl, rfl⟩ := hlast
      rw [DyUd200.exchange, hwrite]
    · simp [ioSection, hwrite] at hlast
  · simp only [ioSection, Prod.mk.injEq, Sum.inr.injEq] at hlast
    obtain ⟨rfl, rfl⟩ := hlast
    rw [DyUd200.exchange, hwrite]

/-- A command whose frame was encoded already. -/
theorem command_of_returns {self : DyUd200 ω} {call : CommandCall} {dev' : ω}
    {r : Except UsbError Bytes}
    (hencode : self.codec.encode P call.cmd = (.ok call.frame, self.codec))
    (h : (ioSection ω).Returns call self.dev r dev') :
    self.command P call.cmd call.check = (call.result P r, { self with dev := dev' }) := by
  have hexchange := exchange_of_returns h
  cases r with
  | error e => exact DyUd200.command_of_exchange_error hencode hexchange
  | ok raw => exact DyUd200.command_of_exchange_ok hencode hexchange

theorem DyUd200.commands_append (self : DyUd200 ω) (calls calls' : List (Bytes × Bool)) :
    self.commands P (calls ++ calls') =
      ((self.commands P calls).1 ++ ((self.commands P calls).2.commands P calls').1,
        ((self.commands P calls).2.commands P calls').2) := by
  induction calls generalizing self with
  | nil => rfl
  | cons call calls ih =>
    simp only [List.cons_append, commands, ih]

/-- The calls in a log, and what they gave. -/
def callsOf (log : List (ι × CommandCall × Except UsbError Bytes)) :
    List (Bytes × Bool) :=
  log.map fun x ↦ (x.2.1.cmd, x.2.1.check)

variable (P) in
def resultsOf (log : List (ι × CommandCall × Except UsbError Bytes)) :
    List (Except Raised Bytes) :=
  log.map fun x ↦ x.2.1.result P x.2.2

variable {log : List (ι × CommandCall × Except UsbError Bytes)}

/-- Sections one after the other are commands one after the other. -/
theorem commands_of_serial {base : ω} (h : (ioSection ω).Serial dev log base)
    (hencode : ∀ x ∈ log, codec.encode P x.2.1.cmd = (.ok x.2.1.frame, codec)) :
    DyUd200.commands P { dev, codec } (callsOf log) =
      (resultsOf P log, { dev := base, codec }) := by
  induction h with
  | nil => rfl
  | @concat s₁ s₂ log t call r _ hreturns ih =>
    obtain ⟨hfront, hlast⟩ := List.forall_mem_append.mp hencode
    have hcommand : DyUd200.command P { dev := s₁, codec } call.cmd call.check
        = (call.result P r, { dev := s₂, codec }) :=
      command_of_returns (hlast _ List.mem_cons_self) hreturns
    rw [callsOf, List.map_append, DyUd200.commands_append, ← callsOf, ih hfront]
    simp only [List.map_cons, List.map_nil, DyUd200.commands, hcommand, resultsOf,
      List.map_append]

/-! ## The runs -/

variable [DecidableEq ι]

/-- Every command that a thread has called is an ordinary one. -/
def OrdinaryCalls (actions : List (CommandAction ι)) : Prop :=
  ∀ t cmd check, .call t cmd check ∈ actions → Ordinary cmd

/-- The threads have done nothing but take the lock, transfer and give it back; and while the
commands are ordinary, their frames were encoded by the codec the tuner still has. -/
def ThreadsRun (P : Primitives) (codec : CommandCodec) (dev : ω) (actions : List (CommandAction ι))
    (s : SharedTuner ι ω) : Prop :=
  ∃ threadActions, (threadMachine (ioSection ω) dev).Run threadActions s.threads ∧
    (OrdinaryCalls actions → s.codec = codec ∧ ∀ t call, .request t call ∈ threadActions →
      codec.encode P call.cmd = (.ok call.frame, codec))

theorem ordinary_plainFrame {cmd : Bytes} (h : Ordinary cmd) : Ordinary (plainFrame P cmd) := by
  cases cmd with
  | nil => exact absurd rfl h
  | cons b cmd => exact h

/-- An ordinary command leaves the codec alone. -/
theorem snd_encode_of_ordinary {cmd : Bytes} (h : Ordinary cmd) :
    (codec.encode P cmd).2 = codec := by
  rcases Nat.lt_or_ge commandSize cmd.length with hlong | hle
  · rw [encode_of_long hlong]
  · rw [encode_of_ordinary hle (ordinary_plainFrame h)]

namespace ThreadsRun

variable {actions : List (CommandAction ι)} {s s' : SharedTuner ι ω}

/-- A step of the threads behind a call. -/
theorem threads (h : ThreadsRun P codec dev actions s) {action : CommandAction ι}
    {threadAction : ThreadAction ι CommandCall} {threads : Threads ι ω CommandCall CommandStep _}
    (hstep : s.threads.act (ioSection ω) threadAction = some threads) {codec' : CommandCodec}
    (hcodec : OrdinaryCalls (actions ++ [action]) → s.codec = codec → codec' = codec)
    (hcall : ∀ t call, threadAction = .request t call → OrdinaryCalls (actions ++ [action]) →
      s.codec = codec → codec.encode P call.cmd = (.ok call.frame, codec)) :
    ThreadsRun P codec dev (actions ++ [action]) ⟨codec', threads⟩ := by
  obtain ⟨threadActions, hrun, hencoded⟩ := h
  refine ⟨threadActions ++ [threadAction], Machine.run_concat.mpr ⟨_, hrun, hstep⟩,
    fun hord ↦ ?_⟩
  obtain ⟨hsame, hrequests⟩ :=
    hencoded fun t cmd check hmem ↦ hord t cmd check (List.mem_append_left _ hmem)
  refine ⟨hcodec hord hsame, fun t call hmem ↦ ?_⟩
  rcases List.mem_append.mp hmem with hmem | hmem
  · exact hrequests t call hmem
  · exact hcall t call (List.mem_singleton.mp hmem).symm hord hsame

/-- **A step of any thread.** -/
theorem act (h : ThreadsRun P codec dev actions s) {action : CommandAction ι}
    (hs : s.act P action = some s') : ThreadsRun P codec dev (actions ++ [action]) s' := by
  cases action with
  | call t cmd check =>
    have hsame : OrdinaryCalls (actions ++ [.call t cmd check]) →
        (s.codec.encode P cmd).2 = s.codec := fun hord ↦
      snd_encode_of_ordinary (hord t cmd check (List.mem_append_right _ List.mem_cons_self))
    rw [SharedTuner.act] at hs
    rcases hencode : s.codec.encode P cmd with ⟨_ | frame, codec'⟩
    · rw [hencode] at hs hsame
      obtain rfl := Option.some.inj hs
      obtain ⟨threadActions, hrun, hencoded⟩ := h
      refine ⟨threadActions, hrun, fun hord ↦ ?_⟩
      obtain ⟨hcodec, hrequests⟩ :=
        hencoded fun t cmd check hmem ↦ hord t cmd check (List.mem_append_left _ hmem)
      exact ⟨(hsame hord).trans hcodec, hrequests⟩
    · rw [hencode] at hs hsame
      obtain ⟨threads, hstep, rfl⟩ := Option.map_eq_some_iff.mp hs
      refine h.threads hstep (fun hord hcodec ↦ (hsame hord).trans hcodec) ?_
      rintro t call hcall hord rfl
      cases hcall
      exact hencode.trans (Prod.ext rfl (hsame hord))
  | acquire t =>
    obtain ⟨threads, hstep, rfl⟩ := Option.map_eq_some_iff.mp hs
    exact h.threads hstep (fun _ hcodec ↦ hcodec) nofun
  | transfer t =>
    obtain ⟨threads, hstep, rfl⟩ := Option.map_eq_some_iff.mp hs
    exact h.threads hstep (fun _ hcodec ↦ hcodec) nofun
  | release t =>
    obtain ⟨threads, hstep, rfl⟩ := Option.map_eq_some_iff.mp hs
    exact h.threads hstep (fun _ hcodec ↦ hcodec) nofun

end ThreadsRun

variable {actions : List (CommandAction ι)} {s : SharedTuner ι ω}

theorem threadsRun_of_run (h : (commandMachine P ι codec dev).Run actions s) :
    ThreadsRun P codec dev actions s := by
  refine Machine.Run.induction (I := fun actions s ↦ ThreadsRun P codec dev actions s) ?_ ?_ h
  · exact ⟨[], rfl, fun _ ↦ ⟨rfl, nofun⟩⟩
  · exact fun _ _ _ _ _ hthreads hs ↦ hthreads.act hs

/-- A step leaves the log as it is, or puts a section behind it. -/
theorem log_prefix_sharedAct {s' : SharedTuner ι ω} {action : CommandAction ι}
    (hs : s.act P action = some s') : s.threads.log <+: s'.threads.log := by
  cases action with
  | call t cmd check =>
    rw [SharedTuner.act] at hs
    rcases hencode : s.codec.encode P cmd with ⟨_ | frame, codec'⟩ <;> rw [hencode] at hs
    · obtain rfl := Option.some.inj hs
      exact List.prefix_rfl
    · obtain ⟨threads, hstep, rfl⟩ := Option.map_eq_some_iff.mp hs
      exact log_prefix_act hstep
  | acquire t =>
    obtain ⟨threads, hstep, rfl⟩ := Option.map_eq_some_iff.mp hs
    exact log_prefix_act hstep
  | transfer t =>
    obtain ⟨threads, hstep, rfl⟩ := Option.map_eq_some_iff.mp hs
    exact log_prefix_act hstep
  | release t =>
    obtain ⟨threads, hstep, rfl⟩ := Option.map_eq_some_iff.mp hs
    exact log_prefix_act hstep

/-- What a thread has got back is in the log. -/
theorem returned_prefix (h : (commandMachine P ι codec dev).Run actions s) (t : ι) :
    s.threads.returned t <+: logOf t s.threads.log := by
  obtain ⟨threadActions, hrun, -⟩ := threadsRun_of_run h
  obtain ⟨base, hguarded⟩ := guarded_of_run hrun
  exact ⟨_, hguarded.returned t⟩

/-- **Concurrent commands** give what the same commands give one after the other: the sections in
the log, made by one thread, lead to the same results and the same device, and a thread has got back
its part of the log. A command that had returned stands in front of those not yet called. -/
theorem commands_linearizable (h : (commandMachine P ι codec dev).Run actions s)
    (hord : OrdinaryCalls actions) (hlock : s.threads.lock = none) :
    DyUd200.commands P { dev, codec } (callsOf s.threads.log)
        = (resultsOf P s.threads.log, { dev := s.threads.object, codec := s.codec }) ∧
      (∀ t, s.threads.returned t = logOf t s.threads.log) ∧
      ∀ before after s₀, before ++ after = actions →
        (commandMachine P ι codec dev).Run before s₀ →
        s₀.threads.log <+: s.threads.log ∧
          ∀ t, s₀.threads.returned t <+: logOf t s₀.threads.log := by
  obtain ⟨threadActions, hrun, hencoded⟩ := threadsRun_of_run h
  obtain ⟨hcodec, hrequests⟩ := hencoded hord
  obtain ⟨base, hguarded⟩ := guarded_of_run hrun
  have hencode : ∀ x ∈ s.threads.log, codec.encode P x.2.1.cmd = (.ok x.2.1.frame, codec) :=
    forall_log_of_run (Q := fun _ call ↦ codec.encode P call.cmd = (.ok call.frame, codec)) hrun
      hrequests
  refine ⟨?_, fun t ↦ ?_, ?_⟩
  · rw [commands_of_serial hguarded.serial hencode, hguarded.free hlock, hcodec]
  · have hpending : (s.threads.phase t).pending = [] :=
      (hguarded.standing t).pending_of_not_held (by simp [hlock])
    rw [← hguarded.returned t, hpending, List.append_nil]
  · rintro before after s₀ rfl hbefore
    refine ⟨?_, returned_prefix hbefore⟩
    refine Machine.prefix_of_run (f := fun s ↦ s.threads.log) ?_ hbefore h
    exact fun _ _ _ hs ↦ log_prefix_sharedAct hs

/-- Two threads; the one that encodes its command first is the second to get the lock. -/
def crossed : List (CommandAction Bool) :=
  [.call false cmdBcasActivate true, .call true cmdBcasDeactivate true, .acquire true,
    .transfer true, .transfer true, .release true, .acquire false, .transfer false,
    .transfer false, .release false]

theorem commands_linearizable_crossed :
    ∃ s, (commandMachine .plain Bool {} (numberingEndpoint fun _ ↦ .answered)).Run crossed s ∧
      DyUd200.commands .plain { dev := numberingEndpoint fun _ ↦ .answered }
          [(cmdBcasDeactivate, true), (cmdBcasActivate, true)]
        = ([.ok (numbered 0), .ok (numbered 1)],
          { dev := s.threads.object, codec := s.codec }) := by
  obtain ⟨s, hrun, hlock, hcalls, hresults⟩ : ∃ s,
      (commandMachine .plain Bool {} (numberingEndpoint fun _ ↦ .answered)).Run crossed s ∧
      s.threads.lock = none ∧
      callsOf s.threads.log = [(cmdBcasDeactivate, true), (cmdBcasActivate, true)] ∧
      resultsOf .plain s.threads.log = [.ok (numbered 0), .ok (numbered 1)] :=
    ⟨_, rfl, rfl, rfl, by decide +kernel⟩
  have hord : OrdinaryCalls crossed := by
    intro t cmd check hmem
    simp only [crossed, List.mem_cons, CommandAction.call.injEq, reduceCtorEq,
      List.not_mem_nil, or_false] at hmem
    rcases hmem with ⟨-, rfl, -⟩ | ⟨-, rfl, -⟩ <;> decide
  have hlinear := (commands_linearizable hrun hord hlock).1
  rw [hcalls, hresults] at hlinear
  exact ⟨s, hrun, hlinear⟩

/-- What every exchange keeps holds of a tuner that is shared, whatever the commands. -/
theorem SharedTuner.keeps {I : ω → Prop}
    (hI : ∀ frame dev, I dev → I (DyUd200.exchange frame dev).2)
    (h : (commandMachine P ι codec dev).Run actions s) (hdev : I dev)
    (hlock : s.threads.lock = none) : I s.threads.object := by
  obtain ⟨threadActions, hrun, -⟩ := threadsRun_of_run h
  obtain ⟨base, hguarded⟩ := guarded_of_run hrun
  rw [hguarded.free hlock]
  refine hguarded.serial.keeps (fun call dev r dev' hdev hreturns ↦ ?_) hdev
  have hnext := hI call.frame dev hdev
  rwa [exchange_of_returns hreturns] at hnext

end Threads

namespace Endpoint

variable {ι δ : Type} [DecidableEq ι] [Responder δ] {P : Primitives} {codec : CommandCodec}

/-- **The lock keeps the responses apart**: however the threads interleave and whatever they send, a
response is read for its own frame unless a transfer has left its response behind. -/
theorem own_iff_settled_of_shared {device : δ} {transfers : ℕ → Transfer}
    {actions : List (CommandAction ι)} {s : SharedTuner ι (Endpoint δ)}
    (h : (commandMachine P ι codec { device, transfers : Endpoint δ }).Run actions s)
    (hlock : s.threads.lock = none) :
    ∀ r ∈ s.threads.object.log, r.Own ↔ Settled transfers r.frame := by
  have hpaired : s.threads.object.Paired transfers :=
    SharedTuner.keeps paired_exchange h ⟨counted_initial device transfers, rfl⟩ hlock
  have hown := hpaired.own_iff
  rwa [hpaired.transfers_eq] at hown

theorem own_of_crossed :
    ∃ s, (commandMachine .plain Bool {} (numberingEndpoint fun _ ↦ .answered)).Run crossed s ∧
      s.threads.object.log.length = 2 ∧ ∀ r ∈ s.threads.object.log, r.Own := by
  obtain ⟨s, hrun, hlock, hlength⟩ : ∃ s,
      (commandMachine .plain Bool {} (numberingEndpoint fun _ ↦ .answered)).Run crossed s ∧
      s.threads.lock = none ∧ s.threads.object.log.length = 2 :=
    ⟨_, rfl, rfl, rfl⟩
  exact ⟨s, hrun, hlength, fun r hr ↦
    (own_iff_settled_of_shared hrun hlock r hr).mpr fun _ _ hleaves ↦ hleaves⟩

end Endpoint

end Recdyud
