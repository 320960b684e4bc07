import Recdyud.Device.Lifecycle
import Recdyud.Device.Select

/-!
# Opening a device

`open_device` claims the matching devices one after the other until one is not busy, and initialises
that one. Claiming, initialising, closing and releasing each have handlers of their own; whatever
comes out of them, what is left claimed is the device that was returned, and nothing else
(`openDevice_claimsExactly`).
-/

namespace Recdyud

/-! ## Claiming -/

/-- `usb.core.USBError` with its `errno`. -/
structure ClaimError extends UsbError where
  errno : Option ℤ
  deriving DecidableEq, Repr

/-- What the calls on the kernel driver raise. -/
inductive DriverError where
  | notImplementedError
  | usbError (e : ClaimError)
  deriving DecidableEq, Repr

/-- A device with the calls that claim it. -/
class ClaimDevice (ω : Type) extends UsbDevice ω where
  /-- `is_kernel_driver_active(INTERFACE)` -/
  isKernelDriverActive : ω → Except DriverError Bool × ω
  /-- `detach_kernel_driver(INTERFACE)` -/
  detachKernelDriver : ω → Except DriverError Unit × ω
  /-- The `bConfigurationValue` of `get_active_configuration()`. -/
  getActiveConfiguration : ω → Except ClaimError ℕ × ω
  /-- `set_configuration(1)` -/
  setConfiguration : ω → Except ClaimError Unit × ω
  /-- `usb.util.claim_interface` -/
  claimInterface : ω → Except ClaimError Unit × ω

/-- An exception out of `_claim`, with its text. -/
inductive ClaimRaised where
  | deviceBusy (message : String)
  | deviceError (message : String)
  deriving DecidableEq, Repr

/-- `errno.EBUSY` -/
def eBusy : ℤ := 16

/-- `errno.EACCES` -/
def eAcces : ℤ := 13

namespace Tuner

variable {ω : Type} [ClaimDevice ω]

/-- `DyUd200(dev, location)` -/
def new (d : DeviceLocation × ω) : Tuner ω where
  channel := { dev := d.2 }
  location := String.ofList d.1.toText
  claimed := false

/-- The kernel driver is detached where there is one; errors are passed over. -/
def detachDriver (dev : ω) : ω :=
  match ClaimDevice.isKernelDriverActive dev with
  | (.ok true, dev) => (ClaimDevice.detachKernelDriver dev).2
  | (_, dev) => dev

/-- The `try` of `_claim`. -/
def takeInterface (dev : ω) : Except ClaimError Unit × ω :=
  let (cfg, dev) := ClaimDevice.getActiveConfiguration (detachDriver dev)
  let configured :=
    if cfg.toOption = some 1 then (.ok (), dev) else ClaimDevice.setConfiguration dev
  match configured with
  | (.error e, dev) => (.error e, dev)
  | (.ok (), dev) => ClaimDevice.claimInterface dev

/-- What `_claim` makes of a `USBError`. -/
def claimRaised (location : String) (e : ClaimError) : ClaimRaised :=
  if e.errno = some eBusy then
    .deviceBusy s!"DY-UD200 {location} is in use"
  else if e.errno = some eAcces then
    .deviceError s!"permission denied for DY-UD200 {location}; install the udev rule (see README)"
  else
    .deviceError s!"failed to open DY-UD200 {location}: {e.message}"

/-- `_claim` -/
def claim (self : Tuner ω) : Except ClaimRaised Unit × Tuner ω :=
  match takeInterface self.channel.dev with
  | (.error e, dev) =>
    (.error (claimRaised self.location e),
      { self with channel := { self.channel with dev := UsbDevice.disposeResources dev } })
  | (.ok (), dev) => (.ok (), { self with channel := { self.channel with dev }, claimed := true })

end Tuner

/-! ## Initialising -/

section Transfers

variable {ω : Type} [UsbDevice ω]

/-- A transfer, or the reset of an endpoint. -/
inductive DeviceTransfer : ω → ω → Prop where
  | write (frame : Bytes) (dev : ω) : DeviceTransfer dev (Usb.write frame dev).2
  | read (dev : ω) : DeviceTransfer dev (Usb.read dev).2
  | clearHalt (endpoint : EndpointAddress) (dev : ω) :
    DeviceTransfer dev (UsbDevice.clearHalt endpoint dev).2
  | drainRead (endpoint : EndpointAddress) (size : ℕ) (dev : ω) :
    DeviceTransfer dev (UsbDevice.drainRead endpoint size dev).2

/-- Transfers, one after the other. -/
def DeviceTransfers : ω → ω → Prop := Relation.ReflTransGen DeviceTransfer

theorem transferInvariant_transfers (P : Primitives) (start : ω) :
    TransferInvariant P fun _ dev ↦ DeviceTransfers start dev where
  exchange {codec codec' cmd frame dev} _ h := by
    have hwrite := h.tail (.write frame dev)
    rw [DyUd200.exchange]
    rcases hw : Usb.write frame dev with ⟨_ | _, dev'⟩ <;> rw [hw] at hwrite
    · exact hwrite
    · exact hwrite.tail (.read dev')
  clearHalt endpoint h := h.tail (.clearHalt endpoint _)
  drainRead endpoint size h := h.tail (.drainRead endpoint size _)

end Transfers

/-- What may stand for `initialize`: code that reaches the device through transfers, leaves
`_claimed` and the location alone, and returns or raises. -/
structure Initialisation (ω ε : Type) [UsbDevice ω] where
  run : Tuner ω → Except ε Unit × Tuner ω
  claimed (s : Tuner ω) : (run s).2.claimed = s.claimed
  location (s : Tuner ω) : (run s).2.location = s.location
  transfers (s : Tuner ω) : DeviceTransfers s.channel.dev (run s).2.channel.dev

section Initialisation

variable {P : Primitives} {ω : Type} [UsbDevice ω] {J : Tuner ω → Prop}

/-- A property of the fields of the tuner that neither a transfer nor `initialize` changes. -/
theorem tunerInvariant_of_fields
    (hchannel : ∀ (s : Tuner ω) (channel : DyUd200 ω), J s → J { s with channel })
    (hknown : ∀ (s : Tuner ω) (firmware : Option ℕ) (serial : Option String),
      J s → J { s with firmware, serial }) : TunerInvariant P J where
  command _ _ := fun s hs ↦ hchannel s _ hs
  clearHalt endpoint := by
    refine Keeps.bind (fun s hs ↦ hchannel s _ hs) fun result ↦ ?_
    cases result with
    | ok => exact .of_pure _
    | error e => exact .ite (Keeps.of_get.bind fun _ ↦ .of_throw _) (.of_pure _)
  drain _ _ _ := fun s hs ↦ hchannel s _ hs
  known := hknown

variable (P) in
/-- `initialize` itself. -/
def initialisation : Initialisation ω Raised where
  run s := (Tuner.initializeTuner P).run.run s
  claimed s :=
    keeps_initializeTuner (P := P) (J := fun t ↦ t.claimed = s.claimed)
      (tunerInvariant_of_fields (fun _ _ h ↦ h) fun _ _ _ h ↦ h) s rfl
  location s :=
    keeps_initializeTuner (P := P) (J := fun t ↦ t.location = s.location)
      (tunerInvariant_of_fields (fun _ _ h ↦ h) fun _ _ _ h ↦ h) s rfl
  transfers s :=
    keeps_initializeTuner (transferInvariant_transfers P s.channel.dev).tuner s .refl

end Initialisation

/-! ## `open_device` -/

/-- An exception out of `open_device`. -/
inductive OpenRaised (ε : Type) where
  | deviceBusy (message : String)
  | deviceError (message : String)
  /-- It came out of `initialize`. -/
  | initialising (e : ε)
  /-- It came out of `close`, called on the way out of `initialize`. -/
  | closing (e : Raised)
  deriving DecidableEq, Repr

section Open

variable (P : Primitives) {ω ε : Type} [ClaimDevice ω] (init : Initialisation ω ε)

/-- Behind `_claim`: a tuner that cannot be initialised is closed. -/
def openClaimed (tuner : Tuner ω) : Except (OpenRaised ε) (Tuner ω) × ω :=
  match init.run tuner with
  | (.ok (), tuner) => (.ok tuner, tuner.channel.dev)
  | (.error e, tuner) =>
    match (Tuner.close P).run.run tuner with
    | (.ok (), tuner) => (.error (.initialising e), tuner.channel.dev)
    | (.error e, tuner) => (.error (.closing e), tuner.channel.dev)

/-- The loop of `open_device`, with the texts in `busy` and, next to the result, what each of the
devices is left as. -/
def openLoop : List (DeviceLocation × ω) → List Str →
    Except (OpenRaised ε) (Tuner ω) × List ω
  | [], busy =>
    (.error (.deviceBusy ("all matching DY-UD200 devices are in use: "
      ++ String.ofList (join [',', ' '] busy))), [])
  | d :: devices, busy =>
    match (Tuner.new d).claim with
    | (.error (.deviceBusy _), tuner) =>
      let (result, after) := openLoop devices (busy ++ [d.1.toText])
      (result, tuner.channel.dev :: after)
    | (.error (.deviceError message), tuner) =>
      (.error (.deviceError message), tuner.channel.dev :: devices.map Prod.snd)
    | (.ok (), tuner) =>
      let (result, dev) := openClaimed P init tuner
      (result, dev :: devices.map Prod.snd)

/-- `open_device`, of the devices that `_select` yields -/
def openDevice (devices : List (DeviceLocation × ω)) :
    Except (OpenRaised ε) (Tuner ω) × List ω :=
  openLoop P init devices []

end Open

/-! ## What close does -/

section Close

variable {P : Primitives} {ω : Type} [UsbDevice ω]

theorem raises_command {cmd : Bytes} (hshort : 3 ≤ cmd.length) (hlong : cmd.length ≤ commandSize)
    (check : Bool) :
    Raises (fun e ↦ ∃ message, e = .deviceError message)
      (Tuner.command P cmd check : Tuner.Method ω Bytes) := by
  intro s e h
  have hcommand : s.channel.command P cmd check = (.error e, (s.channel.command P cmd check).2) :=
    Prod.ext h rfl
  exact DyUd200.command_raises hshort hlong hcommand

theorem raises_release {E : Raised → Prop} :
    Raises E (Tuner.release : Tuner.Method ω Unit) := by
  have hdevice : ∀ {α : Type} (f : ω → α × ω), Raises E (Tuner.onDevice f : Tuner.Method ω α) :=
    fun f _ _ h ↦ by cases h
  refine Raises.of_get.bind fun _ ↦ .ite ?_ (hdevice _)
  exact (hdevice _).bind fun _ ↦ (Raises.of_modify _).bind fun _ ↦ hdevice _

/-- The commands of `close` raise `DeviceError` alone, which it catches. -/
theorem raises_closeCommands : Raises (fun _ ↦ False)
    (tryCatch
      (do
        Tuner.stopStreaming P
        let _ ← Tuner.command P cmdClose false)
      fun e ↦
        match e with
        | .deviceError _ => return ()
        | e => throw e : Tuner.Method ω Unit) := by
  refine .tryCatch (E := fun e ↦ ∃ message, e = .deviceError message) ?_ ?_
  · refine Raises.bind ((raises_command (by decide) (by decide) _).bind fun _ ↦ .of_pure _)
      fun _ ↦ ?_
    exact (raises_command (by decide) (by decide) _).bind fun _ ↦ .of_pure _
  · rintro e ⟨message, rfl⟩
    exact .of_pure _

theorem raises_close : Raises (fun _ ↦ False) (Tuner.close P : Tuner.Method ω Unit) :=
  Raises.of_get.bind fun _ ↦
    .ite (raises_closeCommands.bind fun _ ↦ raises_release) raises_release

variable {J : Tuner ω → Prop}

/-- What disposing of the resources brings about. -/
theorem leaves_release
    (h : ∀ s : Tuner ω, J { s with channel.dev := UsbDevice.disposeResources s.channel.dev }) :
    Leaves J (Tuner.release : Tuner.Method ω Unit) := by
  have hdispose : Leaves J (Tuner.onDevice fun dev ↦ ((), UsbDevice.disposeResources dev)
      : Tuner.Method ω Unit) := h
  have hrelease : Raises (fun _ ↦ False) (Tuner.onDevice UsbDevice.releaseInterface
      : Tuner.Method ω (Except UsbError Unit)) := fun _ _ h ↦ by cases h
  refine Leaves.bind Raises.of_get fun _ ↦ .ite ?_ hdispose
  exact .bind hrelease fun _ ↦ .bind (.of_modify _) fun _ ↦ hdispose

theorem leaves_close
    (h : ∀ s : Tuner ω, J { s with channel.dev := UsbDevice.disposeResources s.channel.dev }) :
    Leaves J (Tuner.close P : Tuner.Method ω Unit) := by
  refine Leaves.bind Raises.of_get fun _ ↦ .ite ?_ (leaves_release h)
  exact .bind raises_closeCommands fun _ ↦ leaves_release h

/-- The lifecycle of one tuner has the same code behind `_claim`. -/
theorem openClaimed_initialisation {ω : Type} [ClaimDevice ω] (tuner : Tuner ω) :
    (openClaimed P (initialisation P) tuner).2
      = ((Tuner.openDevice P).run.run tuner).2.channel.dev := by
  have hrun : (initialisation P).run tuner = (Tuner.initializeTuner P).run.run tuner := rfl
  rw [openClaimed, hrun, Tuner.openDevice, ExceptT.run_tryCatch, StateT.run_bind]
  rcases (Tuner.initializeTuner P).run.run tuner with ⟨e | _, tuner'⟩
  · obtain ⟨_, tuner'', hclose⟩ := (raises_close (P := P)).exists_ok tuner'
    have hthrow : (((do Tuner.close P; throw e) : Tuner.Method ω Unit).run.run tuner').2
        = tuner'' := by
      rw [ExceptT.run_bind, StateT.run_bind, hclose]
      rfl
    dsimp only
    rw [hclose]
    exact congrArg (fun s : Tuner ω ↦ s.channel.dev) hthrow.symm
  · rfl

end Close

/-! ## What is left claimed -/

/-- What `open_device` relies on: `Held` says of a device that its interface is claimed. -/
structure ClaimLaws {ω : Type} [ClaimDevice ω] (Held : ω → Prop) : Prop where
  claimInterface : ∀ {dev dev' : ω}, ClaimDevice.claimInterface dev = (.ok (), dev') → Held dev'
  disposeResources : ∀ dev : ω, ¬Held (UsbDevice.disposeResources dev)
  transfer : ∀ {dev dev' : ω}, DeviceTransfer dev dev' → Held dev → Held dev'

section Spec

variable {ω ε : Type} [ClaimDevice ω]

/-- Claiming the device raises `DeviceBusy`. -/
def Busy (d : DeviceLocation × ω) : Prop :=
  ∃ message, (Tuner.new d).claim.1 = .error (.deviceBusy message)

/-- The device behind `_claim`. -/
def afterClaim (d : DeviceLocation × ω) : ω := (Tuner.new d).claim.2.channel.dev

/-- What is left of the device `d`, which was not busy: claimed and returned, or not claimed. -/
structure Opened (Held : ω → Prop) (d : DeviceLocation × ω)
    (result : Except (OpenRaised ε) (Tuner ω)) (dev : ω) : Prop where
  returned : ∀ tuner, result = .ok tuner →
    tuner.channel.dev = dev ∧ tuner.claimed = true ∧ tuner.location = String.ofList d.1.toText ∧
      Held dev
  raised : ∀ e, result = .error e → ¬Held dev
  not_busy : ∀ message, result ≠ .error (.deviceBusy message)

/-- `open_device` claims what it returns: `after` is what the devices are left as. -/
structure ClaimsExactly (Held : ω → Prop) (devices : List (DeviceLocation × ω))
    (result : Except (OpenRaised ε) (Tuner ω)) (after : List ω) : Prop where
  length : after.length = devices.length
  /-- The first device that is not busy is returned, and it is the only one that is claimed. -/
  returned : ∀ tuner, result = .ok tuner → ∃ pre d post,
    devices = pre ++ d :: post ∧ (∀ b ∈ pre, Busy b) ∧ ¬Busy d ∧
      after = pre.map afterClaim ++ tuner.channel.dev :: post.map Prod.snd ∧
      tuner.claimed = true ∧ tuner.location = String.ofList d.1.toText ∧ Held tuner.channel.dev ∧
      ∀ dev ∈ pre.map afterClaim ++ post.map Prod.snd, ¬Held dev
  raised : ∀ e, result = .error e → ∀ dev ∈ after, ¬Held dev
  busy : ∀ message, result = .error (.deviceBusy message) → ∀ d ∈ devices, Busy d
  /-- The devices behind the first that is not busy are as they were. -/
  untouched : ∀ pre d post, devices = pre ++ d :: post → (∀ b ∈ pre, Busy b) → ¬Busy d →
    ∃ dev, after = pre.map afterClaim ++ dev :: post.map Prod.snd

variable {P : Primitives} {init : Initialisation ω ε} {Held : ω → Prop}
variable {d : DeviceLocation × ω} {devices pre post : List (DeviceLocation × ω)} {busy : List Str}

theorem not_held_of_claim_error (laws : ClaimLaws Held) {self self' : Tuner ω} {e : ClaimRaised}
    (h : self.claim = (.error e, self')) : ¬Held self'.channel.dev := by
  rw [Tuner.claim] at h
  split at h
  · obtain rfl := (Prod.mk.inj h).2
    exact laws.disposeResources _
  · cases h

theorem held_of_claim_ok (laws : ClaimLaws Held) {self self' : Tuner ω}
    (h : self.claim = (.ok (), self')) :
    Held self'.channel.dev ∧ self'.claimed = true ∧ self'.location = self.location := by
  rw [Tuner.claim] at h
  split at h
  · cases h
  rename_i dev htake
  obtain rfl := (Prod.mk.inj h).2
  refine ⟨?_, rfl, rfl⟩
  -- `claim_interface` is the last of the calls, and it returned
  rw [Tuner.takeInterface] at htake
  dsimp only at htake
  split at htake
  · cases htake
  · exact laws.claimInterface htake

theorem not_held_afterClaim (laws : ClaimLaws Held) (h : Busy d) : ¬Held (afterClaim d) := by
  obtain ⟨message, hmessage⟩ := h
  exact not_held_of_claim_error laws (Prod.ext hmessage rfl)

theorem openLoop_of_busy (h : Busy d) :
    openLoop P init (d :: devices) busy
      = ((openLoop P init devices (busy ++ [d.1.toText])).1,
        afterClaim d :: (openLoop P init devices (busy ++ [d.1.toText])).2) := by
  obtain ⟨message, hmessage⟩ := h
  rw [openLoop, show (Tuner.new d).claim = (.error (.deviceBusy message), (Tuner.new d).claim.2)
    from Prod.ext hmessage rfl]
  rfl

/-- The busy devices in front are passed over. -/
theorem openLoop_append (h : ∀ b ∈ pre, Busy b) :
    openLoop P init (pre ++ devices) busy
      = ((openLoop P init devices (busy ++ pre.map fun b ↦ b.1.toText)).1,
        pre.map afterClaim
          ++ (openLoop P init devices (busy ++ pre.map fun b ↦ b.1.toText)).2) := by
  induction pre generalizing busy with
  | nil => simp
  | cons b pre ih =>
    rw [List.cons_append, openLoop_of_busy (h b List.mem_cons_self),
      ih fun b hb ↦ h b (List.mem_cons_of_mem _ hb)]
    simp

theorem openLoop_of_all_busy (h : ∀ d ∈ devices, Busy d) :
    openLoop P init devices busy
      = (.error (.deviceBusy ("all matching DY-UD200 devices are in use: "
        ++ String.ofList (join [',', ' '] (busy ++ devices.map fun d ↦ d.1.toText)))),
        devices.map afterClaim) := by
  rw [← List.append_nil devices, openLoop_append h, openLoop]
  simp

theorem ClaimLaws.transfers (laws : ClaimLaws Held) {dev dev' : ω} (h : DeviceTransfers dev dev')
    (hdev : Held dev) : Held dev' := by
  induction h with
  | refl => exact hdev
  | tail _ hstep ih => exact laws.transfer hstep ih

/-- A tuner that was claimed is returned claimed, or it is closed. -/
theorem openClaimed_opened (laws : ClaimLaws Held) {tuner : Tuner ω}
    (hheld : Held tuner.channel.dev) (hclaimed : tuner.claimed = true)
    (hlocation : tuner.location = String.ofList d.1.toText) :
    Opened Held d (openClaimed P init tuner).1 (openClaimed P init tuner).2 := by
  have hinitClaimed := (init.claimed tuner).trans hclaimed
  have hinitLocation := (init.location tuner).trans hlocation
  have hinitHeld := laws.transfers (init.transfers tuner) hheld
  rw [openClaimed]
  rcases hinit : init.run tuner with ⟨e | _, tuner'⟩
  · obtain ⟨_, tuner'', hclose⟩ := (raises_close (P := P)).exists_ok tuner'
    have hdisposed : ¬Held ((Tuner.close P).run.run tuner').2.channel.dev :=
      leaves_close (J := fun s ↦ ¬Held s.channel.dev) (fun s ↦ laws.disposeResources _) tuner'
    rw [hclose] at hdisposed
    dsimp only
    rw [hclose]
    exact ⟨nofun, fun _ _ ↦ hdisposed, nofun⟩
  · rw [hinit] at hinitClaimed hinitLocation hinitHeld
    refine ⟨fun t ht ↦ ?_, nofun, nofun⟩
    obtain rfl := Except.ok.inj ht
    exact ⟨rfl, hinitClaimed, hinitLocation, hinitHeld⟩

variable (P init post busy) in
/-- The first device that is not busy is the last one that is touched. -/
theorem openLoop_of_not_busy (laws : ClaimLaws Held) (h : ¬Busy d) :
    ∃ result dev, openLoop P init (d :: post) busy = (result, dev :: post.map Prod.snd) ∧
      Opened Held d result dev := by
  rw [openLoop]
  rcases hclaim : (Tuner.new d).claim with ⟨(message | message) | _, tuner⟩
  · exact absurd ⟨message, congrArg Prod.fst hclaim⟩ h
  · exact ⟨_, _, rfl, nofun, fun _ _ ↦ not_held_of_claim_error laws hclaim,
      nofun⟩
  · obtain ⟨hheld, hclaimed, hlocation⟩ := held_of_claim_ok laws hclaim
    exact ⟨_, _, rfl, openClaimed_opened laws hheld hclaimed hlocation⟩

variable (P init post busy) in
theorem openLoop_split (laws : ClaimLaws Held) (hpre : ∀ b ∈ pre, Busy b) (hd : ¬Busy d) :
    ∃ result dev, openLoop P init (pre ++ d :: post) busy
        = (result, pre.map afterClaim ++ dev :: post.map Prod.snd) ∧
      Opened Held d result dev := by
  obtain ⟨result, dev, hloop, hopened⟩ :=
    openLoop_of_not_busy P init post (busy ++ pre.map fun b ↦ b.1.toText) laws hd
  refine ⟨result, dev, ?_, hopened⟩
  rw [openLoop_append hpre, hloop]

/-- All devices are busy, or one of them is the first that is not. -/
theorem busy_or_exists (devices : List (DeviceLocation × ω)) :
    (∀ d ∈ devices, Busy d) ∨
      ∃ pre d post, devices = pre ++ d :: post ∧ (∀ b ∈ pre, Busy b) ∧ ¬Busy d := by
  classical
  rcases hfind : devices.find? fun d ↦ decide (¬Busy d) with _ | d
  · refine .inl fun d hd ↦ ?_
    have hnone := List.find?_eq_none.mp hfind d hd
    simpa using hnone
  · obtain ⟨hd, pre, post, hdevices, hpre⟩ := List.find?_eq_some_iff_append.mp hfind
    refine .inr ⟨pre, d, post, hdevices, fun b hb ↦ ?_, of_decide_eq_true hd⟩
    simpa using hpre b hb

theorem not_held_of_mem_append (laws : ClaimLaws Held) (hpre : ∀ b ∈ pre, Busy b)
    (hpost : ∀ d ∈ post, ¬Held d.2) :
    ∀ dev ∈ pre.map afterClaim ++ post.map Prod.snd, ¬Held dev := by
  intro dev hdev
  rcases List.mem_append.mp hdev with hdev | hdev
  · obtain ⟨b, hb, rfl⟩ := List.mem_map.mp hdev
    exact not_held_afterClaim laws (hpre b hb)
  · obtain ⟨b, hb, rfl⟩ := List.mem_map.mp hdev
    exact hpost b hb

variable (P init) in
/-- **Opening a device** claims exactly what it returns, whatever claiming, initialising and closing
come to. -/
theorem openDevice_claimsExactly (laws : ClaimLaws Held) (hfree : ∀ d ∈ devices, ¬Held d.2) :
    ClaimsExactly Held devices (openDevice P init devices).1 (openDevice P init devices).2 := by
  rw [openDevice]
  rcases busy_or_exists devices with hbusy | ⟨pre, d, post, rfl, hpre, hd⟩
  · rw [openLoop_of_all_busy hbusy]
    have hnone : ∀ dev ∈ devices.map afterClaim, ¬Held dev := by
      intro dev hdev
      obtain ⟨d, hd, rfl⟩ := List.mem_map.mp hdev
      exact not_held_afterClaim laws (hbusy d hd)
    refine ⟨List.length_map _, nofun, fun _ _ ↦ hnone, fun _ _ ↦ hbusy, ?_⟩
    rintro pre d post rfl - hd
    exact absurd (hbusy d (by simp)) hd
  · obtain ⟨result, dev, hloop, hopened⟩ := openLoop_split P init post [] laws hpre hd
    have hpost : ∀ b ∈ post, ¬Held b.2 := fun b hb ↦
      hfree b (List.mem_append_right _ (List.mem_cons_of_mem _ hb))
    have hothers := not_held_of_mem_append laws hpre hpost
    have huntouched : ∀ pre' d' post', pre ++ d :: post = pre' ++ d' :: post' →
        (∀ b ∈ pre', Busy b) → ¬Busy d' →
        ∃ dev', pre.map afterClaim ++ dev :: post.map Prod.snd
          = pre'.map afterClaim ++ dev' :: post'.map Prod.snd := by
      intro pre' d' post' hsplit hpre' hd'
      obtain ⟨_, dev', hloop', -⟩ := openLoop_split P init post' [] laws hpre' hd'
      rw [hsplit, hloop'] at hloop
      exact ⟨dev', (Prod.mk.inj hloop).2.symm⟩
    rw [hloop]
    refine ⟨by simp, fun tuner htuner ↦ ?_, fun e he dev' hdev' ↦ ?_,
      fun message hmessage ↦ ?_, huntouched⟩
    · obtain ⟨rfl, hclaimed, hlocation, hheld⟩ := hopened.returned tuner htuner
      exact ⟨pre, d, post, rfl, hpre, hd, rfl, hclaimed, hlocation, hheld, hothers⟩
    · rcases List.mem_append.mp hdev' with hmem | hmem
      · exact hothers dev' (List.mem_append_left _ hmem)
      · rcases List.mem_cons.mp hmem with rfl | hmem
        · exact hopened.raised e he
        · exact hothers dev' (List.mem_append_right _ hmem)
    · exact absurd hmessage (hopened.not_busy message)

end Spec

/-- A device whose interface another process may hold. Its responses are all zeros, or time out. -/
structure SharedDevice where
  inUse : Bool
  claimed : Bool := false
  responds : Bool := false
  deriving DecidableEq, Repr

instance : ClaimDevice SharedDevice where
  write _ dev := (.ok (), dev)
  read dev := (if dev.responds then .ok (List.replicate 128 0) else .error ⟨"timeout"⟩, dev)
  clearHalt _ dev := (.ok (), dev)
  drainRead _ _ dev := (.error ⟨"timeout"⟩, dev)
  releaseInterface dev := (.ok (), { dev with claimed := false })
  disposeResources dev := { dev with claimed := false }
  isKernelDriverActive dev := (.ok false, dev)
  detachKernelDriver dev := (.ok (), dev)
  getActiveConfiguration dev := (.ok 1, dev)
  setConfiguration dev := (.ok (), dev)
  claimInterface dev :=
    if dev.inUse then (.error ⟨⟨"Resource busy"⟩, some eBusy⟩, dev)
    else (.ok (), { dev with claimed := true })

theorem claimLaws_sharedDevice : ClaimLaws fun dev : SharedDevice ↦ dev.claimed = true where
  claimInterface {dev dev'} h := by
    rcases dev with ⟨_ | _, _, _⟩
    · obtain rfl := (Prod.mk.inj h).2
      rfl
    · cases (Prod.mk.inj h).1
  disposeResources _ := Bool.false_ne_true
  transfer h hdev := by cases h <;> exact hdev

/-- A device in use in front of one that does not respond. -/
theorem openDevice_claimsExactly_timeout :
    ClaimsExactly (fun dev : SharedDevice ↦ dev.claimed = true)
      [(⟨1, 4, ['1', '-', '1']⟩, { inUse := true }), (⟨1, 5, ['1', '-', '2']⟩, { inUse := false })]
      (openDevice .plain (initialisation .plain)
        [(⟨1, 4, ['1', '-', '1']⟩, { inUse := true }),
          (⟨1, 5, ['1', '-', '2']⟩, { inUse := false })]).1
      (openDevice .plain (initialisation .plain)
        [(⟨1, 4, ['1', '-', '1']⟩, { inUse := true }),
          (⟨1, 5, ['1', '-', '2']⟩, { inUse := false })]).2 := by
  refine openDevice_claimsExactly .plain (initialisation .plain) claimLaws_sharedDevice ?_
  simp

end Recdyud
