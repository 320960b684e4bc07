import Recdyud.Device.OpenDevice

/-!
# What the commands leave behind

Every command that works with a tuner opens it in a `with` statement: `record`, `cmd_info`,
`cmd_monitor` and `cmd_scan` differ in its body alone. `withDevice` is the statement with any body.
The tuner is claimed as long as the body runs, and whatever comes out of the body comes out of the
statement, with every device released (`withDevice_releases`).

`cmd_list` claims each tuner to see whether it can be opened, and releases it again. What it prints
agrees with what `open_device` does with the same devices (`cmdList_agrees`).
-/

namespace Recdyud

variable {ω : Type} [ClaimDevice ω]

/-! ## The model -/

/-- The body of a `with` statement: code that reaches the device through transfers, leaves
`_claimed` alone, and returns or raises. -/
structure SessionBody (ω ε α : Type) [UsbDevice ω] where
  run : Tuner ω → Except ε α × Tuner ω
  claimed (s : Tuner ω) : (run s).2.claimed = s.claimed
  transfers (s : Tuner ω) : DeviceTransfers s.channel.dev (run s).2.channel.dev

/-- An exception out of a `with` statement. -/
inductive SessionRaised (ε ε' : Type) where
  | opening (e : OpenRaised ε)
  | body (e : ε')
  | closing (e : Raised)
  deriving DecidableEq, Repr

/-- Claiming the device raises `DeviceBusy`, decided. -/
def isBusy (d : DeviceLocation × ω) : Bool :=
  match (Tuner.new d).claim.1 with
  | .error (.deviceBusy _) => true
  | _ => false

section Session

variable (P : Primitives) {ε ε' α : Type} (init : Initialisation ω ε) (body : SessionBody ω ε' α)

/-- `with open_device(..) as tuner: body`, of the devices that `_select` yields. Next to the result
is what each of the devices is left as; the opened one is the first that is not busy. -/
def withDevice (devices : List (DeviceLocation × ω)) :
    Except (SessionRaised ε ε') α × List ω :=
  match openDevice P init devices with
  | (.error e, after) => (.error (.opening e), after)
  | (.ok tuner, after) =>
    let (result, tuner) := body.run tuner
    let (closed, tuner) := (Tuner.close P).run.run tuner
    let after := after.set (devices.findIdx fun d ↦ !isBusy d) tuner.channel.dev
    match closed with
    | .error e => (.error (.closing e), after)
    | .ok () => (result.mapError .body, after)

end Session

/-- What `cmd_list` says of a tuner. -/
inductive ListState where
  | free
  | inUse
  | error (message : String)
  deriving DecidableEq, Repr

/-- `state` -/
def ListState.text : ListState → Str
  | free => "free".toList
  | inUse => "in use".toList
  | error message => "error: ".toList ++ message.toList

/-- What `_claim` comes to, as a state. -/
def ListState.of : Except ClaimRaised Unit → ListState
  | .ok () => free
  | .error (.deviceBusy _) => inUse
  | .error (.deviceError message) => error message

/-- The state of a device that is claimed as it is. -/
def stateOf (d : DeviceLocation × ω) : ListState := .of (Tuner.new d).claim.1

/-- The body of the loop of `cmd_list`. -/
def listOne (d : DeviceLocation × ω) : Except Raised ListState × ω :=
  let (claimed, tuner) := (Tuner.new d).claim
  match (Tuner.release).run.run tuner with
  | (.error e, tuner) => (.error e, tuner.channel.dev)
  | (.ok (), tuner) => (.ok (.of claimed), tuner.channel.dev)

/-- `f"[{i}] {loc}  {state}"` -/
def listLine (i : ℕ) (loc : DeviceLocation) (state : ListState) : Str :=
  '[' :: str i ++ "] ".toList ++ loc.toText ++ "  ".toList ++ state.text

/-- The loop of `cmd_list`, from the index `i` on. -/
def listLoop : ℕ → List (DeviceLocation × ω) → Except Raised (List Str) × List ω
  | _, [] => (.ok [], [])
  | i, d :: devices =>
    match listOne d with
    | (.error e, dev) => (.error e, dev :: devices.map Prod.snd)
    | (.ok state, dev) =>
      let (lines, after) := listLoop (i + 1) devices
      (lines.map (listLine i d.1 state :: ·), dev :: after)

/-- `cmd_list`, of the devices that `enumerate_devices` returns: the lines printed, what is
returned, and what each of the devices is left as. -/
def cmdList (devices : List (DeviceLocation × ω)) : Except Raised (List Str × ℕ) × List ω :=
  if devices = [] then
    (.ok (["no DY-UD200 found".toList], 1), [])
  else
    let (lines, after) := listLoop 0 devices
    (lines.map (·, 0), after)

/-! ## Sessions -/

theorem isBusy_iff {d : DeviceLocation × ω} : isBusy d = true ↔ Busy d := by
  rw [isBusy, Busy]
  split
  · rename_i message h
    exact iff_of_true rfl ⟨message, h⟩
  · rename_i h
    refine iff_of_false Bool.false_ne_true ?_
    rintro ⟨message, hmessage⟩
    exact h message hmessage

/-- The first device that is not busy. -/
theorem findIdx_not_isBusy {pre post : List (DeviceLocation × ω)} {d : DeviceLocation × ω}
    (hpre : ∀ b ∈ pre, Busy b) (hd : ¬Busy d) :
    (pre ++ d :: post).findIdx (fun d ↦ !isBusy d) = pre.length := by
  induction pre with
  | nil =>
    have hfree : isBusy d = false := Bool.not_eq_true _ ▸ fun h ↦ hd (isBusy_iff.mp h)
    rw [List.nil_append, List.findIdx_cons, hfree]
    rfl
  | cons b pre ih =>
    obtain ⟨hb, hrest⟩ := List.forall_mem_cons.mp hpre
    rw [List.cons_append, List.findIdx_cons, isBusy_iff.mpr hb, ih hrest]
    rfl

section Spec

variable {Held : ω → Prop} {P : Primitives} {ε ε' α : Type} {init : Initialisation ω ε}
  {body : SessionBody ω ε' α} {devices : List (DeviceLocation × ω)}

/-- A tuner is opened, or nothing is claimed. -/
theorem openDevice_cases (P : Primitives) (init : Initialisation ω ε) (laws : ClaimLaws Held)
    (hfree : ∀ d ∈ devices, ¬Held d.2) :
    (∃ e after, openDevice P init devices = (.error e, after) ∧ after.length = devices.length ∧
      ∀ dev ∈ after, ¬Held dev) ∨
    ∃ tuner others others', openDevice P init devices
        = (.ok tuner, others ++ tuner.channel.dev :: others') ∧
      (devices.findIdx fun d ↦ !isBusy d) = others.length ∧
      (others ++ tuner.channel.dev :: others').length = devices.length ∧
      Held tuner.channel.dev ∧ ∀ dev ∈ others ++ others', ¬Held dev := by
  rw [openDevice]
  rcases busy_or_exists devices with hbusy | ⟨pre, d, post, rfl, hpre, hd⟩
  · refine .inl ⟨_, _, openLoop_of_all_busy hbusy, List.length_map _, fun dev hdev ↦ ?_⟩
    obtain ⟨d, hd, rfl⟩ := List.mem_map.mp hdev
    exact not_held_afterClaim laws (hbusy d hd)
  · obtain ⟨result, dev, hloop, hopened⟩ := openLoop_split P init post [] laws hpre hd
    have hpost : ∀ b ∈ post, ¬Held b.2 := fun b hb ↦
      hfree b (List.mem_append_right _ (List.mem_cons_of_mem _ hb))
    have hothers := not_held_of_mem_append laws hpre hpost
    have hlength : (pre.map afterClaim ++ dev :: post.map Prod.snd).length
        = (pre ++ d :: post).length := by simp
    cases result with
    | error e =>
      refine .inl ⟨e, _, hloop, hlength, fun dev' hdev' ↦ ?_⟩
      rcases List.mem_append.mp hdev' with hmem | hmem
      · exact hothers dev' (List.mem_append_left _ hmem)
      · rcases List.mem_cons.mp hmem with rfl | hmem
        · exact hopened.raised e rfl
        · exact hothers dev' (List.mem_append_right _ hmem)
    | ok tuner =>
      obtain ⟨rfl, -, -, hheld⟩ := hopened.returned tuner rfl
      refine .inr ⟨tuner, _, _, hloop, ?_, hlength, hheld, hothers⟩
      rw [findIdx_not_isBusy hpre hd, List.length_map]

/-- **Every command releases what it opened.** The body runs on a tuner that is claimed, and does so
to its end; whatever it comes to is what the statement comes to, since `close` raises nothing; and
in the end no device is claimed. -/
theorem withDevice_releases (laws : ClaimLaws Held) (hfree : ∀ d ∈ devices, ¬Held d.2) :
    (withDevice P init body devices).2.length = devices.length ∧
      (∀ dev ∈ (withDevice P init body devices).2, ¬Held dev) ∧
      (∀ e, (withDevice P init body devices).1 ≠ .error (.closing e)) ∧
      (∀ e, (openDevice P init devices).1 = .error e →
        (withDevice P init body devices).1 = .error (.opening e)) ∧
      ∀ tuner, (openDevice P init devices).1 = .ok tuner →
        Held tuner.channel.dev ∧ Held (body.run tuner).2.channel.dev ∧
        (withDevice P init body devices).1 = (body.run tuner).1.mapError .body := by
  rw [withDevice]
  rcases openDevice_cases P init laws hfree with
    ⟨e, after, hopen, hlength, hnone⟩ |
    ⟨tuner, others, others', hopen, hindex, hlength, hheld, hothers⟩
  · rw [hopen]
    refine ⟨hlength, hnone, nofun, fun e' he' ↦ ?_, nofun⟩
    rw [Except.error.inj he']
  · rw [hopen]
    dsimp only
    have hbody := laws.transfers (body.transfers tuner) hheld
    obtain ⟨_, closed, hclose⟩ := (raises_close (P := P)).exists_ok (body.run tuner).2
    have hdisposed : ¬Held ((Tuner.close P).run.run (body.run tuner).2).2.channel.dev :=
      leaves_close (J := fun s ↦ ¬Held s.channel.dev) (fun s ↦ laws.disposeResources _) _
    rw [hclose] at hdisposed ⊢
    dsimp only at hdisposed ⊢
    rw [hindex, List.set_append_right _ _ (le_refl _), Nat.sub_self, List.set_cons_zero]
    refine ⟨?_, ?_, ?_, nofun, ?_⟩
    · rw [← hlength, List.length_append, List.length_append]
      rfl
    · intro dev hdev
      rcases List.mem_append.mp hdev with hmem | hmem
      · exact hothers dev (List.mem_append_left _ hmem)
      · rcases List.mem_cons.mp hmem with rfl | hmem
        · exact hdisposed
        · exact hothers dev (List.mem_append_right _ hmem)
    · intro e he
      rcases hresult : (body.run tuner).1 with e' | a <;> rw [hresult] at he <;> cases he
    · intro tuner' htuner'
      obtain rfl := Except.ok.inj htuner'
      exact ⟨hheld, hbody, rfl⟩

/-! ## Listing -/

theorem stateOf_eq_inUse_iff {d : DeviceLocation × ω} : stateOf d = .inUse ↔ Busy d := by
  rw [stateOf, Busy]
  rcases (Tuner.new d).claim.1 with (message | message) | _
  · exact iff_of_true rfl ⟨message, rfl⟩
  · exact iff_of_false nofun nofun
  · exact iff_of_false nofun nofun

/-- A device that is looked at is released, and nothing is raised. -/
theorem listOne_spec (laws : ClaimLaws Held) (d : DeviceLocation × ω) :
    ∃ dev, listOne d = (.ok (stateOf d), dev) ∧ ¬Held dev := by
  have hraises : Raises (fun _ ↦ False) (Tuner.release : Tuner.Method ω Unit) := raises_release
  obtain ⟨_, tuner, hrelease⟩ := hraises.exists_ok (Tuner.new d).claim.2
  have hdisposed : ¬Held ((Tuner.release).run.run (Tuner.new d).claim.2).2.channel.dev :=
    leaves_release (J := fun s ↦ ¬Held s.channel.dev) (fun s ↦ laws.disposeResources _) _
  rw [hrelease] at hdisposed
  rw [listOne]
  dsimp only
  rw [hrelease]
  exact ⟨_, rfl, hdisposed⟩

theorem listLoop_spec (laws : ClaimLaws Held) (i : ℕ) (devices : List (DeviceLocation × ω)) :
    (listLoop i devices).1
        = .ok (devices.mapIdx fun k d ↦ listLine (i + k) d.1 (stateOf d)) ∧
      (listLoop i devices).2.length = devices.length ∧
      ∀ dev ∈ (listLoop i devices).2, ¬Held dev := by
  induction devices generalizing i with
  | nil => exact ⟨rfl, rfl, fun _ hdev ↦ absurd hdev List.not_mem_nil⟩
  | cons d devices ih =>
    obtain ⟨dev, hone, hdev⟩ := listOne_spec laws d
    obtain ⟨hlines, hlength, hnone⟩ := ih (i + 1)
    rw [listLoop, hone]
    dsimp only
    refine ⟨?_, congrArg Nat.succ hlength, List.forall_mem_cons.mpr ⟨hdev, hnone⟩⟩
    rw [hlines, List.mapIdx_cons]
    simp only [Nat.add_assoc, Nat.add_comm 1, Nat.add_zero]
    rfl

/-- Behind `_claim` nothing is raised that `_claim` raises. -/
theorem openClaimed_ne_deviceError (tuner : Tuner ω) (message : String) :
    (openClaimed P init tuner).1 ≠ .error (.deviceError message) := by
  intro h
  rw [openClaimed] at h
  rcases hrun : init.run tuner with ⟨e | _, tuner'⟩ <;> rw [hrun] at h
  · dsimp only at h
    rcases hclose : (Tuner.close P).run.run tuner' with ⟨e' | _, tuner''⟩ <;>
      rw [hclose] at h <;> cases h
  · cases h

variable (P init) in
/-- What `open_device` makes of the first device that is not in use. -/
theorem openDevice_of_first (laws : ClaimLaws Held) {pre post : List (DeviceLocation × ω)}
    {d : DeviceLocation × ω} (hpre : ∀ b ∈ pre, Busy b) (hd : ¬Busy d) :
    (∃ message, stateOf d = .error message ∧
      (openDevice P init (pre ++ d :: post)).1 = .error (.deviceError message)) ∨
    stateOf d = .free ∧
      (∀ message, (openDevice P init (pre ++ d :: post)).1 ≠ .error (.deviceError message)) ∧
      ∀ tuner, (openDevice P init (pre ++ d :: post)).1 = .ok tuner →
        tuner.location = String.ofList d.1.toText := by
  rw [openDevice, openLoop_append hpre, openLoop, stateOf]
  rcases hclaim : (Tuner.new d).claim with ⟨(message | message) | _, tuner⟩
  · exact absurd ⟨message, congrArg Prod.fst hclaim⟩ hd
  · exact .inl ⟨message, rfl, rfl⟩
  · obtain ⟨hheld, hclaimed, hlocation⟩ := held_of_claim_ok laws hclaim
    have hopened : Opened Held d (openClaimed P init tuner).1 (openClaimed P init tuner).2 :=
      openClaimed_opened laws hheld hclaimed hlocation
    exact .inr ⟨rfl, openClaimed_ne_deviceError tuner, fun t ht ↦ (hopened.returned t ht).2.2.1⟩

variable (P init) in
/-- **A listing agrees with `open_device`.** It raises nothing and leaves no device claimed. Each
device has its line, with its index; all of them are in use exactly when `open_device` finds all
matching devices busy, and otherwise the first that is not is the one that `open_device` returns, or
raises the error of. -/
theorem cmdList_agrees (laws : ClaimLaws Held) (hsome : devices ≠ []) :
    (cmdList devices).1 = .ok (devices.mapIdx fun i d ↦ listLine i d.1 (stateOf d), 0) ∧
      (cmdList devices).2.length = devices.length ∧
      (∀ dev ∈ (cmdList devices).2, ¬Held dev) ∧
      ((∀ d ∈ devices, stateOf d = .inUse) ↔
        ∃ message, (openDevice P init devices).1 = .error (.deviceBusy message)) ∧
      ∀ pre d post, devices = pre ++ d :: post → (∀ b ∈ pre, stateOf b = .inUse) →
        stateOf d ≠ .inUse →
        (∀ message, stateOf d = .error message ↔
          (openDevice P init devices).1 = .error (.deviceError message)) ∧
        ∀ tuner, (openDevice P init devices).1 = .ok tuner →
          stateOf d = .free ∧ tuner.location = String.ofList d.1.toText := by
  obtain ⟨hlines, hlength, hnone⟩ := listLoop_spec laws 0 devices
  simp only [Nat.zero_add] at hlines
  simp only [ne_eq, stateOf_eq_inUse_iff]
  rw [cmdList, if_neg hsome]
  dsimp only
  rw [hlines]
  refine ⟨rfl, hlength, hnone, ⟨fun hbusy ↦ ?_, ?_⟩, ?_⟩
  · rw [openDevice, openLoop_of_all_busy hbusy]
    exact ⟨_, rfl⟩
  · rintro ⟨message, hmessage⟩
    rcases busy_or_exists devices with hbusy | ⟨pre, d, post, rfl, hpre, hd⟩
    · exact hbusy
    · obtain ⟨result, dev, hloop, hopened⟩ := openLoop_split P init post [] laws hpre hd
      rw [openDevice, hloop] at hmessage
      exact absurd hmessage (hopened.not_busy message)
  · rintro pre d post rfl hpre hd
    rcases openDevice_of_first P init laws hpre hd with
      ⟨message, hstate, hopen⟩ | ⟨hstate, hopen, hlocation⟩
    · rw [hstate, hopen]
      refine ⟨fun message' ↦ ⟨fun h ↦ ?_, fun h ↦ ?_⟩, fun tuner htuner ↦ by cases htuner⟩
      · rw [ListState.error.inj h]
      · rw [OpenRaised.deviceError.inj (Except.error.inj h)]
    · rw [hstate]
      exact ⟨fun message ↦ iff_of_false (fun h ↦ by cases h) (hopen message),
        fun tuner htuner ↦ ⟨rfl, hlocation tuner htuner⟩⟩

end Spec

/-! ## A device in use in front of one that is not -/

/-- A body that sends one command, and returns its response. -/
def SessionBody.command (P : Primitives) (cmd : Bytes) : SessionBody SharedDevice Raised Bytes where
  run := (Tuner.command P cmd).run.run
  claimed s :=
    (tunerInvariant_of_fields (P := P) (J := fun t ↦ t.claimed = s.claimed) (fun _ _ h ↦ h)
      fun _ _ _ h ↦ h).command cmd true s rfl
  transfers s := (transferInvariant_transfers P s.channel.dev).tuner.command cmd true s .refl

/-- A device in use in front of one that responds. -/
def sharedDevices : List (DeviceLocation × SharedDevice) :=
  [(⟨1, 4, ['1', '-', '1']⟩, { inUse := true }),
    (⟨1, 5, ['1', '-', '2']⟩, { inUse := false, responds := true })]

/-- The second device is opened and initialised, and the command of the body gets its response. -/
theorem withDevice_releases_shared :
    (withDevice .plain (initialisation .plain) (.command .plain cmdBcasActivate) sharedDevices).1
        = .ok (List.replicate 128 0) ∧
      ∀ dev ∈ (withDevice .plain (initialisation .plain) (.command .plain cmdBcasActivate)
        sharedDevices).2, ¬dev.claimed = true :=
  have hfree : ∀ d ∈ sharedDevices, ¬d.2.claimed = true :=
    List.forall_mem_cons.mpr ⟨by decide, by simp⟩
  ⟨by decide +kernel, (withDevice_releases claimLaws_sharedDevice hfree).2.1⟩

theorem cmdList_agrees_shared :
    (cmdList sharedDevices).1
      = .ok (sharedDevices.mapIdx fun i d ↦ listLine i d.1 (stateOf d), 0) :=
  (cmdList_agrees .plain (initialisation .plain) claimLaws_sharedDevice (by decide)).1

end Recdyud
