import Recdyud.B25.Descrambler
import Recdyud.Cli.Closing
import Recdyud.Device.Pairing

/-!
# From the card to the recording

`setup_descrambler` reads the card over the tuner and makes a descrambler from what it says. What
the card can say is bounded by what the tuner can carry: an answer has at most 117 bytes, so a card
has at most 11 ids and the shim, which has room for 16, never refuses one. The library sees every
number of the card as the card said it (`CardSeen`).

A recording without a descrambler is a recording all the same: only a lack of memory gets out of
`setup_descrambler`, and then, as when it returns `None`, no handle is left. With a descrambler, the
recorder leaves none either, whatever the library does (`record_leaves_no_handle`).
-/

namespace Recdyud

open Code ShimCode

/-! ## What the card can say -/

section Answers

variable {τ ε : Type} [Transport τ ε]

/-- The lengths and the ranges of what an INT response says. -/
theorem ranges_of_parseInitResponse {r : Bytes} {status : InitStatus}
    (h : parseInitResponse r = .ok status) : status.systemKey.length = 32 ∧
      status.initCbc.length = 8 ∧ status.cardId < 2 ^ 48 ∧ status.cardStatus < 2 ^ 16 ∧
      status.caSystemId < 2 ^ 16 := by
  rw [parseInitResponse] at h
  split at h
  · cases h
  rename_i hlong
  dsimp only at h
  split at h
  · cases h
  obtain rfl := Except.ok.inj h
  have hlt : ∀ i j, j ≤ r.length → intFromBytes (slice r i j) < 256 ^ (j - i) := by
    intro i j hj
    have := intFromBytes_lt (slice r i j)
    rwa [length_slice, min_eq_left hj] at this
  refine ⟨?_, ?_, hlt 8 14 (by omega), hlt 2 4 (by omega), hlt 6 8 (by omega)⟩
  · rw [length_slice]
    omega
  · rw [length_slice]
    omega

/-- The ids are all in the answer, ten bytes each. -/
theorem ranges_of_parseIdResponse {r : Bytes} {ids : List CardId}
    (h : parseIdResponse r = .ok ids) : 7 + 10 * ids.length ≤ r.length ∧
      ∀ c ∈ ids, c.id48 < 2 ^ 48 := by
  have hfixed : 19 ≤ r.length := by
    by_contra hshort
    rw [parseIdResponse, if_pos (not_le.mp hshort)] at h
    cases h
  have hn : r[6]? = some r[6] := List.getElem?_eq_getElem (by omega)
  have hall : 7 + 10 * r[6].toNat ≤ r.length := by
    by_contra hshort
    obtain ⟨e, he⟩ := parseIdResponse_of_lt hn (.inr (not_le.mp hshort))
    rw [he] at h
    cases h
  rw [parseIdResponse_of_le hn hfixed hall] at h
  obtain rfl := Except.ok.inj h
  refine ⟨by rwa [List.length_map, List.length_range], fun c hc ↦ ?_⟩
  obtain ⟨i, -, rfl⟩ := List.mem_map.mp hc
  have hlen : (slice r (7 + i * 10 + 2) (7 + i * 10 + 8)).length ≤ 6 := by
    rw [length_slice]
    omega
  exact (intFromBytes_lt _).trans_le (Nat.pow_le_pow_right (Nat.succ_pos 255) hlen)

theorem parseIdResponse_raises {r : Bytes} {e : CardRaised} (h : parseIdResponse r = .error e) :
    ∃ message, e = .cardError message := by
  rcases Nat.lt_or_ge r.length 19 with hshort | hfixed
  · rw [parseIdResponse, if_pos hshort] at h
    exact ⟨_, (Except.error.inj h).symm⟩
  have hn : r[6]? = some r[6] := List.getElem?_eq_getElem (by omega)
  rcases Nat.lt_or_ge r.length (7 + 10 * r[6].toNat) with hshort | hall
  · obtain ⟨e', he⟩ := parseIdResponse_of_lt hn (.inr hshort)
    rw [he] at h
    exact ⟨e', (Except.error.inj h).symm⟩
  · rw [parseIdResponse_of_le hn hfixed hall] at h
    cases h

/-- An initialised card holds what two answers of the card say. -/
theorem BCasCard.initializeCard_eq_ok {card card' : BCasCard τ} {status : InitStatus}
    (h : card.initializeCard = (.ok status, card')) : ∃ r r' t,
      parseInitResponse r = .ok status ∧
      Transport.bcasTransmit cmdCardIdInformation t = (.ok r', card'.transport) ∧
      parseIdResponse r' = .ok card'.ids := by
  rw [initializeCard] at h
  rcases hreset : Transport.bcasReset card.transport with ⟨e | _, t⟩ <;> rw [hreset] at h
  · cases h
  dsimp only at h
  rcases hinit : Transport.bcasTransmit cmdInitialSettingConditions t with ⟨e | r, t'⟩ <;>
    rw [hinit] at h
  · cases h
  dsimp only at h
  rcases hstatus : parseInitResponse r with e | status' <;> rw [hstatus] at h
  · cases h
  dsimp only at h
  rcases hid : Transport.bcasTransmit cmdCardIdInformation t' with ⟨e | r', t''⟩ <;> rw [hid] at h
  · cases h
  dsimp only at h
  rcases hids : parseIdResponse r' with e | ids <;> rw [hids] at h
  · cases h
  · obtain ⟨hok, rfl⟩ := Prod.mk.inj h
    obtain rfl := Except.ok.inj hok
    exact ⟨r, r', t', hstatus, hid, hids⟩

/-- What the card itself raises is a `CardError`. -/
theorem BCasCard.initializeCard_card_raises {card : BCasCard τ} {e : CardRaised}
    (h : card.initializeCard.1 = .error (.card e)) : ∃ message, e = .cardError message := by
  rw [initializeCard] at h
  rcases hreset : Transport.bcasReset card.transport with ⟨e | _, t⟩ <;> rw [hreset] at h
  · cases h
  dsimp only at h
  rcases hinit : Transport.bcasTransmit cmdInitialSettingConditions t with ⟨e | r, t'⟩ <;>
    rw [hinit] at h
  · cases h
  dsimp only at h
  rcases hstatus : parseInitResponse r with e' | status' <;> rw [hstatus] at h
  · obtain rfl := BCasRaised.card.inj (Except.error.inj h)
    rw [parseInitResponse] at hstatus
    split at hstatus
    · exact ⟨_, (Except.error.inj hstatus).symm⟩
    · dsimp only at hstatus
      split at hstatus
      · exact ⟨_, (Except.error.inj hstatus).symm⟩
      · cases hstatus
  dsimp only at h
  rcases hid : Transport.bcasTransmit cmdCardIdInformation t' with ⟨e | r', t''⟩ <;> rw [hid] at h
  · cases h
  dsimp only at h
  rcases hids : parseIdResponse r' with e' | ids <;> rw [hids] at h
  · obtain rfl := BCasRaised.card.inj (Except.error.inj h)
    exact parseIdResponse_raises hids
  · cases h

end Answers

section Tuner

variable {P : Primitives} {υ : Type} [Usb υ]

/-- The tuner carries answers of at most 117 bytes. -/
theorem DyUd200.length_bcasTransmit {tuner tuner' : DyUd200 υ} {apdu payload : Bytes}
    {retries : ℕ} (h : tuner.bcasTransmit P apdu retries = (.ok payload, tuner')) :
    payload.length ≤ 117 := by
  obtain ⟨s, block, res, -, -, hpayload⟩ :=
    DyUd200.command_of_bcasTransmit_eq_ok (I := fun _ ↦ True) (fun _ _ _ ↦ trivial) trivial h
  rw [bcasPayload] at hpayload
  simp only [bind, Except.bind, pure, Except.pure] at hpayload
  -- the two status bytes, what they say, the length byte and the bound
  split at hpayload
  · cases hpayload
  split at hpayload
  · cases hpayload
  split at hpayload
  · cases hpayload
  split at hpayload
  · cases hpayload
  split at hpayload
  · cases hpayload
  rename_i hfits
  obtain rfl := Except.ok.inj (Except.ok.inj hpayload)
  rw [length_slice]
  omega

variable (P) in
/-- Over the tuner a card has few ids, and everything it says is in range. -/
theorem BCasCard.ranges_of_initializeCard {card card' : BCasCard (DyUd200 υ)}
    {status : InitStatus} :
    letI := DyUd200.transport P υ
    card.initializeCard = (.ok status, card') →
      (status.systemKey.length = 32 ∧ status.initCbc.length = 8 ∧ status.cardId < 2 ^ 48 ∧
        status.cardStatus < 2 ^ 16 ∧ status.caSystemId < 2 ^ 16) ∧
      card'.ids.length ≤ 11 ∧ ∀ c ∈ card'.ids, c.id48 < 2 ^ 48 := by
  let _ := DyUd200.transport P υ
  intro h
  obtain ⟨r, r', t, hstatus, hid, hids⟩ := BCasCard.initializeCard_eq_ok h
  obtain ⟨hlength, hid48⟩ := ranges_of_parseIdResponse hids
  have hcarried : r'.length ≤ 117 := DyUd200.length_bcasTransmit hid
  exact ⟨ranges_of_parseInitResponse hstatus, by omega, hid48⟩

end Tuner

/-! ## Setting up -/

/-- The options of the descrambler. -/
structure B25Options where
  round : ℤ := 4
  strip : Bool := false
  emm : Bool := false

/-- An exception out of `setup_descrambler`. -/
inductive SetupRaised where
  | card (e : BCasRaised Raised)
  | memoryError

/-- `except (CardError, DeviceError)` -/
def caught : BCasRaised Raised → Bool
  | .card (.cardError _) => true
  | .transport (.deviceError _) => true
  | _ => false

section Setup

variable {ω ℓ τ υ : Type} [AribB25 ω ℓ]

/-- `setup_descrambler` on a new object that has a new card; `false` is `None`. -/
def setupDescrambler [Transport τ Raised] (options : B25Options) :
    Descrambler.Method ω ℓ τ Raised (Except SetupRaised Bool) := do
  match (← get).python.card.initializeCard with
  | (.error e, card) =>
    Descrambler.modifySelf fun self ↦ { self with card }
    if caught e then return .ok false else return .error (.card e)
  | (.ok status, card) =>
    Descrambler.modifySelf fun self ↦ { self with card }
    match ← Descrambler.construct status card.ids options.round options.strip options.emm with
    | .error (.b25 _) => return .ok false
    | .error .memoryError => return .error .memoryError
    | .ok () => return .ok true

/-- The card as the library sees it is the card as it was read. -/
structure CardSeen (c : CardState) (status : InitStatus) (ids : List CardId) : Prop where
  systemKey : c.status.systemKey = status.systemKey
  initCbc : c.status.initCbc = status.initCbc
  cardId : c.status.bcasCardId.toInt = status.cardId
  cardStatus : c.status.cardStatus.toInt = status.cardStatus
  caSystemId : c.status.caSystemId.toInt = status.caSystemId
  ids : c.ids.ids.map Int64.toInt = ids.map fun id ↦ (id.id48 : ℤ)

/-- The handle has the card that was read over the tuner. -/
def CardRead (P : Primitives) [Usb υ] (card : BCasCard (DyUd200 υ))
    (m : B25Memory ω ℓ (Descrambler (DyUd200 υ) Raised)) : Prop :=
  letI := DyUd200.transport P υ
  ∃ status card' p q c, card.initializeCard = (.ok status, card') ∧ m.python.h = some p ∧
    m.handles.read p = some { b25 := some q, card := some c } ∧ CardSeen c status card'.ids

omit [AribB25 ω ℓ] in
/-- Numbers of the card fit the numbers of C. -/
theorem cardSeen_of_opened {status : InitStatus} {ids : List CardId}
    {m : B25Memory ω ℓ (Descrambler τ Raised)} (h : Descrambler.Opened status ids m)
    (hstatus : status.cardId < 2 ^ 48 ∧ status.cardStatus < 2 ^ 16 ∧ status.caSystemId < 2 ^ 16)
    (hlength : ids.length ≤ 11) (hids : ∀ c ∈ ids, c.id48 < 2 ^ 48) : ∃ p q c,
      m.python.h = some p ∧ m.handles.read p = some { b25 := some q, card := some c } ∧
      CardSeen c status ids := by
  obtain ⟨p, q, array, hp, harray, hread⟩ := h
  refine ⟨p, q, _, hp, hread, rfl, rfl, ?_, ?_, ?_, ?_⟩
  · exact Int64.toInt_ofNat_of_lt (hstatus.1.trans (by norm_num))
  · exact Int32.toInt_ofNat_of_lt (hstatus.2.1.trans (by norm_num))
  · exact Int32.toInt_ofNat_of_lt (hstatus.2.2.trans (by norm_num))
  · have hcount : (Int32.ofNat ids.length).toInt = ids.length :=
      Int32.toInt_ofNat_of_lt (hlength.trans_lt (by norm_num))
    rw [harray, hcount, Int.toNat_natCast, List.take_of_length_le (by rw [List.length_map]),
      List.map_map]
    refine List.map_congr_left fun id hid ↦ ?_
    exact Int64.toInt_ofNat_of_lt ((hids id hid).trans (by norm_num))

/-- **Setting up** over a tuner: a descrambler whose handle has the card, or none and no handle. No
exception of the card or of the tuner gets out. -/
theorem ends_setupDescrambler (P : Primitives) [Usb υ] (options : B25Options)
    {m : B25Memory ω ℓ (Descrambler (DyUd200 υ) Raised)} (hm : Descrambler.Valid m)
    (hnew : m.python.h = none) :
    letI := DyUd200.transport P υ
    (setupDescrambler options).Ends (fun r m' ↦ Descrambler.Moves m m' ∧ match r with
      | .ok true => CardRead P m.python.card m'
      | .ok false => m'.python.h = none
      | .error e => e = .memoryError ∧ m'.python.h = none) m := by
  let _ := DyUd200.transport P υ
  refine ends_bind (ends_get ?_)
  split
  · rename_i e card hrun
    have hcaught : caught e = true := by
      cases e with
      | card e =>
        obtain ⟨message, rfl⟩ := BCasCard.initializeCard_card_raises (congrArg Prod.fst hrun)
        rfl
      | transport e =>
        obtain ⟨message, rfl⟩ :=
          BCasCard.tuner_raises P m.python.card [] (.inr (.inr (congrArg Prod.fst hrun)))
        rfl
    refine ends_bind (ends_modify (ends_ite (fun _ ↦ ends_pure ?_) fun hnot ↦ absurd hcaught hnot))
    exact ⟨⟨hm.owned.withPython _, .stay _ _⟩, hnew⟩
  · rename_i status card hrun
    obtain ⟨⟨hkey, hcbc, hstatus⟩, hlength, hids⟩ := BCasCard.ranges_of_initializeCard P hrun
    have hvalid : Descrambler.Valid { m with python := { m.python with card } } :=
      ⟨hm.owned.withPython _, hm.live⟩
    refine ends_bind (ends_modify (ends_bind ?_))
    refine (Descrambler.ends_construct hvalid hnew hkey hcbc card.ids options.round options.strip
      options.emm).mono fun r m' hconstruct ↦ ?_
    have hmoves : Descrambler.Moves m m' := ⟨hconstruct.1.owned, hconstruct.1.handover⟩
    match r, hconstruct.2 with
    | .error (.b25 _), hclosed => exact ends_pure ⟨hmoves, hclosed⟩
    | .error .memoryError, hclosed => exact ends_pure ⟨hmoves, rfl, hclosed⟩
    | .ok (), hopened =>
      obtain ⟨p, q, c, hp, hread, hseen⟩ := cardSeen_of_opened hopened hstatus hlength hids
      exact ends_pure ⟨hmoves, status, card, p, q, c, hrun, hp, hread, hseen⟩

/-- A new descrambler over a tuner that answers with its own numbers. -/
def overNumbering :
    B25Memory Unit Unit (Descrambler (DyUd200 (Endpoint NumberingDevice)) Raised) where
  outside := ()
  python := { card := { transport := { dev := numberingEndpoint fun _ ↦ .answered } } }

/-- Its answers are no card's. -/
theorem ends_setupDescrambler_overNumbering :
    letI := DyUd200.transport .plain (Endpoint NumberingDevice)
    ∃ m, (setupDescrambler {}).run overNumbering = some (.ok false, m) ∧ m.python.h = none := by
  let _ := DyUd200.transport .plain (Endpoint NumberingDevice)
  obtain ⟨r, m, hrun, -, hr⟩ := ends_setupDescrambler .plain {} (m := overNumbering)
    ⟨owned_new () _, nofun⟩ rfl
  have hresult : ((setupDescrambler {}).run overNumbering).map (fun x ↦ x.1.toOption)
      = some (some false) := by
    decide +kernel
  rw [hrun] at hresult
  match r, hr with
  | .ok false, hnone => exact ⟨m, hrun, hnone⟩
  | .ok true, _ => cases hresult
  | .error _, _ => cases hresult

/-! ## The recording -/

variable {ε α : Type} [Transport τ ε]

namespace Descrambler

/-- A method as the pipeline calls it; `none` is what undefined behaviour leaves. -/
def attempt (x : Method ω ℓ τ ε (Except B25Error α))
    (s : Option (B25Memory ω ℓ (Descrambler τ ε))) :
    Except B25Error α × Option (B25Memory ω ℓ (Descrambler τ ε)) :=
  match s.bind x.run with
  | none => (.error (.failed "" 0), none)
  | some (r, m) => (r, some m)

/-- The descrambler as the pipeline sees it, and a clock outside. -/
def environment (now : ω → ℚ × ω) : Environment (Option (B25Memory ω ℓ (Descrambler τ ε))) where
  put s data := ((attempt (put data) s).1.map fun _ ↦ (), (attempt (put data) s).2)
  get := attempt getData
  withdraw := attempt withdraw
  flush := attempt flush
  close s := (s.bind close.run).map Prod.snd
  clock s := ((s.map fun m ↦ (now m.outside).1).getD 0,
    s.map fun m ↦ { m with outside := (now m.outside).2 })
  rounding := BinaryFormat.binary64.rounding

/-- The method that `stream` calls when it comes to its end. -/
def countPrograms (s : Option (B25Memory ω ℓ (Descrambler τ ε))) :
    Option (B25Memory ω ℓ (Descrambler τ ε)) :=
  (s.bind programs.run).map Prod.snd

/-- The descrambler has its handle, and `S` are the handles there are. -/
def IsOpen (p : ℕ) (S : Set ℕ) (s : Option (B25Memory ω ℓ (Descrambler τ ε))) : Prop :=
  ∃ m, s = some m ∧ Valid m ∧ m.python.h = some p ∧ m.handles.live = S

/-- The descrambler has let its handle go. -/
def IsClosed (p : ℕ) (S : Set ℕ) (s : Option (B25Memory ω ℓ (Descrambler τ ε))) : Prop :=
  ∃ m, s = some m ∧ Owned m ∧ m.handles.live = S \ {p}

variable {p : ℕ} {S : Set ℕ} {s : Option (B25Memory ω ℓ (Descrambler τ ε))}

omit [AribB25 ω ℓ] [Transport τ ε] in
theorem isOpen_of_run {x : Method ω ℓ τ ε α} (hx : KeepsHandle x) (hs : IsOpen p S s) :
    ∃ a m', s.bind x.run = some (a, m') ∧ IsOpen p S (some m') := by
  obtain ⟨m, rfl, hvalid, hp, hlive⟩ := hs
  obtain ⟨a, m', hrun, hsteady⟩ := hx m hvalid
  refine ⟨a, m', hrun, m', rfl, hvalid.of_steady hsteady, hsteady.python.trans hp, ?_⟩
  rw [live_of_steady hsteady, hlive]

omit [AribB25 ω ℓ] [Transport τ ε] in
theorem isOpen_attempt {x : Method ω ℓ τ ε (Except B25Error α)} (hx : KeepsHandle x)
    (hs : IsOpen p S s) : IsOpen p S (attempt x s).2 := by
  obtain ⟨a, m', hrun, hopen⟩ := isOpen_of_run hx hs
  rwa [attempt, hrun]

theorem isOpen_countPrograms (hs : IsOpen p S s) : IsOpen p S (countPrograms s) := by
  obtain ⟨a, m', hrun, hopen⟩ := isOpen_of_run keepsHandle_programs hs
  rwa [countPrograms, hrun]

theorem environment_guards (now : ω → ℚ × ω) (p : ℕ) (S : Set ℕ) :
    (environment now : Environment (Option (B25Memory ω ℓ (Descrambler τ ε)))).Guards
      (IsOpen p S) (IsClosed p S) where
  put _ data := isOpen_attempt (keepsHandle_put data)
  get _ := isOpen_attempt keepsHandle_getData
  withdraw _ := isOpen_attempt keepsHandle_withdraw
  flush _ := isOpen_attempt keepsHandle_flush
  close s hs := by
    obtain ⟨m, rfl, hvalid, hp, hlive⟩ := hs
    obtain ⟨a, m', hrun, hmoves, hnone⟩ := ends_close hvalid
    have hhandover := hmoves.handover
    rw [hp, hlive, hnone] at hhandover
    exact ⟨m', congrArg (Option.map Prod.snd) hrun, hmoves.owned, hhandover.eq_sdiff⟩
  clock s hs := by
    obtain ⟨m, rfl, hvalid, hp, hlive⟩ := hs
    exact ⟨_, rfl, ⟨⟨hvalid.owned.object, hvalid.owned.oneToOne⟩, hvalid.live⟩, hp, hlive⟩

end Descrambler

end Setup

section Record

variable {ω ℓ υ : Type} [AribB25 ω ℓ] [Usb υ]

/-- **A recording leaves no handle**: `setup_descrambler` raises nothing but `MemoryError`, and then
no handle is left; otherwise, with a descrambler or without, however its methods turn out and
however far `stream` comes, `record` returns with no handle and no object of the library left. -/
theorem record_leaves_no_handle (P : Primitives) (options : B25Options) (startTimeout : ℚ)
    (now : ω → ℚ × ω) (outside : ω) (tuner : DyUd200 υ) :
    letI := DyUd200.transport P υ
    ∃ r, ∃ m : B25Memory ω ℓ (Descrambler (DyUd200 υ) Raised),
      (setupDescrambler options).run { outside, python := { card := { transport := tuner } } }
        = some (r, m) ∧
      match r with
      | .error e => e = .memoryError ∧ m.handles.live = ∅ ∧ m.objects.live = ∅
      | .ok descrambler => ∀ chunks ending, ∃ self m',
        (Pipeline.recordM (Descrambler.environment now) Descrambler.countPrograms chunks
          ending).exec ({ descrambler, startTimeout }, some m) = (.ok (), self, some m') ∧
        m'.handles.live = ∅ ∧ m'.objects.live = ∅ := by
  let _ := DyUd200.transport P υ
  have hvalid : Descrambler.Valid ({ outside, python := { card := { transport := tuner } } } :
      B25Memory ω ℓ (Descrambler (DyUd200 υ) Raised)) := ⟨owned_new outside _, nofun⟩
  obtain ⟨r, m, hrun, ⟨howned, hhandover⟩, hr⟩ := ends_setupDescrambler P options hvalid rfl
  refine ⟨r, m, hrun, ?_⟩
  rw [Arena.live_empty] at hhandover
  -- without a handle of its own, the descrambler has left none
  have hempty : m.python.h = none → m.handles.live = ∅ ∧ m.objects.live = ∅ := by
    intro hnone
    rw [hnone] at hhandover
    exact ⟨hhandover.eq_of_none, howned.objects_eq_empty hhandover.eq_of_none⟩
  match r, hr with
  | .error e, ⟨he, hnone⟩ => exact ⟨he, hempty hnone⟩
  | .ok false, hnone =>
    intro chunks ending
    have hguards : (Descrambler.environment now).Guards (fun _ ↦ False) (· = some m) :=
      ⟨fun _ _ h ↦ h, fun _ h ↦ h, fun _ h ↦ h, fun _ h ↦ h, fun _ h ↦ h.elim, fun _ h ↦ h⟩
    obtain ⟨⟨self, _⟩, hexec, rfl⟩ := Pipeline.exec_recordM hguards (fun _ h ↦ h)
      (s := ({ descrambler := false, startTimeout }, some m)) rfl chunks ending
    exact ⟨self, m, hexec, hempty hnone⟩
  | .ok true, ⟨_, _, p, _, _, _, hp, _⟩ =>
    intro chunks ending
    rw [hp] at hhandover
    have hlive : m.handles.live = {p} := hhandover.eq_insert.trans (insert_empty_eq p)
    have hopen : Descrambler.IsOpen p {p} (some m) := by
      refine ⟨m, rfl, ⟨howned, fun p' hp' ↦ ?_⟩, hp, hlive⟩
      rw [hlive, Option.some.inj (hp.symm.trans hp')]
      exact Set.mem_singleton p'
    obtain ⟨⟨self, _⟩, hexec, m', rfl, howned', hclosed⟩ :=
      Pipeline.exec_recordM (Descrambler.environment_guards now p {p})
        (fun _ ↦ Descrambler.isOpen_countPrograms)
        (s := ({ descrambler := true, startTimeout }, some m)) hopen chunks ending
    rw [Set.sdiff_self] at hclosed
    exact ⟨self, m', hexec, hclosed, howned'.objects_eq_empty hclosed⟩

end Record

end Recdyud
