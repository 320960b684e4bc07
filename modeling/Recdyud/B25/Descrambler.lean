import Recdyud.B25.Shim
import Recdyud.Bcas.Card
import Recdyud.Cli.Pipeline

/-!
# The descrambler

A `Descrambler` holds the handle that the shim gave it. It is made in two steps, the handle and the
card, and lets the handle go when the second fails; `close` may be called any number of times, by
`__exit__` and `__del__` too. While the library works on the object behind the handle it calls back
into `_on_ecm` and `_on_emm`, from which no exception comes out.

## Nothing is freed twice, nothing is left

Any number of descramblers are made, used and closed in any order, also after they were closed or
when they could not be made (`DescramblerCall`). A run has no undefined behaviour: no handle is used
or freed after it was freed, and no copy reads behind its source. In every state it comes to, the
handles there are belong to the descramblers that are open, each to one, and each has an object of
the library of its own (`descramblers_own_handles`).
-/

namespace Recdyud

open Code ShimCode

/-- `h` is `_h`, and `callbackError` the last exception of `_on_ecm`. -/
structure Descrambler (τ ε : Type) where
  h : Option ℕ := none
  card : BCasCard τ
  callbackError : Option (BCasRaised ε) := none

/-- An exception out of the constructor. -/
inductive ConstructRaised where
  | memoryError
  | b25 (e : B25Error)
  deriving DecidableEq, Repr

namespace Descrambler

variable {ω ℓ τ ε α : Type}

/-- A method: it changes its object, and the memory of the C side. -/
abbrev Method (ω ℓ τ ε α : Type) := ShimCode ω ℓ (Descrambler τ ε) α

def modifySelf (f : Descrambler τ ε → Descrambler τ ε) : Method ω ℓ τ ε Unit :=
  modify fun m ↦ { m with python := f m.python }

section Model

variable [Transport τ ε]

/-- `_on_ecm` -/
def onEcm (ecm : Bytes) : Method ω ℓ τ ε (ℤ × EcmResult) := do
  match (← get).python.card.processEcm ecm with
  | (.ok (key, code), card) =>
    modifySelf fun self ↦ { self with card }
    let scrambleKey ← memcpy key 16
    return (0, ⟨scrambleKey, UInt32.ofNat code⟩)
  | (.error e, card) =>
    modifySelf fun self ↦ { self with card, callbackError := some e }
    return (-1, .zero)

/-- `_on_emm` -/
def onEmm (emm : Bytes) : Method ω ℓ τ ε ℤ := do
  match (← get).python.card.processEmm emm with
  | (.ok (), card) =>
    modifySelf fun self ↦ { self with card }
    return 0
  | (.error _, card) =>
    modifySelf fun self ↦ { self with card }
    return -1

def callbacks : BCasCallbacks ω ℓ (Descrambler τ ε) := ⟨onEcm, onEmm⟩

variable [AribB25 ω ℓ]

def close : Method ω ℓ τ ε Unit := do
  if (← get).python.h ≠ none then
    recdyudB25Destroy callbacks (← get).python.h
    modifySelf fun self ↦ { self with h := none }

/-- `(ctypes.c_int64 * max(1, len(ids)))(*[c.id48 for c in ids])` -/
def idArray (ids : List CardId) : List Int64 :=
  ids.map (fun c ↦ Int64.ofNat c.id48) ++ List.replicate (1 - ids.length) 0

/-- `__init__` on a new object that has its card, once `_load()` has found the library -/
def construct (status : InitStatus) (ids : List CardId) (multi2Round : ℤ) (strip emm : Bool) :
    Method ω ℓ τ ε (Except ConstructRaised Unit) := do
  let h ← recdyudB25Create callbacks (Int32.ofInt multi2Round) (if strip then 1 else 0)
    (if emm then 1 else 0)
  modifySelf fun self ↦ { self with h }
  if h = none then return .error .memoryError
  let r ← recdyudB25SetCard callbacks h status.systemKey status.initCbc
    (Int64.ofNat status.cardId) (Int32.ofNat status.cardStatus) (Int32.ofNat status.caSystemId)
    (idArray ids) (Int32.ofNat ids.length) true true
  if r < 0 then
    close
    return .error (.b25 (.failed "set_b_cas_card" r))
  return .ok ()

/-- Feed TS data. Returns 0 or a positive warning. -/
def put (data : Bytes) : Method ω ℓ τ ε (Except B25Error ℤ) := do
  let r ← recdyudB25Put callbacks (← get).python.h data
  if r < 0 then return .error (.failed "put" r)
  return .ok r

/-- `_take` -/
def take (op : String) (f : Option ℕ → Method ω ℓ τ ε (ℤ × Option Bytes)) :
    Method ω ℓ τ ε (Except B25Error Bytes) := do
  let (r, data) ← f (← get).python.h
  if r < 0 then return .error (.failed op r)
  return .ok (data.getD [])

def getData : Method ω ℓ τ ε (Except B25Error Bytes) := take "get" (recdyudB25Get callbacks)

/-- Return data buffered inside the descrambler without processing it. -/
def withdraw : Method ω ℓ τ ε (Except B25Error Bytes) :=
  take "withdraw" (recdyudB25Withdraw callbacks)

def flush : Method ω ℓ τ ε (Except B25Error Bytes) := do
  let r ← recdyudB25Flush callbacks (← get).python.h
  if r < 0 then return .error (.failed "flush" r)
  getData

/-- The programs with these indices, without those that the library does not know. -/
def programInfos : List ℕ → Method ω ℓ τ ε (List ProgramInfo)
  | [] => return []
  | i :: is => do
    let (r, info) ← recdyudB25ProgramInfo callbacks (← get).python.h (Int32.ofNat i)
    let rest ← programInfos is
    if r = 0 then return info :: rest else return rest

def programs : Method ω ℓ τ ε (List ProgramInfo) := do
  let n ← recdyudB25ProgramCount callbacks (← get).python.h
  programInfos (List.range n.toNat)

end Model

/-! ## The callbacks -/

section Callbacks

variable [Transport τ ε] {m : B25Memory ω ℓ (Descrambler τ ε)} {card' : BCasCard τ}

/-- The key that the card returns is a whole one. -/
theorem length_key {card : BCasCard τ} {ecm key : Bytes} {code : ℕ}
    (h : card.processEcm ecm = (.ok (key, code), card')) : key.length = 16 := by
  rw [BCasCard.processEcm] at h
  split at h
  · cases h
  dsimp only at h
  rcases ht : Transport.bcasTransmit (wrap ecmHeader ecm) card.transport with ⟨e | r, t⟩ <;>
    rw [ht] at h
  · cases h
  dsimp only at h
  split at h
  · cases h
  · rename_i hlen
    obtain ⟨hok, -⟩ := Prod.mk.inj h
    obtain ⟨rfl, -⟩ := Prod.mk.inj (Except.ok.inj hok)
    rw [length_slice]
    omega

/-- What `_on_ecm` does, by what the card does. -/
theorem ends_onEcm {ecm : Bytes} {Q : ℤ × EcmResult → B25Memory ω ℓ (Descrambler τ ε) → Prop}
    (hok : ∀ key code card, m.python.card.processEcm ecm = (.ok (key, code), card) →
      Q (0, ⟨key, UInt32.ofNat code⟩) { m with python := { m.python with card } })
    (herror : ∀ e card, m.python.card.processEcm ecm = (.error e, card) →
      Q (-1, .zero) { m with python := { m.python with card, callbackError := some e } }) :
    (onEcm ecm).Ends Q m := by
  refine ends_bind (ends_get ?_)
  split
  · rename_i key code card h
    refine ends_bind (ends_modify (ends_bind (ends_ite (fun _ ↦ ends_pure (ends_pure ?_)) ?_)))
    · have hkey : (key ++ [0]).take 16 = key := by rw [← length_key h, List.take_left]
      rw [hkey]
      exact hok key code card h
    · intro hshort
      exact absurd (by rw [length_key h]; omega) hshort
  · rename_i e card h
    exact ends_bind (ends_modify (ends_pure (herror e card h)))

theorem ends_onEmm {emm : Bytes} {Q : ℤ → B25Memory ω ℓ (Descrambler τ ε) → Prop}
    (hok : ∀ card, m.python.card.processEmm emm = (.ok (), card) →
      Q 0 { m with python := { m.python with card } })
    (herror : ∀ e card, m.python.card.processEmm emm = (.error e, card) →
      Q (-1) { m with python := { m.python with card } }) : (onEmm emm).Ends Q m := by
  refine ends_bind (ends_get ?_)
  split
  · rename_i card h
    exact ends_bind (ends_modify (ends_pure (hok card h)))
  · rename_i e card h
    exact ends_bind (ends_modify (ends_pure (herror e card h)))

/-- **No exception goes into C**: the callbacks return, and leave the handle alone. -/
theorem callbacks_safe (h : Option ℕ) :
    (callbacks : BCasCallbacks ω ℓ (Descrambler τ ε)).Safe fun self ↦ self.h = h where
  ecm _ _ hh := ends_onEcm (fun _ _ _ _ ↦ ⟨rfl, rfl, hh⟩) fun _ _ _ ↦ ⟨rfl, rfl, hh⟩
  emm _ _ hh := ends_onEmm (fun _ _ ↦ ⟨rfl, rfl, hh⟩) fun _ _ _ ↦ ⟨rfl, rfl, hh⟩

end Callbacks

/-! ## What a method does to the handles -/

/-- The descrambler has kept its handle, got a new one or let it go, and the other handles are as
they were. -/
structure Moves (m m' : B25Memory ω ℓ (Descrambler τ ε)) : Prop where
  owned : Owned m'
  handover : Handover m.python.h m.handles.live m'.python.h m'.handles.live

/-- The handle of the descrambler is there, and every handle has its object. -/
structure Valid (m : B25Memory ω ℓ (Descrambler τ ε)) : Prop where
  owned : Owned m
  live : ∀ p, m.python.h = some p → p ∈ m.handles.live

/-- The method is defined, and leaves the handle as it is. -/
def KeepsHandle (x : Method ω ℓ τ ε α) : Prop :=
  ∀ m, Valid m → x.Ends (fun _ ↦ Steady (fun self ↦ self.h = m.python.h) m) m

section Handles

variable {m m' : B25Memory ω ℓ (Descrambler τ ε)}

theorem Valid.object (h : Valid m) {p : ℕ} (hp : m.python.h = some p) : ∃ handle q,
    m.handles.read p = some handle ∧ handle.b25 = some q ∧ q ∈ m.objects.live := by
  obtain ⟨handle, hread⟩ := h.live p hp
  obtain ⟨q, hlive, hb25⟩ := h.owned.mem_live hread
  exact ⟨handle, q, hread, hb25, hlive⟩

theorem live_of_steady {J : Descrambler τ ε → Prop} (hs : Steady J m m') :
    m'.handles.live = m.handles.live := by
  ext p
  rw [Arena.mem_live_iff, Arena.mem_live_iff, hs.read]

theorem Valid.of_steady (h : Valid m) (hs : Steady (fun self ↦ self.h = m.python.h) m m') :
    Valid m' where
  owned := h.owned.of_steady hs
  live p hp := by
    rw [live_of_steady hs]
    exact h.live p (hs.python.symm.trans hp)

theorem Valid.moves_of_steady (h : Valid m) (hs : Steady (fun self ↦ self.h = m.python.h) m m') :
    Moves m m' where
  owned := h.owned.of_steady hs
  handover := by
    rw [live_of_steady hs, hs.python]
    exact .stay _ _

theorem keepsHandle_pure (a : α) : KeepsHandle (pure a : Method ω ℓ τ ε α) :=
  fun _ _ ↦ ends_pure (.refl rfl)

theorem keepsHandle_bind {β : Type} {x : Method ω ℓ τ ε α} {f : α → Method ω ℓ τ ε β}
    (hx : KeepsHandle x) (hf : ∀ a, KeepsHandle (f a)) : KeepsHandle (x >>= f) := by
  intro m hm
  refine ends_bind ((hx m hm).mono fun a m₁ h₁ ↦ ?_)
  refine (hf a m₁ (hm.of_steady h₁)).mono fun b m₂ h₂ ↦ ?_
  refine h₁.trans ⟨h₂.read, h₂.live, ?_⟩
  exact h₂.python.trans h₁.python

theorem keepsHandle_ite {c : Prop} [Decidable c] {x y : Method ω ℓ τ ε α} (hx : KeepsHandle x)
    (hy : KeepsHandle y) : KeepsHandle (if c then x else y) := by
  split
  · exact hx
  · exact hy

/-- A function of the library behind the handle of the descrambler. -/
theorem keepsHandle_callHandle [Transport τ ε] (refused : α)
    (f : ℓ → Foreign BCasCall BCasAnswer (α × ℓ)) :
    KeepsHandle (do callHandle callbacks (← get).python.h refused f : Method ω ℓ τ ε α) :=
  fun m hm ↦ ends_bind (ends_get
    (ends_callHandle (callbacks_safe m.python.h) (fun _ hp ↦ hm.object hp) rfl refused f))

/-- A method that goes on behind a function of the library. -/
theorem keepsHandle_call [Transport τ ε] {β : Type} {refused : α}
    {f : ℓ → Foreign BCasCall BCasAnswer (α × ℓ)} {k : α → Method ω ℓ τ ε β}
    (hk : ∀ a, KeepsHandle (k a)) :
    KeepsHandle (do let a ← callHandle callbacks (← get).python.h refused f; k a) := by
  have hbind := keepsHandle_bind (keepsHandle_callHandle refused f) hk
  rwa [bind_assoc] at hbind

end Handles

/-! ## The methods -/

section Methods

variable [Transport τ ε] [AribB25 ω ℓ] {m : B25Memory ω ℓ (Descrambler τ ε)}

theorem keepsHandle_put (data : Bytes) : KeepsHandle (put data : Method ω ℓ τ ε _) :=
  keepsHandle_call fun _ ↦ keepsHandle_ite (keepsHandle_pure _) (keepsHandle_pure _)

theorem keepsHandle_getData : KeepsHandle (getData : Method ω ℓ τ ε _) :=
  keepsHandle_call fun _ ↦ keepsHandle_ite (keepsHandle_pure _) (keepsHandle_pure _)

theorem keepsHandle_withdraw : KeepsHandle (withdraw : Method ω ℓ τ ε _) :=
  keepsHandle_call fun _ ↦ keepsHandle_ite (keepsHandle_pure _) (keepsHandle_pure _)

theorem keepsHandle_flush : KeepsHandle (flush : Method ω ℓ τ ε _) :=
  keepsHandle_call fun _ ↦ keepsHandle_ite (keepsHandle_pure _) keepsHandle_getData

theorem keepsHandle_programInfos (is : List ℕ) :
    KeepsHandle (programInfos is : Method ω ℓ τ ε _) := by
  induction is with
  | nil => exact keepsHandle_pure _
  | cons i is ih =>
    have hinfo : KeepsHandle (do
        recdyudB25ProgramInfo callbacks (← get).python.h (Int32.ofNat i) : Method ω ℓ τ ε _) :=
      keepsHandle_call fun _ ↦ keepsHandle_ite (keepsHandle_pure _) (keepsHandle_pure _)
    have hbind := keepsHandle_bind hinfo fun x ↦ keepsHandle_bind ih fun rest ↦
      keepsHandle_ite (c := x.1 = 0) (keepsHandle_pure (x.2 :: rest)) (keepsHandle_pure rest)
    rwa [bind_assoc] at hbind

theorem keepsHandle_programs : KeepsHandle (programs : Method ω ℓ τ ε _) :=
  keepsHandle_call fun _ ↦ keepsHandle_programInfos _

/-- **`close`** lets the handle go, if there still is one. -/
theorem ends_close (hm : Valid m) :
    (close : Method ω ℓ τ ε Unit).Ends (fun _ m' ↦ Moves m m' ∧ m'.python.h = none) m := by
  refine ends_bind (ends_get ?_)
  refine ends_ite (fun hopen ↦ ?_) fun hclosed ↦ ?_
  · obtain ⟨p, hp⟩ := Option.ne_none_iff_exists'.mp hopen
    obtain ⟨handle, q, hread, hb25, hlive⟩ := hm.object hp
    refine ends_bind (ends_get ?_)
    rw [hp]
    refine ends_bind ((ends_destroy (callbacks_safe m.python.h) hread hb25 hlive rfl).mono ?_)
    rintro - m' ⟨hh, hread', hlive'⟩
    refine ends_modify ⟨⟨hm.owned.update hread' nofun ?_, ?_⟩, rfl⟩
    · rw [objectOf_of_read hread, hb25, hlive']
      exact .lose q _
    · rw [hp, Arena.live_of_read_none hread']
      exact .lose p _
  · exact ends_pure ⟨hm.moves_of_steady (.refl rfl), not_not.mp hclosed⟩

/-- The handle of the descrambler has this card. -/
def Opened (status : InitStatus) (ids : List CardId) (m : B25Memory ω ℓ (Descrambler τ ε)) : Prop :=
  ∃ p q array, m.python.h = some p ∧
    array.ids = (ids.map fun c ↦ Int64.ofNat c.id48).take (Int32.ofNat ids.length).toInt.toNat ∧
    m.handles.read p = some { b25 := some q, card := some {
      status := ⟨status.systemKey, status.initCbc, Int64.ofNat status.cardId,
        Int32.ofNat status.cardStatus, Int32.ofNat status.caSystemId⟩
      ids := array, ecm := true, emm := true } }

/-- A count that does not fit 32 bits comes out smaller. -/
theorem toNat_toInt_ofNat_le (n : ℕ) : (Int32.ofNat n).toInt.toNat ≤ n := by
  rw [Int32.toInt_ofNat', Int.bmod_def, show Int32.size = 4294967296 from rfl]
  split
  · omega
  · omega

theorem ends_setCard_self (hm : Valid m) {p : ℕ} (hp : m.python.h = some p) {status : InitStatus}
    (hkey : status.systemKey.length = 32) (hcbc : status.initCbc.length = 8) (ids : List CardId) :
    (recdyudB25SetCard callbacks (some p) status.systemKey status.initCbc
      (Int64.ofNat status.cardId) (Int32.ofNat status.cardStatus) (Int32.ofNat status.caSystemId)
      (idArray ids) (Int32.ofNat ids.length) true true : Method ω ℓ τ ε ℤ).Ends (fun r m' ↦
        Valid m' ∧ m'.handles.live = m.handles.live ∧ m'.python.h = some p ∧
          (0 ≤ r → Opened status ids m')) m := by
  obtain ⟨handle, q, hread, hb25, hlive⟩ := hm.object hp
  have hcount : (Int32.ofNat ids.length).toInt.toNat ≤ ids.length := toNat_toInt_ofNat_le _
  have harray : (Int32.ofNat ids.length).toInt.toNat ≤ (idArray ids).length := by
    rw [idArray, List.length_append, List.length_map]
    omega
  refine (ends_setCard (callbacks_safe (some p)) hread hb25 hlive hp hkey hcbc harray _ _ _).mono ?_
  rintro r m' ⟨hh, hlive', hcard⟩
  split at hcard
  · obtain ⟨rfl, hread'⟩ := hcard
    have hsteady : Steady (fun self ↦ self.h = m.python.h) m m' :=
      ⟨hread', hlive', hh.trans hp.symm⟩
    exact ⟨hm.of_steady hsteady, live_of_steady hsteady, hh, fun hr ↦ absurd hr (by decide)⟩
  · obtain ⟨array, hids, hread'⟩ := hcard
    have hhandles : m'.handles.live = m.handles.live := by
      rw [Arena.live_of_read_some hread']
      exact Set.insert_eq_of_mem ⟨handle, hread⟩
    refine ⟨⟨hm.owned.update hread' ?_ ?_, ?_⟩, hhandles, hh, fun _ ↦ ⟨p, q, array, hh, ?_, ?_⟩⟩
    · rintro h ⟨⟩
      exact ⟨q, hb25⟩
    · rw [objectOf_of_read hread, hlive']
      exact .stay _ _
    · intro p' hp'
      rw [hhandles]
      exact hm.live p' (hp.trans (hh.symm.trans hp'))
    · rw [hids, idArray, List.take_append_of_le_length (by rwa [List.length_map])]
    · rw [hread', Function.update_self, ← hb25]

/-- **A descrambler is made**, or none: when the constructor raises, no handle is left. -/
theorem ends_construct (hm : Valid m) (hnew : m.python.h = none) {status : InitStatus}
    (hkey : status.systemKey.length = 32) (hcbc : status.initCbc.length = 8) (ids : List CardId)
    (multi2Round : ℤ) (strip emm : Bool) :
    (construct status ids multi2Round strip emm : Method ω ℓ τ ε _).Ends
      (fun r m' ↦ Moves m m' ∧ match r with
        | .error _ => m'.python.h = none
        | .ok () => Opened status ids m') m := by
  refine ends_bind ((ends_create (callbacks_safe m.python.h) rfl _ _ _).mono fun h m₁ h₁ ↦ ?_)
  refine ends_bind (ends_modify ?_)
  cases h with
  | none =>
    have hsteady : Steady (fun self ↦ self.h = m.python.h) m m₁ := h₁
    refine ends_ite (fun _ ↦ ends_pure ⟨⟨(hm.owned.of_steady hsteady).withPython _, ?_⟩, rfl⟩) nofun
    rw [hnew]
    exact live_of_steady hsteady ▸ .stay none _
  | some p =>
    have hcreated : Created (fun self ↦ self.h = m.python.h) m m₁ p := h₁
    refine ends_ite nofun fun _ ↦ ?_
    obtain ⟨q, hq, hlive, hread⟩ := hcreated.object
    have hp : p ∉ m.handles.live := fun ⟨_, hread'⟩ ↦ by
      rw [hcreated.new] at hread'
      cases hread'
    have hhandles : m₁.handles.live = insert p m.handles.live := Arena.live_of_read_some hread
    have howned : Owned m₁ := by
      refine hm.owned.update hread ?_ ?_
      · rintro h ⟨⟩
        exact ⟨q, rfl⟩
      · rw [objectOf, Function.comp_apply, hcreated.new, hlive]
        exact .gain hq
    have hvalid : Valid { m₁ with python := { m₁.python with h := some p } } := by
      refine ⟨howned.withPython _, ?_⟩
      rintro p' ⟨⟩
      exact hhandles ▸ Set.mem_insert p _
    refine ends_bind ((ends_setCard_self hvalid rfl hkey hcbc ids).mono fun r m₂ h₂ ↦ ?_)
    obtain ⟨hvalid₂, hlive₂, hp₂, hopened⟩ := h₂
    refine ends_ite (fun _ ↦ ?_) fun hr ↦ ends_pure ⟨⟨hvalid₂.owned, ?_⟩, hopened (not_lt.mp hr)⟩
    · refine ends_bind ((ends_close hvalid₂).mono fun _ m₃ h₃ ↦ ends_pure ?_)
      obtain ⟨⟨howned₃, hhandover⟩, hnone⟩ := h₃
      refine ⟨⟨howned₃, ?_⟩, hnone⟩
      rw [hp₂, hlive₂, hnone, hhandles] at hhandover
      rw [hnew, hnone, hhandover.eq_sdiff, Set.insert_sdiff_self_of_notMem hp]
      exact .stay none _
    · rw [hnew, hp₂, hlive₂, hhandles]
      exact .gain hp

/-- After `close`, or when there never was a handle, nothing is called any more. -/
theorem run_of_closed (h : m.python.h = none) :
    (∀ data, (put data).run m = some (.error (.failed "put" (-1)), m))
    ∧ (getData : Method ω ℓ τ ε _).run m = some (.error (.failed "get" (-1)), m)
    ∧ (withdraw : Method ω ℓ τ ε _).run m = some (.error (.failed "withdraw" (-1)), m)
    ∧ (flush : Method ω ℓ τ ε _).run m = some (.error (.failed "flush" (-1)), m)
    ∧ (programs : Method ω ℓ τ ε _).run m = some ([], m)
    ∧ (close : Method ω ℓ τ ε _).run m = some ((), m) := by
  obtain ⟨outside, objects, handles, ⟨h', card, callbackError⟩⟩ := m
  obtain rfl : h' = none := h
  exact ⟨fun _ ↦ rfl, rfl, rfl, rfl, rfl, rfl⟩

end Methods

end Descrambler

/-! ## Any number of descramblers -/

/-- A call on one of the descramblers, by its number. `close` is also what `__exit__` and `__del__`
do. -/
inductive DescramblerCall (τ : Type) where
  | construct (card : BCasCard τ) (status : InitStatus) (ids : List CardId) (multi2Round : ℤ)
    (strip emm : Bool)
  | put (i : ℕ) (data : Bytes)
  | get (i : ℕ)
  | withdraw (i : ℕ)
  | flush (i : ℕ)
  | programs (i : ℕ)
  | close (i : ℕ)

section Runs

variable {ω ℓ τ ε α : Type} [Transport τ ε] [AribB25 ω ℓ]

/-- The memory of the C side, and the descramblers that were made, in order. -/
abbrev Descramblers (ω ℓ τ ε : Type) := B25Memory ω ℓ (List (Descrambler τ ε))

/-- A method of one descrambler; `none` is undefined behaviour. -/
def onDescrambler (i : ℕ) (x : Descrambler.Method ω ℓ τ ε α) (m : Descramblers ω ℓ τ ε) :
    Option (Descramblers ω ℓ τ ε) :=
  match m.python[i]? with
  | none => some m
  | some self => (x.run { m with python := self }).map fun r ↦
    { r.2 with python := m.python.set i r.2.python }

/-- A descrambler that cannot be made is there nevertheless, until `__del__`. -/
def DescramblerCall.perform (m : Descramblers ω ℓ τ ε) :
    DescramblerCall τ → Option (Descramblers ω ℓ τ ε)
  | .construct card status ids multi2Round strip emm =>
    ((Descrambler.construct status ids multi2Round strip emm).run
      { m with python := { card } }).map fun r ↦
        { r.2 with python := m.python ++ [r.2.python] }
  | .put i data => onDescrambler i (Descrambler.put data) m
  | .get i => onDescrambler i Descrambler.getData m
  | .withdraw i => onDescrambler i Descrambler.withdraw m
  | .flush i => onDescrambler i Descrambler.flush m
  | .programs i => onDescrambler i Descrambler.programs m
  | .close i => onDescrambler i Descrambler.close m

/-- The runs of calls; a call with undefined behaviour ends the run. -/
def descramblerMachine (ℓ : Type) [AribB25 ω ℓ] (outside : ω) :
    Machine (Descramblers ω ℓ τ ε) (DescramblerCall τ) where
  init := { outside, python := [] }
  step m call := call.perform m

/-- The keys are as long as those of a card. -/
def DescramblerCall.WellFormed : DescramblerCall τ → Prop
  | .construct _ status _ _ _ _ => status.systemKey.length = 32 ∧ status.initCbc.length = 8
  | _ => True

/-- The handle of a descrambler by its number. -/
def handleOf (descramblers : List (Descrambler τ ε)) (i : ℕ) : Option ℕ :=
  descramblers[i]?.bind Descrambler.h

/-- Every handle belongs to one descrambler, and every object to one handle. -/
structure HandlesOwned (m : Descramblers ω ℓ τ ε) : Prop where
  owned : Owned m
  oneToOne : OneToOne (handleOf m.python) m.handles.live

omit [Transport τ ε] in
theorem handleOf_set {descramblers : List (Descrambler τ ε)} {i : ℕ} {self : Descrambler τ ε}
    (h : descramblers[i]? = some self) (self' : Descrambler τ ε) :
    handleOf (descramblers.set i self') = Function.update (handleOf descramblers) i self'.h := by
  have hlt : i < descramblers.length := (List.getElem?_eq_some_iff.mp h).1
  ext1 j
  by_cases hj : j = i
  · subst hj
    rw [handleOf, List.getElem?_set_self hlt, Function.update_self, Option.bind_some]
  · rw [handleOf, List.getElem?_set_ne (Ne.symm hj), Function.update_of_ne hj, handleOf]

omit [Transport τ ε] in
theorem handleOf_concat (descramblers : List (Descrambler τ ε)) (self : Descrambler τ ε) :
    handleOf (descramblers ++ [self]) =
      Function.update (handleOf descramblers) descramblers.length self.h := by
  ext1 j
  rcases lt_trichotomy j descramblers.length with hlt | rfl | hgt
  · rw [handleOf, List.getElem?_append_left hlt, Function.update_of_ne hlt.ne, handleOf]
  · rw [handleOf, List.getElem?_concat_length, Function.update_self, Option.bind_some]
  · have hnone : (descramblers ++ [self])[j]? = none :=
      List.getElem?_eq_none (by rw [List.length_append, List.length_singleton]; omega)
    rw [handleOf, hnone, Function.update_of_ne hgt.ne', handleOf, List.getElem?_eq_none hgt.le]

namespace HandlesOwned

variable {m : Descramblers ω ℓ τ ε} {self : Descrambler τ ε} {i : ℕ}

omit [Transport τ ε] [AribB25 ω ℓ] in
theorem valid (h : HandlesOwned m) (hself : m.python[i]? = some self) :
    Descrambler.Valid { m with python := self } where
  owned := h.owned.withPython self
  live p hp := by
    refine (h.oneToOne.mem_iff p).mpr ⟨i, ?_⟩
    rw [handleOf, hself]
    exact hp

omit [Transport τ ε] [AribB25 ω ℓ] in
/-- **A method of one of the descramblers.** -/
theorem onDescrambler (h : HandlesOwned m) {x : Descrambler.Method ω ℓ τ ε α}
    (hx : ∀ m, Descrambler.Valid m → x.Ends (fun _ ↦ Descrambler.Moves m) m) (i : ℕ) :
    ∃ m', onDescrambler i x m = some m' ∧ HandlesOwned m' := by
  rw [Recdyud.onDescrambler]
  rcases hself : m.python[i]? with _ | self
  · exact ⟨m, rfl, h⟩
  · obtain ⟨a, m', hrun, hmoves⟩ := hx _ (h.valid hself)
    refine ⟨_, congrArg (Option.map _) hrun, hmoves.owned.withPython _, ?_⟩
    show OneToOne (handleOf (m.python.set i m'.python)) m'.handles.live
    rw [handleOf_set hself]
    refine h.oneToOne.handover ?_
    rw [handleOf, hself]
    exact hmoves.handover

omit [Transport τ ε] [AribB25 ω ℓ] in
theorem keepsHandle (h : HandlesOwned m) {x : Descrambler.Method ω ℓ τ ε α}
    (hx : Descrambler.KeepsHandle x) (i : ℕ) :
    ∃ m', Recdyud.onDescrambler i x m = some m' ∧ HandlesOwned m' :=
  h.onDescrambler (fun m hm ↦ (hx m hm).mono fun _ _ hs ↦ hm.moves_of_steady hs) i

/-- **A call** on any of the descramblers. -/
theorem perform (h : HandlesOwned m) {call : DescramblerCall τ} (hcall : call.WellFormed) :
    ∃ m', call.perform m = some m' ∧ HandlesOwned m' := by
  cases call with
  | construct card status ids multi2Round strip emm =>
    obtain ⟨hkey, hcbc⟩ := hcall
    have hvalid : Descrambler.Valid
        ({ m with python := { card } } : B25Memory ω ℓ (Descrambler τ ε)) :=
      ⟨h.owned.withPython _, nofun⟩
    obtain ⟨a, m', hrun, hmoves, -⟩ :=
      Descrambler.ends_construct hvalid rfl hkey hcbc ids multi2Round strip emm
    refine ⟨_, congrArg (Option.map _) hrun, hmoves.owned.withPython _, ?_⟩
    show OneToOne (handleOf (m.python ++ [m'.python])) m'.handles.live
    rw [handleOf_concat]
    refine h.oneToOne.handover ?_
    rw [handleOf, List.getElem?_eq_none le_rfl]
    exact hmoves.handover
  | put i data => exact h.keepsHandle (Descrambler.keepsHandle_put data) i
  | get i => exact h.keepsHandle Descrambler.keepsHandle_getData i
  | withdraw i => exact h.keepsHandle Descrambler.keepsHandle_withdraw i
  | flush i => exact h.keepsHandle Descrambler.keepsHandle_flush i
  | programs i => exact h.keepsHandle Descrambler.keepsHandle_programs i
  | close i =>
    exact h.onDescrambler (fun m hm ↦ (Descrambler.ends_close hm).mono fun _ _ hs ↦ hs.1) i

end HandlesOwned

/-- The calls on a descrambler that was made. -/
def DescramblerCall.onNumber (i : ℕ) (data : Bytes) : List (DescramblerCall τ) :=
  [.put i data, .get i, .withdraw i, .flush i, .programs i, .close i]

/-- A closed descrambler does nothing. -/
theorem perform_of_closed {m : Descramblers ω ℓ τ ε} {i : ℕ} {self : Descrambler τ ε}
    (hself : m.python[i]? = some self) (hclosed : self.h = none) (data : Bytes) :
    ∀ call ∈ DescramblerCall.onNumber i data, call.perform m = some m := by
  have hsame : m.python.set i self = m.python := by
    obtain ⟨hlt, rfl⟩ := List.getElem?_eq_some_iff.mp hself
    exact List.set_getElem_self hlt
  have hnothing : ∀ {α : Type} {x : Descrambler.Method ω ℓ τ ε α} {a : α},
      x.run { m with python := self } = some (a, { m with python := self }) →
      onDescrambler i x m = some m := by
    intro α x a hrun
    rw [onDescrambler, hself]
    dsimp only
    rw [hrun, Option.map_some, hsame]
  obtain ⟨hput, hget, hwithdraw, hflush, hprograms, hclose⟩ :=
    Descrambler.run_of_closed (m := { m with python := self }) hclosed
  simp only [DescramblerCall.onNumber, List.forall_mem_cons, DescramblerCall.perform]
  exact ⟨hnothing (hput data), hnothing hget, hnothing hwithdraw, hnothing hflush,
    hnothing hprograms, hnothing hclose, fun _ ↦ nofun⟩

/-- **Nothing is freed twice, nothing is left.** Any calls on any descramblers, in any order, have
defined behaviour; every handle there is belongs to one descrambler that is open, and has an object
of its own; a closed one does nothing; and when all are closed, no handle and no object is left. -/
theorem descramblers_own_handles (outside : ω) {calls : List (DescramblerCall τ)}
    (h : ∀ call ∈ calls, call.WellFormed) :
    ∃ m : Descramblers ω ℓ τ ε, (descramblerMachine ℓ outside).Run calls m ∧ HandlesOwned m ∧
      (∀ i self data, m.python[i]? = some self → self.h = none →
        ∀ call ∈ DescramblerCall.onNumber i data, call.perform m = some m) ∧
      ((∀ self ∈ m.python, self.h = none) → m.handles.live = ∅ ∧ m.objects.live = ∅) := by
  have hinit : HandlesOwned ({ outside, python := [] } : Descramblers ω ℓ τ ε) := by
    refine ⟨owned_new outside [], ?_⟩
    rw [Arena.live_empty]
    exact .empty
  obtain ⟨m, hrun, howned⟩ := Machine.exists_run (M := descramblerMachine ℓ outside) hinit
    fun m call hcall hm ↦ hm.perform (h call hcall)
  refine ⟨m, hrun, howned, fun _ _ data hself hclosed ↦ perform_of_closed hself hclosed data,
    fun hclosed ↦ ?_⟩
  have hhandles : m.handles.live = ∅ := howned.oneToOne.eq_empty fun i ↦ by
    rw [handleOf, Option.bind_eq_none_iff]
    exact fun self hself ↦ hclosed self (List.mem_of_getElem? hself)
  exact ⟨hhandles, howned.owned.objects_eq_empty hhandles⟩

end Runs

/-- A library that is given no data: it takes the card, and has nothing to say. -/
instance idleB25 : AribB25 Unit Unit where
  calloc u := (true, u)
  create u := (some (), u)
  setMulti2Round _ u := .done (0, u)
  setStrip _ u := .done (0, u)
  setEmmProc _ u := .done (0, u)
  setBCasCard u := .call (.getInitStatus true true) fun _ ↦
    .call (.getId true true) fun _ ↦ .done (0, u)
  put _ u := .done (0, u)
  get u := .done ((0, some []), u)
  withdraw u := .done ((0, some []), u)
  flush u := .done (0, u)
  getProgramCount u := .done (0, u)
  getProgramInfo _ u := .done ((-1, {}), u)
  release _ := .done ()

/-- A card with zeros for keys. -/
def zeroStatus : InitStatus := ⟨List.replicate 32 0, List.replicate 8 0, 0, 0, 5⟩

/-- Two descramblers, the first closed twice and used afterwards. -/
def usedAfterClose : List (DescramblerCall Unit) :=
  [.construct { transport := () } zeroStatus [] 4 false false, .put 0 [], .close 0, .close 0,
    .construct { transport := () } zeroStatus [] 4 true true, .put 0 [], .close 1]

theorem descramblers_own_handles_usedAfterClose :
    letI := zeroTransport
    ∃ m : Descramblers Unit Unit Unit Raised, (descramblerMachine Unit ()).Run usedAfterClose m ∧
      m.python.length = 2 ∧ m.handles.live = ∅ ∧ m.objects.live = ∅ := by
  let _ := zeroTransport
  have hwellFormed : ∀ call ∈ usedAfterClose, call.WellFormed := by
    simp [usedAfterClose, DescramblerCall.WellFormed, zeroStatus]
  obtain ⟨m, hrun, -, -, hnone⟩ :=
    descramblers_own_handles (τ := Unit) (ℓ := Unit) () hwellFormed
  have hhandles : ((descramblerMachine Unit ()).exec (descramblerMachine Unit ()).init
      usedAfterClose).map (fun m ↦ m.python.map Descrambler.h) = some [none, none] := by
    decide +kernel
  rw [show (descramblerMachine Unit ()).exec _ usedAfterClose = some m from hrun] at hhandles
  replace hhandles : m.python.map Descrambler.h = [none, none] := Option.some.inj hhandles
  have hclosed : ∀ self ∈ m.python, self.h = none := by
    intro self hself
    have hmem : self.h ∈ m.python.map Descrambler.h := List.mem_map_of_mem hself
    rw [hhandles] at hmem
    simpa using hmem
  refine ⟨m, hrun, ?_, hnone hclosed⟩
  rw [← List.length_map Descrambler.h, hhandles]
  rfl

end Recdyud
