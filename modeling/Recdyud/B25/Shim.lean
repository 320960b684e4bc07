import Recdyud.Lib.Foreign
import Recdyud.Py

/-!
# The shim around libaribb25

`dyud_b25.c` gives a handle to Python for every descrambler. Behind the handle stand an object of
libaribb25 and the card that the library talks to: the card is a table of functions, and those that
process ECM and EMM sections call back into Python.

The library is foreign. `AribB25` has its functions on the state `ℓ` of one object; each may call
the functions of the card as it likes. The functions of the shim are code on the memory of the C
side and on the Python state `σ` of the callbacks: a handle or an object that was freed has no
behaviour, nor has a copy from behind the end of its source.

## Ownership

`Owned` is what the shim keeps: every handle has an object of its own and no other object is left.
`recdyud_b25_create` makes a handle and an object or nothing, whichever of its steps fails, and
`recdyud_b25_destroy` frees both; the functions between them leave both where they are (`Steady`).
-/

namespace Recdyud

open Code

/-! ## The card -/

def recdyudMaxCardIds : ℕ := 16

/-- `B_CAS_INIT_STATUS` -/
structure CardInitStatus where
  systemKey : Bytes
  initCbc : Bytes
  bcasCardId : Int64
  cardStatus : Int32
  caSystemId : Int32
  deriving DecidableEq

/-- The first `id_count` places of `ids`. -/
structure IdArray where
  ids : List Int64
  fits : ids.length ≤ recdyudMaxCardIds
  deriving DecidableEq

/-- `recdyud_card`; of the callbacks, whether they are there. -/
structure CardState where
  status : CardInitStatus
  ids : IdArray
  ecm : Bool
  emm : Bool
  deriving DecidableEq

/-- The error codes of the card; all of them are negative. -/
inductive CardFault where
  | invalidParameter
  | notInitialized
  | transmitFailed
  deriving DecidableEq, Repr

/-- `B_CAS_ECM_RESULT` -/
structure EcmResult where
  scrambleKey : Bytes
  returnCode : UInt32
  deriving DecidableEq, Repr

/-- `memset(dst, 0, sizeof(*dst))` -/
def EcmResult.zero : EcmResult := ⟨List.replicate 16 0, 0⟩

/-- A call of a function of the card. A pointer is `false` or `none` when it is `NULL`; the bytes
behind `src` are the `len` bytes of the section. -/
inductive BCasCall where
  | release
  | init (bcas : Bool)
  | getInitStatus (bcas stat : Bool)
  | getId (bcas dst : Bool)
  | getPwrOnCtrl (bcas dst : Bool)
  | procEcm (bcas dst : Bool) (src : Option Bytes)
  | procEmm (bcas : Bool) (src : Option Bytes)
  | setAcasMode (enable : Bool)
  deriving DecidableEq, Repr

/-- What the library gets back: the code, and what was written to its memory. -/
inductive BCasAnswer where
  | released
  | code (r : Except CardFault Unit)
  | initStatus (r : Except CardFault CardInitStatus)
  | ids (r : Except CardFault (List Int64))
  | ecm (r : Except CardFault Unit) (dst : Option EcmResult)
  deriving DecidableEq

structure ProgramInfo where
  programNumber : ℤ := 0
  ecmUnpurchasedCount : ℤ := 0
  lastEcmErrorCode : ℤ := 0
  totalPacketCount : ℤ := 0
  undecryptedPacketCount : ℤ := 0
  deriving DecidableEq, Repr

/-- `arib_std_b25.h`: the functions of libaribb25. Most return a code, negative when they fail. -/
class AribB25 (ω ℓ : Type) where
  /-- whether `calloc` has memory for a handle -/
  calloc : ω → Bool × ω
  create : ω → Option ℓ × ω
  setMulti2Round : Int32 → ℓ → Foreign BCasCall BCasAnswer (ℤ × ℓ)
  setStrip : Int32 → ℓ → Foreign BCasCall BCasAnswer (ℤ × ℓ)
  setEmmProc : Int32 → ℓ → Foreign BCasCall BCasAnswer (ℤ × ℓ)
  setBCasCard : ℓ → Foreign BCasCall BCasAnswer (ℤ × ℓ)
  put : Bytes → ℓ → Foreign BCasCall BCasAnswer (ℤ × ℓ)
  /-- the code, and the data the buffer points to -/
  get : ℓ → Foreign BCasCall BCasAnswer ((ℤ × Option Bytes) × ℓ)
  withdraw : ℓ → Foreign BCasCall BCasAnswer ((ℤ × Option Bytes) × ℓ)
  flush : ℓ → Foreign BCasCall BCasAnswer (ℤ × ℓ)
  getProgramCount : ℓ → Foreign BCasCall BCasAnswer (ℤ × ℓ)
  getProgramInfo : Int32 → ℓ → Foreign BCasCall BCasAnswer ((ℤ × ProgramInfo) × ℓ)
  release : ℓ → Foreign BCasCall BCasAnswer Unit

/-! ## Memory -/

/-- `recdyud_b25`; the card is there when `has_card` is set. -/
structure B25Handle where
  b25 : Option ℕ := none
  card : Option CardState := none
  deriving DecidableEq

/-- The memory of the C side, what is outside of it, and the state of the callbacks. -/
structure B25Memory (ω ℓ σ : Type) where
  outside : ω
  objects : Arena ℓ := {}
  handles : Arena B25Handle := {}
  python : σ

section Shim

variable {ω ℓ σ α : Type}

/-- Code of the shim. -/
abbrev ShimCode (ω ℓ σ α : Type) := Code (B25Memory ω ℓ σ) α

/-- The callbacks. Of a result, what they have written into it, which was zeroed before. -/
structure BCasCallbacks (ω ℓ σ : Type) where
  ecm : Bytes → ShimCode ω ℓ σ (ℤ × EcmResult)
  emm : Bytes → ShimCode ω ℓ σ ℤ

namespace ShimCode

def callOutside (f : ω → α × ω) : ShimCode ω ℓ σ α :=
  modifyGet fun m ↦ ((f m.outside).1, { m with outside := (f m.outside).2 })

def allocHandle (h : B25Handle) : ShimCode ω ℓ σ ℕ :=
  modifyGet fun m ↦ ((m.handles.alloc h).1, { m with handles := (m.handles.alloc h).2 })

def readHandle (p : ℕ) : ShimCode ω ℓ σ B25Handle := do ofOption ((← get).handles.read p)

def writeHandle (p : ℕ) (h : B25Handle) : ShimCode ω ℓ σ Unit := do
  let handles ← ofOption ((← get).handles.write p h)
  modify fun m ↦ { m with handles }

def freeHandle (p : ℕ) : ShimCode ω ℓ σ Unit := do
  let handles ← ofOption ((← get).handles.free p)
  modify fun m ↦ { m with handles }

def allocObject (b25 : ℓ) : ShimCode ω ℓ σ ℕ :=
  modifyGet fun m ↦ ((m.objects.alloc b25).1, { m with objects := (m.objects.alloc b25).2 })

def readObject (q : ℕ) : ShimCode ω ℓ σ ℓ := do ofOption ((← get).objects.read q)

def writeObject (q : ℕ) (b25 : ℓ) : ShimCode ω ℓ σ Unit := do
  let objects ← ofOption ((← get).objects.write q b25)
  modify fun m ↦ { m with objects }

def freeObject (q : ℕ) : ShimCode ω ℓ σ Unit := do
  let objects ← ofOption ((← get).objects.free q)
  modify fun m ↦ { m with objects }

/-- `memcpy(dst, src, n)` from a `bytes`, behind which there is a NUL -/
def memcpy (src : Bytes) (n : ℕ) : ShimCode ω ℓ σ Bytes :=
  if n ≤ src.length + 1 then return (src ++ [0]).take n else undefined

def copyIds (ids : List Int64) (n : ℕ) (hn : n ≤ recdyudMaxCardIds) : ShimCode ω ℓ σ IdArray :=
  if n ≤ ids.length then return ⟨ids.take n, (List.length_take_le n ids).trans hn⟩ else undefined

end ShimCode

open ShimCode

/-! ## The functions of the card -/

section Card

variable (py : BCasCallbacks ω ℓ σ) (card : Option CardState)

def cardOf (bcas : Bool) : Option CardState := if bcas then card else none

def cardInit (bcas : Bool) : BCasAnswer :=
  match cardOf card bcas with
  | none => .code (.error .invalidParameter)
  | some _ => .code (.ok ())

def cardGetInitStatus (bcas stat : Bool) : BCasAnswer :=
  match cardOf card bcas, stat with
  | some c, true => .initStatus (.ok c.status)
  | _, _ => .initStatus (.error .invalidParameter)

def cardGetId (bcas dst : Bool) : BCasAnswer :=
  match cardOf card bcas, dst with
  | some c, true => .ids (.ok c.ids.ids)
  | _, _ => .ids (.error .invalidParameter)

/-- No power-on control: the count is 0. -/
def cardGetPwrOnCtrl (bcas dst : Bool) : BCasAnswer :=
  match cardOf card bcas, dst with
  | some _, true => .ids (.ok [])
  | _, _ => .ids (.error .invalidParameter)

def cardProcEcm (bcas dst : Bool) (src : Option Bytes) : ShimCode ω ℓ σ BCasAnswer :=
  match cardOf card bcas, dst, src with
  | some c, true, some ecm =>
    if ecm.length < 1 then return .ecm (.error .invalidParameter) none
    else if c.ecm = false then return .ecm (.error .notInitialized) none
    else do
      let (code, result) ← py.ecm ecm
      if code < 0 then return .ecm (.error .transmitFailed) (some result)
      else return .ecm (.ok ()) (some result)
  | _, _, _ => return .ecm (.error .invalidParameter) none

def cardProcEmm (bcas : Bool) (src : Option Bytes) : ShimCode ω ℓ σ BCasAnswer :=
  match cardOf card bcas, src with
  | some c, some emm =>
    if emm.length < 1 then return .code (.error .invalidParameter)
    else if c.emm = false then return .code (.error .notInitialized)
    else do
      let code ← py.emm emm
      if code < 0 then return .code (.error .transmitFailed) else return .code (.ok ())
  | _, _ => return .code (.error .invalidParameter)

/-- The DY-UD200 only handles B-CAS cards. -/
def cardSetAcasMode (enable : Bool) : BCasAnswer :=
  if enable then .code (.error .invalidParameter) else .code (.ok ())

/-- The table of functions. -/
def cardAnswer : BCasCall → ShimCode ω ℓ σ BCasAnswer
  | .release => return .released
  | .init bcas => return cardInit card bcas
  | .getInitStatus bcas stat => return cardGetInitStatus card bcas stat
  | .getId bcas dst => return cardGetId card bcas dst
  | .getPwrOnCtrl bcas dst => return cardGetPwrOnCtrl card bcas dst
  | .procEcm bcas dst src => cardProcEcm py card bcas dst src
  | .procEmm bcas src => cardProcEmm py card bcas src
  | .setAcasMode enable => return cardSetAcasMode enable

/-- `h->b25->f(h->b25, …)` -/
def callObject (h : B25Handle) (f : ℓ → Foreign BCasCall BCasAnswer (α × ℓ)) :
    ShimCode ω ℓ σ α := do
  let q ← ofOption h.b25
  let b25 ← readObject q
  let (a, b25) ← (f b25).exec (cardAnswer py h.card)
  writeObject q b25
  return a

end Card

/-! ## The functions of the shim -/

section Functions

variable [AribB25 ω ℓ] (py : BCasCallbacks ω ℓ σ)

/-- `ARIB_STD_B25_ERROR_INVALID_PARAM` -/
def aribStdB25ErrorInvalidParam : ℤ := -1

/-- `h->b25->release(h->b25)` -/
def releaseObject (h : B25Handle) : ShimCode ω ℓ σ Unit := do
  let q ← ofOption h.b25
  let b25 ← readObject q
  (AribB25.release ω b25).exec (cardAnswer py h.card)
  freeObject q

/-- Whether all options are set; the setters stop at the first that fails. -/
def setOptions (h : B25Handle) (round strip emmProc : Int32) : ShimCode ω ℓ σ Bool := do
  if (← callObject py h (AribB25.setMulti2Round ω round)) < 0 then return false
  if (← callObject py h (AribB25.setStrip ω strip)) < 0 then return false
  if (← callObject py h (AribB25.setEmmProc ω emmProc)) < 0 then return false
  return true

def recdyudB25Create (round strip emmProc : Int32) : ShimCode ω ℓ σ (Option ℕ) := do
  if (← callOutside (AribB25.calloc ℓ)) = false then return none
  let p ← allocHandle {}
  match ← callOutside AribB25.create with
  | none =>
    freeHandle p
    return none
  | some b25 =>
    let q ← allocObject b25
    let h : B25Handle := { b25 := some q }
    writeHandle p h
    if ← setOptions py h round strip emmProc then
      return some p
    releaseObject py h
    freeHandle p
    return none

/-- `ids` points to an array; `id_count` may be anything. -/
def recdyudB25SetCard (h : Option ℕ) (systemKey initCbc : Option Bytes) (cardId : Int64)
    (cardStatus caSystemId : Int32) (ids : Option (List Int64)) (idCount : Int32)
    (ecm emm : Bool) : ShimCode ω ℓ σ ℤ :=
  match h, systemKey, initCbc with
  | some p, some systemKey, some initCbc =>
    if ecm = false then return aribStdB25ErrorInvalidParam
    else if hcount : idCount.toInt < 0 ∨ idCount.toInt > recdyudMaxCardIds
        ∨ (idCount.toInt > 0 ∧ ids = none) then
      return aribStdB25ErrorInvalidParam
    else do
      let handle ← readHandle p
      let status : CardInitStatus := {
        systemKey := ← memcpy systemKey 32
        initCbc := ← memcpy initCbc 8
        bcasCardId := cardId
        cardStatus
        caSystemId }
      let array ← copyIds (ids.getD []) idCount.toInt.toNat (by omega)
      let handle := { handle with card := some { status, ids := array, ecm, emm } }
      writeHandle p handle
      callObject py handle (AribB25.setBCasCard ω)
  | _, _, _ => return aribStdB25ErrorInvalidParam

/-- A function that does nothing but call one of the library; `refused` is what it returns for
`NULL`. -/
def callHandle (h : Option ℕ) (refused : α) (f : ℓ → Foreign BCasCall BCasAnswer (α × ℓ)) :
    ShimCode ω ℓ σ α :=
  match h with
  | none => return refused
  | some p => do
    let handle ← readHandle p
    callObject py handle f

/-- The size is 32 bits wide. -/
def recdyudB25Put (h : Option ℕ) (data : Bytes) : ShimCode ω ℓ σ ℤ :=
  callHandle py h aribStdB25ErrorInvalidParam (AribB25.put ω (data.take (data.length % 2 ^ 32)))

def recdyudB25Get (h : Option ℕ) : ShimCode ω ℓ σ (ℤ × Option Bytes) :=
  callHandle py h (aribStdB25ErrorInvalidParam, none) (AribB25.get ω)

def recdyudB25Withdraw (h : Option ℕ) : ShimCode ω ℓ σ (ℤ × Option Bytes) :=
  callHandle py h (aribStdB25ErrorInvalidParam, none) (AribB25.withdraw ω)

def recdyudB25Flush (h : Option ℕ) : ShimCode ω ℓ σ ℤ :=
  callHandle py h aribStdB25ErrorInvalidParam (AribB25.flush ω)

def recdyudB25ProgramCount (h : Option ℕ) : ShimCode ω ℓ σ ℤ :=
  callHandle py h aribStdB25ErrorInvalidParam (AribB25.getProgramCount ω)

/-- The numbers are written unless the library fails. -/
def recdyudB25ProgramInfo (h : Option ℕ) (idx : Int32) : ShimCode ω ℓ σ (ℤ × ProgramInfo) := do
  let (r, info) ← callHandle py h (aribStdB25ErrorInvalidParam, {}) (AribB25.getProgramInfo ω idx)
  if r < 0 then return (r, {}) else return (0, info)

def recdyudB25Destroy (h : Option ℕ) : ShimCode ω ℓ σ Unit :=
  match h with
  | none => return ()
  | some p => do
    let handle ← readHandle p
    if handle.b25 ≠ none then
      releaseObject py handle
    freeHandle p

end Functions

/-! ## Ownership -/

/-- The object behind a handle. -/
def objectOf (m : B25Memory ω ℓ σ) : ℕ → Option ℕ := (·.bind B25Handle.b25) ∘ m.handles.read

/-- Every handle has an object of its own, and there is no other object. -/
structure Owned (m : B25Memory ω ℓ σ) : Prop where
  object : ∀ p h, m.handles.read p = some h → ∃ q, h.b25 = some q
  oneToOne : OneToOne (objectOf m) m.objects.live

/-- Handles and objects are where they were, and the callbacks have kept `J`. -/
structure Steady (J : σ → Prop) (m m' : B25Memory ω ℓ σ) : Prop where
  read : m'.handles.read = m.handles.read
  live : m'.objects.live = m.objects.live
  python : J m'.python

/-- The callbacks are defined, keep `J` and touch nothing of the C side. -/
structure BCasCallbacks.Safe (py : BCasCallbacks ω ℓ σ) (J : σ → Prop) : Prop where
  ecm : ∀ src (m : B25Memory ω ℓ σ), J m.python → (py.ecm src).Ends (fun _ ↦ Steady J m) m
  emm : ∀ src (m : B25Memory ω ℓ σ), J m.python → (py.emm src).Ends (fun _ ↦ Steady J m) m

section Specs

variable {J : σ → Prop} {m m' m'' : B25Memory ω ℓ σ} {p q : ℕ} {h : B25Handle} {b25 : ℓ}

theorem Steady.refl (hJ : J m.python) : Steady J m m := ⟨rfl, rfl, hJ⟩

theorem Steady.trans (h₁ : Steady J m m') (h₂ : Steady J m' m'') : Steady J m m'' :=
  ⟨h₂.read.trans h₁.read, h₂.live.trans h₁.live, h₂.python⟩

theorem objectOf_of_read (hread : m.handles.read p = some h) : objectOf m p = h.b25 := by
  rw [objectOf, Function.comp_apply, hread]
  rfl

theorem objectOf_update {o : Option B25Handle}
    (hread : m'.handles.read = Function.update m.handles.read p o) :
    objectOf m' = Function.update (objectOf m) p (o.bind B25Handle.b25) := by
  rw [objectOf, hread, Function.comp_update]
  rfl

/-- The object of a handle is there. -/
theorem Owned.mem_live (ho : Owned m) (hread : m.handles.read p = some h) :
    ∃ q ∈ m.objects.live, h.b25 = some q := by
  obtain ⟨q, hb25⟩ := ho.object p h hread
  exact ⟨q, (ho.oneToOne.mem_iff q).mpr ⟨p, (objectOf_of_read hread).trans hb25⟩, hb25⟩

/-- Without a handle there is no object. -/
theorem Owned.objects_eq_empty (ho : Owned m) (h : m.handles.live = ∅) : m.objects.live = ∅ := by
  refine ho.oneToOne.eq_empty fun p ↦ ?_
  have hnone : m.handles.read p = none := by
    rcases hread : m.handles.read p with _ | handle
    · rfl
    · exact absurd (show p ∈ m.handles.live from ⟨handle, hread⟩) (h ▸ Set.notMem_empty p)
  rw [objectOf, Function.comp_apply, hnone, Option.bind_none]

/-- Nothing was made yet. -/
theorem owned_new (outside : ω) (python : σ) : Owned ({ outside, python } : B25Memory ω ℓ σ) where
  object p _ hread := absurd (Arena.lt_of_read hread) (Nat.not_lt_zero p)
  oneToOne := by
    rw [Arena.live_empty]
    exact .empty

theorem Owned.of_steady (ho : Owned m) (hs : Steady J m m') : Owned m' := by
  constructor
  · rw [hs.read]
    exact ho.object
  · rw [objectOf, hs.read, hs.live]
    exact ho.oneToOne

/-- The Python state owns nothing. -/
theorem Owned.withPython {σ' : Type} (ho : Owned m) (python : σ') :
    Owned ({ m with python } : B25Memory ω ℓ σ') := ⟨ho.object, ho.oneToOne⟩

/-- One handle has changed, and it has an object if it is there. -/
theorem Owned.update (ho : Owned m) {o : Option B25Handle}
    (hread : m'.handles.read = Function.update m.handles.read p o)
    (hobject : ∀ h ∈ o, ∃ q, h.b25 = some q)
    (hlive : Handover (objectOf m p) m.objects.live (o.bind B25Handle.b25) m'.objects.live) :
    Owned m' := by
  constructor
  · rw [hread]
    exact (Function.forall_update_iff m.handles.read
      fun _ o ↦ ∀ h, o = some h → ∃ q, h.b25 = some q).mpr
      ⟨hobject, fun p' _ ↦ ho.object p'⟩
  · rw [objectOf_update hread]
    exact ho.oneToOne.handover hlive

theorem ends_callOutside {f : ω → α × ω} {Q : α → B25Memory ω ℓ σ → Prop}
    (hQ : ∀ a outside, Q a { m with outside }) : (callOutside f).Ends Q m :=
  ⟨_, _, rfl, hQ _ _⟩

theorem ends_allocHandle {Q : ℕ → B25Memory ω ℓ σ → Prop}
    (hQ : ∀ p handles, m.handles.read p = none →
      handles.read = Function.update m.handles.read p (some h) → Q p { m with handles }) :
    (allocHandle h).Ends Q m :=
  ⟨_, _, rfl, hQ _ _ (Arena.read_new m.handles h) (Arena.read_alloc m.handles h)⟩

theorem ends_allocObject {Q : ℕ → B25Memory ω ℓ σ → Prop}
    (hQ : ∀ q objects, q ∉ m.objects.live → objects.live = insert q m.objects.live →
      Q q { m with objects }) : (allocObject b25).Ends Q m := by
  refine ⟨_, _, rfl, hQ _ _ (fun ⟨b, hread⟩ ↦ ?_)
    (Arena.live_of_read_some (Arena.read_alloc m.objects b25))⟩
  rw [Arena.read_new m.objects b25] at hread
  cases hread

theorem ends_readHandle {Q : B25Handle → B25Memory ω ℓ σ → Prop}
    (hread : m.handles.read p = some h) (hQ : Q h m) : (readHandle p).Ends Q m :=
  ends_bind (ends_get (ends_ofOption hread hQ))

theorem ends_readObject {Q : ℓ → B25Memory ω ℓ σ → Prop} (hread : m.objects.read q = some b25)
    (hQ : Q b25 m) : (readObject q).Ends Q m :=
  ends_bind (ends_get (ends_ofOption hread hQ))

theorem ends_writeHandle {Q : Unit → B25Memory ω ℓ σ → Prop} {h' : B25Handle}
    (hread : m.handles.read p = some h)
    (hQ : ∀ handles, handles.read = Function.update m.handles.read p (some h') →
      Q () { m with handles }) : (writeHandle p h').Ends Q m := by
  obtain ⟨handles, hwrite, hhandles⟩ := Arena.exists_write hread h'
  exact ends_bind (ends_get (ends_bind (ends_ofOption hwrite (ends_modify (hQ handles hhandles)))))

theorem ends_freeHandle {Q : Unit → B25Memory ω ℓ σ → Prop} (hread : m.handles.read p = some h)
    (hQ : ∀ handles, handles.read = Function.update m.handles.read p none →
      Q () { m with handles }) : (freeHandle p).Ends Q m := by
  obtain ⟨handles, hfree, hhandles⟩ := Arena.exists_free hread
  exact ends_bind (ends_get (ends_bind (ends_ofOption hfree (ends_modify (hQ handles hhandles)))))

theorem ends_writeObject {Q : Unit → B25Memory ω ℓ σ → Prop} (hlive : q ∈ m.objects.live)
    (b25 : ℓ) (hQ : ∀ objects : Arena ℓ, objects.live = m.objects.live → Q () { m with objects }) :
    (writeObject q b25).Ends Q m := by
  obtain ⟨_, hread⟩ := hlive
  obtain ⟨objects, hwrite, hobjects⟩ := Arena.exists_write hread b25
  refine ends_bind (ends_get (ends_bind (ends_ofOption hwrite (ends_modify (hQ objects ?_)))))
  rw [Arena.live_of_read_some hobjects]
  exact Set.insert_eq_of_mem ⟨_, hread⟩

theorem ends_freeObject {Q : Unit → B25Memory ω ℓ σ → Prop} (hlive : q ∈ m.objects.live)
    (hQ : ∀ objects : Arena ℓ, objects.live = m.objects.live \ {q} → Q () { m with objects }) :
    (freeObject q).Ends Q m := by
  obtain ⟨_, hread⟩ := hlive
  obtain ⟨objects, hfree, hobjects⟩ := Arena.exists_free hread
  exact ends_bind (ends_get (ends_bind (ends_ofOption hfree
    (ends_modify (hQ objects (Arena.live_of_read_none hobjects))))))

variable {py : BCasCallbacks ω ℓ σ}

theorem ends_cardProcEcm (hpy : py.Safe J) (card : Option CardState) (bcas dst : Bool)
    (src : Option Bytes) (hJ : J m.python) :
    (cardProcEcm py card bcas dst src).Ends (fun _ ↦ Steady J m) m := by
  have hrefl : Steady J m m := .refl hJ
  unfold cardProcEcm
  split
  · refine ends_ite (fun _ ↦ ends_pure hrefl) fun _ ↦ ?_
    refine ends_ite (fun _ ↦ ends_pure hrefl) fun _ ↦ ?_
    refine ends_bind ((hpy.ecm _ m hJ).mono fun r m' hsteady ↦ ?_)
    exact ends_ite (fun _ ↦ ends_pure hsteady) fun _ ↦ ends_pure hsteady
  · exact ends_pure hrefl

theorem ends_cardProcEmm (hpy : py.Safe J) (card : Option CardState) (bcas : Bool)
    (src : Option Bytes) (hJ : J m.python) :
    (cardProcEmm py card bcas src).Ends (fun _ ↦ Steady J m) m := by
  have hrefl : Steady J m m := .refl hJ
  unfold cardProcEmm
  split
  · refine ends_ite (fun _ ↦ ends_pure hrefl) fun _ ↦ ?_
    refine ends_ite (fun _ ↦ ends_pure hrefl) fun _ ↦ ?_
    refine ends_bind ((hpy.emm _ m hJ).mono fun r m' hsteady ↦ ?_)
    exact ends_ite (fun _ ↦ ends_pure hsteady) fun _ ↦ ends_pure hsteady
  · exact ends_pure hrefl

/-- **A function of the card** disturbs nothing. -/
theorem ends_cardAnswer (hpy : py.Safe J) (card : Option CardState) (call : BCasCall)
    (hJ : J m.python) : (cardAnswer py card call).Ends (fun _ ↦ Steady J m) m := by
  have hrefl : Steady J m m := .refl hJ
  cases call with
  | release => exact ends_pure hrefl
  | init bcas => exact ends_pure hrefl
  | getInitStatus bcas stat => exact ends_pure hrefl
  | getId bcas dst => exact ends_pure hrefl
  | getPwrOnCtrl bcas dst => exact ends_pure hrefl
  | procEcm bcas dst src => exact ends_cardProcEcm hpy card bcas dst src hJ
  | procEmm bcas src => exact ends_cardProcEmm hpy card bcas src hJ
  | setAcasMode enable => exact ends_pure hrefl

/-- Whatever the library does, and however often it calls the card. -/
theorem ends_exec_card (hpy : py.Safe J) (card : Option CardState)
    (x : Foreign BCasCall BCasAnswer α) (hJ : J m.python) :
    (x.exec (cardAnswer py card)).Ends (fun _ ↦ Steady J m) m :=
  Foreign.ends_exec (I := Steady J m) (fun call _ hsteady ↦
    (ends_cardAnswer hpy card call hsteady.python).mono fun _ _ hnext ↦ hsteady.trans hnext) x
    (.refl hJ)

/-- **A call of the library** on an object that is there. -/
theorem ends_callObject (hpy : py.Safe J) (hb25 : h.b25 = some q) (hlive : q ∈ m.objects.live)
    (hJ : J m.python) (f : ℓ → Foreign BCasCall BCasAnswer (α × ℓ)) :
    (callObject py h f).Ends (fun _ ↦ Steady J m) m := by
  obtain ⟨b25, hread⟩ := hlive
  refine ends_bind (ends_ofOption hb25 (ends_bind (ends_readObject hread (ends_bind ?_))))
  refine (ends_exec_card hpy h.card (f b25) hJ).mono fun r m' hsteady ↦ ?_
  have hlive' : q ∈ m'.objects.live := hsteady.live ▸ ⟨b25, hread⟩
  refine ends_bind (ends_writeObject hlive' _ fun objects hobjects ↦ ends_pure ?_)
  exact ⟨hsteady.read, hobjects.trans hsteady.live, hsteady.python⟩

/-! ### The functions of the shim -/

/-- A handle that is `NULL` is refused, and nothing is called. -/
theorem ends_callHandle (hpy : py.Safe J) {r : Option ℕ} (hr : ∀ p, r = some p → ∃ h q,
      m.handles.read p = some h ∧ h.b25 = some q ∧ q ∈ m.objects.live) (hJ : J m.python)
    (refused : α) (f : ℓ → Foreign BCasCall BCasAnswer (α × ℓ)) :
    (callHandle py r refused f).Ends (fun _ ↦ Steady J m) m := by
  cases r with
  | none => exact ends_pure (.refl hJ)
  | some p =>
    obtain ⟨h, q, hread, hb25, hlive⟩ := hr p rfl
    exact ends_bind (ends_readHandle hread (ends_callObject hpy hb25 hlive hJ f))

variable [AribB25 ω ℓ]

/-- The object of a handle is freed. -/
theorem ends_releaseObject (hpy : py.Safe J) (hb25 : h.b25 = some q) (hlive : q ∈ m.objects.live)
    (hJ : J m.python) : (releaseObject py h).Ends (fun _ m' ↦
      m'.handles.read = m.handles.read ∧ m'.objects.live = m.objects.live \ {q} ∧ J m'.python)
      m := by
  obtain ⟨b25, hread⟩ := hlive
  refine ends_bind (ends_ofOption hb25 (ends_bind (ends_readObject hread (ends_bind ?_))))
  refine (ends_exec_card hpy h.card (AribB25.release ω b25) hJ).mono fun _ m' hsteady ↦ ?_
  refine ends_freeObject (hsteady.live ▸ ⟨b25, hread⟩) fun objects hobjects ↦ ?_
  exact ⟨hsteady.read, hsteady.live ▸ hobjects, hsteady.python⟩

theorem ends_setOptions (hpy : py.Safe J) (hb25 : h.b25 = some q) (hlive : q ∈ m.objects.live)
    (hJ : J m.python) (round strip emmProc : Int32) :
    (setOptions py h round strip emmProc).Ends (fun _ ↦ Steady J m) m := by
  -- every setter is a call of the library, made where the one before has left the memory
  have hcall : ∀ {m₁ : B25Memory ω ℓ σ} {f : ℓ → Foreign BCasCall BCasAnswer (ℤ × ℓ)}
      {k : ℤ → ShimCode ω ℓ σ Bool}, Steady J m m₁ →
      (∀ r m₂, Steady J m m₂ → (k r).Ends (fun _ ↦ Steady J m) m₂) →
      (callObject py h f >>= k).Ends (fun _ ↦ Steady J m) m₁ := by
    intro m₁ f k hsteady hk
    refine ends_bind ((ends_callObject hpy hb25 (hsteady.live ▸ hlive) hsteady.python f).mono ?_)
    exact fun r m₂ hnext ↦ hk r m₂ (hsteady.trans hnext)
  rw [setOptions]
  refine hcall (.refl hJ) fun r m₁ h₁ ↦ ends_ite (fun _ ↦ ends_pure h₁) fun _ ↦ ?_
  refine hcall h₁ fun r m₂ h₂ ↦ ends_ite (fun _ ↦ ends_pure h₂) fun _ ↦ ?_
  refine hcall h₂ fun r m₃ h₃ ↦ ends_ite (fun _ ↦ ends_pure h₃) fun _ ↦ ends_pure h₃

/-- There is a new handle with a new object. -/
structure Created (J : σ → Prop) (m m' : B25Memory ω ℓ σ) (p : ℕ) : Prop where
  new : m.handles.read p = none
  object : ∃ q ∉ m.objects.live, m'.objects.live = insert q m.objects.live ∧
    m'.handles.read = Function.update m.handles.read p (some { b25 := some q })
  python : J m'.python

/-- **All or nothing**: a handle with an object, or the memory as it was. -/
theorem ends_create (hpy : py.Safe J) (hJ : J m.python) (round strip emmProc : Int32) :
    (recdyudB25Create py round strip emmProc).Ends (fun r m' ↦ match r with
      | none => Steady J m m'
      | some p => Created J m m' p) m := by
  rw [recdyudB25Create]
  refine ends_bind (ends_callOutside fun _ _ ↦ ?_)
  refine ends_ite (fun _ ↦ ends_pure ⟨rfl, rfl, hJ⟩) fun _ ↦ ?_
  refine ends_bind (ends_allocHandle fun p handles hnew halloc ↦ ?_)
  have hcell : handles.read p = some {} := by rw [halloc, Function.update_self]
  -- what was written to the new place is of no matter once it is freed
  have hfreed :
      ∀ o, Function.update (Function.update handles.read p o) p none = m.handles.read := by
    intro o
    rw [halloc, Function.update_idem, Function.update_idem, Function.update_eq_self_iff]
    exact hnew.symm
  refine ends_bind (ends_callOutside fun created _ ↦ ?_)
  cases created with
  | none =>
    refine ends_bind (ends_freeHandle hcell fun handles' hread ↦ ends_pure ⟨?_, rfl, hJ⟩)
    rw [← hfreed (some {}), ← hcell, Function.update_eq_self]
    exact hread
  | some b25 =>
    refine ends_bind (ends_allocObject fun q objects hq hobjects ↦ ?_)
    refine ends_bind (ends_writeHandle hcell fun handles' hhandle ↦ ?_)
    have hlive : q ∈ objects.live := hobjects ▸ Set.mem_insert q _
    refine ends_bind ((ends_setOptions hpy rfl (by exact hlive) (by exact hJ) round strip
      emmProc).mono fun set m₁ hset ↦ ?_)
    have hcell' : m₁.handles.read p = some { b25 := some q } := by
      rw [hset.read, hhandle, Function.update_self]
    refine ends_ite (fun _ ↦ ends_pure ⟨hnew, ⟨q, hq, ?_, ?_⟩, hset.python⟩) fun _ ↦ ?_
    · exact hset.live.trans hobjects
    · rw [hset.read, hhandle, halloc, Function.update_idem]
    · refine ends_bind ((ends_releaseObject hpy rfl (hset.live ▸ hlive) hset.python).mono ?_)
      rintro - m₂ ⟨hread₂, hlive₂, hJ₂⟩
      refine ends_bind
        (ends_freeHandle (hread₂ ▸ hcell') fun handles'' hfree ↦ ends_pure ⟨?_, ?_, hJ₂⟩)
      · rw [← hfreed (some { b25 := some q }), ← hhandle, ← hset.read, ← hread₂]
        exact hfree
      · rw [hlive₂, hset.live, hobjects]
        exact Set.insert_sdiff_self_of_notMem hq

/-- **A card is set**: the handle has the card, unless the arguments are refused. -/
theorem ends_setCard (hpy : py.Safe J) (hread : m.handles.read p = some h) (hb25 : h.b25 = some q)
    (hlive : q ∈ m.objects.live) (hJ : J m.python) {systemKey initCbc : Bytes}
    (hkey : systemKey.length = 32) (hcbc : initCbc.length = 8) {ids : List Int64} {idCount : Int32}
    (hcount : idCount.toInt.toNat ≤ ids.length) (cardId : Int64) (cardStatus caSystemId : Int32) :
    (recdyudB25SetCard py (some p) systemKey initCbc cardId cardStatus caSystemId ids idCount
      true true).Ends (fun r m' ↦ J m'.python ∧ m'.objects.live = m.objects.live ∧
        if idCount.toInt < 0 ∨ idCount.toInt > recdyudMaxCardIds
        then r = aribStdB25ErrorInvalidParam ∧ m'.handles.read = m.handles.read
        else ∃ array : IdArray, array.ids = ids.take idCount.toInt.toNat ∧
          m'.handles.read = Function.update m.handles.read p (some { h with card := some {
            status := ⟨systemKey, initCbc, cardId, cardStatus, caSystemId⟩
            ids := array, ecm := true, emm := true } })) m := by
  have hcopied : (systemKey ++ [0]).take 32 = systemKey := by rw [← hkey, List.take_left]
  have hcopied' : (initCbc ++ [0]).take 8 = initCbc := by rw [← hcbc, List.take_left]
  rw [recdyudB25SetCard, if_neg (by decide)]
  split
  · rename_i hrefused
    refine ends_pure ⟨hJ, rfl, ?_⟩
    rw [if_pos (by simpa using hrefused)]
    exact ⟨rfl, rfl⟩
  rename_i hfits
  have hfits' : ¬(idCount.toInt < 0 ∨ idCount.toInt > recdyudMaxCardIds) := by tauto
  simp only [if_neg hfits']
  refine ends_bind (ends_readHandle hread ?_)
  refine ends_bind (ends_ite (fun _ ↦ ends_pure ?_) fun hshort ↦ absurd (by omega) hshort)
  refine ends_bind (ends_ite (fun _ ↦ ends_pure ?_) fun hshort ↦ absurd (by omega) hshort)
  refine ends_bind (ends_ite (fun _ ↦ ends_pure ?_) fun hshort ↦ absurd hcount hshort)
  refine ends_bind (ends_writeHandle hread fun handles hhandles ↦ ?_)
  refine (ends_callObject hpy (by exact hb25) (by exact hlive) (by exact hJ) _).mono
    fun r m' hsteady ↦ ?_
  have hle : idCount.toInt.toNat ≤ recdyudMaxCardIds := by omega
  refine ⟨hsteady.python, hsteady.live,
    ⟨ids.take idCount.toInt.toNat, (List.length_take_le _ _).trans hle⟩, rfl, ?_⟩
  rw [hsteady.read, hhandles, hcopied, hcopied']
  rfl

/-- **A handle is freed**, and its object with it. -/
theorem ends_destroy (hpy : py.Safe J) (hread : m.handles.read p = some h) (hb25 : h.b25 = some q)
    (hlive : q ∈ m.objects.live) (hJ : J m.python) :
    (recdyudB25Destroy (ℓ := ℓ) py (some p)).Ends (fun _ m' ↦ J m'.python ∧
      m'.handles.read = Function.update m.handles.read p none ∧
      m'.objects.live = m.objects.live \ {q}) m := by
  refine ends_bind (ends_readHandle hread ?_)
  rw [if_pos (by simp [hb25])]
  refine ends_bind ((ends_releaseObject hpy hb25 hlive hJ).mono ?_)
  rintro - m' ⟨hread', hlive', hJ'⟩
  refine ends_freeHandle (hread' ▸ hread) fun handles hfree ↦ ⟨hJ', ?_, hlive'⟩
  rw [← hread']
  exact hfree

end Specs

end Shim

end Recdyud
