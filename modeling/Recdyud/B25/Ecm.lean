import Recdyud.B25.Descrambler

/-!
# The service of the card

While it works on a stream the library asks the card for keys: it may call any function of the card,
any number of times, with what it finds in the stream. The answers and what the Python side counts
belong together.

`Accounts` is the invariant over the calls and their answers: `ecm_count` counts the ECM sections
that were sent to the card, `ecm_errors` those of them that failed, and `callback_error` is set when
any ECM section failed, one that is too long to be sent included. Every key the library is given is
a whole one, and zero when the call failed.
-/

namespace Recdyud

open Code ShimCode

/-- The section of an ECM call with all its pointers. -/
def BCasCall.ecmSection : BCasCall → Option Bytes
  | .procEcm true true src => src.filter fun ecm ↦ 1 ≤ ecm.length
  | _ => none

/-- An ECM section that is short enough to be sent to the card. -/
def BCasCall.Served (call : BCasCall) : Prop := ∃ ecm ∈ call.ecmSection, ecm.length ≤ maxEcmEmmSize

instance : DecidablePred BCasCall.Served := fun call ↦
  inferInstanceAs (Decidable (∃ ecm ∈ call.ecmSection, ecm.length ≤ maxEcmEmmSize))

theorem BCasCall.not_served_of_none {call : BCasCall} (h : call.ecmSection = none) :
    ¬call.Served := by
  rintro ⟨ecm, hmem, -⟩
  rw [h] at hmem
  cases hmem

/-- The callback has failed. -/
def BCasAnswer.Failed (answer : BCasAnswer) : Prop :=
  ∃ dst, answer = .ecm (.error .transmitFailed) dst

instance : DecidablePred BCasAnswer.Failed
  | .released => isFalse nofun
  | .code _ => isFalse nofun
  | .initStatus _ => isFalse nofun
  | .ids _ => isFalse nofun
  | .ecm (.ok ()) _ => isFalse nofun
  | .ecm (.error .invalidParameter) _ => isFalse nofun
  | .ecm (.error .notInitialized) _ => isFalse nofun
  | .ecm (.error .transmitFailed) dst => isTrue ⟨dst, rfl⟩

/-- What was written is a whole key, and zero unless the call went well. -/
def BCasAnswer.WholeKey (answer : BCasAnswer) : Prop :=
  ∀ r dst, answer = .ecm r (some dst) → dst.scrambleKey.length = 16 ∧ (r ≠ .ok () → dst = .zero)

/-- The descrambler, `start` at first, after these calls of the card. -/
structure Accounts {τ ε : Type} (start : Descrambler τ ε) (log : List (BCasCall × BCasAnswer))
    (now : Descrambler τ ε) : Prop where
  ecmCount : now.card.ecmCount = start.card.ecmCount + log.countP fun x ↦ x.1.Served
  ecmErrors : now.card.ecmErrors =
    start.card.ecmErrors + log.countP fun x ↦ x.1.Served ∧ x.2.Failed
  callbackError : now.callbackError = none ↔
    start.callbackError = none ∧ ∀ x ∈ log, ¬x.2.Failed
  wholeKeys : ∀ x ∈ log, x.2.WholeKey

/-! ## The counters of the card -/

section Counters

variable {τ ε : Type} [Transport τ ε]

/-- An ECM that is too long is refused; any other one is counted, and again when it fails. -/
theorem BCasCard.processEcm_cases (card : BCasCard τ) (ecm : Bytes) :
    (maxEcmEmmSize < ecm.length ∧ ∃ e, card.processEcm ecm = (.error e, card)) ∨
    (ecm.length ≤ maxEcmEmmSize ∧ ∃ card' : BCasCard τ, card'.ecmCount = card.ecmCount + 1 ∧
      ((∃ e, card.processEcm ecm = (.error e, card') ∧ card'.ecmErrors = card.ecmErrors + 1) ∨
        ∃ r, card.processEcm ecm = (.ok r, card') ∧ card'.ecmErrors = card.ecmErrors)) := by
  rw [processEcm]
  split
  · rename_i hlong
    exact .inl ⟨hlong, _, rfl⟩
  · rename_i hfits
    refine .inr ⟨not_lt.mp hfits, ?_⟩
    dsimp only
    rcases Transport.bcasTransmit (wrap ecmHeader ecm) card.transport with ⟨e | r, t⟩
    · exact ⟨_, rfl, .inl ⟨_, rfl, rfl⟩⟩
    · dsimp only
      split
      · exact ⟨_, rfl, .inl ⟨_, rfl, rfl⟩⟩
      · exact ⟨_, rfl, .inr ⟨_, rfl, rfl⟩⟩

theorem BCasCard.processEmm_counts (card : BCasCard τ) (emm : Bytes) :
    (card.processEmm emm).2.ecmCount = card.ecmCount ∧
      (card.processEmm emm).2.ecmErrors = card.ecmErrors := by
  rw [processEmm]
  split
  · exact ⟨rfl, rfl⟩
  · split
    · exact ⟨rfl, rfl⟩
    · split <;> exact ⟨rfl, rfl⟩

end Counters

/-! ## The accounts -/

namespace Accounts

variable {τ ε : Type} {start self : Descrambler τ ε} {log : List (BCasCall × BCasAnswer)}
variable {call : BCasCall} {answer : BCasAnswer}

/-- A call that does not come to the ECM callback. -/
theorem concat_quiet (h : Accounts start log self) {card : BCasCard τ}
    (hcount : card.ecmCount = self.card.ecmCount) (herrors : card.ecmErrors = self.card.ecmErrors)
    (hcall : ¬call.Served) (hfailed : ¬answer.Failed) (hkey : answer.WholeKey) :
    Accounts start (log ++ [(call, answer)]) { self with card } where
  ecmCount := by
    rw [hcount, h.ecmCount, List.countP_append, List.countP_singleton,
      if_neg (by simpa using hcall)]
    rfl
  ecmErrors := by
    rw [herrors, h.ecmErrors, List.countP_append, List.countP_singleton,
      if_neg (by simp [hcall])]
    rfl
  callbackError := by
    rw [h.callbackError, List.forall_mem_append, List.forall_mem_singleton, and_iff_left hfailed]
  wholeKeys := List.forall_mem_append.mpr ⟨h.wholeKeys, List.forall_mem_singleton.mpr hkey⟩

/-- A call without a section, which does not answer with a key. -/
theorem concat_noSection (h : Accounts start log self) {card : BCasCard τ}
    (hcount : card.ecmCount = self.card.ecmCount) (herrors : card.ecmErrors = self.card.ecmErrors)
    (hnone : call.ecmSection = none) (hne : ∀ r dst, answer ≠ .ecm r dst) :
    Accounts start (log ++ [(call, answer)]) { self with card } :=
  h.concat_quiet hcount herrors (BCasCall.not_served_of_none hnone) (fun ⟨dst, h⟩ ↦ hne _ dst h)
    fun r dst h ↦ absurd h (hne r (some dst))

/-- The ECM callback has returned. -/
theorem concat_ok (h : Accounts start log self) {card : BCasCard τ} {dst : EcmResult}
    (hcount : card.ecmCount = self.card.ecmCount + 1)
    (herrors : card.ecmErrors = self.card.ecmErrors) (hcall : call.Served)
    (hkey : dst.scrambleKey.length = 16) :
    Accounts start (log ++ [(call, .ecm (.ok ()) (some dst))]) { self with card } where
  ecmCount := by
    rw [hcount, h.ecmCount, List.countP_append, List.countP_singleton,
      if_pos (by simpa using hcall), add_assoc]
  ecmErrors := by
    rw [herrors, h.ecmErrors, List.countP_append, List.countP_singleton,
      if_neg (by simp [BCasAnswer.Failed])]
    rfl
  callbackError := by
    have hok : ¬(BCasAnswer.ecm (.ok ()) (some dst)).Failed := nofun
    rw [h.callbackError, List.forall_mem_append, List.forall_mem_singleton, and_iff_left hok]
  wholeKeys := by
    refine List.forall_mem_append.mpr ⟨h.wholeKeys, List.forall_mem_singleton.mpr ?_⟩
    rintro r dst' ⟨⟩
    exact ⟨hkey, fun hr ↦ absurd rfl hr⟩

/-- The ECM callback has failed; whether the section was sent shows in the counters. -/
theorem concat_failed (h : Accounts start log self) {card : BCasCard τ} {e : BCasRaised ε}
    (hcount : card.ecmCount = self.card.ecmCount + if call.Served then 1 else 0)
    (herrors : card.ecmErrors = self.card.ecmErrors + if call.Served then 1 else 0) :
    Accounts start (log ++ [(call, .ecm (.error .transmitFailed) (some .zero))])
      { self with card, callbackError := some e } where
  ecmCount := by
    rw [hcount, h.ecmCount, List.countP_append, List.countP_singleton, add_assoc]
    simp
  ecmErrors := by
    rw [herrors, h.ecmErrors, List.countP_append, List.countP_singleton, add_assoc]
    simp [BCasAnswer.Failed]
  callbackError := by
    refine iff_of_false nofun fun hnone ↦ hnone.2 _ (List.mem_append_right _ List.mem_cons_self) ?_
    exact ⟨_, rfl⟩
  wholeKeys := by
    refine List.forall_mem_append.mpr ⟨h.wholeKeys, List.forall_mem_singleton.mpr ?_⟩
    rintro r dst' ⟨⟩
    exact ⟨rfl, fun _ ↦ rfl⟩

end Accounts

section Ecm

variable {ω ℓ τ ε α : Type} [Transport τ ε] {m : B25Memory ω ℓ (Descrambler τ ε)}

/-- A section is there when no pointer is `NULL` and the length is positive. -/
theorem ecmSection_eq_some {bcas dst : Bool} {src : Option Bytes} {ecm : Bytes}
    (h : (BCasCall.procEcm bcas dst src).ecmSection = some ecm) :
    bcas = true ∧ dst = true ∧ src = some ecm ∧ 1 ≤ ecm.length := by
  cases bcas <;> cases dst
  · cases h
  · cases h
  · cases h
  · obtain ⟨hsrc, hlen⟩ := Option.filter_eq_some_iff.mp h
    exact ⟨rfl, rfl, hsrc, by simpa using hlen⟩

omit [Transport τ ε] in
theorem cardProcEcm_of_none {c : CardState} {bcas dst : Bool} {src : Option Bytes}
    (h : (BCasCall.procEcm bcas dst src).ecmSection = none)
    (py : BCasCallbacks ω ℓ (Descrambler τ ε)) :
    cardProcEcm py (some c) bcas dst src = pure (.ecm (.error .invalidParameter) none) := by
  cases bcas <;> cases dst <;> cases src <;> try rfl
  rename_i ecm
  have hlen : ecm.length < 1 := by simpa [BCasCall.ecmSection] using h
  exact if_pos hlen

omit [Transport τ ε] in
theorem cardProcEcm_of_section {c : CardState} (hecm : c.ecm = true) {ecm : Bytes}
    (hlen : 1 ≤ ecm.length) (py : BCasCallbacks ω ℓ (Descrambler τ ε)) :
    cardProcEcm py (some c) true true (some ecm) = (do
      let (code, result) ← py.ecm ecm
      if code < 0 then return .ecm (.error .transmitFailed) (some result)
      else return .ecm (.ok ()) (some result)) := by
  unfold cardProcEcm
  simp only [cardOf, if_pos, hecm, if_neg (not_lt.mpr hlen), Bool.true_eq_false, if_false]

variable {start : Descrambler τ ε} {log : List (BCasCall × BCasAnswer)}

/-- An EMM is none of the sections that are counted. -/
theorem ends_cardProcEmm_accounts (card : Option CardState) (bcas : Bool) (src : Option Bytes)
    (h : Accounts start log m.python) :
    (cardProcEmm Descrambler.callbacks card bcas src).Ends
      (fun r m' ↦ Accounts start (log ++ [(.procEmm bcas src, r)]) m'.python) m := by
  have hquiet : ∀ {r : Except CardFault Unit} {card' : BCasCard τ},
      card'.ecmCount = m.python.card.ecmCount → card'.ecmErrors = m.python.card.ecmErrors →
      Accounts start (log ++ [(.procEmm bcas src, .code r)])
        { m.python with card := card' } :=
    fun hcount herrors ↦ h.concat_noSection hcount herrors rfl nofun
  unfold cardProcEmm
  split
  · rename_i emm hcard
    refine ends_ite (fun _ ↦ ends_pure (hquiet rfl rfl)) fun _ ↦ ?_
    refine ends_ite (fun _ ↦ ends_pure (hquiet rfl rfl)) fun _ ↦ ?_
    obtain ⟨hcount, herrors⟩ := m.python.card.processEmm_counts emm
    refine ends_bind (Descrambler.ends_onEmm (fun card' hrun ↦ ?_) fun e card' hrun ↦ ?_)
    · rw [hrun] at hcount herrors
      exact ends_ite (fun _ ↦ ends_pure (hquiet hcount herrors))
        fun _ ↦ ends_pure (hquiet hcount herrors)
    · rw [hrun] at hcount herrors
      exact ends_ite (fun _ ↦ ends_pure (hquiet hcount herrors))
        fun _ ↦ ends_pure (hquiet hcount herrors)
  · exact ends_pure (hquiet rfl rfl)

/-- An ECM is counted when it is short enough, and again when it fails. -/
theorem ends_cardProcEcm_accounts {c : CardState} (hecm : c.ecm = true) (bcas dst : Bool)
    (src : Option Bytes) (h : Accounts start log m.python) :
    (cardProcEcm Descrambler.callbacks (some c) bcas dst src).Ends
      (fun r m' ↦ Accounts start (log ++ [(.procEcm bcas dst src, r)]) m'.python) m := by
  rcases hsection : (BCasCall.procEcm bcas dst src).ecmSection with _ | ecm
  · rw [cardProcEcm_of_none hsection]
    exact ends_pure (h.concat_quiet rfl rfl (BCasCall.not_served_of_none hsection) nofun nofun)
  obtain ⟨rfl, rfl, rfl, hlen⟩ := ecmSection_eq_some hsection
  rw [cardProcEcm_of_section hecm hlen]
  have hserved : (BCasCall.procEcm true true (some ecm)).Served ↔ ecm.length ≤ maxEcmEmmSize := by
    rw [BCasCall.Served, hsection]
    simp
  have hcases := m.python.card.processEcm_cases ecm
  refine ends_bind (Descrambler.ends_onEcm (fun key code card hrun ↦ ?_) fun e card hrun ↦ ?_)
  · refine ends_ite (fun hlt ↦ absurd hlt (lt_irrefl 0)) fun _ ↦ ends_pure ?_
    rw [hrun] at hcases
    obtain ⟨-, e, he⟩ | ⟨hle, card', hcount, ⟨e, he, -⟩ | ⟨r, hr, herrors⟩⟩ := hcases
    · cases he
    · cases he
    · obtain ⟨-, rfl⟩ := Prod.mk.inj hr
      exact h.concat_ok hcount herrors (hserved.mpr hle) (Descrambler.length_key hrun)
  · refine ends_ite (fun _ ↦ ends_pure ?_) fun hge ↦ absurd (by decide) hge
    rw [hrun] at hcases
    obtain ⟨hlong, e', he⟩ | ⟨hle, card', hcount, ⟨e', he, herrors⟩ | ⟨r, hr, -⟩⟩ := hcases
    · obtain ⟨-, rfl⟩ := Prod.mk.inj he
      have hnot : ¬(BCasCall.procEcm true true (some ecm)).Served := fun hs ↦
        not_lt.mpr (hserved.mp hs) hlong
      exact h.concat_failed (by rw [if_neg hnot]; rfl) (by rw [if_neg hnot]; rfl)
    · obtain ⟨-, rfl⟩ := Prod.mk.inj he
      exact h.concat_failed (by rw [if_pos (hserved.mpr hle), hcount])
        (by rw [if_pos (hserved.mpr hle), herrors])
    · cases hr

/-- **A call of the card** goes into the accounts. -/
theorem ends_cardAnswer_accounts {c : CardState} (hecm : c.ecm = true)
    (call : BCasCall) (h : Accounts start log m.python) :
    (cardAnswer Descrambler.callbacks (some c) call).Ends
      (fun r m' ↦ Accounts start (log ++ [(call, r)]) m'.python) m := by
  have hquiet : ∀ {answer : BCasAnswer}, call.ecmSection = none →
      (∀ r dst, answer ≠ .ecm r dst) →
      Accounts start (log ++ [(call, answer)]) m.python :=
    fun hnone hne ↦ h.concat_noSection rfl rfl hnone hne
  cases call with
  | release => exact ends_pure (hquiet rfl nofun)
  | init bcas => exact ends_pure (hquiet rfl (by unfold cardInit; split <;> nofun))
  | getInitStatus bcas stat =>
    exact ends_pure (hquiet rfl (by unfold cardGetInitStatus; split <;> nofun))
  | getId bcas dst => exact ends_pure (hquiet rfl (by unfold cardGetId; split <;> nofun))
  | getPwrOnCtrl bcas dst =>
    exact ends_pure (hquiet rfl (by unfold cardGetPwrOnCtrl; split <;> nofun))
  | setAcasMode enable =>
    exact ends_pure (hquiet rfl (by unfold cardSetAcasMode; split <;> nofun))
  | procEcm bcas dst src => exact ends_cardProcEcm_accounts hecm bcas dst src h
  | procEmm bcas src => exact ends_cardProcEmm_accounts (some c) bcas src h

/-- **The accounts of the card.** Whatever the library makes of a stream: it comes to an end, no
exception gets into it, and what the Python side has counted is what was asked of the card. -/
theorem ecm_accounts {c : CardState} (hecm : c.ecm = true)
    (x : Foreign BCasCall BCasAnswer α) (m : B25Memory ω ℓ (Descrambler τ ε)) :
    ∃ a log m', (x.exec (cardAnswer Descrambler.callbacks (some c))).run m = some (a, m') ∧
      (x.execLogged (cardAnswer Descrambler.callbacks (some c)) []).run m = some ((a, log), m') ∧
      Accounts m.python log m'.python ∧ m'.python.h = m.python.h := by
  have hstart : Accounts m.python [] m.python :=
    ⟨rfl, rfl, by rw [and_iff_left]; exact fun _ ↦ nofun, fun _ ↦ nofun⟩
  obtain ⟨⟨a, log⟩, m', hrun, haccounts⟩ :=
    Foreign.ends_execLogged (I := fun log (m' : B25Memory ω ℓ _) ↦ Accounts m.python log m'.python)
      (fun log call m' h ↦ ends_cardAnswer_accounts hecm call h) x hstart
  have hexec : (x.exec (cardAnswer Descrambler.callbacks (some c))).run m = some (a, m') := by
    rw [x.exec_eq [], StateT.run_map, hrun]
    rfl
  obtain ⟨a', m'', hrun', hsteady⟩ :=
    ends_exec_card (Descrambler.callbacks_safe m.python.h) (some c) x (m := m) rfl
  obtain ⟨rfl, rfl⟩ := Prod.mk.inj (Option.some.inj (hexec.symm.trans hrun'))
  exact ⟨a, log, m', hexec, hrun, haccounts, hsteady.python⟩

end Ecm

/-- A stream with an ECM of one byte, and one that is too long for the card. -/
def twoEcms : Foreign BCasCall BCasAnswer ℕ :=
  .call (.procEcm true true (some [0x00])) fun _ ↦
    .call (.procEcm true true (some (List.replicate 110 0x00))) fun _ ↦ .done 0

/-- The card without ids of `zeroStatus`. -/
def zeroCard : CardState where
  status := ⟨zeroStatus.systemKey, zeroStatus.initCbc, 0, 0, 5⟩
  ids := ⟨[], Nat.zero_le _⟩
  ecm := true
  emm := true

theorem ecm_accounts_twoEcms :
    letI := zeroTransport
    ∃ m' : B25Memory Unit Unit (Descrambler Unit Raised),
      (twoEcms.exec (cardAnswer Descrambler.callbacks (some zeroCard))).run
        { outside := (), python := { card := { transport := () } } } = some (0, m') ∧
      m'.python.card.ecmCount = 1 ∧ m'.python.card.ecmErrors = 0 ∧
      m'.python.callbackError ≠ none := by
  let _ := zeroTransport
  obtain ⟨a, log, m', hexec, hlogged, haccounts, -⟩ := ecm_accounts (c := zeroCard) rfl twoEcms
    ({ outside := (), python := { card := { transport := () } } } :
      B25Memory Unit Unit (Descrambler Unit Raised))
  have hresult : ((twoEcms.execLogged (cardAnswer Descrambler.callbacks (some zeroCard)) []).run
      ({ outside := (), python := { card := { transport := () } } } :
        B25Memory Unit Unit (Descrambler Unit Raised))).map Prod.fst = some (0,
        [(.procEcm true true (some [0x00]), .ecm (.ok ()) (some .zero)),
          (.procEcm true true (some (List.replicate 110 0x00)),
            .ecm (.error .transmitFailed) (some .zero))]) := by
    decide +kernel
  rw [hlogged] at hresult
  obtain ⟨rfl, rfl⟩ := Prod.mk.inj (Option.some.inj hresult)
  refine ⟨m', hexec, haccounts.ecmCount.trans ?_, haccounts.ecmErrors.trans ?_, fun hnone ↦ ?_⟩
  · decide +kernel
  · decide +kernel
  · exact (haccounts.callbackError.mp hnone).2 _
      (List.mem_cons_of_mem _ List.mem_cons_self) ⟨_, rfl⟩

end Recdyud
