import Recdyud.Lib.BinaryFloat
import Recdyud.Lib.Stage
import Recdyud.Py

/-!
# The descrambling stage

`Pipeline.process` feeds the descrambler and passes the stream through unchanged once that has
failed, or has not started in time. The descrambler is foreign code: an `Environment` gives the
outcome of each of its methods, and of the clock, on an arbitrary state.

## Falling back without losing data

When `put` fails, the current chunk either is still held by the descrambler or has been rolled
back. `process` cannot see which, and asks whether what it withdrew ends with the chunk. That test
is right except in one case: the chunk was rolled back, and the data held before happens to end
with the very same bytes. Then the chunk is lost.

`Holds` states what is known of the descrambler, `process_of_put_fails` computes what the failing
call returns, and `keeps_input_iff` says exactly when a run loses nothing.
-/

namespace Recdyud

/-- The exception of the descrambler. -/
inductive B25Error where
  | failed (op : String) (code : ℤ)
  deriving DecidableEq, Repr

/-- The descrambler and the clock: what each method returns or raises, and the state after. -/
structure Environment (δ : Type) where
  put : δ → Bytes → Except B25Error Unit × δ
  get : δ → Except B25Error Bytes × δ
  withdraw : δ → Except B25Error Bytes × δ
  flush : δ → Except B25Error Bytes × δ
  close : δ → δ
  clock : δ → ℚ × δ
  /-- of a difference of clock values -/
  rounding : Rounding ℚ

/-- `Pipeline`; `descrambler` says whether there still is one. -/
structure Pipeline where
  descrambler : Bool
  startTimeout : ℚ := 0
  firstInput : Option ℚ := none
  producing : Bool := false
  deriving DecidableEq, Repr

namespace Pipeline

variable {δ : Type} (E : Environment δ)

/-- `_fall_back` -/
def fallBack (self : Pipeline) (d : δ) (pending : Bytes) : (Pipeline × δ) × Bytes :=
  if self.descrambler then (({ self with descrambler := false }, E.close d), pending)
  else ((self, d), pending)

/-- `try: pending = d.withdraw()` with `except B25Error: pending = default` -/
def withdrawOr (d : δ) (default : Bytes) : Bytes × δ :=
  match E.withdraw d with
  | (.ok pending, d) => (pending, d)
  | (.error _, d) => (default, d)

/-- The `except` branch of `process`. -/
def recover (self : Pipeline) (d : δ) (packets : Bytes) : (Pipeline × δ) × Bytes :=
  let (pending, d) := withdrawOr E d []
  self.fallBack E d (if packets <:+ pending then pending else pending ++ packets)

/-- The start timeout, when nothing has come out so far. -/
def checkStart (self : Pipeline) (d : δ) (packets out : Bytes) : (Pipeline × δ) × Bytes :=
  let (now, d) := E.clock d
  match self.firstInput with
  | none => (({ self with firstInput := some now }, d), out)
  | some first =>
    if E.rounding.sub now first ≥ self.startTimeout then
      let (pending, d) := withdrawOr E d packets
      self.fallBack E d pending
    else
      ((self, d), out)

/-- `Pipeline.process` -/
def process (self : Pipeline) (d : δ) (packets : Bytes) : (Pipeline × δ) × Bytes :=
  if self.descrambler then
    match E.put d packets with
    | (.error _, d) => self.recover E d packets
    | (.ok _, d) =>
      match E.get d with
      | (.error _, d) => self.recover E d packets
      | (.ok out, d) =>
        if out ≠ [] then (({ self with producing := true }, d), out)
        else if self.producing = false ∧ self.startTimeout > 0 then self.checkStart E d packets out
        else ((self, d), out)
  else
    ((self, d), packets)

/-- `Pipeline.finish` -/
def finish (self : Pipeline) (d : δ) : Bytes × δ :=
  if self.descrambler then
    match E.flush d with
    | (.ok out, d) => (out, d)
    | (.error _, d) => withdrawOr E d []
  else
    ([], d)

/-- The stage that processes chunk by chunk. -/
def stage : Stage (Pipeline × δ) UInt8 UInt8 := fun s c ↦ s.1.process E s.2 c

/-! ## After a fallback -/

variable {E} {self : Pipeline} {d : δ}

theorem process_of_no_descrambler (h : self.descrambler = false) (d : δ) (packets : Bytes) :
    self.process E d packets = ((self, d), packets) := by
  rw [process, h, if_neg Bool.false_ne_true]

theorem runs_of_no_descrambler (h : self.descrambler = false) (d : δ) (cs : List Bytes) :
    (stage E).runs (self, d) cs = ((self, d), cs.flatten) := by
  induction cs with
  | nil => rfl
  | cons c cs ih =>
    have hstep : stage E (self, d) c = ((self, d), c) := process_of_no_descrambler h d c
    rw [Stage.runs, hstep, ih]
    rfl

theorem descrambler_fallBack (self : Pipeline) (d : δ) (pending : Bytes) :
    (self.fallBack E d pending).1.1.descrambler = false := by
  rw [fallBack]
  cases h : self.descrambler with
  | true => rfl
  | false => exact h

theorem output_fallBack (self : Pipeline) (d : δ) (pending : Bytes) :
    (self.fallBack E d pending).2 = pending := by
  rw [fallBack]
  split <;> rfl

theorem descrambler_recover (self : Pipeline) (d : δ) (packets : Bytes) :
    (self.recover E d packets).1.1.descrambler = false := descrambler_fallBack _ _ _

/-! ## What the descrambler holds -/

/-- What is known of the descrambler, `held d` being the input it holds: input is used up from its
front; a `put` that fails either keeps the chunk or rolls it back; and `withdraw` returns what is
held. -/
structure Holds (E : Environment δ) (held : δ → Bytes) : Prop where
  put_ok : ∀ d c d', E.put d c = (.ok (), d') → held d' <:+ held d ++ c
  put_error : ∀ d c e d', E.put d c = (.error e, d') → held d' = held d ++ c ∨ held d' = held d
  get : ∀ d, held (E.get d).2 <:+ held d
  clock : ∀ d, held (E.clock d).2 = held d
  withdraw : ∀ d, (E.withdraw d).1 = .ok (held d)

variable {held : δ → Bytes}

theorem Holds.withdrawOr (hE : Holds E held) (d : δ) (default : Bytes) :
    (withdrawOr E d default).1 = held d := by
  have h := hE.withdraw d
  rw [Pipeline.withdrawOr]
  split
  · rename_i hw
    rw [hw] at h
    exact Except.ok.inj h
  · rename_i hw
    rw [hw] at h
    cases h

theorem held_checkStart (hE : Holds E held) {packets out : Bytes}
    (halive : (self.checkStart E d packets out).1.1.descrambler = true) :
    held (self.checkStart E d packets out).1.2 = held d := by
  have hclock := hE.clock d
  rw [checkStart] at halive ⊢
  cases hfirst : self.firstInput with
  | none => exact hclock
  | some first =>
    rw [hfirst] at halive
    dsimp only at halive ⊢
    split at halive
    · rw [descrambler_fallBack] at halive
      cases halive
    · rename_i hlate
      rw [if_neg hlate]
      exact hclock

/-- As long as there is no fallback, the descrambler holds an end of the input. -/
theorem held_process (hE : Holds E held) (h : self.descrambler = true) {packets : Bytes}
    (halive : (self.process E d packets).1.1.descrambler = true) :
    held (self.process E d packets).1.2 <:+ held d ++ packets := by
  rw [process, if_pos h] at halive ⊢
  -- a `put` or `get` that fails ends in a fallback, against `halive`
  match hput : E.put d packets with
  | (.error e, d₁) =>
    rw [hput] at halive
    rw [descrambler_recover] at halive
    cases halive
  | (.ok (), d₁) =>
    rw [hput] at halive
    dsimp only at halive ⊢
    have hheld : held (E.get d₁).2 <:+ held d ++ packets :=
      (hE.get d₁).trans (hE.put_ok d packets d₁ hput)
    match hget : E.get d₁ with
    | (.error e, d₂) =>
      rw [hget] at halive
      rw [descrambler_recover] at halive
      cases halive
    | (.ok out, d₂) =>
      rw [hget] at halive hheld
      dsimp only at halive hheld ⊢
      split at halive
      · rename_i hout
        rwa [if_pos hout]
      · rename_i hout
        rw [if_neg hout]
        split at halive
        · rename_i hstart
          rw [if_pos hstart, held_checkStart hE halive]
          exact hheld
        · rename_i hstart
          rwa [if_neg hstart]

/-- What a run without fallback has used up, and what it still holds. -/
theorem runs_held (hE : Holds E held) (cs : List Bytes) :
    ∀ {self : Pipeline} {d : δ}, self.descrambler = true →
      ((stage E).runs (self, d) cs).1.1.descrambler = true →
      ∃ consumed, held d ++ cs.flatten = consumed ++ held ((stage E).runs (self, d) cs).1.2 := by
  induction cs with
  | nil => exact fun _ _ ↦ ⟨[], by simp [Stage.runs]⟩
  | cons c cs ih =>
    intro self d h halive
    rw [Stage.runs] at halive ⊢
    have hstep : ((stage E) (self, d) c).1 = (self.process E d c).1 := rfl
    cases hmid : (self.process E d c).1.1.descrambler with
    | false =>
      -- once there was a fallback there is no way back
      have hdead := runs_of_no_descrambler (E := E) hmid (self.process E d c).1.2 cs
      rw [hstep, hdead, hmid] at halive
      cases halive
    | true =>
      obtain ⟨used, hused⟩ := held_process hE h hmid
      obtain ⟨consumed, hconsumed⟩ := ih (d := (self.process E d c).1.2) hmid halive
      refine ⟨used ++ consumed, ?_⟩
      rw [List.flatten_cons, ← List.append_assoc, ← hused, List.append_assoc, hconsumed,
        List.append_assoc]
      rfl

/-- What the call returns in which `put` fails. -/
theorem process_of_put_fails (hE : Holds E held) (h : self.descrambler = true) {c : Bytes}
    {e : B25Error} {d' : δ} (hput : E.put d c = (.error e, d')) :
    (self.process E d c).1.1.descrambler = false ∧
      (self.process E d c).2 = if c <:+ held d' then held d' else held d' ++ c := by
  have hrecover : self.process E d c = self.recover E d' c := by
    rw [process, if_pos h, hput]
  rw [hrecover]
  refine ⟨descrambler_recover self d' c, ?_⟩
  rw [recover, output_fallBack, hE.withdrawOr]

/-- The test of `process` goes wrong for one kind of failure only. -/
theorem ite_suffix_eq_iff {H K c : Bytes} (h : K = H ++ c ∨ K = H) :
    (if c <:+ K then K else K ++ c) = H ++ c ↔ K = H ++ c ∨ ¬c <:+ H := by
  rcases h with rfl | rfl
  · simp
  · by_cases hc : c <:+ K <;> simp [hc]

/-- **What a failing `put` costs.** Let a fresh pipeline process the chunks `cs` without fallback,
let the next `put` fail, and let more chunks follow. The failing call returns what was held and its
chunk — and with the later calls everything the descrambler had not used up, once and in order — if
and only if the chunk was kept, or what was held does not end with it. -/
theorem keeps_input_iff (hE : Holds E held) {d₀ : δ} (h₀ : held d₀ = []) (startTimeout : ℚ)
    (cs : List Bytes) (c : Bytes) (later : List Bytes) {self : Pipeline} {d : δ} {out : Bytes}
    (hrun : (stage E).runs ({ descrambler := true, startTimeout }, d₀) cs = ((self, d), out))
    (halive : self.descrambler = true) {e : B25Error} {d' : δ}
    (hput : E.put d c = (.error e, d')) :
    ((self.process E d c).2 = held d ++ c ↔ held d' = held d ++ c ∨ ¬c <:+ held d) ∧
      ∃ consumed, cs.flatten = consumed ++ held d ∧
        (consumed ++ ((stage E).runs (self, d) (c :: later)).2 = (cs ++ c :: later).flatten ↔
          held d' = held d ++ c ∨ ¬c <:+ held d) := by
  obtain ⟨hdead, hout⟩ := process_of_put_fails hE halive hput
  have hiff := ite_suffix_eq_iff (hE.put_error d c e d' hput)
  rw [← hout] at hiff
  refine ⟨hiff, ?_⟩
  obtain ⟨consumed, hconsumed⟩ := runs_held (d := d₀) hE cs rfl (by rw [hrun]; exact halive)
  rw [hrun, h₀, List.nil_append] at hconsumed
  refine ⟨consumed, hconsumed, ?_⟩
  have hruns : ((stage E).runs (self, d) (c :: later)).2
      = (self.process E d c).2 ++ later.flatten := by
    rw [Stage.runs]
    exact congrArg ((self.process E d c).2 ++ ·)
      (congrArg Prod.snd (runs_of_no_descrambler hdead (self.process E d c).1.2 later))
  rw [← hiff, hruns, List.flatten_append, List.flatten_cons, hconsumed, List.append_assoc,
    List.append_cancel_left_eq, ← List.append_assoc, List.append_cancel_right_eq]

/-! ### A descrambler that rolls back -/

/-- A descrambler that never sees its keys: it holds one packet, and fails on the second. -/
def rollback : Environment Bytes where
  put held c := if held = [] then (.ok (), c) else (.error (.failed "put" (-1)), held)
  get held := (.ok [], held)
  withdraw held := (.ok held, [])
  flush held := (.ok held, [])
  close _ := []
  clock held := (0, held)
  rounding := BinaryFormat.binary64.rounding

theorem rollback_holds : Holds rollback id where
  put_ok := by
    intro held c d' h
    rw [rollback] at h
    dsimp only at h
    split at h
    · cases h
      exact List.suffix_append _ _
    · cases h
  put_error := by
    intro held c e d' h
    rw [rollback] at h
    dsimp only at h
    split at h
    · cases h
    · cases h
      exact .inr rfl
  get := fun _ ↦ List.suffix_rfl
  clock := fun _ ↦ rfl
  withdraw := fun _ ↦ rfl

/-- A null packet. -/
def nullPacket : Bytes := [0x47, 0x1F, 0xFF, 0x10] ++ List.replicate 184 0xFF

/-- Two null packets in a row, and the second `put` is rolled back: one of them is lost. -/
theorem rollback_loses_repetition : Holds rollback id ∧
    ((stage rollback).runs ({ descrambler := true }, []) [nullPacket, nullPacket]).2
      ≠ [nullPacket, nullPacket].flatten :=
  ⟨rollback_holds, by decide +kernel⟩

/-- Two different packets are kept. -/
theorem rollback_keeps_input :
    (({ descrambler := true } : Pipeline).process rollback nullPacket [0x47]).2
      = nullPacket ++ [0x47] :=
  ((keeps_input_iff rollback_holds rfl 0 [nullPacket] [0x47] [] rfl rfl rfl).1).mpr
    (.inr (by decide +kernel))

end Pipeline

end Recdyud
