import Recdyud.Lib.Interleaved
import Recdyud.Lib.Stage
import Recdyud.Ts.Analyzer
import Recdyud.Ts.Packet

/-!
# Continuity errors, PID by PID

The analyzer keeps 8192 counters in one loop. `booked` says what it knows after a list of packets
without following the loop: every entry is a function of the packets of one PID, and the number of
continuity errors is the number of breaks in the counters of each PID (`foldl_account_eq`).

## What a loss looks like

When a block of packets is lost, the counters of a PID break at most once, at the joint. They do not
when the PID lost a multiple of 16 packets, nor when it lost one less: then the packet behind the
gap repeats the counter of the one in front of it, and passes for a duplicate.
-/

namespace Recdyud

namespace TsAnalyzer

/-! ## The streams -/

/-- A packet without error that carries payload, and so counts on. -/
def Counts (p : Packet) : Prop := p.tei = false ∧ p.hasPayload = true

instance (p : Packet) : Decidable (Counts p) := inferInstanceAs (Decidable (_ ∧ _))

/-- The continuity counters of a PID. -/
def ccsOf (pid : Fin 8192) (ps : List Packet) : List ℕ :=
  ((projection Packet.pid pid ps).filter (Counts ·)).map Packet.cc

/-- The counter goes on, or repeats itself: it differs by 1 or 0 modulo 16. -/
def GoesOn (prev cc : ℕ) : Prop := ((cc : ℤ) - prev) % 16 = 0 ∨ ((cc : ℤ) - prev) % 16 = 1

instance : DecidableRel GoesOn := fun _ _ ↦ inferInstanceAs (Decidable (_ ∨ _))

/-- The PIDs in which continuity is counted. A sum over them is never evaluated. -/
@[irreducible] def countedPids : Finset (Fin 8192) :=
  Finset.univ.filter fun pid ↦ (pid : ℕ) ≠ nullPid

theorem mem_countedPids {pid : Fin 8192} : pid ∈ countedPids ↔ (pid : ℕ) ≠ nullPid := by
  rw [countedPids, Finset.mem_filter, and_iff_right (Finset.mem_univ pid)]

theorem ccsOf_append (pid : Fin 8192) (ps qs : List Packet) :
    ccsOf pid (ps ++ qs) = ccsOf pid ps ++ ccsOf pid qs := by
  rw [ccsOf, projection_append, List.filter_append, List.map_append]
  rfl

theorem ccsOf_singleton (pid : Fin 8192) (p : Packet) :
    ccsOf pid [p] = if p.pid = pid ∧ Counts p then [p.cc] else [] := by
  by_cases hpid : p.pid = pid <;> by_cases hcounts : Counts p <;>
    simp [ccsOf, projection, hpid, hcounts]

theorem counted_iff {p : Packet} : Counted p ↔ p.pid ∈ countedPids ∧ Counts p := by
  rw [mem_countedPids, Counted, Counts, Packet.hasPayload_eq, bne_iff_ne]
  exact and_left_comm

theorem ccJump_eq_true_iff {prev : Option ℕ} {cc : ℕ} :
    ccJump prev cc = true ↔ ∃ a ∈ prev, ¬GoesOn a cc := by
  cases prev with
  | none => simp [ccJump]
  | some a =>
    simp only [ccJump, decide_eq_true_eq, GoesOn, Option.mem_def, Option.some.injEq,
      exists_eq_left']
    omega

/-! ## What is booked -/

/-- The last counter of a PID. -/
def lastCcOf (pid : Fin 8192) (ps : List Packet) : Option ℕ :=
  if pid ∈ countedPids then (ccsOf pid ps).getLast? else none

/-- The breaks in the counters of all PIDs. -/
def ccErrorsOf (ps : List Packet) : ℕ := ∑ pid ∈ countedPids, breaks GoesOn (ccsOf pid ps)

/-- What is known after the packets `ps`. -/
def booked (ps : List Packet) : TsAnalyzer where
  total :=
    { packets := ps.length
      tei := ps.countP (·.tei)
      ccErrors := ccErrorsOf ps
      scrambled := ps.countP fun p ↦ p.tei = false ∧ (p.pid : ℕ) ≠ nullPid ∧ p.scrambled
      null := ps.countP fun p ↦ p.tei = false ∧ (p.pid : ℕ) = nullPid }
  pidPackets pid := (projection Packet.pid pid ps).length
  lastCc pid := lastCcOf pid ps

theorem lastCcOf_concat (pid : Fin 8192) (ps : List Packet) (p : Packet) :
    lastCcOf pid (ps ++ [p]) = if p.pid = pid ∧ Counted p then some p.cc else lastCcOf pid ps := by
  rw [lastCcOf, lastCcOf, ccsOf_append, ccsOf_singleton]
  by_cases hown : p.pid = pid
  · subst hown
    by_cases hcounts : Counts p <;> by_cases hpid : p.pid ∈ countedPids <;>
      simp [counted_iff, hcounts, hpid]
  · simp [hown]

/-- One packet breaks the counters of its own PID, or none. -/
theorem ccErrorsOf_concat (ps : List Packet) (p : Packet) :
    ccErrorsOf (ps ++ [p])
      = ccErrorsOf ps + if Counted p ∧ ccJump (lastCcOf p.pid ps) p.cc then 1 else 0 := by
  have hstep : ∀ pid ∈ countedPids, breaks GoesOn (ccsOf pid (ps ++ [p]))
      = breaks GoesOn (ccsOf pid ps)
        + if p.pid = pid then if Counts p ∧ ccJump (lastCcOf pid ps) p.cc then 1 else 0
          else 0 := by
    intro pid hpid
    rw [ccsOf_append, ccsOf_singleton, lastCcOf, if_pos hpid]
    by_cases hown : p.pid = pid
    · by_cases hcounts : Counts p
      · rw [if_pos ⟨hown, hcounts⟩, breaks_concat, if_pos hown]
        simp only [ccJump_eq_true_iff, hcounts, true_and]
      · simp [hcounts]
    · simp [hown]
  rw [ccErrorsOf, Finset.sum_congr rfl hstep, Finset.sum_add_distrib, Finset.sum_ite_eq, ccErrorsOf]
  refine congrArg _ ?_
  by_cases hpid : p.pid ∈ countedPids <;> simp only [counted_iff, hpid, if_true, if_false, true_and,
    false_and]

theorem ccErrorsOf_nil : ccErrorsOf [] = 0 := by
  have hno : ∀ pid ∈ countedPids, breaks GoesOn (ccsOf pid []) = 0 := fun _ _ ↦ rfl
  rw [ccErrorsOf, Finset.sum_eq_zero hno]

theorem total_booked_concat (ps : List Packet) (p : Packet) :
    (booked (ps ++ [p])).total = (booked ps).total + increment (lastCcOf p.pid ps) p := by
  have hcount (P : Packet → Prop) [DecidablePred P] :
      ((ps ++ [p]).countP (P ·) : ℤ) = ps.countP (P ·) + if P p then 1 else 0 := by
    rw [List.countP_append, List.countP_singleton]
    by_cases hp : P p <;> simp [hp]
  rw [TsCounters.add_def]
  ext1
  · change ((ps ++ [p]).length : ℤ) = ps.length + 1
    rw [List.length_append]
    rfl
  · change ((ps ++ [p]).countP (·.tei) : ℤ) = ps.countP (·.tei) + if p.tei then 1 else 0
    rw [List.countP_append, List.countP_singleton]
    push_cast
    rfl
  · change (ccErrorsOf (ps ++ [p]) : ℤ) = ccErrorsOf ps + if _ then 1 else 0
    rw [ccErrorsOf_concat]
    push_cast
    rfl
  · exact hcount fun p ↦ p.tei = false ∧ (p.pid : ℕ) ≠ nullPid ∧ p.scrambled
  · exact hcount fun p ↦ p.tei = false ∧ (p.pid : ℕ) = nullPid

theorem pidPackets_booked_concat (ps : List Packet) (p : Packet) :
    (booked (ps ++ [p])).pidPackets
      = Function.update (booked ps).pidPackets p.pid ((booked ps).pidPackets p.pid + 1) := by
  funext pid
  change (projection Packet.pid pid (ps ++ [p])).length = _
  rw [Function.update_apply, projection_append, List.length_append]
  by_cases hown : pid = p.pid
  · subst hown
    simp [projection, booked]
  · simp [projection, booked, hown, Ne.symm hown]

theorem lastCc_booked_concat (ps : List Packet) (p : Packet) :
    (booked (ps ++ [p])).lastCc = if Counted p
      then Function.update (booked ps).lastCc p.pid (some p.cc) else (booked ps).lastCc := by
  funext pid
  change lastCcOf pid (ps ++ [p]) = _
  rw [lastCcOf_concat]
  by_cases hcounted : Counted p
  · rw [if_pos hcounted, Function.update_apply]
    by_cases hown : pid = p.pid
    · rw [if_pos hown, if_pos ⟨hown.symm, hcounted⟩]
    · rw [if_neg hown, if_neg (not_and_of_not_left _ (Ne.symm hown))]
      rfl
  · rw [if_neg hcounted, if_neg (not_and_of_not_right _ hcounted)]
    rfl

theorem booked_nil : booked [] = {} := by
  have hnone : ((ccErrorsOf [] : ℕ) : ℤ) = 0 := by rw [ccErrorsOf_nil, Nat.cast_zero]
  ext1
  · ext1
    · rfl
    · rfl
    · exact hnone
    · rfl
    · rfl
  · rfl
  · funext pid
    exact ite_self none

/-- One turn of the loop books one packet more. -/
theorem account_booked (ps : List Packet) (p : Packet) :
    account (booked ps) p = booked (ps ++ [p]) := by
  rw [account]
  ext1
  · exact (total_booked_concat ps p).symm
  · exact (pidPackets_booked_concat ps p).symm
  · exact (lastCc_booked_concat ps p).symm

/-- **The loop, seen PID by PID.** -/
theorem foldl_account_eq (ps : List Packet) : ps.foldl account {} = booked ps := by
  induction ps using List.reverseRecOn with
  | nil => exact booked_nil.symm
  | append_singleton ps p ih =>
    rw [List.foldl_append, ih, List.foldl_cons, List.foldl_nil, account_booked]

/-! ## Calls of `update` -/

/-- A call of `update` on a batch: the analyzer goes on, and the delta comes out. -/
def updateStage (self : TsAnalyzer) (packets : Bytes) :
    Except IndexError (TsAnalyzer × List TsCounters) := do
  let (self, delta) ← self.update packets
  return (self, [delta])

/-- Any split into calls books the packets; the deltas make up what the totals gained. -/
theorem feedAll_updateStage (self : TsAnalyzer) (calls : List (List Packet)) : ∃ deltas,
    feedAll updateStage self (calls.map (·.flatMap Packet.bytes))
      = .ok (calls.flatten.foldl account self, deltas)
    ∧ deltas.foldl (· + ·) self.total = (calls.flatten.foldl account self).total := by
  induction calls generalizing self with
  | nil => exact ⟨[], rfl, rfl⟩
  | cons ps calls ih =>
    have hcall : self.updateStage (ps.flatMap Packet.bytes)
        = .ok (ps.foldl account self, [(ps.foldl account self).total - self.total]) := by
      rw [updateStage, update_eq, packetsOf_flatMap_bytes]
      rfl
    obtain ⟨deltas, hrun, hsum⟩ := ih (ps.foldl account self)
    rw [List.flatten_cons, List.foldl_append]
    refine ⟨_ :: deltas, feedAll_cons_ok hcall hrun, ?_⟩
    rw [List.foldl_cons, TsCounters.add_sub_cancel, hsum]

theorem booked_eq_of_projection {ps qs : List Packet}
    (h : ∀ pid, projection Packet.pid pid ps = projection Packet.pid pid qs) :
    booked ps = booked qs := by
  have hperm : ps.Perm qs := perm_of_projection_eq h
  have hccs : ∀ pid, ccsOf pid ps = ccsOf pid qs := fun pid ↦ by rw [ccsOf, h, ccsOf]
  have herrors : ccErrorsOf ps = ccErrorsOf qs := by
    rw [ccErrorsOf, ccErrorsOf, Finset.sum_congr rfl fun pid _ ↦ congrArg _ (hccs pid)]
  ext1
  · ext1
    · exact congrArg Nat.cast hperm.length_eq
    · exact congrArg Nat.cast (hperm.countP_eq _)
    · exact congrArg Nat.cast herrors
    · exact congrArg Nat.cast (hperm.countP_eq _)
    · exact congrArg Nat.cast (hperm.countP_eq _)
  · exact funext fun pid ↦ congrArg List.length (h pid)
  · funext pid
    change lastCcOf pid ps = lastCcOf pid qs
    rw [lastCcOf, lastCcOf, hccs]

/-- **Continuity errors are counted PID by PID**, over any split into calls and any interleaving. -/
theorem feedAll_updateStage_ccErrors (calls : List (List Packet)) : ∃ final deltas,
    feedAll updateStage {} (calls.map (·.flatMap Packet.bytes)) = .ok (final, deltas)
    ∧ final.total.ccErrors = ∑ pid ∈ countedPids, breaks GoesOn (ccsOf pid calls.flatten)
    ∧ deltas.foldl (· + ·) {} = final.total
    ∧ ∀ calls' : List (List Packet), (∀ pid,
        projection Packet.pid pid calls'.flatten = projection Packet.pid pid calls.flatten) →
      ∃ deltas', feedAll updateStage {} (calls'.map (·.flatMap Packet.bytes))
        = .ok (final, deltas') := by
  obtain ⟨deltas, hrun, hsum⟩ := feedAll_updateStage {} calls
  refine ⟨_, deltas, hrun, ?_, hsum, ?_⟩
  · rw [foldl_account_eq]
    change ((ccErrorsOf calls.flatten : ℕ) : ℤ) = _
    rw [ccErrorsOf, Nat.cast_sum]
  · intro calls' hsame
    obtain ⟨deltas', hrun', -⟩ := feedAll_updateStage {} calls'
    rw [foldl_account_eq, booked_eq_of_projection hsame] at hrun'
    rw [foldl_account_eq]
    exact ⟨deltas', hrun'⟩

/-! ## A lost block -/

/-- Every counter goes up by one from packet to packet. -/
def Unbroken (ps : List Packet) : Prop :=
  ∀ pid : Fin 8192, (pid : ℕ) ≠ nullPid → (ccsOf pid ps).IsChain CcStep

/-- Over a gap, the counter goes up by the length of the gap and one. -/
theorem last_of_isChain_ccStep {a b : ℕ} {gap : List ℕ}
    (h : (a :: (gap ++ [b])).IsChain CcStep) : b = (a + gap.length + 1) % 16 := by
  induction gap generalizing a with
  | nil =>
    rw [List.nil_append, List.isChain_pair] at h
    exact h
  | cons c gap ih =>
    rw [List.cons_append, List.isChain_cons_cons] at h
    obtain ⟨hstep, htail⟩ := h
    rw [ih htail, hstep, List.length_cons]
    omega

theorem goesOn_iff_of_gap {a b k : ℕ} (hb : b = (a + k + 1) % 16) :
    GoesOn a b ↔ k % 16 = 0 ∨ k % 16 = 15 := by
  subst hb
  rw [GoesOn]
  omega

theorem CcStep.goesOn {a b : ℕ} (h : CcStep a b) : GoesOn a b := by
  rw [goesOn_iff_of_gap (k := 0) h]
  exact .inl rfl

/-- The counters of one PID, with a gap: they break at the joint or nowhere. -/
theorem breaks_of_gap {before gap after : List ℕ}
    (h : (before ++ gap ++ after).IsChain CcStep) :
    breaks GoesOn (before ++ after)
      = if before ≠ [] ∧ after ≠ [] ∧ gap.length % 16 ≠ 0 ∧ gap.length % 16 ≠ 15 then 1 else 0 := by
  have hbefore : breaks GoesOn before = 0 :=
    breaks_eq_zero_of_isChain ((h.left_of_append.left_of_append).imp fun _ _ ↦ CcStep.goesOn)
  have hafter : breaks GoesOn after = 0 :=
    breaks_eq_zero_of_isChain (h.right_of_append.imp fun _ _ ↦ CcStep.goesOn)
  rw [breaks_append, hbefore, hafter, Nat.zero_add]
  refine if_congr ?_ rfl rfl
  rcases List.eq_nil_or_concat before with rfl | ⟨before, a, rfl⟩
  · simp
  · cases after with
    | nil => simp
    | cons b after =>
      have hgap : (a :: (gap ++ [b])).IsChain CcStep := by
        refine h.infix ⟨before, after, ?_⟩
        simp
      have hgoes := goesOn_iff_of_gap (last_of_isChain_ccStep hgap)
      simp [hgoes]

/-- **A lost block** shows in every PID that lost neither a multiple of 16 packets nor one less. -/
theorem feedAll_updateStage_lost {calls : List (List Packet)} {before block after : List Packet}
    (hcalls : calls.flatten = before ++ after) (hcont : Unbroken (before ++ block ++ after)) :
    ∃ final deltas,
      feedAll updateStage {} (calls.map (·.flatMap Packet.bytes)) = .ok (final, deltas)
      ∧ final.total.ccErrors = (countedPids.filter fun pid ↦
          ccsOf pid before ≠ [] ∧ ccsOf pid after ≠ []
          ∧ (ccsOf pid block).length % 16 ≠ 0 ∧ (ccsOf pid block).length % 16 ≠ 15).card
      ∧ (block = [] → final.total.ccErrors = 0) := by
  obtain ⟨deltas, hrun, -⟩ := feedAll_updateStage {} calls
  have herrors : (calls.flatten.foldl account {}).total.ccErrors = (countedPids.filter fun pid ↦
      ccsOf pid before ≠ [] ∧ ccsOf pid after ≠ []
      ∧ (ccsOf pid block).length % 16 ≠ 0 ∧ (ccsOf pid block).length % 16 ≠ 15).card := by
    rw [foldl_account_eq, hcalls, Finset.card_filter]
    refine congrArg Nat.cast (Finset.sum_congr rfl fun pid hpid ↦ ?_)
    have hchain := hcont pid (mem_countedPids.mp hpid)
    rw [ccsOf_append, ccsOf_append] at hchain
    rw [ccsOf_append]
    exact breaks_of_gap hchain
  refine ⟨_, deltas, hrun, herrors, ?_⟩
  rintro rfl
  rw [herrors, Finset.filter_false_of_mem, Finset.card_empty, Nat.cast_zero]
  rintro pid - ⟨-, -, hk, -⟩
  exact hk rfl

/-- A packet with payload. -/
def payloadPacket (cc : Fin 16) : Packet where
  bytes := [0x47, 0x01, 0x00, 0x10 + UInt8.ofNat cc] ++ List.replicate 184 0xFF
  length_eq := rfl

theorem ccsOf_payloadPacket (pid : Fin 8192) (cc : Fin 16) :
    ccsOf pid [payloadPacket cc] = if pid = 256 then [(cc : ℕ)] else [] := by
  have hpid : (payloadPacket cc).pid = 256 := by revert cc; decide
  have hcounts : Counts (payloadPacket cc) := by revert cc; decide
  have hcc : (payloadPacket cc).cc = cc := by revert cc; decide
  rw [ccsOf_singleton, hpid, hcc]
  simp only [hcounts, and_true, eq_comm]

theorem feedAll_updateStage_lost_one : ∃ final deltas,
    feedAll updateStage {}
        ([[payloadPacket 0], [payloadPacket 2]].map (·.flatMap Packet.bytes)) = .ok (final, deltas)
    ∧ final.total.ccErrors = 1 := by
  have hcont : Unbroken ([payloadPacket 0] ++ [payloadPacket 1] ++ [payloadPacket 2]) := by
    rintro pid -
    rw [ccsOf_append, ccsOf_append, ccsOf_payloadPacket, ccsOf_payloadPacket, ccsOf_payloadPacket]
    by_cases hpid : pid = 256
    · simp [hpid, CcStep]
    · simp [hpid]
  have hbroken : (countedPids.filter fun pid ↦
      ccsOf pid [payloadPacket 0] ≠ [] ∧ ccsOf pid [payloadPacket 2] ≠ []
      ∧ (ccsOf pid [payloadPacket 1]).length % 16 ≠ 0
      ∧ (ccsOf pid [payloadPacket 1]).length % 16 ≠ 15) = {256} := by
    ext pid
    rw [Finset.mem_filter, Finset.mem_singleton, mem_countedPids, ccsOf_payloadPacket,
      ccsOf_payloadPacket, ccsOf_payloadPacket]
    by_cases hpid : pid = 256
    · subst hpid
      decide
    · simp [hpid]
  have hcalls : [[payloadPacket 0], [payloadPacket 2]].flatten
      = [payloadPacket 0] ++ [payloadPacket 2] := by
    rw [List.flatten_cons, List.flatten_singleton]
  obtain ⟨final, deltas, hrun, herrors, -⟩ := feedAll_updateStage_lost hcalls hcont
  rw [hbroken, Finset.card_singleton, Nat.cast_one] at herrors
  exact ⟨final, deltas, hrun, herrors⟩

end TsAnalyzer

end Recdyud
