import Recdyud.Ts.Continuity

/-!
# Bounds on the counters

The monitor takes copies of the running totals and shows what was gained in between. `Consistent`
collects what must hold for such a difference to make sense. One packet gains a consistent amount,
and consistent amounts add up, so any interval of any run gains one; from that, both percentages lie
between 0 and 100 and their denominators are never 0.
-/

namespace Recdyud

namespace TsCounters

/-- `TsCounters.payload_packets` -/
def payloadPackets (self : TsCounters) : ℤ := self.packets - self.null - self.tei

/-- The denominator of `tei_percent`. -/
def teiBase (self : TsCounters) : ℤ := max 1 (self.packets - self.null)

/-- `TsCounters.tei_percent` -/
def teiPercent (self : TsCounters) : ℚ := 100 * self.tei / self.teiBase

/-- The denominator of `scrambled_percent`. -/
def scrambledBase (self : TsCounters) : ℤ := max 1 self.payloadPackets

/-- `TsCounters.scrambled_percent` -/
def scrambledPercent (self : TsCounters) : ℚ := 100 * self.scrambled / self.scrambledBase

/-- What an interval of a run can gain. -/
structure Consistent (c : TsCounters) : Prop where
  tei_nonneg : 0 ≤ c.tei
  null_nonneg : 0 ≤ c.null
  tei_add_null_le : c.tei + c.null ≤ c.packets
  scrambled_nonneg : 0 ≤ c.scrambled
  scrambled_le : c.scrambled ≤ c.payloadPackets
  ccErrors_nonneg : 0 ≤ c.ccErrors
  ccErrors_le : c.ccErrors ≤ c.payloadPackets

/-- Both percentages are percentages, and computing them does not divide by zero. -/
structure PercentsInRange (c : TsCounters) : Prop where
  tei_base : c.teiBase ≠ 0
  tei_nonneg : 0 ≤ c.teiPercent
  tei_le : c.teiPercent ≤ 100
  scrambled_base : c.scrambledBase ≠ 0
  scrambled_nonneg : 0 ≤ c.scrambledPercent
  scrambled_le : c.scrambledPercent ≤ 100

theorem Consistent.zero : Consistent {} := by
  constructor <;> decide

theorem Consistent.add {c d : TsCounters} (hc : Consistent c) (hd : Consistent d) :
    Consistent (c + d) := by
  obtain ⟨c1, c2, c3, c4, c5, c6, c7⟩ := hc
  obtain ⟨d1, d2, d3, d4, d5, d6, d7⟩ := hd
  rw [payloadPackets] at c5 c7 d5 d7
  rw [add_def]
  constructor <;> simp only [TsCounters.add, payloadPackets] <;> omega

/-- What is gained in two steps is what both gain. -/
theorem sub_add_sub (t u v : TsCounters) : v - t = u - t + (v - u) := by
  change TsCounters.sub v t = TsCounters.add (TsCounters.sub u t) (TsCounters.sub v u)
  ext1 <;> simp only [TsCounters.sub, TsCounters.add] <;> omega

theorem sub_self (t : TsCounters) : t - t = {} := by
  have := add_sub_self t {}
  rwa [add_zero] at this

theorem sub_zero (t : TsCounters) : t - {} = t := by
  change TsCounters.sub t {} = t
  ext1 <;> simp only [TsCounters.sub] <;> omega

/-- A share is a percentage. -/
theorem percent_mem {part base : ℤ} (h0 : 0 ≤ part) (hle : part ≤ base) (hbase : 1 ≤ base) :
    0 ≤ (100 * part / base : ℚ) ∧ (100 * part / base : ℚ) ≤ 100 := by
  have hbase' : (0 : ℚ) < base := by exact_mod_cast hbase
  have h0' : (0 : ℚ) ≤ part := by exact_mod_cast h0
  have hle' : (part : ℚ) ≤ base := by exact_mod_cast hle
  constructor
  · positivity
  · rw [div_le_iff₀ hbase']
    linarith

theorem Consistent.percents {c : TsCounters} (hc : Consistent c) : PercentsInRange c := by
  have htei : 1 ≤ c.teiBase := le_max_left _ _
  have hscrambled : 1 ≤ c.scrambledBase := le_max_left _ _
  have hteiLe : c.tei ≤ c.teiBase := by
    refine le_trans ?_ (le_max_right _ _)
    have := hc.tei_add_null_le
    omega
  obtain ⟨h1, h2⟩ := percent_mem hc.tei_nonneg hteiLe htei
  obtain ⟨h3, h4⟩ := percent_mem hc.scrambled_nonneg (hc.scrambled_le.trans (le_max_right _ _))
    hscrambled
  exact ⟨by omega, h1, h2, by omega, h3, h4⟩

end TsCounters

namespace TsAnalyzer

open TsCounters

/-- A packet is errored, or null, or carries payload; only the last kind can be scrambled or break
a counter. -/
theorem consistent_increment (prev : Option ℕ) (p : Packet) : Consistent (increment prev p) := by
  cases htei : p.tei with
  | true => constructor <;> simp [increment, payloadPackets, Counted, htei]
  | false =>
    by_cases hnull : (p.pid : ℕ) = nullPid
    · constructor <;> simp [increment, payloadPackets, Counted, htei, hnull]
    · constructor <;> simp only [increment, payloadPackets, htei, hnull] <;> split <;> simp

/-- Packets per PID, all told. -/
def pidSum (self : TsAnalyzer) : ℕ := ∑ pid, self.pidPackets pid

theorem pidSum_account (self : TsAnalyzer) (p : Packet) :
    (self.account p).pidSum = self.pidSum + 1 := by
  rw [pidSum, account, Finset.sum_update_of_mem (Finset.mem_univ _), pidSum,
    ← Finset.add_sum_erase Finset.univ self.pidPackets (Finset.mem_univ p.pid),
    Finset.sdiff_singleton_eq_erase]
  ring

/-- What a run of packets does to the totals. -/
structure Gains (earlier later : TsAnalyzer) : Prop where
  consistent : Consistent (later.total - earlier.total)
  pids : (later.pidSum : ℤ) - earlier.pidSum = later.total.packets - earlier.total.packets

theorem Gains.refl (self : TsAnalyzer) : Gains self self := by
  refine ⟨?_, by rw [Int.sub_self, Int.sub_self]⟩
  rw [TsCounters.sub_self]
  exact Consistent.zero

theorem Gains.trans {a b c : TsAnalyzer} (hab : Gains a b) (hbc : Gains b c) : Gains a c := by
  refine ⟨?_, ?_⟩
  · rw [sub_add_sub a.total b.total]
    exact hab.consistent.add hbc.consistent
  · have h1 := hab.pids
    have h2 := hbc.pids
    omega

theorem gains_account (self : TsAnalyzer) (p : Packet) : Gains self (self.account p) := by
  refine ⟨?_, ?_⟩
  · rw [account, add_sub_self]
    exact consistent_increment _ p
  · rw [pidSum_account]
    have hpackets : (self.account p).total.packets = self.total.packets + 1 := rfl
    rw [hpackets]
    push_cast
    ring

theorem gains_foldl (self : TsAnalyzer) (ps : List Packet) :
    Gains self (ps.foldl account self) := by
  induction ps generalizing self with
  | nil => exact Gains.refl self
  | cons p ps ih => exact (gains_account self p).trans (ih _)

/-- A call of `update` gains what it returns. -/
theorem updateStage_gains (self : TsAnalyzer) (packets : Bytes) : ∃ later,
    self.updateStage packets = .ok (later, [later.total - self.total]) ∧ Gains self later := by
  refine ⟨_, ?_, gains_foldl self (packetsOf packets)⟩
  rw [updateStage, update_eq]
  rfl

/-- A run of calls gains from its first moment to its last, and in each call. -/
theorem feedAll_gains (self : TsAnalyzer) (calls : List Bytes) : ∃ later deltas,
    feedAll updateStage self calls = .ok (later, deltas) ∧ Gains self later
    ∧ ∀ delta ∈ deltas, Consistent delta := by
  induction calls generalizing self with
  | nil => exact ⟨self, [], rfl, Gains.refl self, fun _ h ↦ nomatch h⟩
  | cons packets calls ih =>
    obtain ⟨next, hcall, hgains⟩ := updateStage_gains self packets
    obtain ⟨later, deltas, hrun, hlater, hdeltas⟩ := ih next
    refine ⟨later, _, feedAll_cons_ok hcall hrun, hgains.trans hlater, ?_⟩
    intro delta hdelta
    rcases List.mem_append.mp hdelta with hown | hrest
    · rw [List.mem_singleton.mp hown]
      exact hgains.consistent
    · exact hdeltas delta hrest

theorem pidSum_fresh : ({} : TsAnalyzer).pidSum = 0 := Finset.sum_const_zero

theorem Gains.of_fresh {self : TsAnalyzer} (h : Gains {} self) :
    Consistent self.total ∧ (self.pidSum : ℤ) = self.total.packets := by
  refine ⟨?_, ?_⟩
  · have := h.consistent
    rwa [sub_zero] at this
  · have hzero : ({} : TsAnalyzer).total.packets = 0 := rfl
    have := h.pids
    rwa [pidSum_fresh, hzero, Nat.cast_zero, Int.sub_zero, Int.sub_zero] at this

/-- **The counters of every interval are consistent.** Take any calls of `update` on a fresh
analyzer and any two moments, `earlier` and `later` calls into the run: the totals at both moments,
what was gained in between and what each call returned obey the bounds, and the packets counted per
PID add up to the total. -/
theorem update_consistent (earlier later : List Bytes) : ∃ a b deltas deltas',
    feedAll updateStage {} earlier = .ok (a, deltas)
    ∧ feedAll updateStage a later = .ok (b, deltas')
    ∧ (∀ c ∈ [a.total, b.total, b.total - a.total] ++ deltas ++ deltas',
      Consistent c ∧ PercentsInRange c)
    ∧ (∑ pid, a.pidPackets pid : ℕ) = a.total.packets
    ∧ (∑ pid, b.pidPackets pid : ℕ) = b.total.packets := by
  obtain ⟨a, deltas, hearlier, ha, hdeltas⟩ := feedAll_gains {} earlier
  obtain ⟨b, deltas', hlater, hb, hdeltas'⟩ := feedAll_gains a later
  obtain ⟨hatotal, hapids⟩ := ha.of_fresh
  obtain ⟨hbtotal, hbpids⟩ := (ha.trans hb).of_fresh
  refine ⟨a, b, deltas, deltas', hearlier, hlater, ?_, hapids, hbpids⟩
  have hall : ∀ c ∈ [a.total, b.total, b.total - a.total] ++ deltas ++ deltas', Consistent c := by
    intro c hc
    rcases List.mem_append.mp hc with hc | hc
    · rcases List.mem_append.mp hc with hc | hc
      · rw [List.mem_cons, List.mem_cons, List.mem_singleton] at hc
        obtain rfl | rfl | rfl := hc
        · exact hatotal
        · exact hbtotal
        · exact hb.consistent
      · exact hdeltas c hc
    · exact hdeltas' c hc
  exact fun c hc ↦ ⟨hall c hc, (hall c hc).percents⟩

end TsAnalyzer

end Recdyud
