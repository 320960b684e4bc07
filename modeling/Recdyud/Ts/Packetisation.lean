import Recdyud.Lib.Stage
import Recdyud.Ts.SectionAssembler

/-!
# Packetisation and reassembly of sections

A *packetisation* distributes the bytes of a list of sections over the payloads of packets:
`Packetised` follows the stream packet by packet, keeping the number of sections completed so far,
the bytes still to come of the section under way, and the sections still to begin. It also notes,
in each `Cell`, which sections the packet carries a part of.

`SectionAssembler.push` undoes a packetisation, also when packets are repeated or packets without
payload are thrown in, and when packets are lost it returns exactly the sections that lost nothing.

## The invariant

Between two packets the assembler either *waits* for a start, or *holds* the first part of the
section under way — and nothing when there is none. A lost packet leaves a stale part in the buffer,
but the next packet that arrives does not fit the counter, and the check throws the stale part away
before it is looked at. The counter only sees the number of lost packets modulo 16: a run of 16
goes unnoticed, and after a run of 15 the next packet looks like a duplicate.
-/

namespace Recdyud

/-! ## Legal packetisations -/

/-- A packet of a packetisation; `first ≤ j < past` are the numbers of the sections it carries a
part of. A packet whose payload is empty counts to the section it stands in the middle of. -/
structure Cell where
  packet : Packet
  first : ℕ
  past : ℕ

/-- The packet is one of those section number `j` is spread over. -/
def Cell.Carries (c : Cell) (j : ℕ) : Prop := c.first ≤ j ∧ j < c.past

instance (c : Cell) (j : ℕ) : Decidable (c.Carries j) :=
  inferInstanceAs (Decidable (c.first ≤ j ∧ j < c.past))

/-- Number of the next section to begin, when `n` are complete and `rest` is still to come of the
one under way. -/
def nextNumber (n : ℕ) (rest : Bytes) : ℕ := if rest = [] then n else n + 1

/-- `cells` carry the bytes `rest` of the section under way and then the sections `ss`, of which
the first `n` of the stream are complete already. -/
inductive Packetised : ℕ → Bytes → List Bytes → List Cell → Prop
  | /-- Nothing is left. -/
    done {n : ℕ} : Packetised n [] [] []
  | /-- The adaptation field takes the whole packet. -/
    idle {n : ℕ} {rest : Bytes} {ss : List Bytes} {p : Packet} {cells : List Cell}
      (hpusi : p.pusi = false) (hpayload : p.payload = []) (hrec : Packetised n rest ss cells) :
      Packetised n rest ss (⟨p, n, nextNumber n rest⟩ :: cells)
  | /-- No section begins: the payload is a part `a` of the section under way, and may be filled up
    with stuffing when that was the end of it. -/
    continuation {n : ℕ} {a r : Bytes} {k : ℕ} {ss : List Bytes} {p : Packet} {cells : List Cell}
      (hpusi : p.pusi = false) (hpayload : p.payload = a ++ List.replicate k 0xFF) (ha : a ≠ [])
      (hstuff : k = 0 ∨ r = [])
      (hrec : Packetised (if r = [] then n + 1 else n) r ss cells) :
      Packetised n (a ++ r) ss (⟨p, n, n + 1⟩ :: cells)
  | /-- A section begins: the pointer field counts the bytes `a` that finish the section under way;
    then come whole sections and a first part `b` of one more, or all of it and stuffing. -/
    start {n : ℕ} {a b r : Bytes} {whole : List Bytes} {k : ℕ} {ss : List Bytes} {p : Packet}
      {cells : List Cell} (hpusi : p.pusi = true)
      (hpayload : p.payload = UInt8.ofNat a.length
        :: (a ++ (whole.flatten ++ (b ++ List.replicate k 0xFF))))
      (hb : b ≠ []) (hstuff : k = 0 ∨ r = [])
      (hrec : Packetised (nextNumber n a + whole.length + if r = [] then 1 else 0) r ss cells) :
      Packetised n a (whole ++ (b ++ r) :: ss)
        (⟨p, n, nextNumber n a + whole.length + 1⟩ :: cells)

/-- A legal packetisation of the sections `ss` on one PID. -/
structure LegalPacketisation (ss : List Bytes) (cells : List Cell) : Prop where
  carries : Packetised 0 [] ss cells
  header : ∀ c ∈ cells, c.packet.tei = false ∧ c.packet.hasPayload = true
  counter : (cells.map fun c ↦ c.packet.cc).IsChain CcStep

/-! ## What arrives -/

/-- What becomes of a packet on the way. -/
inductive Fate where
  | delivered
  | missing
  | errored (copy : Packet) (tei : copy.tei = true)

/-- The packet arrives as it was sent. -/
def Fate.Delivered : Fate → Prop
  | .delivered => True
  | .missing => False
  | .errored _ _ => False

instance (f : Fate) : Decidable f.Delivered :=
  match f with
  | .delivered => .isTrue trivial
  | .missing => .isFalse id
  | .errored _ _ => .isFalse id

/-- The packets that reach the assembler. -/
def received (l : List (Cell × Fate)) : List Packet :=
  l.filterMap fun x ↦ match x.2 with
    | .delivered => some x.1.packet
    | .missing => none
    | .errored copy _ => some copy

/-- Every packet that carries a part of section `j` is delivered. -/
def Intact (l : List (Cell × Fate)) (j : ℕ) : Prop := ∀ x ∈ l, x.1.Carries j → x.2.Delivered

instance (l : List (Cell × Fate)) (j : ℕ) : Decidable (Intact l j) :=
  inferInstanceAs (Decidable (∀ x ∈ l, x.1.Carries j → x.2.Delivered))

/-- Those of the sections `ss`, numbered from `n` on, that lost nothing. -/
def survivors (l : List (Cell × Fate)) (n : ℕ) (ss : List Bytes) : List Bytes :=
  ((ss.zipIdx n).filter fun x ↦ decide (Intact l x.2)).map Prod.fst

/-- Between two delivered packets, the number of lost ones shows in the continuity counter. -/
def LossesShow (l : List (Cell × Fate)) : Prop :=
  ∀ pre a lost b post, l = pre ++ a :: (lost ++ b :: post) → a.2.Delivered → b.2.Delivered →
    (∀ x ∈ lost, ¬x.2.Delivered) → lost ≠ [] → lost.length % 16 ≠ 0 ∧ lost.length % 16 ≠ 15

/-! ### Numbering -/

theorem intact_cons {c : Cell} {f : Fate} {l : List (Cell × Fate)} {j : ℕ} :
    Intact ((c, f) :: l) j ↔ (c.Carries j → f.Delivered) ∧ Intact l j := by
  simp [Intact]

theorem survivors_cons (l : List (Cell × Fate)) (n : ℕ) (s : Bytes) (ss : List Bytes) :
    survivors l n (s :: ss) = (if Intact l n then [s] else []) ++ survivors l (n + 1) ss := by
  by_cases h : Intact l n <;> simp [survivors, List.zipIdx_cons, h]

theorem survivors_append (l : List (Cell × Fate)) (n : ℕ) (ss ts : List Bytes) :
    survivors l n (ss ++ ts) = survivors l n ss ++ survivors l (n + ss.length) ts := by
  simp [survivors, List.zipIdx_append]

theorem survivors_congr {l l' : List (Cell × Fate)} {n : ℕ} {ss : List Bytes}
    (h : ∀ j, n ≤ j → j < n + ss.length → (Intact l j ↔ Intact l' j)) :
    survivors l n ss = survivors l' n ss := by
  induction ss generalizing n with
  | nil => rfl
  | cons s ss ih =>
    rw [List.length_cons] at h
    rw [survivors_cons, survivors_cons, ih fun j h1 h2 ↦ h j (by omega) (by omega),
      if_congr (h n le_rfl (by omega)) rfl rfl]

theorem survivors_of_intact {l : List (Cell × Fate)} {n : ℕ} {ss : List Bytes}
    (h : ∀ j, n ≤ j → j < n + ss.length → Intact l j) : survivors l n ss = ss := by
  induction ss generalizing n with
  | nil => rfl
  | cons s ss ih =>
    rw [List.length_cons] at h
    rw [survivors_cons, ih fun j h1 h2 ↦ h j (by omega) (by omega), if_pos (h n le_rfl (by omega))]
    rfl

theorem survivors_of_not_intact {l : List (Cell × Fate)} {n : ℕ} {ss : List Bytes}
    (h : ∀ j, n ≤ j → j < n + ss.length → ¬Intact l j) : survivors l n ss = [] := by
  induction ss generalizing n with
  | nil => rfl
  | cons s ss ih =>
    rw [List.length_cons] at h
    rw [survivors_cons, ih fun j h1 h2 ↦ h j (by omega) (by omega), if_neg (h n le_rfl (by omega))]
    rfl

theorem survivors_sublist (l : List (Cell × Fate)) (n : ℕ) (ss : List Bytes) :
    (survivors l n ss).Sublist ss := by
  have h : (survivors l n ss).Sublist ((ss.zipIdx n).map Prod.fst) := List.filter_sublist.map _
  rwa [List.zipIdx_map_fst] at h

theorem LossesShow.tail {x : Cell × Fate} {l : List (Cell × Fate)} (h : LossesShow (x :: l)) :
    LossesShow l := by
  intro pre a lost b post hl
  refine h (x :: pre) a lost b post ?_
  rw [hl, List.cons_append]

theorem Fate.eq_delivered {f : Fate} (h : f.Delivered) : f = .delivered := by
  cases f with
  | delivered => rfl
  | missing => exact absurd h id
  | errored _ _ => exact absurd h id

/-- Sections numbered beyond a packet do not depend on it. -/
theorem survivors_cons_of_past_le {l : List (Cell × Fate)} {x : Cell × Fate} {n : ℕ}
    (h : x.1.past ≤ n) (ss : List Bytes) : survivors (x :: l) n ss = survivors l n ss := by
  refine survivors_congr fun j hj _ ↦ ?_
  rw [show x = (x.1, x.2) from rfl, intact_cons, and_iff_right_iff_imp]
  exact fun _ hcarries ↦ absurd hcarries.2 (by omega)

/-- Sections do not depend on a packet that was delivered. -/
theorem intact_cons_delivered {c : Cell} {l : List (Cell × Fate)} {j : ℕ} :
    Intact ((c, .delivered) :: l) j ↔ Intact l j := by
  rw [intact_cons, and_iff_right_iff_imp]
  exact fun _ _ ↦ trivial

theorem survivors_cons_delivered {c : Cell} {l : List (Cell × Fate)} (n : ℕ) (ss : List Bytes) :
    survivors ((c, .delivered) :: l) n ss = survivors l n ss :=
  survivors_congr fun _ _ _ ↦ intact_cons_delivered

/-- What a lost packet carries is not intact. -/
theorem not_intact_cons {c : Cell} {l : List (Cell × Fate)} {f : Fate} {j : ℕ}
    (hf : ¬f.Delivered) (hj : c.Carries j) : ¬Intact ((c, f) :: l) j :=
  fun h ↦ hf ((intact_cons.mp h).1 hj)

@[simp] theorem nextNumber_nil (n : ℕ) : nextNumber n [] = n := if_pos rfl

theorem nextNumber_of_ne_nil {r : Bytes} (h : r ≠ []) (n : ℕ) : nextNumber n r = n + 1 := if_neg h

theorem le_nextNumber (n : ℕ) (rest : Bytes) : n ≤ nextNumber n rest := by
  rw [nextNumber]; split <;> omega

/-- What is complete is not carried any more. -/
theorem Packetised.first_ge {n : ℕ} {rest : Bytes} {ss : List Bytes} {cells : List Cell}
    (h : Packetised n rest ss cells) : ∀ c ∈ cells, n ≤ c.first := by
  induction h with
  | done => simp
  | idle _ _ _ ih => exact List.forall_mem_cons.mpr ⟨le_rfl, ih⟩
  | continuation _ _ _ _ _ ih =>
    refine List.forall_mem_cons.mpr ⟨le_rfl, fun c hc ↦ le_trans ?_ (ih c hc)⟩
    split <;> omega
  | @start n a _ _ _ _ _ _ _ _ _ _ _ _ ih =>
    refine List.forall_mem_cons.mpr ⟨le_rfl, fun c hc ↦ le_trans ?_ (ih c hc)⟩
    have := le_nextNumber n a
    omega

theorem Packetised.intact_of_lt {n : ℕ} {rest : Bytes} {ss : List Bytes} {l : List (Cell × Fate)}
    (h : Packetised n rest ss (l.map Prod.fst)) {j : ℕ} (hj : j < n) : Intact l j := by
  intro x hx hcarries
  have := h.first_ge x.1 (List.mem_map_of_mem hx)
  exact absurd hcarries.1 (by omega)

/-! ## The assembler along a packetisation -/

namespace SectionAssembler

/-- The assembler waits for a section to begin. -/
def Waits (st : SectionAssembler) : Prop := st.active = false ∧ st.buf = []

/-- The buffer is the part `u` of the section under way, of which `rest` is still to come. -/
def Holds (st : SectionAssembler) (u rest : Bytes) : Prop :=
  (rest = [] → st.buf = []) ∧
    (rest ≠ [] → st.active = true ∧ st.buf = u ∧ ValidSection (u ++ rest))

/-- The state between two packets; `ok` says whether the section under way is intact so far. -/
def InStep (st : SectionAssembler) (ok : Bool) (u rest : Bytes) : Prop :=
  if ok then st.Holds u rest else st.Waits

/-- Draining whole sections, a first part `x` of one more, and stuffing behind its end. -/
theorem drain_payload (st : SectionAssembler) (whole : List Bytes) {x r : Bytes} (k : ℕ)
    (hwhole : ∀ s ∈ whole, ValidSection s) (hx : ValidSection (x ++ r))
    (hstuff : k = 0 ∨ r = []) (hactive : st.active = true)
    (hbuf : st.buf = whole.flatten ++ (x ++ List.replicate k 0xFF)) :
    ∃ st', st.drain = .ok (st', whole ++ if r = [] then [x] else []) ∧ st'.cc = st.cc ∧
      st'.Holds x r := by
  by_cases hr : r = []
  · subst hr
    rw [List.append_nil] at hx
    have hall : ∀ s ∈ whole ++ [x], ValidSection s := by
      intro s hs
      rcases List.mem_append.mp hs with hs | hs
      · exact hwhole s hs
      · rwa [List.mem_singleton.mp hs]
    have hflat : st.buf = (whole ++ [x]).flatten ++ List.replicate k 0xFF := by
      rw [hbuf, List.flatten_concat, List.append_assoc]
    rw [if_pos rfl]
    -- the assembler stays active without stuffing and waits with it; both hold nothing
    cases k with
    | zero => exact ⟨_, drain_open hall (v := []) (.inl rfl) hflat, rfl, fun _ ↦ rfl, by simp⟩
    | succ k => exact ⟨_, drain_stuffed hall hflat, rfl, fun _ ↦ rfl, by simp⟩
  · obtain rfl : k = 0 := hstuff.resolve_right hr
    rw [List.replicate_zero, List.append_nil] at hbuf
    rw [if_neg hr, List.append_nil]
    exact ⟨_, drain_open hwhole (.inr ⟨hx, hr⟩) hbuf, rfl, fun h ↦ absurd h hr,
      fun _ ↦ ⟨hactive, rfl, hx⟩⟩

/-- A packet in which no section begins. -/
theorem collect_continuation {st : SectionAssembler} {p : Packet} {ok : Bool} {u a r : Bytes}
    {k : ℕ} (hst : st.InStep ok u (a ++ r)) (hpusi : p.pusi = false)
    (hpayload : p.payload = a ++ List.replicate k 0xFF) (ha : a ≠ []) (hstuff : k = 0 ∨ r = []) :
    ∃ st', st.collect p.bytes (p.byte 1) p.afc
        = .ok (st', if ok ∧ r = [] then [u ++ a] else []) ∧
      st'.cc = st.cc ∧ st'.InStep ok (u ++ a) r := by
  have hne : p.payload ≠ [] := by rw [hpayload]; exact List.append_ne_nil_of_left_ne_nil ha _
  rw [collect_of_continuation hpusi hne]
  cases ok with
  | false =>
    rw [extend_of_inactive hst.1, if_neg (by simp)]
    exact ⟨st, rfl, rfl, hst⟩
  | true =>
    obtain ⟨hactive, hbuf, hvalid⟩ := hst.2 (List.append_ne_nil_of_left_ne_nil ha r)
    rw [← List.append_assoc] at hvalid
    obtain ⟨st', hdrain, hcc, hholds⟩ := drain_payload
      { st with buf := st.buf ++ p.payload } [] k (by simp) hvalid hstuff hactive
      (by simp [hbuf, hpayload])
    refine ⟨st', ?_, hcc, hholds⟩
    rw [extend_of_active hactive, hdrain]
    simp

/-- The bytes in front of the first start finish the section under way. -/
theorem extend_front {st : SectionAssembler} {ok : Bool} {u a : Bytes} (hst : st.InStep ok u a) :
    ∃ st', st.extend a = .ok (st', if ok ∧ a ≠ [] then [u ++ a] else []) ∧ st'.cc = st.cc := by
  cases ok with
  | false =>
    rw [extend_of_inactive hst.1, if_neg (by simp)]
    exact ⟨st, rfl, rfl⟩
  | true =>
    by_cases ha : a = []
    · subst ha
      have hbuf : st.buf = [] := hst.1 rfl
      refine ⟨st, ?_, rfl⟩
      rw [if_neg (by simp), extend]
      split
      · rw [@drain_open _ [] [] [] (by simp) (.inl rfl) (by simp [hbuf]), ← hbuf]
      · rfl
    · obtain ⟨hactive, hbuf, hvalid⟩ := hst.2 ha
      rw [← List.append_nil (u ++ a)] at hvalid
      obtain ⟨st', hdrain, hcc, -⟩ := drain_payload { st with buf := st.buf ++ a } [] 0
        (by simp) hvalid (.inl rfl) hactive (by simp [hbuf])
      refine ⟨st', ?_, hcc⟩
      rw [extend_of_active hactive, hdrain]
      simp [ha]

/-- A packet in which a section begins: the one under way is finished first. -/
theorem collect_start {st : SectionAssembler} {p : Packet} {ok : Bool} {u a b r : Bytes}
    {whole : List Bytes} {k : ℕ} (hst : st.InStep ok u a) (hpusi : p.pusi = true)
    (hpayload : p.payload = UInt8.ofNat a.length
      :: (a ++ (whole.flatten ++ (b ++ List.replicate k 0xFF))))
    (hstuff : k = 0 ∨ r = []) (hwhole : ∀ s ∈ whole, ValidSection s)
    (hbr : ValidSection (b ++ r)) :
    ∃ st', st.collect p.bytes (p.byte 1) p.afc
        = .ok (st', (if ok ∧ a ≠ [] then [u ++ a] else []) ++
            (whole ++ if r = [] then [b] else [])) ∧
      st'.cc = st.cc ∧ st'.InStep true b r := by
  have hptr : (UInt8.ofNat a.length).toNat = a.length := by
    have hlen := congrArg List.length hpayload
    rw [Packet.payload, List.length_drop, p.length_eq, List.length_cons, List.length_append] at hlen
    simp only [packetSize] at hlen
    rw [UInt8.toNat_ofNat']
    omega
  obtain ⟨st₁, hext, hcc₁⟩ := extend_front hst
  obtain ⟨st', hdrain, hcc, hholds⟩ := drain_payload
    { st₁ with buf := whole.flatten ++ (b ++ List.replicate k 0xFF), active := true } whole k
    hwhole hbr hstuff rfl rfl
  refine ⟨st', ?_, hcc.trans hcc₁, hholds⟩
  rw [collect_of_start hpusi hpayload, hptr, List.take_left, List.drop_left, hext]
  simp only [bind, Except.bind, hdrain]
  rfl

/-! ### Losses -/

/-- What is known of the assembler when `l` is still to come and the last `g` packets sent are
lost. Until something has arrived (`cc = none`) the number `g` means nothing. -/
structure Before (st : SectionAssembler) (ok : Bool) (u rest : Bytes) (g : ℕ)
    (l : List (Cell × Fate)) : Prop where
  /-- The counter of the last packet sent, delivered or not. -/
  counter : ∀ c, st.cc = some c → ((c + g) % 16 :: l.map fun x ↦ x.1.packet.cc).IsChain CcStep
  /-- The loss under way will show. -/
  gap : ∀ c, st.cc = some c → ∀ lost b post, l = lost ++ b :: post →
    (∀ x ∈ lost, ¬x.2.Delivered) → b.2.Delivered → g + lost.length ≠ 0 →
      (g + lost.length) % 16 ≠ 0 ∧ (g + lost.length) % 16 ≠ 15
  inStep : st.cc ≠ none → g = 0 → st.InStep ok u rest
  /-- A loss hits the section under way. -/
  stale : st.cc = none ∨ g ≠ 0 → rest ≠ [] → ok = false
  fresh : st.cc = none → st.Waits

variable {st : SectionAssembler} {ok : Bool} {u rest : Bytes} {g : ℕ} {c : Cell}
  {l : List (Cell × Fate)}

@[simp] theorem resync_cc (st : SectionAssembler) (n : ℕ) : (st.resync n).cc = some n := by
  rw [resync]
  split
  · rfl
  · split <;> rfl

/-- The packet that arrives is no duplicate, and the check leaves the assembler in step: it throws
the stale part away exactly when something was lost. -/
theorem Before.resync (h : Before st ok u rest g ((c, .delivered) :: l)) :
    st.cc ≠ some c.packet.cc ∧ ∃ ok', (rest ≠ [] → ok' = ok) ∧
      (st.resync c.packet.cc).InStep ok' u rest := by
  cases hcc : st.cc with
  | none =>
    refine ⟨by simp, false, fun hr ↦ (h.stale (.inl hcc) hr).symm, ?_⟩
    rw [SectionAssembler.resync, hcc]
    exact h.fresh hcc
  | some n =>
    have hstep : CcStep ((n + g) % 16) c.packet.cc :=
      (List.isChain_cons_cons.mp (h.counter n hcc)).1
    rw [CcStep] at hstep
    have hshow := h.gap n hcc [] (c, .delivered) l rfl (by simp) trivial
    rw [List.length_nil, Nat.add_zero] at hshow
    have hmask : (n + 1) &&& 0x0F = (n + 1) % 16 := Nat.and_two_pow_sub_one_eq_mod _ 4
    rcases Nat.eq_zero_or_pos g with rfl | hg
    · -- nothing was lost: the counter is the next one
      refine ⟨fun heq ↦ by have := Option.some.inj heq; omega, ok, fun _ ↦ rfl, ?_⟩
      rw [SectionAssembler.resync, hcc]
      dsimp only
      rw [hmask, if_neg (by omega)]
      exact h.inStep (by simp [hcc]) rfl
    · -- a loss of neither 0 nor 15 packets, modulo 16: no duplicate and not the next one
      have hlost := hshow (by omega)
      refine ⟨fun heq ↦ by have := Option.some.inj heq; omega, false,
        fun hr ↦ (h.stale (.inr (by omega)) hr).symm, ?_⟩
      rw [SectionAssembler.resync, hcc]
      dsimp only
      rw [hmask, if_pos (by omega)]
      exact ⟨rfl, rfl⟩

/-- After a packet that arrived, nothing is missing so far. -/
theorem Before.delivered {st' : SectionAssembler} {ok' : Bool} {u' r' : Bytes}
    (hchain : (c.packet.cc :: l.map fun x ↦ x.1.packet.cc).IsChain CcStep)
    (hshow : LossesShow ((c, .delivered) :: l)) (hcc : st'.cc = some c.packet.cc)
    (hst : st'.InStep ok' u' r') : Before st' ok' u' r' 0 l where
  counter := by
    intro n hn
    obtain rfl : c.packet.cc = n := Option.some.inj (hcc.symm.trans hn)
    rwa [Nat.add_zero, Nat.mod_eq_of_lt c.packet.cc_lt]
  gap := by
    intro n _ lost b post hl hlost hb hne
    rw [Nat.zero_add] at hne ⊢
    exact hshow [] (c, .delivered) lost b post (by rw [hl]; rfl) trivial hb hlost
      (List.ne_nil_of_length_pos (by omega))
  inStep := fun _ _ ↦ hst
  stale := by rintro (h | h) <;> simp_all
  fresh := by simp [hcc]

/-- After a packet that was lost, the section it carries a part of is not intact. -/
theorem Before.lost {f : Fate} {u' r' : Bytes} (h : Before st ok u rest g ((c, f) :: l))
    (hf : ¬f.Delivered) : Before st false u' r' (g + 1) l where
  counter := by
    intro n hn
    have hchain := h.counter n hn
    rw [List.map_cons, List.isChain_cons_cons, CcStep] at hchain
    have hmod : (n + (g + 1)) % 16 = c.packet.cc := by rw [hchain.1]; omega
    rw [hmod]
    exact hchain.2
  gap := by
    intro n hn lost b post hl hlost hb _
    have := h.gap n hn ((c, f) :: lost) b post (by rw [hl]; rfl)
      (List.forall_mem_cons.mpr ⟨hf, hlost⟩) hb
    rw [List.length_cons] at this
    rw [Nat.add_right_comm]
    exact this (by omega)
  inStep := fun _ hg ↦ absurd hg (Nat.succ_ne_zero g)
  stale := fun _ _ ↦ rfl
  fresh := h.fresh

/-! ### The run -/

/-- A packet that is lost changes nothing. -/
theorem feedAll_push_of_lost {f : Fate} (hf : ¬f.Delivered) (st : SectionAssembler) :
    feedAll push st ((received ((c, f) :: l)).map Packet.bytes)
      = feedAll push st ((received l).map Packet.bytes) := by
  cases f with
  | delivered => exact absurd trivial hf
  | missing => rfl
  | errored copy tei =>
    change feedAll push st (copy.bytes :: (received l).map Packet.bytes) = _
    rw [feedAll, push_of_tei tei]
    simp only [bind, Except.bind]
    cases feedAll push st ((received l).map Packet.bytes) <;> rfl

/-- A packet that arrives and is not a duplicate. -/
theorem feedAll_push_of_delivered {st' final : SectionAssembler} {out outs : List Bytes}
    (hheader : c.packet.tei = false ∧ c.packet.hasPayload = true)
    (hcc : st.cc ≠ some c.packet.cc)
    (hcollect : (st.resync c.packet.cc).collect c.packet.bytes (c.packet.byte 1) c.packet.afc
      = .ok (st', out))
    (hrest : feedAll push st' ((received l).map Packet.bytes) = .ok (final, outs)) :
    feedAll push st ((received ((c, .delivered) :: l)).map Packet.bytes)
      = .ok (final, out ++ outs) :=
  feedAll_cons_ok ((push_of_payload hheader.1 hheader.2 hcc).trans hcollect) hrest

/-! ### What is due -/

/-- What is still to be returned when `n` sections are complete and `l` is to come: the section
under way, its part `u` being held and `rest` still missing, and those of `ss` that are intact. -/
def due (l : List (Cell × Fate)) (ok : Bool) (u rest : Bytes) (n : ℕ) (ss : List Bytes) :
    List Bytes :=
  (if rest ≠ [] ∧ ok ∧ Intact l n then [u ++ rest] else []) ++ survivors l (nextNumber n rest) ss

section Due

variable {a b r : Bytes} {n : ℕ} {whole ss : List Bytes} {p : Packet} {f : Fate}

theorem due_nil : due l ok u [] n ss = survivors l n ss := by
  rw [due, if_neg fun h ↦ h.1 rfl, List.nil_append, nextNumber_nil]

theorem due_of_ne_nil (h : rest ≠ []) : due l ok u rest n ss
    = (if ok ∧ Intact l n then [u ++ rest] else []) ++ survivors l (n + 1) ss := by
  rw [due, nextNumber_of_ne_nil h]
  exact congrArg (· ++ _) (if_congr (and_iff_right h) rfl rfl)

theorem due_cons_delivered :
    due ((c, .delivered) :: l) ok u rest n ss = due l ok u rest n ss := by
  rw [due, survivors_cons_delivered]
  simp only [intact_cons_delivered]
  rfl

/-- Only of a section under way it matters whether it is intact so far. -/
theorem due_congr {ok' : Bool} (h : rest ≠ [] → ok' = ok) :
    due l ok' u rest n ss = due l ok u rest n ss := by
  by_cases hr : rest = []
  · rw [hr, due_nil, due_nil]
  · rw [h hr]

theorem due_continuation (ha : a ≠ []) (hn : r = [] → Intact l n) :
    due l ok u (a ++ r) n ss = (if ok ∧ r = [] then [u ++ a] else [])
      ++ due l ok (u ++ a) r (if r = [] then n + 1 else n) ss := by
  rw [due_of_ne_nil (List.append_ne_nil_of_left_ne_nil ha r)]
  by_cases hr : r = []
  · rw [if_pos hr, hr, due_nil]
    simp [hn hr]
  · rw [if_neg hr, due_of_ne_nil hr]
    simp [hr]

theorem due_start (hbefore : ∀ j < nextNumber n rest + whole.length, Intact l j)
    (hlast : r = [] → Intact l (nextNumber n rest + whole.length)) :
    due l ok u rest n (whole ++ (b ++ r) :: ss)
      = (if ok ∧ rest ≠ [] then [u ++ rest] else []) ++ (whole ++ if r = [] then [b] else [])
        ++ due l true b r (nextNumber n rest + whole.length + if r = [] then 1 else 0) ss := by
  have hunder : rest ≠ [] → Intact l n := by
    intro hr
    refine hbefore n ?_
    rw [nextNumber_of_ne_nil hr]
    omega
  have hfirst : (if rest ≠ [] ∧ ok ∧ Intact l n then [u ++ rest] else [])
      = if ok ∧ rest ≠ [] then [u ++ rest] else [] :=
    if_congr ⟨fun h ↦ ⟨h.2.1, h.1⟩, fun h ↦ ⟨h.2, h.1, hunder h.2⟩⟩ rfl rfl
  rw [due, hfirst, survivors_append, survivors_cons, survivors_of_intact fun j _ hj ↦ hbefore j hj]
  by_cases hr : r = []
  · rw [if_pos hr, if_pos hr, hr, due_nil]
    simp [hlast hr]
  · rw [if_neg hr, if_neg hr, due_of_ne_nil hr]
    simp

/-- A lost packet in which no section begins or ends. -/
theorem due_lost_idle (hf : ¬f.Delivered) :
    due ((⟨p, n, nextNumber n rest⟩, f) :: l) ok u rest n ss = due l false [] rest n ss := by
  by_cases hr : rest = []
  · rw [hr, due_nil, due_nil, survivors_cons_of_past_le (nextNumber_nil n).le]
  · have hunder : ¬Intact ((⟨p, n, n + 1⟩, f) :: l) n :=
      not_intact_cons hf ⟨le_rfl, Nat.lt_succ_self n⟩
    rw [nextNumber_of_ne_nil hr, due_of_ne_nil hr, due_of_ne_nil hr, if_neg fun h ↦ hunder h.2,
      if_neg fun h ↦ Bool.false_ne_true h.1, survivors_cons_of_past_le le_rfl]

/-- A lost packet with a part of the section under way. -/
theorem due_lost_continuation (hf : ¬f.Delivered) (ha : a ≠ []) :
    due ((⟨p, n, n + 1⟩, f) :: l) ok u (a ++ r) n ss
      = due l false [] r (if r = [] then n + 1 else n) ss := by
  have hunder : ¬Intact ((⟨p, n, n + 1⟩, f) :: l) n :=
    not_intact_cons hf ⟨le_rfl, Nat.lt_succ_self n⟩
  rw [due_of_ne_nil (List.append_ne_nil_of_left_ne_nil ha r), if_neg fun h ↦ hunder h.2,
    survivors_cons_of_past_le le_rfl, List.nil_append]
  by_cases hr : r = []
  · rw [if_pos hr, hr, due_nil]
  · rw [if_neg hr, due_of_ne_nil hr, if_neg fun h ↦ Bool.false_ne_true h.1, List.nil_append]

/-- A lost packet in which a section begins: nothing of what it carries is left. -/
theorem due_lost_start (hf : ¬f.Delivered) :
    due ((⟨p, n, nextNumber n rest + whole.length + 1⟩, f) :: l) ok u rest n
        (whole ++ (b ++ r) :: ss)
      = due l false [] r (nextNumber n rest + whole.length + if r = [] then 1 else 0) ss := by
  have hle := le_nextNumber n rest
  have hgone : ∀ j, n ≤ j → j ≤ nextNumber n rest + whole.length →
      ¬Intact ((⟨p, n, nextNumber n rest + whole.length + 1⟩, f) :: l) j :=
    fun j hn hj ↦ not_intact_cons hf ⟨hn, Nat.lt_succ_of_le hj⟩
  rw [due, if_neg fun h ↦ hgone n le_rfl (by omega) h.2.2, survivors_append, survivors_cons,
    survivors_of_not_intact fun j hn hj ↦ hgone j (by omega) (by omega),
    if_neg (hgone _ (by omega) le_rfl), survivors_cons_of_past_le le_rfl]
  by_cases hr : r = []
  · rw [if_pos hr, hr, due_nil]
    rfl
  · rw [if_neg hr, due_of_ne_nil hr, if_neg fun h ↦ Bool.false_ne_true h.1]
    rfl

end Due

/-- **Reassembly, with losses.** From any point of a legal packetisation on, the assembler returns
what is due. -/
theorem feedAll_push_received (l : List (Cell × Fate)) :
    ∀ {n : ℕ} {rest : Bytes} {ss : List Bytes} {st : SectionAssembler} {ok : Bool} {u : Bytes}
      {g : ℕ}, Packetised n rest ss (l.map Prod.fst) →
      (∀ x ∈ l, x.1.packet.tei = false ∧ x.1.packet.hasPayload = true) →
      (l.map fun x ↦ x.1.packet.cc).IsChain CcStep → (∀ s ∈ ss, ValidSection s) →
      LossesShow l → Before st ok u rest g l →
      ∃ final, feedAll push st ((received l).map Packet.bytes)
        = .ok (final, due l ok u rest n ss) := by
  induction l with
  | nil =>
    intro n rest ss st ok u g h _ _ _ _ _
    cases h
    exact ⟨st, rfl⟩
  | cons x l ih =>
    obtain ⟨c, f⟩ := x
    intro n rest ss st ok u g h hheader hchain hss hshow hbefore
    have hheader' := fun x hx ↦ hheader x (List.mem_cons_of_mem _ hx)
    have hchain' := hchain.tail
    have hshow' := hshow.tail
    rw [List.map_cons] at h hchain
    by_cases hf : f.Delivered
    · -- in each case the induction goes on from the section the packet leaves under way
      obtain rfl := Fate.eq_delivered hf
      obtain ⟨hcc, ok', hok, hst⟩ := hbefore.resync
      have hcc' := resync_cc st c.packet.cc
      rw [due_cons_delivered, ← due_congr hok]
      cases h with
      | @idle _ _ _ p _ hpusi hpayload hrec =>
        obtain ⟨final, hfinal⟩ := ih hrec hheader' hchain' hss hshow'
          (Before.delivered hchain hshow hcc' hst)
        have hrun := feedAll_push_of_delivered (hheader _ List.mem_cons_self) hcc
          (collect_of_idle hpayload) hfinal
        exact ⟨final, hrun⟩
      | @continuation _ a r k _ p _ hpusi hpayload ha hstuff hrec =>
        obtain ⟨st', hcollect, hcc'', hst'⟩ := collect_continuation hst hpusi hpayload ha hstuff
        obtain ⟨final, hfinal⟩ := ih hrec hheader' hchain' hss hshow'
          (Before.delivered hchain hshow (hcc''.trans hcc') hst')
        rw [due_continuation ha fun hr ↦ hrec.intact_of_lt (by simp [hr])]
        exact ⟨final, feedAll_push_of_delivered (hheader _ List.mem_cons_self) hcc hcollect hfinal⟩
      | @start _ _ b r whole k ss p _ hpusi hpayload hb hstuff hrec =>
        have hwhole : ∀ s ∈ whole, ValidSection s := fun s hs ↦ hss s (List.mem_append_left _ hs)
        have hbr : ValidSection (b ++ r) := hss _ (List.mem_append_right _ List.mem_cons_self)
        have hss' : ∀ s ∈ ss, ValidSection s := fun s hs ↦
          hss s (List.mem_append_right _ (List.mem_cons_of_mem _ hs))
        obtain ⟨st', hcollect, hcc'', hst'⟩ := collect_start hst hpusi hpayload hstuff hwhole hbr
        obtain ⟨final, hfinal⟩ := ih hrec hheader' hchain' hss' hshow'
          (Before.delivered hchain hshow (hcc''.trans hcc') hst')
        rw [due_start (fun j hj ↦ hrec.intact_of_lt (by omega))
          fun hr ↦ hrec.intact_of_lt (by simp [hr])]
        exact ⟨final, feedAll_push_of_delivered (hheader _ List.mem_cons_self) hcc hcollect hfinal⟩
    · -- every section the packet carries a part of is gone, and the others go by `ih`
      rw [feedAll_push_of_lost hf]
      cases h with
      | @idle _ _ _ p _ hpusi hpayload hrec =>
        rw [due_lost_idle hf]
        exact ih hrec hheader' hchain' hss hshow' (hbefore.lost hf)
      | @continuation _ a r k _ p _ hpusi hpayload ha hstuff hrec =>
        rw [due_lost_continuation hf ha]
        exact ih hrec hheader' hchain' hss hshow' (hbefore.lost hf)
      | @start _ _ b r whole k ss p _ hpusi hpayload hb hstuff hrec =>
        have hss' : ∀ s ∈ ss, ValidSection s := fun s hs ↦
          hss s (List.mem_append_right _ (List.mem_cons_of_mem _ hs))
        rw [due_lost_start hf]
        exact ih hrec hheader' hchain' hss' hshow' (hbefore.lost hf)

/-- Nothing is known to a fresh assembler. -/
theorem before_fresh {l : List (Cell × Fate)} : Before {} false [] [] 0 l where
  counter := by simp
  gap := by simp
  inStep := fun h ↦ absurd rfl h
  stale := fun _ _ ↦ rfl
  fresh := fun _ ↦ ⟨rfl, rfl⟩

theorem feedAll_push_fresh {ss : List Bytes} {l : List (Cell × Fate)}
    (hss : ∀ s ∈ ss, ValidSection s) (hlegal : LegalPacketisation ss (l.map Prod.fst))
    (hshow : LossesShow l) :
    ∃ final, feedAll push {} ((received l).map Packet.bytes)
      = .ok (final, survivors l 0 ss) := by
  have hheader : ∀ x ∈ l, x.1.packet.tei = false ∧ x.1.packet.hasPayload = true :=
    fun x hx ↦ hlegal.header x.1 (List.mem_map_of_mem hx)
  have hcounter : (l.map fun x ↦ x.1.packet.cc).IsChain CcStep := by
    have := hlegal.counter
    rwa [List.map_map] at this
  obtain ⟨final, hfinal⟩ :=
    feedAll_push_received l hlegal.carries hheader hcounter hss hshow before_fresh
  rw [due_nil] at hfinal
  exact ⟨final, hfinal⟩

/-- A packet that carries the PAT and stuffing. -/
def patPacket (cc : UInt8) : Packet where
  bytes := [0x47, 0x40, 0x00, 0x10 ||| cc, 0x00] ++ patSection ++ List.replicate 167 0xFF
  length_eq := by rw [List.length_append, List.length_replicate]; rfl

theorem packetised_pat {n : ℕ} {cc : UInt8} {ss : List Bytes} {cells : List Cell}
    (hpusi : (patPacket cc).pusi = true)
    (hpayload : (patPacket cc).payload = 0 :: (patSection ++ List.replicate 167 0xFF))
    (hrec : Packetised (n + 1) [] ss cells) :
    Packetised n [] (patSection :: ss) (⟨patPacket cc, n, n + 1⟩ :: cells) :=
  @Packetised.start n [] patSection [] [] 167 ss _ cells hpusi hpayload (by decide) (.inr rfl) hrec

/-- Three tables in three packets. -/
theorem legalPacketisation_pat : LegalPacketisation [patSection, patSection, patSection]
    [⟨patPacket 0, 0, 1⟩, ⟨patPacket 1, 1, 2⟩, ⟨patPacket 2, 2, 3⟩] where
  carries := packetised_pat (by decide +kernel) (by decide +kernel) (packetised_pat
    (by decide +kernel) (by decide +kernel) (packetised_pat (by decide +kernel)
      (by decide +kernel) .done))
  header := by decide +kernel
  counter := by
    simp only [List.map, List.isChain_cons_cons, List.IsChain.singleton, CcStep]
    decide +kernel

/-- **Packet loss never splices sections.** Over what arrives of a legal packetisation, a fresh
assembler returns exactly the sections of which every packet was delivered, each once and in their
order. -/
theorem push_received {ss : List Bytes} {l : List (Cell × Fate)}
    (hss : ∀ s ∈ ss, ValidSection s) (hlegal : LegalPacketisation ss (l.map Prod.fst))
    (hshow : LossesShow l) :
    (∃ final, feedAll push {} ((received l).map Packet.bytes) = .ok (final, survivors l 0 ss)) ∧
      (survivors l 0 ss).Sublist ss :=
  ⟨feedAll_push_fresh hss hlegal hshow, survivors_sublist l 0 ss⟩

/-- Of three tables the second is lost. -/
theorem push_received_pat : (∃ final, feedAll push {}
      ([patPacket 0, patPacket 2].map Packet.bytes) = .ok (final, [patSection, patSection])) ∧
    [patSection, patSection].Sublist [patSection, patSection, patSection] := by
  have hss : ∀ s ∈ [patSection, patSection, patSection], ValidSection s := by
    simp [patSection_valid]
  have hshow : LossesShow [(⟨patPacket 0, 0, 1⟩, .delivered), (⟨patPacket 1, 1, 2⟩, .missing),
      (⟨patPacket 2, 2, 3⟩, .delivered)] := by
    intro pre a lost b post hl _ _ _ hne
    have hlen := congrArg List.length hl
    have hpos := List.length_pos_iff.mpr hne
    simp only [List.length_append, List.length_cons, List.length_nil] at hlen
    omega
  refine push_received hss ?_ hshow
  exact legalPacketisation_pat

end SectionAssembler

/-! ## Duplicates and packets without payload -/

/-- `sent` is `packets` with packets thrown in that carry nothing new: copies of the packet `last`
that was sent last — the counter is what makes a copy, its PCR may be a fresh one — and packets
without payload. -/
inductive Padded : Option Packet → List Packet → List Packet → Prop
  | nil {last : Option Packet} : Padded last [] []
  | packet {last : Option Packet} {p : Packet} {packets sent : List Packet}
      (hrec : Padded (some p) packets sent) : Padded last (p :: packets) (p :: sent)
  | duplicate {p q : Packet} {packets sent : List Packet} (hcc : q.cc = p.cc)
      (hrec : Padded (some p) packets sent) : Padded (some p) packets (q :: sent)
  | empty {last : Option Packet} {q : Packet} {packets sent : List Packet}
      (hpayload : q.hasPayload = false) (hrec : Padded last packets sent) :
      Padded last packets (q :: sent)

namespace SectionAssembler

theorem drain_cc {st st' : SectionAssembler} {out : List Bytes}
    (h : st.drain = .ok (st', out)) : st'.cc = st.cc := by
  rw [drain] at h
  cases hloop : drainLoop st.buf [] with
  | error e => rw [hloop] at h; cases h
  | ok x =>
    rw [hloop] at h
    simp only [bind, Except.bind] at h
    split at h <;> cases h <;> rfl

theorem extend_cc {st st' : SectionAssembler} {data : Bytes} {out : List Bytes}
    (h : st.extend data = .ok (st', out)) : st'.cc = st.cc := by
  rw [extend] at h
  split at h
  · exact (drain_cc h :)
  · cases h
    rfl

theorem collect_cc {st st' : SectionAssembler} {p : Packet} {out : List Bytes}
    (h : st.collect p.bytes (p.byte 1) p.afc = .ok (st', out)) : st'.cc = st.cc := by
  cases hpayload : p.payload with
  | nil =>
    rw [collect_of_idle hpayload] at h
    cases h
    rfl
  | cons pointer body =>
    cases hpusi : p.pusi with
    | false =>
      rw [collect_of_continuation hpusi (by simp [hpayload])] at h
      exact extend_cc h
    | true =>
      rw [collect_of_start hpusi hpayload] at h
      cases hext : st.extend (body.take pointer.toNat) with
      | error e => rw [hext] at h; cases h
      | ok x =>
        rw [hext] at h
        simp only [bind, Except.bind] at h
        split at h
        · cases h
        · rename_i y hdrain
          cases h
          exact (drain_cc hdrain :).trans (extend_cc hext :)

/-- After a packet with payload the assembler knows its counter. -/
theorem push_cc {st st' : SectionAssembler} {p : Packet} {out : List Bytes} (htei : p.tei = false)
    (hpayload : p.hasPayload = true) (h : st.push p.bytes = .ok (st', out)) :
    st'.cc = some p.cc := by
  by_cases hdup : st.cc = some p.cc
  · rw [push_of_duplicate hdup] at h
    cases h
    exact hdup
  · rw [push_of_payload htei hpayload hdup] at h
    exact (collect_cc h).trans (resync_cc st p.cc)

/-- A packet the assembler passes over. -/
theorem feedAll_push_of_ignored {st : SectionAssembler} {q : Packet}
    (h : st.push q.bytes = .ok (st, [])) (sent : List Bytes) :
    feedAll push st (q.bytes :: sent) = feedAll push st sent := by
  rw [feedAll, h]
  simp only [bind, Except.bind]
  cases feedAll push st sent <;> rfl

/-- Padding goes unnoticed. -/
theorem feedAll_push_padded {last : Option Packet} {packets sent : List Packet}
    (h : Padded last packets sent) :
    ∀ {st : SectionAssembler}, (∀ p ∈ packets, p.tei = false ∧ p.hasPayload = true) →
      (∀ p, last = some p → st.cc = some p.cc) →
      feedAll push st (sent.map Packet.bytes) = feedAll push st (packets.map Packet.bytes) := by
  induction h with
  | nil => intros; rfl
  | @packet _ p packets sent _ ih =>
    intro st hheader _
    obtain ⟨htei, hpayload⟩ := hheader p List.mem_cons_self
    rw [List.map_cons, List.map_cons, feedAll, feedAll]
    cases hpush : st.push p.bytes with
    | error e => rfl
    | ok x =>
      simp only [bind, Except.bind]
      rw [ih (fun q hq ↦ hheader q (List.mem_cons_of_mem _ hq)) fun q hq ↦ by
        rw [← Option.some.inj hq]; exact push_cc htei hpayload hpush]
  | duplicate hcc _ ih =>
    intro st hheader hlast
    have hlast' := (hlast _ rfl).trans (congrArg some hcc.symm)
    rw [List.map_cons, feedAll_push_of_ignored (push_of_duplicate hlast')]
    exact ih hheader hlast
  | empty hpayload _ ih =>
    intro st hheader hlast
    rw [List.map_cons, feedAll_push_of_ignored (push_of_noPayload hpayload)]
    exact ih hheader hlast

/-- With nothing lost, every section comes out. -/
theorem feedAll_push_legal {ss : List Bytes} {cells : List Cell} (hss : ∀ s ∈ ss, ValidSection s)
    (hlegal : LegalPacketisation ss cells) :
    ∃ final, feedAll push {} ((cells.map Cell.packet).map Packet.bytes) = .ok (final, ss) := by
  have hall : ∀ x ∈ cells.map fun c ↦ (c, Fate.delivered), x.2.Delivered := by
    intro x hx
    obtain ⟨c, -, rfl⟩ := List.mem_map.mp hx
    exact trivial
  have hcells : (cells.map fun c ↦ (c, Fate.delivered)).map Prod.fst = cells := by
    rw [List.map_map]
    exact List.map_id cells
  have hreceived : received (cells.map fun c ↦ (c, Fate.delivered)) = cells.map Cell.packet := by
    rw [received, List.filterMap_map]
    exact congrFun List.filterMap_eq_map cells
  rw [← hcells] at hlegal
  have hshow : LossesShow (cells.map fun c ↦ (c, Fate.delivered)) := by
    intro pre a lost b post hl _ _ hlost hne
    obtain ⟨x, hx⟩ := List.exists_mem_of_ne_nil lost hne
    refine absurd (hall x ?_) (hlost x hx)
    rw [hl]
    simp [hx]
  obtain ⟨final, hfinal⟩ := feedAll_push_fresh hss hlegal hshow
  refine ⟨final, ?_⟩
  rw [← hreceived, hfinal, survivors_of_intact fun j _ _ x hx _ ↦ hall x hx]

/-- **Reassembly undoes packetisation**, whatever duplicates and packets without payload are thrown
in. -/
theorem push_packetised {ss : List Bytes} {cells : List Cell} {sent : List Packet}
    (hss : ∀ s ∈ ss, ValidSection s) (hlegal : LegalPacketisation ss cells)
    (hsent : Padded none (cells.map Cell.packet) sent) :
    ∃ final, feedAll push {} (sent.map Packet.bytes) = .ok (final, ss) := by
  have hheader : ∀ p ∈ cells.map Cell.packet, p.tei = false ∧ p.hasPayload = true := by
    intro p hp
    obtain ⟨c, hc, rfl⟩ := List.mem_map.mp hp
    exact hlegal.header c hc
  rw [feedAll_push_padded hsent hheader (by simp)]
  exact feedAll_push_legal hss hlegal

/-- Three tables, the second packet sent twice and a packet without payload before the last. -/
theorem push_packetised_pat : ∃ final, feedAll push {}
    ([patPacket 0, patPacket 1, patPacket 1, ⟨0x47 :: List.replicate 187 0, rfl⟩, patPacket 2].map
      Packet.bytes) = .ok (final, [patSection, patSection, patSection]) :=
  push_packetised (by simp [patSection_valid]) legalPacketisation_pat
    (.packet (.packet (.duplicate rfl (.empty (by decide) (.packet .nil)))))

end SectionAssembler

end Recdyud
