import Recdyud.Aribstr.Units

/-!
# Text that is cut

A string may break off within a unit: an escape sequence or a control code without its last bytes,
or the first byte of a character that has two. `Decoder.lastUnit` says which, and `LastUnit.Spec`
what this means for whatever follows.

A control code that is cut swallows the bytes it is short of, and its text says nothing of them. So
the text is settled as long as no more bytes follow than the last unit swallows
(`textSettled_iff`). The codec is asked only about a character that has lost its second byte.
-/

namespace Recdyud

namespace Aribstr

variable {eucJis2004 : Codec}

/-! ## The last unit -/

/-- An escape sequence without the byte that says what it designates. -/
def unfinishedEscape : Bytes → Bool
  | [b] => b = 0x1B
  | [b, c] => b = 0x1B ∧ (c = 0x24 ∨ (designated c).isSome)
  | [b, c, f] => b = 0x1B ∧ c = 0x24 ∧ (designated f).isSome
  | _ => false

/-- The last unit of a string. -/
inductive LastUnit where
  | whole
  /-- without its last `n` bytes -/
  | short (n : ℕ)
  /-- a character of the set `g`, without its second byte -/
  | halved (g : ℕ) (b1 : UInt8)

/-- The set that a printing byte is looked up in. -/
def Decoder.charSet (self : Decoder) (b : UInt8) : ℕ :=
  if b < 0x80 then self.g (self.single.getD self.gl) else self.g self.gr

/-- The last unit of what is left of a string. -/
def Decoder.lastUnit (eucJis2004 : Codec) (self : Decoder) (w : Bytes) :
    Except IndexError LastUnit :=
  match w with
  | [] => .ok .whole
  | b :: w => do
    if unfinishedEscape (b :: w) then
      return .short 1
    match ← self.body eucJis2004 (b :: w) 0 with
    | none => return .halved (self.charSet b) (b &&& 0x7F)
    | some (n, self) =>
      if w.length < n then
        return .short (n - w.length)
      else
        Decoder.lastUnit eucJis2004 self (w.drop n)
termination_by w.length
decreasing_by simp

/-! ## What follows a unit -/

section Append

variable {data w : Bytes} {i n : ℕ} {b c : UInt8} {self self' : Decoder}

theorem index_append_left (h : i < data.length) (s : Bytes) :
    index (data ++ s) i = index data i := by
  rw [index, index, List.getElem?_append_left h]

theorem designate_append (h : i < data.length) (s : Bytes) (idx : Fin 4) (drcsSet : ℕ) :
    self.designate (data ++ s) i idx drcsSet = self.designate data i idx drcsSet := by
  rw [Decoder.designate, Decoder.designate, if_pos h,
    if_pos (by rw [List.length_append]; omega), index_append_left h]

theorem escape_append (h : unfinishedEscape (0x1B :: c :: w) = false) (s : Bytes) :
    self.escape (w ++ s) 0 c = self.escape w 0 c := by
  by_cases htwo : c = 0x24
  · subst htwo
    rcases w with _ | ⟨f, w⟩
    · cases h
    rw [List.cons_append, escape_dollar, escape_dollar]
    rcases hf : designated f with _ | idx
    · rfl
    · rcases w with _ | ⟨g, w⟩
      · simp [unfinishedEscape, hf] at h
      · dsimp only
        rw [designate_append (by simp)]
  · rcases hc : designated c with _ | idx
    · -- the other escape sequences end here
      rw [Decoder.escape, Decoder.escape]
      simp only [if_neg htwo, hc]
    · rcases w with _ | ⟨f, w⟩
      · simp [unfinishedEscape, hc] at h
      · rw [escape_of_designated hc, escape_of_designated hc, designate_append (by simp)]

theorem put_append {gset : ℕ} {code : UInt8}
    (h : self.put eucJis2004 data i gset code = .ok (some (n, self'))) (s : Bytes) :
    self.put eucJis2004 (data ++ s) i gset code = .ok (some (n, self')) := by
  rw [Decoder.put] at h ⊢
  split at h
  · rw [if_pos ‹_›]
    split at h
    · cases h
    · rw [if_neg (by rw [List.length_append]; omega), index_append_left (by omega)]
      exact h
  · rwa [if_neg ‹_›]

theorem unit_append (h : self.unit eucJis2004 (b :: w) 0 b = .ok (some (n, self')))
    (hcsi : b = 0x9B → n ≤ w.length) (s : Bytes) :
    self.unit eucJis2004 (b :: w ++ s) 0 b = .ok (some (n, self')) := by
  rcases unit_cases eucJis2004 self b with ⟨next, hunit⟩ | ⟨k, hunit⟩ | ⟨rfl, hunit⟩ | hunit <;>
    rw [hunit] at h ⊢
  · exact h
  · exact h
  · obtain ⟨m, hm⟩ := neverRaises_csiParams (0x9B :: w) 1
    rw [hm] at h
    cases h
    have hlt : 1 + m < (0x9B :: w).length := by
      have := hcsi rfl
      rw [List.length_cons]
      omega
    rw [csiParams_of_take_eq hm hlt (List.take_append_of_le_length hlt)]
    rfl
  · rw [Decoder.print] at h ⊢
    exact ite_eq_of_imp (fun h ↦ put_append h s) (fun h ↦ put_append h s) h

/-- A unit does not look at what follows it, if it is not cut. -/
theorem body_append (h : self.body eucJis2004 (b :: w) 0 = .ok (some (n, self')))
    (hesc : unfinishedEscape (b :: w) = false) (hcsi : b = 0x9B → n ≤ w.length) (s : Bytes) :
    self.body eucJis2004 (b :: w ++ s) 0 = .ok (some (n, self')) := by
  by_cases hb : b = 0x1B
  · subst hb
    rcases w with _ | ⟨c, w⟩
    · cases hesc
    · rw [List.cons_append, List.cons_append, body_escape, escape_append hesc, ← h, body_escape]
  · rw [body_of_ne_esc hb] at h
    exact (body_of_ne_esc hb).trans (unit_append h hcsi s)

/-! ## Units that are cut -/

theorem out_designate {idx : Fin 4} {drcsSet : ℕ}
    (h : self.designate data i idx drcsSet = .ok (n, self')) : self'.out = self.out := by
  rw [Decoder.designate] at h
  split at h
  · rw [index_eq_ok ‹_›] at h
    simp only [bind, Except.bind] at h
    split at h <;> cases h <;> rfl
  · cases h
    rfl

/-- An escape sequence says nothing. -/
theorem out_escape (h : self.escape data i c = .ok (n, self')) : self'.out = self.out := by
  rw [Decoder.escape] at h
  iterate 5
    split at h
    · cases h
      rfl
  split at h
  · split at h
    · rw [index_eq_ok ‹_›] at h
      simp only [bind, Except.bind] at h
      split at h
      · rename_i idx _
        obtain ⟨⟨m, last⟩, hm⟩ := @neverRaises_designate data (i + 1) self idx drcsTwoByte
        rw [hm] at h
        cases h
        exact out_designate hm
      · cases h
        rfl
    · cases h
      rfl
  · split at h
    · exact out_designate h
    · cases h
      rfl

theorem put_fits {gset : ℕ} {code : UInt8}
    (h : self.put eucJis2004 (b :: w) 0 gset code = .ok (some (n, self'))) : n ≤ w.length := by
  rw [Decoder.put] at h
  split at h
  · split at h
    · cases h
    · rename_i hlt
      rw [index_eq_ok (by omega)] at h
      cases h
      rw [List.length_cons] at hlt
      omega
  · rcases hs : oneByte gset code with e | str <;> rw [hs] at h <;> cases h
    exact Nat.zero_le _

/-- A control code that is cut changes nothing. -/
theorem unit_cut (h : self.unit eucJis2004 (b :: w) 0 b = .ok (some (n, self')))
    (hcut : w.length < n) : self' = self := by
  rcases unit_cases eucJis2004 self b with ⟨next, hunit⟩ | ⟨k, hunit⟩ | ⟨-, hunit⟩ | hunit <;>
    rw [hunit] at h
  · cases h
    exact absurd hcut (Nat.not_lt_zero _)
  · cases h
    rfl
  · obtain ⟨m, hm⟩ := neverRaises_csiParams (b :: w) 1
    rw [hm] at h
    cases h
    rfl
  · rw [Decoder.print] at h
    split at h <;> exact absurd (put_fits h) (not_le.mpr hcut)

/-- Without a final byte, the parameters of a CSI sequence go on with what follows. -/
theorem csiParams_append_of_open (h : csiParams data i = .ok n) (hi : i ≤ data.length)
    (hopen : data.length ≤ i + n) {s : Bytes} {k : ℕ} (hs : csiParams s 0 = .ok k) :
    csiParams (data ++ s) i = .ok (n + k) := by
  induction n generalizing i with
  | zero =>
    obtain rfl : i = data.length := by omega
    have hright := csiParams_append_right data s 0
    rwa [Nat.add_zero, hs, ← Nat.zero_add k] at hright
  | succ n ih =>
    rcases csiParams_cases h with ⟨-, hn⟩ | ⟨_, _, _, hn⟩ | ⟨b, m, hb, hparam, hm, hn⟩
    · cases hn
    · cases hn
    · cases hn
      obtain ⟨hlt, -⟩ := List.getElem?_eq_some_iff.mp hb
      rw [csiParams_of_param ((List.getElem?_append_left hlt).trans hb) hparam,
        ih hm hlt (by omega), Nat.add_right_comm]
      rfl

theorem csiParams_le (h : csiParams data i = .ok n) (hi : i ≤ data.length) :
    i + n ≤ data.length := by
  induction n generalizing i with
  | zero => exact hi
  | succ n ih =>
    rcases csiParams_cases h with ⟨-, hn⟩ | ⟨_, _, _, hn⟩ | ⟨b, m, hb, -, hm, hn⟩
    · cases hn
    · cases hn
    · cases hn
      obtain ⟨hlt, -⟩ := List.getElem?_eq_some_iff.mp hb
      have := ih hm hlt
      omega

/-- The unit at the front of `w` swallows up to `m` bytes that follow, and then it ends. -/
structure Swallows (eucJis2004 : Codec) (before : Decoder) (w : Bytes) (m : ℕ) : Prop where
  out : ∀ s : Bytes, s.length ≤ m → decodeLoop eucJis2004 (w ++ s) 0 before = .ok before.out
  ends : ∃ (front : Bytes) (last : Decoder), front.length = m ∧
    ∀ s, decodeLoop eucJis2004 (w ++ (front ++ s)) 0 before = decodeLoop eucJis2004 s 0 last

/-- A unit that uses all that is left. -/
theorem decodeLoop_of_all (h : self.body eucJis2004 (b :: w) 0 = .ok (some (n, self')))
    (hall : w.length ≤ n) (hout : self'.out = self.out) :
    decodeLoop eucJis2004 (b :: w) 0 self = .ok self.out := by
  rw [decodeLoop_of_unit h, List.drop_of_length_le hall, decodeLoop_nil, hout]

theorem drop_append_append {w front s : Bytes} (h : n = w.length + front.length) :
    (w ++ (front ++ s)).drop n = s := by
  rw [← List.append_assoc, List.drop_left' (by rw [List.length_append, h])]

theorem swallows_csi (h : self.body eucJis2004 (0x9B :: w) 0 = .ok (some (n, self')))
    (hcut : w.length < n) : Swallows eucJis2004 self (0x9B :: w) (n - w.length) := by
  obtain ⟨m, hm⟩ := neverRaises_csiParams (0x9B :: w) 1
  have hbody (v : Bytes) : self.body eucJis2004 (0x9B :: v) 0
      = (csiParams (0x9B :: v) 1).map fun m ↦ some (m + 1, self) := rfl
  have hlen : (0x9B :: w).length = w.length + 1 := List.length_cons
  rw [hbody, hm] at h
  cases h
  have hle := csiParams_le hm (by omega)
  obtain rfl : m = w.length := by omega
  have hrest {s : Bytes} {k : ℕ} (hk : csiParams s 0 = .ok k) :
      self.body eucJis2004 (0x9B :: (w ++ s)) 0 = .ok (some (w.length + k + 1, self)) := by
    rw [hbody, ← List.cons_append, csiParams_append_of_open hm (by omega) (by omega) hk]
    rfl
  refine ⟨fun s hs ↦ ?_, [0x40], self, by rw [List.length_singleton]; omega, fun s ↦ ?_⟩
  · obtain ⟨k, hk⟩ := neverRaises_csiParams s 0
    refine decodeLoop_of_all (w := w ++ s) (hrest hk) ?_ rfl
    rw [List.length_append]
    omega
  · have hfinal : csiParams ([0x40] ++ s) 0 = .ok 0 :=
      csiParams_of_final (b := 0x40) rfl (by decide)
    have hdrop : (w ++ ([0x40] ++ s)).drop (w.length + 0 + 1) = s := drop_append_append rfl
    have hloop := decodeLoop_of_unit (hrest hfinal)
    rwa [hdrop] at hloop

/-- A unit of a fixed number of bytes. -/
theorem swallows_of_fixed
    (h : ∀ s, self.body eucJis2004 (b :: (w ++ s)) 0 = .ok (some (n, self'))) (hcut : w.length < n)
    (hout : self'.out = self.out) : Swallows eucJis2004 self (b :: w) (n - w.length) := by
  refine ⟨fun s hs ↦ decodeLoop_of_all (w := w ++ s) (h s) ?_ hout,
    List.replicate (n - w.length) 0, self', List.length_replicate, fun s ↦ ?_⟩
  · rw [List.length_append]
    omega
  · have hloop := decodeLoop_of_unit (h (List.replicate (n - w.length) 0 ++ s))
    rwa [drop_append_append (by rw [List.length_replicate]; omega)] at hloop

theorem swallows_of_short (h : self.body eucJis2004 (b :: w) 0 = .ok (some (n, self')))
    (hesc : unfinishedEscape (b :: w) = false) (hcut : w.length < n) :
    Swallows eucJis2004 self (b :: w) (n - w.length) := by
  by_cases hcsi : b = 0x9B
  · subst hcsi
    exact swallows_csi h hcut
  refine swallows_of_fixed (body_append h hesc fun hb ↦ absurd hb hcsi) hcut ?_
  by_cases hb : b = 0x1B
  · subst hb
    rcases w with _ | ⟨c, w⟩
    · cases hesc
    · rw [body_escape] at h
      rcases hr : self.escape w 0 c with e | ⟨m, last⟩ <;> rw [hr] at h <;> cases h
      exact out_escape hr
  · rw [body_of_ne_esc hb] at h
    rw [unit_cut h hcut]

/-! ### Escape sequences -/

theorem designate_uses {idx : Fin 4} {drcsSet : ℕ}
    (h : self.designate data i idx drcsSet = .ok (n, self')) (hle : data.length ≤ i + 1) :
    data.length ≤ i + n := by
  rw [Decoder.designate] at h
  split at h
  · rw [index_eq_ok ‹_›] at h
    simp only [bind, Except.bind] at h
    split at h <;> cases h <;> omega
  · cases h
    omega

/-- An escape sequence that uses all that is left. -/
theorem decodeLoop_of_escape
    (h : ∀ n self', self.escape w 0 c = .ok (n, self') → w.length ≤ n) :
    decodeLoop eucJis2004 (0x1B :: c :: w) 0 self = .ok self.out := by
  obtain ⟨⟨n, self'⟩, hescape⟩ := @neverRaises_escape w 0 self c
  rw [decodeLoop_escape hescape, List.drop_of_length_le (h n self' hescape), decodeLoop_nil,
    out_escape hescape]

theorem decodeLoop_of_escape_nil : decodeLoop eucJis2004 [0x1B, c] 0 self = .ok self.out :=
  decodeLoop_of_escape fun _ _ _ ↦ Nat.zero_le _

theorem swallows_one {w : Bytes} {last : Decoder}
    (hnil : decodeLoop eucJis2004 w 0 self = .ok self.out)
    (hone : ∀ c, decodeLoop eucJis2004 (w ++ [c]) 0 self = .ok self.out)
    (hends : ∀ s, decodeLoop eucJis2004 (w ++ ([0x40] ++ s)) 0 self
      = decodeLoop eucJis2004 s 0 last) : Swallows eucJis2004 self w 1 := by
  refine ⟨fun s hs ↦ ?_, [0x40], last, rfl, hends⟩
  match s, hs with
  | [], _ => rwa [List.append_nil]
  | [c], _ => exact hone c

theorem swallows_escape : Swallows eucJis2004 self [0x1B] 1 :=
  swallows_one (decodeLoop_of_broken rfl) (fun _ ↦ decodeLoop_of_escape_nil)
    fun _ ↦ decodeLoop_of_unit (n := 1) rfl

theorem swallows_designation {idx : Fin 4} (h : designated c = some idx) :
    Swallows eucJis2004 self [0x1B, c] 1 := by
  refine swallows_one decodeLoop_of_escape_nil (fun f ↦ ?_)
    fun s ↦ decodeLoop_escape (w := 0x40 :: s) (n := 1) ((escape_of_designated h).trans rfl)
  refine decodeLoop_of_escape (w := [f]) fun n self' hescape ↦ ?_
  rw [escape_of_designated h] at hescape
  have := designate_uses hescape le_rfl
  omega

theorem swallows_twoByte : Swallows eucJis2004 self [0x1B, 0x24] 1 := by
  refine swallows_one decodeLoop_of_escape_nil (fun f ↦ ?_)
    fun s ↦ decodeLoop_escape (w := 0x40 :: s) (n := 1) rfl
  refine decodeLoop_of_escape (w := [f]) fun n self' hescape ↦ ?_
  rw [escape_dollar] at hescape
  rcases hf : designated f with _ | idx <;> rw [hf] at hescape <;> cases hescape <;> exact le_rfl

theorem swallows_twoByteDesignation {idx : Fin 4} {f : UInt8} (h : designated f = some idx) :
    Swallows eucJis2004 self [0x1B, 0x24, f] 1 := by
  have hescape (s : Bytes) : self.escape (f :: s) 0 0x24
      = (self.designate s 0 idx drcsTwoByte).map fun r ↦ (r.1 + 1, r.2) := by
    rw [escape_dollar, h]
    rfl
  have hall (s : Bytes) (hs : s.length ≤ 1) :
      decodeLoop eucJis2004 (0x1B :: 0x24 :: f :: s) 0 self = .ok self.out := by
    refine decodeLoop_of_escape fun n self' hn ↦ ?_
    obtain ⟨⟨m, last⟩, hm⟩ := @neverRaises_designate s 0 self idx drcsTwoByte
    rw [hescape, hm] at hn
    cases hn
    have := designate_uses hm (by omega)
    rw [List.length_cons]
    omega
  exact swallows_one (hall [] (Nat.zero_le _)) (fun c ↦ hall [c] le_rfl)
    fun s ↦ decodeLoop_escape (w := f :: 0x40 :: s) (n := 2) ((hescape _).trans rfl)

theorem swallows_of_unfinishedEscape (h : unfinishedEscape (b :: w)) :
    Swallows eucJis2004 self (b :: w) 1 := by
  rcases w with _ | ⟨c, _ | ⟨f, _ | ⟨g, w⟩⟩⟩ <;>
    simp only [unfinishedEscape, decide_eq_true_eq, Bool.false_eq_true] at h
  · rw [h]
    exact swallows_escape
  · obtain ⟨rfl, rfl | hc⟩ := h
    · exact swallows_twoByte
    · obtain ⟨idx, hidx⟩ := Option.isSome_iff_exists.mp hc
      exact swallows_designation hidx
  · obtain ⟨rfl, rfl, hf⟩ := h
    obtain ⟨idx, hidx⟩ := Option.isSome_iff_exists.mp hf
    exact swallows_twoByteDesignation hidx

/-! ### Characters -/

theorem unit_eq_print_of_broken (h : self.unit eucJis2004 data i b = .ok none) (data' : Bytes)
    (i' : ℕ) : self.unit eucJis2004 data' i' b = self.print eucJis2004 data' i' b := by
  rcases unit_cases eucJis2004 self b with ⟨next, hunit⟩ | ⟨k, hunit⟩ | ⟨-, hunit⟩ | hunit
  · rw [hunit] at h
    cases h
  · rw [hunit] at h
    cases h
  · obtain ⟨m, hm⟩ := neverRaises_csiParams data (i + 1)
    rw [hunit, hm] at h
    cases h
  · exact hunit data' i'

theorem print_eq_put : self.print eucJis2004 data i b
    = Decoder.put eucJis2004 (if b < 0x80 then { self with single := none } else self) data i
        (self.charSet b) (b &&& 0x7F) := by
  rw [Decoder.print, Decoder.charSet]
  split
  · rename_i hb
    have hcode : b &&& 0x7F = b := by
      have hlt : b.toNat < 128 := hb
      refine UInt8.toNat_inj.mp ?_
      rw [UInt8.toNat_and]
      exact (Nat.and_two_pow_sub_one_eq_mod _ 7).trans (Nat.mod_eq_of_lt hlt)
    rw [hcode]
  · rfl

theorem put_halved {gset : ℕ} {code : UInt8}
    (h : self.put eucJis2004 (b :: w) 0 gset code = .ok none) : w = [] ∧ isTwoByte gset := by
  rw [Decoder.put] at h
  split at h
  · split at h
    · rename_i hset hle
      rw [List.length_cons] at hle
      exact ⟨List.length_eq_zero_iff.mp (by omega), hset⟩
    · rename_i hlt
      rw [index_eq_ok (by omega)] at h
      cases h
  · rcases hs : oneByte gset code with e | str <;> rw [hs] at h <;> cases h

/-- Apart from ESC, only the first byte of a character is broken at the end. -/
theorem body_halved (h : self.body eucJis2004 (b :: w) 0 = .ok none)
    (hesc : unfinishedEscape (b :: w) = false) : ∃ last : Decoder, ∀ c s,
      decodeLoop eucJis2004 (b :: w ++ c :: s) 0 self
        = decodeLoop eucJis2004 s 0 { last with
            out := last.out ++ twoByte eucJis2004 (self.charSet b) (b &&& 0x7F) (c &&& 0x7F) } := by
  have hb : b ≠ 0x1B := by
    rintro rfl
    rcases w with _ | ⟨c, w⟩
    · cases hesc
    · obtain ⟨r, hr⟩ := @neverRaises_escape w 0 self c
      rw [body_escape, hr] at h
      cases h
  rw [body_of_ne_esc hb] at h
  have hprint := unit_eq_print_of_broken h
  rw [hprint, print_eq_put] at h
  obtain ⟨rfl, hset⟩ := put_halved h
  refine ⟨if b < 0x80 then { self with single := none } else self, fun c s ↦ ?_⟩
  refine decodeLoop_of_unit (w := c :: s) (n := 1) ?_
  rw [body_of_ne_esc hb, hprint, print_eq_put]
  exact put_second hset

end Append

/-! ## What the last unit says -/

section LastUnit

variable {self : Decoder} {u w : Bytes} {n : ℕ}

/-- What a last unit means for all strings that follow `w`. -/
def LastUnit.Spec (eucJis2004 : Codec) (self : Decoder) (w : Bytes) : LastUnit → Prop
  | .whole => ∃ last, ∀ s, decodeLoop eucJis2004 (w ++ s) 0 self = decodeLoop eucJis2004 s 0 last
  | .short n => ∃ (last : Decoder) (v : Bytes), Swallows eucJis2004 last v n
      ∧ ∀ s, decodeLoop eucJis2004 (w ++ s) 0 self = decodeLoop eucJis2004 (v ++ s) 0 last
  | .halved g b1 => ∃ last : Decoder, ∀ c s, decodeLoop eucJis2004 (w ++ c :: s) 0 self
      = decodeLoop eucJis2004 s 0
          { last with out := last.out ++ twoByte eucJis2004 g b1 (c &&& 0x7F) }

/-- A whole unit is taken off the front. -/
theorem LastUnit.Spec.cons {e : LastUnit} {v : Bytes} {next : Decoder}
    (h : e.Spec eucJis2004 next v)
    (hloop : ∀ s, decodeLoop eucJis2004 (w ++ s) 0 self = decodeLoop eucJis2004 (v ++ s) 0 next) :
    e.Spec eucJis2004 self w := by
  cases e with
  | whole =>
    obtain ⟨last, hlast⟩ := h
    exact ⟨last, fun s ↦ (hloop s).trans (hlast s)⟩
  | short n =>
    obtain ⟨last, v, hv, hlast⟩ := h
    exact ⟨last, v, hv, fun s ↦ (hloop s).trans (hlast s)⟩
  | halved g b1 =>
    obtain ⟨last, hlast⟩ := h
    exact ⟨last, fun c s ↦ (hloop _).trans (hlast c s)⟩

theorem lastUnit_spec (eucJis2004 : Codec) (self : Decoder) (w : Bytes) :
    ∃ e, self.lastUnit eucJis2004 w = .ok e ∧ e.Spec eucJis2004 self w := by
  induction hlen : w.length using Nat.strong_induction_on generalizing self w with
  | _ k ih =>
    rcases w with _ | ⟨b, w⟩
    · exact ⟨.whole, by rw [Decoder.lastUnit], self, fun _ ↦ rfl⟩
    by_cases hesc : unfinishedEscape (b :: w)
    · refine ⟨.short 1, ?_, self, b :: w, swallows_of_unfinishedEscape hesc, fun _ ↦ rfl⟩
      rw [Decoder.lastUnit, if_pos hesc]
      rfl
    obtain ⟨r, hr⟩ := @neverRaises_body eucJis2004 (b :: w) 0 self (by simp)
    have hstep := Decoder.lastUnit.eq_def eucJis2004 self (b :: w)
    dsimp only at hstep
    rw [if_neg hesc, hr] at hstep
    match r, hr with
    | none, hr => exact ⟨_, hstep, body_halved hr (by simpa using hesc)⟩
    | some (n, next), hr =>
      by_cases hcut : w.length < n
      · refine ⟨_, hstep.trans (if_pos hcut), self, b :: w,
          swallows_of_short hr (by simpa using hesc) hcut, fun _ ↦ rfl⟩
      · obtain ⟨e, he, hspec⟩ := ih (w.drop n).length (by
          rw [List.length_cons] at hlen
          rw [List.length_drop]
          omega) next (w.drop n) rfl
        refine ⟨e, (hstep.trans (if_neg hcut)).trans he, hspec.cons fun s ↦ ?_⟩
        have hbody := body_append hr (by simpa using hesc) (fun _ ↦ not_lt.mp hcut) s
        rw [← List.drop_append_of_le_length (not_lt.mp hcut)]
        exact decodeLoop_of_unit hbody

/-! ## Text that is settled -/

/-- The text is the same for all strings of `n` bytes behind `u`. -/
def SameText (eucJis2004 : Codec) (u : Bytes) (n : ℕ) : Prop :=
  ∀ s s' : Bytes, s.length = n → s'.length = n →
    text eucJis2004 (u ++ s) = text eucJis2004 (u ++ s')

/-- For `n` bytes behind it, a last unit says the same, whatever they are: there are none, it
swallows them all, or they are the second byte of a character that does not depend on it. -/
def LastUnit.Settled (eucJis2004 : Codec) : LastUnit → ℕ → Prop
  | .whole, n => n = 0
  | .short m, n => n ≤ m
  | .halved g b1, n => n = 0 ∨ n = 1 ∧ (g = kanji ∨ g = jisKanji1 ∨ g = jisKanji2 →
      ∀ c c' : UInt8, twoByte eucJis2004 g b1 (c &&& 0x7F) = twoByte eucJis2004 g b1 (c' &&& 0x7F))

instance (e : LastUnit) (n : ℕ) : Decidable (e.Settled eucJis2004 n) :=
  match e with
  | .whole => inferInstanceAs (Decidable (_ = _))
  | .short _ => inferInstanceAs (Decidable (_ ≤ _))
  | .halved _ _ => inferInstanceAs (Decidable (_ ∨ _ ∧ (_ → _)))

/-- The last unit of `u` is settled for `n` bytes behind it. -/
def TextSettled (eucJis2004 : Codec) (u : Bytes) (n : ℕ) : Prop :=
  ∃ e ∈ (Decoder.lastUnit eucJis2004 {} u).toOption, e.Settled eucJis2004 n

instance (u : Bytes) (n : ℕ) : Decidable (TextSettled eucJis2004 u n) :=
  inferInstanceAs (Decidable (∃ e ∈ _, _))

theorem text_nil : text eucJis2004 [] = [] := by
  rw [text, decode, decodeLoop_nil]
  rfl

theorem decodeLoop_space (s : Bytes) (self : Decoder) : decodeLoop eucJis2004 (0x20 :: s) 0 self
    = decodeLoop eucJis2004 s 0 { self with out := self.out ++ [' '] } :=
  decodeLoop_of_unit (n := 0) rfl

theorem text_space : text eucJis2004 [0x20] = [' '] := by
  rw [text, decode, decodeLoop_space, decodeLoop_nil]
  rfl

/-- Zeros are dropped. -/
theorem decodeLoop_replicate (n : ℕ) (self : Decoder) :
    decodeLoop eucJis2004 (List.replicate n 0) 0 self = .ok self.out := by
  induction n with
  | zero => exact decodeLoop_nil self
  | succ n ih =>
    have h : decodeLoop eucJis2004 (0 :: List.replicate n 0) 0 self
        = decodeLoop eucJis2004 (List.replicate n 0) 0 self := decodeLoop_of_unit (n := 0) rfl
    rw [List.replicate_succ, h, ih]

theorem sameText_iff : SameText eucJis2004 u n ↔ ∀ s s' : Bytes, s.length = n → s'.length = n →
    decodeLoop eucJis2004 (u ++ s) 0 {} = decodeLoop eucJis2004 (u ++ s') 0 {} := by
  refine forall₂_congr fun s s' ↦ forall₂_congr fun _ _ ↦ ?_
  have h (v : Bytes) : decodeLoop eucJis2004 v 0 {} = .ok (text eucJis2004 v) :=
    decode_eq eucJis2004 v
  rw [h, h, Except.ok.injEq]

/-- Behind the end of a unit, there may be a space or nothing. -/
theorem not_sameText_of_ends (front : Bytes) {last : Decoder}
    (h : ∀ s, decodeLoop eucJis2004 (u ++ (front ++ s)) 0 {} = decodeLoop eucJis2004 s 0 last)
    (hn : front.length < n) : ¬SameText eucJis2004 u n := by
  obtain ⟨k, rfl⟩ : ∃ k, n = front.length + (k + 1) := ⟨n - front.length - 1, by omega⟩
  rw [sameText_iff]
  intro hsame
  have hspace := hsame (front ++ 0x20 :: List.replicate k 0)
    (front ++ List.replicate (k + 1) 0) (by simp) (by simp)
  rw [h, h, decodeLoop_space, decodeLoop_replicate, decodeLoop_replicate, Except.ok.injEq] at hspace
  exact absurd (congrArg List.length hspace) (by simp)

theorem sameText_zero : SameText eucJis2004 u 0 := by
  intro s s' hs hs'
  rw [List.length_eq_zero_iff.mp hs, List.length_eq_zero_iff.mp hs']

theorem sameText_halved {g : ℕ} {b1 : UInt8} {last : Decoder}
    (h : ∀ c s, decodeLoop eucJis2004 (u ++ c :: s) 0 {} = decodeLoop eucJis2004 s 0
      { last with out := last.out ++ twoByte eucJis2004 g b1 (c &&& 0x7F) }) :
    SameText eucJis2004 u 1 ↔ ∀ c c' : UInt8,
      twoByte eucJis2004 g b1 (c &&& 0x7F) = twoByte eucJis2004 g b1 (c' &&& 0x7F) := by
  rw [sameText_iff]
  constructor
  · intro hsame c c'
    have hcc := hsame [c] [c'] rfl rfl
    rw [h, h, decodeLoop_nil, decodeLoop_nil, Except.ok.injEq] at hcc
    exact List.append_cancel_left hcc
  · intro hsame s s' hs hs'
    obtain ⟨c, rfl⟩ := List.length_eq_one_iff.mp hs
    obtain ⟨c', rfl⟩ := List.length_eq_one_iff.mp hs'
    rw [h, h, hsame c c']

/-- Only the codec looks at a second byte. -/
theorem twoByte_eq_geta {g : ℕ} (h : ¬(g = kanji ∨ g = jisKanji1 ∨ g = jisKanji2))
    (b1 b2 : UInt8) : twoByte eucJis2004 g b1 b2 = geta := if_neg h

theorem settled_iff_sameText {e : LastUnit} (h : e.Spec eucJis2004 {} u) :
    e.Settled eucJis2004 n ↔ SameText eucJis2004 u n := by
  cases e with
  | whole =>
    obtain ⟨last, hlast⟩ := h
    constructor
    · rintro rfl
      exact sameText_zero
    · intro hsame
      by_contra hn
      exact not_sameText_of_ends [] hlast (Nat.pos_of_ne_zero hn) hsame
  | short m =>
    obtain ⟨last, v, hv, hlast⟩ := h
    constructor
    · intro hn
      rw [sameText_iff]
      intro s s' hs hs'
      rw [hlast, hlast, hv.out s (hs.trans_le hn), hv.out s' (hs'.trans_le hn)]
    · intro hsame
      by_contra hn
      obtain ⟨front, next, hfront, hends⟩ := hv.ends
      exact not_sameText_of_ends front (fun s ↦ (hlast _).trans (hends s))
        (hfront.trans_lt (not_le.mp hn)) hsame
  | halved g b1 =>
    obtain ⟨last, hlast⟩ := h
    rcases n with _ | _ | n
    · exact iff_of_true (.inl rfl) sameText_zero
    · rw [sameText_halved hlast]
      constructor
      · rintro (hzero | ⟨-, hsame⟩) c c'
        · cases hzero
        · by_cases hg : g = kanji ∨ g = jisKanji1 ∨ g = jisKanji2
          · exact hsame hg c c'
          · rw [twoByte_eq_geta hg, twoByte_eq_geta hg]
      · exact fun hsame ↦ .inr ⟨rfl, fun _ ↦ hsame⟩
    · refine iff_of_false (fun h ↦ ?_) (not_sameText_of_ends [0] (hlast 0) (by simp))
      rcases h with h | ⟨h, -⟩ <;> omega

/-- **Text is settled** exactly when the last unit is. -/
theorem textSettled_iff : TextSettled eucJis2004 u n ↔ SameText eucJis2004 u n := by
  obtain ⟨e, he, hspec⟩ := lastUnit_spec eucJis2004 {} u
  rw [← settled_iff_sameText hspec, TextSettled, he]
  simp [Except.toOption]

theorem exists_of_not_textSettled (h : ¬TextSettled eucJis2004 u n) :
    ∃ s s' : Bytes, s.length = n ∧ s'.length = n
      ∧ text eucJis2004 (u ++ s) ≠ text eucJis2004 (u ++ s') := by
  simpa only [textSettled_iff, SameText, not_forall, exists_prop] using h

end LastUnit

end Aribstr

end Recdyud
