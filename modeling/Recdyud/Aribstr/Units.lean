import Recdyud.Aribstr

/-!
# Units of an ARIB string

The loop of `decode` looks only ahead: from position `i` on it does what it would do at the start of
the bytes that are left (`decodeLoop_eq_drop`). A string can therefore be read unit by unit, each
one taken off the front by `decodeLoop_of_unit`.

`Reaches` follows the positions of the loop. Bytes behind a position do not influence how the loop
got there (`Reaches.of_take_eq`), so where the units of a string end is a property of the string.
-/

namespace Recdyud

namespace Aribstr

variable {eucJis2004 : Codec}

/-! ## The loop looks ahead -/

section Shift

variable (u w : Bytes) (i : ℕ)

theorem index_append_right : index (u ++ w) (u.length + i) = index w i := by
  rw [index, index, List.getElem?_append_right (Nat.le_add_right _ _), Nat.add_sub_cancel_left]

theorem add_lt_length_append : u.length + i < (u ++ w).length ↔ i < w.length := by
  rw [List.length_append]
  omega

theorem length_append_le_add : (u ++ w).length ≤ u.length + i + 1 ↔ w.length ≤ i + 1 := by
  rw [List.length_append]
  omega

theorem designate_append_right (self : Decoder) (idx : Fin 4) (drcsSet : ℕ) :
    self.designate (u ++ w) (u.length + i) idx drcsSet = self.designate w i idx drcsSet := by
  simp only [Decoder.designate, add_lt_length_append, index_append_right]

theorem escape_append_right (self : Decoder) (c : UInt8) :
    self.escape (u ++ w) (u.length + i) c = self.escape w i c := by
  simp only [Decoder.escape, Nat.add_assoc, add_lt_length_append, index_append_right,
    designate_append_right]

theorem csiParams_append_right : csiParams (u ++ w) (u.length + i) = csiParams w i := by
  induction i using csiParams.induct w with
  | case1 i h ih =>
    rw [csiParams.eq_def w i, if_pos h, csiParams, if_pos ((add_lt_length_append u w i).mpr h),
      index_append_right, Nat.add_assoc, ih]
  | case2 i h =>
    rw [csiParams.eq_def w i, if_neg h, csiParams, if_neg (mt (add_lt_length_append u w i).mp h)]

theorem put_append_right (self : Decoder) (gset : ℕ) (code : UInt8) :
    self.put eucJis2004 (u ++ w) (u.length + i) gset code = self.put eucJis2004 w i gset code := by
  simp only [Decoder.put, length_append_le_add]
  simp only [Nat.add_assoc, index_append_right]

theorem unit_append_right (self : Decoder) (b : UInt8) :
    self.unit eucJis2004 (u ++ w) (u.length + i) b = self.unit eucJis2004 w i b := by
  simp only [Decoder.unit, Decoder.print, put_append_right]
  simp only [Nat.add_assoc, csiParams_append_right]

theorem body_append_right (self : Decoder) :
    self.body eucJis2004 (u ++ w) (u.length + i) = self.body eucJis2004 w i := by
  simp only [Decoder.body, length_append_le_add]
  simp only [Nat.add_assoc, index_append_right, escape_append_right, unit_append_right]

theorem decodeLoop_append_right (self : Decoder) :
    decodeLoop eucJis2004 (u ++ w) (u.length + i) self = decodeLoop eucJis2004 w i self := by
  induction i, self using decodeLoop.induct w with
  | case1 i self h ih =>
    rw [decodeLoop, decodeLoop, if_pos h, if_pos ((add_lt_length_append u w i).mpr h),
      body_append_right]
    refine bind_congr fun r ↦ ?_
    rcases r with _ | ⟨n, self⟩
    · rfl
    · dsimp only
      rw [Nat.add_assoc u.length, Nat.add_assoc u.length]
      exact ih n self
  | case2 i self h =>
    rw [decodeLoop, decodeLoop, if_neg h, if_neg (mt (add_lt_length_append u w i).mp h)]

end Shift

/-- From position `i` on, the loop does what it does on the bytes that are left. -/
theorem decodeLoop_eq_drop (data : Bytes) (i : ℕ) (self : Decoder) :
    decodeLoop eucJis2004 data i self = decodeLoop eucJis2004 (data.drop i) 0 self := by
  rcases Nat.lt_or_ge i data.length with hlt | hge
  · have hsplit : decodeLoop eucJis2004 (data.take i ++ data.drop i) ((data.take i).length + 0) self
        = decodeLoop eucJis2004 (data.drop i) 0 self := decodeLoop_append_right _ _ 0 self
    rwa [List.take_append_drop, List.length_take_of_le hlt.le, Nat.add_zero] at hsplit
  · rw [decodeLoop, if_neg (by omega), decodeLoop, if_neg (by rw [List.length_drop]; omega)]

theorem decodeLoop_nil (self : Decoder) : decodeLoop eucJis2004 [] 0 self = .ok self.out := by
  rw [decodeLoop, if_neg (by simp)]
  rfl

/-- A unit at the front is taken off. -/
theorem decodeLoop_of_unit {b : UInt8} {w : Bytes} {n : ℕ} {self self' : Decoder}
    (h : self.body eucJis2004 (b :: w) 0 = .ok (some (n, self'))) :
    decodeLoop eucJis2004 (b :: w) 0 self = decodeLoop eucJis2004 (w.drop n) 0 self' := by
  rw [decodeLoop, if_pos (by simp), h]
  simp only [bind, Except.bind]
  rw [decodeLoop_eq_drop, Nat.zero_add, Nat.add_comm, List.drop_succ_cons]

/-- A broken unit at the front ends the text. -/
theorem decodeLoop_of_broken {b : UInt8} {w : Bytes} {self : Decoder}
    (h : self.body eucJis2004 (b :: w) 0 = .ok none) :
    decodeLoop eucJis2004 (b :: w) 0 self = .ok self.out := by
  rw [decodeLoop, if_pos (by simp), h]
  rfl

/-! ## Escape sequences and characters -/

section Front

variable {self : Decoder} {w : Bytes} {b c : UInt8}

theorem body_of_ne_esc (h : b ≠ 0x1B) :
    self.body eucJis2004 (b :: w) 0 = self.unit eucJis2004 (b :: w) 0 b := by
  have hindex : index (b :: w) 0 = .ok b := rfl
  rw [Decoder.body, hindex]
  simp only [bind, Except.bind, if_neg h]

theorem body_escape : self.body eucJis2004 (0x1B :: c :: w) 0
    = (self.escape w 0 c).map fun r ↦ some (r.1 + 1, r.2) := by
  rw [← escape_append_right [0x1B, c] w 0 self c, Decoder.body]
  rfl

/-- An escape sequence at the front. -/
theorem decodeLoop_escape {n : ℕ} {self' : Decoder} (h : self.escape w 0 c = .ok (n, self')) :
    decodeLoop eucJis2004 (0x1B :: c :: w) 0 self = decodeLoop eucJis2004 (w.drop n) 0 self' := by
  have hbody : self.body eucJis2004 (0x1B :: c :: w) 0 = .ok (some (n + 1, self')) := by
    rw [body_escape, h]
    rfl
  rw [decodeLoop_of_unit hbody, List.drop_succ_cons]

/-- `ESC ( … ESC +` designate at once. -/
theorem escape_of_designated {idx : Fin 4} (h : designated c = some idx) :
    self.escape w 0 c = self.designate w 0 idx drcs := by
  rw [designated] at h
  split_ifs at h with h28 h29 h2A h2B
  · cases h; subst h28; rfl
  · cases h; subst h29; rfl
  · cases h; subst h2A; rfl
  · cases h; subst h2B; rfl

/-- `ESC $` looks for one of them first. -/
theorem escape_dollar (f : UInt8) : self.escape (f :: w) 0 0x24 = match designated f with
    | some idx => do
      let (n, self) ← self.designate w 0 idx drcsTwoByte
      return (n + 1, self)
    | none => return (1, { self with g := Function.update self.g 0 f.toNat }) := by
  have hescape : self.escape (f :: w) 0 0x24 = match designated f with
    | some idx => do
      let (n, self) ← self.designate (f :: w) 1 idx drcsTwoByte
      return (n + 1, self)
    | none => return (1, { self with g := Function.update self.g 0 f.toNat }) := rfl
  have hshift (idx : Fin 4) : self.designate (f :: w) 1 idx drcsTwoByte
      = self.designate w 0 idx drcsTwoByte :=
    designate_append_right [f] w 0 self idx drcsTwoByte
  rw [hescape]
  simp only [hshift]

/-- A character of two bytes, the second of which stands at position 1. -/
theorem put_second {gset : ℕ} {code second : UInt8} (h : isTwoByte gset) :
    self.put eucJis2004 (b :: second :: w) 0 gset code
      = .ok (some (1,
          { self with out := self.out ++ twoByte eucJis2004 gset code (second &&& 0x7F) })) := by
  rw [Decoder.put, if_pos h]
  rfl

end Front

/-! ## The parameters of CSI -/

section Parameters

variable {data : Bytes} {i n : ℕ} {b : UInt8}

theorem csiParams_of_final (hb : data[i]? = some b) (h : 0x40 ≤ b ∧ b ≤ 0x7E) :
    csiParams data i = .ok 0 := by
  obtain ⟨hlt, -⟩ := List.getElem?_eq_some_iff.mp hb
  rw [csiParams, if_pos hlt, index_eq_ok_of_getElem? hb]
  simp only [bind, Except.bind, if_pos h]
  rfl

theorem csiParams_of_param (hb : data[i]? = some b) (h : ¬(0x40 ≤ b ∧ b ≤ 0x7E)) :
    csiParams data i = (csiParams data (i + 1)).map (· + 1) := by
  obtain ⟨hlt, -⟩ := List.getElem?_eq_some_iff.mp hb
  rw [csiParams, if_pos hlt, index_eq_ok_of_getElem? hb]
  simp only [bind, Except.bind, if_neg h]
  rfl

/-- The string ends, or there is the final byte, or a parameter. -/
theorem csiParams_cases (h : csiParams data i = .ok n) :
    (data.length ≤ i ∧ n = 0) ∨
    (∃ b, data[i]? = some b ∧ (0x40 ≤ b ∧ b ≤ 0x7E) ∧ n = 0) ∨
    ∃ b m, data[i]? = some b ∧ ¬(0x40 ≤ b ∧ b ≤ 0x7E) ∧ csiParams data (i + 1) = .ok m ∧
      n = m + 1 := by
  rcases hb : data[i]? with _ | b
  · have hge := List.getElem?_eq_none_iff.mp hb
    rw [csiParams, if_neg (not_lt.mpr hge)] at h
    cases h
    exact .inl ⟨hge, rfl⟩
  · by_cases hfinal : 0x40 ≤ b ∧ b ≤ 0x7E
    · rw [csiParams_of_final hb hfinal] at h
      cases h
      exact .inr (.inl ⟨b, rfl, hfinal, rfl⟩)
    · obtain ⟨m, hm⟩ := neverRaises_csiParams data (i + 1)
      rw [csiParams_of_param hb hfinal, hm] at h
      cases h
      exact .inr (.inr ⟨b, m, rfl, hfinal, hm, rfl⟩)

end Parameters

/-! ## Other units -/

section Form

variable {self : Decoder} {b : UInt8}
  {unit unit' : Bytes → ℕ → Except IndexError (Option (ℕ × Decoder))}

/-- What a unit other than an escape sequence can do with the string and its position: a control
code without parameters, one with a fixed number of them, CSI, or a character. -/
def UnitForm (eucJis2004 : Codec) (self : Decoder) (b : UInt8)
    (unit : Bytes → ℕ → Except IndexError (Option (ℕ × Decoder))) : Prop :=
  (∃ next, ∀ data i, unit data i = .ok (some (0, next))) ∨
  (∃ n, ∀ data i, unit data i = .ok (some (n, self))) ∨
  (b = 0x9B ∧
    ∀ data i, unit data i = (csiParams data (i + 1)).map fun m ↦ some (m + 1, self)) ∨
  ∀ data i, unit data i = self.print eucJis2004 data i b

theorem UnitForm.ite {c : Prop} [Decidable c] (h : c → UnitForm eucJis2004 self b unit)
    (h' : ¬c → UnitForm eucJis2004 self b unit') :
    UnitForm eucJis2004 self b fun data i ↦ if c then unit data i else unit' data i := by
  by_cases hc : c
  · simpa only [if_pos hc] using h hc
  · simpa only [if_neg hc] using h' hc

/-- The byte alone decides which it is. -/
theorem unit_cases (eucJis2004 : Codec) (self : Decoder) (b : UInt8) :
    (∃ next, ∀ data i, self.unit eucJis2004 data i b = .ok (some (0, next))) ∨
    (∃ n, ∀ data i, self.unit eucJis2004 data i b = .ok (some (n, self))) ∨
    (b = 0x9B ∧ ∀ data i, self.unit eucJis2004 data i b
      = (csiParams data (i + 1)).map fun m ↦ some (m + 1, self)) ∨
    ∀ data i, self.unit eucJis2004 data i b = self.print eucJis2004 data i b := by
  have halone (next : Decoder) : UnitForm eucJis2004 self b fun _ _ ↦ .ok (some (0, next)) :=
    .inl ⟨next, fun _ _ ↦ rfl⟩
  have hfixed (n : ℕ) : UnitForm eucJis2004 self b fun _ _ ↦ .ok (some (n, self)) :=
    .inr (.inl ⟨n, fun _ _ ↦ rfl⟩)
  change UnitForm eucJis2004 self b fun data i ↦ self.unit eucJis2004 data i b
  unfold Decoder.unit
  iterate 6 refine .ite (fun _ ↦ halone _) fun _ ↦ ?_
  iterate 3 refine .ite (fun _ ↦ hfixed _) fun _ ↦ ?_
  -- of the C1 control codes, only CSI looks at what follows
  refine .ite (fun _ ↦ ?_) fun _ ↦ .inr (.inr (.inr fun _ _ ↦ rfl))
  refine .ite (fun hcsi ↦ .inr (.inr (.inl ⟨hcsi, fun _ _ ↦ rfl⟩))) fun _ ↦ ?_
  exact .ite (fun _ ↦ hfixed _) fun _ ↦ hfixed _

end Form

/-! ## Where units end -/

/-- The loop, at position `i` of `data`, goes on and arrives at position `j`. -/
inductive Reaches (eucJis2004 : Codec) (data : Bytes) : ℕ → Decoder → ℕ → Decoder → Prop
  | here (i : ℕ) (self : Decoder) : Reaches eucJis2004 data i self i self
  | unit {i j n : ℕ} {self next last : Decoder} (h : i < data.length)
      (hbody : self.body eucJis2004 data i = .ok (some (n, next)))
      (hrest : Reaches eucJis2004 data (i + 1 + n) next j last) :
      Reaches eucJis2004 data i self j last

theorem Reaches.le {data : Bytes} {i j : ℕ} {self last : Decoder}
    (h : Reaches eucJis2004 data i self j last) : i ≤ j := by
  induction h with
  | here => exact le_rfl
  | unit _ _ _ ih => omega

theorem Reaches.decodeLoop_eq {data : Bytes} {i j : ℕ} {self last : Decoder}
    (h : Reaches eucJis2004 data i self j last) :
    decodeLoop eucJis2004 data i self = decodeLoop eucJis2004 data j last := by
  induction h with
  | here => rfl
  | unit hlt hbody _ ih =>
    rw [decodeLoop, if_pos hlt, hbody]
    exact ih

section Locality

variable {data data' : Bytes} {i k n : ℕ} {self self' : Decoder}

/-- Both strings begin with the same `k` bytes, and the first one goes on. -/
structure SameFront (data data' : Bytes) (k : ℕ) : Prop where
  lt_length : k < data.length
  take_eq : data'.take k = data.take k

theorem le_length_of_take_eq (h : data'.take k = data.take k) (hk : k ≤ data.length) :
    k ≤ data'.length := by
  have hlen := congrArg List.length h
  simp only [List.length_take] at hlen
  omega

theorem getElem?_of_take_eq (h : data'.take k = data.take k) (hi : i < k) :
    data'[i]? = data[i]? := by
  rw [← List.getElem?_take_of_lt hi, h, List.getElem?_take_of_lt hi]

theorem index_of_take_eq (h : data'.take k = data.take k) (hi : i < k) :
    index data' i = index data i := by
  rw [index, index, getElem?_of_take_eq h hi]

theorem SameFront.le_length (h : SameFront data data' k) : k ≤ data'.length :=
  le_length_of_take_eq h.take_eq h.lt_length.le

theorem SameFront.index_eq (h : SameFront data data' k) (hi : i < k) :
    index data' i = index data i :=
  index_of_take_eq h.take_eq hi

theorem designate_of_sameFront {idx : Fin 4} {drcsSet : ℕ}
    (h : self.designate data i idx drcsSet = .ok (n, self'))
    (hsame : SameFront data data' (i + n)) :
    self.designate data' i idx drcsSet = .ok (n, self') := by
  have hlt := hsame.lt_length
  have hle := hsame.le_length
  rw [Decoder.designate, if_pos (by omega), index_eq_ok (by omega)] at h
  have hn : 0 < n := by
    simp only [bind, Except.bind] at h
    split at h <;> cases h <;> decide
  rw [Decoder.designate, if_pos (by omega), hsame.index_eq (by omega), index_eq_ok (by omega)]
  exact h

theorem escape_of_sameFront {c : UInt8} (h : self.escape data i c = .ok (n, self'))
    (hsame : SameFront data data' (i + n)) : self.escape data' i c = .ok (n, self') := by
  have hlt := hsame.lt_length
  have hle := hsame.le_length
  rw [Decoder.escape] at h ⊢
  iterate 5
    split at h
    · rwa [if_pos ‹_›]
    rw [if_neg ‹_›]
  split at h
  · rw [if_pos ‹_›]
    rw [if_pos (by omega), index_eq_ok (by omega)] at h
    simp only [bind, Except.bind] at h
    split at h
    · rename_i idx hidx
      obtain ⟨⟨m, last⟩, hm⟩ := @neverRaises_designate data (i + 1) self idx drcsTwoByte
      rw [hm] at h
      cases h
      have hm' := designate_of_sameFront hm (by rwa [Nat.add_right_comm i, Nat.add_assoc])
      rw [if_pos (by omega), hsame.index_eq (by omega), index_eq_ok (by omega)]
      simp only [bind, Except.bind, hidx, hm']
      rfl
    · rename_i hidx
      cases h
      rw [if_pos (by omega), hsame.index_eq (by omega), index_eq_ok (by omega)]
      simp only [bind, Except.bind, hidx]
      rfl
  · rw [if_neg ‹_›]
    split at h
    · exact designate_of_sameFront h hsame
    · exact h

theorem csiParams_of_take_eq (h : csiParams data i = .ok n) (hlt : i + n < data.length)
    (hsame : data'.take (i + n + 1) = data.take (i + n + 1)) : csiParams data' i = .ok n := by
  induction n generalizing i with
  | zero =>
    rcases csiParams_cases h with ⟨hge, -⟩ | ⟨b, hb, hfinal, -⟩ | ⟨_, _, _, _, _, hn⟩
    · omega
    · exact csiParams_of_final ((getElem?_of_take_eq hsame (by omega)).trans hb) hfinal
    · cases hn
  | succ n ih =>
    rcases csiParams_cases h with ⟨-, hn⟩ | ⟨_, _, _, hn⟩ | ⟨b, m, hb, hparam, hm, hn⟩
    · cases hn
    · cases hn
    · cases hn
      rw [csiParams_of_param ((getElem?_of_take_eq hsame (by omega)).trans hb) hparam,
        ih hm (by omega) (by rwa [Nat.add_right_comm i, Nat.add_assoc i])]
      rfl

theorem put_of_sameFront {gset : ℕ} {code : UInt8}
    (h : self.put eucJis2004 data i gset code = .ok (some (n, self')))
    (hsame : SameFront data data' (i + 1 + n)) :
    self.put eucJis2004 data' i gset code = .ok (some (n, self')) := by
  have hlt := hsame.lt_length
  have hle := hsame.le_length
  rw [Decoder.put] at h ⊢
  split at h
  · rw [if_neg (by omega), index_eq_ok (by omega)] at h
    cases h
    rw [if_pos ‹_›, if_neg (by omega), hsame.index_eq (by omega), index_eq_ok (by omega)]
    rfl
  · rwa [if_neg ‹_›]

/-- Two chains of conditions with the same tests, compared branch by branch. -/
theorem ite_eq_of_imp {α : Type} {c : Prop} [Decidable c] {x y x' y' r : α} (hx : x = r → x' = r)
    (hy : y = r → y' = r) (h : (if c then x else y) = r) : (if c then x' else y') = r := by
  split at h
  · rw [if_pos ‹_›]
    exact hx h
  · rw [if_neg ‹_›]
    exact hy h

theorem print_of_sameFront {b : UInt8}
    (h : self.print eucJis2004 data i b = .ok (some (n, self')))
    (hsame : SameFront data data' (i + 1 + n)) :
    self.print eucJis2004 data' i b = .ok (some (n, self')) := by
  rw [Decoder.print] at h ⊢
  exact ite_eq_of_imp (fun h ↦ put_of_sameFront h hsame) (fun h ↦ put_of_sameFront h hsame) h

theorem unit_of_sameFront {b : UInt8}
    (h : self.unit eucJis2004 data i b = .ok (some (n, self')))
    (hsame : SameFront data data' (i + 1 + n)) :
    self.unit eucJis2004 data' i b = .ok (some (n, self')) := by
  rcases unit_cases eucJis2004 self b with ⟨next, hunit⟩ | ⟨k, hunit⟩ | ⟨-, hunit⟩ | hunit <;>
    rw [hunit] at h ⊢
  · exact h
  · exact h
  · obtain ⟨m, hm⟩ := neverRaises_csiParams data (i + 1)
    rw [hm] at h
    cases h
    have := hsame.lt_length
    rw [csiParams_of_take_eq hm (by omega) hsame.take_eq]
    rfl
  · exact print_of_sameFront h hsame

/-- What the loop does in one turn is settled by the bytes it uses. -/
theorem body_of_sameFront (h : self.body eucJis2004 data i = .ok (some (n, self')))
    (hsame : SameFront data data' (i + 1 + n)) :
    self.body eucJis2004 data' i = .ok (some (n, self')) := by
  have hlt := hsame.lt_length
  have hle := hsame.le_length
  rw [Decoder.body, index_eq_ok (by omega)] at h
  rw [Decoder.body, hsame.index_eq (by omega), index_eq_ok (by omega)]
  simp only [bind, Except.bind] at h ⊢
  split at h
  · rw [if_pos ‹_›]
    rw [if_neg (by omega), index_eq_ok (by omega)] at h
    dsimp only at h
    obtain ⟨⟨m, last⟩, hm⟩ := @neverRaises_escape data (i + 2) self data[i + 1]
    rw [hm] at h
    cases h
    rw [if_neg (by omega), hsame.index_eq (by omega), index_eq_ok (by omega)]
    dsimp only
    rw [escape_of_sameFront hm (by rwa [show i + 2 + m = i + 1 + (m + 1) by omega])]
    rfl
  · rw [if_neg ‹_›]
    exact unit_of_sameFront h hsame

/-- How the loop got to a position is settled by the bytes in front of it. -/
theorem Reaches.of_sameFront {j : ℕ} (h : Reaches eucJis2004 data i self j self')
    (hsame : SameFront data data' j) : Reaches eucJis2004 data' i self j self' := by
  induction h with
  | here i self => exact .here i self
  | @unit i j n self next last hlt hbody hrest ih =>
    have hle := hrest.le
    have hfront : SameFront data data' (i + 1 + n) := by
      refine ⟨by have := hsame.lt_length; omega, ?_⟩
      have := congrArg (List.take (i + 1 + n)) hsame.take_eq
      rwa [List.take_take, List.take_take, Nat.min_eq_left hle] at this
    have := hfront.le_length
    exact .unit (by omega) (body_of_sameFront hbody hfront) (ih hsame)

end Locality

/-- Whatever follows, the loop arrives at the end of `u`. -/
def TokenBoundary (eucJis2004 : Codec) (u : Bytes) : Prop :=
  ∀ v, ∃ self, Reaches eucJis2004 (u ++ v) 0 {} u.length self

/-- Behind a token boundary, the loop goes on in a state that the string in front of it settles. -/
theorem TokenBoundary.exists_decode_eq {u : Bytes} (h : TokenBoundary eucJis2004 u) :
    ∃ self, ∀ v, decode eucJis2004 (u ++ v) = decodeLoop eucJis2004 v 0 self := by
  obtain ⟨self, hreaches⟩ := h [0]
  refine ⟨self, fun v ↦ ?_⟩
  have hsame : SameFront (u ++ [0]) (u ++ v) u.length :=
    ⟨by simp, by rw [List.take_left, List.take_left]⟩
  rw [decode, (hreaches.of_sameFront hsame).decodeLoop_eq, decodeLoop_eq_drop, List.drop_left]

end Aribstr

end Recdyud
