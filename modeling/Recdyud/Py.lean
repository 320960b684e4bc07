import Mathlib

/-!
# Python values used by the receiver

The receive path works on `bytes` and on integers taken from them. This file fixes how the
operations of the language are read: an index expression may raise `IndexError`, so it lives in
`Except IndexError`; a slice never raises, so it is a plain list operation; `int.from_bytes` and
`int.to_bytes` are big-endian throughout.

Integers are natural numbers wherever the source never goes below zero.
-/

namespace Recdyud

/-- A Python `bytes` (or `bytearray`) value. -/
abbrev Bytes := List UInt8

/-- A Python `str`. -/
abbrev Str := List Char

/-- The exception raised by an index expression. -/
inductive IndexError where
  | outOfRange
  deriving DecidableEq, Repr

/-! ## Indexing and slicing -/

/-- `data[i]` -/
def index (data : Bytes) (i : ℕ) : Except IndexError UInt8 :=
  match data[i]? with
  | some b => .ok b
  | none => .error .outOfRange

theorem index_eq_ok {data : Bytes} {i : ℕ} (h : i < data.length) :
    index data i = .ok data[i] := by
  rw [index, List.getElem?_eq_getElem h]

theorem index_eq_ok_of_getElem? {data : Bytes} {i : ℕ} {b : UInt8} (h : data[i]? = some b) :
    index data i = .ok b := by
  rw [index, h]

/-- `data[i:j]` for indices that are not negative -/
def slice (data : Bytes) (i j : ℕ) : Bytes := (data.take j).drop i

theorem slice_add (data : Bytes) (i n : ℕ) : slice data i (i + n) = (data.drop i).take n := by
  rw [slice, List.drop_take, Nat.add_sub_cancel_left]

theorem length_slice (data : Bytes) (i j : ℕ) :
    (slice data i j).length = min j data.length - i := by
  simp [slice]

/-- A slice inside the front does not see what follows. -/
theorem slice_append_left {a b : Bytes} {i j : ℕ} (h : j ≤ a.length) :
    slice (a ++ b) i j = slice a i j := by
  rw [slice, slice, List.take_append_of_le_length h]

/-- `data.find(b, start, stop)`, with `none` for `-1` -/
def find (data : Bytes) (b : UInt8) (start stop : ℕ) : Option ℕ :=
  (List.range' start (min stop data.length - start)).find? fun i ↦ data[i]? == some b

theorem find_eq_some_iff {data : Bytes} {b : UInt8} {start stop i : ℕ} :
    find data b start stop = some i ↔
      start ≤ i ∧ i < stop ∧ data[i]? = some b ∧ ∀ j, start ≤ j → j < i → data[j]? ≠ some b := by
  rw [find, List.find?_range'_eq_some]
  constructor
  · rintro ⟨hb, hmem, hmin⟩
    simp only [List.mem_range'_1] at hmem
    refine ⟨hmem.1, by omega, by simpa using hb, fun j h1 h2 hj ↦ ?_⟩
    simpa [hj] using hmin j h1 h2
  · rintro ⟨h1, h2, hb, hmin⟩
    have hlen : i < data.length := (List.getElem?_eq_some_iff.mp hb).1
    refine ⟨by simpa using hb, by simp only [List.mem_range'_1]; omega, fun j hj1 hj2 ↦ ?_⟩
    simpa using hmin j hj1 hj2

theorem find_eq_none_iff {data : Bytes} {b : UInt8} {start stop : ℕ} :
    find data b start stop = none ↔ ∀ i, start ≤ i → i < stop → data[i]? ≠ some b := by
  rw [find, List.find?_range'_eq_none]
  constructor
  · intro h i h1 h2 hi
    have hlen : i < data.length := (List.getElem?_eq_some_iff.mp hi).1
    simpa [hi] using h i h1 (by omega)
  · intro h i h1 h2
    simpa using h i h1 (by omega)

/-! ## Computations that raise nothing -/

/-- The computation raises nothing. -/
def NeverRaises {α : Type} (x : Except IndexError α) : Prop := ∃ a, x = .ok a

theorem neverRaises_ok {α : Type} (a : α) : NeverRaises (.ok a) := ⟨a, rfl⟩

theorem neverRaises_pure {α : Type} (a : α) : NeverRaises (pure a) := ⟨a, rfl⟩

theorem NeverRaises.bind {α β : Type} {x : Except IndexError α} {f : α → Except IndexError β}
    (hx : NeverRaises x) (hf : ∀ a, x = .ok a → NeverRaises (f a)) : NeverRaises (x >>= f) := by
  obtain ⟨a, rfl⟩ := hx
  exact hf a rfl

theorem NeverRaises.ite {α : Type} {c : Prop} [Decidable c] {x y : Except IndexError α}
    (hx : c → NeverRaises x) (hy : ¬c → NeverRaises y) : NeverRaises (if c then x else y) := by
  split
  · exact hx ‹c›
  · exact hy ‹¬c›

theorem neverRaises_index {data : Bytes} {i : ℕ} (h : i < data.length) :
    NeverRaises (index data i) := ⟨_, index_eq_ok h⟩

/-! ## Integers and bytes -/

/-- `int.from_bytes(data, "big")` -/
def intFromBytes (data : Bytes) : ℕ := data.foldl (fun n b ↦ 256 * n + b.toNat) 0

/-- `n.to_bytes(length, "big")` for an `n` that fits -/
def toBytes (n length : ℕ) : Bytes :=
  (List.range length).map fun i ↦ UInt8.ofNat (n >>> (8 * (length - 1 - i)))

@[simp] theorem length_toBytes (n length : ℕ) : (toBytes n length).length = length := by
  simp [toBytes]

theorem toBytes_succ (n length : ℕ) :
    toBytes n (length + 1) = toBytes (n >>> 8) length ++ [UInt8.ofNat n] := by
  rw [toBytes, List.range_succ, List.map_append, toBytes]
  refine congrArg₂ _ (List.map_congr_left fun i hi ↦ ?_) (by simp)
  rw [← Nat.shiftRight_add]
  have hlt : i < length := List.mem_range.mp hi
  congr 2
  omega

theorem intFromBytes_concat (data : Bytes) (b : UInt8) :
    intFromBytes (data ++ [b]) = 256 * intFromBytes data + b.toNat := by
  rw [intFromBytes, List.foldl_append]
  rfl

theorem intFromBytes_lt (data : Bytes) : intFromBytes data < 256 ^ data.length := by
  induction data using List.reverseRecOn with
  | nil => exact Nat.one_pos
  | append_singleton data b ih =>
    have hb := b.toNat_lt
    rw [intFromBytes_concat, List.length_append, List.length_singleton, pow_succ]
    omega

theorem intFromBytes_toBytes (n length : ℕ) :
    intFromBytes (toBytes n length) = n % 256 ^ length := by
  induction length generalizing n with
  | zero => rw [Nat.pow_zero, Nat.mod_one, toBytes, List.range_zero]; rfl
  | succ length ih =>
    have hpow : 256 ^ (length + 1) = 2 ^ 8 * 256 ^ length := Nat.pow_succ'
    rw [toBytes_succ, intFromBytes_concat, ih, Nat.shiftRight_eq_div_pow, hpow, Nat.mod_mul,
      UInt8.toNat_ofNat', Nat.add_comm]
    rfl

/-! ## Reading at a position

What stands at position `i` of `data` is given by `data.drop i`; reading it moves the position
behind it. -/

section Position

variable {data a rest : Bytes} {i j : ℕ}

theorem slice_of_drop (h : data.drop i = a ++ rest) (hj : j = i + a.length) :
    slice data i j = a := by
  rw [hj, slice_add, h, List.take_left]

theorem drop_of_drop (h : data.drop i = a ++ rest) (hj : j = i + a.length) :
    data.drop j = rest := by
  rw [hj, ← List.drop_drop, h, List.drop_left]

theorem getD_of_drop {b : UInt8} (h : data.drop i = b :: rest) : data.getD i 0 = b := by
  have hget : (data.drop i)[0]? = some b := by rw [h]; rfl
  rw [List.getElem?_drop, Nat.add_zero] at hget
  rw [List.getD_eq_getElem?_getD, hget]
  rfl

theorem length_of_drop (h : data.drop i = a ++ rest) (ha : a ≠ []) :
    data.length = i + a.length + rest.length := by
  have hlen := congrArg List.length h
  rw [List.length_drop, List.length_append] at hlen
  have hpos := List.length_pos_iff.mpr ha
  omega

/-- A number in big-endian order, read back. -/
theorem intFromBytes_of_drop {n k : ℕ} (h : data.drop i = toBytes n k ++ rest)
    (hn : n < 256 ^ k) (hj : j = i + k) : intFromBytes (slice data i j) = n := by
  rw [slice_of_drop h (by rw [hj, length_toBytes]), intFromBytes_toBytes, Nat.mod_eq_of_lt hn]

end Position

/-- A field behind constant bits: the mask takes the bits away. -/
theorem or_and_mask {a n : ℕ} (k : ℕ) (ha : a % 2 ^ k = 0) (hn : n < 2 ^ k) :
    (a ||| n) &&& (2 ^ k - 1) = n := by
  rw [Nat.and_two_pow_sub_one_eq_mod, Nat.or_mod_two_pow, ha, Nat.mod_eq_of_lt hn, Nat.zero_or]

/-- `range(start, stop, step)` -/
def pyRange (start stop step : ℕ) : List ℕ :=
  (List.range ((stop - start + step - 1) / step)).map fun k ↦ start + step * k

theorem pyRange_zero (stop step : ℕ) :
    pyRange 0 stop step = (List.range ((stop + step - 1) / step)).map (step * ·) := by
  rw [pyRange]
  simp

/-! ## Comprehensions -/

/-- What is related to an element of the one list is in the other. -/
theorem exists_of_forall₂ {α β : Type} {R : α → β → Prop} {l : List α} {l' : List β}
    (h : List.Forall₂ R l l') {a : α} (ha : a ∈ l) : ∃ b ∈ l', R a b := by
  induction h with
  | nil => cases ha
  | cons hab _ ih =>
    rcases List.mem_cons.mp ha with rfl | ha
    · exact ⟨_, List.mem_cons_self, hab⟩
    · obtain ⟨b, hb, hab'⟩ := ih ha
      exact ⟨b, List.mem_cons_of_mem _ hb, hab'⟩

section Comprehensions

variable {α β ε : Type} {f : α → Except ε β} {e : ε} {l : List α}

theorem mapM_eq_ok_iff {l' : List β} :
    l.mapM f = .ok l' ↔ List.Forall₂ (fun a b ↦ f a = .ok b) l l' := by
  induction l generalizing l' with
  | nil =>
    rw [List.forall₂_nil_left_iff, List.mapM_nil]
    exact ⟨fun h ↦ (Except.ok.inj h).symm, fun h ↦ h ▸ rfl⟩
  | cons a l ih =>
    rw [List.mapM_cons, List.forall₂_cons_left_iff]
    rcases hfa : f a with e | b
    · constructor
      · intro h
        cases h
      · rintro ⟨b, _, hb, -⟩
        cases hb
    rcases hrest : l.mapM f with e | rest
    · constructor
      · intro h
        cases h
      · rintro ⟨_, l', -, hl', -⟩
        rw [ih.mpr hl'] at hrest
        cases hrest
    constructor
    · intro h
      exact ⟨b, rest, rfl, ih.mp hrest, (Except.ok.inj h).symm⟩
    · rintro ⟨_, l', hb, hl', rfl⟩
      obtain rfl := Except.ok.inj hb
      rw [← hrest, ih.mpr hl']
      rfl

theorem mapM_congr {g : α → Except ε β} (h : ∀ a ∈ l, f a = g a) : l.mapM f = l.mapM g := by
  induction l with
  | nil => rfl
  | cons a l ih =>
    rw [List.mapM_cons, List.mapM_cons, h a List.mem_cons_self,
      ih fun b hb ↦ h b (List.mem_cons_of_mem a hb)]

theorem mapM_eq_ok {g : α → β} (h : ∀ a ∈ l, f a = .ok (g a)) : l.mapM f = .ok (l.map g) :=
  mapM_eq_ok_iff.mpr (List.forall₂_map_right_iff.mpr (List.forall₂_same.mpr h))

/-- What is raised is raised by the first element that raises. -/
theorem mapM_eq_error_iff :
    l.mapM f = .error e ↔ ∃ pre a post, l = pre ++ a :: post ∧ (∀ b ∈ pre, ∃ c, f b = .ok c) ∧
      f a = .error e := by
  induction l with
  | nil =>
    constructor
    · intro h
      cases h
    · rintro ⟨pre, a, post, h, -⟩
      simp at h
  | cons a l ih =>
    rw [List.mapM_cons]
    rcases hfa : f a with e' | b
    · constructor
      · intro h
        obtain rfl := Except.error.inj h
        exact ⟨[], a, l, rfl, by simp, hfa⟩
      · rintro ⟨pre, a', post, hsplit, hpre, ha'⟩
        rcases pre with _ | ⟨p, pre⟩
        · obtain ⟨rfl, -⟩ := List.cons.inj hsplit
          rw [Except.error.inj (hfa.symm.trans ha')]
          rfl
        · obtain ⟨rfl, -⟩ := List.cons.inj hsplit
          obtain ⟨c, hc⟩ := hpre a List.mem_cons_self
          rw [hc] at hfa
          cases hfa
    · have hcons : (do let rest ← l.mapM f; pure (b :: rest)) = .error e ↔ l.mapM f = .error e := by
        rcases l.mapM f with e' | rest
        · exact Iff.rfl
        · constructor <;> intro h <;> cases h
      refine hcons.trans (ih.trans ⟨?_, ?_⟩)
      · rintro ⟨pre, a', post, rfl, hpre, ha'⟩
        exact ⟨a :: pre, a', post, rfl, List.forall_mem_cons.mpr ⟨⟨b, hfa⟩, hpre⟩, ha'⟩
      · rintro ⟨pre, a', post, hsplit, hpre, ha'⟩
        rcases pre with _ | ⟨p, pre⟩
        · obtain ⟨rfl, -⟩ := List.cons.inj hsplit
          rw [ha'] at hfa
          cases hfa
        · obtain ⟨rfl, rfl⟩ := List.cons.inj hsplit
          exact ⟨pre, a', post, rfl, fun c hc ↦ hpre c (List.mem_cons_of_mem _ hc), ha'⟩

/-- Where only one error can be raised, an element that raises it is enough. -/
theorem mapM_eq_error (h : ∀ a ∈ l, (∃ b, f a = .ok b) ∨ f a = .error e)
    (hex : ∃ a ∈ l, f a = .error e) : l.mapM f = .error e := by
  rcases hmap : l.mapM f with e' | l'
  · obtain ⟨pre, a, post, rfl, -, ha⟩ := mapM_eq_error_iff.mp hmap
    rcases h a (by simp) with ⟨b, hb⟩ | herror
    · rw [hb] at ha
      cases ha
    · exact congrArg _ (Except.error.inj (ha.symm.trans herror))
  · obtain ⟨a, ha, herror⟩ := hex
    obtain ⟨b, -, hb⟩ := exists_of_forall₂ (mapM_eq_ok_iff.mp hmap) ha
    rw [herror] at hb
    cases hb

end Comprehensions

end Recdyud
