import Recdyud.Py

/-!
# Python strings

A `str` is the list of its characters. Indices into it are never negative here, so slices are plain
list operations, as they are for `bytes`.
-/

namespace Recdyud

/-- `s[i:j]` for indices that are not negative -/
def substring (s : Str) (i j : ℕ) : Str := (s.take j).drop i

/-- `s[-n:]` for a positive `n` -/
def lastChars (s : Str) (n : ℕ) : Str := s.drop (s.length - n)

/-- `sep.join(parts)` -/
def join (sep : Str) (parts : List Str) : Str := List.intercalate sep parts

/-- Slices of equal length, one behind the other, are the front of the string. -/
theorem flatMap_substring (s : Str) (width k : ℕ) :
    ((List.range k).flatMap fun i ↦ substring s (width * i) (width * i + width))
      = s.take (width * k) := by
  induction k with
  | zero => rfl
  | succ k ih =>
    rw [List.range_succ, List.flatMap_append, ih, List.flatMap_singleton, substring,
      List.drop_take, Nat.add_sub_cancel_left, ← List.take_add, Nat.mul_succ]

theorem mem_join {sep : Str} {parts : List Str} {c : Char} (h : c ∈ join sep parts) :
    c ∈ sep ∨ ∃ p ∈ parts, c ∈ p := by
  induction parts with
  | nil => simp [join] at h
  | cons p parts ih =>
    rcases eq_or_ne parts [] with rfl | hne
    · rw [join, List.intercalate_singleton] at h
      exact .inr ⟨p, List.mem_cons_self, h⟩
    · rw [join, List.intercalate_cons_of_ne_nil hne, ← join, List.mem_append, List.mem_append] at h
      rcases h with (hp | hsep) | hrest
      · exact .inr ⟨p, List.mem_cons_self, hp⟩
      · exact .inl hsep
      · exact (ih hrest).imp_right fun ⟨q, hq, hc⟩ ↦ ⟨q, List.mem_cons_of_mem p hq, hc⟩

/-- Joined by a character that stands in no part, the parts come back without it. -/
theorem filter_join {sep : Char} {parts : List Str} (h : ∀ p ∈ parts, sep ∉ p) :
    (join [sep] parts).filter (· ≠ sep) = parts.flatten := by
  have hpart : ∀ p ∈ parts, p.filter (· ≠ sep) = p := by
    intro p hp
    refine List.filter_eq_self.mpr fun c hc ↦ decide_eq_true ?_
    rintro rfl
    exact h p hp hc
  induction parts with
  | nil => rfl
  | cons p parts ih =>
    obtain ⟨hp, hrest⟩ := List.forall_mem_cons.mp hpart
    specialize ih (fun q hq ↦ h q (List.mem_cons_of_mem p hq)) hrest
    rcases eq_or_ne parts [] with rfl | hne
    · rw [join, List.intercalate_singleton, hp, List.flatten_singleton]
    · rw [join, List.intercalate_cons_of_ne_nil hne, List.filter_append, List.filter_append, hp,
        ← join, ih, List.flatten_cons]
      simp

theorem lastChars_append {s t : Str} {n : ℕ} (h : t.length = n) : lastChars (s ++ t) n = t := by
  rw [lastChars, List.length_append, h, Nat.add_sub_cancel, List.drop_left]

/-- What is joined ends in its last part. -/
theorem exists_join_concat (sep : Str) (parts : List Str) (p : Str) :
    ∃ front, join sep (parts ++ [p]) = front ++ p := by
  induction parts with
  | nil => exact ⟨[], List.intercalate_singleton⟩
  | cons q parts ih =>
    obtain ⟨front, hfront⟩ := ih
    refine ⟨q ++ sep ++ front, ?_⟩
    rw [List.cons_append, join, List.intercalate_cons_of_ne_nil (by simp), ← join, hfront]
    simp only [List.append_assoc]

/-! ## Runs -/

section Runs

variable {p : Char → Bool} {s t : Str}

theorem dropWhile_eq_self (h : ∀ c ∈ s.head?, ¬p c) : s.dropWhile p = s := by
  rcases s with _ | ⟨c, s⟩
  · rfl
  · exact List.dropWhile_cons_of_neg (h c rfl)

theorem takeWhile_eq_nil (h : ∀ c ∈ s.head?, ¬p c) : s.takeWhile p = [] := by
  rcases s with _ | ⟨c, s⟩
  · rfl
  · exact List.takeWhile_cons_of_neg (h c rfl)

/-- A run ends where a character comes that `p` does not hold of. -/
theorem takeWhile_append_of_head (hs : ∀ c ∈ s, p c) (ht : ∀ c ∈ t.head?, ¬p c) :
    (s ++ t).takeWhile p = s := by
  rw [List.takeWhile_append_of_pos hs, takeWhile_eq_nil ht, List.append_nil]

theorem dropWhile_append_of_head (hs : ∀ c ∈ s, p c) (ht : ∀ c ∈ t.head?, ¬p c) :
    (s ++ t).dropWhile p = t := by
  rw [List.dropWhile_append_of_pos hs, dropWhile_eq_self ht]

end Runs

/-! ## Trimming -/

/-- What `p` holds of is taken away at both ends. -/
def trim (p : Char → Bool) (s : Str) : Str := (s.dropWhile p).rdropWhile p

section Trim

variable {p : Char → Bool} {s w w' : Str}

theorem trim_of_forall (h : ∀ c ∈ s, p c) : trim p s = [] := by
  rw [trim, List.dropWhile_eq_nil_iff.mpr h, List.rdropWhile_nil]

/-- What is around a text that does not begin or end so. -/
theorem trim_append (hw : ∀ c ∈ w, p c) (hw' : ∀ c ∈ w', p c) (hhead : ∀ c ∈ s.head?, ¬p c)
    (hlast : ∀ c ∈ s.getLast?, ¬p c) : trim p (w ++ s ++ w') = s := by
  rcases eq_or_ne s [] with rfl | hne
  · refine trim_of_forall fun c hc ↦ ?_
    simp only [List.append_nil, List.mem_append] at hc
    exact hc.elim (hw c) (hw' c)
  · have hdrop : (w ++ s ++ w').dropWhile p = s ++ w' := by
      obtain ⟨c, rest, rfl⟩ := List.exists_cons_of_ne_nil hne
      rw [List.append_assoc, List.dropWhile_append_of_pos hw, List.cons_append,
        List.dropWhile_cons_of_neg (hhead c rfl)]
    obtain ⟨front, c, rfl⟩ := (List.eq_nil_or_concat' s).resolve_left hne
    have hc : ¬p c := hlast c (by simp)
    rw [trim, hdrop, List.rdropWhile, List.reverse_append, List.dropWhile_append_of_pos,
      List.reverse_concat, List.dropWhile_cons_of_neg hc, List.reverse_cons, List.reverse_reverse]
    intro d hd
    exact hw' d (List.mem_reverse.mp hd)

theorem trim_eq_self (hhead : ∀ c ∈ s.head?, ¬p c) (hlast : ∀ c ∈ s.getLast?, ¬p c) :
    trim p s = s := by
  simpa using @trim_append p s [] [] (by simp) (by simp) hhead hlast

theorem trim_of_not_mem (h : ∀ c ∈ s, ¬p c) : trim p s = s :=
  trim_eq_self (fun c hc ↦ h c (List.mem_of_mem_head? hc))
    fun c hc ↦ h c (List.mem_of_getLast? hc)

end Trim

/-! ## Numbers as text -/

/-- `str(n)` -/
def str (n : ℕ) : Str := Nat.toDigits 10 n

/-- `f"{n:0{width}d}"` -/
def zeroPadded (width n : ℕ) : Str := (str n).leftpad width '0'

/-- The number that a string of the digits `0` to `9` stands for. -/
def decimalValue (s : Str) : ℕ := Nat.ofDigitChars 10 s 0

theorem str_ne_nil (n : ℕ) : str n ≠ [] := Nat.toDigits_ne_nil

theorem isDigit_of_mem_str {n : ℕ} {c : Char} (h : c ∈ str n) : c.isDigit :=
  Nat.isDigit_of_mem_toDigits (by decide) (by decide) h

@[simp] theorem decimalValue_str (n : ℕ) : decimalValue (str n) = n :=
  Nat.ofDigitChars_ten_toDigits

theorem decimalValue_append (s t : Str) :
    decimalValue (s ++ t) = 10 ^ t.length * decimalValue s + decimalValue t := by
  rw [decimalValue, Nat.ofDigitChars_append, Nat.ofDigitChars_eq_ofDigitChars_zero]
  rfl

/-- Leading zeros do not change the number. -/
theorem decimalValue_replicate_zero_append (k : ℕ) (s : Str) :
    decimalValue (List.replicate k '0' ++ s) = decimalValue s := by
  rw [decimalValue_append, decimalValue, Nat.ofDigitChars_replicate_zero, Nat.mul_zero,
    Nat.mul_zero, Nat.zero_add]

theorem decimalValue_concat (s : Str) (c : Char) :
    decimalValue (s ++ [c]) = 10 * decimalValue s + (c.toNat - 48) := by
  rw [decimalValue_append]
  simp [decimalValue, Nat.ofDigitChars_cons]

theorem toNat_of_isDigit {c : Char} (h : c.isDigit) : 48 ≤ c.toNat ∧ c.toNat ≤ 57 := by
  rw [Char.isDigit, Bool.and_eq_true, decide_eq_true_eq, decide_eq_true_eq] at h
  exact h

theorem decimalValue_lt {s : Str} (h : ∀ c ∈ s, c.isDigit) : decimalValue s < 10 ^ s.length := by
  induction s using List.reverseRecOn with
  | nil => decide
  | append_singleton s c ih =>
    have hs := ih fun d hd ↦ h d (List.mem_append_left [c] hd)
    have hc := toNat_of_isDigit (h c (List.mem_append_right s List.mem_cons_self))
    rw [decimalValue_concat, List.length_append, List.length_singleton, Nat.pow_succ]
    omega

/-- Strings of the same number of digits that stand for the same number are the same. -/
theorem eq_of_decimalValue_eq {s t : Str} (hs : ∀ c ∈ s, c.isDigit) (ht : ∀ c ∈ t, c.isDigit)
    (hlen : s.length = t.length) (h : decimalValue s = decimalValue t) : s = t := by
  induction s using List.reverseRecOn generalizing t with
  | nil => exact (List.length_eq_zero_iff.mp hlen.symm).symm
  | append_singleton s c ih =>
    rcases List.eq_nil_or_concat' t with rfl | ⟨t, d, rfl⟩
    · simp at hlen
    have hc := toNat_of_isDigit (hs c (List.mem_append_right s List.mem_cons_self))
    have hd := toNat_of_isDigit (ht d (List.mem_append_right t List.mem_cons_self))
    rw [decimalValue_concat, decimalValue_concat] at h
    have hcd : c = d := Char.toNat_inj.mp (by omega)
    have hst : s = t := by
      refine ih (fun x hx ↦ hs x (List.mem_append_left [c] hx))
        (fun x hx ↦ ht x (List.mem_append_left [d] hx)) ?_ (by omega)
      simpa using hlen
    rw [hcd, hst]

@[simp] theorem decimalValue_zeroPadded (width n : ℕ) : decimalValue (zeroPadded width n) = n := by
  rw [zeroPadded, List.leftpad, decimalValue_replicate_zero_append, decimalValue_str]

theorem isDigit_of_mem_zeroPadded {width n : ℕ} {c : Char} (h : c ∈ zeroPadded width n) :
    c.isDigit := by
  rcases List.mem_append.mp h with hzero | hdigit
  · rw [List.eq_of_mem_replicate hzero]
    decide
  · exact isDigit_of_mem_str hdigit

/-- A number of at most `width` digits fills the width exactly. -/
theorem length_zeroPadded {width n : ℕ} (hpos : 0 < width) (h : n < 10 ^ width) :
    (zeroPadded width n).length = width := by
  rw [zeroPadded, List.length_leftpad]
  exact max_eq_left ((Nat.length_toDigits_le_iff (by decide) hpos).mpr h)

end Recdyud
