import Recdyud.Text

/-!
# Card ids

The answer to the id command declares in byte 6 how many ids it holds, ten bytes each from byte 7
on; behind them stand the two status bytes SW1 and SW2. `parse_id_response` checks every entry
against the length of the whole answer, status bytes included, so the last of several ids may be cut
by up to two bytes without being noticed (`rejectsTruncation_iff`).

The number printed on a card is 20 digits wide. Its last four digits are all that `masked` shows,
and they depend on the check code alone.
-/

namespace Recdyud

/-- `bcas.CardError` -/
structure CardError where
  message : String
  deriving DecidableEq, Repr

structure CardId where
  id48 : ℕ
  checkCode : ℕ
  deriving DecidableEq, Repr

namespace CardId

/-- The 20-digit number printed on the card, grouped by 4 digits. -/
def number (self : CardId) : Str :=
  let digits := zeroPadded 20 (self.id48 * 100000 + self.checkCode)
  join ['-'] ((pyRange 0 20 4).map fun i ↦ substring digits i (i + 4))

def masked (self : CardId) : Str := "XXXX-XXXX-XXXX-XXXX-".toList ++ lastChars self.number 4

/-- The card a number was printed for. -/
def ofNumber (s : Str) : CardId :=
  let n := decimalValue (s.filter (· ≠ '-'))
  ⟨n / 100000, n % 100000⟩

/-- The fields are as wide as in the answer of the card. -/
structure InRange (c : CardId) : Prop where
  id48_lt : c.id48 < 2 ^ 48
  checkCode_lt : c.checkCode < 2 ^ 16

section Number

variable {c : CardId}

/-- The digits before they are grouped. -/
def digits (c : CardId) : Str := zeroPadded 20 (c.id48 * 100000 + c.checkCode)

/-- The groups of four digits. -/
def groups (c : CardId) : List Str :=
  (List.range 5).map fun i ↦ substring c.digits (4 * i) (4 * i + 4)

theorem number_eq (c : CardId) : c.number = join ['-'] c.groups := rfl

theorem isDigit_of_mem_digits {ch : Char} (h : ch ∈ c.digits) : ch.isDigit :=
  isDigit_of_mem_zeroPadded h

theorem InRange.length_digits (h : c.InRange) : c.digits.length = 20 := by
  refine length_zeroPadded (by decide) ?_
  have := h.id48_lt
  have := h.checkCode_lt
  omega

theorem isDigit_of_mem_groups {g : Str} (hg : g ∈ c.groups) {ch : Char} (h : ch ∈ g) :
    ch.isDigit := by
  obtain ⟨i, -, rfl⟩ := List.mem_map.mp hg
  exact isDigit_of_mem_digits (List.mem_of_mem_take (List.mem_of_mem_drop h))

theorem InRange.length_of_mem_groups (h : c.InRange) {g : Str} (hg : g ∈ c.groups) :
    g.length = 4 := by
  obtain ⟨i, hi, rfl⟩ := List.mem_map.mp hg
  have := List.mem_range.mp hi
  rw [substring, List.length_drop, List.length_take, h.length_digits]
  omega

theorem InRange.flatten_groups (h : c.InRange) : c.groups.flatten = c.digits := by
  rw [groups, ← List.flatMap_def, flatMap_substring]
  exact List.take_of_length_le (by rw [h.length_digits])

/-- Without its hyphens a number is the digits again. -/
theorem InRange.filter_number (h : c.InRange) : c.number.filter (· ≠ '-') = c.digits := by
  rw [number_eq, filter_join, h.flatten_groups]
  intro g hg hmem
  exact absurd (isDigit_of_mem_groups hg hmem) (by decide)

theorem InRange.ofNumber_number (h : c.InRange) : ofNumber c.number = c := by
  have hcheck := h.checkCode_lt
  rw [ofNumber, h.filter_number, digits, decimalValue_zeroPadded]
  rw [CardId.mk.injEq]
  constructor <;> omega

/-- The last group of a number. -/
theorem InRange.lastChars_number (h : c.InRange) :
    lastChars c.number 4 = lastChars c.digits 4 := by
  have hlast : substring c.digits 16 20 = lastChars c.digits 4 := by
    rw [substring, List.take_of_length_le h.length_digits.le, lastChars, h.length_digits]
  have hgroups : c.groups = (List.range 4).map (fun i ↦ substring c.digits (4 * i) (4 * i + 4))
      ++ [lastChars c.digits 4] := by
    rw [groups, List.range_succ, List.map_append, ← hlast]
    rfl
  have hlen : (lastChars c.digits 4).length = 4 := by
    rw [lastChars, List.length_drop, h.length_digits]
  obtain ⟨front, hfront⟩ := exists_join_concat ['-']
    ((List.range 4).map fun i ↦ substring c.digits (4 * i) (4 * i + 4)) (lastChars c.digits 4)
  rw [number_eq, hgroups, hfront, lastChars_append hlen]

/-- The last four digits are those of the check code. -/
theorem InRange.lastChars_digits (h : c.InRange) :
    lastChars c.digits 4 = zeroPadded 4 (c.checkCode % 10000) := by
  have hlen := h.length_digits
  have hlast : (lastChars c.digits 4).length = 4 := by
    rw [lastChars, List.length_drop, hlen]
  have hdigit : ∀ ch ∈ lastChars c.digits 4, ch.isDigit := fun ch hch ↦
    isDigit_of_mem_digits (List.mem_of_mem_drop hch)
  refine eq_of_decimalValue_eq hdigit (fun ch ↦ isDigit_of_mem_zeroPadded) ?_ ?_
  · exact hlast.trans (length_zeroPadded (by decide) (Nat.mod_lt _ (by decide))).symm
  · have hvalue : decimalValue c.digits
        = 10 ^ 4 * decimalValue (c.digits.take 16) + decimalValue (lastChars c.digits 4) := by
      have hsplit : c.digits = c.digits.take 16 ++ lastChars c.digits 4 := by
        rw [lastChars, hlen, List.take_append_drop]
      conv_lhs => rw [hsplit]
      rw [decimalValue_append, hlast]
    have hlt : decimalValue (lastChars c.digits 4) < 10 ^ 4 := by
      simpa [hlast] using decimalValue_lt hdigit
    rw [digits, decimalValue_zeroPadded, ← digits] at hvalue
    rw [decimalValue_zeroPadded]
    omega

/-- **Card numbers are lossless, and masked ones show only the check code**: a number is five
groups of four digits from which the card can be recovered, and cards with the same check code have
the same masked number. -/
theorem number_lossless_masked (h : c.InRange) :
    (∃ groups : List Str, groups.length = 5 ∧ (∀ g ∈ groups, g.length = 4 ∧ ∀ ch ∈ g, ch.isDigit)
      ∧ c.number = join ['-'] groups)
    ∧ ofNumber c.number = c
    ∧ (∀ c' : CardId, c'.InRange → c'.number = c.number → c' = c)
    ∧ ∀ c' : CardId, c'.InRange → c'.checkCode = c.checkCode → c'.masked = c.masked := by
  refine ⟨⟨c.groups, by simp [groups], fun g hg ↦ ?_, number_eq c⟩, h.ofNumber_number, ?_, ?_⟩
  · exact ⟨h.length_of_mem_groups hg, fun ch hch ↦ isDigit_of_mem_groups hg hch⟩
  · intro c' h' hnumber
    rw [← h'.ofNumber_number, hnumber, h.ofNumber_number]
  · intro c' h' hcheck
    have hlast : lastChars c'.number 4 = lastChars c.number 4 := by
      rw [h'.lastChars_number, h.lastChars_number, h'.lastChars_digits, h.lastChars_digits, hcheck]
    exact congrArg ("XXXX-XXXX-XXXX-XXXX-".toList ++ ·) hlast

/-- The largest card there is, next to the smallest one with its check code. -/
theorem number_lossless_masked_largest :
    ofNumber (number ⟨281474976710655, 65535⟩) = ⟨281474976710655, 65535⟩
    ∧ masked ⟨0, 65535⟩ = masked ⟨281474976710655, 65535⟩ := by
  have h : InRange ⟨281474976710655, 65535⟩ := ⟨by norm_num, by norm_num⟩
  have h' : InRange ⟨0, 65535⟩ := ⟨by norm_num, by norm_num⟩
  obtain ⟨-, hof, -, hmasked⟩ := number_lossless_masked h
  exact ⟨hof, hmasked _ h' rfl⟩

end Number

end CardId

/-! ## The answer to the id command -/

/-- An exception out of the card layer; what the transport raises passes through. -/
inductive CardRaised where
  | indexError
  | cardError (e : CardError)
  deriving DecidableEq, Repr

/-- The id in the ten bytes from `p` on. -/
def cardIdAt (r : Bytes) (p : ℕ) : CardId :=
  ⟨intFromBytes (slice r (p + 2) (p + 8)), intFromBytes (slice r (p + 8) (p + 10))⟩

/-- One turn of the loop of `parse_id_response`. -/
def parseIdEntry (r : Bytes) (i : ℕ) : Except CardRaised CardId :=
  let p := 7 + i * 10
  if p + 10 > r.length then
    .error (.cardError ⟨"IDI response truncated"⟩)
  else
    .ok (cardIdAt r p)

def parseIdResponse (r : Bytes) : Except CardRaised (List CardId) :=
  if r.length < 19 then
    .error (.cardError ⟨s!"IDI response too short ({r.length} bytes)"⟩)
  else
    match index r 6 with
    | .error _ => .error .indexError
    | .ok count => (List.range count.toNat).mapM (parseIdEntry r)

section ParseId

variable {r d : Bytes} {n sw1 sw2 : UInt8} {p : ℕ}

theorem parseIdEntry_of_le {i : ℕ} (h : 7 + i * 10 + 10 ≤ r.length) :
    parseIdEntry r i = .ok (cardIdAt r (7 + i * 10)) :=
  if_neg (not_lt.mpr h)

theorem parseIdEntry_of_lt {i : ℕ} (h : r.length < 7 + i * 10 + 10) :
    parseIdEntry r i = .error (.cardError ⟨"IDI response truncated"⟩) :=
  if_pos h

/-- What passes both checks. -/
theorem parseIdResponse_of_le (hn : r[6]? = some n) (hfixed : 19 ≤ r.length)
    (hall : 7 + 10 * n.toNat ≤ r.length) :
    parseIdResponse r = .ok ((List.range n.toNat).map fun i ↦ cardIdAt r (7 + i * 10)) := by
  rw [parseIdResponse, if_neg (not_lt.mpr hfixed), index_eq_ok_of_getElem? hn]
  refine mapM_eq_ok fun i hi ↦ parseIdEntry_of_le ?_
  have := List.mem_range.mp hi
  omega

/-- What fails one of them. -/
theorem parseIdResponse_of_lt (hn : r[6]? = some n)
    (h : r.length < 19 ∨ r.length < 7 + 10 * n.toNat) :
    ∃ e, parseIdResponse r = .error (.cardError e) := by
  rw [parseIdResponse]
  rcases Nat.lt_or_ge r.length 19 with hlt | hge
  · exact ⟨_, if_pos hlt⟩
  · have hall : r.length < 7 + 10 * n.toNat := h.resolve_left (not_lt.mpr hge)
    rw [if_neg (not_lt.mpr hge), index_eq_ok_of_getElem? hn]
    refine ⟨_, mapM_eq_error (fun i _ ↦ ?_) ⟨n.toNat - 1, ?_, parseIdEntry_of_lt ?_⟩⟩
    · rcases Nat.lt_or_ge r.length (7 + i * 10 + 10) with hlt | hle
      · exact .inr (parseIdEntry_of_lt hlt)
      · exact .inl ⟨_, parseIdEntry_of_le hle⟩
    · exact List.mem_range.mpr (by omega)
    · omega

theorem cardIdAt_append {t : Bytes} (h : p + 10 ≤ d.length) :
    cardIdAt (d ++ t) p = cardIdAt d p := by
  rw [cardIdAt, cardIdAt, slice_append_left (by omega), slice_append_left h]

/-- The data part `d` of an answer that declares `n` ids: complete, all of them are returned;
otherwise the answer is rejected. What is returned is read from the data part alone. -/
structure RejectsTruncation (d : Bytes) (n : ℕ) (sw1 sw2 : UInt8) : Prop where
  complete : 7 + 10 * n ≤ d.length → parseIdResponse (d ++ [sw1, sw2])
    = .ok ((List.range n).map fun i ↦ cardIdAt d (7 + 10 * i))
  truncated : d.length < 7 + 10 * n → ∃ e, parseIdResponse (d ++ [sw1, sw2]) = .error (.cardError e)
  noStatus : ∀ ids, parseIdResponse (d ++ [sw1, sw2]) = .ok ids →
    ∀ id ∈ ids, ∃ i < n, 7 + 10 * i + 10 ≤ d.length ∧ id = cardIdAt d (7 + 10 * i)

theorem parseIdResponse_of_complete (hn : d[6]? = some n) (hpos : 1 ≤ n.toNat)
    (h : 7 + 10 * n.toNat ≤ d.length) : parseIdResponse (d ++ [sw1, sw2])
      = .ok ((List.range n.toNat).map fun i ↦ cardIdAt d (7 + 10 * i)) := by
  have hlen : (d ++ [sw1, sw2]).length = d.length + 2 := by simp
  rw [parseIdResponse_of_le (n := n) ?_ (by omega) (by omega)]
  · refine congrArg _ (List.map_congr_left fun i hi ↦ ?_)
    have := List.mem_range.mp hi
    rw [Nat.mul_comm i, cardIdAt_append (by omega)]
  · rwa [List.getElem?_append_left (by omega)]

/-- **Truncation is noticed exactly if** there is one id only, or nothing is missing, or more than
the two bytes are missing that the status bytes make up for. -/
theorem rejectsTruncation_iff (hn : d[6]? = some n) (hpos : 1 ≤ n.toNat) :
    RejectsTruncation d n.toNat sw1 sw2
      ↔ n.toNat = 1 ∨ 7 + 10 * n.toNat ≤ d.length ∨ d.length + 2 < 7 + 10 * n.toNat := by
  have hlen : (d ++ [sw1, sw2]).length = d.length + 2 := by simp
  have hseven : 6 < d.length := (List.getElem?_eq_some_iff.mp hn).1
  have hn' : (d ++ [sw1, sw2])[6]? = some n := by rwa [List.getElem?_append_left hseven]
  constructor
  · intro h
    by_contra hnot
    push Not at hnot
    obtain ⟨hone, hcut, hfit⟩ := hnot
    -- several ids, the last one cut by one or two bytes: both checks pass
    obtain ⟨e, he⟩ := h.truncated hcut
    rw [parseIdResponse_of_le hn' (by omega) (by omega)] at he
    cases he
  · intro h
    rcases Nat.lt_or_ge d.length (7 + 10 * n.toNat) with hcut | hle
    · obtain ⟨e, he⟩ := parseIdResponse_of_lt hn' (by omega)
      exact ⟨fun hle ↦ absurd hle (by omega), fun _ ↦ ⟨e, he⟩, fun ids hids ↦ by simp [he] at hids⟩
    · have hok : parseIdResponse (d ++ [sw1, sw2]) = _ := parseIdResponse_of_complete hn hpos hle
      refine ⟨fun _ ↦ hok, fun hcut ↦ absurd hle (by omega), fun ids hids id hid ↦ ?_⟩
      obtain rfl := Except.ok.inj (hok.symm.trans hids)
      obtain ⟨i, hi, rfl⟩ := List.mem_map.mp hid
      have := List.mem_range.mp hi
      exact ⟨i, this, by omega, rfl⟩

/-- Two ids, complete, and with three bytes missing. -/
theorem rejectsTruncation_twoIds :
    RejectsTruncation ([0, 0, 0, 0, 0, 0, 2] ++ List.replicate 20 0) 2 0x90 0x00 ∧
      RejectsTruncation ([0, 0, 0, 0, 0, 0, 2] ++ List.replicate 17 0) 2 0x90 0x00 :=
  ⟨(rejectsTruncation_iff (n := 2) (by decide) (by decide)).mpr (.inr (.inl (by decide))),
    (rejectsTruncation_iff (n := 2) (by decide) (by decide)).mpr (.inr (.inr (by decide)))⟩

/-- Two ids, the last byte of the second one missing: SW1 takes its place. -/
theorem not_rejectsTruncation_twoIds :
    ¬RejectsTruncation ([0, 0, 0, 0, 0, 0, 2] ++ List.replicate 19 0) 2 0x90 0x00 := by
  intro h
  obtain ⟨e, he⟩ := h.truncated (by decide)
  have hok : parseIdResponse ([0, 0, 0, 0, 0, 0, 2] ++ List.replicate 19 0 ++ [0x90, 0x00])
      = .ok [⟨0, 0⟩, ⟨0, 0x90⟩] := by
    decide
  rw [hok] at he
  cases he

end ParseId

end Recdyud
