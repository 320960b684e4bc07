import Recdyud.Aribstr.CutText
import Recdyud.Ts.Tables

/-!
# Descriptor loops that are cut

A descriptor loop may announce more bytes than there are, and may announce a descriptor that goes on
behind its own end. `cut` takes the whole descriptors off the front of what there is; what is left
is nothing, a tag, or the beginning of a descriptor. Whatever follows goes on from there
(`descriptors_append`).

For each of the three descriptors that the parsers read, a predicate says when it makes no
difference which bytes follow. It is exact: where it fails, two continuations of the same length
give different results.
-/

namespace Recdyud

open Aribstr

/-! ## Continuations -/

section Continuation

variable {j k n : ℕ} {u s : Bytes}

theorem slice_append {i : ℕ} (hi : i ≤ u.length) (n : ℕ) :
    slice (u ++ s) i (i + n) = slice u i (i + n) ++ s.take (i + n - u.length) := by
  rw [slice_add, slice_add, List.drop_append_of_le_length hi, List.take_append, List.length_drop]
  congr 2
  omega

/-- A string that begins with a given one, as far as `j` bytes go, and ends with another. -/
theorem take_drop_continuation {σ ρ : Bytes} (hσ : σ.length = min k j)
    (hρ : ρ.length = k - min k j) :
    (σ ++ ρ).length = k ∧ (σ ++ ρ).take j = σ ∧ (σ ++ ρ).drop j = ρ := by
  refine ⟨?_, ?_, ?_⟩
  · rw [List.length_append]
    omega
  · rw [List.take_append, List.take_of_length_le (by omega)]
    rcases Nat.le_total j k with h | h
    · rw [show j - σ.length = 0 by omega, List.take_zero, List.append_nil]
    · rw [List.length_eq_zero_iff.mp (show ρ.length = 0 by omega), List.take_nil, List.append_nil]
  · rw [List.drop_append, List.drop_of_length_le (by omega), List.nil_append]
    rcases Nat.le_total j k with h | h
    · rw [show j - σ.length = 0 by omega, List.drop_zero]
    · rw [List.length_eq_zero_iff.mp (show ρ.length = 0 by omega), List.drop_nil]

/-- Every string of the right length is the front of some longer one. -/
theorem exists_take_eq {σ : Bytes} (hσ : σ.length = min k j) :
    ∃ s : Bytes, s.length = k ∧ s.take j = σ := by
  obtain ⟨hlen, htake, -⟩ := take_drop_continuation hσ
    (ρ := List.replicate (k - min k j) 0) (by rw [List.length_replicate])
  exact ⟨_, hlen, htake⟩

/-- The text of `n` bytes at position `i` of `u` is settled for `m` bytes behind `u`. -/
def CutText (eucJis2004 : Codec) (u : Bytes) (m i n : ℕ) : Prop :=
  TextSettled eucJis2004 (slice u i (i + n)) (min m (i + n - u.length))

instance (eucJis2004 : Codec) (u : Bytes) (m i n : ℕ) : Decidable (CutText eucJis2004 u m i n) :=
  inferInstanceAs (Decidable (TextSettled _ _ _))

variable {eucJis2004 : Codec} {m i : ℕ}

theorem CutText.text_eq (h : CutText eucJis2004 u m i n) (hi : i ≤ u.length) {s s' : Bytes}
    (hs : s.length = m) (hs' : s'.length = m) :
    text eucJis2004 (slice (u ++ s) i (i + n)) = text eucJis2004 (slice (u ++ s') i (i + n)) := by
  rw [slice_append hi, slice_append hi]
  refine textSettled_iff.mp h _ _ ?_ ?_ <;> rw [List.length_take] <;> omega

theorem exists_of_not_cutText (h : ¬CutText eucJis2004 u m i n) (hi : i ≤ u.length) :
    ∃ s s' : Bytes, s.length = m ∧ s'.length = m
      ∧ text eucJis2004 (slice (u ++ s) i (i + n))
        ≠ text eucJis2004 (slice (u ++ s') i (i + n)) := by
  obtain ⟨σ, σ', hσ, hσ', hne⟩ := exists_of_not_textSettled h
  obtain ⟨s, hs, htake⟩ := exists_take_eq hσ
  obtain ⟨s', hs', htake'⟩ := exists_take_eq hσ'
  refine ⟨s, s', hs, hs', ?_⟩
  rwa [slice_append hi, slice_append hi, htake, htake']

end Continuation

/-! ## Descriptors, from the front -/

section Descriptors

theorem descriptorsFrom_eq_drop (data : Bytes) (i : ℕ) :
    descriptorsFrom data i = descriptors (data.drop i) := by
  suffices key : ∀ j, descriptorsFrom data (i + j) = descriptorsFrom (data.drop i) j from key 0
  intro j
  induction j using descriptorsFrom.induct (data.drop i) with
  | case1 j h ih =>
    rw [List.length_drop] at h
    have hget (k : ℕ) : (data.drop i).getD k 0 = data.getD (i + k) 0 := by
      rw [List.getD_eq_getElem?_getD, List.getElem?_drop, List.getD_eq_getElem?_getD]
    have hslice (k n : ℕ) : slice (data.drop i) k (k + n) = slice data (i + k) (i + k + n) := by
      rw [slice_add, slice_add, List.drop_drop]
    rw [descriptorsFrom.eq_def (data.drop i), if_pos (by rw [List.length_drop]; omega),
      descriptorsFrom, if_pos (by omega), ← ih]
    simp only [hget, hslice]
    simp only [Nat.add_assoc]
  | case2 j h =>
    rw [List.length_drop] at h
    rw [descriptorsFrom, if_neg (by omega), descriptorsFrom,
      if_neg (by rw [List.length_drop]; omega)]

theorem descriptors_of_length_lt {data : Bytes} (h : data.length < 2) : descriptors data = [] := by
  rw [descriptors, descriptorsFrom, if_neg (by omega)]

theorem descriptors_cons_cons (tag len : UInt8) (w : Bytes) :
    descriptors (tag :: len :: w)
      = (tag, w.take len.toNat) :: descriptors (w.drop len.toNat) := by
  have hlen : 0 + 2 ≤ (tag :: len :: w).length := by simp
  rw [descriptors, descriptorsFrom, if_pos hlen, descriptorsFrom_eq_drop]
  simp only [slice_add]
  rw [Nat.zero_add, Nat.add_comm 2, ← List.drop_drop]
  rfl

theorem length_of_mem_descriptors {data : Bytes} {d : UInt8 × Bytes} (h : d ∈ descriptors data) :
    d.2.length + 2 ≤ data.length := by
  induction hlen : data.length using Nat.strong_induction_on generalizing data with
  | _ n ih =>
    match data, hlen with
    | [], _ => simp [descriptors_of_length_lt] at h
    | [_], _ => simp [descriptors_of_length_lt] at h
    | tag :: len :: w, hlen =>
      rw [List.length_cons, List.length_cons] at hlen
      rw [descriptors_cons_cons, List.mem_cons] at h
      obtain rfl | h := h
      · rw [List.length_take]
        omega
      · have := ih _ (by rw [List.length_drop]; omega) h rfl
        rw [List.length_drop] at this
        omega

/-- The whole descriptors at the front, and what is left. -/
def cut (data : Bytes) : List (UInt8 × Bytes) × Bytes :=
  match data with
  | tag :: len :: w =>
    if len.toNat ≤ w.length then
      ((tag, w.take len.toNat) :: (cut (w.drop len.toNat)).1, (cut (w.drop len.toNat)).2)
    else
      ([], tag :: len :: w)
  | data => ([], data)
termination_by data.length
decreasing_by all_goals simp; omega

theorem descriptors_append (x s : Bytes) :
    descriptors (x ++ s) = (cut x).1 ++ descriptors ((cut x).2 ++ s) := by
  induction x using cut.induct with
  | case1 tag len w h ih =>
    rw [cut, if_pos h, List.cons_append, List.cons_append, descriptors_cons_cons,
      List.take_append_of_le_length h, List.drop_append_of_le_length h, ih]
    rfl
  | case2 tag len w h =>
    rw [cut, if_neg h]
    rfl
  | case3 data h =>
    rw [cut.eq_def]
    split
    · exact absurd rfl (h _ _ _)
    · rfl

/-- What is left, unless it is too short, is a descriptor that is not whole. -/
theorem cut_open (x : Bytes) {tag len : UInt8} {u : Bytes} (h : (cut x).2 = tag :: len :: u) :
    u.length < len.toNat := by
  induction x using cut.induct with
  | case1 tag len w hle ih =>
    rw [cut, if_pos hle] at h
    exact ih h
  | case2 tag len w hlt =>
    rw [cut, if_neg hlt] at h
    cases h
    omega
  | case3 data hshort =>
    rw [cut.eq_def] at h
    split at h
    · exact absurd rfl (hshort _ _ _)
    · exact absurd h (hshort _ _ _)

end Descriptors

/-! ## What is read behind the whole descriptors -/

section Open

variable {β : Type} {read : UInt8 × Bytes → Option β} {own : UInt8} {n k : ℕ} {value : Bytes → β}

/-- What is read behind the whole descriptors, of which `r` is left and which `s` follows. -/
def readOpen (read : UInt8 × Bytes → Option β) (r s : Bytes) : List β :=
  (descriptors (r ++ s)).filterMap read

/-- It is the same for all `k` bytes. -/
def Hidden (read : UInt8 × Bytes → Option β) (r : Bytes) (k : ℕ) : Prop :=
  ∀ s s' : Bytes, s.length = k → s'.length = k → readOpen read r s = readOpen read r s'

/-- Two continuations of `k` bytes give one result each, and these are different. -/
def Shown (read : UInt8 × Bytes → Option β) (r : Bytes) (k : ℕ) : Prop :=
  ∃ (s s' : Bytes) (a a' : β), s.length = k ∧ s'.length = k
    ∧ readOpen read r s = [a] ∧ readOpen read r s' = [a'] ∧ a ≠ a'

/-- A reader of the descriptors with one tag and no fewer than `n` bytes, the first of which shows
in what is read. -/
structure Reader (read : UInt8 × Bytes → Option β) (own : UInt8) (n : ℕ) (value : Bytes → β) :
    Prop where
  two_le : 2 ≤ n
  of_tag_ne : ∀ d : UInt8 × Bytes, d.1 ≠ own → read d = none
  of_short : ∀ d : UInt8 × Bytes, d.2.length < n → read d = none
  of_long : ∀ body : Bytes, n ≤ body.length → read (own, body) = some (value body)
  first_ne : ∀ z z' : Bytes, value (0 :: z) ≠ value (1 :: z')

/-- For `k` bytes behind what is left of the whole descriptors: there is no room for a descriptor to
read, or there is one that `Body` calls settled; it begins with `u`, and up to `m` bytes belong
to it. -/
def OpenSettled (own : UInt8) (n : ℕ) (Body : Bytes → ℕ → Prop) (r : Bytes) (k : ℕ) : Prop :=
  match r with
  | [] => k < n + 2
  | [tag] => tag = own → k < n + 1
  | tag :: len :: u => tag = own → Body u (min k (len.toNat - u.length))

instance (own : UInt8) (n : ℕ) (Body : Bytes → ℕ → Prop) [∀ u m, Decidable (Body u m)] (r : Bytes)
    (k : ℕ) : Decidable (OpenSettled own n Body r k) :=
  match r with
  | [] => inferInstanceAs (Decidable (_ < _))
  | [_] => inferInstanceAs (Decidable (_ → _))
  | _ :: _ :: _ => inferInstanceAs (Decidable (_ → Body _ _))

namespace Reader

variable (h : Reader read own n value)
include h

theorem filterMap_eq_nil {data : Bytes} (hlen : data.length < n + 2) :
    (descriptors data).filterMap read = [] := by
  rw [List.filterMap_eq_nil_iff]
  intro d hd
  have := length_of_mem_descriptors hd
  exact h.of_short d (by omega)

/-- What follows a tag is its length, a body, and nothing that is long enough. -/
theorem readOpen_tag (tag len : UInt8) {s : Bytes} (hs : s.length ≤ 3) :
    readOpen read [tag] (len :: s) = (read (tag, s.take len.toNat)).toList := by
  have := h.two_le
  have hrest : (descriptors (s.drop len.toNat)).filterMap read = [] :=
    h.filterMap_eq_nil (by rw [List.length_drop]; omega)
  rw [readOpen, List.singleton_append, descriptors_cons_cons, List.filterMap_cons, hrest]
  cases read (tag, s.take len.toNat) <;> rfl

/-- What follows the beginning of a descriptor goes on with it, and has nothing behind it that is
long enough. -/
theorem readOpen_body (tag : UInt8) {len : UInt8} {u s : Bytes} (hu : u.length < len.toNat)
    (hs : s.length ≤ 4) :
    readOpen read (tag :: len :: u) s
      = (read (tag, u ++ s.take (len.toNat - u.length))).toList := by
  have := h.two_le
  have hrest : (descriptors ((u ++ s).drop len.toNat)).filterMap read = [] :=
    h.filterMap_eq_nil (by rw [List.length_drop, List.length_append]; omega)
  rw [readOpen, List.cons_append, List.cons_append, descriptors_cons_cons, List.filterMap_cons,
    hrest, List.take_append, List.take_of_length_le hu.le]
  cases read (tag, u ++ s.take (len.toNat - u.length)) <;> rfl

section Settled

variable {Body : Bytes → ℕ → Prop} {r : Bytes}
  (hbody : ∀ u m, Body u m ↔ (n ≤ u.length + m → ∀ σ σ' : Bytes, σ.length = m → σ'.length = m →
    value (u ++ σ) = value (u ++ σ')))
  (hr : ∀ tag len u, r = tag :: len :: u → u.length < len.toNat) (hk : k ≤ 4)
include hbody hr hk

/-- **Settled** is what hides the bytes that follow, when `Body` says it of the descriptor that is
not whole. -/
theorem hidden (hsettled : OpenSettled own n Body r k) : Hidden read r k := by
  match r, hr, hsettled with
  | [], _, hroom =>
    intro s s' hs hs'
    rw [OpenSettled] at hroom
    rw [readOpen, readOpen, List.nil_append, List.nil_append, h.filterMap_eq_nil (by omega),
      h.filterMap_eq_nil (by omega)]
  | [tag], _, hroom =>
    have hnone (s : Bytes) (hs : s.length = k) : readOpen read [tag] s = [] := by
      rcases s with _ | ⟨len, s⟩
      · exact h.filterMap_eq_nil (by simp)
      · rw [List.length_cons] at hs
        rw [h.readOpen_tag tag len (by omega)]
        by_cases htag : tag = own
        · have := hroom htag
          rw [h.of_short]
          · rfl
          · rw [List.length_take]
            omega
        · rw [h.of_tag_ne _ htag]
          rfl
    intro s s' hs hs'
    rw [hnone s hs, hnone s' hs']
  | tag :: len :: u, hr, hopen =>
    have hsame (σ σ' : Bytes) (hσ : σ.length = min k (len.toNat - u.length))
        (hσ' : σ'.length = min k (len.toNat - u.length)) :
        read (tag, u ++ σ) = read (tag, u ++ σ') := by
      by_cases htag : tag = own
      · subst htag
        rcases Nat.lt_or_ge (u.length + min k (len.toNat - u.length)) n with hlt | hge
        · rw [h.of_short, h.of_short] <;> rw [List.length_append] <;> omega
        · rw [h.of_long _ (by rw [List.length_append]; omega),
            h.of_long _ (by rw [List.length_append]; omega),
            (hbody u _).mp (hopen rfl) hge σ σ' hσ hσ']
      · rw [h.of_tag_ne _ htag, h.of_tag_ne _ htag]
    intro s s' hs hs'
    have hu := hr tag len u rfl
    rw [h.readOpen_body tag hu (by omega), h.readOpen_body tag hu (by omega),
      hsame (s.take _) (s'.take _)]
    · rw [List.length_take]
      omega
    · rw [List.length_take]
      omega

/-- What is not settled shows. -/
theorem shown (hnot : ¬OpenSettled own n Body r k) : Shown read r k := by
  have htwo := h.two_le
  have htake (z : Bytes) (hz : z.length ≤ 4) : z.take (255 : UInt8).toNat = z :=
    List.take_of_length_le (hz.trans (by decide))
  match r, hr, hnot with
  | [], _, hroom =>
    -- a whole descriptor, as long as there are bytes
    rw [OpenSettled] at hroom
    have hread (b : UInt8) : readOpen read [] (own :: 255 :: b :: List.replicate (k - 3) 0)
        = [value (b :: List.replicate (k - 3) 0)] := by
      have hlen : (b :: List.replicate (k - 3) (0 : UInt8)).length = k - 2 := by
        rw [List.length_cons, List.length_replicate]
        omega
      have hwhole := h.readOpen_tag own 255 (s := b :: List.replicate (k - 3) 0) (by omega)
      rw [htake _ (by omega), h.of_long _ (by omega)] at hwhole
      exact hwhole
    have hlen (b : UInt8) : (own :: 255 :: b :: List.replicate (k - 3) (0 : UInt8)).length = k := by
      rw [List.length_cons, List.length_cons, List.length_cons, List.length_replicate]
      omega
    exact ⟨_, _, _, _, hlen 0, hlen 1, hread 0, hread 1, h.first_ne _ _⟩
  | [tag], _, hroom =>
    obtain ⟨rfl, hk'⟩ := Classical.not_imp.mp hroom
    have hread (b : UInt8) : readOpen read [tag] (255 :: b :: List.replicate (k - 2) 0)
        = [value (b :: List.replicate (k - 2) 0)] := by
      have hlen : (b :: List.replicate (k - 2) (0 : UInt8)).length = k - 1 := by
        rw [List.length_cons, List.length_replicate]
        omega
      rw [h.readOpen_tag tag 255 (by omega), htake _ (by omega), h.of_long _ (by omega)]
      rfl
    have hlen (b : UInt8) : (255 :: b :: List.replicate (k - 2) (0 : UInt8)).length = k := by
      rw [List.length_cons, List.length_cons, List.length_replicate]
      omega
    exact ⟨_, _, _, _, hlen 0, hlen 1, hread 0, hread 1, h.first_ne _ _⟩
  | tag :: len :: u, hr, hopen =>
    obtain ⟨rfl, hcut⟩ := Classical.not_imp.mp hopen
    rw [hbody] at hcut
    simp only [Classical.not_imp, not_forall] at hcut
    obtain ⟨hlong, σ, σ', hσ, hσ', hne⟩ := hcut
    have hread {s σ : Bytes} (hs : s.length = k)
        (hσ : σ.length = min k (len.toNat - u.length))
        (hfront : s.take (len.toNat - u.length) = σ) :
        readOpen read (tag :: len :: u) s = [value (u ++ σ)] := by
      rw [h.readOpen_body tag (hr tag len u rfl) (by omega), hfront,
        h.of_long _ (by rw [List.length_append]; omega)]
      rfl
    obtain ⟨s, hs, hfront⟩ := exists_take_eq hσ
    obtain ⟨s', hs', hfront'⟩ := exists_take_eq hσ'
    exact ⟨s, s', _, _, hs, hs', hread hs hσ hfront, hread hs' hσ' hfront', hne⟩

end Settled

end Reader

end Open

/-! ## Service descriptors -/

section Service

variable (eucJis2004 : Codec)

/-- For all `m` bytes behind `u`, the descriptor is too short, or provider and name are the same.
The name has its length in front of it; where that comes from behind `u`, nothing may follow it. -/
def ServiceBodySettled (u : Bytes) (m : ℕ) : Prop :=
  let plen := (u.getD 1 0).toNat
  u.length + m < 3 ∨
    2 ≤ u.length ∧ CutText eucJis2004 u m 2 plen ∧
      if 2 + plen < u.length then
        CutText eucJis2004 u m (3 + plen) (u.getD (2 + plen) 0).toNat
      else
        u.length + m ≤ 3 + plen

instance (u : Bytes) (m : ℕ) : Decidable (ServiceBodySettled eucJis2004 u m) :=
  inferInstanceAs (Decidable (_ ∨ _ ∧ _ ∧ if 2 + (u.getD 1 0).toNat < u.length then _ else _))

/-- What is left of the whole descriptors, for `k` bytes behind it. -/
def ServiceSettled : Bytes → ℕ → Prop := OpenSettled 0x48 3 (ServiceBodySettled eucJis2004)

instance (r : Bytes) (k : ℕ) : Decidable (ServiceSettled eucJis2004 r k) :=
  inferInstanceAs (Decidable (OpenSettled _ _ (ServiceBodySettled eucJis2004) r k))

/-- The service that a body of three bytes or more describes. -/
def serviceOf (serviceId : ℕ) (body : Bytes) : ServiceInfo :=
  let plen := (body.getD 1 0).toNat
  { serviceId
    serviceType := (body.getD 0 0).toNat
    name := text eucJis2004
      (slice body (3 + plen) (3 + plen + (body.getD (2 + plen) 0).toNat))
    provider := text eucJis2004 (slice body 2 (2 + plen)) }

variable {eucJis2004} {serviceId k m : ℕ} {u : Bytes}

theorem reader_service :
    Reader (readService eucJis2004 serviceId) 0x48 3 (serviceOf eucJis2004 serviceId) where
  two_le := by decide
  of_tag_ne _ hd := if_neg fun h ↦ hd h.1
  of_short _ hd := if_neg fun h ↦ absurd h.2 (by omega)
  of_long _ h := if_pos ⟨rfl, h⟩
  first_ne _ _ heq := absurd (congrArg ServiceInfo.serviceType heq) Nat.zero_ne_one

theorem getD_append {i : ℕ} (h : i < u.length) (s : Bytes) : (u ++ s).getD i 0 = u.getD i 0 := by
  rw [List.getD_append _ _ _ _ h]

theorem serviceOf_append_eq (h : ServiceBodySettled eucJis2004 u m) (hlong : 3 ≤ u.length + m)
    {s s' : Bytes} (hs : s.length = m) (hs' : s'.length = m) :
    serviceOf eucJis2004 serviceId (u ++ s) = serviceOf eucJis2004 serviceId (u ++ s') := by
  rw [ServiceBodySettled] at h
  obtain ⟨hu, hprovider, hname⟩ := h.resolve_left (not_lt.mpr hlong)
  set plen := (u.getD 1 0).toNat with hplen
  have hnames : text eucJis2004 (slice (u ++ s) (3 + plen)
        (3 + plen + ((u ++ s).getD (2 + plen) 0).toNat))
      = text eucJis2004 (slice (u ++ s') (3 + plen)
        (3 + plen + ((u ++ s').getD (2 + plen) 0).toNat)) := by
    split at hname
    · rename_i hlt
      rw [getD_append hlt, getD_append hlt]
      exact hname.text_eq (by omega) hs hs'
    · have hend (s : Bytes) (hs : s.length = m) (n : ℕ) :
          slice (u ++ s) (3 + plen) (3 + plen + n) = [] := by
        rw [slice_add, List.drop_of_length_le (by rw [List.length_append]; omega), List.take_nil]
      rw [hend s hs, hend s' hs']
  rw [serviceOf, serviceOf]
  simp only [getD_append (show 0 < u.length by omega) _,
    getD_append (show 1 < u.length by omega) _, ← hplen, hprovider.text_eq hu hs hs', hnames]

/-- Where a body is not settled, two of its continuations describe different services. -/
theorem exists_serviceOf_ne (serviceId : ℕ) (h : ¬ServiceBodySettled eucJis2004 u m) :
    3 ≤ u.length + m ∧ ∃ σ σ' : Bytes, σ.length = m ∧ σ'.length = m
      ∧ serviceOf eucJis2004 serviceId (u ++ σ) ≠ serviceOf eucJis2004 serviceId (u ++ σ') := by
  rw [ServiceBodySettled] at h
  obtain ⟨hlong, h⟩ := not_or.mp h
  refine ⟨not_lt.mp hlong, ?_⟩
  match u, hlong, h with
  | [], hlong, _ =>
    -- the type of the service comes from behind `u`
    rw [List.length_nil] at hlong
    refine ⟨0 :: List.replicate (m - 1) 0, 1 :: List.replicate (m - 1) 0, ?_, ?_, fun heq ↦ ?_⟩
    · rw [List.length_cons, List.length_replicate]
      omega
    · rw [List.length_cons, List.length_replicate]
      omega
    · exact absurd (congrArg ServiceInfo.serviceType heq) Nat.zero_ne_one
  | [b], hlong, _ =>
    -- the length of the provider comes from behind `u`
    rw [List.length_singleton] at hlong
    refine ⟨0 :: 0x20 :: List.replicate (m - 2) 0, 1 :: 0x20 :: List.replicate (m - 2) 0,
      ?_, ?_, fun heq ↦ ?_⟩
    · rw [List.length_cons, List.length_cons, List.length_replicate]
      omega
    · rw [List.length_cons, List.length_cons, List.length_replicate]
      omega
    · have hprovider := congrArg ServiceInfo.provider heq
      change text eucJis2004 [] = text eucJis2004 [0x20] at hprovider
      rw [text_nil, text_space] at hprovider
      cases hprovider
  | b0 :: b1 :: u', hlong, h =>
    set u := b0 :: b1 :: u' with hu
    have hlen : 2 ≤ u.length := by rw [hu, List.length_cons, List.length_cons]; omega
    set plen := (u.getD 1 0).toNat with hplen
    have hplen' (σ : Bytes) : ((u ++ σ).getD 1 0).toNat = plen := by
      rw [getD_append (by omega)]
    rcases not_and_or.mp (fun hboth ↦ h ⟨hlen, hboth⟩) with hprovider | hname
    · obtain ⟨σ, σ', hσ, hσ', hne⟩ := exists_of_not_cutText hprovider hlen
      refine ⟨σ, σ', hσ, hσ', fun heq ↦ hne ?_⟩
      have := congrArg ServiceInfo.provider heq
      simpa only [serviceOf, hplen'] using this
    · split at hname
      · rename_i hlt
        obtain ⟨σ, σ', hσ, hσ', hne⟩ := exists_of_not_cutText hname (by omega)
        refine ⟨σ, σ', hσ, hσ', fun heq ↦ hne ?_⟩
        have := congrArg ServiceInfo.name heq
        simpa only [serviceOf, hplen', getD_append hlt] using this
      · -- the length of the name comes from behind `u`, and so does the name
        rename_i hge
        set z := List.replicate (2 + plen - u.length) (0 : UInt8) with hz
        set w := List.replicate (u.length + m - (4 + plen)) (0 : UInt8) with hw
        have hfront : (u ++ z).length = 2 + plen := by
          rw [List.length_append, hz, List.length_replicate]
          omega
        have hlength (n : UInt8) : (z ++ n :: 0x20 :: w).length = m := by
          rw [List.length_append, List.length_cons, List.length_cons, hz, hw,
            List.length_replicate, List.length_replicate]
          omega
        have hget (n : UInt8) : (u ++ (z ++ n :: 0x20 :: w)).getD (2 + plen) 0 = n := by
          have hdrop : (u ++ (z ++ n :: 0x20 :: w)).drop (2 + plen) = n :: 0x20 :: w := by
            rw [← List.append_assoc, List.drop_left' hfront]
          exact getD_of_drop hdrop
        have hslice (n : UInt8) (k : ℕ) :
            slice (u ++ (z ++ n :: 0x20 :: w)) (3 + plen) (3 + plen + k) = (0x20 :: w).take k := by
          rw [slice_add, show 3 + plen = 2 + plen + 1 by omega, ← List.drop_drop,
            ← List.append_assoc, List.drop_left' hfront]
          rfl
        refine ⟨z ++ 0 :: 0x20 :: w, z ++ 1 :: 0x20 :: w, hlength 0, hlength 1, fun heq ↦ ?_⟩
        have hnames := congrArg ServiceInfo.name heq
        simp only [serviceOf, hplen', hget, hslice] at hnames
        change text eucJis2004 [] = text eucJis2004 [0x20] at hnames
        rw [text_nil, text_space] at hnames
        cases hnames

theorem serviceBodySettled_iff (u : Bytes) (m : ℕ) : ServiceBodySettled eucJis2004 u m ↔
    (3 ≤ u.length + m → ∀ σ σ' : Bytes, σ.length = m → σ'.length = m →
      serviceOf eucJis2004 serviceId (u ++ σ) = serviceOf eucJis2004 serviceId (u ++ σ')) := by
  constructor
  · intro h hlong σ σ' hσ hσ'
    exact serviceOf_append_eq h hlong hσ hσ'
  · intro h
    by_contra hnot
    obtain ⟨hlong, σ, σ', hσ, hσ', hne⟩ := exists_serviceOf_ne serviceId hnot
    exact hne (h hlong σ σ' hσ hσ')

section Exact

variable {r : Bytes} (hr : ∀ tag len u, r = tag :: len :: u → u.length < len.toNat) (hk : k ≤ 4)
include hr hk

/-- **Service descriptors**: what is left of the whole descriptors is settled when the services read
behind it are the same, whatever follows. -/
theorem hidden_service (h : ServiceSettled eucJis2004 r k) :
    Hidden (readService eucJis2004 serviceId) r k :=
  reader_service.hidden serviceBodySettled_iff hr hk h

theorem shown_service (h : ¬ServiceSettled eucJis2004 r k) :
    Shown (readService eucJis2004 serviceId) r k :=
  reader_service.shown serviceBodySettled_iff hr hk h

end Exact

end Service

/-! ## TS information descriptors -/

section TsInformation

variable (eucJis2004 : Codec)

/-- For all `m` bytes behind `u`, the descriptor is too short, or key and name are the same. -/
def TsInformationBodySettled (u : Bytes) (m : ℕ) : Prop :=
  u.length + m < 2 ∨ u.length = 1 ∧ m = 1
    ∨ 2 ≤ u.length ∧ CutText eucJis2004 u m 2 (u.getD 1 0 >>> 2).toNat

instance (u : Bytes) (m : ℕ) : Decidable (TsInformationBodySettled eucJis2004 u m) :=
  inferInstanceAs (Decidable (_ ∨ _ ∨ _))

/-- What is left of the whole descriptors, for `k` bytes behind it. -/
def TsInformationSettled : Bytes → ℕ → Prop :=
  OpenSettled 0xCD 2 (TsInformationBodySettled eucJis2004)

instance (r : Bytes) (k : ℕ) : Decidable (TsInformationSettled eucJis2004 r k) :=
  inferInstanceAs (Decidable (OpenSettled _ _ (TsInformationBodySettled eucJis2004) r k))

/-- What a body of two bytes or more tells. -/
def tsInformationOf (body : Bytes) : ℕ × Str :=
  ((body.getD 0 0).toNat, text eucJis2004 (slice body 2 (2 + (body.getD 1 0 >>> 2).toNat)))

variable {eucJis2004} {k m : ℕ} {u : Bytes}

theorem reader_tsInformation :
    Reader (readTsInformation eucJis2004) 0xCD 2 (tsInformationOf eucJis2004) where
  two_le := le_rfl
  of_tag_ne _ hd := if_neg fun h ↦ hd h.1
  of_short _ hd := if_neg fun h ↦ absurd h.2 (by omega)
  of_long _ h := if_pos ⟨rfl, h⟩
  first_ne _ _ heq := absurd (congrArg Prod.fst heq) Nat.zero_ne_one

theorem tsInformationOf_append_eq (h : TsInformationBodySettled eucJis2004 u m)
    (hlong : 2 ≤ u.length + m) {s s' : Bytes} (hs : s.length = m) (hs' : s'.length = m) :
    tsInformationOf eucJis2004 (u ++ s) = tsInformationOf eucJis2004 (u ++ s') := by
  obtain ⟨hu, rfl⟩ | ⟨hu, hname⟩ := h.resolve_left (not_lt.mpr hlong)
  · -- there is a key, and no room for a name
    obtain ⟨b, rfl⟩ := List.length_eq_one_iff.mp hu
    obtain ⟨c, rfl⟩ := List.length_eq_one_iff.mp hs
    obtain ⟨c', rfl⟩ := List.length_eq_one_iff.mp hs'
    have hread (c : UInt8) :
        tsInformationOf eucJis2004 ([b] ++ [c]) = (b.toNat, text eucJis2004 []) := by
      have hnil : ([b] ++ [c]).drop 2 = [] := rfl
      rw [tsInformationOf, slice_add, hnil, List.take_nil]
      rfl
    rw [hread, hread]
  · rw [tsInformationOf, tsInformationOf]
    simp only [getD_append (show 0 < u.length by omega) _,
      getD_append (show 1 < u.length by omega) _, hname.text_eq hu hs hs']

/-- Where a body is not settled, two of its continuations tell different things. -/
theorem exists_tsInformationOf_ne (h : ¬TsInformationBodySettled eucJis2004 u m) :
    2 ≤ u.length + m ∧ ∃ σ σ' : Bytes, σ.length = m ∧ σ'.length = m
      ∧ tsInformationOf eucJis2004 (u ++ σ) ≠ tsInformationOf eucJis2004 (u ++ σ') := by
  rw [TsInformationBodySettled] at h
  obtain ⟨hlong, h⟩ := not_or.mp h
  obtain ⟨hone, h⟩ := not_or.mp h
  refine ⟨not_lt.mp hlong, ?_⟩
  match u, hlong, hone, h with
  | [], hlong, _, _ =>
    -- the key comes from behind `u`
    rw [List.length_nil] at hlong
    refine ⟨0 :: List.replicate (m - 1) 0, 1 :: List.replicate (m - 1) 0, ?_, ?_, fun heq ↦ ?_⟩
    · rw [List.length_cons, List.length_replicate]
      omega
    · rw [List.length_cons, List.length_replicate]
      omega
    · exact absurd (congrArg Prod.fst heq) Nat.zero_ne_one
  | [b], hlong, hone, _ =>
    -- the length of the name comes from behind `u`, and so does the name
    rw [List.length_singleton] at hlong hone
    refine ⟨0 :: 0x20 :: List.replicate (m - 2) 0, 4 :: 0x20 :: List.replicate (m - 2) 0,
      ?_, ?_, fun heq ↦ ?_⟩
    · rw [List.length_cons, List.length_cons, List.length_replicate]
      omega
    · rw [List.length_cons, List.length_cons, List.length_replicate]
      omega
    · have hread (c : UInt8) :
          (tsInformationOf eucJis2004 ([b] ++ c :: 0x20 :: List.replicate (m - 2) 0)).2
            = text eucJis2004
                ((0x20 :: List.replicate (m - 2) (0 : UInt8)).take (c >>> 2).toNat) := by
        rw [tsInformationOf, slice_add]
        rfl
      have hname := congrArg Prod.snd heq
      have hzero : ((0 : UInt8) >>> 2).toNat = 0 := by decide
      have hone : ((4 : UInt8) >>> 2).toNat = 1 := by decide
      rw [hread, hread, hzero, hone, List.take_zero, List.take_succ_cons, List.take_zero, text_nil,
        text_space] at hname
      cases hname
  | b0 :: b1 :: u', hlong, _, h =>
    set u := b0 :: b1 :: u' with hu
    have hlen : 2 ≤ u.length := by rw [hu, List.length_cons, List.length_cons]; omega
    obtain ⟨σ, σ', hσ, hσ', hne⟩ := exists_of_not_cutText (fun hcut ↦ h ⟨hlen, hcut⟩) hlen
    refine ⟨σ, σ', hσ, hσ', fun heq ↦ hne ?_⟩
    have := congrArg Prod.snd heq
    simpa only [tsInformationOf, getD_append (show 1 < u.length by omega)] using this

theorem tsInformationBodySettled_iff (u : Bytes) (m : ℕ) :
    TsInformationBodySettled eucJis2004 u m ↔
      (2 ≤ u.length + m → ∀ σ σ' : Bytes, σ.length = m → σ'.length = m →
        tsInformationOf eucJis2004 (u ++ σ) = tsInformationOf eucJis2004 (u ++ σ')) := by
  constructor
  · intro h hlong σ σ' hσ hσ'
    exact tsInformationOf_append_eq h hlong hσ hσ'
  · intro h
    by_contra hnot
    obtain ⟨hlong, σ, σ', hσ, hσ', hne⟩ := exists_tsInformationOf_ne hnot
    exact hne (h hlong σ σ' hσ hσ')

section Exact

variable {r : Bytes} (hr : ∀ tag len u, r = tag :: len :: u → u.length < len.toNat) (hk : k ≤ 4)
include hr hk

/-- **TS information descriptors**, in the same way. -/
theorem hidden_tsInformation (h : TsInformationSettled eucJis2004 r k) :
    Hidden (readTsInformation eucJis2004) r k :=
  reader_tsInformation.hidden tsInformationBodySettled_iff hr hk h

theorem shown_tsInformation (h : ¬TsInformationSettled eucJis2004 r k) :
    Shown (readTsInformation eucJis2004) r k :=
  reader_tsInformation.shown tsInformationBodySettled_iff hr hk h

end Exact

end TsInformation

/-! ## Network name descriptors -/

section NetworkName

variable (eucJis2004 : Codec)

/-- The name a network name descriptor gives. -/
def readNetworkName (d : UInt8 × Bytes) : Option Str :=
  if d.1 = 0x40 then some (text eucJis2004 d.2) else none

/-- The last name in a descriptor loop, or the one before it. -/
def lastName (before : Option Str) (data : Bytes) : Option Str :=
  ((descriptors data).filterMap (readNetworkName eucJis2004)).getLast?.or before

/-- In `k` bytes there is no room for a descriptor, or room for an empty one, which makes no
difference behind an empty name. -/
def HeaderSettled (before : Option Str) (k : ℕ) : Prop := k ≤ 1 ∨ k = 2 ∧ before = some []

instance (before : Option Str) (k : ℕ) : Decidable (HeaderSettled before k) :=
  inferInstanceAs (Decidable (_ ∨ _ ∧ _))

/-- What is left of the whole descriptors, for `k` bytes behind it; `before` is the last name in
front of it. A tag is followed by the length of its body, which may be 0; behind a body that is cut
there may be another descriptor. -/
def NetworkNameSettled (before : Option Str) (r : Bytes) (k : ℕ) : Prop :=
  match r with
  | [] => HeaderSettled before k
  | [tag] => if tag = 0x40 then k ≤ 1 else HeaderSettled before (k - 1)
  | tag :: len :: u =>
    let m := min k (len.toNat - u.length)
    if tag = 0x40 then
      TextSettled eucJis2004 u m
        ∧ HeaderSettled (some (text eucJis2004 (u ++ List.replicate m 0))) (k - m)
    else
      HeaderSettled before (k - m)

instance (before : Option Str) (r : Bytes) (k : ℕ) :
    Decidable (NetworkNameSettled eucJis2004 before r k) :=
  match r with
  | [] => inferInstanceAs (Decidable (HeaderSettled _ _))
  | [tag] => inferInstanceAs (Decidable (if tag = 0x40 then _ else _))
  | tag :: _ :: _ => inferInstanceAs (Decidable (if tag = 0x40 then _ ∧ _ else _))

variable {eucJis2004} {before : Option Str} {k : ℕ}

theorem lastName_cons_cons (tag len : UInt8) (w : Bytes) :
    lastName eucJis2004 before (tag :: len :: w)
      = lastName eucJis2004
          (if tag = 0x40 then some (text eucJis2004 (w.take len.toNat)) else before)
          (w.drop len.toNat) := by
  rw [lastName, lastName, descriptors_cons_cons, List.filterMap_cons, readNetworkName]
  split
  · rename_i h
    rw [if_neg (by split at h <;> simp_all)]
  · rename_i name h
    split at h
    · cases h
      rw [if_pos ‹_›, List.getLast?_cons]
      cases (List.filterMap (readNetworkName eucJis2004) _).getLast? <;> rfl
    · cases h

theorem lastName_of_length_lt {data : Bytes} (h : data.length < 2) :
    lastName eucJis2004 before data = before := by
  rw [lastName, descriptors_of_length_lt h]
  rfl

/-- Zeros are empty descriptors of another kind. -/
theorem lastName_replicate : ∀ n, lastName eucJis2004 before (List.replicate n 0) = before
  | 0 => lastName_of_length_lt (by decide)
  | 1 => lastName_of_length_lt (by decide)
  | n + 2 => by
    rw [List.replicate_succ, List.replicate_succ, lastName_cons_cons, if_neg (by decide)]
    exact lastName_replicate n

theorem HeaderSettled.lastName_eq (h : HeaderSettled before k) {s : Bytes} (hs : s.length ≤ k) :
    lastName eucJis2004 before s = before := by
  obtain hk | ⟨rfl, rfl⟩ := h
  · exact lastName_of_length_lt (by omega)
  · match s, hs with
    | [], _ => exact lastName_of_length_lt (by decide)
    | [_], _ => exact lastName_of_length_lt (by simp)
    | [tag, len], _ =>
      rw [lastName_cons_cons, List.take_nil, List.drop_nil, text_nil, ite_self]
      exact lastName_of_length_lt (by decide)

theorem exists_lastName_ne (eucJis2004 : Codec) (h : ¬HeaderSettled before k) :
    ∃ s s' : Bytes, s.length = k ∧ s'.length = k
      ∧ lastName eucJis2004 before s ≠ lastName eucJis2004 before s' := by
  obtain ⟨hk, hbefore⟩ := not_or.mp h
  have hempty (n : ℕ) : lastName eucJis2004 before (0x40 :: 0 :: List.replicate n 0) = some [] := by
    rw [lastName_cons_cons, if_pos rfl]
    exact (lastName_replicate n).trans (congrArg some text_nil)
  rcases Nat.lt_or_ge 2 k with hlt | hge
  · refine ⟨0x40 :: 1 :: 0x20 :: List.replicate (k - 3) 0, 0x40 :: 0 :: List.replicate (k - 2) 0,
      ?_, ?_, ?_⟩
    · rw [List.length_cons, List.length_cons, List.length_cons, List.length_replicate]
      omega
    · rw [List.length_cons, List.length_cons, List.length_replicate]
      omega
    · have hspace : lastName eucJis2004 before (0x40 :: 1 :: 0x20 :: List.replicate (k - 3) 0)
          = some [' '] := by
        rw [lastName_cons_cons, if_pos rfl]
        exact (lastName_replicate _).trans (congrArg some text_space)
      rw [hspace, hempty]
      simp
  · obtain rfl : k = 2 := by omega
    refine ⟨0x40 :: 0 :: List.replicate 0 0, List.replicate 2 0, rfl, rfl, ?_⟩
    rw [hempty, lastName_replicate]
    exact fun heq ↦ hbefore ⟨rfl, heq.symm⟩

theorem lastName_body {tag len : UInt8} {u : Bytes} (hu : u.length < len.toNat) (s : Bytes) :
    lastName eucJis2004 before (tag :: len :: u ++ s)
      = lastName eucJis2004
          (if tag = 0x40 then some (text eucJis2004 (u ++ s.take (len.toNat - u.length)))
            else before)
          (s.drop (len.toNat - u.length)) := by
  rw [List.cons_append, List.cons_append, lastName_cons_cons, List.take_append,
    List.take_of_length_le hu.le, List.drop_append, List.drop_of_length_le hu.le, List.nil_append]

/-- The name is the same for all `k` bytes behind `r`. -/
def SameName (eucJis2004 : Codec) (before : Option Str) (r : Bytes) (k : ℕ) : Prop :=
  ∀ s s' : Bytes, s.length = k → s'.length = k →
    lastName eucJis2004 before (r ++ s) = lastName eucJis2004 before (r ++ s')

theorem sameName_nil : SameName eucJis2004 before [] k ↔ HeaderSettled before k := by
  constructor
  · intro h
    by_contra hnot
    obtain ⟨s, s', hs, hs', hne⟩ := exists_lastName_ne eucJis2004 hnot
    exact hne (h s s' hs hs')
  · intro h s s' hs hs'
    rw [List.nil_append, List.nil_append, h.lastName_eq hs.le, h.lastName_eq hs'.le]

/-- Behind the tag of a name, every length is the length of a name. -/
theorem sameName_tag : SameName eucJis2004 before [0x40] k ↔ k ≤ 1 := by
  constructor
  · intro h
    by_contra hk
    have hspace : lastName eucJis2004 before ([0x40] ++ 1 :: 0x20 :: List.replicate (k - 2) 0)
        = some [' '] := by
      rw [List.singleton_append, lastName_cons_cons, if_pos rfl]
      exact (lastName_replicate _).trans (congrArg some text_space)
    have hempty : lastName eucJis2004 before ([0x40] ++ 0 :: List.replicate (k - 1) 0)
        = some [] := by
      rw [List.singleton_append, lastName_cons_cons, if_pos rfl]
      exact (lastName_replicate _).trans (congrArg some text_nil)
    have hsame := h (1 :: 0x20 :: List.replicate (k - 2) 0) (0 :: List.replicate (k - 1) 0) (by
        rw [List.length_cons, List.length_cons, List.length_replicate]
        omega) (by
        rw [List.length_cons, List.length_replicate]
        omega)
    rw [hspace, hempty] at hsame
    cases hsame
  · intro hk s s' hs hs'
    match s, s', hs, hs' with
    | [], [], _, _ => rfl
    | [len], [len'], _, _ =>
      have hname (len : UInt8) : lastName eucJis2004 before ([0x40] ++ [len]) = some [] := by
        rw [List.singleton_append, lastName_cons_cons, if_pos rfl, List.take_nil, List.drop_nil,
          text_nil]
        exact lastName_of_length_lt (by decide)
      rw [hname, hname]
    | [], _ :: _, hs, hs' => simp at hs hs'; omega
    | _ :: _, [], hs, hs' => simp at hs hs'; omega
    | _ :: _ :: _, _, hs, _ => simp at hs; omega
    | _, _ :: _ :: _, _, hs' => simp at hs'; omega

theorem sameName_otherTag {tag : UInt8} (htag : tag ≠ 0x40) :
    SameName eucJis2004 before [tag] k ↔ HeaderSettled before (k - 1) := by
  constructor
  · intro h
    by_contra hnot
    have hk : 0 < k := by
      obtain ⟨hone, -⟩ := not_or.mp hnot
      omega
    obtain ⟨s, s', hs, hs', hne⟩ := exists_lastName_ne eucJis2004 hnot
    refine hne ?_
    have hskip (s : Bytes) : lastName eucJis2004 before ([tag] ++ 0 :: s)
        = lastName eucJis2004 before s := by
      rw [List.singleton_append, lastName_cons_cons, if_neg htag]
      rfl
    rw [← hskip s, ← hskip s']
    refine h _ _ ?_ ?_ <;> rw [List.length_cons] <;> omega
  · intro h
    have hname (s : Bytes) (hs : s.length = k) :
        lastName eucJis2004 before ([tag] ++ s) = before := by
      match s, hs with
      | [], _ => exact lastName_of_length_lt (by simp)
      | len :: s, hs =>
        rw [List.length_cons] at hs
        rw [List.singleton_append, lastName_cons_cons, if_neg htag]
        refine h.lastName_eq ?_
        rw [List.length_drop]
        omega
    intro s s' hs hs'
    rw [hname s hs, hname s' hs']

section Body

variable {len : UInt8} {u : Bytes} (hu : u.length < len.toNat)
include hu

theorem sameName_body : SameName eucJis2004 before (0x40 :: len :: u) k ↔
    TextSettled eucJis2004 u (min k (len.toNat - u.length))
      ∧ HeaderSettled (some (text eucJis2004
          (u ++ List.replicate (min k (len.toNat - u.length)) 0)))
        (k - min k (len.toNat - u.length)) := by
  set j := len.toNat - u.length with hj
  have hname {σ ρ : Bytes} (hσ : σ.length = min k j) (hρ : ρ.length = k - min k j) :
      lastName eucJis2004 before (0x40 :: len :: u ++ (σ ++ ρ))
        = lastName eucJis2004 (some (text eucJis2004 (u ++ σ))) ρ := by
    obtain ⟨-, htake, hdrop⟩ := take_drop_continuation hσ hρ
    rw [lastName_body hu, if_pos rfl, ← hj, htake, hdrop]
  have hzeros (n : ℕ) : (List.replicate n (0 : UInt8)).length = n := List.length_replicate
  constructor
  · intro h
    constructor
    · refine textSettled_iff.mpr fun σ σ' hσ hσ' ↦ ?_
      have hsame := h _ _ (take_drop_continuation hσ (hzeros _)).1
        (take_drop_continuation hσ' (hzeros _)).1
      rw [hname hσ (hzeros _), hname hσ' (hzeros _), lastName_replicate,
        lastName_replicate] at hsame
      exact Option.some.inj hsame
    · by_contra hnot
      obtain ⟨ρ, ρ', hρ, hρ', hne⟩ := exists_lastName_ne eucJis2004 hnot
      have hsame := h _ _ (take_drop_continuation (hzeros _) hρ).1
        (take_drop_continuation (hzeros _) hρ').1
      rw [hname (hzeros _) hρ, hname (hzeros _) hρ'] at hsame
      exact hne hsame
  · rintro ⟨hsettled, hhead⟩
    have hall (s : Bytes) (hs : s.length = k) :
        lastName eucJis2004 before (0x40 :: len :: u ++ s)
          = some (text eucJis2004 (u ++ List.replicate (min k j) 0)) := by
      have hσ : (s.take j).length = min k j := by rw [List.length_take]; omega
      have hρ : (s.drop j).length = k - min k j := by rw [List.length_drop]; omega
      have hsame := hname hσ hρ
      rw [List.take_append_drop, textSettled_iff.mp hsettled _ _ hσ (hzeros _)] at hsame
      rw [hsame]
      exact hhead.lastName_eq hρ.le
    intro s s' hs hs'
    rw [hall s hs, hall s' hs']

theorem sameName_otherBody {tag : UInt8} (htag : tag ≠ 0x40) :
    SameName eucJis2004 before (tag :: len :: u) k ↔
      HeaderSettled before (k - min k (len.toNat - u.length)) := by
  set j := len.toNat - u.length with hj
  constructor
  · intro h
    by_contra hnot
    obtain ⟨ρ, ρ', hρ, hρ', hne⟩ := exists_lastName_ne eucJis2004 hnot
    have hskip {ρ : Bytes} (hρ : ρ.length = k - min k j) :
        lastName eucJis2004 before (tag :: len :: u ++ (List.replicate (min k j) 0 ++ ρ))
          = lastName eucJis2004 before ρ := by
      obtain ⟨-, -, hdrop⟩ := take_drop_continuation List.length_replicate hρ
      rw [lastName_body hu, if_neg htag, ← hj, hdrop]
    refine hne ?_
    rw [← hskip hρ, ← hskip hρ']
    exact h _ _ (take_drop_continuation List.length_replicate hρ).1
      (take_drop_continuation List.length_replicate hρ').1
  · intro h s s' hs hs'
    rw [lastName_body hu, lastName_body hu, if_neg htag, if_neg htag, ← hj, h.lastName_eq,
      h.lastName_eq]
    · rw [List.length_drop]
      omega
    · rw [List.length_drop]
      omega

end Body

/-- **Network name descriptors**: what is left of the whole descriptors is settled when the last
name is the same, whatever follows. -/
theorem networkNameSettled_iff {r : Bytes}
    (hr : ∀ tag len u, r = tag :: len :: u → u.length < len.toNat) :
    NetworkNameSettled eucJis2004 before r k ↔ SameName eucJis2004 before r k := by
  match r, hr with
  | [], _ => exact sameName_nil.symm
  | [tag], _ =>
    rw [NetworkNameSettled]
    by_cases htag : tag = 0x40
    · rw [if_pos htag, htag, sameName_tag]
    · rw [if_neg htag, sameName_otherTag htag]
  | tag :: len :: u, hr =>
    rw [NetworkNameSettled]
    by_cases htag : tag = 0x40
    · rw [if_pos htag, htag, sameName_body (hr tag len u rfl)]
    · rw [if_neg htag, sameName_otherBody (hr tag len u rfl) htag]

end NetworkName

end Recdyud
