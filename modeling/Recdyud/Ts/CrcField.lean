import Recdyud.Ts.DescriptorCut
import Recdyud.Ts.TableOrder

/-!
# The CRC field is not content

The last four bytes of a section are its CRC, and the parsers stop their loops four bytes before its
end. `CrcUnread` says what this is for: whatever stands in the field, a section is parsed the same
way.

The loops inside the loops are not stopped there. An inner length that goes too far makes
`parse_sdt` and `parse_nit` read a descriptor out of the field, or cut by it; an entry that is cut
makes `parse_pat` take its PID from there. `crcUnread_iff` says exactly when the field shows.
-/

namespace Recdyud

open Aribstr

/-- Whatever the last four bytes, a section is parsed the same way. -/
def CrcUnread (parse : Bytes → Parser Unit) (b : Bytes) : Prop :=
  ∀ t t' : Bytes, t.length = 4 → t'.length = 4 → ∀ info,
    (parse (b ++ t)).catching info = (parse (b ++ t')).catching info

/-! ## Reading in front of the field -/

section Front

variable {b t : Bytes} {i j n : ℕ}

theorem number_append {t' : Bytes} (h : j ≤ b.length) :
    intFromBytes (slice (b ++ t) i j) = intFromBytes (slice (b ++ t') i j) := by
  rw [slice_append_left h, slice_append_left h]

theorem head?_append_left (h : 0 < b.length) : (b ++ t)[0]? = b[0]? :=
  List.getElem?_append_left h

theorem append_ne_nil (h : 0 < b.length) : b ++ t ≠ [] := by
  rintro heq
  rw [List.append_eq_nil_iff.mp heq |>.1] at h
  exact absurd h (by decide)

/-- A length field of twelve bits, behind four other bits. -/
def loopLength (sec : Bytes) (i : ℕ) : ℕ := intFromBytes (slice sec i (i + 2)) &&& 0x0FFF

theorem loopLength_append (h : i + 2 ≤ b.length) : loopLength (b ++ t) i = loopLength b i := by
  rw [loopLength, loopLength, slice_append_left h]

/-- The descriptors of a loop of `n` bytes that begins in front of the field. -/
theorem descriptors_slice (hi : i ≤ b.length) :
    descriptors (slice (b ++ t) i (i + n))
      = (cut (slice b i (i + n))).1
        ++ descriptors ((cut (slice b i (i + n))).2 ++ t.take (i + n - b.length)) := by
  rw [slice_append hi, descriptors_append]

end Front

/-! ## Loops of entries -/

section Loop

/-- Where the entries of a loop begin. In front of its own descriptors, an entry has `lead` bytes
and their length. -/
def loopPositions (lead : ℕ) (sec : Bytes) (fin i : ℕ) : List ℕ :=
  if i + lead + 2 ≤ fin then
    i :: loopPositions lead sec fin (i + lead + 2 + loopLength sec (i + lead))
  else
    []
termination_by fin - i

/-- The descriptors of the entry go on behind the end. -/
def Overruns (lead : ℕ) (b : Bytes) (i : ℕ) : Prop :=
  b.length < i + lead + 2 + loopLength b (i + lead)

instance (lead : ℕ) (b : Bytes) (i : ℕ) : Decidable (Overruns lead b i) :=
  inferInstanceAs (Decidable (_ < _))

variable {lead : ℕ} {b t : Bytes} {fin i p : ℕ}

theorem loopPositions_append (hfin : fin ≤ b.length) :
    loopPositions lead (b ++ t) fin i = loopPositions lead b fin i := by
  induction i using loopPositions.induct lead b fin with
  | case1 i h ih =>
    rw [loopPositions, if_pos h, loopPositions.eq_def lead b, if_pos h,
      loopLength_append (by omega), ih]
  | case2 i h => rw [loopPositions, if_neg h, loopPositions.eq_def lead b, if_neg h]

theorem header_of_mem_loopPositions (h : p ∈ loopPositions lead b fin i) :
    p + lead + 2 ≤ fin := by
  induction i using loopPositions.induct lead b fin with
  | case1 i hle ih =>
    rw [loopPositions, if_pos hle, List.mem_cons] at h
    obtain rfl | h := h
    · exact hle
    · exact ih h
  | case2 i hgt =>
    rw [loopPositions, if_neg hgt] at h
    exact absurd h List.not_mem_nil

/-- An entry that goes on behind the end is the last one, and the only one. -/
theorem eq_concat_of_overruns (hfin : fin ≤ b.length) (h : p ∈ loopPositions lead b fin i)
    (hp : Overruns lead b p) : ∃ front, loopPositions lead b fin i = front ++ [p]
      ∧ ∀ q ∈ front, ¬Overruns lead b q := by
  induction i using loopPositions.induct lead b fin with
  | case1 i hle ih =>
    rw [loopPositions, if_pos hle] at h ⊢
    by_cases hi : Overruns lead b i
    · have hnil : loopPositions lead b fin (i + lead + 2 + loopLength b (i + lead)) = [] := by
        rw [Overruns] at hi
        rw [loopPositions, if_neg (by omega)]
      rw [hnil, List.mem_singleton] at h
      rw [hnil, h]
      exact ⟨[], rfl, fun q hq ↦ absurd hq List.not_mem_nil⟩
    · have hmem : p ∈ loopPositions lead b fin (i + lead + 2 + loopLength b (i + lead)) :=
        (List.mem_cons.mp h).resolve_left fun heq ↦ hi (heq ▸ hp)
      obtain ⟨front, hfront, hnot⟩ := ih hmem
      refine ⟨i :: front, congrArg (i :: ·) hfront, fun q hq ↦ ?_⟩
      obtain rfl | hq := List.mem_cons.mp hq
      · exact hi
      · exact hnot q hq
  | case2 i hgt =>
    rw [loopPositions, if_neg hgt] at h
    exact absurd h List.not_mem_nil

/-- What is left of the whole descriptors of an entry. -/
def openAt (lead : ℕ) (b : Bytes) (i : ℕ) : Bytes :=
  (cut (slice b (i + lead + 2) (i + lead + 2 + loopLength b (i + lead)))).2

/-- The bytes of the field that belong to the entry, by its lengths. -/
def intoField (lead : ℕ) (b : Bytes) (i : ℕ) : ℕ :=
  min 4 (i + lead + 2 + loopLength b (i + lead) - b.length)

theorem openAt_open (lead : ℕ) (b : Bytes) (i : ℕ) (tag len : UInt8) (u : Bytes)
    (h : openAt lead b i = tag :: len :: u) : u.length < len.toNat := cut_open _ h

variable {β : Type} {read : UInt8 × Bytes → Option β}

/-- What is read from the descriptors of an entry. -/
def readAt (read : UInt8 × Bytes → Option β) (lead : ℕ) (sec : Bytes) (i : ℕ) : List β :=
  (descriptors (slice sec (i + lead + 2) (i + lead + 2 + loopLength sec (i + lead)))).filterMap read

theorem readAt_append (hp : p + lead + 2 ≤ b.length) :
    readAt read lead (b ++ t) p
      = (cut (slice b (p + lead + 2) (p + lead + 2 + loopLength b (p + lead)))).1.filterMap read
        ++ readOpen read (openAt lead b p)
          (t.take (p + lead + 2 + loopLength b (p + lead) - b.length)) := by
  rw [readAt, loopLength_append (by omega), descriptors_slice hp, List.filterMap_append, readOpen,
    openAt]

variable {t' : Bytes} (ht : t.length = 4) (ht' : t'.length = 4)

include ht ht' in
theorem readAt_of_hidden (hp : p + lead + 2 ≤ b.length)
    (h : Overruns lead b p → Hidden read (openAt lead b p) (intoField lead b p)) :
    readAt read lead (b ++ t) p = readAt read lead (b ++ t') p := by
  rw [readAt_append hp, readAt_append hp]
  by_cases hover : Overruns lead b p
  · rw [h hover (t.take _) (t'.take _)] <;> rw [List.length_take, intoField] <;> omega
  · rw [Overruns] at hover
    rw [show p + lead + 2 + loopLength b (p + lead) - b.length = 0 by omega]
    rfl

theorem readAt_of_shown (hp : p + lead + 2 ≤ b.length)
    (h : Shown read (openAt lead b p) (intoField lead b p)) :
    ∃ (t t' : Bytes) (front : List β) (a a' : β), t.length = 4 ∧ t'.length = 4
      ∧ readAt read lead (b ++ t) p = front ++ [a] ∧ readAt read lead (b ++ t') p = front ++ [a']
      ∧ a ≠ a' := by
  obtain ⟨s, s', a, a', hs, hs', ha, ha', hne⟩ := h
  obtain ⟨t, ht, htake⟩ := exists_take_eq (hs.trans rfl)
  obtain ⟨t', ht', htake'⟩ := exists_take_eq (hs'.trans rfl)
  refine ⟨t, t',
    (cut (slice b (p + lead + 2) (p + lead + 2 + loopLength b (p + lead)))).1.filterMap read,
    a, a', ht, ht', ?_, ?_, hne⟩
  · rw [readAt_append hp, htake, ha]
  · rw [readAt_append hp, htake', ha']

end Loop

/-! ## The three tables -/

/-- What a parser of one table has to keep. -/
theorem crcUnread_iff_of_does {parse : Bytes → Parser Unit} {tableId : UInt8}
    {f : Bytes → TransportInfo → TransportInfo} {b : Bytes} (hb : 0 < b.length)
    (hdoes : ∀ sec : Bytes, sec ≠ [] → (parse sec).Does fun info ↦
      if sec[0]? = some tableId then f sec info else info) :
    CrcUnread parse b ↔ (b[0]? = some tableId → ∀ t t' : Bytes, t.length = 4 → t'.length = 4 →
      ∀ info, f (b ++ t) info = f (b ++ t') info) := by
  have hcatching (t : Bytes) (info : TransportInfo) :
      (parse (b ++ t)).catching info
        = if b[0]? = some tableId then f (b ++ t) info else info := by
    rw [(hdoes _ (append_ne_nil hb)).catching, head?_append_left hb]
  constructor
  · intro h hid t t' ht ht' info
    have := h t t' ht ht' info
    rwa [hcatching, hcatching, if_pos hid, if_pos hid] at this
  · intro h t t' ht ht' info
    rw [hcatching, hcatching]
    split
    · exact h ‹_› t t' ht ht' info
    · rfl

section Pat

variable {b t : Bytes}

/-- Where the entry is that four bytes behind the section header do not fill. -/
def cutEntry (b : Bytes) : ℕ := b.length - b.length % 4

/-- No entry is cut, or the one that is has the number 0. -/
def PatSettled (b : Bytes) : Prop :=
  b[0]? = some 0x00 →
    b.length % 4 = 0 ∨
      2 ≤ b.length % 4 ∧ intFromBytes (slice b (cutEntry b) (cutEntry b + 2)) = 0

instance (b : Bytes) : Decidable (PatSettled b) := inferInstanceAs (Decidable (_ → _))

theorem pyRange_eq (h : 8 ≤ b.length) :
    pyRange 8 b.length 4
      = pyRange 8 (cutEntry b) 4 ++ if b.length % 4 = 0 then [] else [cutEntry b] := by
  rw [pyRange, pyRange, cutEntry]
  split
  · rename_i hr
    rw [hr, Nat.sub_zero, List.append_nil]
  · rename_i hr
    have hcount : (b.length - 8 + 4 - 1) / 4 = (b.length - b.length % 4 - 8 + 4 - 1) / 4 + 1 := by
      omega
    rw [hcount, List.range_succ, List.map_append, List.map_singleton]
    congr 2
    omega

theorem add_four_le_of_mem_pyRange {i : ℕ} (hi : i ∈ pyRange 8 (cutEntry b) 4) :
    i + 4 ≤ b.length := by
  obtain ⟨k, hk, rfl⟩ := List.mem_map.mp hi
  have := List.mem_range.mp hk
  rw [cutEntry] at this
  omega

theorem readProgram_append {i : ℕ} (hi : i + 4 ≤ b.length) :
    readProgram (b ++ t) i = readProgram b i := by
  rw [readProgram, readProgram, slice_append_left (by omega), slice_append_left hi]

/-- The programs of a PAT: the whole entries, and the one that is cut. -/
theorem programs_append (hb : 8 ≤ b.length) (ht : t.length = 4) :
    (readPat (b ++ t)).programs
      = (pyRange 8 (cutEntry b) 4).filterMap (readProgram b)
        ++ (if b.length % 4 = 0 then [] else (readProgram (b ++ t) (cutEntry b)).toList) := by
  have hwhole : (pyRange 8 (cutEntry b) 4).filterMap (readProgram (b ++ t))
      = (pyRange 8 (cutEntry b) 4).filterMap (readProgram b) :=
    List.filterMap_congr fun i hi ↦ readProgram_append (add_four_le_of_mem_pyRange hi)
  rw [readPat, List.length_append, ht, Nat.add_sub_cancel]
  dsimp only
  rw [pyRange_eq hb, List.filterMap_append, hwhole]
  split
  · rfl
  · rw [List.filterMap_cons, List.filterMap_nil]
    cases readProgram (b ++ t) (cutEntry b) <;> rfl

theorem and_mask_ne (n : ℕ) : (256 * n + 0) &&& 0x1FFF ≠ (256 * n + 1) &&& 0x1FFF := by
  have hmask (k : ℕ) : k &&& 0x1FFF = k % 2 ^ 13 := Nat.and_two_pow_sub_one_eq_mod k 13
  rw [hmask, hmask]
  omega

/-- An entry that is cut, unless its number is 0, takes its PID from the field. -/
theorem exists_readProgram_ne (hr : b.length % 4 ≠ 0)
    (h : 2 ≤ b.length % 4 → intFromBytes (slice b (cutEntry b) (cutEntry b + 2)) ≠ 0) :
    ∃ (t t' : Bytes) (n pid pid' : ℕ), t.length = 4 ∧ t'.length = 4
      ∧ readProgram (b ++ t) (cutEntry b) = some (n, pid)
      ∧ readProgram (b ++ t') (cutEntry b) = some (n, pid') ∧ pid ≠ pid' := by
  -- it is enough that the number stays and the last byte of the entry changes
  suffices hentry : ∃ (f : UInt8 → Bytes) (number pid : Bytes), (∀ c, (f c).length = 4)
      ∧ intFromBytes number ≠ 0
      ∧ ∀ c, b.drop (cutEntry b) ++ f c = number ++ (pid ++ [c]) ++ (f c).drop (4 - b.length % 4)
        ∧ number.length = 2 ∧ pid.length = 1 by
    obtain ⟨f, number, pid, hf, hnumber, hentry⟩ := hentry
    have hread (c : UInt8) : readProgram (b ++ f c) (cutEntry b)
        = some (intFromBytes number, (256 * intFromBytes pid + c.toNat) &&& 0x1FFF) := by
      obtain ⟨hdrop, hn, hp⟩ := hentry c
      have hle : cutEntry b ≤ b.length := Nat.sub_le _ _
      have hat : (b ++ f c).drop (cutEntry b)
          = number ++ ((pid ++ [c]) ++ (f c).drop (4 - b.length % 4)) := by
        rw [List.drop_append_of_le_length hle, hdrop, List.append_assoc]
      have hnumber' : slice (b ++ f c) (cutEntry b) (cutEntry b + 2) = number :=
        slice_of_drop hat (by omega)
      have hpid : slice (b ++ f c) (cutEntry b + 2) (cutEntry b + 4) = pid ++ [c] := by
        refine slice_of_drop (drop_of_drop hat (by omega)) ?_
        rw [List.length_append, List.length_singleton]
        omega
      rw [readProgram, hnumber', hpid, if_pos hnumber, intFromBytes_concat]
    exact ⟨f 0, f 1, _, _, _, hf 0, hf 1, hread 0, hread 1, and_mask_ne (intFromBytes pid)⟩
  have hlen : (b.drop (cutEntry b)).length = b.length % 4 := by
    rw [List.length_drop, cutEntry]
    omega
  rcases hdrop : b.drop (cutEntry b) with _ | ⟨x, _ | ⟨y, _ | ⟨z, _ | ⟨_, _⟩⟩⟩⟩ <;>
    rw [hdrop] at hlen
  · exact absurd hlen.symm hr
  · refine ⟨fun c ↦ [1, 0, c, 0], [x, 1], [0], fun _ ↦ rfl, ?_, fun c ↦ ⟨?_, rfl, rfl⟩⟩
    · change 256 * (256 * 0 + x.toNat) + 1 ≠ 0
      omega
    · rw [← hlen]
      rfl
  · have hnumber : slice b (cutEntry b) (cutEntry b + 2) = [x, y] :=
      slice_of_drop (hdrop.trans (List.append_nil _).symm) rfl
    refine ⟨fun c ↦ [0, c, 0, 0], [x, y], [0], fun _ ↦ rfl, ?_, fun c ↦ ⟨?_, rfl, rfl⟩⟩
    · rw [← hnumber]
      exact h (by rw [← hlen]; exact le_rfl)
    · rw [← hlen]
      rfl
  · have hnumber : slice b (cutEntry b) (cutEntry b + 2) = [x, y] :=
      slice_of_drop hdrop rfl
    refine ⟨fun c ↦ [c, 0, 0, 0], [x, y], [z], fun _ ↦ rfl, ?_, fun c ↦ ⟨?_, rfl, rfl⟩⟩
    · rw [← hnumber]
      exact h (by rw [← hlen]; simp)
    · rw [← hlen]
      rfl
  · rw [List.length_cons, List.length_cons, List.length_cons, List.length_cons] at hlen
    omega

/-- The last of the programs is the one that is listed. -/
theorem lookup_foldl_concat {α β : Type} [DecidableEq α] (l : List (α × β)) (x : α × β)
    (m : Finmap fun _ : α ↦ β) :
    ((l ++ [x]).foldl (fun m x ↦ m.insert x.1 x.2) m).lookup x.1 = some x.2 := by
  rw [List.foldl_append]
  exact Finmap.lookup_insert _

theorem crcUnread_parsePat_iff (hb : 8 ≤ b.length) : CrcUnread parsePat b ↔ PatSettled b := by
  rw [crcUnread_iff_of_does (by omega) fun sec hsec ↦ does_parsePat hsec, PatSettled]
  refine imp_congr_right fun hid ↦ ?_
  constructor
  · intro h
    by_contra hnot
    obtain ⟨hr, hnumber⟩ := not_or.mp hnot
    obtain ⟨t, t', n, pid, pid', ht, ht', hread, hread', hne⟩ :=
      exists_readProgram_ne hr fun hle heq ↦ hnumber ⟨hle, heq⟩
    have hprograms {t : Bytes} {pid : ℕ} (ht : t.length = 4)
        (hread : readProgram (b ++ t) (cutEntry b) = some (n, pid)) :
        ((readPat (b ++ t)).apply {}).programs.lookup n = some pid := by
      rw [Pat.apply_eq, programs_append hb ht, if_neg hr, hread]
      exact lookup_foldl_concat _ (n, pid) _
    have hsame := hprograms ht hread
    rw [h t t' ht ht' {}, hprograms ht' hread'] at hsame
    exact hne (Option.some.inj hsame).symm
  · intro h t t' ht ht' info
    have hid : (readPat (b ++ t)).transportStreamId = (readPat (b ++ t')).transportStreamId :=
      number_append (by omega)
    have hprograms : (readPat (b ++ t)).programs = (readPat (b ++ t')).programs := by
      rw [programs_append hb ht, programs_append hb ht']
      obtain hr | ⟨hr, hnumber⟩ := h
      · rw [if_pos hr, if_pos hr]
      · have hnone (t : Bytes) : readProgram (b ++ t) (cutEntry b) = none := by
          rw [readProgram, slice_append_left (by rw [cutEntry]; omega), hnumber]
          rfl
        rw [hnone, hnone]
    rw [Pat.apply, Pat.apply, hid, hprograms]

end Pat

section Sdt

variable (eucJis2004 : Codec)

/-- The descriptors of every service are settled, where they go on behind the end. -/
def SdtSettled (b : Bytes) : Prop :=
  b[0]? = some 0x42 →
    10 ≤ b.length ∧ ∀ p ∈ loopPositions 3 b b.length 11, Overruns 3 b p →
      ServiceSettled eucJis2004 (openAt 3 b p) (intoField 3 b p)

instance (b : Bytes) : Decidable (SdtSettled eucJis2004 b) :=
  inferInstanceAs (Decidable (_ → _ ∧ ∀ p ∈ _, _ → _))

variable {eucJis2004} {b t : Bytes}

/-- The services of one entry. -/
def servicesAt (eucJis2004 : Codec) (sec : Bytes) (p : ℕ) : List ServiceInfo :=
  readAt (readService eucJis2004 (intFromBytes (slice sec p (p + 2)))) 3 sec p

theorem readServices_eq (sec : Bytes) (fin i : ℕ) :
    readServices eucJis2004 sec fin i
      = (loopPositions 3 sec fin i).flatMap (servicesAt eucJis2004 sec) := by
  induction i using loopPositions.induct 3 sec fin with
  | case1 i h ih =>
    have hnext : i + (5 + (intFromBytes (slice sec (i + 3) (i + 5)) &&& 0x0FFF))
        = i + 3 + 2 + loopLength sec (i + 3) := (Nat.add_assoc i 5 _).symm
    rw [readServices, if_pos h, loopPositions, if_pos h, List.flatMap_cons, ← ih, ← hnext]
    rfl
  | case2 i h =>
    rw [readServices, if_neg h, loopPositions, if_neg h]
    rfl

theorem services_append (ht : t.length = 4) :
    (readSdt eucJis2004 (b ++ t)).services
      = (loopPositions 3 b b.length 11).flatMap (servicesAt eucJis2004 (b ++ t)) := by
  rw [readSdt, List.length_append, ht, Nat.add_sub_cancel]
  dsimp only
  rw [readServices_eq, loopPositions_append le_rfl]

theorem servicesAt_append {p : ℕ} (hp : p + 5 ≤ b.length) :
    servicesAt eucJis2004 (b ++ t) p
      = readAt (readService eucJis2004 (intFromBytes (slice b p (p + 2)))) 3 (b ++ t) p := by
  rw [servicesAt, slice_append_left (by omega)]

theorem serviceId_of_mem_readAt {serviceId lead p : ℕ} {sec : Bytes} {a : ServiceInfo}
    (h : a ∈ readAt (readService eucJis2004 serviceId) lead sec p) : a.serviceId = serviceId := by
  obtain ⟨d, -, hd⟩ := List.mem_filterMap.mp h
  rw [readService] at hd
  split at hd
  · cases hd
    rfl
  · cases hd

/-- The last of the services is the one that is known. -/
theorem lookup_foldl_insertService (l : List ServiceInfo) (a : ServiceInfo)
    (m : Finmap fun _ : ℕ ↦ ServiceInfo) :
    ((l ++ [a]).foldl insertService m).lookup a.serviceId = some a := by
  rw [List.foldl_append]
  exact Finmap.lookup_insert _

/-- The two bytes behind the section header are in front of the field, or the second of them is in
it. -/
theorem exists_networkId_ne (hb : 8 ≤ b.length) (h : b.length < 10) :
    ∃ t t' : Bytes, t.length = 4 ∧ t'.length = 4
      ∧ intFromBytes (slice (b ++ t) 8 10) ≠ intFromBytes (slice (b ++ t') 8 10) := by
  have hread (c : UInt8) :
      intFromBytes (slice (b ++ (List.replicate (9 - b.length) 0 ++ c
          :: List.replicate (b.length - 6) 0)) 8 10)
        = 256 * intFromBytes (slice b 8 10 ++ List.replicate (9 - b.length) 0) + c.toNat := by
    have htake : (List.replicate (9 - b.length) 0 ++ c :: List.replicate (b.length - 6) 0).take
        (8 + 2 - b.length) = List.replicate (9 - b.length) (0 : UInt8) ++ [c] := by
      rw [List.take_append, List.length_replicate, List.take_of_length_le
        (by rw [List.length_replicate]; omega), show 8 + 2 - b.length - (9 - b.length) = 1 by omega]
      rfl
    rw [slice_append hb 2, htake, ← List.append_assoc, intFromBytes_concat]
  have hlength (c : UInt8) :
      (List.replicate (9 - b.length) 0 ++ c :: List.replicate (b.length - 6) 0).length = 4 := by
    rw [List.length_append, List.length_cons, List.length_replicate, List.length_replicate]
    omega
  refine ⟨_, _, hlength 0, hlength 1, ?_⟩
  rw [hread, hread]
  intro heq
  exact absurd (Nat.add_left_cancel heq) (by decide)

/-- What is settled in an SDT stays the same. -/
theorem sdt_apply_eq {t' : Bytes} (ht : t.length = 4) (ht' : t'.length = 4) (hlen : 10 ≤ b.length)
    (h : ∀ p ∈ loopPositions 3 b b.length 11, Overruns 3 b p →
      ServiceSettled eucJis2004 (openAt 3 b p) (intoField 3 b p)) (info : TransportInfo) :
    (readSdt eucJis2004 (b ++ t)).apply info = (readSdt eucJis2004 (b ++ t')).apply info := by
  have hservices : (readSdt eucJis2004 (b ++ t)).services
      = (readSdt eucJis2004 (b ++ t')).services := by
    rw [services_append ht, services_append ht']
    refine List.flatMap_congr fun p hp ↦ ?_
    have hhead := header_of_mem_loopPositions hp
    rw [servicesAt_append hhead, servicesAt_append hhead]
    exact readAt_of_hidden ht ht' hhead fun hover ↦
      hidden_service (openAt_open 3 b p) (min_le_left 4 _) (h p hp hover)
  have hstream : (readSdt eucJis2004 (b ++ t)).transportStreamId
      = (readSdt eucJis2004 (b ++ t')).transportStreamId := number_append (by omega)
  have hnetwork : (readSdt eucJis2004 (b ++ t)).originalNetworkId
      = (readSdt eucJis2004 (b ++ t')).originalNetworkId := number_append hlen
  rw [Sdt.apply, Sdt.apply, hservices, hstream, hnetwork]

theorem crcUnread_parseSdt_iff (hb : 8 ≤ b.length) :
    CrcUnread (parseSdt eucJis2004) b ↔ SdtSettled eucJis2004 b := by
  rw [crcUnread_iff_of_does (by omega) fun sec hsec ↦ does_parseSdt hsec, SdtSettled]
  refine imp_congr_right fun hid ↦ ?_
  constructor
  · intro h
    refine ⟨?_, fun p hp hover ↦ ?_⟩
    · by_contra hlt
      obtain ⟨t, t', ht, ht', hne⟩ := exists_networkId_ne hb (not_le.mp hlt)
      have := congrArg TransportInfo.originalNetworkId (h t t' ht ht' {})
      rw [Sdt.apply_eq, Sdt.apply_eq] at this
      exact hne (Option.some.inj this)
    · by_contra hnot
      have hhead := header_of_mem_loopPositions hp
      obtain ⟨front, hfront, -⟩ := eq_concat_of_overruns le_rfl hp hover
      have hshown : Shown (readService eucJis2004 (intFromBytes (slice b p (p + 2))))
          (openAt 3 b p) (intoField 3 b p) :=
        shown_service (openAt_open 3 b p) (min_le_left 4 _) hnot
      obtain ⟨t, t', before, a, a', ht, ht', ha, ha', hne⟩ := readAt_of_shown hhead hshown
      have hservices {t : Bytes} {a : ServiceInfo} (ht : t.length = 4)
          (ha : readAt (readService eucJis2004 (intFromBytes (slice b p (p + 2)))) 3 (b ++ t) p
            = before ++ [a]) :
          ((readSdt eucJis2004 (b ++ t)).apply {}).services.lookup
            (intFromBytes (slice b p (p + 2))) = some a := by
        have hmem : a ∈ before ++ [a] := List.mem_append_right _ (List.mem_singleton.mpr rfl)
        rw [← ha] at hmem
        rw [Sdt.apply_eq, services_append ht, hfront, List.flatMap_append, List.flatMap_singleton,
          servicesAt_append hhead, ha, ← List.append_assoc, ← serviceId_of_mem_readAt hmem]
        exact lookup_foldl_insertService _ a _
      have hsame := hservices ht ha
      rw [h t t' ht ht' {}, hservices ht' ha'] at hsame
      exact hne (Option.some.inj hsame).symm
  · rintro ⟨hlen, h⟩ t t' ht ht' info
    exact sdt_apply_eq ht ht' hlen h info

end Sdt

section Nit

variable (eucJis2004 : Codec)

/-- The network descriptors are settled where they go on behind the end; where they do not, the
descriptors of every transport stream are. -/
def NitLoopsSettled (b : Bytes) : Prop :=
  let i := 10 + networkLoopLength b
  if b.length < i then
    NetworkNameSettled eucJis2004
      ((cut (slice b 10 i)).1.filterMap (readNetworkName eucJis2004)).getLast?
      (cut (slice b 10 i)).2 (min 4 (i - b.length))
  else
    ∀ p ∈ loopPositions 4 b (min (i + 2 + loopLength b i) b.length) (i + 2), Overruns 4 b p →
      TsInformationSettled eucJis2004 (openAt 4 b p) (intoField 4 b p)

instance (b : Bytes) : Decidable (NitLoopsSettled eucJis2004 b) :=
  inferInstanceAs (Decidable (if b.length < 10 + networkLoopLength b then _ else ∀ p ∈ _, _ → _))

/-- The length of the network descriptors is in front of the field, and all loops are settled. -/
def NitSettled (b : Bytes) : Prop :=
  b[0]? = some 0x40 → 10 ≤ b.length ∧ NitLoopsSettled eucJis2004 b

instance (b : Bytes) : Decidable (NitSettled eucJis2004 b) :=
  inferInstanceAs (Decidable (_ → _ ∧ NitLoopsSettled eucJis2004 b))

variable {eucJis2004} {b t : Bytes}

/-- One entry of the transport stream loop. -/
def entryAt (eucJis2004 : Codec) (sec : Bytes) (p : ℕ) : NitEntry where
  transportStreamId := intFromBytes (slice sec p (p + 2))
  tsInformation := readAt (readTsInformation eucJis2004) 4 sec p

theorem readEntries_eq (sec : Bytes) (fin i : ℕ) :
    readEntries eucJis2004 sec fin i
      = (loopPositions 4 sec fin i).map (entryAt eucJis2004 sec) := by
  induction i using loopPositions.induct 4 sec fin with
  | case1 i h ih =>
    have hnext : i + (6 + (intFromBytes (slice sec (i + 4) (i + 6)) &&& 0x0FFF))
        = i + 4 + 2 + loopLength sec (i + 4) := (Nat.add_assoc i 6 _).symm
    rw [readEntries, if_pos h, loopPositions, if_pos h, List.map_cons, ← ih, ← hnext]
    rfl
  | case2 i h =>
    rw [readEntries, if_neg h, loopPositions, if_neg h]
    rfl

theorem networkLoopLength_append (h : 10 ≤ b.length) :
    networkLoopLength (b ++ t) = networkLoopLength b := loopLength_append h

theorem networkNames_append (h : 10 ≤ b.length) :
    (readNit eucJis2004 (b ++ t)).networkNames.getLast?
      = lastName eucJis2004
          ((cut (slice b 10 (10 + networkLoopLength b))).1.filterMap
            (readNetworkName eucJis2004)).getLast?
          ((cut (slice b 10 (10 + networkLoopLength b))).2
            ++ t.take (10 + networkLoopLength b - b.length)) := by
  have hnames : (readNit eucJis2004 (b ++ t)).networkNames
      = (descriptors (slice (b ++ t) 10 (10 + networkLoopLength (b ++ t)))).filterMap
          (readNetworkName eucJis2004) := rfl
  rw [hnames, networkLoopLength_append h, descriptors_slice h, List.filterMap_append,
    List.getLast?_append, lastName]

/-- The transport stream loop is empty when its length is not in front of the field. -/
theorem transportStreams_append (h : 10 ≤ b.length) (ht : t.length = 4) :
    (readNit eucJis2004 (b ++ t)).transportStreams
      = (loopPositions 4 b
          (min (10 + networkLoopLength b + 2 + loopLength b (10 + networkLoopLength b)) b.length)
          (10 + networkLoopLength b + 2)).map (entryAt eucJis2004 (b ++ t)) := by
  have hstreams : (readNit eucJis2004 (b ++ t)).transportStreams
      = readEntries eucJis2004 (b ++ t)
          (min (10 + networkLoopLength (b ++ t) + 2
            + loopLength (b ++ t) (10 + networkLoopLength (b ++ t))) ((b ++ t).length - 4))
          (10 + networkLoopLength (b ++ t) + 2) := rfl
  rw [hstreams, networkLoopLength_append h, List.length_append, ht, Nat.add_sub_cancel,
    readEntries_eq, loopPositions_append (min_le_right _ _)]
  rcases Nat.lt_or_ge b.length (10 + networkLoopLength b + 2) with hlt | hge
  · have hnil (fin : ℕ) (hfin : fin ≤ b.length) :
        loopPositions 4 b fin (10 + networkLoopLength b + 2) = [] := by
      rw [loopPositions, if_neg (by omega)]
    rw [hnil _ (min_le_right _ _), hnil _ (min_le_right _ _)]
  · rw [loopLength_append hge]

theorem entryAt_append {t' : Bytes} (ht : t.length = 4) (ht' : t'.length = 4) {p : ℕ}
    (hp : p + 6 ≤ b.length)
    (h : Overruns 4 b p → TsInformationSettled eucJis2004 (openAt 4 b p) (intoField 4 b p)) :
    entryAt eucJis2004 (b ++ t) p = entryAt eucJis2004 (b ++ t') p := by
  have hread : readAt (readTsInformation eucJis2004) 4 (b ++ t) p
      = readAt (readTsInformation eucJis2004) 4 (b ++ t') p :=
    readAt_of_hidden ht ht' hp fun hover ↦
      hidden_tsInformation (openAt_open 4 b p) (min_le_left 4 _) (h hover)
  rw [entryAt, entryAt, hread, slice_append_left (by omega), slice_append_left (by omega)]

/-- What is settled in a NIT stays the same. -/
theorem nit_apply_eq {t' : Bytes} (ht : t.length = 4) (ht' : t'.length = 4) (hlen : 10 ≤ b.length)
    (h : NitLoopsSettled eucJis2004 b)
    (info : TransportInfo) :
    (readNit eucJis2004 (b ++ t)).apply info = (readNit eucJis2004 (b ++ t')).apply info := by
  have hnames : (readNit eucJis2004 (b ++ t)).networkNames.getLast?
      = (readNit eucJis2004 (b ++ t')).networkNames.getLast? := by
    rw [networkNames_append hlen, networkNames_append hlen]
    rw [NitLoopsSettled] at h
    split at h
    · rw [networkNameSettled_iff fun _ _ _ ↦ cut_open _] at h
      refine h _ _ ?_ ?_ <;> rw [List.length_take] <;> omega
    · rw [show 10 + networkLoopLength b - b.length = 0 by omega]
      rfl
  have hstreams : (readNit eucJis2004 (b ++ t)).transportStreams
      = (readNit eucJis2004 (b ++ t')).transportStreams := by
    rw [transportStreams_append hlen ht, transportStreams_append hlen ht']
    refine List.map_congr_left fun p hp ↦ ?_
    have hhead := header_of_mem_loopPositions hp
    refine entryAt_append ht ht' (by omega) fun hover ↦ ?_
    rw [NitLoopsSettled] at h
    split at h
    · rw [loopPositions, if_neg (by omega)] at hp
      exact absurd hp List.not_mem_nil
    · exact h p hp hover
  rw [Nit.apply_eq, Nit.apply_eq, hnames, Nit.tsInformation, Nit.tsInformation, hstreams]

/-- In a short section, the length of the network descriptors is in the field, and so are they. -/
theorem exists_networkName_of_short (eucJis2004 : Codec) (hb : 8 ≤ b.length) (h : b.length < 10) :
    ∃ t t' : Bytes, t.length = 4 ∧ t'.length = 4
      ∧ (readNit eucJis2004 (b ++ t)).networkNames.getLast? = some []
      ∧ (readNit eucJis2004 (b ++ t')).networkNames.getLast? = none := by
  have hnames (t : Bytes) : (readNit eucJis2004 (b ++ t)).networkNames.getLast?
      = lastName eucJis2004 none
          (slice (b ++ t) 10 (10 + networkLoopLength (b ++ t))) := (Option.or_none).symm
  -- the high byte of the length may be in front of the field
  have hhigh : (b.drop 8 ++ List.replicate (9 - b.length) 0).length = 1 := by
    rw [List.length_append, List.length_drop, List.length_replicate]
    omega
  set t : Bytes := List.replicate (9 - b.length) 0 ++ 2 :: 0x40 :: 0
    :: List.replicate (b.length - 8) 0 with ht
  refine ⟨t, List.replicate 4 0, ?_, rfl, ?_, ?_⟩
  · rw [ht, List.length_append, List.length_cons, List.length_cons, List.length_cons,
      List.length_replicate, List.length_replicate]
    omega
  · have hdrop : (b ++ t).drop 8 = (b.drop 8 ++ List.replicate (9 - b.length) 0 ++ [2])
        ++ 0x40 :: 0 :: List.replicate (b.length - 8) 0 := by
      rw [List.drop_append_of_le_length hb, ht]
      simp only [List.append_assoc, List.singleton_append]
    have hlength : 2 ≤ networkLoopLength (b ++ t) := by
      rw [networkLoopLength, slice_of_drop hdrop (by rw [List.length_append, hhigh]; rfl),
        intFromBytes_concat, show (0x0FFF : ℕ) = 2 ^ 12 - 1 from rfl,
        Nat.and_two_pow_sub_one_eq_mod, show (2 : UInt8).toNat = 2 from rfl]
      omega
    have hrest : (b ++ t).drop 10 = 0x40 :: 0 :: List.replicate (b.length - 8) 0 :=
      drop_of_drop hdrop (by rw [List.length_append, hhigh]; rfl)
    obtain ⟨n, hn⟩ := Nat.exists_eq_add_of_le' hlength
    rw [hnames, slice_add, hrest, hn, List.take_succ_cons, List.take_succ_cons,
      lastName_cons_cons, if_pos rfl, List.take_replicate, UInt8.toNat_zero, List.drop_zero,
      List.take_zero, lastName_replicate, text_nil]
  · have hrest : (b ++ List.replicate 4 0).drop 10 = List.replicate (b.length - 6) 0 := by
      rw [List.drop_append, List.drop_of_length_le h.le, List.nil_append, List.drop_replicate]
      congr 1
      omega
    rw [hnames, slice_add, hrest, List.take_replicate, lastName_replicate]

theorem exists_getD_ne {o o' : Option Str} (h : o ≠ o') : ∃ s, o.getD s ≠ o'.getD s := by
  have hne (s : Str) : s ≠ ' ' :: s := fun heq ↦ by
    have := congrArg List.length heq
    rw [List.length_cons] at this
    omega
  match o, o', h with
  | none, none, h => exact absurd rfl h
  | none, some s', _ => exact ⟨' ' :: s', (hne s').symm⟩
  | some s, none, _ => exact ⟨' ' :: s, hne s⟩
  | some s, some s', h => exact ⟨[], fun heq ↦ h (congrArg some heq)⟩

/-- A section that gives different network names is read differently by someone. -/
theorem not_same_of_networkNames {t' : Bytes}
    (hne : (readNit eucJis2004 (b ++ t)).networkNames.getLast?
      ≠ (readNit eucJis2004 (b ++ t')).networkNames.getLast?) :
    ∃ info,
      (readNit eucJis2004 (b ++ t)).apply info ≠ (readNit eucJis2004 (b ++ t')).apply info := by
  obtain ⟨s, hs⟩ := exists_getD_ne hne
  refine ⟨{ networkName := s }, fun heq ↦ hs ?_⟩
  have := congrArg TransportInfo.networkName heq
  rwa [Nit.apply_eq, Nit.apply_eq] at this

/-- The last entry of the loop, when nothing is known about the transport stream. -/
theorem tsInformation_concat {n : Nit} {entries : List NitEntry} {e : NitEntry}
    {front : List (ℕ × Str)} {a : ℕ × Str} (hn : n.transportStreams = entries ++ [e])
    (he : e.tsInformation = front ++ [a]) : (n.tsInformation none).getLast? = some a := by
  rw [Nit.tsInformation, hn, List.flatMap_append, List.flatMap_singleton, if_pos (.inl rfl), he,
    ← List.append_assoc, List.getLast?_concat]

theorem crcUnread_parseNit_iff (hb : 8 ≤ b.length) :
    CrcUnread (parseNit eucJis2004) b ↔ NitSettled eucJis2004 b := by
  rw [crcUnread_iff_of_does (by omega) fun sec hsec ↦ does_parseNit hsec, NitSettled]
  refine imp_congr_right fun hid ↦ ?_
  constructor
  · intro h
    have hnames (t t' : Bytes) (ht : t.length = 4) (ht' : t'.length = 4) :
        (readNit eucJis2004 (b ++ t)).networkNames.getLast?
          = (readNit eucJis2004 (b ++ t')).networkNames.getLast? := by
      by_contra hne
      obtain ⟨info, hinfo⟩ := not_same_of_networkNames hne
      exact hinfo (h t t' ht ht' info)
    have hlen : 10 ≤ b.length := by
      by_contra hlt
      obtain ⟨t, t', ht, ht', hempty, hnone⟩ :=
        exists_networkName_of_short eucJis2004 hb (not_le.mp hlt)
      have := hnames t t' ht ht'
      rw [hempty, hnone] at this
      cases this
    refine ⟨hlen, ?_⟩
    rw [NitLoopsSettled]
    split
    · rw [networkNameSettled_iff fun _ _ _ ↦ cut_open _]
      intro s s' hs hs'
      obtain ⟨t, ht, rfl⟩ := exists_take_eq hs
      obtain ⟨t', ht', rfl⟩ := exists_take_eq hs'
      rw [← networkNames_append hlen, ← networkNames_append hlen]
      exact hnames t t' ht ht'
    · intro p hp hover
      by_contra hnot
      have hhead := header_of_mem_loopPositions hp
      have hhead' : p + 4 + 2 ≤ b.length := by omega
      obtain ⟨front, hfront, -⟩ := eq_concat_of_overruns (min_le_right _ _) hp hover
      obtain ⟨t, t', before, a, a', ht, ht', ha, ha', hne⟩ := readAt_of_shown hhead'
        (shown_tsInformation (openAt_open 4 b p) (min_le_left 4 _) hnot)
      have hinfo {t : Bytes} {a : ℕ × Str} (ht : t.length = 4)
          (ha : readAt (readTsInformation eucJis2004) 4 (b ++ t) p = before ++ [a]) :
          ((readNit eucJis2004 (b ++ t)).tsInformation none).getLast? = some a := by
        have hstreams : (readNit eucJis2004 (b ++ t)).transportStreams
            = front.map (entryAt eucJis2004 (b ++ t)) ++ [entryAt eucJis2004 (b ++ t) p] := by
          rw [transportStreams_append hlen ht, hfront, List.map_append, List.map_singleton]
        exact tsInformation_concat hstreams ha
      have hsame := h t t' ht ht' {}
      rw [Nit.apply_eq, Nit.apply_eq, hinfo ht ha, hinfo ht' ha'] at hsame
      have hkey := Option.some.inj (congrArg TransportInfo.remoteControlKeyId hsame)
      have hname := congrArg TransportInfo.tsName hsame
      exact hne (Prod.ext hkey hname)
  · rintro ⟨hlen, h⟩ t t' ht ht' info
    exact nit_apply_eq ht ht' hlen h info

end Nit

/-- **The CRC field** does not show, exactly when the sections are settled: no entry of a PAT is cut
by the field, unless its number is 0; the fixed part of an SDT or a NIT is whole; and every
descriptor loop that goes on behind the end is settled. -/
theorem crcUnread_iff (eucJis2004 : Codec) (b : Bytes) (hb : 8 ≤ b.length) :
    (CrcUnread parsePat b ↔ PatSettled b)
    ∧ (CrcUnread (parseSdt eucJis2004) b ↔ SdtSettled eucJis2004 b)
    ∧ (CrcUnread (parseNit eucJis2004) b ↔ NitSettled eucJis2004 b) :=
  ⟨crcUnread_parsePat_iff hb, crcUnread_parseSdt_iff hb, crcUnread_parseNit_iff hb⟩

/-- A PAT without its CRC, whose last entry is the network PID, and cut. -/
def networkPat : Bytes := [0x00, 0xB0, 0x0B, 0x7F, 0xE0, 0xC1, 0x00, 0x00, 0x00, 0x00]

/-- An SDT with a service whose name breaks off in front of the last byte, behind ESC. -/
def escapedSdt : Bytes :=
  [0x42, 0xF0, 0x19, 0x7F, 0xE0, 0xC1, 0x00, 0x00, 0x7F, 0xE0, 0xFF, 0x04, 0x00, 0xFC, 0x80, 0x09,
    0x48, 0x07, 0x01, 0x00, 0x04, 0x0E, 0x41, 0x1B]

/-- A NIT with a network name that breaks off in a CSI sequence. -/
def escapedNit : Bytes :=
  [0x40, 0xF0, 0x10, 0x7F, 0xE0, 0xC1, 0x00, 0x00, 0xF0, 0x06, 0x40, 0x04, 0x0E, 0x41, 0x9B]

/-- The CRC field is cut into, and does not show. -/
theorem crcUnread_escaped : CrcUnread parsePat networkPat
    ∧ CrcUnread (parseSdt fun _ ↦ none) escapedSdt
    ∧ CrcUnread (parseNit fun _ ↦ none) escapedNit := by
  obtain ⟨hpat, -, -⟩ := crcUnread_iff (fun _ ↦ none) networkPat (by decide)
  obtain ⟨-, hsdt, -⟩ := crcUnread_iff (fun _ ↦ none) escapedSdt (by decide)
  obtain ⟨-, -, hnit⟩ := crcUnread_iff (fun _ ↦ none) escapedNit (by decide)
  exact ⟨hpat.mpr (by decide), hsdt.mpr (by decide +kernel), hnit.mpr (by decide +kernel)⟩

/-- A PAT with a program whose PID is missing, without its CRC. -/
def cutPat : Bytes := [0x00, 0xB0, 0x0B, 0x7F, 0xE0, 0xC1, 0x00, 0x00, 0x04, 0x00]

/-- An SDT with a service whose descriptors are missing, but for the first two bytes. -/
def cutSdt : Bytes :=
  [0x42, 0xF0, 0x13, 0x7F, 0xE0, 0xC1, 0x00, 0x00, 0x7F, 0xE0, 0xFF, 0x04, 0x00, 0xFC, 0x80, 0x05,
    0x48, 0x03]

/-- A NIT whose network descriptors are missing. -/
def cutNit : Bytes := [0x40, 0xF0, 0x0B, 0x7F, 0xE0, 0xC1, 0x00, 0x00, 0xF0, 0x04]

/-- **The CRC field shows** in each of these: it gives the PID, the type of the service, and the
name of the network. -/
theorem not_crcUnread_cut : ¬CrcUnread parsePat cutPat
    ∧ ¬CrcUnread (parseSdt fun _ ↦ none) cutSdt ∧ ¬CrcUnread (parseNit fun _ ↦ none) cutNit := by
  refine ⟨fun h ↦ ?_, fun h ↦ ?_, fun h ↦ ?_⟩
  · have hpid : ((parsePat (cutPat ++ [0xE1, 0, 0, 0])).catching {}).programs.lookup 0x400
        = some 0x100 := by decide +kernel
    have hpid' : ((parsePat (cutPat ++ [0xE2, 0, 0, 0])).catching {}).programs.lookup 0x400
        = some 0x200 := by decide +kernel
    rw [h [0xE1, 0, 0, 0] [0xE2, 0, 0, 0] rfl rfl {}, hpid'] at hpid
    cases hpid
  · have htype : ((parseSdt (fun _ ↦ none) (cutSdt ++ [1, 0, 0, 0])).catching {}).services.lookup
        0x400 = some ⟨0x400, 1, [], []⟩ := by decide +kernel
    have htype' : ((parseSdt (fun _ ↦ none) (cutSdt ++ [2, 0, 0, 0])).catching {}).services.lookup
        0x400 = some ⟨0x400, 2, [], []⟩ := by decide +kernel
    rw [h [1, 0, 0, 0] [2, 0, 0, 0] rfl rfl {}, htype'] at htype
    cases htype
  · have hname : ((parseNit (fun _ ↦ none) (cutNit ++ [0x40, 1, 0x20, 0])).catching {}).networkName
        = [' '] := by decide +kernel
    have hname' : ((parseNit (fun _ ↦ none) (cutNit ++ [0x40, 0, 0, 0])).catching {}).networkName
        = [] := by decide +kernel
    rw [h [0x40, 1, 0x20, 0] [0x40, 0, 0, 0] rfl rfl {}, hname'] at hname
    cases hname

end Recdyud
