import Recdyud.Ts.SiCollector

/-!
# The order in which tables arrive

PAT, SDT and NIT are broadcast independently, so what is collected should not depend on which of
them comes first. Every parser writes fields of its own, except that all three depend on
`transport_stream_id`: `parse_sdt` sets it when nothing else has, and `parse_nit` takes the TS
information of the stream with that id only — or of every stream when the id is still unknown.

So exactly one thing can differ: a NIT that comes first leaves the TS information of the *last*
stream it lists, any other NIT the one of our own stream. `info_eq_iff` states when that shows.

The proof compares the run with one in which the id is known from the start (`known`). There the
sections commute, so the order is immaterial by `List.Perm.foldl_eq'`.
-/

namespace Recdyud

/-! ## What a reading does, field by field -/

def insertService (m : Finmap fun _ : ℕ ↦ ServiceInfo) (s : ServiceInfo) :
    Finmap fun _ : ℕ ↦ ServiceInfo :=
  m.insert s.serviceId s

namespace TransportInfo

/-- Overwrite the TS information. -/
def withTsInformation (info : TransportInfo) (x : Option (ℕ × Str)) : TransportInfo :=
  { info with remoteControlKeyId := x.map Prod.fst, tsName := (x.map Prod.snd).getD [] }

theorem withTsInformation_inj {info : TransportInfo} {x y : Option (ℕ × Str)} :
    info.withTsInformation x = info.withTsInformation y ↔ x = y := by
  refine ⟨fun h ↦ ?_, fun h ↦ by rw [h]⟩
  have hkey := congrArg remoteControlKeyId h
  have hname := congrArg tsName h
  cases x <;> cases y <;> simp_all [withTsInformation, Prod.ext_iff]

theorem foldl_addProgram (l : List (ℕ × ℕ)) (info : TransportInfo) :
    l.foldl addProgram info
      = { info with programs := l.foldl (fun m x ↦ m.insert x.1 x.2) info.programs } := by
  induction l generalizing info with
  | nil => rfl
  | cons x l ih => rw [List.foldl_cons, ih]; rfl

theorem foldl_addService (l : List ServiceInfo) (info : TransportInfo) :
    l.foldl addService info
      = { info with services := l.foldl insertService info.services } := by
  induction l generalizing info with
  | nil => rfl
  | cons x l ih => rw [List.foldl_cons, ih]; rfl

theorem foldl_setNetworkName (l : List Str) (info : TransportInfo) :
    l.foldl (fun info name ↦ { info with networkName := name }) info
      = { info with networkName := l.getLast?.getD info.networkName } := by
  induction l generalizing info with
  | nil => rfl
  | cons x l ih => rw [List.foldl_cons, ih, List.getLast?_cons]; cases l.getLast? <;> rfl

theorem foldl_setTsInformation (l : List (ℕ × Str)) (info : TransportInfo) :
    l.foldl setTsInformation info
      = { info with
          remoteControlKeyId := (l.getLast?.map Prod.fst).or info.remoteControlKeyId
          tsName := (l.getLast?.map Prod.snd).getD info.tsName } := by
  induction l generalizing info with
  | nil => rfl
  | cons x l ih => rw [List.foldl_cons, ih, List.getLast?_cons]; cases l.getLast? <;> rfl

end TransportInfo

/-- The TS information a NIT has for a stream, or for all streams, in the order of its loop. -/
def Nit.tsInformation (t : Nit) (tsid : Option ℕ) : List (ℕ × Str) :=
  t.transportStreams.flatMap fun e ↦
    if tsid = none ∨ tsid = some e.transportStreamId then e.tsInformation else []

theorem Pat.apply_eq (t : Pat) (info : TransportInfo) :
    t.apply info = { info with
      transportStreamId := some t.transportStreamId
      programs := t.programs.foldl (fun m x ↦ m.insert x.1 x.2) info.programs } := by
  rw [Pat.apply, TransportInfo.foldl_addProgram]

theorem Sdt.apply_eq (t : Sdt) (info : TransportInfo) :
    t.apply info = { info with
      transportStreamId := info.transportStreamId.or (some t.transportStreamId)
      originalNetworkId := some t.originalNetworkId
      services := t.services.foldl insertService info.services } := by
  rw [Sdt.apply, TransportInfo.foldl_addService]

theorem foldl_addEntry (es : List NitEntry) (info : TransportInfo) :
    es.foldl TransportInfo.addEntry info
      = ((Nit.mk [] es).tsInformation info.transportStreamId).foldl
          TransportInfo.setTsInformation info := by
  induction es generalizing info with
  | nil => rfl
  | cons e es ih =>
    have hid : (info.addEntry e).transportStreamId = info.transportStreamId := by
      rw [TransportInfo.addEntry]
      split
      · rw [TransportInfo.foldl_setTsInformation]
      · rfl
    rw [List.foldl_cons, ih, hid, Nit.tsInformation, Nit.tsInformation, List.flatMap_cons,
      List.foldl_append, TransportInfo.addEntry]
    split <;> rfl

theorem Nit.apply_eq (t : Nit) (info : TransportInfo) :
    t.apply info = { info with
      networkName := t.networkNames.getLast?.getD info.networkName
      remoteControlKeyId :=
        ((t.tsInformation info.transportStreamId).getLast?.map Prod.fst).or info.remoteControlKeyId
      tsName := ((t.tsInformation info.transportStreamId).getLast?.map Prod.snd).getD
        info.tsName } := by
  rw [Nit.apply, foldl_addEntry, TransportInfo.foldl_setNetworkName,
    TransportInfo.foldl_setTsInformation]
  rfl

theorem foldl_insertService {a : ServiceInfo} {l : List ServiceInfo}
    (h : ∀ b ∈ l, a.serviceId ≠ b.serviceId) (m : Finmap fun _ : ℕ ↦ ServiceInfo) :
    l.foldl insertService (insertService m a) = insertService (l.foldl insertService m) a := by
  induction l generalizing m with
  | nil => rfl
  | cons b l ih =>
    rw [List.foldl_cons, List.foldl_cons, ← ih fun c hc ↦ h c (List.mem_cons_of_mem _ hc)]
    exact congrArg (l.foldl insertService)
      (Finmap.insert_insert_of_ne m (h b List.mem_cons_self))

/-- The services of two sections with different ids can be inserted in either order. -/
theorem foldl_insertService_comm {l₁ l₂ : List ServiceInfo}
    (h : ∀ a ∈ l₁, ∀ b ∈ l₂, a.serviceId ≠ b.serviceId) (m : Finmap fun _ : ℕ ↦ ServiceInfo) :
    l₂.foldl insertService (l₁.foldl insertService m)
      = l₁.foldl insertService (l₂.foldl insertService m) := by
  induction l₁ generalizing m with
  | nil => rfl
  | cons a l₁ ih =>
    rw [List.foldl_cons, List.foldl_cons, ih fun b hb ↦ h b (List.mem_cons_of_mem _ hb),
      foldl_insertService (h a List.mem_cons_self)]

/-! ## Sections of one multiplex -/

/-- No service is described in both sections. -/
def ServicesDisjoint (eucJis2004 : Codec) (s t : Bytes) : Prop :=
  ∀ a ∈ (readSdt eucJis2004 s).services, ∀ b ∈ (readSdt eucJis2004 t).services,
    a.serviceId ≠ b.serviceId

instance (eucJis2004 : Codec) : Std.Symm (ServicesDisjoint eucJis2004) :=
  ⟨fun _ _ h b hb a ha ↦ (h a ha b hb).symm⟩

/-- A consistent set of sections of one multiplex. -/
structure Multiplex (eucJis2004 : Codec) where
  transportStreamId : ℕ
  originalNetworkId : ℕ
  pat : Bytes
  sdts : List Bytes
  nit : Bytes
  pat_id : pat[0]? = some 0x00
  pat_stream : (readPat pat).transportStreamId = transportStreamId
  sdt_id : ∀ s ∈ sdts, s[0]? = some 0x42
  sdt_stream : ∀ s ∈ sdts, (readSdt eucJis2004 s).transportStreamId = transportStreamId
  sdt_network : ∀ s ∈ sdts, (readSdt eucJis2004 s).originalNetworkId = originalNetworkId
  /-- A service is described in one section only. -/
  services : sdts.Pairwise (ServicesDisjoint eucJis2004)
  nit_id : nit[0]? = some 0x40
  /-- A transport stream is listed once. -/
  nit_streams : ((readNit eucJis2004 nit).transportStreams.map NitEntry.transportStreamId).Nodup
  /-- A transport stream has at most one TS information descriptor. -/
  nit_single : ∀ e ∈ (readNit eucJis2004 nit).transportStreams, e.tsInformation.length ≤ 1

/-- Hand sections, each with its table, to the parsers of a fresh collector. -/
def handAll (eucJis2004 : Codec) (order : List (Table × Bytes)) : SiCollector :=
  order.foldl (fun c x ↦ c.take eucJis2004 x.1 x.2) {}

namespace Multiplex

variable {eucJis2004 : Codec} (m : Multiplex eucJis2004)

/-- The sections, each with the table it is handed over for. -/
def sections : List (Table × Bytes) := (.nit, m.nit) :: (.pat, m.pat) :: m.sdts.map (.sdt, ·)

/-- TS information descriptor of our own stream. -/
def ownTsInformation : Option (ℕ × Str) :=
  ((readNit eucJis2004 m.nit).tsInformation (some m.transportStreamId)).getLast?

/-- The last TS information descriptor of the NIT, of whatever stream. -/
def lastTsInformation : Option (ℕ × Str) := ((readNit eucJis2004 m.nit).tsInformation none).getLast?

/-- What a section does. -/
def step (eucJis2004 : Codec) (info : TransportInfo) (x : Table × Bytes) : TransportInfo :=
  (x.1.parser eucJis2004 x.2).catching info

/-- What a section does when the transport stream id is known. -/
def known (info : TransportInfo) (x : Table × Bytes) : TransportInfo :=
  step eucJis2004 { info with transportStreamId := some m.transportStreamId } x

theorem handAll_info (order : List (Table × Bytes)) :
    (handAll eucJis2004 order).info = order.foldl (step eucJis2004) {} := by
  rw [handAll]
  suffices key : ∀ c : SiCollector, (order.foldl (fun c x ↦ c.take eucJis2004 x.1 x.2) c).info
      = order.foldl (step eucJis2004) c.info from key {}
  induction order with
  | nil => intro c; rfl
  | cons x order ih => intro c; exact ih _

theorem ne_nil_of_getElem? {b : UInt8} {sec : Bytes} (h : sec[0]? = some b) : sec ≠ [] := by
  rintro rfl
  cases h

theorem step_pat (info : TransportInfo) :
    step eucJis2004 info (.pat, m.pat) = { info with
      transportStreamId := some m.transportStreamId
      programs := (readPat m.pat).programs.foldl (fun m x ↦ m.insert x.1 x.2) info.programs } := by
  rw [step, Table.parser, (does_parsePat (ne_nil_of_getElem? m.pat_id)).catching, if_pos m.pat_id,
    Pat.apply_eq, m.pat_stream]

theorem step_sdt {sdt : Bytes} (h : sdt ∈ m.sdts) {info : TransportInfo}
    (hid : info.transportStreamId = none ∨ info.transportStreamId = some m.transportStreamId) :
    step eucJis2004 info (.sdt, sdt) = { info with
      transportStreamId := some m.transportStreamId
      originalNetworkId := some m.originalNetworkId
      services := (readSdt eucJis2004 sdt).services.foldl
        insertService info.services } := by
  have hor : info.transportStreamId.or (some m.transportStreamId) = some m.transportStreamId := by
    rcases hid with hid | hid <;> rw [hid] <;> rfl
  rw [step, Table.parser, (does_parseSdt (ne_nil_of_getElem? (m.sdt_id sdt h))).catching,
    if_pos (m.sdt_id sdt h), Sdt.apply_eq, m.sdt_stream sdt h, m.sdt_network sdt h, hor]

theorem step_nit (info : TransportInfo) :
    step eucJis2004 info (.nit, m.nit) = (readNit eucJis2004 m.nit).apply info := by
  rw [step, Table.parser, (does_parseNit (ne_nil_of_getElem? m.nit_id)).catching, if_pos m.nit_id]

/-! ### With the stream id known -/

theorem known_pat (info : TransportInfo) :
    m.known info (.pat, m.pat) = { info with
      transportStreamId := some m.transportStreamId
      programs := (readPat m.pat).programs.foldl (fun m x ↦ m.insert x.1 x.2) info.programs } := by
  rw [known, step_pat]

theorem known_sdt {sdt : Bytes} (h : sdt ∈ m.sdts) (info : TransportInfo) :
    m.known info (.sdt, sdt) = { info with
      transportStreamId := some m.transportStreamId
      originalNetworkId := some m.originalNetworkId
      services := (readSdt eucJis2004 sdt).services.foldl insertService info.services } := by
  rw [known, m.step_sdt h (.inr rfl)]

theorem known_nit (info : TransportInfo) :
    m.known info (.nit, m.nit) = { info with
      transportStreamId := some m.transportStreamId
      networkName := (readNit eucJis2004 m.nit).networkNames.getLast?.getD info.networkName
      remoteControlKeyId := (m.ownTsInformation.map Prod.fst).or info.remoteControlKeyId
      tsName := (m.ownTsInformation.map Prod.snd).getD info.tsName } := by
  rw [known, step_nit, Nit.apply_eq]
  rfl

theorem mem_sections {x : Table × Bytes} :
    x ∈ m.sections ↔ x = (.nit, m.nit) ∨ x = (.pat, m.pat) ∨ ∃ s ∈ m.sdts, x = (.sdt, s) := by
  simp [sections, eq_comm]

/-- The sections commute: those of different tables write different fields, and those of the SDT
different services. -/
theorem known_comm {x y : Table × Bytes} (hx : x ∈ m.sections) (hy : y ∈ m.sections)
    (info : TransportInfo) : m.known (m.known info x) y = m.known (m.known info y) x := by
  rcases m.mem_sections.mp hx with rfl | rfl | ⟨s, hs, rfl⟩ <;>
    rcases m.mem_sections.mp hy with rfl | rfl | ⟨t, ht, rfl⟩
  · rfl
  · simp only [known_nit, known_pat]
  · simp only [known_nit, m.known_sdt ht]
  · simp only [known_nit, known_pat]
  · rfl
  · simp only [known_pat, m.known_sdt ht]
  · simp only [known_nit, m.known_sdt hs]
  · simp only [known_pat, m.known_sdt hs]
  · -- two SDT sections write the same map, at different keys
    by_cases hst : s = t
    · rw [hst]
    · simp only [m.known_sdt hs, m.known_sdt ht]
      rw [foldl_insertService_comm (m.services.forall hs ht hst)]

/-- What is collected when the stream id is known from the start. -/
def collected : TransportInfo := m.sections.foldl m.known {}

theorem foldl_known_perm {order : List (Table × Bytes)} (h : order.Perm m.sections) :
    order.foldl m.known {} = m.collected :=
  (h.symm.foldl_eq' (fun _ hx _ hy info ↦ m.known_comm hx hy info) {}).symm

/-! ### Without -/

theorem known_transportStreamId {x : Table × Bytes} (hx : x ∈ m.sections) (info : TransportInfo) :
    (m.known info x).transportStreamId = some m.transportStreamId := by
  rcases m.mem_sections.mp hx with rfl | rfl | ⟨s, hs, rfl⟩
  · rw [known_nit]
  · rw [known_pat]
  · rw [m.known_sdt hs]

theorem step_of_known {info : TransportInfo}
    (hid : info.transportStreamId = some m.transportStreamId) (x : Table × Bytes) :
    step eucJis2004 info x = m.known info x := by
  rw [known, ← hid]

/-- A PAT or SDT need not know the id. -/
theorem step_of_ne_nit {info : TransportInfo} (hid : info.transportStreamId = none)
    {x : Table × Bytes} (hx : x ∈ m.sections) (hne : x ≠ (.nit, m.nit)) :
    step eucJis2004 info x = m.known info x := by
  rcases m.mem_sections.mp hx with rfl | rfl | ⟨s, hs, rfl⟩
  · exact absurd rfl hne
  · rw [known_pat, step_pat]
  · rw [m.known_sdt hs, m.step_sdt hs (.inl hid)]

theorem foldl_step_of_known {order : List (Table × Bytes)} (h : ∀ x ∈ order, x ∈ m.sections)
    {info : TransportInfo} (hid : info.transportStreamId = some m.transportStreamId) :
    order.foldl (step eucJis2004) info = order.foldl m.known info := by
  induction order generalizing info with
  | nil => rfl
  | cons x order ih =>
    rw [List.foldl_cons, List.foldl_cons, m.step_of_known hid]
    exact ih (fun y hy ↦ h y (List.mem_cons_of_mem _ hy))
      (m.known_transportStreamId (h x List.mem_cons_self) _)

/-- The first section that is not a NIT makes the id known. -/
theorem foldl_step_cons {x : Table × Bytes} {order : List (Table × Bytes)}
    (h : ∀ y ∈ x :: order, y ∈ m.sections) (hne : x ≠ (.nit, m.nit)) {info : TransportInfo}
    (hid : info.transportStreamId = none) :
    (x :: order).foldl (step eucJis2004) info = (x :: order).foldl m.known info := by
  rw [List.foldl_cons, List.foldl_cons, m.step_of_ne_nit hid (h x List.mem_cons_self) hne]
  exact m.foldl_step_of_known (fun y hy ↦ h y (List.mem_cons_of_mem _ hy))
    (m.known_transportStreamId (h x List.mem_cons_self) _)

/-- PAT and SDT leave the TS information alone, and do not look at it. -/
theorem known_withTsInformation {x : Table × Bytes} (hx : x ∈ m.sections)
    (hne : x ≠ (.nit, m.nit)) (info : TransportInfo) (ts : Option (ℕ × Str)) :
    m.known (info.withTsInformation ts) x = (m.known info x).withTsInformation ts := by
  rcases m.mem_sections.mp hx with rfl | rfl | ⟨s, hs, rfl⟩
  · exact absurd rfl hne
  · simp only [known_pat, TransportInfo.withTsInformation]
  · simp only [m.known_sdt hs, TransportInfo.withTsInformation]

theorem foldl_known_withTsInformation {order : List (Table × Bytes)}
    (h : ∀ x ∈ order, x ∈ m.sections ∧ x ≠ (.nit, m.nit)) (info : TransportInfo)
    (ts : Option (ℕ × Str)) :
    order.foldl m.known (info.withTsInformation ts)
      = (order.foldl m.known info).withTsInformation ts := by
  induction order generalizing info with
  | nil => rfl
  | cons x order ih =>
    obtain ⟨hx, hne⟩ := h x List.mem_cons_self
    rw [List.foldl_cons, List.foldl_cons, m.known_withTsInformation hx hne]
    exact ih (fun y hy ↦ h y (List.mem_cons_of_mem _ hy)) _

/-! ### Any order -/

/-- Sections that are no NIT. -/
theorem rest_ne_nit {order : List (Table × Bytes)}
    (h : order.Perm ((.pat, m.pat) :: m.sdts.map (.sdt, ·))) :
    ∀ x ∈ order, x ∈ m.sections ∧ x ≠ (.nit, m.nit) := by
  intro x hx
  have hmem := h.mem_iff.mp hx
  refine ⟨List.mem_cons_of_mem _ hmem, ?_⟩
  rintro rfl
  simp at hmem

theorem collected_withTsInformation :
    m.collected.withTsInformation m.ownTsInformation = m.collected := by
  have hnit : (m.known {} (.nit, m.nit)).withTsInformation m.ownTsInformation
      = m.known {} (.nit, m.nit) := by
    rw [known_nit, TransportInfo.withTsInformation, Option.or_none]
  rw [collected, sections, List.foldl_cons,
    ← m.foldl_known_withTsInformation (m.rest_ne_nit (List.Perm.refl _)), hnit]

/-- A NIT that comes first takes the last TS information of its loop. -/
theorem step_nit_fresh :
    step eucJis2004 {} (.nit, m.nit) = { (m.known {} (.nit, m.nit)).withTsInformation
      m.lastTsInformation with transportStreamId := none } := by
  rw [step_nit, Nit.apply_eq, known_nit, TransportInfo.withTsInformation, Option.or_none]
  rfl

/-- What an order collects. -/
theorem handAll_info_eq {order : List (Table × Bytes)} (h : order.Perm m.sections) :
    (handAll eucJis2004 order).info = m.collected.withTsInformation
      (if order.head? = some (.nit, m.nit) then m.lastTsInformation else m.ownTsInformation) := by
  have hmem : ∀ x ∈ order, x ∈ m.sections := fun x hx ↦ h.mem_iff.mp hx
  rw [handAll_info, ← m.foldl_known_perm h]
  cases order with
  | nil => exact absurd h.length_eq (by simp [sections])
  | cons x order =>
    rw [List.head?_cons]
    by_cases hx : x = (.nit, m.nit)
    · -- the id is unknown for this one section only; whatever follows sets it
      subst hx
      have hrest := h.cons_inv
      obtain ⟨y, rest, rfl⟩ : ∃ y rest, order = y :: rest :=
        List.exists_cons_of_length_pos (by rw [hrest.length_eq]; simp)
      have hne := m.rest_ne_nit hrest
      have hid : (step eucJis2004 {} (.nit, m.nit)).transportStreamId = none := by
        rw [step_nit_fresh]
      rw [if_pos rfl]
      calc ((.nit, m.nit) :: y :: rest).foldl (step eucJis2004) {}
          = (y :: rest).foldl m.known (step eucJis2004 {} (.nit, m.nit)) :=
            m.foldl_step_cons (fun z hz ↦ (hne z hz).1) (hne y List.mem_cons_self).2 hid
        _ = (y :: rest).foldl m.known
              ((m.known {} (.nit, m.nit)).withTsInformation m.lastTsInformation) := by
            rw [step_nit_fresh]
            rfl
        _ = _ := m.foldl_known_withTsInformation hne _ _
    · rw [if_neg fun heq ↦ hx (Option.some.inj heq), m.foldl_step_cons hmem hx rfl,
        m.foldl_known_perm h, collected_withTsInformation]

/-- **Collected SI and the order of the tables.** Two orders of the sections of a multiplex agree
on everything but the TS information; and on that if and only if both begin with the NIT, or
neither does, or it does not matter because the TS information the NIT lists last is our own. -/
theorem info_eq_iff {o₁ o₂ : List (Table × Bytes)} (h₁ : o₁.Perm m.sections)
    (h₂ : o₂.Perm m.sections) :
    ((handAll eucJis2004 o₁).info.withTsInformation none
      = (handAll eucJis2004 o₂).info.withTsInformation none) ∧
    ((handAll eucJis2004 o₁).info = (handAll eucJis2004 o₂).info ↔
      (o₁.head? = some (.nit, m.nit) ↔ o₂.head? = some (.nit, m.nit)) ∨
        m.lastTsInformation = m.ownTsInformation) := by
  rw [m.handAll_info_eq h₁, m.handAll_info_eq h₂]
  refine ⟨rfl, ?_⟩
  rw [TransportInfo.withTsInformation_inj]
  by_cases hn₁ : o₁.head? = some (.nit, m.nit) <;>
    by_cases hn₂ : o₂.head? = some (.nit, m.nit) <;> simp [hn₁, hn₂, eq_comm]

end Multiplex

/-! ### A NIT that lists a second stream -/

/-- The service list of our own stream. -/
def ownSdt : Bytes :=
  [0x42, 0xF0, 0x16, 0x7F, 0xE0, 0xC1, 0x00, 0x00, 0x7F, 0xE0, 0xFF, 0x04, 0x00, 0xFC, 0x80, 0x05,
    0x48, 0x03, 0x01, 0x00, 0x00, 0x2A, 0x41, 0xBD, 0x2C]

/-- Our own stream has key 1; the stream listed behind it has key 2. -/
def twoStreamNit : Bytes :=
  [0x40, 0xF0, 0x21, 0x00, 0x04, 0xC1, 0x00, 0x00, 0xF0, 0x00, 0xF0, 0x14, 0x7F, 0xE0, 0x7F, 0xE0,
    0xF0, 0x04, 0xCD, 0x02, 0x01, 0x00, 0x7F, 0xE1, 0x7F, 0xE0, 0xF0, 0x04, 0xCD, 0x02, 0x02, 0x00,
    0x70, 0xC2, 0x3D, 0xB6]

/-- A codec that knows no character; the names in these sections are empty. -/
def noCodec : Codec := fun _ ↦ none

def twoStreams : Multiplex noCodec where
  transportStreamId := 0x7FE0
  originalNetworkId := 0x7FE0
  pat := SectionAssembler.patSection
  sdts := [ownSdt]
  nit := twoStreamNit
  pat_id := by decide
  pat_stream := by decide
  sdt_id := by decide
  sdt_stream := by decide +kernel
  sdt_network := by decide +kernel
  services := List.pairwise_singleton _ _
  nit_id := by decide
  nit_streams := by decide +kernel
  nit_single := by decide +kernel

/-- The order matters: with the NIT first, the key of the other stream is taken. -/
theorem twoStreams_order_matters :
    ∃ o₁ o₂ : List (Table × Bytes), o₁.Perm twoStreams.sections ∧ o₂.Perm twoStreams.sections ∧
      (handAll noCodec o₁).info.remoteControlKeyId = some 2 ∧
      (handAll noCodec o₂).info.remoteControlKeyId = some 1 :=
  ⟨[(.nit, twoStreamNit), (.pat, SectionAssembler.patSection), (.sdt, ownSdt)],
    [(.pat, SectionAssembler.patSection), (.sdt, ownSdt), (.nit, twoStreamNit)],
    by decide +kernel, by decide +kernel, by decide +kernel, by decide +kernel⟩

/-- With the NIT second or last, the order does not. -/
theorem info_eq_twoStreams :
    (handAll noCodec
        [(.sdt, ownSdt), (.nit, twoStreamNit), (.pat, SectionAssembler.patSection)]).info
      = (handAll noCodec
        [(.pat, SectionAssembler.patSection), (.sdt, ownSdt), (.nit, twoStreamNit)]).info :=
  (twoStreams.info_eq_iff (by decide +kernel) (by decide +kernel)).2.mpr (.inl (by decide))

end Recdyud
