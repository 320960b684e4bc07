import Recdyud.Unicode

/-!
# Selecting a device

A selector is an index, `BUS:ADDR`, a device node or a port path, told apart by an ordered cascade
of tests on its text: digits alone are an index, whatever else they may be. The port path of a
device without port numbers is its bus number, digits alone, and so it selects the device whose
index that is (`selectorsPick_iff`).
-/

namespace Recdyud

/-- What `_location` reads of a `usb.core.Device`. -/
structure UsbNode where
  bus : ℕ
  address : ℕ
  portNumbers : Option (List ℕ) := none
  deriving DecidableEq, Repr

structure DeviceLocation where
  bus : ℕ
  address : ℕ
  portPath : Str
  deriving DecidableEq, Repr

/-- `__str__` -/
def DeviceLocation.toText (self : DeviceLocation) : Str :=
  zeroPadded 3 self.bus ++ [':'] ++ zeroPadded 3 self.address ++ " (port ".toList ++ self.portPath
    ++ [')']

/-- `dev.port_numbers or ()` -/
def UsbNode.ports (dev : UsbNode) : List ℕ := dev.portNumbers.getD []

def location (dev : UsbNode) : DeviceLocation :=
  let ports := join ['.'] (dev.ports.map str)
  ⟨dev.bus, dev.address, if ports ≠ [] then str dev.bus ++ ['-'] ++ ports else str dev.bus⟩

/-- A device with its location. -/
abbrev Found := DeviceLocation × UsbNode

/-- The order of the sort key `(bus, port_path, address)`. -/
def locationLe (a b : Found) : Bool :=
  a.1.bus < b.1.bus ∨ (a.1.bus = b.1.bus ∧ (a.1.portPath < b.1.portPath
    ∨ (a.1.portPath = b.1.portPath ∧ a.1.address ≤ b.1.address)))

/-- `enumerate_devices`, of the devices that `usb.core.find` has found -/
def enumerateDevices (found : List UsbNode) : List Found :=
  (found.map fun d ↦ (location d, d)).mergeSort locationLe

section Matches

variable (U : Unicode)

/-- `(int(bus), int(addr)) == (loc.bus, loc.address)` -/
def sameAddress (bus addr : Str) (loc : DeviceLocation) : Option Bool := do
  let bus ← U.int bus
  let addr ← U.int addr
  return bus = loc.bus ∧ addr = loc.address

/-- `"/dev/bus/usb/"` -/
def devNodePrefix : Str := ['/', 'd', 'e', 'v', '/', 'b', 'u', 's', '/', 'u', 's', 'b', '/']

/-- `_matches`, with `none` where `int()` raises `ValueError` -/
def matchesDevice (selector : Str) (i : ℕ) (loc : DeviceLocation) : Option Bool :=
  let s := U.strip selector
  if U.isDigits s then
    (U.int s).map fun n ↦ n = (i : ℤ)
  else if devNodePrefix <+: s then
    match (removePrefix devNodePrefix s).splitOn '/' with
    | [bus, addr] => sameAddress U bus addr loc
    | _ => some false
  else if ':' ∈ s then
    let (bus, addr) := partition ':' s
    sameAddress U bus addr loc
  else
    some (s = loc.portPath)

/-- The devices that match, the first of them at index `i`. -/
def matchedFrom (selector : Str) : ℕ → List Found → Option (List Found)
  | _, [] => some []
  | i, d :: devices => do
    let keep ← matchesDevice U selector i d.1
    let rest ← matchedFrom selector (i + 1) devices
    return if keep then d :: rest else rest

/-- An exception out of `_select`. -/
inductive SelectRaised where
  | valueError
  | deviceNotFound (message : Str)
  deriving DecidableEq, Repr

/-- `_select` -/
def select (selector : Option Str) (found : List UsbNode) : Except SelectRaised (List Found) :=
  let devices := enumerateDevices found
  if devices = [] then
    .error (.deviceNotFound "DY-UD200 (1c11:1004) not found".toList)
  else
    match selector with
    | none => .ok devices
    | some s =>
      if s = [] ∨ s = ['a', 'u', 't', 'o'] then
        .ok devices
      else
        match matchedFrom U s 0 devices with
        | none => .error .valueError
        | some [] =>
          .error (.deviceNotFound ("no DY-UD200 matches ".toList ++ U.repr s ++ " (found: ".toList
            ++ join ", ".toList (devices.map fun d ↦ d.1.toText) ++ [')']))
        | some matched => .ok matched

end Matches

/-! ## Texts that `int()` reads as a number -/

/-- A text of the number, with or without leading zeros. -/
structure Spells (s : Str) (n : ℕ) : Prop where
  digits : AllDigits s
  length_le : s.length ≤ intMaxStrDigits
  value : decimalValue s = n

theorem spells_str {n : ℕ} (h : (str n).length ≤ intMaxStrDigits) : Spells (str n) n :=
  ⟨allDigits_str n, h, decimalValue_str n⟩

theorem spells_zeroPadded {width n : ℕ} (h : (zeroPadded width n).length ≤ intMaxStrDigits) :
    Spells (zeroPadded width n) n := by
  refine ⟨⟨fun hnil ↦ ?_, fun c ↦ isDigit_of_mem_zeroPadded⟩, h,
    decimalValue_zeroPadded width n⟩
  exact str_ne_nil n (List.append_eq_nil_iff.mp hnil).2

section Forms

variable {U : Unicode} {s b a : Str} {n i bus addr : ℕ} {loc : DeviceLocation}

theorem Spells.int (h : Spells s n) (U : Unicode) : U.int s = some (n : ℤ) := by
  rw [h.digits.int U, if_pos h.length_le, h.value]

theorem sameAddress_of_spells (hb : Spells b bus) (ha : Spells a addr) :
    sameAddress U b a loc = some (decide (loc.bus = bus ∧ loc.address = addr)) := by
  rw [sameAddress, hb.int U, ha.int U]
  simp only [Option.bind_eq_bind, Option.bind_some, Nat.cast_inj, eq_comm (a := bus),
    eq_comm (a := addr)]
  rfl

/-- The characters of a selector that are not digits. -/
def marks : List Char := ['/', 'd', 'e', 'v', 'b', 'u', 's', ':', '-', '.']

theorem ascii_of_mem_marks {c : Char} (h : c ∈ marks) :
    c.toNat < 128 ∧ isAsciiSpace c = false ∧ c.isDigit = false := by
  have hall : ∀ d ∈ marks, d.toNat < 128 ∧ isAsciiSpace d = false ∧ d.isDigit = false :=
    List.all_iff_forall_prop.mp (by decide)
  exact hall c h

/-- A text of digits and marks. -/
def Plain (s : Str) : Prop := ∀ c ∈ s, c.isDigit ∨ c ∈ marks

theorem Plain.append {t : Str} (hs : Plain s) (ht : Plain t) : Plain (s ++ t) := fun c hc ↦
  (List.mem_append.mp hc).elim (hs c) (ht c)

theorem plain_of_marks (h : s ⊆ marks) : Plain s := fun _ hc ↦ .inr (h hc)

theorem AllDigits.plain (h : AllDigits s) : Plain s := fun c hc ↦ .inl (h.isDigit c hc)

theorem Plain.strip (h : Plain s) (U : Unicode) : U.strip s = s := by
  refine trim_of_not_mem fun c hc ↦ ?_
  rw [Bool.not_eq_true]
  rcases h c hc with hdigit | hmark
  · exact U.not_isSpace_of_ascii_isDigit hdigit
  · rw [U.isSpace_ascii (ascii_of_mem_marks hmark).1, (ascii_of_mem_marks hmark).2.1]

theorem isDigit_mark {c : Char} (h : c ∈ marks) : U.isDigit c = false := by
  rw [U.isDigit_ascii (ascii_of_mem_marks h).1, (ascii_of_mem_marks h).2.2]

/-! ## The four forms -/

/-- An index. -/
theorem matchesDevice_index (h : Spells s n) (i : ℕ) :
    matchesDevice U s i loc = some (decide (i = n)) := by
  rw [matchesDevice, h.digits.strip U]
  dsimp only
  rw [if_pos (h.digits.isDigits U), h.int U]
  simp only [Option.map_some, Nat.cast_inj, eq_comm (a := n)]

theorem plain_devNode (hb : Spells b bus) (ha : Spells a addr) :
    Plain (devNodePrefix ++ b ++ ['/'] ++ a) :=
  (((plain_of_marks (by decide)).append hb.digits.plain).append
    (plain_of_marks (by decide))).append ha.digits.plain

/-- A device node. -/
theorem matchesDevice_devNode (hb : Spells b bus) (ha : Spells a addr) (i : ℕ) :
    matchesDevice U (devNodePrefix ++ b ++ ['/'] ++ a) i loc
      = some (decide (loc.bus = bus ∧ loc.address = addr)) := by
  have hslash : U.isDigits (devNodePrefix ++ b ++ ['/'] ++ a) = false := by
    refine U.isDigits_eq_false (c := '/') ?_ (isDigit_mark (by decide))
    simp
  have hpre : devNodePrefix <+: devNodePrefix ++ b ++ ['/'] ++ a := by
    rw [List.append_assoc, List.append_assoc]
    exact List.prefix_append _ _
  have hrest : removePrefix devNodePrefix (devNodePrefix ++ b ++ ['/'] ++ a) = b ++ '/' :: a := by
    rw [removePrefix, if_pos hpre, List.append_assoc, List.append_assoc, List.drop_left]
    rfl
  have hnot : ∀ {t : Str}, AllDigits t → '/' ∉ t := fun ht hmem ↦
    absurd (ht.isDigit '/' hmem) (by decide)
  have hsplit : (b ++ '/' :: a).splitOn '/' = [b, a] := by
    rw [List.splitOn_append_cons_self_of_not_mem (hnot hb.digits),
      List.splitOn_eq_singleton (hnot ha.digits)]
  rw [matchesDevice, (plain_devNode hb ha).strip U]
  dsimp only
  rw [if_neg (by rw [hslash]; exact Bool.false_ne_true), if_pos hpre, hrest, hsplit]
  exact sameAddress_of_spells hb ha

theorem not_devNodePrefix (h : AllDigits b) (t : Str) : ¬devNodePrefix <+: b ++ t := by
  obtain ⟨c, rest, rfl⟩ := List.exists_cons_of_ne_nil h.ne_nil
  intro hpre
  obtain ⟨rfl, -⟩ := List.cons_prefix_cons.mp hpre
  exact absurd (h.isDigit '/' List.mem_cons_self) (by decide)

theorem plain_busAddress (hb : Spells b bus) (ha : Spells a addr) : Plain (b ++ [':'] ++ a) :=
  (hb.digits.plain.append (plain_of_marks (by decide))).append ha.digits.plain

/-- A bus and an address. -/
theorem matchesDevice_busAddress (hb : Spells b bus) (ha : Spells a addr) (i : ℕ) :
    matchesDevice U (b ++ [':'] ++ a) i loc
      = some (decide (loc.bus = bus ∧ loc.address = addr)) := by
  have hcolon : ':' ∈ b ++ [':'] ++ a := by simp
  have hdigits : U.isDigits (b ++ [':'] ++ a) = false :=
    U.isDigits_eq_false hcolon (isDigit_mark (by decide))
  have hpart : partition ':' (b ++ [':'] ++ a) = (b, a) := by
    have hnot : ∀ c ∈ b, decide (c ≠ ':') = true := by
      intro c hc
      refine decide_eq_true ?_
      rintro rfl
      exact absurd (hb.digits.isDigit ':' hc) (by decide)
    rw [partition, List.append_assoc, List.takeWhile_append_of_pos hnot,
      List.dropWhile_append_of_pos hnot]
    simp
  rw [matchesDevice, (plain_busAddress hb ha).strip U]
  dsimp only
  rw [if_neg (by rw [hdigits]; exact Bool.false_ne_true), List.append_assoc,
    if_neg (not_devNodePrefix hb.digits _), ← List.append_assoc, if_pos hcolon, hpart]
  exact sameAddress_of_spells hb ha

/-- The text of the port numbers. -/
theorem isDigit_or_dot_of_mem_ports {l : List ℕ} {c : Char} (h : c ∈ join ['.'] (l.map str)) :
    c.isDigit ∨ c = '.' := by
  rcases mem_join h with hdot | ⟨t, ht, hc⟩
  · exact .inr (List.mem_singleton.mp hdot)
  · obtain ⟨n, -, rfl⟩ := List.mem_map.mp ht
    exact .inl (isDigit_of_mem_str hc)

theorem join_str_eq_nil_iff {l : List ℕ} : join ['.'] (l.map str) = [] ↔ l = [] := by
  constructor
  · intro h
    rcases List.eq_nil_or_concat' l with rfl | ⟨l, n, rfl⟩
    · rfl
    · obtain ⟨front, hfront⟩ := exists_join_concat ['.'] (l.map str) (str n)
      rw [List.map_append, List.map_singleton, hfront] at h
      exact absurd (List.append_eq_nil_iff.mp h).2 (str_ne_nil n)
  · rintro rfl
    rfl

variable {dev : UsbNode}

theorem portPath_of_ports (h : dev.ports ≠ []) :
    (location dev).portPath = str dev.bus ++ ['-'] ++ join ['.'] (dev.ports.map str) :=
  if_pos (join_str_eq_nil_iff.not.mpr h)

theorem portPath_of_no_ports (h : dev.ports = []) : (location dev).portPath = str dev.bus :=
  if_neg (not_not.mpr (join_str_eq_nil_iff.mpr h))

theorem mem_portPath (h : dev.ports ≠ []) {c : Char} (hc : c ∈ (location dev).portPath) :
    c.isDigit ∨ c = '-' ∨ c = '.' := by
  rw [portPath_of_ports h] at hc
  simp only [List.mem_append, List.mem_singleton] at hc
  rcases hc with (hc | rfl) | hc
  · exact .inl (isDigit_of_mem_str hc)
  · exact .inr (.inl rfl)
  · exact (isDigit_or_dot_of_mem_ports hc).imp_right .inr

theorem plain_portPath (h : dev.ports ≠ []) : Plain (location dev).portPath := by
  intro c hc
  rcases mem_portPath h hc with hdigit | rfl | rfl
  · exact .inl hdigit
  · exact .inr (by decide)
  · exact .inr (by decide)

/-- A port path, of a device with port numbers. -/
theorem matchesDevice_portPath (h : dev.ports ≠ []) (i : ℕ) :
    matchesDevice U (location dev).portPath i loc
      = some (decide ((location dev).portPath = loc.portPath)) := by
  have hpath := portPath_of_ports h
  have hdigits : U.isDigits (location dev).portPath = false := by
    refine U.isDigits_eq_false (c := '-') ?_ (isDigit_mark (by decide))
    rw [hpath]
    simp
  have hcolon : ':' ∉ (location dev).portPath := by
    intro hc
    rcases mem_portPath h hc with hdigit | hdash | hdot
    · exact absurd hdigit (by decide)
    · exact absurd hdash (by decide)
    · exact absurd hdot (by decide)
  have hpre : ¬devNodePrefix <+: (location dev).portPath := by
    rw [hpath, List.append_assoc]
    exact not_devNodePrefix (allDigits_str dev.bus) _
  rw [matchesDevice, (plain_portPath h).strip U]
  dsimp only
  rw [if_neg (by rw [hdigits]; exact Bool.false_ne_true), if_neg hpre, if_neg hcolon]

/-! ## What is selected -/

variable {devices : List Found} {d : Found} {k : ℕ}

theorem matchedFrom_of_none
    (h : ∀ j d', devices[j]? = some d' → matchesDevice U s (k + j) d'.1 = some false) :
    matchedFrom U s k devices = some [] := by
  induction devices generalizing k with
  | nil => rfl
  | cons d devices ih =>
    have hrest : matchedFrom U s (k + 1) devices = some [] := by
      refine ih fun j d' hd' ↦ ?_
      rw [Nat.add_assoc, Nat.add_comm 1]
      exact h (j + 1) d' hd'
    rw [matchedFrom, hrest, show matchesDevice U s k d.1 = some false from h 0 d rfl]
    rfl

/-- If the selector matches one device only, that device is what matches. -/
theorem matchedFrom_of_single (hd : devices[i]? = some d)
    (h : ∀ j d', devices[j]? = some d' →
      matchesDevice U s (k + j) d'.1 = some (decide (j = i))) :
    matchedFrom U s k devices = some [d] := by
  induction devices generalizing k i with
  | nil => simp at hd
  | cons d' devices ih =>
    cases i with
    | zero =>
      obtain rfl : d' = d := Option.some.inj hd
      have hrest : matchedFrom U s (k + 1) devices = some [] := by
        refine matchedFrom_of_none fun j d' hd' ↦ ?_
        rw [Nat.add_assoc, Nat.add_comm 1, h (j + 1) d' hd']
        rfl
      have hhead : matchesDevice U s k d'.1 = some true := h 0 d' rfl
      rw [matchedFrom, hrest, hhead]
      rfl
    | succ i =>
      have hrest : matchedFrom U s (k + 1) devices = some [d] := by
        refine ih hd fun j d' hd' ↦ ?_
        rw [Nat.add_assoc, Nat.add_comm 1, h (j + 1) d' hd']
        simp
      have hhead : matchesDevice U s k d'.1 = some false := h 0 d' rfl
      rw [matchedFrom, hrest, hhead]
      rfl

/-- What matches, matches at its index. -/
theorem mem_matchedFrom {l : List Found} (h : matchedFrom U s k devices = some l) (hd : d ∈ l) :
    ∃ j, devices[j]? = some d ∧ matchesDevice U s (k + j) d.1 = some true := by
  induction devices generalizing k l with
  | nil =>
    obtain rfl := Option.some.inj h
    simp at hd
  | cons d' devices ih =>
    rw [matchedFrom, Option.bind_eq_bind, Option.bind_eq_some_iff] at h
    obtain ⟨keep, hkeep, h⟩ := h
    rw [Option.bind_eq_bind, Option.bind_eq_some_iff] at h
    obtain ⟨rest, hrest, h⟩ := h
    obtain rfl := Option.some.inj h
    have hlater : d ∈ rest →
        ∃ j, (d' :: devices)[j]? = some d ∧ matchesDevice U s (k + j) d.1 = some true := by
      intro hmem
      obtain ⟨j, hj, hmatch⟩ := ih hrest hmem
      refine ⟨j + 1, hj, ?_⟩
      rwa [Nat.add_comm j, ← Nat.add_assoc]
    split at hd
    · rename_i htrue
      rcases List.mem_cons.mp hd with rfl | hmem
      · exact ⟨0, rfl, hkeep.trans (congrArg some htrue)⟩
      · exact hlater hmem
    · exact hlater hd

end Forms

/-- The four forms of selector, for the device `d` at index `i`: each picks `d` alone. -/
structure SelectorsPick (U : Unicode) (found : List UsbNode) (i : ℕ) (d : Found) : Prop where
  index : ∀ s, Spells s i → select U (some s) found = .ok [d]
  busAddress : ∀ b a, Spells b d.1.bus → Spells a d.1.address →
    select U (some (b ++ [':'] ++ a)) found = .ok [d]
  devNode : ∀ b a, Spells b d.1.bus → Spells a d.1.address →
    select U (some (devNodePrefix ++ b ++ ['/'] ++ a)) found = .ok [d]
  portPath : select U (some d.1.portPath) found = .ok [d]

section Select

variable {U : Unicode} {found : List UsbNode} {s : Str} {i j : ℕ} {d d' : Found}

theorem location_of_mem (h : d ∈ enumerateDevices found) : d.1 = location d.2 := by
  rw [enumerateDevices, List.mem_mergeSort] at h
  obtain ⟨dev, -, rfl⟩ := List.mem_map.mp h
  rfl

theorem not_auto (hne : s ≠ []) (hplain : Plain s) : ¬(s = [] ∨ s = ['a', 'u', 't', 'o']) := by
  rintro (hnil | rfl)
  · exact hne hnil
  · exact absurd (hplain 'a' List.mem_cons_self) (by decide)

/-- A selector in one of the four forms that matches something. -/
theorem select_of_matched {l : List Found} (hne : s ≠ []) (hplain : Plain s)
    (hd : d ∈ enumerateDevices found)
    (h : matchedFrom U s 0 (enumerateDevices found) = some (d' :: l)) :
    select U (some s) found = .ok (d' :: l) := by
  rw [select, if_neg (List.ne_nil_of_mem hd), if_neg (not_auto hne hplain), h]

theorem matchedFrom_of_select {l : List Found} (hne : s ≠ []) (hplain : Plain s)
    (h : select U (some s) found = .ok l) :
    matchedFrom U s 0 (enumerateDevices found) = some l := by
  rw [select] at h
  split at h
  · cases h
  · rw [if_neg (not_auto hne hplain)] at h
    split at h
    · cases h
    · cases h
    · rename_i hmatched
      rw [hmatched, Except.ok.inj h]

/-- What tells the devices apart tells their indices apart. -/
theorem eq_of_nodup {β : Type} {f : Found → β} {devices : List Found}
    (h : (devices.map f).Nodup) (hd : devices[i]? = some d) (hd' : devices[j]? = some d')
    (heq : f d' = f d) : j = i := by
  have hlt : j < (devices.map f).length := by
    rw [List.length_map]
    exact (List.getElem?_eq_some_iff.mp hd').1
  refine (List.getElem?_inj hlt h).mp ?_
  rw [List.getElem?_map, List.getElem?_map, hd, hd', Option.map_some, Option.map_some, heq]

theorem decide_eq_decide_of_nodup {β : Type} [DecidableEq β] {f : Found → β}
    {devices : List Found} (h : (devices.map f).Nodup) (hd : devices[i]? = some d)
    (hd' : devices[j]? = some d') : decide (f d' = f d) = decide (j = i) := by
  refine decide_eq_decide.mpr ⟨eq_of_nodup h hd hd', ?_⟩
  rintro rfl
  rw [Option.some.inj (hd'.symm.trans hd)]

section Picked

variable (haddress : ((enumerateDevices found).map fun d ↦ (d.1.bus, d.1.address)).Nodup)
variable (hpath : ((enumerateDevices found).map fun d ↦ d.1.portPath).Nodup)
variable (hd : (enumerateDevices found)[i]? = some d)
include hd

theorem select_index (h : Spells s i) : select U (some s) found = .ok [d] := by
  refine select_of_matched h.digits.ne_nil h.digits.plain (List.mem_of_getElem? hd)
    (matchedFrom_of_single hd fun j d' _ ↦ ?_)
  rw [Nat.zero_add]
  exact matchesDevice_index h j

include haddress in
/-- A selector that is decided by bus and address. -/
theorem select_of_address (hne : s ≠ []) (hplain : Plain s)
    (h : ∀ (j : ℕ) (loc : DeviceLocation), matchesDevice U s j loc
      = some (decide (loc.bus = d.1.bus ∧ loc.address = d.1.address))) :
    select U (some s) found = .ok [d] := by
  refine select_of_matched hne hplain (List.mem_of_getElem? hd)
    (matchedFrom_of_single hd fun j d' hd' ↦ ?_)
  rw [h, ← decide_eq_decide_of_nodup haddress hd hd']
  simp only [Prod.mk.injEq]

include hpath in
theorem select_portPath (h : d.2.ports ≠ []) :
    select U (some d.1.portPath) found = .ok [d] := by
  have hloc := location_of_mem (List.mem_of_getElem? hd)
  have hne : (location d.2).portPath ≠ [] := by
    rw [portPath_of_ports h]
    simp
  rw [hloc]
  refine select_of_matched hne (plain_portPath h) (List.mem_of_getElem? hd)
    (matchedFrom_of_single hd fun j d' hd' ↦ ?_)
  rw [matchesDevice_portPath h, ← decide_eq_decide_of_nodup hpath hd hd', hloc]
  simp only [eq_comm]

include haddress in
/-- The port path of a device without port numbers is read as an index. -/
theorem select_portPath_iff_of_no_ports (h : d.2.ports = []) :
    select U (some d.1.portPath) found = .ok [d]
      ↔ d.2.bus = i ∧ (str i).length ≤ intMaxStrDigits := by
  have hpath : d.1.portPath = str d.2.bus := by
    rw [location_of_mem (List.mem_of_getElem? hd), portPath_of_no_ports h]
  rw [hpath]
  constructor
  · intro hselect
    have hmatched := matchedFrom_of_select (str_ne_nil _) (allDigits_str _).plain hselect
    obtain ⟨j, hj, hmatch⟩ := mem_matchedFrom hmatched List.mem_cons_self
    obtain rfl : j = i := eq_of_nodup haddress hd hj rfl
    rw [Nat.zero_add, matchesDevice, (allDigits_str _).strip U] at hmatch
    dsimp only at hmatch
    rw [if_pos ((allDigits_str _).isDigits U), (allDigits_str _).int U, decimalValue_str] at hmatch
    split at hmatch
    · rename_i hlen
      have hbus : d.2.bus = j := by simpa using hmatch
      exact ⟨hbus, hbus ▸ hlen⟩
    · cases hmatch
  · rintro ⟨rfl, hlen⟩
    exact select_index hd (spells_str hlen)

end Picked

/-- **The advertised selectors**: each of the four forms picks its device, exactly if the device has
port numbers, or its bus number is its index. -/
theorem selectorsPick_iff
    (haddress : ((enumerateDevices found).map fun d ↦ (d.1.bus, d.1.address)).Nodup)
    (hpath : ((enumerateDevices found).map fun d ↦ d.1.portPath).Nodup)
    (hd : (enumerateDevices found)[i]? = some d) :
    SelectorsPick U found i d
      ↔ d.2.ports ≠ [] ∨ (d.2.bus = i ∧ (str i).length ≤ intMaxStrDigits) := by
  constructor
  · intro h
    by_cases hports : d.2.ports = []
    · exact .inr ((select_portPath_iff_of_no_ports haddress hd hports).mp h.portPath)
    · exact .inl hports
  · intro h
    refine ⟨fun s ↦ select_index hd, fun b a hb ha ↦ ?_, fun b a hb ha ↦ ?_, ?_⟩
    · refine select_of_address haddress hd ?_ (plain_busAddress hb ha) fun j loc ↦
        matchesDevice_busAddress hb ha j
      simp
    · refine select_of_address haddress hd ?_ (plain_devNode hb ha) fun j loc ↦
        matchesDevice_devNode hb ha j
      simp
    · by_cases hports : d.2.ports = []
      · exact (select_portPath_iff_of_no_ports haddress hd hports).mpr
          (h.resolve_left (not_not.mpr hports))
      · exact select_portPath hpath hd hports

end Select

theorem enumerateDevices_singleton (dev : UsbNode) :
    enumerateDevices [dev] = [(location dev, dev)] := by
  simp [enumerateDevices]

/-- The device at port path `5-1.2`. -/
theorem selectorsPick_withPorts :
    select .ascii (some ['5', '-', '1', '.', '2']) [⟨5, 3, some [1, 2]⟩]
      = .ok [(⟨5, 3, ['5', '-', '1', '.', '2']⟩, ⟨5, 3, some [1, 2]⟩)] := by
  have hlist := enumerateDevices_singleton ⟨5, 3, some [1, 2]⟩
  have hpick : SelectorsPick .ascii [⟨5, 3, some [1, 2]⟩] 0 (location _, ⟨5, 3, some [1, 2]⟩) :=
    (selectorsPick_iff (by rw [hlist]; simp) (by rw [hlist]; simp) (by rw [hlist]; rfl)).mpr
      (.inl (by decide))
  exact hpick.portPath

/-- A device without port numbers, alone on bus 1: its port path is `1`, and there is no index 1. -/
theorem not_selectorsPick_noPorts :
    ¬∀ (U : Unicode) (found : List UsbNode) (i : ℕ) (d : Found),
      ((enumerateDevices found).map fun d ↦ (d.1.bus, d.1.address)).Nodup →
      ((enumerateDevices found).map fun d ↦ d.1.portPath).Nodup →
      (enumerateDevices found)[i]? = some d → SelectorsPick U found i d := by
  intro h
  have hlist := enumerateDevices_singleton ⟨1, 5, none⟩
  have hpick := h .ascii [⟨1, 5, none⟩] 0 (location ⟨1, 5, none⟩, ⟨1, 5, none⟩)
    (by rw [hlist]; simp) (by rw [hlist]; simp) (by rw [hlist]; rfl)
  have hzero := (select_portPath_iff_of_no_ports (i := 0) (by rw [hlist]; simp)
    (by rw [hlist]; rfl) rfl).mp hpick.portPath
  exact absurd hzero.1 (by decide)

end Recdyud
