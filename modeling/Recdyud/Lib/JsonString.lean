import Mathlib

/-!
# JSON strings

`quote` writes a string the way JSON serialisers do that leave everything beyond ASCII alone: the
quotation mark, the backslash and the control characters are escaped. `read` is the grammar of JSON
strings as a reader, with every escape it knows, and returns what stands behind the string.

What is written is read back, whatever follows (`read_quote`).
-/

namespace JsonString

/-- The characters that JSON does not allow to stand for themselves in a string. -/
def IsControl (c : Char) : Prop := c.toNat < 0x20

instance : DecidablePred IsControl := fun _ ↦ inferInstanceAs (Decidable (_ < _))

/-- A number below 16 as a hexadecimal digit. -/
def hexDigit (n : ℕ) : Char := Nat.digitChar n

/-- The escape of a character, by its four hexadecimal digits. -/
def unicodeEscape (n : ℕ) : List Char :=
  ['\\', 'u', hexDigit (n / 4096 % 16), hexDigit (n / 256 % 16), hexDigit (n / 16 % 16),
    hexDigit (n % 16)]

/-- A character in a string. -/
def escape (c : Char) : List Char :=
  if c = '"' then ['\\', '"']
  else if c = '\\' then ['\\', '\\']
  else if c = '\n' then ['\\', 'n']
  else if c = '\r' then ['\\', 'r']
  else if c = '\t' then ['\\', 't']
  else if c = '\x08' then ['\\', 'b']
  else if c = '\x0c' then ['\\', 'f']
  else if IsControl c then unicodeEscape c.toNat
  else [c]

/-- A string between quotation marks. -/
def quote (s : List Char) : List Char := '"' :: (s.flatMap escape ++ ['"'])

/-! ## Reading -/

/-- The value of a hexadecimal digit. -/
def hexValue (c : Char) : Option ℕ :=
  if '0' ≤ c ∧ c ≤ '9' then some (c.toNat - 48)
  else if 'a' ≤ c ∧ c ≤ 'f' then some (c.toNat - 87)
  else if 'A' ≤ c ∧ c ≤ 'F' then some (c.toNat - 55)
  else none

/-- The character with four hexadecimal digits; surrogates are none. -/
def hexChar (a b c d : Char) : Option Char := do
  let n := 4096 * (← hexValue a) + 256 * (← hexValue b) + 16 * (← hexValue c) + (← hexValue d)
  if n.isValidChar then some (Char.ofNat n) else none

/-- What a letter behind a backslash stands for. -/
def shortEscape (c : Char) : Option Char :=
  if c = '"' ∨ c = '\\' ∨ c = '/' then some c
  else if c = 'b' then some '\x08'
  else if c = 'f' then some '\x0c'
  else if c = 'n' then some '\n'
  else if c = 'r' then some '\r'
  else if c = 't' then some '\t'
  else none

/-- A character in front of what was read. -/
def prepend (c : Char) (x : List Char × List Char) : List Char × List Char := (c :: x.1, x.2)

/-- A string behind its first quotation mark: its characters, and what follows the second. -/
def readBody : List Char → Option (List Char × List Char)
  | [] => none
  | '"' :: rest => some ([], rest)
  | '\\' :: 'u' :: a :: b :: c :: d :: rest =>
    (hexChar a b c d).bind fun x ↦ (readBody rest).map (prepend x)
  | '\\' :: c :: rest => (shortEscape c).bind fun x ↦ (readBody rest).map (prepend x)
  | c :: rest => if IsControl c then none else (readBody rest).map (prepend c)

/-- A string, and what follows it. -/
def read : List Char → Option (List Char × List Char)
  | '"' :: rest => readBody rest
  | _ => none

/-! ## The round trip -/

/-- A control character, by its number. -/
theorem IsControl.exists_eq_ofNat {c : Char} (h : IsControl c) : ∃ n < 32, c = Char.ofNat n :=
  ⟨c.toNat, h, (Char.ofNat_toNat c).symm⟩

/-- Any other character stands for itself. -/
theorem escape_plain {c : Char} (hquote : c ≠ '"') (hbackslash : c ≠ '\\')
    (hcontrol : ¬IsControl c) : escape c = [c] := by
  have hne : ∀ {x : Char}, IsControl x → c ≠ x := by
    rintro x hx rfl
    exact hcontrol hx
  rw [escape, if_neg hquote, if_neg hbackslash, if_neg (hne (by decide)), if_neg (hne (by decide)),
    if_neg (hne (by decide)), if_neg (hne (by decide)), if_neg (hne (by decide)),
    if_neg hcontrol]

/-- A character that stands for itself is read as itself. -/
theorem readBody_plain {c : Char} (hquote : c ≠ '"') (hbackslash : c ≠ '\\')
    (hcontrol : ¬IsControl c) (rest : List Char) :
    readBody (c :: rest) = (readBody rest).map (prepend c) := by
  rw [readBody, if_neg hcontrol]
  · exact hquote
  · exact fun _ _ _ _ _ h ↦ absurd h hbackslash
  · exact fun _ _ h ↦ absurd h hbackslash

/-- A control character is read from its escape. -/
theorem readBody_control {n : ℕ} (h : n < 32) (rest : List Char) :
    readBody (escape (Char.ofNat n) ++ rest) = (readBody rest).map (prepend (Char.ofNat n)) := by
  interval_cases n <;> rfl

/-- A character is read back from its escape. -/
theorem readBody_escape (c : Char) (rest : List Char) :
    readBody (escape c ++ rest) = (readBody rest).map (prepend c) := by
  by_cases hcontrol : IsControl c
  · obtain ⟨n, hn, rfl⟩ := hcontrol.exists_eq_ofNat
    exact readBody_control hn rest
  by_cases hquote : c = '"'
  · subst hquote
    rfl
  by_cases hbackslash : c = '\\'
  · subst hbackslash
    rfl
  rw [escape_plain hquote hbackslash hcontrol, List.singleton_append]
  exact readBody_plain hquote hbackslash hcontrol rest

theorem readBody_body (s rest : List Char) :
    readBody (s.flatMap escape ++ '"' :: rest) = some (s, rest) := by
  induction s with
  | nil => rfl
  | cons c s ih =>
    rw [List.flatMap_cons, List.append_assoc, readBody_escape, ih]
    rfl

/-- **What is written is read back**, whatever follows it. -/
theorem read_quote (s rest : List Char) : read (quote s ++ rest) = some (s, rest) := by
  have hbody := readBody_body s rest
  rw [quote, List.cons_append, List.append_assoc]
  exact hbody

end JsonString
