import Recdyud.Lib.Chaining
import Recdyud.Py

/-!
# MULTI2

The cipher of ARIB STD-B25, as the tests write it to scramble the streams that `Descrambler` is
tried on. A round is made of eight steps, each of which changes one half of the block by a value
that depends on the other half and the key only; so each step undoes itself, and whatever the steps
compute, `_encrypt_block` is a permutation of the blocks.

`multi2_encrypt` chains the blocks and masks what is left behind the last of them. So the payload
that a scrambled packet was made of can always be found again, for every work key and every length:
there is one for every ciphertext, and no more than one (`multi2_encrypts`).
-/

namespace Recdyud

namespace Multi2

/-- `x & M32` -/
abbrev Word := BitVec 32

/-! ## The cipher -/

/-- `_rot` -/
def rot (x : Word) (n : ℕ) : Word := x <<< n ||| x >>> (32 - n)

/-- `_pi1` -/
def pi1 : Word × Word → Word × Word
  | (l, r) => (l, r ^^^ l)

/-- `_pi2` -/
def pi2 : Word × Word → Word → Word × Word
  | (l, r), k1 =>
    let y := r + k1
    let z := rot y 1 + y - 1
    (l ^^^ rot z 4 ^^^ z, r)

/-- `_pi3` -/
def pi3 : Word × Word → Word → Word → Word × Word
  | (l, r), k2, k3 =>
    let y := l + k2
    let z := rot y 2 + y + 1
    let a := rot z 8 ^^^ z
    let b := a + k3
    let c := rot b 1 - b
    (l, r ^^^ rot c 16 ^^^ (c ||| l))

/-- `_pi4` -/
def pi4 : Word × Word → Word → Word × Word
  | (l, r), k4 =>
    let y := r + k4
    (l ^^^ (rot y 2 + y + 1), r)

/-- Four bytes as a number. -/
def word (b : Bytes) : Word := BitVec.ofNat 32 (intFromBytes b)

/-- `_words` -/
def words (b : Bytes) : List Word :=
  (pyRange 0 b.length 4).map fun i ↦ word (slice b i (i + 4))

/-- `_words` where it is unpacked into two; `none` is the `ValueError` of any other number. -/
def halves (b : Bytes) : Option (Word × Word) :=
  match words b with
  | [l, r] => some (l, r)
  | _ => none

/-- The eight words of a work key. -/
abbrev WorkKey := List.Vector Word 8

/-- `multi2_schedule`; `none` is the `IndexError` of a key that is too short. -/
def schedule (dataKey systemKey : Bytes) : Option WorkKey := do
  let sk := words systemKey
  let dk := words dataKey
  let a0 := pi1 (← dk[0]?, ← dk[1]?)
  let a1 := pi2 a0 (← sk[0]?)
  let a2 := pi3 a1 (← sk[1]?) (← sk[2]?)
  let a3 := pi4 a2 (← sk[3]?)
  let a4 := pi1 a3
  let a5 := pi2 a4 (← sk[4]?)
  let a6 := pi3 a5 (← sk[5]?) (← sk[6]?)
  let a7 := pi4 a6 (← sk[7]?)
  let a8 := pi1 a7
  return ⟨[a1.1, a2.2, a3.1, a4.2, a5.1, a6.2, a7.1, a8.2], rfl⟩

/-- One turn of the loop of `_encrypt_block`. -/
def encryptRound (wk : WorkKey) (x : Word × Word) : Word × Word :=
  let x := pi1 x
  let x := pi2 x (wk.get 0)
  let x := pi3 x (wk.get 1) (wk.get 2)
  let x := pi4 x (wk.get 3)
  let x := pi1 x
  let x := pi2 x (wk.get 4)
  let x := pi3 x (wk.get 5) (wk.get 6)
  pi4 x (wk.get 7)

/-- `_encrypt_block` -/
def encryptBlock (wk : WorkKey) (rounds : ℕ) : Word × Word → Word × Word :=
  (encryptRound wk)^[rounds]

/-- `sl.to_bytes(4, "big") + sr.to_bytes(4, "big")` -/
def halfBytes (x : Word × Word) : Bytes := toBytes x.1.toNat 4 ++ toBytes x.2.toNat 4

/-- One turn of the loop of `multi2_encrypt`: the block of ciphertext behind it, and `out`. -/
def encryptTurn (wk : WorkKey) (rounds : ℕ) (data : Bytes) :
    (Word × Word) × Bytes → ℕ → Option ((Word × Word) × Bytes)
  | ((sl, sr), out), i => do
    let (pl, pr) ← halves (slice data i (i + 8))
    let s := encryptBlock wk rounds (pl ^^^ sl, pr ^^^ sr)
    return (s, out ++ halfBytes s)

/-- `multi2_encrypt`: CBC for whole blocks, OFB for the trailing partial block. -/
def encrypt (data : Bytes) (workKey : WorkKey) (iv : Bytes) (rounds : ℕ) : Option Bytes := do
  let s ← halves iv
  let full := data.length / 8 * 8
  let (s, out) ← (pyRange 0 full 8).foldlM (encryptTurn workKey rounds data) (s, [])
  if full < data.length then
    let ks := halfBytes (encryptBlock workKey rounds s)
    return out ++ List.zipWith (· ^^^ ·) (data.drop full) ks
  return out

/-! ## Each step undoes itself -/

theorem pi1_involutive : Function.Involutive pi1 := by
  rintro ⟨l, r⟩
  simp only [pi1, BitVec.xor_assoc, BitVec.xor_self, BitVec.xor_zero]

theorem xor_xor_xor (a b c : Word) : a ^^^ b ^^^ c ^^^ b ^^^ c = a := by
  have hpairs : a ^^^ b ^^^ c ^^^ b ^^^ c = a ^^^ (b ^^^ b) ^^^ (c ^^^ c) := by ac_rfl
  rw [hpairs, BitVec.xor_self, BitVec.xor_self, BitVec.xor_zero, BitVec.xor_zero]

theorem pi2_involutive (k1 : Word) : Function.Involutive (pi2 · k1) := by
  rintro ⟨l, r⟩
  exact Prod.ext (xor_xor_xor _ _ _) rfl

theorem pi3_involutive (k2 k3 : Word) : Function.Involutive (pi3 · k2 k3) := by
  rintro ⟨l, r⟩
  exact Prod.ext rfl (xor_xor_xor _ _ _)

theorem pi4_involutive (k4 : Word) : Function.Involutive (pi4 · k4) := by
  rintro ⟨l, r⟩
  simp only [pi4, BitVec.xor_assoc, BitVec.xor_self, BitVec.xor_zero]

theorem encryptRound_bijective (wk : WorkKey) : Function.Bijective (encryptRound wk) :=
  (pi4_involutive (wk.get 7)).bijective.comp <|
    (pi3_involutive (wk.get 5) (wk.get 6)).bijective.comp <|
    (pi2_involutive (wk.get 4)).bijective.comp <|
    pi1_involutive.bijective.comp <|
    (pi4_involutive (wk.get 3)).bijective.comp <|
    (pi3_involutive (wk.get 1) (wk.get 2)).bijective.comp <|
    (pi2_involutive (wk.get 0)).bijective.comp pi1_involutive.bijective

/-- `_encrypt_block` is a permutation of the blocks. -/
noncomputable def blockPerm (wk : WorkKey) (rounds : ℕ) : Equiv.Perm (Word × Word) :=
  .ofBijective (encryptBlock wk rounds) ((encryptRound_bijective wk).iterate rounds)

/-! ## Words and bytes -/

theorem toBytes_intFromBytes (b : Bytes) : toBytes (intFromBytes b) b.length = b := by
  induction b using List.reverseRecOn with
  | nil => rfl
  | append_singleton b x ih =>
    have hx := x.toNat_lt
    have hhigh : (256 * intFromBytes b + x.toNat) >>> 8 = intFromBytes b := by
      rw [Nat.shiftRight_eq_div_pow]
      omega
    have hlow : UInt8.ofNat (256 * intFromBytes b + x.toNat) = x := by
      rw [← UInt8.toNat_inj, UInt8.toNat_ofNat']
      omega
    rw [List.length_append, List.length_singleton, toBytes_succ, intFromBytes_concat, hhigh, ih,
      hlow]

theorem word_toBytes (x : Word) : word (toBytes x.toNat 4) = x := by
  have hlt : x.toNat < 256 ^ 4 := x.isLt
  rw [word, intFromBytes_toBytes, Nat.mod_eq_of_lt hlt, BitVec.ofNat_toNat, BitVec.setWidth_eq]

theorem toBytes_word {b : Bytes} (h : b.length = 4) : toBytes (word b).toNat 4 = b := by
  have hlt : intFromBytes b < 2 ^ 32 := (intFromBytes_lt b).trans_eq (by rw [h]; rfl)
  rw [word, BitVec.toNat_ofNat, Nat.mod_eq_of_lt hlt, ← h, toBytes_intFromBytes]

/-- The bytes of a payload in blocks of two words. -/
def chaining : Chaining UInt8 (Word × Word) where
  size := 8
  read b := (word (b.take 4), word (b.drop 4))
  write := halfBytes
  mix x y := (x.1 ^^^ y.1, x.2 ^^^ y.2)
  mask := (· ^^^ ·)
  length_write _ := by rw [halfBytes, List.length_append, length_toBytes, length_toBytes]
  read_write x := by
    rw [halfBytes, List.take_left' (length_toBytes _ _), List.drop_left' (length_toBytes _ _),
      word_toBytes, word_toBytes]
  write_read l h := by
    have htake : (l.take 4).length = 4 := by rw [List.length_take, h]; rfl
    have hdrop : (l.drop 4).length = 4 := by rw [List.length_drop, h]
    rw [halfBytes, toBytes_word htake, toBytes_word hdrop, List.take_append_drop]
  mix_mix _ _ := by simp only [BitVec.xor_assoc, BitVec.xor_self, BitVec.xor_zero]
  mask_mask _ _ := by rw [UInt8.xor_assoc, UInt8.xor_self, UInt8.xor_zero]

theorem halves_eq {b : Bytes} (h : b.length = 8) : halves b = some (chaining.read b) := by
  have hfirst : slice b 0 4 = b.take 4 := slice_add b 0 4
  have hsecond : slice b 4 8 = b.drop 4 := by
    rw [slice, List.take_of_length_le h.le]
  have hwords : words b = [word (slice b 0 4), word (slice b 4 8)] := by
    rw [words, h]
    rfl
  rw [halves, hwords, hfirst, hsecond]
  rfl

/-! ## The work key -/

theorem length_words (b : Bytes) : (words b).length = (b.length + 3) / 4 := by
  rw [words, pyRange_zero, List.length_map, List.length_map, List.length_range]
  rfl

/-- The keys of the card are long enough. -/
theorem schedule_eq_some {dataKey systemKey : Bytes} (hdata : dataKey.length = 8)
    (hsystem : systemKey.length = 32) : ∃ wk, schedule dataKey systemKey = some wk := by
  have hdk : (words dataKey).length = 2 := by rw [length_words, hdata]
  have hsk : (words systemKey).length = 8 := by rw [length_words, hsystem]
  unfold schedule
  generalize words dataKey = dk at hdk ⊢
  generalize words systemKey = sk at hsk ⊢
  obtain ⟨d0, d1, rfl⟩ := List.length_eq_two.mp hdk
  match sk, hsk with
  | [s0, s1, s2, s3, s4, s5, s6, s7], _ => exact ⟨_, rfl⟩

/-! ## The payload is found again -/

section Encrypt

variable (wk : WorkKey) (rounds : ℕ) {data : Bytes}

/-- One turn on a whole block. -/
theorem encryptTurn_eq (s : Word × Word) (out : Bytes) {i : ℕ} (h : i + 8 ≤ data.length) :
    ∃ c, c = blockPerm wk rounds (chaining.mix (chaining.read ((data.drop i).take 8)) s) ∧
      encryptTurn wk rounds data (s, out) i = some (c, out ++ halfBytes c) := by
  have hlen : (slice data i (i + 8)).length = 8 := by
    rw [length_slice]
    omega
  refine ⟨_, rfl, ?_⟩
  rw [encryptTurn, halves_eq hlen, slice_add]
  rfl

/-- The loop: what it has written, and what the mode would write from there. -/
theorem foldlM_encryptTurn (s : Word × Word) (k m : ℕ) (h : 8 * k ≤ data.length) :
    ∃ c out, ((List.range k).map (8 * ·)).foldlM (encryptTurn wk rounds data) (s, []) =
        some (c, out) ∧
      chaining.encrypt (blockPerm wk rounds) (k + m) s data =
        out ++ chaining.encrypt (blockPerm wk rounds) m c (data.drop (8 * k)) := by
  induction k generalizing m with
  | zero => exact ⟨s, [], rfl, by rw [Nat.zero_add, Nat.mul_zero, List.drop_zero, List.nil_append]⟩
  | succ k ih =>
    obtain ⟨c, out, hloop, hmode⟩ := ih (m + 1) (by omega)
    have hblock : 8 * k + 8 ≤ data.length := by omega
    obtain ⟨c', hc', hturn⟩ := encryptTurn_eq wk rounds c out hblock
    refine ⟨c', out ++ halfBytes c', ?_, ?_⟩
    · rw [List.range_succ, List.map_append, List.foldlM_append, hloop]
      exact (bind_pure _).trans hturn
    · have hdrop : data.drop (8 * (k + 1)) = (data.drop (8 * k)).drop 8 := by
        rw [List.drop_drop, Nat.mul_succ]
      rw [Nat.add_right_comm, Nat.add_assoc, hmode, hdrop, List.append_assoc, hc']
      rfl

/-- `multi2_encrypt` is the mode, with all whole blocks. -/
theorem encrypt_eq {iv : Bytes} (hiv : iv.length = 8) (data : Bytes) :
    encrypt data wk iv rounds =
      some (chaining.encrypt (blockPerm wk rounds) (data.length / 8) (chaining.read iv) data) := by
  obtain ⟨c, out, hloop, hmode⟩ := foldlM_encryptTurn wk rounds (chaining.read iv)
    (data.length / 8) 0 (Nat.mul_div_le data.length 8)
  have hrange : pyRange 0 (data.length / 8 * 8) 8 = (List.range (data.length / 8)).map (8 * ·) := by
    rw [pyRange_zero]
    congr 2
    omega
  rw [Nat.add_zero, Nat.mul_comm] at hmode
  rw [encrypt, halves_eq hiv, hmode]
  dsimp only [Option.bind_eq_bind, Option.bind_some]
  rw [hrange, hloop]
  dsimp only [Option.bind_some]
  split
  · rfl
  · have hnone : data.drop (data.length / 8 * 8) = [] := List.drop_eq_nil_of_le (by omega)
    rw [hnone]
    exact congrArg some (List.append_nil out).symm

/-- **A scrambled payload can be found again.** With any work key, an IV of 8 bytes and any number
of rounds, each payload has a ciphertext of its length, and each ciphertext, also one that ends
within a block, is that of exactly one payload. -/
theorem multi2_encrypts {iv : Bytes} (hiv : iv.length = 8) :
    (∀ data, ∃ enc, encrypt data wk iv rounds = some enc ∧ enc.length = data.length) ∧
      ∀ enc, ∃! data, encrypt data wk iv rounds = some enc := by
  -- the whole blocks are all but less than one more
  have hle : ∀ data : Bytes, chaining.size * (data.length / 8) ≤ data.length :=
    fun data ↦ Nat.mul_div_le _ _
  have hge : ∀ data : Bytes, data.length ≤ chaining.size * (data.length / 8 + 1) :=
    fun data ↦ (Nat.lt_mul_div_succ _ (by decide)).le
  have hlength : ∀ data enc, encrypt data wk iv rounds = some enc →
      enc.length = data.length := by
    intro data enc h
    rw [encrypt_eq wk rounds hiv] at h
    rw [← Option.some.inj h]
    exact Chaining.length_run (hle data) (hge data)
  constructor
  · exact fun data ↦ ⟨_, encrypt_eq wk rounds hiv data,
      hlength data _ (encrypt_eq wk rounds hiv data)⟩
  intro enc
  have hdecrypted : (chaining.decrypt (blockPerm wk rounds) (enc.length / 8) (chaining.read iv)
      enc).length = enc.length := Chaining.length_run (hle enc) (hge enc)
  refine ⟨chaining.decrypt (blockPerm wk rounds) (enc.length / 8) (chaining.read iv) enc, ?_, ?_⟩
  · dsimp only
    rw [encrypt_eq wk rounds hiv, hdecrypted, Chaining.encrypt_decrypt (hle enc) (hge enc)]
  · intro data h
    have hlen := hlength data enc h
    rw [encrypt_eq wk rounds hiv] at h
    rw [hlen, ← Option.some.inj h, Chaining.decrypt_encrypt (hle data) (hge data)]

end Encrypt

/-- A ciphertext of eleven bytes, with a key of the tests. -/
theorem multi2_encrypts_elevenBytes :
    ∃ wk, schedule [0x01, 0x23, 0x45, 0x67, 0x89, 0xab, 0xcd, 0xef] (List.replicate 32 0x00) =
        some wk ∧
      ∃! data, encrypt data wk (List.replicate 8 0x00) 4 =
        some [0x47, 0x00, 0x01, 0x02, 0x03, 0x04, 0x05, 0x06, 0x07, 0x08, 0x09] := by
  obtain ⟨wk, hwk⟩ := schedule_eq_some
    (show [0x01, 0x23, 0x45, 0x67, 0x89, 0xab, 0xcd, 0xef].length = 8 from rfl)
    (show (List.replicate 32 0x00).length = 32 from rfl)
  obtain ⟨-, hunique⟩ := multi2_encrypts wk 4 (show (List.replicate 8 0x00).length = 8 from rfl)
  exact ⟨wk, hwk, hunique _⟩

end Multi2

end Recdyud
