import Mathlib

/-!
# Block ciphers in CBC mode

Cipher block chaining mixes each block with the ciphertext in front of it before it is encrypted;
what is left behind the whole blocks is masked with the keystream that the cipher makes of the last
block of the ciphertext. With the inverse permutation both are undone, so on data of each length the
mode is a bijection (`decrypt_encrypt`, `encrypt_decrypt`), whatever the cipher.
-/

/-- What chaining needs of its data: blocks of `size` elements, which are read as values and written
from them, and how values and elements are mixed. -/
structure Chaining (α β : Type*) where
  size : ℕ
  read : List α → β
  write : β → List α
  mix : β → β → β
  mask : α → α → α
  length_write : ∀ b, (write b).length = size
  read_write : ∀ b, read (write b) = b
  write_read : ∀ l, l.length = size → write (read l) = l
  mix_mix : ∀ a b, mix (mix a b) b = a
  mask_mask : ∀ a b, mask (mask a b) b = a

namespace Chaining

variable {α β : Type*} (C : Chaining α β) (f : Equiv.Perm β)

/-- What becomes of a block, by the block of ciphertext in front: what is written for it, and the
block of ciphertext that it is or has become. -/
abbrev Turn (β : Type*) := β → β → β × β

/-- `k` whole blocks, and the rest. `s` is the block of ciphertext in front. -/
def run (turn : Turn β) : ℕ → β → List α → List α
  | 0, s, rest => List.zipWith C.mask rest (C.write (f s))
  | k + 1, s, data =>
    let out := turn (C.read (data.take C.size)) s
    C.write out.1 ++ run turn k out.2 (data.drop C.size)

def encryptTurn : Turn β := fun b s ↦ (f (C.mix b s), f (C.mix b s))

def decryptTurn : Turn β := fun c s ↦ (C.mix (f.symm c) s, c)

def encrypt : ℕ → β → List α → List α := C.run f (C.encryptTurn f)

def decrypt : ℕ → β → List α → List α := C.run f (C.decryptTurn f)

variable {C f} {turn back : Turn β} {k : ℕ} {s : β} {data : List α}

/-- The keystream masks what is no longer than it, and unmasks it again. -/
theorem zipWith_mask_mask {rest keys : List α} (h : rest.length ≤ keys.length) :
    List.zipWith C.mask (List.zipWith C.mask rest keys) keys = rest := by
  induction rest generalizing keys with
  | nil => rfl
  | cons a rest ih =>
    cases keys with
    | nil => exact absurd h (Nat.not_succ_le_zero _)
    | cons x keys =>
      rw [List.zipWith_cons_cons, List.zipWith_cons_cons, C.mask_mask,
        ih (Nat.le_of_succ_le_succ h)]

/-- Behind the first block, there is one block less. -/
theorem length_drop_between (hle : C.size * (k + 1) ≤ data.length)
    (hge : data.length ≤ C.size * (k + 1 + 1)) :
    C.size * k ≤ (data.drop C.size).length ∧ (data.drop C.size).length ≤ C.size * (k + 1) := by
  rw [Nat.mul_succ] at hle hge
  rw [List.length_drop]
  omega

theorem size_le_length (hle : C.size * (k + 1) ≤ data.length) : C.size ≤ data.length :=
  (Nat.le_mul_of_pos_right C.size k.succ_pos).trans hle

theorem length_run (hle : C.size * k ≤ data.length) (hge : data.length ≤ C.size * (k + 1)) :
    (C.run f turn k s data).length = data.length := by
  induction k generalizing s data with
  | zero =>
    rw [Nat.zero_add, Nat.mul_one] at hge
    rw [run, List.length_zipWith, C.length_write, Nat.min_eq_left hge]
  | succ k ih =>
    obtain ⟨hle', hge'⟩ := length_drop_between hle hge
    rw [run, List.length_append, C.length_write, ih hle' hge', List.length_drop,
      Nat.add_sub_cancel' (size_le_length hle)]

/-- **Back again**: where the turns undo each other, the runs do. -/
theorem run_run (hback : ∀ b s, back (turn b s).1 s = (b, (turn b s).2))
    (hle : C.size * k ≤ data.length) (hge : data.length ≤ C.size * (k + 1)) :
    C.run f back k s (C.run f turn k s data) = data := by
  induction k generalizing s data with
  | zero =>
    rw [Nat.zero_add, Nat.mul_one] at hge
    exact zipWith_mask_mask (hge.trans_eq (C.length_write _).symm)
  | succ k ih =>
    obtain ⟨hle', hge'⟩ := length_drop_between hle hge
    have hblock : C.write (C.read (data.take C.size)) = data.take C.size :=
      C.write_read _ (List.length_take_of_le (size_le_length hle))
    rw [run, run, List.take_left' (C.length_write _), List.drop_left' (C.length_write _),
      C.read_write, hback, hblock, ih hle' hge', List.take_append_drop]

/-- **Decryption** gives the data back. -/
theorem decrypt_encrypt (hle : C.size * k ≤ data.length) (hge : data.length ≤ C.size * (k + 1)) :
    C.decrypt f k s (C.encrypt f k s data) = data := by
  refine run_run (fun b s ↦ ?_) hle hge
  rw [encryptTurn, decryptTurn, f.symm_apply_apply, C.mix_mix]

/-- **Every ciphertext** is one of what it decrypts to. -/
theorem encrypt_decrypt (hle : C.size * k ≤ data.length) (hge : data.length ≤ C.size * (k + 1)) :
    C.encrypt f k s (C.decrypt f k s data) = data := by
  refine run_run (fun c s ↦ ?_) hle hge
  rw [encryptTurn, decryptTurn, C.mix_mix, f.apply_symm_apply]

end Chaining
