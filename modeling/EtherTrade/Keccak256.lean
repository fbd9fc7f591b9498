import Mathlib.Data.List.Basic
import Mathlib.Data.Nat.Bitwise
import Mathlib.Tactic.Ring

/-!
# Words of bytes and the Keccak-256 hash

Words as bytes, the most significant first, and the sponge over the permutation
Keccak-f[1600] with the padding that hashes of 256 bits had before the standard added a
suffix to the message.
-/

namespace EtherTrade.Keccak256

/-! ### Bytes -/

abbrev Byte := BitVec 8

def ofBytes (w : ℕ) (bytes : List Byte) : BitVec w :=
  bytes.foldl (fun word byte => word <<< 8 ||| byte.setWidth w) 0

/-- The lowest `n` bytes. -/
def toBytes {w : ℕ} : ℕ → BitVec w → List Byte
  | 0, _ => []
  | n + 1, word => toBytes n (word >>> 8) ++ [word.setWidth 8]

variable {w n : ℕ}

theorem length_toBytes (word : BitVec w) : (toBytes n word).length = n := by
  induction n generalizing word with
  | zero => rfl
  | succ n ih => rw [toBytes, List.length_append, ih, List.length_singleton]

theorem ofBytes_append_singleton (bytes : List Byte) (byte : Byte) :
    ofBytes w (bytes ++ [byte]) = ofBytes w bytes <<< 8 ||| byte.setWidth w := by
  rw [ofBytes, List.foldl_append]
  rfl

theorem toNat_ofBytes_toBytes (h : 8 * n ≤ w) (word : BitVec w) :
    (ofBytes w (toBytes n word)).toNat = word.toNat % 2 ^ (8 * n) := by
  induction n generalizing word with
  | zero => simp [toBytes, ofBytes, Nat.mod_one]
  | succ n ih =>
    have hbyte : word.toNat % 2 ^ 8 < 2 ^ 8 := Nat.mod_lt _ (by decide)
    have hlow : word.toNat % 2 ^ 8 < 2 ^ w :=
      hbyte.trans_le (Nat.pow_le_pow_right (by decide) (by omega))
    have hhigh : word.toNat / 2 ^ 8 % 2 ^ (8 * n) * 2 ^ 8 < 2 ^ w := by
      have hlt : word.toNat / 2 ^ 8 % 2 ^ (8 * n) < 2 ^ (8 * n) :=
        Nat.mod_lt _ (Nat.two_pow_pos _)
      calc word.toNat / 2 ^ 8 % 2 ^ (8 * n) * 2 ^ 8
          < 2 ^ (8 * n) * 2 ^ 8 := Nat.mul_lt_mul_of_pos_right hlt (by decide)
        _ = 2 ^ (8 * (n + 1)) := by rw [Nat.mul_succ, Nat.pow_add]
        _ ≤ 2 ^ w := Nat.pow_le_pow_right (by decide) h
    have hsplit : 2 ^ (8 * (n + 1)) = 2 ^ 8 * 2 ^ (8 * n) := by
      rw [Nat.mul_succ, Nat.pow_add, Nat.mul_comm]
    rw [toBytes, ofBytes_append_singleton, BitVec.toNat_or, BitVec.toNat_shiftLeft, ih (by omega),
      BitVec.toNat_ushiftRight, BitVec.toNat_setWidth, BitVec.toNat_setWidth,
      Nat.shiftRight_eq_div_pow, Nat.shiftLeft_eq, Nat.mod_eq_of_lt hhigh, Nat.mod_eq_of_lt hlow,
      ← Nat.shiftLeft_eq _ 8, ← Nat.shiftLeft_add_eq_or_of_lt hbyte,
      Nat.shiftLeft_eq, hsplit, Nat.mod_mul, Nat.add_comm, Nat.mul_comm]

/-- A word of so many bytes is read back as it was written. -/
theorem ofBytes_toBytes (word : BitVec (8 * n)) : ofBytes (8 * n) (toBytes n word) = word := by
  apply BitVec.eq_of_toNat_eq
  rw [toNat_ofBytes_toBytes le_rfl, Nat.mod_eq_of_lt word.isLt]

/-! ### The permutation -/

abbrev Lane := BitVec 64

/-- Twenty-five lanes; lane `(x, y)` stands at `x + 5 * y`. -/
abbrev State := List Lane

def lane (a : State) (x y : ℕ) : Lane := a.getD (x % 5 + 5 * (y % 5)) 0

def build (f : ℕ → ℕ → Lane) : State := (List.range 25).map fun i => f (i % 5) (i / 5)

def theta (a : State) : State :=
  let parity (x : ℕ) : Lane :=
    lane a x 0 ^^^ lane a x 1 ^^^ lane a x 2 ^^^ lane a x 3 ^^^ lane a x 4
  let effect := (List.range 5).map fun x => parity (x + 4) ^^^ (parity (x + 1)).rotateLeft 1
  build fun x y => lane a x y ^^^ effect.getD x 0

def rotationOffsets : List ℕ :=
  [0, 1, 62, 28, 27,
   36, 44, 6, 55, 20,
   3, 10, 43, 25, 39,
   41, 45, 15, 21, 8,
   18, 2, 61, 56, 14]

/-- Each lane is rotated by its offset and moved to its new place. -/
def rhoPi (a : State) : State :=
  build fun x y =>
    (lane a (x + 3 * y) x).rotateLeft (rotationOffsets.getD ((x + 3 * y) % 5 + 5 * x) 0)

def chi (a : State) : State :=
  build fun x y => lane a x y ^^^ (~~~lane a (x + 1) y &&& lane a (x + 2) y)

def iota (constant : Lane) : State → State
  | [] => []
  | first :: rest => (first ^^^ constant) :: rest

def roundConstants : List Lane :=
  [0x0000000000000001, 0x0000000000008082, 0x800000000000808A, 0x8000000080008000,
   0x000000000000808B, 0x0000000080000001, 0x8000000080008081, 0x8000000000008009,
   0x000000000000008A, 0x0000000000000088, 0x0000000080008009, 0x000000008000000A,
   0x000000008000808B, 0x800000000000008B, 0x8000000000008089, 0x8000000000008003,
   0x8000000000008002, 0x8000000000000080, 0x000000000000800A, 0x800000008000000A,
   0x8000000080008081, 0x8000000000008080, 0x0000000080000001, 0x8000000080008008]

def permute (a : State) : State :=
  roundConstants.foldl (fun a constant => iota constant (chi (rhoPi (theta a)))) a

/-! ### The sponge -/

/-- The bytes of a block. -/
def rate : ℕ := 136

/-- The message with the bits `1 0 … 0 1` behind it, up to the end of a block. -/
def pad (message : List Byte) : List Byte :=
  let missing := rate - message.length % rate
  if missing = 1 then message ++ [0x81]
  else message ++ [0x01] ++ List.replicate (missing - 2) 0 ++ [0x80]

/-- The first `count` pieces of `n` entries. -/
def chunks {α : Type*} (n : ℕ) : ℕ → List α → List (List α)
  | 0, _ => []
  | count + 1, l => l.take n :: chunks n count (l.drop n)

def blocks (message : List Byte) : List (List Byte) :=
  chunks rate ((pad message).length / rate) (pad message)

/-- The lanes of a block, each from its least significant byte on. -/
def lanes (block : List Byte) : State :=
  (chunks 8 25 block).map fun bytes => ofBytes 64 bytes.reverse

def absorb (a : State) (block : List Byte) : State := permute (a.zipWith (· ^^^ ·) (lanes block))

def keccak256 (message : List Byte) : BitVec 256 :=
  let a := (blocks message).foldl absorb (List.replicate 25 0)
  ofBytes 256 ((a.take 4).flatMap fun lane => (toBytes 8 lane).reverse)

theorem flatten_chunks {α : Type*} (n count : ℕ) (l : List α) :
    (chunks n count l).flatten = l.take (n * count) := by
  induction count generalizing l with
  | zero => rfl
  | succ count ih => rw [chunks, List.flatten_cons, ih, Nat.mul_succ, Nat.add_comm, List.take_add]

theorem rate_dvd_length_pad (message : List Byte) : rate ∣ (pad message).length := by
  have hlt : message.length % rate < rate := Nat.mod_lt _ (by decide)
  have hlength : (pad message).length = message.length + (rate - message.length % rate) := by
    simp only [pad]
    split_ifs with hone
    · rw [List.length_append, List.length_singleton, hone]
    · simp only [List.length_append, List.length_singleton, List.length_replicate]
      omega
  rw [hlength]
  refine ⟨message.length / rate + 1, ?_⟩
  rw [Nat.mul_add, Nat.mul_one]
  have hdiv := Nat.div_add_mod message.length rate
  omega

/-- The sponge absorbs the whole padded message. -/
theorem flatten_blocks (message : List Byte) : (blocks message).flatten = pad message := by
  rw [blocks, flatten_chunks, Nat.mul_div_cancel' (rate_dvd_length_pad message), List.take_length]

example : keccak256 [] =
    0xc5d2460186f7233c927e7db2dcc703c0e500b653ca82273b7bfad8045d85a470 := by
  decide +kernel

end EtherTrade.Keccak256
