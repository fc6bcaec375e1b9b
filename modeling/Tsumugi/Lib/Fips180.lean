import Mathlib.Data.Nat.Prime.Defs
import Mathlib.Tactic.Ring
import Tsumugi.Lib.Codec

/-!
# SHA-256 (FIPS 180-4) and HMAC (RFC 2104)

The hash is that of the standard, on strings of bits; its constants are computed from the
primes they are the roots of. HMAC takes the hash and its block size as parameters, as its
RFC does, and works on bytes.

Results:
1. `rootFrom_spec`: the constants come from whole roots.
2. `zeros_spec`: the padding is the shortest that ends 64 bits short of a block.
3. `bitsOfBytes_bigEndian`, `valueOf_bitsOfBytes`: numbers and words, by bits and by bytes.
-/

namespace Fips180

/-- A word of 32 bits. -/
abbrev Word := BitVec 32

/-! ## Bits -/

/-- The `w` lowest bits of a number, most significant first. -/
def bitsOf : Nat → Nat → List Bool
  | 0, _ => []
  | w + 1, n => decide (n / 2 ^ w % 2 = 1) :: bitsOf w n

/-- The number that bits stand for, most significant first. -/
def valueOf (bits : List Bool) : Nat := bits.foldl (fun n b => 2 * n + b.toNat) 0

/-- A string of bytes, as a string of bits. -/
def bitsOfBytes (bytes : List UInt8) : List Bool := bytes.flatMap fun b => bitsOf 8 b.toNat

/-! ## Functions (§4.1.2) -/

def rotr (n : Nat) (x : Word) : Word := (x >>> n) ||| (x <<< (32 - n))

def shr (n : Nat) (x : Word) : Word := x >>> n

def ch (x y z : Word) : Word := (x &&& y) ^^^ (~~~x &&& z)

def maj (x y z : Word) : Word := (x &&& y) ^^^ (x &&& z) ^^^ (y &&& z)

def bigSigma0 (x : Word) : Word := rotr 2 x ^^^ rotr 13 x ^^^ rotr 22 x

def bigSigma1 (x : Word) : Word := rotr 6 x ^^^ rotr 11 x ^^^ rotr 25 x

def smallSigma0 (x : Word) : Word := rotr 7 x ^^^ rotr 18 x ^^^ shr 3 x

def smallSigma1 (x : Word) : Word := rotr 17 x ^^^ rotr 19 x ^^^ shr 10 x

/-! ## Constants (§4.2.2, §5.3.3) -/

/-- The primes below 312, which are the first sixty-four. -/
def primes : List Nat := (List.range 312).filter fun p => Nat.Prime p

/-- The whole `k`-th root of `n`, from bit `b` down. -/
def rootFrom (k n : Nat) : Nat → Nat → Nat
  | 0, r => r
  | b + 1, r => rootFrom k n b (if (r + 2 ^ b) ^ k ≤ n then r + 2 ^ b else r)

/-- The first 32 bits of the fractional part of the `k`-th root of `p`. -/
def fractionWord (k p : Nat) : Word := BitVec.ofNat 32 (rootFrom k (p * 2 ^ (32 * k)) 36 0)

/-- The constants of the rounds: cube roots. -/
def constant (t : Nat) : Word := fractionWord 3 (primes.getD t 0)

/-- The eight working variables. -/
structure Working where
  a : Word
  b : Word
  c : Word
  d : Word
  e : Word
  f : Word
  g : Word
  h : Word
deriving DecidableEq, Repr

/-- The initial hash value: square roots. -/
def initial : Working where
  a := fractionWord 2 (primes.getD 0 0)
  b := fractionWord 2 (primes.getD 1 0)
  c := fractionWord 2 (primes.getD 2 0)
  d := fractionWord 2 (primes.getD 3 0)
  e := fractionWord 2 (primes.getD 4 0)
  f := fractionWord 2 (primes.getD 5 0)
  g := fractionWord 2 (primes.getD 6 0)
  h := fractionWord 2 (primes.getD 7 0)

/-! ## Preprocessing (§5) -/

/-- The zeros of the padding of a message of `l` bits. -/
def zeros (l : Nat) : Nat := (448 + 512 - (l + 1) % 512) % 512

/-- The padded message. -/
def padded (message : List Bool) : List Bool :=
  message ++ [true] ++ List.replicate (zeros message.length) false ++ bitsOf 64 message.length

/-- The block with the index `i`. -/
def block (message : List Bool) (i : Nat) : List Bool := (message.drop (512 * i)).take 512

/-- The word with the index `t` of a block. -/
def word (block : List Bool) (t : Nat) : Word :=
  BitVec.ofNat 32 (valueOf ((block.drop (32 * t)).take 32))

/-! ## The hash (§6.2.2) -/

/-- The message schedule. -/
def schedule (M : Nat → Word) (t : Nat) : Word :=
  if t < 16 then M t
  else
    smallSigma1 (schedule M (t - 2)) + schedule M (t - 7) + smallSigma0 (schedule M (t - 15)) +
      schedule M (t - 16)
termination_by t

/-- One round. -/
def step (k w : Word) (s : Working) : Working :=
  let t1 := s.h + bigSigma1 s.e + ch s.e s.f s.g + k + w
  let t2 := bigSigma0 s.a + maj s.a s.b s.c
  ⟨t1 + t2, s.a, s.b, s.c, s.d + t1, s.e, s.f, s.g⟩

/-- The first `n` rounds. -/
def rounds (W : Nat → Word) (s : Working) : Nat → Working
  | 0 => s
  | t + 1 => step (constant t) (W t) (rounds W s t)

/-- The intermediate hash value after a block. -/
def compress (H : Working) (block : List Bool) : Working :=
  let s := rounds (schedule (word block)) H 64
  ⟨s.a + H.a, s.b + H.b, s.c + H.c, s.d + H.d, s.e + H.e, s.f + H.f, s.g + H.g, s.h + H.h⟩

/-- The bits of the eight words. -/
def Working.bits (s : Working) : List Bool :=
  [s.a, s.b, s.c, s.d, s.e, s.f, s.g, s.h].flatMap fun x => bitsOf 32 x.toNat

/-- SHA-256 of a string of bits. -/
def sha256 (message : List Bool) : List Bool :=
  let m := padded message
  ((List.range (m.length / 512)).foldl (fun H i => compress H (block m i)) initial).bits

/-! ## HMAC -/

/-- HMAC over a hash with blocks of `B` bytes. -/
def hmac (hash : List UInt8 → List UInt8) (B : Nat) (key text : List UInt8) : List UInt8 :=
  let key := if key.length > B then hash key else key
  let key := key ++ List.replicate (B - key.length) 0
  hash (key.map (· ^^^ 0x5c) ++ hash (key.map (· ^^^ 0x36) ++ text))

/-! ## Laws -/

/-- The root is whole: its power is no more than `n`, and the next one is. -/
theorem rootFrom_spec {k n : Nat} (b r : Nat) (hle : r ^ k ≤ n) (hlt : n < (r + 2 ^ b) ^ k) :
    rootFrom k n b r ^ k ≤ n ∧ n < (rootFrom k n b r + 1) ^ k := by
  induction b generalizing r with
  | zero => exact ⟨hle, by simpa [rootFrom] using hlt⟩
  | succ b ih =>
    rw [rootFrom]
    split
    next h => exact ih _ h (by rwa [Nat.add_assoc, ← Nat.two_mul, ← Nat.pow_succ'])
    next h => exact ih _ hle (Nat.lt_of_not_le h)

/-- The padding ends 64 bits short of a block, with fewer zeros than a block has bits. -/
theorem zeros_spec (l : Nat) : (l + 1 + zeros l) % 512 = 448 ∧ zeros l < 512 := by
  unfold zeros
  omega

@[simp] theorem length_bitsOf (w n : Nat) : (bitsOf w n).length = w := by
  induction w with
  | zero => rfl
  | succ w ih => rw [bitsOf, List.length_cons, ih]

@[simp] theorem length_bitsOfBytes (bytes : List UInt8) :
    (bitsOfBytes bytes).length = 8 * bytes.length := by
  simp [bitsOfBytes, Nat.mul_comm]

theorem bitsOfBytes_append (bytes bytes' : List UInt8) :
    bitsOfBytes (bytes ++ bytes') = bitsOfBytes bytes ++ bitsOfBytes bytes' :=
  List.flatMap_append

theorem bitsOfBytes_drop (bytes : List UInt8) (n : Nat) :
    (bitsOfBytes bytes).drop (8 * n) = bitsOfBytes (bytes.drop n) := by
  induction n generalizing bytes with
  | zero => rfl
  | succ n ih =>
    cases bytes with
    | nil => rfl
    | cons b bytes =>
      rw [List.drop_succ_cons, ← ih, bitsOfBytes, List.flatMap_cons, Nat.mul_succ, Nat.add_comm,
        ← List.drop_drop, List.drop_left' (length_bitsOf 8 _)]
      rfl

theorem bitsOfBytes_take (bytes : List UInt8) (n : Nat) :
    (bitsOfBytes bytes).take (8 * n) = bitsOfBytes (bytes.take n) := by
  induction n generalizing bytes with
  | zero => rfl
  | succ n ih =>
    cases bytes with
    | nil => rfl
    | cons b bytes =>
      rw [List.take_succ_cons, bitsOfBytes, List.flatMap_cons, Nat.mul_succ, Nat.add_comm,
        List.take_append, length_bitsOf, List.take_of_length_le (by simp), Nat.add_sub_cancel_left]
      exact congrArg _ (ih bytes)

/-- The bits of a number split where its digits do. -/
theorem bitsOf_add (v w n : Nat) : bitsOf (v + w) n = bitsOf v (n / 2 ^ w) ++ bitsOf w n := by
  induction v with
  | zero => rw [Nat.zero_add]; rfl
  | succ v ih =>
    rw [Nat.add_right_comm, bitsOf, ih, bitsOf, Nat.div_div_eq_div_mul, ← Nat.pow_add,
      Nat.add_comm w v]
    rfl

theorem bitsOf_mod {w k : Nat} (h : w ≤ k) (n : Nat) : bitsOf w (n % 2 ^ k) = bitsOf w n := by
  induction w with
  | zero => rfl
  | succ w ih =>
    have hbit : decide (n % 2 ^ k / 2 ^ w % 2 = 1) = decide (n / 2 ^ w % 2 = 1) := by
      rw [← Nat.testBit_eq_decide_div_mod_eq, ← Nat.testBit_eq_decide_div_mod_eq,
        Nat.testBit_mod_two_pow, decide_eq_true (show w < k from h), Bool.true_and]
    rw [bitsOf, bitsOf, ih (Nat.le_of_succ_le h), hbit]

theorem bitsOfBytes_bigEndian (w n : Nat) :
    bitsOfBytes (Codec.bigEndian w n) = bitsOf (8 * w) n := by
  induction w with
  | zero => rfl
  | succ w ih =>
    rw [Codec.bigEndian, bitsOfBytes, List.flatMap_cons, Nat.mul_succ, Nat.add_comm, bitsOf_add,
      Nat.pow_mul]
    exact congrArg₂ _ (bitsOf_mod (k := 8) Nat.le.refl _) ih

theorem foldl_bitsOf (w n m : Nat) :
    (bitsOf w n).foldl (fun n b => 2 * n + b.toNat) m = m * 2 ^ w + n % 2 ^ w := by
  induction w generalizing m with
  | zero => simp [bitsOf, Nat.mod_one]
  | succ w ih =>
    have hbit : (decide (n / 2 ^ w % 2 = 1)).toNat = n / 2 ^ w % 2 := by
      obtain h | h := Nat.mod_two_eq_zero_or_one (n / 2 ^ w) <;> simp [h]
    rw [bitsOf, List.foldl_cons, ih, hbit, Nat.pow_succ, Nat.mod_mul]
    ring

/-- The number that a string of bytes stands for, by its digits to the base 256. -/
theorem valueOf_bitsOfBytes (bytes : List UInt8) :
    valueOf (bitsOfBytes bytes) = bytes.foldl (fun n b => n * 256 + b.toNat) 0 := by
  suffices h : ∀ m, (bitsOfBytes bytes).foldl (fun n b => 2 * n + b.toNat) m =
      bytes.foldl (fun n b => n * 256 + b.toNat) m from h 0
  induction bytes with
  | nil => exact fun _ => rfl
  | cons b bytes ih =>
    intro m
    rw [bitsOfBytes, List.flatMap_cons, List.foldl_append, foldl_bitsOf,
      Nat.mod_eq_of_lt b.toNat_lt]
    exact ih _

end Fips180
