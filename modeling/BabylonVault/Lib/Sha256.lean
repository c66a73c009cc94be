/-
  SHA-256, executable.

  * `hash`: the hash function, on 32-bit words kept as natural numbers, so that the
    kernel computes with them directly.
  * `hmac`, `tagged`: what is built on it.
-/
import BabylonVault.Lib.Buf

namespace Sha256
open Bytes

/-! ## The compression function -/

/-- Rotate a 32-bit word to the right. -/
def rotr (n x : ℕ) : ℕ := (x >>> n) ||| ((x <<< (32 - n)) % 2 ^ 32)

def bigSigma0 (x : ℕ) : ℕ := rotr 2 x ^^^ (rotr 13 x ^^^ rotr 22 x)
def bigSigma1 (x : ℕ) : ℕ := rotr 6 x ^^^ (rotr 11 x ^^^ rotr 25 x)
def smallSigma0 (x : ℕ) : ℕ := rotr 7 x ^^^ (rotr 18 x ^^^ (x >>> 3))
def smallSigma1 (x : ℕ) : ℕ := rotr 17 x ^^^ (rotr 19 x ^^^ (x >>> 10))
def ch (x y z : ℕ) : ℕ := (x &&& y) ^^^ ((2 ^ 32 - 1 - x) &&& z)
def maj (x y z : ℕ) : ℕ := (x &&& y) ^^^ ((x &&& z) ^^^ (y &&& z))

/-- The eight working words. -/
structure State where
  (a b c d e f g h : ℕ)

/-- The initial state. -/
def State.init : State :=
  ⟨0x6a09e667, 0xbb67ae85, 0x3c6ef372, 0xa54ff53a, 0x510e527f, 0x9b05688c, 0x1f83d9ab, 0x5be0cd19⟩

/-- The round constants. -/
def roundConstants : List ℕ :=
  [0x428a2f98, 0x71374491, 0xb5c0fbcf, 0xe9b5dba5, 0x3956c25b, 0x59f111f1, 0x923f82a4, 0xab1c5ed5,
   0xd807aa98, 0x12835b01, 0x243185be, 0x550c7dc3, 0x72be5d74, 0x80deb1fe, 0x9bdc06a7, 0xc19bf174,
   0xe49b69c1, 0xefbe4786, 0x0fc19dc6, 0x240ca1cc, 0x2de92c6f, 0x4a7484aa, 0x5cb0a9dc, 0x76f988da,
   0x983e5152, 0xa831c66d, 0xb00327c8, 0xbf597fc7, 0xc6e00bf3, 0xd5a79147, 0x06ca6351, 0x14292967,
   0x27b70a85, 0x2e1b2138, 0x4d2c6dfc, 0x53380d13, 0x650a7354, 0x766a0abb, 0x81c2c92e, 0x92722c85,
   0xa2bfe8a1, 0xa81a664b, 0xc24b8b70, 0xc76c51a3, 0xd192e819, 0xd6990624, 0xf40e3585, 0x106aa070,
   0x19a4c116, 0x1e376c08, 0x2748774c, 0x34b0bcb5, 0x391c0cb3, 0x4ed8aa4a, 0x5b9cca4f, 0x682e6ff3,
   0x748f82ee, 0x78a5636f, 0x84c87814, 0x8cc70208, 0x90befffa, 0xa4506ceb, 0xbef9a3f7, 0xc67178f2]

/-- One round, with constant and message word added up. -/
def round (s : State) (kw : ℕ) : State :=
  let t1 := s.h + bigSigma1 s.e + ch s.e s.f s.g + kw
  let t2 := bigSigma0 s.a + maj s.a s.b s.c
  ⟨(t1 + t2) % 2 ^ 32, s.a, s.b, s.c, (s.d + t1) % 2 ^ 32, s.e, s.f, s.g⟩

/-- The word that follows sixteen words of the message schedule, oldest first. -/
def nextWord (w : List ℕ) : ℕ :=
  (w.getD 0 0 + smallSigma0 (w.getD 1 0) + w.getD 9 0 + smallSigma1 (w.getD 14 0)) % 2 ^ 32

/-- The rounds of the constants that are left. -/
def rounds : List ℕ → List ℕ → State → State
  | [], _, s => s
  | k :: ks, w, s => rounds ks (w.tail ++ [nextWord w]) (round s (k + w.headD 0))

/-- The compression function. -/
def compress (s : State) (w : List ℕ) : State :=
  let r := rounds roundConstants w s
  ⟨(s.a + r.a) % 2 ^ 32, (s.b + r.b) % 2 ^ 32, (s.c + r.c) % 2 ^ 32, (s.d + r.d) % 2 ^ 32,
   (s.e + r.e) % 2 ^ 32, (s.f + r.f) % 2 ^ 32, (s.g + r.g) % 2 ^ 32, (s.h + r.h) % 2 ^ 32⟩

/-! ## The hash function -/

/-- The first `n` big-endian words of a string. -/
def words : ℕ → Bytes → List ℕ
  | 0, _ => []
  | n + 1, b => ofBE (b.take 4) :: words n (b.drop 4)

/-- The state after `n` blocks. -/
def blocks : ℕ → Bytes → State → State
  | 0, _, s => s
  | n + 1, b, s => blocks n (b.drop 64) (compress s (words 16 b))

/-- The padded message. -/
def pad (b : Bytes) : Bytes :=
  b ++ [0x80] ++ List.replicate ((119 - b.length % 64) % 64) 0 ++ (leBytes 8 (8 * b.length)).reverse

/-- The words of a state, big-endian. -/
def State.digest (s : State) : Bytes :=
  [s.a, s.b, s.c, s.d, s.e, s.f, s.g, s.h].flatMap fun w => (leBytes 4 w).reverse

/-- SHA-256. -/
def hash (b : Bytes) : Buf 32 :=
  ⟨(blocks ((pad b).length / 64) (pad b) .init).digest, by simp [State.digest]⟩

example : (hash [0x61, 0x62, 0x63]).toList.take 4 = [0xBA, 0x78, 0x16, 0xBF] := by decide +kernel

/-- HMAC with SHA-256, for a key of at most one block. -/
def hmac (key msg : Bytes) : Buf 32 :=
  let key := key ++ List.replicate (64 - key.length) 0
  hash (key.map (· ^^^ 0x5C) ++ (hash (key.map (· ^^^ 0x36) ++ msg)).toList)

/-- The tagged hash of BIP-340. -/
def tagged (tag msg : Bytes) : Buf 32 := hash ((hash tag).toList ++ (hash tag).toList ++ msg)

end Sha256
