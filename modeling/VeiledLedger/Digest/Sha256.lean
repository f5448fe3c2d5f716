/-
  VeiledLedger.Digest.Sha256 — SHA-256, the hash function the ledger runs on.

  The input is closed with a one bit, zeros and its length in bits, and cut into blocks of
  sixteen 32-bit words. Each block is stretched to 64 words and mixed into the eight words
  of the state.
-/

import VeiledLedger.Digest

namespace VeiledLedger.Sha256

structure State where
  a : UInt32
  b : UInt32
  c : UInt32
  d : UInt32
  e : UInt32
  f : UInt32
  g : UInt32
  h : UInt32

def initial : State :=
  ⟨0x6a09e667, 0xbb67ae85, 0x3c6ef372, 0xa54ff53a, 0x510e527f, 0x9b05688c, 0x1f83d9ab, 0x5be0cd19⟩

/-- The round constants. -/
def rounds : List UInt32 :=
  [0x428a2f98, 0x71374491, 0xb5c0fbcf, 0xe9b5dba5, 0x3956c25b, 0x59f111f1, 0x923f82a4, 0xab1c5ed5,
   0xd807aa98, 0x12835b01, 0x243185be, 0x550c7dc3, 0x72be5d74, 0x80deb1fe, 0x9bdc06a7, 0xc19bf174,
   0xe49b69c1, 0xefbe4786, 0x0fc19dc6, 0x240ca1cc, 0x2de92c6f, 0x4a7484aa, 0x5cb0a9dc, 0x76f988da,
   0x983e5152, 0xa831c66d, 0xb00327c8, 0xbf597fc7, 0xc6e00bf3, 0xd5a79147, 0x06ca6351, 0x14292967,
   0x27b70a85, 0x2e1b2138, 0x4d2c6dfc, 0x53380d13, 0x650a7354, 0x766a0abb, 0x81c2c92e, 0x92722c85,
   0xa2bfe8a1, 0xa81a664b, 0xc24b8b70, 0xc76c51a3, 0xd192e819, 0xd6990624, 0xf40e3585, 0x106aa070,
   0x19a4c116, 0x1e376c08, 0x2748774c, 0x34b0bcb5, 0x391c0cb3, 0x4ed8aa4a, 0x5b9cca4f, 0x682e6ff3,
   0x748f82ee, 0x78a5636f, 0x84c87814, 0x8cc70208, 0x90befffa, 0xa4506ceb, 0xbef9a3f7, 0xc67178f2]

def rotate (n x : UInt32) : UInt32 := (x >>> n) ||| (x <<< (32 - n))

/-- The next word of a schedule held newest word first. -/
def nextWord (w : List UInt32) : UInt32 :=
  let x := w.getD 14 0
  let y := w.getD 1 0
  (rotate 17 y ^^^ rotate 19 y ^^^ (y >>> 10)) + w.getD 6 0 +
    (rotate 7 x ^^^ rotate 18 x ^^^ (x >>> 3)) + w.getD 15 0

def stretch : Nat → List UInt32 → List UInt32
  | 0, w => w
  | n + 1, w => stretch n (nextWord w :: w)

def round (s : State) (kw : UInt32 × UInt32) : State :=
  let t1 := s.h + (rotate 6 s.e ^^^ rotate 11 s.e ^^^ rotate 25 s.e) +
    ((s.e &&& s.f) ^^^ (~~~ s.e &&& s.g)) + kw.1 + kw.2
  let t2 := (rotate 2 s.a ^^^ rotate 13 s.a ^^^ rotate 22 s.a) +
    ((s.a &&& s.b) ^^^ (s.a &&& s.c) ^^^ (s.b &&& s.c))
  ⟨t1 + t2, s.a, s.b, s.c, s.d + t1, s.e, s.f, s.g⟩

def mixBlock (s : State) (block : List UInt32) : State :=
  let r := (rounds.zip (stretch 48 block.reverse).reverse).foldl round s
  ⟨s.a + r.a, s.b + r.b, s.c + r.c, s.d + r.d, s.e + r.e, s.f + r.f, s.g + r.g, s.h + r.h⟩

/-- The input, a one bit, zeros to eight bytes short of a block, and the length in bits. -/
def close (b : Bytes) : Bytes :=
  b ++ 0x80 :: Bytes.zeros ((119 - b.length % 64) % 64) ++ Bytes.ofNat 8 (8 * b.length)

def word (x : Bytes) : UInt32 := UInt32.ofNat (Bytes.toNat x)

def finish (s : State) : Bytes :=
  [s.a, s.b, s.c, s.d, s.e, s.f, s.g, s.h].flatMap (fun w => Bytes.ofNat 4 w.toNat)

theorem length_finish (s : State) : (finish s).length = 32 := by simp [finish]

def sum (b : Bytes) : Digest :=
  let words := (Bytes.chunks 4 (close b)).map word
  let s := (Bytes.chunks 16 words).foldl mixBlock initial
  ⟨finish s, length_finish s⟩

instance : Hasher := ⟨sum⟩

end VeiledLedger.Sha256
