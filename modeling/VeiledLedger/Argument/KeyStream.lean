/-
  VeiledLedger.Argument.KeyStream — the words that a seed is stretched to.

  The stream is that of ChaCha20 without a nonce. A block of sixteen 32-bit words is filled with
  four constants, the seed and the number of the block, mixed in twenty rounds, and added to
  what it was filled with.
-/

import VeiledLedger.Digest

namespace VeiledLedger.KeyStream

abbrev Block := Vector UInt32 16

def rotate (n x : UInt32) : UInt32 := (x <<< n) ||| (x >>> (32 - n))

/-- Mixes four words of a block. -/
def quarter (s : Block) (i j k l : Fin 16) : Block :=
  let a := s[i] + s[j]
  let d := rotate 16 (s[l] ^^^ a)
  let c := s[k] + d
  let b := rotate 12 (s[j] ^^^ c)
  let a := a + b
  let d := rotate 8 (d ^^^ a)
  let c := c + d
  let b := rotate 7 (b ^^^ c)
  (((s.set i a).set j b).set k c).set l d

/-- One round along the columns of a block of four rows, and one along its diagonals. -/
def twoRounds (s : Block) : Block :=
  let s := quarter (quarter (quarter (quarter s 0 4 8 12) 1 5 9 13) 2 6 10 14) 3 7 11 15
  quarter (quarter (quarter (quarter s 0 5 10 15) 1 6 11 12) 2 7 8 13) 3 4 9 14

/-- What block `n` is filled with. -/
def fill (seed : Digest) (n : Nat) : Block :=
  let words := [0x61707865, 0x3320646e, 0x79622d32, 0x6b206574] ++
    (Bytes.chunks 4 seed.toBytes).map (fun c => UInt32.ofNat (Bytes.toNatLittle c)) ++
    [UInt32.ofNat n, UInt32.ofNat (n / 2 ^ 32)]
  Vector.ofFn (fun i => words.getD i.val 0)

def block (seed : Digest) (n : Nat) : Block :=
  let s := fill seed n
  Vector.zipWith (· + ·) (Nat.repeat twoRounds 10 s) s

/-- Word `i` of the stream. -/
def word (seed : Digest) (i : Nat) : UInt32 := (block seed (i / 16))[Fin.ofNat 16 i]

end VeiledLedger.KeyStream
