/-
SHA-256. A message is padded to whole blocks of sixteen words, each block is expanded to sixty-four
words, and sixty-four rounds stir each block into a state of eight words.

Nothing is stated about the values: chains rest on two messages with one digest being two messages
that can be shown, never on how a digest comes about.
-/
import TradeLedger.Digest

namespace TradeLedger.Sha256

/-! ## Words -/

def rotateRight (x n : UInt32) : UInt32 := (x >>> n) ||| (x <<< (32 - n))

/-- Words of four octets, the high one first. -/
def words : Bytes → List UInt32
  | a :: b :: c :: d :: rest =>
    (a.toUInt32 <<< 24 ||| b.toUInt32 <<< 16 ||| c.toUInt32 <<< 8 ||| d.toUInt32) :: words rest
  | _ => []

def octets (w : UInt32) : Bytes :=
  [(w >>> 24).toUInt8, (w >>> 16).toUInt8, (w >>> 8).toUInt8, w.toUInt8]

/-! ## Padding -/

/-- How many zero octets bring a message, one marker and eight octets of length to whole blocks. -/
def zeros (length : Nat) : Nat := (119 - length % 64) % 64

/-- The message, a marker, zeros, and the message's length in bits. -/
def padded (message : Bytes) : Bytes :=
  message ++ 0x80 :: List.replicate (zeros message.length) 0 ++
    (Bytes.littleEndian 8 (8 * message.length)).reverse

/-! ## Rounds -/

/-- The words that each round adds: cube roots of the first sixty-four primes. -/
def constants : List UInt32 :=
  [0x428a2f98, 0x71374491, 0xb5c0fbcf, 0xe9b5dba5, 0x3956c25b, 0x59f111f1, 0x923f82a4, 0xab1c5ed5,
   0xd807aa98, 0x12835b01, 0x243185be, 0x550c7dc3, 0x72be5d74, 0x80deb1fe, 0x9bdc06a7, 0xc19bf174,
   0xe49b69c1, 0xefbe4786, 0x0fc19dc6, 0x240ca1cc, 0x2de92c6f, 0x4a7484aa, 0x5cb0a9dc, 0x76f988da,
   0x983e5152, 0xa831c66d, 0xb00327c8, 0xbf597fc7, 0xc6e00bf3, 0xd5a79147, 0x06ca6351, 0x14292967,
   0x27b70a85, 0x2e1b2138, 0x4d2c6dfc, 0x53380d13, 0x650a7354, 0x766a0abb, 0x81c2c92e, 0x92722c85,
   0xa2bfe8a1, 0xa81a664b, 0xc24b8b70, 0xc76c51a3, 0xd192e819, 0xd6990624, 0xf40e3585, 0x106aa070,
   0x19a4c116, 0x1e376c08, 0x2748774c, 0x34b0bcb5, 0x391c0cb3, 0x4ed8aa4a, 0x5b9cca4f, 0x682e6ff3,
   0x748f82ee, 0x78a5636f, 0x84c87814, 0x8cc70208, 0x90befffa, 0xa4506ceb, 0xbef9a3f7, 0xc67178f2]

/-- The words that follow a window of sixteen. -/
def extend : Nat → List UInt32 → List UInt32
  | 0, _ => []
  | more + 1, window =>
    let w0 := window.getD 0 0
    let w1 := window.getD 1 0
    let w9 := window.getD 9 0
    let w14 := window.getD 14 0
    let s0 := rotateRight w1 7 ^^^ rotateRight w1 18 ^^^ (w1 >>> 3)
    let s1 := rotateRight w14 17 ^^^ rotateRight w14 19 ^^^ (w14 >>> 10)
    let next := w0 + s0 + w9 + s1
    next :: extend more (window.drop 1 ++ [next])

/-- The sixty-four words of a block of sixteen. -/
def schedule (block : List UInt32) : List UInt32 := block ++ extend 48 block

structure State where
  a : UInt32
  b : UInt32
  c : UInt32
  d : UInt32
  e : UInt32
  f : UInt32
  g : UInt32
  h : UInt32

namespace State

/-- Square roots of the first eight primes. -/
def initial : State :=
  ⟨0x6a09e667, 0xbb67ae85, 0x3c6ef372, 0xa54ff53a, 0x510e527f, 0x9b05688c, 0x1f83d9ab, 0x5be0cd19⟩

def round (s : State) (k w : UInt32) : State :=
  let s1 := rotateRight s.e 6 ^^^ rotateRight s.e 11 ^^^ rotateRight s.e 25
  let choice := (s.e &&& s.f) ^^^ (~~~s.e &&& s.g)
  let t1 := s.h + s1 + choice + k + w
  let s0 := rotateRight s.a 2 ^^^ rotateRight s.a 13 ^^^ rotateRight s.a 22
  let majority := (s.a &&& s.b) ^^^ (s.a &&& s.c) ^^^ (s.b &&& s.c)
  ⟨t1 + (s0 + majority), s.a, s.b, s.c, s.d + t1, s.e, s.f, s.g⟩

def add (s t : State) : State :=
  ⟨s.a + t.a, s.b + t.b, s.c + t.c, s.d + t.d, s.e + t.e, s.f + t.f, s.g + t.g, s.h + t.h⟩

def absorb (s : State) (block : List UInt32) : State :=
  s.add ((constants.zip (schedule block)).foldl (fun t kw => t.round kw.1 kw.2) s)

def digest (s : State) : Digest :=
  ⟨octets s.a ++ octets s.b ++ octets s.c ++ octets s.d ++ octets s.e ++ octets s.f ++ octets s.g ++
    octets s.h, by simp [octets]⟩

end State

/-- Stirs in as many blocks as asked for. -/
def absorbAll : Nat → List UInt32 → State → State
  | 0, _, s => s
  | blocks + 1, ws, s => absorbAll blocks (ws.drop 16) (s.absorb (ws.take 16))

/-- The digest of a message. -/
def hash (message : Bytes) : Digest :=
  let ws := words (padded message)
  (absorbAll (ws.length / 16) ws State.initial).digest

end TradeLedger.Sha256
