import Mathlib.Logic.Function.Iterate
import Mdrap.Lib.Bytes

/-!
# CRC-32

The checksum of `zlib.crc32`: the reflected polynomial `0xEDB88320`, all ones before and after, one byte at a time. The
second argument of `crc32With` is a running value, so that a checksum can be continued over a second string.
-/

namespace Lib

/-- One bit shifted out of the register. -/
def crcShift (c : UInt32) : UInt32 := if c &&& 1 = 1 then (c >>> 1) ^^^ 0xEDB88320 else c >>> 1

/-- One byte fed into the register: eight shifts. -/
def crcFeed (c : UInt32) (b : UInt8) : UInt32 := Nat.iterate crcShift 8 (c ^^^ b.toUInt32)

/-- The checksum of `data`, continued from the checksum `value`. -/
def crc32With (data : Bytes) (value : UInt32) : UInt32 := data.foldl crcFeed (value ^^^ 0xFFFFFFFF) ^^^ 0xFFFFFFFF

/-- The checksum of `data`. -/
def crc32 (data : Bytes) : UInt32 := crc32With data 0

/-- The checksum of nothing, continued from a value, is the value. -/
theorem crc32With_nil (v : UInt32) : crc32With [] v = v := by
  simp [crc32With, UInt32.xor_assoc]

theorem crc32_nil : crc32 [] = 0 := crc32With_nil 0

/-- A checksum continued over a second string is the checksum of both, put end to end. -/
theorem crc32With_crc32 (a b : Bytes) : crc32With b (crc32 a) = crc32 (a ++ b) := by
  simp [crc32, crc32With, UInt32.xor_assoc]

/-- The check value of the CRC-32 of zlib: the checksum of the nine digits `"123456789"`. -/
example : crc32 [0x31, 0x32, 0x33, 0x34, 0x35, 0x36, 0x37, 0x38, 0x39] = 0xCBF43926 := by decide +kernel

end Lib

/-!
## SHA-256

The hash of a list of bytes: the message is padded to blocks of sixty-four bytes, and each block is worked into a state of eight
words of 32 bits.
-/

namespace Lib

namespace Sha256

/-- The constants of the rounds. -/
def rounds : List Nat :=
  [0x428a2f98, 0x71374491, 0xb5c0fbcf, 0xe9b5dba5, 0x3956c25b, 0x59f111f1, 0x923f82a4, 0xab1c5ed5, 0xd807aa98, 0x12835b01,
   0x243185be, 0x550c7dc3, 0x72be5d74, 0x80deb1fe, 0x9bdc06a7, 0xc19bf174, 0xe49b69c1, 0xefbe4786, 0x0fc19dc6, 0x240ca1cc,
   0x2de92c6f, 0x4a7484aa, 0x5cb0a9dc, 0x76f988da, 0x983e5152, 0xa831c66d, 0xb00327c8, 0xbf597fc7, 0xc6e00bf3, 0xd5a79147,
   0x06ca6351, 0x14292967, 0x27b70a85, 0x2e1b2138, 0x4d2c6dfc, 0x53380d13, 0x650a7354, 0x766a0abb, 0x81c2c92e, 0x92722c85,
   0xa2bfe8a1, 0xa81a664b, 0xc24b8b70, 0xc76c51a3, 0xd192e819, 0xd6990624, 0xf40e3585, 0x106aa070, 0x19a4c116, 0x1e376c08,
   0x2748774c, 0x34b0bcb5, 0x391c0cb3, 0x4ed8aa4a, 0x5b9cca4f, 0x682e6ff3, 0x748f82ee, 0x78a5636f, 0x84c87814, 0x8cc70208,
   0x90befffa, 0xa4506ceb, 0xbef9a3f7, 0xc67178f2]

/-- A word turned to the right. -/
def rotr (x n : Nat) : Nat := (x >>> n ||| x <<< (32 - n)) % 2 ^ 32

/-- The next word of the schedule, from the sixteen before it, the newest first. -/
def nextWord (ws : List Nat) : Nat :=
  let w15 := ws.getD 14 0
  let w2 := ws.getD 1 0
  let s0 := rotr w15 7 ^^^ rotr w15 18 ^^^ (w15 >>> 3)
  let s1 := rotr w2 17 ^^^ rotr w2 19 ^^^ (w2 >>> 10)
  (ws.getD 15 0 + s0 + ws.getD 6 0 + s1) % 2 ^ 32

/-- So many words more, the newest first. -/
def schedule : Nat → List Nat → List Nat
  | 0, ws => ws
  | n + 1, ws => schedule n (nextWord ws :: ws)

/-- The eight words of the state. -/
structure State where
  a : Nat
  b : Nat
  c : Nat
  d : Nat
  e : Nat
  f : Nat
  g : Nat
  h : Nat

/-- A round, with its constant and its word. -/
def round (s : State) (k w : Nat) : State :=
  let s1 := rotr s.e 6 ^^^ rotr s.e 11 ^^^ rotr s.e 25
  let ch := (s.e &&& s.f) ^^^ ((s.e ^^^ 0xFFFFFFFF) &&& s.g)
  let t1 := s.h + s1 + ch + k + w
  let s0 := rotr s.a 2 ^^^ rotr s.a 13 ^^^ rotr s.a 22
  let maj := (s.a &&& s.b) ^^^ (s.a &&& s.c) ^^^ (s.b &&& s.c)
  ⟨(t1 + (s0 + maj)) % 2 ^ 32, s.a, s.b, s.c, (s.d + t1) % 2 ^ 32, s.e, s.f, s.g⟩

def start : State := ⟨0x6a09e667, 0xbb67ae85, 0x3c6ef372, 0xa54ff53a, 0x510e527f, 0x9b05688c, 0x1f83d9ab, 0x5be0cd19⟩

/-- The words of a block. -/
def words : Bytes → List Nat
  | a :: b :: c :: d :: rest => (((a.toNat * 256 + b.toNat) * 256 + c.toNat) * 256 + d.toNat) :: words rest
  | _ => []

/-- A block is worked into the state. -/
def compress (s : State) (block : Bytes) : State :=
  let ws := (schedule 48 (words block).reverse).reverse
  let t := (rounds.zip ws).foldl (fun s kw => round s kw.1 kw.2) s
  ⟨(s.a + t.a) % 2 ^ 32, (s.b + t.b) % 2 ^ 32, (s.c + t.c) % 2 ^ 32, (s.d + t.d) % 2 ^ 32, (s.e + t.e) % 2 ^ 32,
    (s.f + t.f) % 2 ^ 32, (s.g + t.g) % 2 ^ 32, (s.h + t.h) % 2 ^ 32⟩

/-- The message with its padding: a one, zeros, and the length in bits. -/
def pad (b : Bytes) : Bytes := b ++ 0x80 :: List.replicate ((119 - b.length % 64) % 64) 0 ++ be 8 (8 * b.length)

/-- So many blocks are worked into the state. -/
def blocks : Nat → State → Bytes → State
  | 0, s, _ => s
  | n + 1, s, b => blocks n (compress s (b.take 64)) (b.drop 64)

end Sha256

open Sha256 in
/-- The hash of a message. -/
def sha256 (b : Bytes) : Bytes :=
  let s := blocks ((pad b).length / 64) start (pad b)
  [s.a, s.b, s.c, s.d, s.e, s.f, s.g, s.h].flatMap (be 4)

/-- The hash of the letters abc. -/
example : sha256 [97, 98, 99] =
    [0xba, 0x78, 0x16, 0xbf, 0x8f, 0x01, 0xcf, 0xea, 0x41, 0x41, 0x40, 0xde, 0x5d, 0xae, 0x22, 0x23, 0xb0, 0x03, 0x61, 0xa3, 0x96,
     0x17, 0x7a, 0x9c, 0xb4, 0x10, 0xff, 0x61, 0xf2, 0x00, 0x15, 0xad] := by decide +kernel

end Lib
