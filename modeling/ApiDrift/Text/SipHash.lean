/-! SipHash without a key, with one round for every eight bytes and three at the end. -/
namespace ApiDrift.Text.SipHash

structure State where
  v0 : UInt64 := 0x736f6d6570736575
  v1 : UInt64 := 0x646f72616e646f6d
  v2 : UInt64 := 0x6c7967656e657261
  v3 : UInt64 := 0x7465646279746573

def rotateLeft (x k : UInt64) : UInt64 := x <<< k ||| x >>> (64 - k)

def word (bytes : List UInt8) : UInt64 := bytes.foldr (fun b w => w <<< 8 ||| b.toUInt64) 0

def littleEndian (w : UInt64) : List UInt8 :=
  (List.range 8).map fun i => (w >>> (8 * i.toUInt64)).toUInt8

namespace State

def round (s : State) : State :=
  let v0 := s.v0 + s.v1
  let v1 := rotateLeft s.v1 13 ^^^ v0
  let v2 := s.v2 + s.v3
  let v3 := rotateLeft s.v3 16 ^^^ v2
  let v0 := rotateLeft v0 32 + v3
  let v2 := v2 + v1
  { v0, v1 := rotateLeft v1 17 ^^^ v2, v2 := rotateLeft v2 32, v3 := rotateLeft v3 21 ^^^ v0 }

def absorb (s : State) (w : UInt64) : State :=
  let t := round { s with v3 := s.v3 ^^^ w }
  { t with v0 := t.v0 ^^^ w }

/-- The last word is what is left of the bytes, with their number on top. -/
def feed (number : Nat) (s : State) : List UInt8 → State
  | a :: b :: c :: d :: e :: f :: g :: h :: rest =>
    (s.absorb (word [a, b, c, d, e, f, g, h])).feed number rest
  | rest => s.absorb (word rest ||| number.toUInt64 <<< 56)

def finish (s : State) : UInt64 :=
  let t := round (round (round { s with v2 := s.v2 ^^^ 0xff }))
  t.v0 ^^^ t.v1 ^^^ t.v2 ^^^ t.v3

end State

def hash (bytes : List UInt8) : UInt64 := (State.feed bytes.length {} bytes).finish

end ApiDrift.Text.SipHash
