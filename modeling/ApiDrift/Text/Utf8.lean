import ApiDrift.Location
/-! UTF-8. Where bytes are none, a fault names the first byte that cannot be read and how many bytes
from there could still have begun a character. -/
namespace ApiDrift.Text.Utf8

def encode (text : List Char) : List UInt8 := text.flatMap String.utf8EncodeChar

/-- Why bytes are not UTF-8. The index counts the bytes before the bad sequence. -/
inductive Fault where
  | invalid (index length : Nat)
  | incomplete (index : Nat)
deriving DecidableEq, Repr

def Fault.index : Fault → Nat
  | .invalid i _ => i
  | .incomplete i => i

def Fault.message : Fault → String
  | .invalid i n => s!"invalid utf-8 sequence of {n} bytes from index {i}"
  | .incomplete i => s!"incomplete utf-8 byte sequence from index {i}"

/-- Number of bytes that a leading byte announces, with the range of the second byte.
The range excludes overlong forms, surrogates and values above U+10FFFF. -/
def lead? (a : UInt8) : Option (Nat × UInt8 × UInt8) :=
  if 0xC2 ≤ a && a ≤ 0xDF then some (2, 0x80, 0xBF)
  else if a == 0xE0 then some (3, 0xA0, 0xBF)
  else if a == 0xED then some (3, 0x80, 0x9F)
  else if 0xE1 ≤ a && a ≤ 0xEF then some (3, 0x80, 0xBF)
  else if a == 0xF0 then some (4, 0x90, 0xBF)
  else if 0xF1 ≤ a && a ≤ 0xF3 then some (4, 0x80, 0xBF)
  else if a == 0xF4 then some (4, 0x80, 0x8F)
  else none

def isTail (b : UInt8) : Bool := 0x80 ≤ b && b ≤ 0xBF

def assemble (lead : Nat) (tail : List UInt8) : Char :=
  Char.ofNat (tail.foldl (fun n b => n * 64 + b.toNat % 64) lead)

/-- Reads on from `index`, with the characters read so far in reverse. -/
def decodeFrom (index : Nat) (read : List Char) : List UInt8 → Except Fault (List Char)
  | [] => .ok read.reverse
  | a :: rest =>
    if a < 0x80 then decodeFrom (index + 1) (Char.ofNat a.toNat :: read) rest
    else match lead? a with
      | none => .error (.invalid index 1)
      | some (width, low, high) =>
        match rest with
        | [] => .error (.incomplete index)
        | b :: rest =>
          if b < low || high < b then .error (.invalid index 1)
          else if width = 2 then
            decodeFrom (index + 2) (assemble (a.toNat % 32) [b] :: read) rest
          else match rest with
            | [] => .error (.incomplete index)
            | c :: rest =>
              if !isTail c then .error (.invalid index 2)
              else if width = 3 then
                decodeFrom (index + 3) (assemble (a.toNat % 16) [b, c] :: read) rest
              else match rest with
                | [] => .error (.incomplete index)
                | d :: rest =>
                  if !isTail d then .error (.invalid index 3)
                  else decodeFrom (index + 4) (assemble (a.toNat % 8) [b, c, d] :: read) rest

def decode (bytes : List UInt8) : Except Fault (List Char) := decodeFrom 0 [] bytes

def leadByte (c : Char) : Nat :=
  let n := c.toNat
  if n < 0x80 then n
  else if n < 0x800 then 0xC0 + n / 0x40
  else if n < 0x10000 then 0xE0 + n / 0x1000
  else 0xF0 + n / 0x40000

end ApiDrift.Text.Utf8
