/-! Types of values on the bus, and signatures: sequences of complete types, written
with one character for each basic type. `spell` writes a type, `describe` says it in words. -/
namespace ApiDrift

inductive BasicType where
  | byte | boolean | int16 | uint16 | int32 | uint32 | int64 | uint64
  | double | string | objectPath | signature | variant | unixFd
deriving DecidableEq, Repr

namespace BasicType

def code : BasicType → Char
  | byte => 'y' | boolean => 'b' | int16 => 'n' | uint16 => 'q' | int32 => 'i' | uint32 => 'u'
  | int64 => 'x' | uint64 => 't' | double => 'd' | string => 's' | objectPath => 'o'
  | signature => 'g' | variant => 'v' | unixFd => 'h'

def ofCode? : Char → Option BasicType
  | 'y' => some byte | 'b' => some boolean | 'n' => some int16 | 'q' => some uint16
  | 'i' => some int32 | 'u' => some uint32 | 'x' => some int64 | 't' => some uint64
  | 'd' => some double | 's' => some string | 'o' => some objectPath | 'g' => some signature
  | 'v' => some variant | 'h' => some unixFd
  | _ => none

def describe : BasicType → String
  | byte => "Byte" | boolean => "Boolean" | int16 => "Int16" | uint16 => "UInt16"
  | int32 => "Int32" | uint32 => "UInt32" | int64 => "Int64" | uint64 => "UInt64"
  | double => "Double" | string => "String" | objectPath => "Object Path"
  | signature => "Signature" | variant => "Variant" | unixFd => "Unix FD"

@[simp] theorem ofCode?_code (b : BasicType) : ofCode? b.code = some b := by cases b <;> rfl

theorem code_of_ofCode? {c : Char} {b : BasicType} (h : ofCode? c = some b) : b.code = c := by
  unfold ofCode? at h
  split at h <;> simp_all <;> subst h <;> rfl

end BasicType

/-- A single complete type. A dictionary is an array of entries; an entry may stand alone. -/
inductive ValueType where
  | basic (b : BasicType)
  | array (element : ValueType)
  | struct (members : List ValueType)
  | dictEntry (key value : ValueType)

namespace ValueType

def code : ValueType → Char
  | basic b => b.code
  | array _ => 'a'
  | struct _ => '('
  | dictEntry _ _ => '\x7b'

mutual

def spell : ValueType → List Char
  | basic b => [b.code]
  | array t => 'a' :: t.spell
  | struct ts => '(' :: (spellAll ts ++ [')'])
  | dictEntry k v => '\x7b' :: (k.spell ++ v.spell ++ ['\x7d'])

def spellAll : List ValueType → List Char
  | [] => []
  | t :: ts => t.spell ++ spellAll ts

end

mutual

def describe : ValueType → String
  | basic b => b.describe
  | array (dictEntry k v) => "Dict of \x7b" ++ k.describe ++ ": " ++ v.describe ++ "\x7d"
  | array t => "Array of [" ++ t.describe ++ "]"
  | struct ts => "Struct of (" ++ describeAll ts ++ ")"
  | dictEntry k v => "Dict Entry of \x7b" ++ k.describe ++ ": " ++ v.describe ++ "\x7d"

def describeAll : List ValueType → String
  | [] => ""
  | [t] => t.describe
  | t :: u :: ts => t.describe ++ ", " ++ describeAll (u :: ts)

end

mutual

/-- Number of containers around the innermost part, the type's own included. -/
def nesting : ValueType → Nat
  | basic _ => 0
  | array t => t.nesting + 1
  | struct ts => nestingAll ts + 1
  | dictEntry k v => max k.nesting v.nesting + 1

def nestingAll : List ValueType → Nat
  | [] => 0
  | t :: ts => max t.nesting (nestingAll ts)

end

end ValueType

structure Signature where
  types : List ValueType

namespace Signature

def text (s : Signature) : String := String.ofList (ValueType.spellAll s.types)

def describe (s : Signature) : String := ValueType.describeAll s.types

def isEmpty (s : Signature) : Bool := s.types.isEmpty

end Signature

end ApiDrift
