/-! JSON values that remember the order of their fields, and the two ways of writing
them: compact, or indented by two spaces. -/
namespace ApiDrift

inductive Json where
  | null
  | bool (b : Bool)
  | num (n : Int)
  | str (s : String)
  | arr (items : List Json)
  | obj (fields : List (String × Json))
deriving Inhabited

namespace Json

def optional (name : String) (value : Option Json) : List (String × Json) :=
  (value.map fun v => [(name, v)]).getD []

def nonempty (name : String) : List Json → List (String × Json)
  | [] => []
  | items => [(name, .arr items)]

def hexDigit (n : Nat) : Char :=
  if n < 10 then Char.ofNat (48 + n) else Char.ofNat (87 + n)

/-- One character of a string. Only quotes, backslashes and controls below U+0020 are escaped. -/
def escapeChar (c : Char) : List Char :=
  match c with
  | '"' => ['\\', '"']
  | '\\' => ['\\', '\\']
  | '\n' => ['\\', 'n']
  | '\r' => ['\\', 'r']
  | '\t' => ['\\', 't']
  | '\x08' => ['\\', 'b']
  | '\x0c' => ['\\', 'f']
  | c =>
    if c.toNat < 0x20 then ['\\', 'u', '0', '0', hexDigit (c.toNat / 16), hexDigit (c.toNat % 16)]
    else [c]

def quote (s : String) : String :=
  String.ofList ('"' :: (s.toList.flatMap escapeChar ++ ['"']))

mutual

def compactOnto (out : String) : Json → String
  | null => out ++ "null"
  | bool true => out ++ "true"
  | bool false => out ++ "false"
  | num n => out ++ toString n
  | str s => out ++ quote s
  | arr [] => out ++ "[]"
  | arr (v :: rest) => compactItems (v.compactOnto (out ++ "[")) rest ++ "]"
  | obj [] => out ++ "\x7b\x7d"
  | obj ((name, v) :: rest) =>
    compactFields (v.compactOnto (out ++ "\x7b" ++ quote name ++ ":")) rest ++ "\x7d"

def compactItems (out : String) : List Json → String
  | [] => out
  | v :: rest => compactItems (v.compactOnto (out ++ ",")) rest

def compactFields (out : String) : List (String × Json) → String
  | [] => out
  | (name, v) :: rest => compactFields (v.compactOnto (out ++ "," ++ quote name ++ ":")) rest

end

def compact (v : Json) : String := v.compactOnto ""

def lineAt (depth : Nat) : String := String.ofList ('\n' :: List.replicate (2 * depth) ' ')

mutual

/-- Writes the value after `out`, one item or field a line; the last line stands at `depth`. -/
def prettyOnto (depth : Nat) (out : String) : Json → String
  | null => out ++ "null"
  | bool true => out ++ "true"
  | bool false => out ++ "false"
  | num n => out ++ toString n
  | str s => out ++ quote s
  | arr [] => out ++ "[]"
  | arr (v :: rest) =>
    prettyItems (depth + 1) (v.prettyOnto (depth + 1) (out ++ "[" ++ lineAt (depth + 1))) rest
      ++ lineAt depth ++ "]"
  | obj [] => out ++ "\x7b\x7d"
  | obj ((name, v) :: rest) =>
    prettyFields (depth + 1)
      (v.prettyOnto (depth + 1) (out ++ "\x7b" ++ lineAt (depth + 1) ++ quote name ++ ": ")) rest
      ++ lineAt depth ++ "\x7d"

def prettyItems (depth : Nat) (out : String) : List Json → String
  | [] => out
  | v :: rest => prettyItems depth (v.prettyOnto depth (out ++ "," ++ lineAt depth)) rest

def prettyFields (depth : Nat) (out : String) : List (String × Json) → String
  | [] => out
  | (name, v) :: rest =>
    prettyFields depth (v.prettyOnto depth (out ++ "," ++ lineAt depth ++ quote name ++ ": ")) rest

end

def pretty (v : Json) : String := v.prettyOnto 0 ""

end Json

end ApiDrift
