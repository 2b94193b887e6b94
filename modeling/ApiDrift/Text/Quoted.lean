import ApiDrift.Text.Unseen
/-! Text between double quotes, so that everything in it can be seen. -/
namespace ApiDrift.Text.Quoted

def byCode (c : Char) : List Char :=
  ['\\', 'u', '\x7b'] ++ Nat.toDigits 16 c.toNat ++ ['\x7d']

def encodeChar : Char → List Char
  | '"' => ['\\', '"']
  | '\\' => ['\\', '\\']
  | '\n' => ['\\', 'n']
  | '\r' => ['\\', 'r']
  | '\t' => ['\\', 't']
  | '\x00' => ['\\', '0']
  | c => if isUnseen c then byCode c else [c]

def encode (s : String) : String := String.ofList ('"' :: (s.toList.flatMap encodeChar ++ ['"']))

end ApiDrift.Text.Quoted
