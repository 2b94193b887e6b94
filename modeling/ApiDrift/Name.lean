import ApiDrift.Text.Split
/-! Names on the bus: interfaces, members and object paths. -/
namespace ApiDrift.Name

/-- Longest interface or member name, in UTF-8 bytes. -/
def maxLength : Nat := 255

def isLetter (c : Char) : Bool := c.isAlpha || c == '_'

def isLetterOrDigit (c : Char) : Bool := c.isAlphanum || c == '_'

def isElement : List Char → Bool
  | [] => false
  | c :: r => isLetter c && r.all isLetterOrDigit

def isPathElement (l : List Char) : Bool := !l.isEmpty && l.all isLetterOrDigit

def isInterface (s : String) : Bool :=
  let parts := Text.splitChars '.' s.toList
  s.utf8ByteSize ≤ maxLength && 2 ≤ parts.length && parts.all isElement

def isMember (s : String) : Bool := s.utf8ByteSize ≤ maxLength && isElement s.toList

def isRelativePath (s : String) : Bool := (Text.splitChars '/' s.toList).all isPathElement

def isAbsolutePath (s : String) : Bool :=
  match s.toList with
  | ['/'] => true
  | '/' :: rest => (Text.splitChars '/' rest).all isPathElement
  | _ => false

end ApiDrift.Name
