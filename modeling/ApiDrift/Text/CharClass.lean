/-! Classes of characters by name, as bracket expressions know them. Only ASCII is classified. -/
namespace ApiDrift.Text

/-- The octets of a text, each as the character with its code. -/
def octets (s : String) : List Char := s.toUTF8.toList.map fun b => Char.ofNat b.toNat

abbrev CharClass := Char → Bool

namespace CharClass

def between (first last : Nat) : CharClass := fun c => first ≤ c.toNat && c.toNat ≤ last

def blank : CharClass := fun c => c == ' ' || c == '\t'

def control : CharClass := fun c => between 0x0 0x1F c || c == '\x7f'

def graphic : CharClass := between 0x21 0x7E

def printed : CharClass := between 0x20 0x7E

def punctuation : CharClass := fun c => graphic c && !c.isAlphanum

def space : CharClass := fun c => c == ' ' || between 0x9 0xD c

def hexDigit : CharClass := fun c => c.isDigit || between 0x41 0x46 c || between 0x61 0x66 c

def word : CharClass := fun c => c.isAlphanum || c == '_'

def named : List (String × CharClass) :=
  [("alnum", Char.isAlphanum), ("alpha", Char.isAlpha), ("blank", blank), ("cntrl", control),
   ("digit", Char.isDigit), ("graph", graphic), ("lower", Char.isLower), ("print", printed),
   ("punct", punctuation), ("space", space), ("upper", Char.isUpper), ("xdigit", hexDigit)]

def ofName? (name : String) : Option CharClass := named.lookup name

end CharClass

end ApiDrift.Text
