import ApiDrift.Location
import ApiDrift.Text.Utf8
/-! What is wrong with a text that is not a well-formed document. -/
namespace ApiDrift.Xml

/-- What is wrong at one place. An unexpected character is named by its first UTF-8 byte. -/
inductive Cause where
  | expectedChar (expected : Char) (found : Char)
  | expectedClass (expected : String) (found : Char)
  | expectedText (expected : String)
  | invalidName
  | nonXmlChar (c : Char)
  | unknownToken
  | unexpectedDeclaration
  | doubleHyphen
  | invalidExternalId
  | cdataEndInText
  | malformedReference
  | unknownEntity (name : String)
  | entityLoop
  | bareLessThan
  | reservedElementPrefix
  | reservedUri
  | wrongXmlUri
  | xmlUriElsewhere
  | duplicateNamespace (name : String)
  | unknownNamespace (name : String)
  | duplicateAttribute (name : String)
  | wrongEndTag (expected found : String)
  | strayEndTag
deriving DecidableEq, Repr

inductive Fault where
  | unexpectedEnd
  | noRoot
  | unclosedRoot
  | at (location : Location) (cause : Cause)
deriving DecidableEq, Repr

def firstByte (c : Char) : Char := Char.ofNat (Text.Utf8.leadByte c)

def showChar (c : Char) : String :=
  if c.toNat = 0 then "'\\0'"
  else "'\\u\x7b" ++ String.ofList (Nat.toDigits 16 c.toNat) ++ "\x7d'"

def Cause.message (p : String) : Cause → String
  | expectedChar e f => s!"expected '{e}' not '{firstByte f}' at {p}"
  | expectedClass e f => s!"expected {e} not '{firstByte f}' at {p}"
  | expectedText e => s!"expected '{e}' at {p}"
  | invalidName => s!"invalid name token at {p}"
  | nonXmlChar c => s!"a non-XML character {showChar c} found at {p}"
  | unknownToken => s!"unknown token at {p}"
  | unexpectedDeclaration => s!"unexpected XML declaration at {p}"
  | doubleHyphen => s!"comment at {p} contains '--'"
  | invalidExternalId => s!"invalid ExternalID at {p}"
  | cdataEndInText => s!"']]>' at {p} is not allowed inside a character data"
  | malformedReference => s!"malformed entity reference at {p}"
  | unknownEntity n => s!"unknown entity reference '{n}' at {p}"
  | entityLoop => s!"a possible entity reference loop is detected at {p}"
  | bareLessThan => s!"unescaped '<' found at {p}"
  | reservedElementPrefix => s!"the 'xmlns' prefix is used at {p}, but it must not be"
  | reservedUri => s!"the 'xmlns' URI is used at {p}, but it must not be declared"
  | wrongXmlUri => s!"'xml' namespace prefix mapped to wrong URI at {p}"
  | xmlUriElsewhere => s!"the 'xml' namespace URI is used for not 'xml' prefix at {p}"
  | duplicateNamespace n => s!"namespace '{n}' at {p} is already defined"
  | unknownNamespace n => s!"an unknown namespace prefix '{n}' at {p}"
  | duplicateAttribute n => s!"attribute '{n}' at {p} is already defined"
  | wrongEndTag e f => s!"expected '{e}' tag, not '{f}' at {p}"
  | strayEndTag => s!"unexpected close tag at {p}"

namespace Fault

def message : Fault → String
  | unexpectedEnd => "unexpected end of stream"
  | noRoot => "the document does not have a root node"
  | unclosedRoot => "the root node was opened but never closed"
  | .at l cause => cause.message l.render

/-- The place of the fault; one that concerns the whole text stands at its start. -/
def location : Fault → Location
  | .at l _ => l
  | _ => .start

end Fault

end ApiDrift.Xml
