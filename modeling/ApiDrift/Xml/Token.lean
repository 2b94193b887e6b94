import ApiDrift.Xml.Reader
/-! The pieces of markup and text that a document consists of, before references are
expanded and names are resolved. -/
namespace ApiDrift.Xml

/-- An attribute as written. The value is what stands between the quotes. -/
structure RawAttribute where
  name : QName
  value : Span
  location : Location
deriving DecidableEq, Repr

inductive TagEnd where
  | opened
  | empty
  | unfinished
  | broken (fault : Fault)
deriving DecidableEq, Repr

/-- A start tag, with the attributes up to where it ends or breaks. -/
structure Tag where
  name : QName
  attributes : List RawAttribute
  finish : TagEnd
  location : Location
deriving DecidableEq, Repr

inductive Token where
  | startTag (tag : Tag)
  | endTag (name : QName) (location : Location)
  | text (raw : Span)
  | cdata (text : List Char)
  | comment (text : List Char) (location : Location)
  | instruction
  | entity (name : String) (value : Span)
deriving DecidableEq, Repr

/-- Tokens in order, and the fault that ended the reading if one did. -/
structure Scan where
  tokens : List Token
  fault : Option Fault := none
deriving DecidableEq, Repr

end ApiDrift.Xml
