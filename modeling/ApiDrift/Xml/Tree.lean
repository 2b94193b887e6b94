import ApiDrift.Location
/-! Documents as trees: elements with resolved names, text, comments and processing
instructions. -/
namespace ApiDrift.Xml

/-- A namespace declared for a prefix, or as the default when there is no prefix. -/
structure Binding where
  space : Option String
  uri : String
deriving DecidableEq, Repr

structure Attribute where
  uri : Option String
  base : String
  value : String
deriving DecidableEq, Repr

/-- An element apart from its children. The scope holds the bindings in force, its own
before inherited ones. -/
structure Element where
  uri : Option String := none
  base : String
  attributes : List Attribute := []
  scope : List Binding := []
  location : Location := {}
deriving DecidableEq, Repr

inductive Node where
  | element (head : Element) (children : List Node)
  | text (s : String)
  | comment (s : String) (location : Location)
  | instruction

namespace Element

def attribute? (e : Element) (name : String) : Option String :=
  (e.attributes.find? fun a => a.uri.isNone && a.base == name).map Attribute.value

/-- The prefix first bound to a namespace; none if it is the default one. -/
def prefixFor? (e : Element) (uri : String) : Option String :=
  ((e.scope.find? fun b => b.uri == uri).map Binding.space).join

def display (e : Element) : String :=
  match (e.uri.map e.prefixFor?).join with
  | some p => if p = "" then e.base else p ++ ":" ++ e.base
  | none => e.base

def isPlain (e : Element) (name : String) : Bool := e.uri.isNone && e.base == name

end Element

namespace Node

mutual

def textParts : Node → List String
  | element _ children => textPartsAll children
  | text s => [s]
  | comment _ _ => []
  | instruction => []

def textPartsAll : List Node → List String
  | [] => []
  | n :: rest => n.textParts ++ textPartsAll rest

end

def isElement : Node → Bool
  | element _ _ => true
  | _ => false

end Node

end ApiDrift.Xml
