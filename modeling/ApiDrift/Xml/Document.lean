import ApiDrift.Xml.Prolog
import ApiDrift.Xml.Reference
import ApiDrift.Xml.Tree
/-! Documents put together from tokens: references in text are expanded, names get their
namespaces, end tags have to match. -/
namespace ApiDrift.Xml

/-- An element that has not been closed. The children are those so far, the last first. -/
structure OpenElement where
  name : QName
  head : Element
  children : List Node := []

/-- An attribute whose value is expanded and whose prefix is not resolved yet. -/
structure PendingAttribute where
  name : QName
  value : String
  location : Location

structure Assembly where
  entities : Entities := []
  opened : List OpenElement := []
  top : List Node := []
  bindings : List Binding := []
  attributes : List PendingAttribute := []
  /-- Whether a start tag has come, in the entity being expanded or else in the document. -/
  started : Bool := false
  /-- References met in the expansion of the outermost one. -/
  references : Nat := 0

namespace Assembly

def addChild (a : Assembly) (child : Node) : Assembly :=
  match a.opened with
  | [] => { a with top := child :: a.top }
  | e :: rest => { a with opened := { e with children := child :: e.children } :: rest }

/-- Adds text to a list of children, the last first. Adjacent texts become one. -/
def addTextTo (text : String) : List Node → List Node
  | .text s :: rest => .text (s ++ text) :: rest
  | children => .text text :: children

def addText (a : Assembly) (text : String) : Assembly :=
  match a.opened with
  | [] => { a with top := addTextTo text a.top }
  | e :: rest => { a with opened := { e with children := addTextTo text e.children } :: rest }

/-- The bindings in force for the tag being read: its own, then those around it that no own one
hides. -/
def scope (a : Assembly) : List Binding :=
  let own := a.bindings.reverse
  match a.opened with
  | [] => own
  | e :: _ => own ++ e.head.scope.filter fun b => !own.any fun o => o.space == b.space

def xmlUri : String := "http://www.w3.org/XML/1998/namespace"

def xmlnsUri : String := "http://www.w3.org/2000/xmlns/"

def spaceOf (q : QName) : Option String := if q.space = "" then none else some q.space

def elementUri (scope : List Binding) (q : QName) (place : Location) :
    Except Fault (Option String) :=
  match scope.find? fun b => b.space == spaceOf q with
  | some b => .ok (some b.uri)
  | none => if q.space = "" then .ok none else .error (.at place (.unknownNamespace q.space))

/-- The namespace of an attribute's name. There is no default one. -/
def attributeUri (scope : List Binding) (q : QName) (place : Location) :
    Except Fault (Option String) :=
  if q.space = "xml" then .ok (some xmlUri)
  else if q.space = "" then .ok none
  else elementUri scope q place

/-- Attributes with their names resolved. No two may have one namespace and one local name. -/
def resolveAttributes (scope : List Binding) (resolved : List Attribute) :
    List PendingAttribute → Except Fault (List Attribute)
  | [] => .ok resolved.reverse
  | p :: rest =>
    match attributeUri scope p.name p.location with
    | .error e => .error e
    | .ok uri =>
      if resolved.any fun r => r.uri == uri && r.base == p.name.base then
        .error (.at p.location (.duplicateAttribute p.name.base))
      else resolveAttributes scope (⟨uri, p.name.base, p.value⟩ :: resolved) rest

def addAttribute (a : Assembly) (name : QName) (value : String) (place : Location) :
    Except Fault Assembly :=
  let bind (space : Option String) := { a with bindings := ⟨space, value⟩ :: a.bindings }
  if name.space = "xmlns" then
    if value = xmlnsUri then .error (.at place .reservedUri)
    else if name.base = "xml" && value != xmlUri then .error (.at place .wrongXmlUri)
    else if name.base != "xml" && value = xmlUri then .error (.at place .xmlUriElsewhere)
    else if a.bindings.any fun b => b.space == some name.base then
      .error (.at place (.duplicateNamespace name.base))
    else if value = xmlUri then .ok a
    else .ok (bind (some name.base))
  else if name.base = "xmlns" then
    if value = xmlUri then .error (.at place .xmlUriElsewhere)
    else if value = xmlnsUri then .error (.at place .reservedUri)
    else .ok (bind none)
  else .ok { a with attributes := ⟨name, value, place⟩ :: a.attributes }

def addAttributes (room : Nat) (a : Assembly) : List RawAttribute → Except Fault Assembly
  | [] => .ok a
  | r :: rest =>
    match valueWithin a.entities room a.references r.value with
    | .error e => .error e
    | .ok (value, references) =>
      match addAttribute { a with references } r.name (String.ofList value.reverse) r.location with
      | .error e => .error e
      | .ok a => addAttributes room a rest

def settle (a : Assembly) : Except Fault (List Attribute × Assembly) :=
  match resolveAttributes a.scope [] a.attributes.reverse with
  | .error e => .error e
  | .ok attributes => .ok (attributes, { a with bindings := [], attributes := [] })

def addStartTag (room : Nat) (a : Assembly) (tag : Tag) : Except Fault Assembly := do
  let place := tag.location.next '<'
  if tag.name.space = "xmlns" then throw (.at place .reservedElementPrefix)
  let a ← addAttributes room { a with started := true } tag.attributes
  match tag.finish with
  | .unfinished => pure a
  | .broken e => throw e
  | finish =>
    let scope := a.scope
    let (attributes, a) ← a.settle
    let uri ← elementUri scope tag.name place
    let head : Element := ⟨uri, tag.name.base, attributes, scope, tag.location⟩
    if finish = .opened then pure { a with opened := ⟨tag.name, head, []⟩ :: a.opened }
    else pure (a.addChild (.element head []))

def addEndTag (a : Assembly) (name : QName) (place : Location) : Except Fault Assembly := do
  unless a.started do throw (.at place .strayEndTag)
  let (_, a) ← a.settle
  match a.opened with
  | [] => throw (.at place .strayEndTag)
  | e :: rest =>
    unless e.name = name do throw (.at place (.wrongEndTag e.name.render name.render))
    pure (addChild { a with opened := rest } (.element e.head e.children.reverse))

/-- Adds one character to text whose line ends become line feeds. A carriage return is settled by
what follows it: the next character, or the end of the text. -/
def pushText (text : List Char) (c : Char) (last : Bool) : List Char :=
  let c' := if last && c == '\r' then '\n' else c
  match text with
  | '\r' :: rest => if c == '\n' then '\n' :: rest else c' :: '\n' :: rest
  | _ => c' :: text

def pushAll (text : List Char) : List Char → List Char
  | [] => text
  | c :: rest => pushAll (pushText text c rest.isEmpty) rest

def flush (a : Assembly) (text : List Char) : Assembly :=
  if text.isEmpty then a else a.addText (String.ofList text.reverse)

abbrev Intake := Location → Assembly → Span → Except Fault Assembly

/-- Text with its references expanded. `text` holds the characters not taken in yet, the last
first; after a character reference outside of entities the next character is kept `asIs`. -/
def addExpanded (room : Nat) (intake : Intake) (a : Assembly) (text : List Char) (asIs : Bool)
    (s : Span) : Except Fault Assembly :=
  match h : s.chars with
  | [] => .ok (a.flush text)
  | c :: tail =>
    if c = '&' then
      match readReference s.location tail with
      | .error e => .error e
      | .ok (.char d, rest) =>
        have : rest.1.chars.length < s.chars.length := by
          rw [h]
          exact Nat.lt_succ_of_le rest.2
        if room = maxEntityDepth then addExpanded room intake a (d :: text) true rest.1
        else addExpanded room intake a (pushText text d rest.1.chars.isEmpty) asIs rest.1
      | .ok (.entity name, rest) =>
        have : rest.1.chars.length < s.chars.length := by
          rw [h]
          exact Nat.lt_succ_of_le rest.2
        match a.entities.value? name with
        | none => .error (.at s.location (.unknownEntity name))
        | some value =>
          let a := a.flush text
          match countReference room a.references rest.1.location with
          | .error e => .error e
          | .ok references =>
            match intake rest.1.location { a with references, started := false } value with
            | .error e => .error e
            | .ok b =>
              let references := if room = maxEntityDepth then 0 else b.references
              addExpanded room intake { b with references, started := a.started } [] false rest.1
    else
      have : tail.length < s.chars.length := by simp [h]
      let rest : Span := ⟨tail, s.location.next c⟩
      if asIs then addExpanded room intake a (c :: text) false rest
      else addExpanded room intake a (pushText text c tail.isEmpty) false rest
termination_by s.chars.length

def addToken (room : Nat) (intake : Intake) (a : Assembly) : Token → Except Fault Assembly
  | .startTag tag => addStartTag room a tag
  | .endTag name place => addEndTag a name place
  | .text raw => addExpanded room intake a [] false raw
  | .cdata text => .ok (a.addText (String.ofList (pushAll [] text).reverse))
  | .comment text place => .ok (a.addChild (.comment (String.ofList text) place))
  | .instruction => .ok (a.addChild .instruction)
  | .entity name value => .ok { a with entities := a.entities ++ [(name, value)] }

def addTokens (room : Nat) (intake : Intake) (a : Assembly) : List Token → Except Fault Assembly
  | [] => .ok a
  | t :: rest =>
    match addToken room intake a t with
    | .error e => .error e
    | .ok a => addTokens room intake a rest

def addScan (room : Nat) (intake : Intake) (a : Assembly) (scan : Scan) : Except Fault Assembly :=
  match addTokens room intake a scan.tokens with
  | .error e => .error e
  | .ok a =>
    match scan.fault with
    | some e => .error e
    | none => .ok a

def addWithin : Nat → Assembly → Scan → Except Fault Assembly
  | 0, a, scan => addScan 0 (fun place _ _ => .error (.at place .entityLoop)) a scan
  | room + 1, a, scan =>
    addScan (room + 1) (fun _ b value => addWithin room b (Scan.ofContent value)) a scan

end Assembly

structure Document where
  children : List Node

namespace Document

def parse (text : List Char) : Except Fault Document :=
  match Assembly.addWithin maxEntityDepth {} (Scan.ofDocument text) with
  | .error e => .error e
  | .ok a =>
    if !a.opened.isEmpty then .error .unclosedRoot
    else if !a.top.any Node.isElement then .error .noRoot
    else .ok ⟨a.top.reverse⟩

end Document

end ApiDrift.Xml
