import ApiDrift.Introspection.Problem
import ApiDrift.Text.Blank
import ApiDrift.Xml.Document
/-! The children of an element sorted into those that are part of the description, those that
document it, and those that do not belong there; and comments as documentation. -/
namespace ApiDrift.Introspection

def specUri : String := "http://telepathy.freedesktop.org/wiki/DbusSpec#extensions-v0"

def docUri : String := "http://www.freedesktop.org/dbus/1.0/doc.dtd"

def isDocElement (e : Xml.Element) : Bool :=
  (e.uri == some specUri && e.base == "docstring") || (e.uri == some docUri && e.base == "doc")

/-- Text of white space only, which does not come between a comment and its element. -/
def isBlankText : Xml.Node → Bool
  | .text s => Text.allBlank s
  | _ => false

def fullText (children : List Xml.Node) : String := String.join (Xml.Node.textPartsAll children)

def commentDoc (text : String) (location : Location) : Documentation := ⟨text, .comment, location⟩

def pendingAfter (pending : Option Documentation) : Xml.Node → Option Documentation
  | .comment text location => some (commentDoc text location)
  | n => if isBlankText n then pending else none

/-- The comment directly before an element whose earlier siblings are given, the nearest first:
only blank text may lie between. -/
def precedingComment : List Xml.Node → Option Documentation
  | [] => none
  | .comment text location :: _ => some (commentDoc text location)
  | n :: rest => if isBlankText n then precedingComment rest else none

structure Child where
  head : Xml.Element
  children : List Xml.Node
  comment : Option Documentation

def isAccepted (names : List String) (e : Xml.Element) : Bool :=
  !isDocElement e && e.uri.isNone && names.contains e.base

def acceptedChildren (names : List String) (pending : Option Documentation) :
    List Xml.Node → List Child
  | [] => []
  | n :: rest =>
    let later := acceptedChildren names (pendingAfter pending n) rest
    match n with
    | .element head children =>
      if isAccepted names head then ⟨head, children, pending⟩ :: later else later
    | _ => later

def childDoc? : Xml.Node → Option Documentation
  | .element head children =>
    if isDocElement head && !Text.allBlank (fullText children) then
      some ⟨fullText children, .element, head.location⟩
    else none
  | _ => none

/-- The documentation held by the last child that holds any. -/
def docChild? (children : List Xml.Node) : Option Documentation :=
  (children.filterMap childDoc?).getLast?

/-- What there is to say about a child of an element in `place`. Elements of other vocabularies
are passed over. -/
def childProblem? (names : List String) (place : Place) : Xml.Node → Option Finding
  | .element head children =>
    if isDocElement head then
      if Text.allBlank (fullText children) then some ⟨.emptyDocElement place, head.location⟩
      else none
    else if head.uri.isSome || names.contains head.base then none
    else some ⟨.unknownElement head.base place, head.location⟩
  | _ => none

def reportChildren (names : List String) (place : Place) (children : List Xml.Node) : Logged Unit :=
  ⟨(), children.filterMap (childProblem? names place)⟩

end ApiDrift.Introspection
