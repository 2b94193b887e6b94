import ApiDrift.Api.Basic
import ApiDrift.Text.Affix
/-! The kinds of change between two versions of an API: what each does, whom it can break,
and the text that stands for it in lists of warnings. -/
namespace ApiDrift

inductive ChangeKind where
  | added | removed | modified
deriving DecidableEq, Repr

def ChangeKind.text : ChangeKind → String
  | added => "added"
  | removed => "removed"
  | modified => "modified"

inductive Category where
  | info
  /-- Code for the new version may not work with the old one. -/
  | forwards
  /-- Code for the old version may not work with the new one. -/
  | backwards
deriving DecidableEq, Repr

namespace Category

def all : List Category := [info, forwards, backwards]

def text : Category → String
  | info => "info"
  | forwards => "forwards-compatibility"
  | backwards => "backwards-compatibility"

def ofText? (s : String) : Option Category := all.find? fun c => c.text == s

end Category

inductive ElementKind where
  | node | interface | method | signal | property | argument
deriving DecidableEq, Repr

namespace ElementKind

def all : List ElementKind := [node, interface, method, signal, property, argument]

def noun : ElementKind → String
  | node => "node"
  | interface => "interface"
  | method => "method"
  | signal => "signal"
  | property => "property"
  | argument => "argument"

def title : ElementKind → String
  | node => "Node"
  | interface => "Interface"
  | method => "Method"
  | signal => "Signal"
  | property => "Property"
  | argument => "Argument"

def ofCallable : CallableKind → ElementKind
  | .method => method
  | .signal => signal

end ElementKind

inductive ChangeCode where
  | added (kind : ElementKind)
  | removed (kind : ElementKind)
  | argumentName
  | argumentType
  | argumentDirection (old new : Direction)
  | propertyType
  | propertyAccess (old new : Access)
  | deprecated
  | undeprecated
  | cSymbol
  | replyAdded
  | replyRemoved
  /-- Another way of announcing changed values. Any two texts can occur. -/
  | emitsChanged (old new : String)
  | annotationAdded
  | annotationRemoved
  | annotationChanged
  | documentation
deriving DecidableEq, Repr

namespace ChangeCode

def directionHeading : String := "argument-direction-changed-"

def accessHeading : String := "property-access-changed-"

def emitsHeading : String := "ecs-changed-"

def text : ChangeCode → String
  | added k => k.noun ++ "-added"
  | removed k => k.noun ++ "-removed"
  | argumentName => "argument-name-changed"
  | argumentType => "argument-type-changed"
  | argumentDirection o n => directionHeading ++ o.text ++ "-" ++ n.text
  | propertyType => "property-type-changed"
  | propertyAccess o n => accessHeading ++ o.text ++ "-" ++ n.text
  | deprecated => "deprecated"
  | undeprecated => "undeprecated"
  | cSymbol => "c-symbol-changed"
  | replyAdded => "reply-added"
  | replyRemoved => "reply-removed"
  | emitsChanged o n => emitsHeading ++ o ++ "-" ++ n
  | annotationAdded => "annotation-added"
  | annotationRemoved => "annotation-removed"
  | annotationChanged => "annotation-changed"
  | documentation => "documentation-changed"

def simple : List ChangeCode :=
  (ElementKind.all.flatMap fun k => [added k, removed k])
    ++ [argumentName, argumentType, propertyType, deprecated, undeprecated, cSymbol, replyAdded,
      replyRemoved, annotationAdded, annotationRemoved, annotationChanged, documentation]

def pairs {α : Type} [DecidableEq α] (l : List α) : List (α × α) :=
  l.flatMap fun a => (l.filter fun b => b ≠ a).map fun b => (a, b)

/-- The ways of announcing changed values that codes can be spelled with. -/
def emitsValues : List String := ["true", "invalidates", "const", "false"]

/-- Every code that has a spelling of its own. -/
def all : List ChangeCode :=
  simple
    ++ (pairs [Direction.input, Direction.output]).map (fun p => argumentDirection p.1 p.2)
    ++ (pairs [Access.read, Access.write, Access.readWrite]).map (fun p => propertyAccess p.1 p.2)
    ++ (pairs emitsValues).map (fun p => emitsChanged p.1 p.2)

def splitHyphen? (l : List Char) : Option (String × String) :=
  match l.dropWhile (· != '-') with
  | [] => none
  | _ :: new => some (String.ofList (l.takeWhile (· != '-')), String.ofList new)

/-- Codes with parameters name a transition, so the two values differ. -/
def transition? {α : Type} [DecidableEq α] (read : String → Option α) (make : α → α → ChangeCode)
    (l : List Char) : Option ChangeCode := do
  let (old, new) ← splitHyphen? l
  let o ← read old
  let n ← read new
  if o = n then none else some (make o n)

def ofText? (s : String) : Option ChangeCode :=
  match simple.find? fun c => c.text == s with
  | some c => some c
  | none =>
    let l := s.toList
    match Text.afterChars? directionHeading.toList l, Text.afterChars? accessHeading.toList l,
        Text.afterChars? emitsHeading.toList l with
    | some rest, _, _ => transition? Direction.ofText? argumentDirection rest
    | _, some rest, _ => transition? Access.ofText? propertyAccess rest
    | _, _, some rest =>
      transition? (fun v => if v ∈ emitsValues then some v else none) emitsChanged rest
    | none, none, none => none

end ChangeCode

end ApiDrift
