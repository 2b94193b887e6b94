import ApiDrift.Location
/-! Findings about one document: how serious each is, what kind of issue it is, where it
stands and what to say about it. -/
namespace ApiDrift

/-- How serious a finding is. After a fatal one no tree can be trusted. -/
inductive Severity where
  | warning | error | fatal
deriving DecidableEq, Repr

def Severity.text : Severity → String
  | warning => "warning"
  | error => "error"
  | fatal => "fatal"

inductive IssueCode where
  | unknownNode | emptyRoot | missingAttribute
  | duplicateNode | duplicateInterface | duplicateMethod | duplicateSignal | duplicateProperty
  | annotationDuplicate
  | nodeName | interfaceName | methodName | signalName | propertyName
  | propertyType | propertyAccess | argumentType | argumentDirection | signalArgumentDirection
  | annotationUnknown | emptyDocumentation
deriving DecidableEq, Repr

namespace IssueCode

def all : List IssueCode :=
  [unknownNode, emptyRoot, missingAttribute, duplicateNode, duplicateInterface, duplicateMethod,
   duplicateSignal, duplicateProperty, annotationDuplicate, nodeName, interfaceName, methodName,
   signalName, propertyName, propertyType, propertyAccess, argumentType, argumentDirection,
   signalArgumentDirection, annotationUnknown, emptyDocumentation]

def text : IssueCode → String
  | unknownNode => "unknown-node"
  | emptyRoot => "empty-root"
  | missingAttribute => "missing-attribute"
  | duplicateNode => "duplicate-node"
  | duplicateInterface => "duplicate-interface"
  | duplicateMethod => "duplicate-method"
  | duplicateSignal => "duplicate-signal"
  | duplicateProperty => "duplicate-property"
  | annotationDuplicate => "duplicate-annotation"
  | nodeName => "node-name"
  | interfaceName => "interface-name"
  | methodName => "method-name"
  | signalName => "signal-name"
  | propertyName => "property-name"
  | propertyType => "property-type"
  | propertyAccess => "property-access"
  | argumentType => "argument-type"
  | argumentDirection => "argument-direction"
  | signalArgumentDirection => "signal-argument-direction"
  | annotationUnknown => "unknown-annotation"
  | emptyDocumentation => "empty-documentation"

def ofText? (s : String) : Option IssueCode := all.find? fun c => c.text == s

theorem mem_all (c : IssueCode) : c ∈ all := by cases c <;> decide

end IssueCode

structure Diagnostic where
  file : Option String := none
  severity : Severity
  code : IssueCode
  message : String
  location : Option Location := none
deriving DecidableEq, Repr

namespace Diagnostic

def isFatal (d : Diagnostic) : Bool := d.severity == .fatal

def render (d : Diagnostic) : String :=
  let place := match d.location with
    | some l => ":" ++ l.render
    | none => ""
  d.file.getD "<stdin>" ++ place ++ ": " ++ d.severity.text ++ " (" ++ d.code.text ++ "): " ++ d.message

def toJson (d : Diagnostic) : Json :=
  .obj (Json.optional "file" (d.file.map .str)
    ++ [("severity", .str d.severity.text), ("code", .str d.code.text), ("message", .str d.message)]
    ++ Json.optional "location" (d.location.map Location.toJson))

end Diagnostic

end ApiDrift
