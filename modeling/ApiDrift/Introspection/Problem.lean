import ApiDrift.Api.Basic
import ApiDrift.Diagnostic
/-! What can be wrong with introspection data that is well-formed XML, and how each problem
is told. -/
namespace ApiDrift.Introspection

/-- How an argument is named in messages: by its name, or by its position from zero. -/
inductive ArgumentLabel where
  | named (name : String)
  | position (n : Nat)
deriving DecidableEq, Repr

def ArgumentLabel.text : ArgumentLabel → String
  | named n => s!"‘{n}’"
  | position n => toString n

inductive Place where
  | root
  | node (name : String)
  | interface (name : String)
  | callable (kind : CallableKind) (interface name : String)
  | argument (label : ArgumentLabel) (kind : CallableKind) (interface name : String)
  | property (interface name : String)
  | annotationNamed (name : Option String)
deriving DecidableEq, Repr

def Place.text : Place → String
  | root => "root"
  | node n => s!"node ‘{n}’"
  | interface n => s!"interface ‘{n}’"
  | callable k i n => k.text ++ s!" ‘{i}.{n}’"
  | argument l k i n => "argument " ++ l.text ++ " of " ++ k.text ++ s!" ‘{i}.{n}’"
  | property i n => s!"property ‘{i}.{n}’"
  | annotationNamed (some n) => s!"annotation ‘{n}’"
  | annotationNamed none => "annotation"

inductive MemberKind where
  | method | signal | property
deriving DecidableEq, Repr

def MemberKind.text : MemberKind → String
  | method => "method"
  | signal => "signal"
  | property => "property"

inductive Problem where
  | unknownRoot (tag : String)
  | noRootNode
  | rootNotAbsolute (name : String)
  | unknownElement (name : String) (place : Place)
  | missingAttribute (attr element : String)
  | unnamedChild
  | childNotRelative (name : String)
  | invalidInterfaceName (name : String)
  | invalidMemberName (kind : MemberKind) (name : String)
  | duplicateNode (path : String)
  | duplicateInterface (name : String)
  | duplicateMember (kind : MemberKind) (interface name : String)
  | annotationRepeated (name : String) (owner : Place)
  | annotationUnknown (name : String) (owner : Place)
  | annotationDocEmpty (owner : Place)
  | emptyDocElement (owner : Place)
  | invalidDirection (value : String) (label : ArgumentLabel) (owner : Place)
  | inwardSignalArgument (label : ArgumentLabel) (owner : Place)
  | invalidAccess (value interface name : String)
  | argumentType (text : String) (label : ArgumentLabel) (error : SignatureError)
  | propertyType (text name : String) (error : SignatureError)
deriving DecidableEq, Repr

namespace Problem

def severity : Problem → Severity
  | noRootNode => .fatal
  | missingAttribute _ _ => .fatal
  | invalidAccess _ _ _ => .fatal
  | annotationRepeated _ _ => .warning
  | annotationUnknown _ _ => .warning
  | annotationDocEmpty _ => .warning
  | emptyDocElement _ => .warning
  | inwardSignalArgument _ _ => .warning
  | _ => .error

def code : Problem → IssueCode
  | unknownRoot _ => .unknownNode
  | noRootNode => .emptyRoot
  | rootNotAbsolute _ => .nodeName
  | unknownElement _ _ => .unknownNode
  | missingAttribute _ _ => .missingAttribute
  | unnamedChild => .missingAttribute
  | childNotRelative _ => .nodeName
  | invalidInterfaceName _ => .interfaceName
  | invalidMemberName .method _ => .methodName
  | invalidMemberName .signal _ => .signalName
  | invalidMemberName .property _ => .propertyName
  | duplicateNode _ => .duplicateNode
  | duplicateInterface _ => .duplicateInterface
  | duplicateMember .method _ _ => .duplicateMethod
  | duplicateMember .signal _ _ => .duplicateSignal
  | duplicateMember .property _ _ => .duplicateProperty
  | annotationRepeated _ _ => .annotationDuplicate
  | annotationUnknown _ _ => .annotationUnknown
  | annotationDocEmpty _ => .emptyDocumentation
  | emptyDocElement _ => .emptyDocumentation
  | invalidDirection _ _ _ => .argumentDirection
  | inwardSignalArgument _ _ => .signalArgumentDirection
  | invalidAccess _ _ _ => .propertyAccess
  | argumentType _ _ _ => .argumentType
  | propertyType _ _ _ => .propertyType

def message : Problem → String
  | unknownRoot t => s!"Unknown root node ‘{t}’."
  | noRootNode => "No root node found in the document."
  | rootNotAbsolute n => s!"Root node name is not an absolute object path ‘{n}’."
  | unknownElement n p => s!"Unknown node ‘{n}’ in " ++ p.text ++ "."
  | missingAttribute a e => s!"Missing required attribute ‘{a}’ in {e}."
  | unnamedChild => "Missing required attribute ‘name’ in non-root node."
  | childNotRelative n => s!"Non-root node name is not a relative object path ‘{n}’."
  | invalidInterfaceName n => s!"Invalid interface name ‘{n}’."
  | invalidMemberName k n => "Invalid " ++ k.text ++ s!" name ‘{n}’."
  | duplicateNode p => s!"Duplicate node definition ‘{p}’."
  | duplicateInterface n => s!"Duplicate interface definition ‘{n}’."
  | duplicateMember k i n => "Duplicate " ++ k.text ++ s!" definition ‘{i}.{n}’."
  | annotationRepeated n p => s!"Duplicate annotation definition ‘{n}’ on " ++ p.text ++ "."
  | annotationUnknown n p => s!"Unknown standard annotation ‘{n}’ on " ++ p.text ++ "."
  | annotationDocEmpty p => s!"Empty ‘{AnnotationName.docString}’ annotation on " ++ p.text ++ "."
  | emptyDocElement p => "Empty documentation element in " ++ p.text ++ "."
  | invalidDirection v l p =>
    s!"Invalid direction ‘{v}’ for argument " ++ l.text ++ " of " ++ p.text ++ "."
  | inwardSignalArgument l p =>
    "Direction ‘in’ is meaningless for argument " ++ l.text ++ " of " ++ p.text ++ "."
  | invalidAccess v i n => s!"Invalid access type ‘{v}’ for property ‘{i}.{n}’."
  | argumentType t l e =>
    s!"Error when parsing type ‘{t}’ for argument " ++ l.text ++ ": " ++ e.message
  | propertyType t n e => s!"Error when parsing type ‘{t}’ for property ‘{n}’: " ++ e.message

end Problem

structure Finding where
  problem : Problem
  location : Location
deriving DecidableEq, Repr

namespace Finding

def isFatal (f : Finding) : Bool := f.problem.severity == .fatal

def toDiagnostic (file : Option String) (f : Finding) : Diagnostic where
  file := file
  severity := f.problem.severity
  code := f.problem.code
  message := f.problem.message
  location := some f.location

end Finding

structure Logged (α : Type) where
  value : α
  log : List Finding := []

namespace Logged

instance : Monad Logged where
  pure a := ⟨a, []⟩
  bind x f := ⟨(f x.value).value, x.log ++ (f x.value).log⟩

def report (location : Location) (problem : Problem) : Logged Unit := ⟨(), [⟨problem, location⟩]⟩

def reportWhen (condition : Bool) (location : Location) (problem : Problem) : Logged Unit :=
  ⟨(), if condition then [⟨problem, location⟩] else []⟩

@[simp] theorem value_pure {α : Type} (a : α) : (pure a : Logged α).value = a := rfl

@[simp] theorem log_pure {α : Type} (a : α) : (pure a : Logged α).log = [] := rfl

@[simp] theorem value_bind {α β : Type} (x : Logged α) (f : α → Logged β) :
    (x >>= f).value = (f x.value).value := rfl

@[simp] theorem log_bind {α β : Type} (x : Logged α) (f : α → Logged β) :
    (x >>= f).log = x.log ++ (f x.value).log := rfl

end Logged

end ApiDrift.Introspection
