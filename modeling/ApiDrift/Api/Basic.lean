import ApiDrift.Api.Annotation
import ApiDrift.Signature.Parser
/-! The interfaces that an object offers: a tree of nodes, each with interfaces of methods,
signals and properties. Every element knows where it was declared. -/
namespace ApiDrift

inductive DocSource where
  | annotated
  | element
  | comment
deriving DecidableEq, Repr

structure Documentation where
  text : String
  source : DocSource
  location : Location := {}
deriving DecidableEq, Repr

/-- A type as written, with what reading it gave. A text that is no signature is kept, so
that the element it belongs to can be kept too. -/
structure DeclaredType where
  text : String
  parsed : Except SignatureError Signature

namespace DeclaredType

def ofText (text : String) : DeclaredType := ⟨text, Signature.parse text⟩

def signature? (t : DeclaredType) : Option Signature := t.parsed.toOption

def isValid (t : DeclaredType) : Bool := t.signature?.isSome

def error? (t : DeclaredType) : Option SignatureError :=
  match t.parsed with
  | .error e => some e
  | .ok _ => none

end DeclaredType

inductive Direction where
  | input | output
deriving DecidableEq, Repr

namespace Direction

def text : Direction → String
  | input => "in"
  | output => "out"

def ofText? (s : String) : Option Direction :=
  [input, output].find? fun d => d.text == s

end Direction

inductive Access where
  | read | write | readWrite
deriving DecidableEq, Repr

namespace Access

def text : Access → String
  | read => "read"
  | write => "write"
  | readWrite => "readwrite"

def ofText? (s : String) : Option Access :=
  [read, write, readWrite].find? fun a => a.text == s

end Access

structure Argument where
  name : Option String := none
  type : DeclaredType
  direction : Option Direction := none
  annotations : Annotations := {}
  doc : Option Documentation := none
  location : Location := {}

inductive CallableKind where
  | method | signal
deriving DecidableEq, Repr

def CallableKind.text : CallableKind → String
  | method => "method"
  | signal => "signal"

structure Callable where
  kind : CallableKind
  name : String
  args : List Argument := []
  annotations : Annotations := {}
  doc : Option Documentation := none
  location : Location := {}

structure Property where
  name : String
  type : DeclaredType
  access : Access
  annotations : Annotations := {}
  doc : Option Documentation := none
  location : Location := {}

structure Interface where
  name : String
  methods : List Callable := []
  signals : List Callable := []
  properties : List Property := []
  annotations : Annotations := {}
  doc : Option Documentation := none
  location : Location := {}

namespace Interface

def method? (i : Interface) (name : String) : Option Callable :=
  i.methods.find? fun m => m.name == name

def signal? (i : Interface) (name : String) : Option Callable :=
  i.signals.find? fun s => s.name == name

def property? (i : Interface) (name : String) : Option Property :=
  i.properties.find? fun p => p.name == name

end Interface

/-- An object of the tree. The root may have an absolute path for a name, its
descendants have relative ones. -/
structure Node where
  name : Option String := none
  interfaces : List Interface := []
  nodes : List Node := []
  annotations : Annotations := {}
  doc : Option Documentation := none
  location : Location := {}
deriving Inhabited

namespace Node

def interface? (n : Node) (name : String) : Option Interface :=
  n.interfaces.find? fun i => i.name == name

def child? (n : Node) (name : String) : Option Node :=
  n.nodes.find? fun c => c.name == some name

mutual

def allInterfaces : Node → List Interface
  | ⟨_, interfaces, nodes, _, _, _⟩ => interfaces ++ allInterfacesOf nodes

def allInterfacesOf : List Node → List Interface
  | [] => []
  | n :: rest => n.allInterfaces ++ allInterfacesOf rest

end

end Node

end ApiDrift
