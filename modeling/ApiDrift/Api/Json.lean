import ApiDrift.Api.Basic
/-! Trees of nodes written as JSON. Empty lists of annotations and child nodes, and absent
values, are left out; empty lists of interfaces, members and arguments are kept. -/
namespace ApiDrift

def DocSource.text : DocSource → String
  | annotated => "annotation"
  | element => "element"
  | comment => "comment"

def Documentation.toJson (d : Documentation) : Json :=
  .obj [("text", .str d.text), ("source", .str d.source.text), ("location", d.location.toJson)]

def DeclaredType.toJson (t : DeclaredType) : Json :=
  .obj (("text", .str t.text) :: Json.optional "error" (t.error?.map fun e => .str e.message))

def elementFields (annotations : Annotations) (doc : Option Documentation) (location : Location) :
    List (String × Json) :=
  Json.nonempty "annotations" (annotations.toList.map Annotation.toJson)
    ++ Json.optional "doc" (doc.map Documentation.toJson)
    ++ [("location", location.toJson)]

def Argument.toJson (a : Argument) : Json :=
  .obj (Json.optional "name" (a.name.map .str)
    ++ [("type", a.type.toJson)]
    ++ Json.optional "direction" (a.direction.map fun d => .str d.text)
    ++ elementFields a.annotations a.doc a.location)

def Callable.toJson (c : Callable) : Json :=
  .obj ([("kind", .str c.kind.text), ("name", .str c.name), ("args", .arr (c.args.map Argument.toJson))]
    ++ elementFields c.annotations c.doc c.location)

def Property.toJson (p : Property) : Json :=
  .obj ([("name", .str p.name), ("type", p.type.toJson), ("access", .str p.access.text)]
    ++ elementFields p.annotations p.doc p.location)

def Interface.toJson (i : Interface) : Json :=
  .obj ([("name", .str i.name), ("methods", .arr (i.methods.map Callable.toJson)),
      ("signals", .arr (i.signals.map Callable.toJson)),
      ("properties", .arr (i.properties.map Property.toJson))]
    ++ elementFields i.annotations i.doc i.location)

namespace Node

mutual

def toJson : Node → Json
  | ⟨name, interfaces, nodes, annotations, doc, location⟩ =>
    .obj (Json.optional "name" (name.map .str)
      ++ [("interfaces", .arr (interfaces.map Interface.toJson))]
      ++ Json.nonempty "nodes" (toJsonAll nodes)
      ++ elementFields annotations doc location)

def toJsonAll : List Node → List Json
  | [] => []
  | n :: rest => n.toJson :: toJsonAll rest

end

end Node

end ApiDrift
