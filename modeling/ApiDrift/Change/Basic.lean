import ApiDrift.Change.Code
/-! A single change: what it is, where, and between which values. -/
namespace ApiDrift

/-- A difference between two versions. The location is in the new one, or in the old one
if something was removed. -/
structure Change where
  kind : ChangeKind
  category : Category
  code : ChangeCode
  path : String
  old : Option String := none
  new : Option String := none
  message : String
  location : Location
deriving DecidableEq, Repr

namespace Change

def render (c : Change) : String := c.category.text ++ " (" ++ c.code.text ++ "): " ++ c.message

def toJson (c : Change) : Json :=
  .obj ([("kind", .str c.kind.text), ("category", .str c.category.text), ("code", .str c.code.text),
      ("path", .str c.path)]
    ++ Json.optional "old" (c.old.map .str)
    ++ Json.optional "new" (c.new.map .str)
    ++ [("message", .str c.message), ("location", c.location.toJson)])

def addedElement (kind : ElementKind) (path : String) (location : Location) : Change where
  kind := .added
  category := .info
  code := .added kind
  path := path
  new := some path
  message := kind.title ++ s!" ‘{path}’ has been added."
  location := location

def removedElement (kind : ElementKind) (path : String) (location : Location) : Change where
  kind := .removed
  category := .backwards
  code := .removed kind
  path := path
  old := some path
  message := kind.title ++ s!" ‘{path}’ has been removed."
  location := location

end Change

end ApiDrift
