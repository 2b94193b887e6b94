import ApiDrift.Location
/-! Annotations of an element: a map from names to values that remembers the order in
which names first came. The value given last for a name is the one that counts. -/
namespace ApiDrift

structure Annotation where
  name : String
  value : String
  location : Location := {}
deriving DecidableEq, Repr

namespace AnnotationName

def deprecated : String := "org.freedesktop.DBus.Deprecated"

def cSymbol : String := "org.freedesktop.DBus.GLib.CSymbol"

def noReply : String := "org.freedesktop.DBus.Method.NoReply"

def emitsChanged : String := "org.freedesktop.DBus.Property.EmitsChangedSignal"

def docString : String := "org.gtk.GDBus.DocString"

end AnnotationName

/-- Annotations in the order of their names' first appearance. -/
structure Annotations where
  toList : List Annotation := []
deriving DecidableEq, Repr, Inhabited

namespace Annotations

/-- Puts `a` in the place of the first annotation of its name, or at the end. The
second result is the annotation whose place it took. -/
def insertInto (a : Annotation) : List Annotation → List Annotation × Option Annotation
  | [] => ([a], none)
  | b :: rest =>
    if b.name = a.name then (a :: rest, some b)
    else (b :: (insertInto a rest).1, (insertInto a rest).2)

def insert (s : Annotations) (a : Annotation) : Annotations × Option Annotation :=
  (⟨(insertInto a s.toList).1⟩, (insertInto a s.toList).2)

def get? (s : Annotations) (name : String) : Option Annotation :=
  s.toList.find? fun a => a.name == name

def value? (s : Annotations) (name : String) : Option String :=
  (s.get? name).map Annotation.value

def ofList (l : List Annotation) : Annotations :=
  l.foldl (fun s a => (s.insert a).1) {}

def size (s : Annotations) : Nat := s.toList.length

theorem insertInto_snd (a : Annotation) (l : List Annotation) :
    (insertInto a l).2 = l.find? fun b => b.name == a.name := by
  induction l with
  | nil => rfl
  | cons b rest ih =>
    unfold insertInto
    by_cases h : b.name = a.name
    · simp [h]
    · simp [h, ih]

end Annotations

def Annotation.toJson (a : Annotation) : Json :=
  .obj [("name", .str a.name), ("value", .str a.value), ("location", a.location.toJson)]

end ApiDrift
