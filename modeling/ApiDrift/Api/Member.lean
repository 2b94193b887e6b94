import ApiDrift.Api.Basic
/-! Methods, signals and properties of an interface as one list in document order. -/
namespace ApiDrift

inductive Member where
  | method (m : Callable)
  | signal (s : Callable)
  | property (p : Property)

namespace Member

def kindText : Member → String
  | method _ => "method"
  | signal _ => "signal"
  | property _ => "property"

def name : Member → String
  | method c => c.name
  | signal c => c.name
  | property p => p.name

def location : Member → Location
  | method c => c.location
  | signal c => c.location
  | property p => p.location

def render (m : Member) : String := m.kindText ++ " " ++ m.name ++ " " ++ m.location.render

end Member

/-- The members by their place. At one place methods come first and properties last, each
kind in its own order. -/
def Interface.members (i : Interface) : List Member :=
  (i.methods.map Member.method ++ i.signals.map Member.signal ++ i.properties.map Member.property).mergeSort
    fun a b => a.location ≤ b.location

end ApiDrift
