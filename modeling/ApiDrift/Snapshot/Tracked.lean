import ApiDrift.Text.Affix
/-! Which of the tracked files a name refers to. -/
namespace ApiDrift.Snapshot

def endsIn (base path : String) : Bool :=
  path == base || ('/' :: base.toList).isSuffixOf path.toList

/-- Looks for the name itself, and remembers the first path that ends in its base name. -/
def selectTracked (name base : String) (found : Option String) : List String → Option String
  | [] => found
  | path :: rest =>
    if path = name then some path
    else selectTracked name base (found.or (if endsIn base path then some path else none)) rest

/-- The tracked path that a name refers to: the name itself, or else the first path with the same
last component. -/
def matchTracked (paths : List String) (name : String) : Option String :=
  selectTracked name (Text.basename name) none paths

end ApiDrift.Snapshot
