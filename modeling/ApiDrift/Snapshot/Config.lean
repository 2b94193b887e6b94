import ApiDrift.Text.Affix
/-! Where snapshots are kept and where they are published. -/
namespace ApiDrift.Snapshot

structure Config where
  /-- The part of the name space of refs, below `refs/`, that holds the notes. -/
  area : String := "notes/dbus/api"
  remote : String := "origin"
  /-- Whether to publish notes once they are recorded, or to say how to do it by hand. -/
  push : Bool := true
deriving DecidableEq, Repr

def heading (area : String) : String := "refs/" ++ area ++ "/"

namespace Config

def notesRef (c : Config) (base : String) : String := heading c.area ++ base

def pushCommand (c : Config) : String := "git push " ++ c.remote ++ " " ++ heading c.area ++ "*"

end Config

end ApiDrift.Snapshot
