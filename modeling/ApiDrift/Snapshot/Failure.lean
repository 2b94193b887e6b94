/-! Why an operation on snapshots stops. -/
namespace ApiDrift.Snapshot

inductive Failure where
  | repositoryAbsent (path : String)
  | invalidRef (reference : String)
  | remoteSync (remote reason : String)
  | noteExists (tag file : String)
  | noTags
  | missingFile (tag file : String)
  /-- Notes hold text, and the file is none. -/
  | notText (file : String)
  | git (reason : String)
  | io (reason : String)
deriving DecidableEq, Repr

namespace Failure

def message : Failure → String
  | repositoryAbsent p => s!"Git repository not found at path: {p}"
  | invalidRef r => s!"Invalid ref ‘{r}’"
  | remoteSync r m => s!"Failed to sync notes with remote ‘{r}’: {m}"
  | noteExists t f => s!"{t}: XML file ‘{f}’ already has a note"
  | noTags => "Failed to find latest git tag"
  | missingFile t f => s!"XML file ‘{f}’ not found in tag ‘{t}’ or in the work tree"
  | notText f => s!"XML file ‘{f}’ is not valid UTF-8"
  | git m => s!"Git error: {m}"
  | io m => s!"IO error: {m}"

def reason? : Failure → Option String
  | git m => some m
  | io m => some m
  | _ => none

end Failure

end ApiDrift.Snapshot
