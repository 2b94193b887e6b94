import ApiDrift.Content
import ApiDrift.Snapshot.Failure
/-! What the operations on snapshots need from a repository. -/
namespace ApiDrift.Snapshot

/-- A stored content under the id that the repository gives it. Equal contents have equal ids. -/
structure Blob where
  id : String
  content : Content
deriving DecidableEq, Repr

/-- A step that may change a state of type `σ`. When it fails, what it changed before stays. -/
abbrev Action (σ α : Type) := ExceptT Failure (StateM σ) α

/-- Repositories in states of type `σ`. Objects have opaque ids. A note is known by the full name
of its ref and the id of the object that it is about. -/
class Backend (σ : Type) where
  /-- Names of the release tags, in ascending order. -/
  tags : σ → List String
  latestTag : σ → Option String
  /-- When a tag was made, in seconds since 1970. -/
  tagTime : σ → String → Except Failure (Option Int)
  resolve : σ → String → Option String
  tagBlob : σ → String → String → Except Failure (Option Blob)
  note : σ → String → String → Except Failure (Option Blob)
  /-- The refs of an area that hold notes, in ascending order. -/
  noteRefs : σ → String → List String
  /-- The tracked file that a name refers to, as it is in the work tree. -/
  workingFile : σ → String → Except Failure (Option Content)
  /-- Adds a note under a ref about an object, where there is none, and gives its id. -/
  addNote : String → String → String → Action σ String
  push : String → List String → Action σ Unit
  fetch : String → String → Action σ Unit

namespace Action

variable {σ α : Type}

def look (f : σ → α) : Action σ α := do pure (f (← get))

def consult (f : σ → Except Failure α) : Action σ α := do
  match f (← get) with
  | .ok a => pure a
  | .error e => throw e

def attempt (t : Action σ α) : Action σ (Except Failure α) := ExceptT.lift t.run

end Action

end ApiDrift.Snapshot
