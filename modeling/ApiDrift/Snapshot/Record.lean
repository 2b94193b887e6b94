import ApiDrift.Snapshot.Backend
import ApiDrift.Snapshot.Config
/-! Snapshots recorded against release tags: for every release, or for the latest one. -/
namespace ApiDrift.Snapshot

variable {σ : Type} [Backend σ]

structure Recorded where
  tag : String
  file : String
  notesRef : String
  note : String
deriving DecidableEq, Repr

def Recorded.render (r : Recorded) : String :=
  r.tag ++ ": Added note ‘" ++ r.note ++ "’ for XML file ‘" ++ r.file ++ "’"

inductive PushOutcome where
  | pushed (remote : String) (refs : List String)
  | skipped (command : String)
deriving DecidableEq, Repr

def resolveOrFail (reference : String) : Action σ String := do
  match ← Action.look (Backend.resolve · reference) with
  | some target => pure target
  | none => throw (.invalidRef reference)

/-- Publishes all note refs, or tells how to. Without note refs there is nothing to do. -/
def publish (config : Config) : Action σ (Option PushOutcome) := do
  match ← Action.look (Backend.noteRefs · config.area) with
  | [] => pure none
  | refs =>
    if config.push then do
      Backend.push config.remote refs
      pure (some (.pushed config.remote refs))
    else pure (some (.skipped config.pushCommand))

def hasNote (config : Config) (target path : String) : Action σ Bool := do
  pure (← Action.consult (Backend.note · (config.notesRef (Text.basename path)) target)).isSome

def record (config : Config) (tag target path : String) : Content → Action σ Recorded
  | .binary _ => throw (.notText path)
  | .text s => do
    let notesRef := config.notesRef (Text.basename path)
    let note ← Backend.addNote notesRef target s
    pure ⟨tag, path, notesRef, note⟩

/-- Records a file at a tag, unless it has a note there or is not in the tag. -/
def installFile (config : Config) (tag target path : String) : Action σ (Option Recorded) := do
  if ← hasNote config target path then pure none
  else match ← Action.consult (Backend.tagBlob · tag path) with
    | none => pure none
    | some blob => do pure (some (← record config tag target path blob.content))

structure Release where
  tag : String
  added : List Recorded
deriving DecidableEq, Repr

def installAt (config : Config) (files : List String) (tag : String) : Action σ Release := do
  let target ← resolveOrFail tag
  let added ← files.mapM (installFile config tag target)
  pure ⟨tag, added.filterMap id⟩

def installAll (config : Config) (files : List String) : Action σ (List Release) := do
  (← Action.look Backend.tags).mapM (installAt config files)

structure InstallReport where
  added : List Recorded
  /-- The tags at which nothing was recorded. -/
  unchanged : List String
  push : Option PushOutcome
deriving DecidableEq, Repr

/-- Records a snapshot of each file for every release that has the file and no snapshot of it.
Running it again records nothing new. -/
def install (config : Config) (files : List String) : Action σ InstallReport := do
  let releases ← installAll config files
  let push ← publish config
  pure ⟨releases.flatMap Release.added,
    (releases.filter fun r => r.added.isEmpty).map Release.tag, push⟩

inductive Distributed where
  | added (r : Recorded)
  | ignored (file : String)
deriving DecidableEq, Repr

def Distributed.recorded? : Distributed → Option Recorded
  | added r => some r
  | ignored _ => none

def Distributed.ignored? : Distributed → Option String
  | added _ => none
  | ignored file => some file

/-- The content of a file in a tag, or else in the work tree. -/
def releaseContent (tag path : String) : Action σ Content := do
  match ← Action.consult (Backend.tagBlob · tag path) with
  | some blob => pure blob.content
  | none =>
    match ← Action.consult (Backend.workingFile · path) with
    | some content => pure content
    | none => throw (.missingFile tag path)

def distFile (config : Config) (ignoreExisting : Bool) (tag target path : String) :
    Action σ Distributed := do
  if ← hasNote config target path then
    if ignoreExisting then pure (.ignored path) else throw (.noteExists tag path)
  else do
    let content ← releaseContent tag path
    pure (.added (← record config tag target path content))

structure DistReport where
  tag : String
  added : List Recorded
  ignored : List String
  push : Option PushOutcome
deriving DecidableEq, Repr

/-- Records a snapshot of each file for the latest release. A file that has one already is a
failure, or is ignored if that is asked for. -/
def dist (config : Config) (files : List String) (ignoreExisting : Bool) : Action σ DistReport := do
  match ← Action.look Backend.latestTag with
  | none => throw .noTags
  | some tag => do
    let target ← resolveOrFail tag
    let done ← files.mapM (distFile config ignoreExisting tag target)
    let push ← publish config
    pure ⟨tag, done.filterMap Distributed.recorded?, done.filterMap Distributed.ignored?, push⟩

end ApiDrift.Snapshot
