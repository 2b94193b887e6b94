import ApiDrift.Git.Remote
import ApiDrift.Git.Revision
import ApiDrift.Snapshot.Tracked
/-! Snapshots in a git repository: releases are its annotated tags, and notes are kept on note
refs, each of them a history of notes added one by one. -/
namespace ApiDrift.Git

open Files (Position)
open Snapshot (Failure Blob Action Backend heading)

structure Tag where
  target : ObjectId
  time : Option Int

def Store.tag? (s : Store) (id : ObjectId) : Option Tag :=
  match s.find? id with
  | some (.tag _ target time) => some ⟨target, time⟩
  | _ => none

/-- The times for which there is a date. -/
def dated? (seconds : Int) : Option Int :=
  if -8334601228800 ≤ seconds ∧ seconds ≤ 8210266876799 then some seconds else none

namespace Checkout

/-- The annotated tag of a name. Other tags are no releases. -/
def tag? (c : Checkout) (name : String) : Option Tag :=
  (c.repository.refs.get? (tagsHeading ++ name)).bind c.store.tag?

def tags (c : Checkout) : List String :=
  (c.repository.refs.names.filterMap (Text.after? tagsHeading)).filter fun n => (c.tag? n).isSome

/-- What decides which release is the latest: when its commit was made, when it was tagged,
and its name. -/
structure Rank where
  committed : Int
  tagged : Int
  name : String

def Rank.less (a b : Rank) : Bool :=
  a.committed < b.committed || (a.committed == b.committed &&
    (a.tagged < b.tagged || (a.tagged == b.tagged && a.name < b.name)))

def rank? (c : Checkout) (name : String) : Option Rank := do
  let tag ← c.tag? name
  pure ⟨← c.store.commitTime? tag.target, tag.time.getD 0, name⟩

def latestTag (c : Checkout) : Option String :=
  match c.tags.filterMap c.rank? with
  | [] => none
  | r :: rest => some (rest.foldl (fun best r => if best.less r then r else best) r).name

def tagTime (c : Checkout) (name : String) : Except Failure (Option Int) :=
  match c.tag? name with
  | none => .ok none
  | some ⟨_, some time⟩ => .ok (dated? time)
  | some ⟨target, none⟩ =>
    match c.store.commitTime? target with
    | some time => .ok (dated? time)
    | none => .error (.git (c.store.peelFault target "commit" 1))

/-- Objects without a number have never been stored, and nothing is noted about them. -/
def resolve (c : Checkout) (reference : String) : Option String :=
  (Revision.eval? c.store c.repository reference).map fun o =>
    ((c.store.idOf? o).map idText).getD ""

def pathFault? (path : String) : Option String :=
  match Text.split '/' path with
  | [""] => some "repo path should not be empty"
  | "" :: _ => some ("repo path `" ++ path ++ "` should be relative")
  | "." :: _ => some ("repo path `" ++ path ++ "` should not start with `.`")
  | ".." :: _ => some ("repo path `" ++ path ++ "` should not start with `..`")
  | _ => none

def blobAt (c : Checkout) (files : List (String × ObjectId)) (path : String) :
    Except Failure (Option Blob) :=
  match pathFault? path with
  | some m => .error (.git m)
  | none =>
    .ok do
      let id ← files.lookup path
      pure ⟨idText id, ← c.store.content? id⟩

def tagBlob (c : Checkout) (name path : String) : Except Failure (Option Blob) :=
  match c.tag? name with
  | none => .ok none
  | some tag =>
    match c.store.files? tag.target with
    | none => .error (.git (c.store.peelFault tag.target "tree" 2))
    | some files => c.blobAt files path

def notesName (c : Checkout) (notesRef : String) : Except Failure String :=
  match RefName.normalize notesRef with
  | .error fault => .error (.git fault.message)
  | .ok name =>
    if (Text.split '/' name).any fun part => RefName.maxComponentBytes < part.utf8ByteSize then
      .error (.git ("invalid path for filesystem '" ++ c.workspace.pathText c.gitDir ++ "/" ++ name
        ++ "': File name too long; class=Os (2); code=InvalidSpec (-12)"))
    else .ok name

def notesTree (c : Checkout) (name : String) : Except Failure (Option Listing) :=
  match c.repository.refs.get? name with
  | none => .ok none
  | some tip =>
    match c.store.commit? tip with
    | none => .error (.git "invalid argument: 'commit'; class=Invalid (3)")
    | some commit => .ok (c.store.treeFiles? commit.tree)

def note (c : Checkout) (notesRef target : String) : Except Failure (Option Blob) := do
  let name ← c.notesName notesRef
  let files ← c.notesTree name
  pure do
    let id ← (← files).lookup target
    pure ⟨idText id, ← c.store.content? id⟩

def noteRefs (c : Checkout) (area : String) : List String := Area.refs c.repository area

def workingFile (c : Checkout) (name : String) : Except Failure (Option Content) :=
  match c.workTree with
  | none => .ok none
  | some workTree =>
    match Snapshot.matchTracked c.repository.index.names name with
    | none => .ok none
    | some path =>
      match c.workspace.files.read workTree path with
      | .ok content => .ok (some content)
      | .error .notFound => .ok none
      | .error fault => .error (.io fault.message)

def noteMessage : String := "Notes added by 'git_note_create' from libgit2"

def extend (c : Checkout) (name target content : String) : Action Checkout String := do
  let files := ((c.notesTree name).toOption.bind id).getD []
  let (note, w) := c.workspace.keep c.gitDir (.blob (.text content))
  let (tree, w) := w.keep c.gitDir (.tree (files.insertNote target note))
  let (tip, w) := w.keep c.gitDir (.commit
    { tree, parent := c.repository.refs.get? name, time := w.now
      author := w.pathText c.gitDir, message := noteMessage })
  match (w.repository c.gitDir).tryPut name tip w.now with
  | .error obstacle =>
    let (reason, kind) := obstacle.text name (w.pathText c.gitDir)
    throw (.git (reason ++ "; " ++ kind))
  | .ok r => do
    set { c with workspace := w.setRepository c.gitDir r }
    pure (idText note)

def addNote (notesRef target content : String) : Action Checkout String := do
  let c ← get
  match c.note notesRef target, c.notesName notesRef with
  | .error e, _ => throw e
  | _, .error e => throw e
  | .ok (some _), _ => throw (.noteExists target notesRef)
  | .ok none, .ok name =>
    if '\x00' ∈ content.toList then
      throw (.git "data contained a nul byte that could not be represented as a string")
    else extend c name target content

instance : Backend Checkout where
  tags := tags
  latestTag := latestTag
  tagTime := tagTime
  resolve := resolve
  tagBlob := tagBlob
  note := note
  noteRefs := noteRefs
  workingFile := workingFile
  addNote := addNote
  push := push
  fetch := fetch

end Checkout

end ApiDrift.Git
