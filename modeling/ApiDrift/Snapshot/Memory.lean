import ApiDrift.Snapshot.Backend
import ApiDrift.Snapshot.Config
import ApiDrift.Snapshot.Tracked
import ApiDrift.Table
import ApiDrift.Text.Digits
import ApiDrift.Text.SipHash
/-! A repository in memory, with a remote of its own. Contents are told apart by hashes. -/
namespace ApiDrift.Snapshot

/-- Notes by ref, and under a ref by the object that they are about. -/
abbrev Notes := Table (Table String)

namespace Notes

def find? (n : Notes) (notesRef target : String) : Option String :=
  (n.get? notesRef).bind (Table.get? · target)

def under (n : Notes) (notesRef : String) : Table String := (n.get? notesRef).getD .empty

def add (n : Notes) (notesRef target content : String) : Notes :=
  n.insert notesRef ((n.under notesRef).insert target content)

def addMissing (n : Notes) (notesRef target content : String) : Notes :=
  if ((n.under notesRef).contains target) then n else n.add notesRef target content

/-- Adds all notes that another repository has under a ref, except about objects that have one. -/
def mergeRef (theirs : Table String) (n : Notes) (notesRef : String) : Notes :=
  theirs.entries.foldl (fun n e => n.addMissing notesRef e.1 e.2) n

def count (n : Notes) : Nat := n.values.foldl (fun k t => k + t.size) 0

def refs (n : Notes) (area : String) : List String :=
  (n.entries.filter fun e => (Text.after? (heading area) e.1).isSome && !e.2.isEmpty).map Prod.fst

end Notes

structure MemoryTag where
  time : Int
  files : Table String

structure Memory where
  tags : Table MemoryTag := .empty
  /-- Other refs, with the objects that they name. -/
  refs : Table String := .empty
  workTree : Table String := .empty
  notes : Notes := .empty
  remote : Notes := .empty
  pushes : List (String × List String) := []
  remoteFails : Bool := false

namespace Memory

def tagId (name : String) : String := "tag:" ++ name

def tagsHeading : String := "refs/tags/"

/-- The hash of a content, taken of its length and its bytes, in sixteen hexadecimal digits. -/
def contentId (content : String) : String :=
  let bytes := Text.Utf8.encode content.toList
  let length := Text.SipHash.littleEndian bytes.length.toUInt64
  Text.padded 16 16 (Text.SipHash.hash (length ++ bytes)).toNat

def blob (content : String) : Blob := ⟨contentId content, .text content⟩

def resolve (m : Memory) (reference : String) : Option String :=
  let name := (Text.after? tagsHeading reference).getD reference
  if m.tags.contains name then some (tagId name) else m.refs.get? reference

def later (a b : String × MemoryTag) : String × MemoryTag :=
  if a.2.time < b.2.time || (a.2.time == b.2.time && a.1 < b.1) then b else a

def latestTag (m : Memory) : Option String :=
  match m.tags.entries with
  | [] => none
  | e :: rest => some (rest.foldl later e).1

def workingFile (m : Memory) (name : String) : Option Content :=
  (matchTracked m.workTree.names name).bind fun path => (m.workTree.get? path).map Content.text

def addNote (notesRef target content : String) : Action Memory String := do
  let m ← get
  if (m.notes.find? notesRef target).isSome then throw (.noteExists target notesRef)
  else do
    set { m with notes := m.notes.add notesRef target content }
    pure (contentId content)

def reach (remote : String) : Action Memory Unit := do
  if (← get).remoteFails then throw (.remoteSync remote "remote unavailable")

def mergeRefs (source target : Notes) (refs : List String) : Notes :=
  refs.foldl (fun n r => n.mergeRef (source.under r) r) target

def push (remote : String) (refs : List String) : Action Memory Unit := do
  reach remote
  modify fun m =>
    { m with remote := mergeRefs m.notes m.remote refs, pushes := m.pushes ++ [(remote, refs)] }

def fetch (remote area : String) : Action Memory Unit := do
  reach remote
  modify fun m => { m with notes := mergeRefs m.remote m.notes (m.remote.refs area) }

instance : Backend Memory where
  tags m := m.tags.names
  latestTag := latestTag
  tagTime m tag := .ok ((m.tags.get? tag).map MemoryTag.time)
  resolve := resolve
  tagBlob m tag path := .ok (((m.tags.get? tag).bind fun t => t.files.get? path).map blob)
  note m notesRef target := .ok ((m.notes.find? notesRef target).map blob)
  noteRefs m area := m.notes.refs area
  workingFile m name := .ok (m.workingFile name)
  addNote := addNote
  push := push
  fetch := fetch

/-! How a repository in memory is set up. -/

def addTag (m : Memory) (name : String) (time : Int) (files : List (String × String)) : Memory :=
  { m with tags := m.tags.insert name ⟨time, Table.ofList files⟩ }

def addRef (m : Memory) (name object : String) : Memory :=
  { m with refs := m.refs.insert name object }

def writeFile (m : Memory) (path content : String) : Memory :=
  { m with workTree := m.workTree.insert path content }

/-- A note at the remote only, as another clone would have left it. -/
def addRemoteNote (m : Memory) (notesRef target content : String) : Memory :=
  { m with remote := m.remote.add notesRef target content }

end Memory

end ApiDrift.Snapshot
