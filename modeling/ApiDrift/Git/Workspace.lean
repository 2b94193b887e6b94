import ApiDrift.Git.Repository
import ApiDrift.Snapshot.Failure
/-! A directory with repositories in it, and how a repository is found there. -/
namespace ApiDrift.Git

open Files (Position)

structure Workspace where
  name : String := ""
  files : Files.Tree := {}
  store : Store := {}
  repositories : Table Repository := .empty
  now : Int := 0

namespace Workspace

def pathText (w : Workspace) : Position → String
  | [] => w.name
  | p => w.name ++ "/" ++ Files.key p

/-- The git directory of a checkout, or the place itself if it is a git directory. -/
def gitDirAt? (w : Workspace) (p : Position) : Option Position :=
  [p ++ [".git"], p].find? fun q => w.repositories.contains (Files.key q)

/-- Looks in a directory and then in those above it. The names are those from the place upwards. -/
def searchUp? (w : Workspace) : List String → Option Position
  | [] => w.gitDirAt? []
  | name :: above => (w.gitDirAt? (name :: above).reverse).or (w.searchUp? above)

def repository (w : Workspace) (gitDir : Position) : Repository :=
  (w.repositories.get? (Files.key gitDir)).getD {}

def setRepository (w : Workspace) (gitDir : Position) (r : Repository) : Workspace :=
  { w with repositories := w.repositories.insert (Files.key gitDir) r }

def keep (w : Workspace) (gitDir : Position) (o : Object) : ObjectId × Workspace :=
  let (id, store) := w.store.intern o
  (id, { w with store }.setRepository gitDir ((w.repository gitDir).hold [id]))

def isDirectory (w : Workspace) (p : Position) : Bool :=
  w.files.entry? p == some .directory ||
    w.repositories.entries.any fun (key, r) =>
      let gitDir := if key = "" then [] else Text.split '/' key
      gitDir.isPrefixOf p && r.isDirectory (p.drop gitDir.length)

def directoryAt? (w : Workspace) : Position → List String → Option Position
  | p, [] => if w.isDirectory p then some p else none
  | p, name :: rest =>
    if !w.isDirectory p then none
    else if name = "" ∨ name = "." then w.directoryAt? p rest
    else if name = ".." then
      w.directoryAt? (if p.all (· == "..") then p ++ [".."] else p.dropLast) rest
    else w.directoryAt? (p ++ [name]) rest

def directory? (w : Workspace) (path : String) : Option Position :=
  w.directoryAt? [] (Text.split '/' path)

end Workspace

structure Location where
  gitDir : Option String := none
  workTree : Option String := none
deriving DecidableEq, Repr

structure Checkout where
  workspace : Workspace
  gitDir : Position
  workTree : Option Position

namespace Workspace

def directoryFrom? (w : Workspace) (cwd : Position) (path : String) : Option Position :=
  if Files.Tree.tooManyBytes ≤ path.utf8ByteSize then none
  else match Text.split '/' path with
    | "" :: rest => w.directoryAt? [".."] rest
    | names => w.directoryAt? cwd names

def named (w : Workspace) (cwd : Position) (path : String) : Except Snapshot.Failure Position :=
  match (w.directoryFrom? cwd path).bind w.gitDirAt? with
  | some gitDir => .ok gitDir
  | none => .error (.repositoryAbsent path)

def unresolved (path : String) (fault : Files.Fault) : Snapshot.Failure :=
  .git ("failed to resolve path '" ++ path ++ "': " ++ fault.text ++ "; class=Os (2)")

/-- The git directory if it is given, else the work tree as a checkout, else what a search
upwards from the current directory finds. -/
def findRepository (w : Workspace) (cwd : Position) :
    Location → Except Snapshot.Failure Position
  | ⟨some gitDir, _⟩ => w.named cwd gitDir
  | ⟨none, some workTree⟩ =>
    match w.files.locate cwd workTree with
    | .error .nameTooLong => .error (unresolved workTree .nameTooLong)
    | _ => w.named cwd workTree
  | ⟨none, none⟩ =>
    match w.searchUp? cwd.reverse with
    | some gitDir => .ok gitDir
    | none => .error (.repositoryAbsent (w.pathText cwd))

def findWorkTree (w : Workspace) (cwd gitDir : Position) :
    Option String → Except Snapshot.Failure (Option Position)
  | some path =>
    match w.directoryFrom? cwd path with
    | some p => .ok (some p)
    | none =>
      match w.files.find cwd path with
      | .ok (p, _) => .ok (some p)
      | .error fault => .error (unresolved path fault)
  | none => .ok (if (w.repository gitDir).bare then none else some gitDir.dropLast)

def openCheckout (w : Workspace) (cwd : Position) (l : Location) :
    Except Snapshot.Failure Checkout := do
  let gitDir ← w.findRepository cwd l
  let workTree ← w.findWorkTree cwd gitDir l.workTree
  pure ⟨w, gitDir, workTree⟩

end Workspace

end ApiDrift.Git
