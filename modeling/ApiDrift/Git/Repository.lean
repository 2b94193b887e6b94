import ApiDrift.Files.Tree
import ApiDrift.Git.Object
import ApiDrift.Git.RefName
import ApiDrift.Text.Affix
/-! A repository: its refs, where they stood before, and the files in which they are kept. -/
namespace ApiDrift.Git

open Files (Position)

structure LogEntry where
  target : ObjectId
  time : Int
deriving DecidableEq, Repr

structure Repository where
  bare : Bool := false
  refs : Table ObjectId := .empty
  /-- What was done to refs, the latest first. -/
  logs : Table (List LogEntry) := .empty
  /-- The first object that the last fetch brought in or found. -/
  fetchHead : Option ObjectId := none
  index : Table ObjectId := .empty
  /-- Where the remotes are, by paths from the directory that all repositories are in. -/
  remotes : Table String := .empty
  held : List ObjectId := []

instance : Inhabited Repository := ⟨{}⟩

def branch : String := "refs/heads/main"

def tagsHeading : String := "refs/tags/"

def branchesHeading : String := "refs/heads/"

def remotesHeading : String := "refs/remotes/"

def notesHeading : String := "refs/notes/"

def headName : String := "HEAD"

def fetchHeadName : String := "FETCH_HEAD"

def isBelow (heading name : String) : Bool := (Text.after? heading name).isSome

inductive Obstacle where
  | parentIsRef
  | refsBeneath
  /-- The file that is written first would have too long a name. -/
  | nameTooLong
deriving DecidableEq, Repr

def Obstacle.text (name gitDir : String) : Obstacle → String × String
  | parentIsRef =>
    ("could not remove directory '" ++ gitDir ++ "/" ++ name
      ++ "': parent is not directory: Not a directory", "class=Os (2)")
  | refsBeneath =>
    ("cannot lock ref '" ++ name ++ "', there are refs beneath that folder", "class=Reference (4)")
  | nameTooLong =>
    ("failed to create locked file '" ++ gitDir ++ "/" ++ name ++ ".lock': File name too long",
      "class=Os (2)")

namespace Repository

def target? (r : Repository) (name : String) : Option ObjectId :=
  if name = headName then r.refs.get? branch
  else if name = fetchHeadName then r.fetchHead
  else r.refs.get? name

def logName (name : String) : String := if name = headName then branch else name

def log (r : Repository) (name : String) : List LogEntry := (r.logs.get? (logName name)).getD []

def isLogged (r : Repository) (name : String) : Bool :=
  !r.bare && (isBelow branchesHeading name || isBelow remotesHeading name || isBelow notesHeading name)

def obstacle? (r : Repository) (name : String) : Option Obstacle :=
  if r.refs.names.any fun other => RefName.isAbove other name then some .parentIsRef
  else if r.refs.names.any fun other => RefName.isAbove name other then some .refsBeneath
  else if ((Text.split '/' name).getLast?.getD "").utf8ByteSize + ".lock".utf8ByteSize
    > RefName.maxComponentBytes then some .nameTooLong
  else none

/-- Puts a ref at an object. Nothing is remembered of a ref that stood there. -/
def put (r : Repository) (name : String) (id : ObjectId) (time : Int) : Repository :=
  if r.refs.get? name = some id then r
  else
    { r with
      refs := r.refs.insert name id
      logs := if r.isLogged name then r.logs.insert name (⟨id, time⟩ :: r.log name) else r.logs }

def tryPut (r : Repository) (name : String) (id : ObjectId) (time : Int) :
    Except Obstacle Repository :=
  match r.obstacle? name with
  | some o => .error o
  | none => .ok (r.put name id time)

def hold (r : Repository) (ids : List ObjectId) : Repository :=
  { r with held := ids.foldl (fun held id => if id ∈ held then held else held ++ [id]) r.held }

def baseDirectories : List Position :=
  [["hooks"], ["info"], ["objects", "info"], ["objects", "pack"], ["refs", "heads"], ["refs", "tags"]]

def looseFiles (r : Repository) : List Position :=
  [[headName]] ++ (r.fetchHead.map fun _ => [fetchHeadName]).toList
    ++ (if r.logs.isEmpty then [] else [["logs", headName]])
    ++ r.logs.names.map (fun name => "logs" :: Text.split '/' name)
    ++ r.refs.names.map (Text.split '/')

def isDirectory (r : Repository) (p : Position) : Bool :=
  (baseDirectories.any fun d => p.isPrefixOf d)
    || (r.looseFiles.any fun f => p.isPrefixOf f.dropLast)

def directoryAt? (r : Repository) : Position → List String → Option Position
  | p, [] => some p
  | p, name :: rest =>
    if name = "" ∨ name = "." then r.directoryAt? p rest
    else if name = ".." then
      if p = [] then none else r.directoryAt? p.dropLast rest
    else if r.isDirectory (p ++ [name]) then r.directoryAt? (p ++ [name]) rest
    else none

end Repository

end ApiDrift.Git
