import ApiDrift.Git.Checkout
/-! How directories with repositories come about: files written and staged, commits and tags. -/
namespace ApiDrift.Git.Workspace

open Files (Position)

def gitDirFor (w : Workspace) (place : Position) : Position :=
  (w.gitDirAt? place).getD (place ++ [".git"])

/-- A new repository without commits, or an old one with one more remote. -/
def init (w : Workspace) (place : Position) (bare : Bool) (origin : Option String) : Workspace :=
  let gitDir := if bare then place else place ++ [".git"]
  let w := { w with files := w.files.makeDirectory gitDir }
  let w := { w with files := w.files.write (gitDir ++ [headName]) (.text ("ref: " ++ branch ++ "\n")) }
  let r := (w.repositories.get? (Files.key gitDir)).getD { bare := bare }
  let r := match origin with
    | some path => { r with remotes := r.remotes.insert "origin" path }
    | none => r
  w.setRepository gitDir r

/-- Puts a file into an index. Files in its way leave it: those where it has directories, and
those in a directory where it is. -/
def stageEntry (index : Table ObjectId) (path : String) (blob : ObjectId) : Table ObjectId :=
  let inWay := index.names.filter fun other => RefName.isAbove other path || RefName.isAbove path other
  (inWay.foldl Table.erase index).insert path blob

def stage (w : Workspace) (place : Position) (path : String) (content : Content) : Workspace :=
  let gitDir := w.gitDirFor place
  let w := { w with files := w.files.write (place ++ Text.split '/' path) content }
  let (blob, w) := w.keep gitDir (.blob content)
  let r := w.repository gitDir
  w.setRepository gitDir { r with index := stageEntry r.index path blob }

def commitMessage : String := "commit"

def commit (w : Workspace) (place : Position) (time : Int) : Workspace :=
  let gitDir := w.gitDirFor place
  let (tree, w) := w.keep gitDir (.tree (w.repository gitDir).index.entries)
  let parent := (w.repository gitDir).refs.get? branch
  let (commit, w) := w.keep gitDir
    (.commit { tree, parent, time, author := "", message := commitMessage })
  w.setRepository gitDir ((w.repository gitDir).put branch commit time)

def setTag (w : Workspace) (gitDir : Position) (name : String) (id : ObjectId) : Workspace :=
  let r := w.repository gitDir
  w.setRepository gitDir { r with refs := r.refs.insert (tagsHeading ++ name) id }

def lightTag (w : Workspace) (place : Position) (name revision : String) : Workspace :=
  let gitDir := w.gitDirFor place
  match Revision.eval? w.store (w.repository gitDir) revision with
  | none => w
  | some o =>
    let (id, w) := w.keep gitDir o
    w.setTag gitDir name id

def annotatedTag (w : Workspace) (place : Position) (name revision : String) (time : Option Int) :
    Workspace :=
  let gitDir := w.gitDirFor place
  match Revision.eval? w.store (w.repository gitDir) revision with
  | none => w
  | some o =>
    let (target, w) := w.keep gitDir o
    let (id, w) := w.keep gitDir (.tag name target time)
    w.setTag gitDir name id

def withTags (s : Store) (source target : Repository) : Repository :=
  let tags := source.refs.entries.filter fun e => isBelow tagsHeading e.1
  let target := target.hold (tags.flatMap fun e => s.reach e.2)
  { target with refs := tags.foldl (fun refs e => refs.insert e.1 e.2) target.refs }

def origin? (w : Workspace) (gitDir : Position) : Option Position := do
  let place ← w.directory? (← (w.repository gitDir).remotes.get? "origin")
  w.gitDirAt? place

def pushTags (w : Workspace) (place : Position) : Workspace :=
  let gitDir := w.gitDirFor place
  match w.origin? gitDir with
  | none => w
  | some origin =>
    w.setRepository origin (withTags w.store (w.repository gitDir) (w.repository origin))

def tagsArea : String := "tags"

def fetchTags (w : Workspace) (place : Position) : Workspace :=
  let gitDir := w.gitDirFor place
  match w.origin? gitDir with
  | none => w
  | some origin =>
    let f := fetched w.store (w.repository gitDir) (w.repository origin) tagsArea w.now
    w.setRepository gitDir (f.conclude "origin" tagsArea w.now)

end ApiDrift.Git.Workspace
