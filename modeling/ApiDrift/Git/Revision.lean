import ApiDrift.Git.Moment
import ApiDrift.Git.Repository
import ApiDrift.Text.Pattern
/-! The objects that revisions name: refs in full or in short, where they stood before, commits
by their messages, and from there to parents, to what tags are about, and to the files of trees. -/
namespace ApiDrift.Git.Revision

/-! ### Refs -/

/-- What may be left out of a ref's name, in the order in which it is tried. -/
def fullNames (name : String) : List String :=
  [name, "refs/" ++ name, tagsHeading ++ name, branchesHeading ++ name, remotesHeading ++ name,
    remotesHeading ++ name ++ "/" ++ headName]

/-- The ref that a name is short for. An empty name is short for the branch. -/
def ref? (r : Repository) (name : String) : Option String :=
  let names := if name.isEmpty then [headName] else fullNames name
  names.find? fun n => RefName.isValid n && (r.target? n).isSome

/-- The id of the tree without files. Every repository has it. -/
def emptyTreeId : String := "4b825dc642cb6eb9a060e54bf8d69288fbee4904"

def named? (s : Store) (r : Repository) (name : String) : Option Object :=
  if name.toLower = emptyTreeId then some (.tree [])
  else if name.isEmpty then none
  else do s.find? (← r.target? (← ref? r name))

/-! ### Steps from object to object -/

def plain (s : Store) : Object → Option Object
  | .tag _ target _ => s.find? (s.untag target)
  | o => some o

def commit? (s : Store) (o : Object) : Option Commit := do
  match ← plain s o with
  | .commit c => some c
  | _ => none

def tree? (s : Store) (o : Object) : Option Listing := do
  match ← plain s o with
  | .tree files => some files
  | .commit c => s.treeFiles? c.tree
  | .blob _ => none
  | .tag _ _ _ => none

def isBlob : Object → Bool
  | .blob _ => true
  | _ => false

def isTag : Object → Bool
  | .tag _ _ _ => true
  | _ => false

def parent? (s : Store) (c : Commit) : Option Commit := do s.commit? (← c.parent)

def ancestor? (s : Store) : Nat → Commit → Option Commit
  | 0, c => some c
  | n + 1, c => (parent? s c).bind (ancestor? s n)

def history (s : Store) (c : Commit) : List Commit :=
  c :: ((c.parent.map s.ancestry).getD []).filterMap s.commit?

/-- The first of some commits with a message in which a pattern is found. Empty patterns are
found nowhere. -/
def search? (pattern : String) (commits : List Commit) : Option Commit :=
  if pattern.isEmpty then none
  else do
    let p ← Text.Pattern.ofText? pattern
    commits.find? fun c => p.occursIn c.message

def insertByTime (c : Commit) : List Commit → List Commit
  | [] => [c]
  | d :: rest => if d.time ≤ c.time then c :: d :: rest else d :: insertByTime c rest

def allCommits (s : Store) (r : Repository) : List Commit :=
  let ids := r.refs.values.flatMap fun id => s.ancestry (s.untag id)
  (ids.eraseDups.filterMap s.commit?).foldr insertByTime []

def peel? (s : Store) (kind : List Char) (o : Object) : Option Object :=
  match kind with
  | '/' :: pattern => do
    let c ← search? (String.ofList pattern) (history s (← commit? s o))
    pure (.commit c)
  | kind =>
    match String.ofList kind with
    | "" => plain s o
    | "commit" => (commit? s o).map .commit
    | "tree" => (tree? s o).map .tree
    | "blob" => (plain s o).filter isBlob
    | "tag" => (some o).filter isTag
    | _ => none

def filesIn (files : Listing) (directory : String) : Listing :=
  files.filterMap fun f => (Text.after? (directory ++ "/") f.1).map fun rest => (rest, f.2)

/-- What is at a path of a tree: a file, or the tree of a directory. A directory may have a slash
after it. -/
def atPath? (s : Store) (files : Listing) : List String → Option Object
  | [] => none
  | name :: rest =>
    if name = "" then none
    else match rest, files.lookup name, filesIn files name with
      | [], some id, _ => s.find? id
      | _, some _, _ => none
      | _, none, [] => none
      | [], none, below => some (.tree below)
      | [""], none, below => some (.tree below)
      | rest, none, below => atPath? s below rest

/-! ### Logs of refs -/

/-- The greatest number of entries to go back. Greater numbers are seconds. -/
def maxBack : Nat := 100000000

def stoodAt? (r : Repository) (name : String) (n : Nat) : Option ObjectId :=
  let log := r.log name
  if n = 0 then r.target? name
  else if n ≤ maxBack then (log[n]?).map LogEntry.target
  else ((log.find? fun e => e.time ≤ Int.ofNat n).or log.getLast?).map LogEntry.target

def maxNumber : Nat := 0x7FFFFFFF

def number? (l : List Char) : Option Int :=
  let value (digits : List Char) : Option Int :=
    ((Moment.digits? digits).filter (· ≤ maxNumber)).map Int.ofNat
  match l.dropWhile Text.CharClass.space with
  | '-' :: digits => (value digits).map (- ·)
  | '+' :: digits => value digits
  | digits => value digits

/-- What `@` with a text in braces says about a ref. Branches that were left before, and those
that follow others, are not known. -/
def logged? (r : Repository) (name : String) (content : List Char) : Option ObjectId := do
  match number? content with
  | some n => if n < 0 || content.head? == some '-' then none else stoodAt? r (← ref? r name) n.toNat
  | none =>
    if content.head? = some '-' then none
    else match ← Moment.ofText? (String.ofList content) with
      | .seconds n => stoodAt? r (← ref? r name) n
      | .recent => ((r.log (← ref? r name)).head?).map LogEntry.target

/-! ### Revisions -/

def count (l : List Char) : Nat × List Char :=
  match l.span Char.isDigit with
  | ([], rest) => (1, rest)
  | (digits, rest) => (digits.foldl (fun n c => n * 10 + (c.toNat - '0'.toNat)) 0, rest)

def braced? (l : List Char) : Option (List Char × List Char) :=
  match l.span (· != '\x7d') with
  | (content, _ :: rest) => some (content, rest)
  | _ => none

/-- Goes on from an object as the rest of a revision says, in at most so many steps. -/
def walk? (s : Store) : Nat → Object → List Char → Option Object
  | _, o, [] => some o
  | 0, _, _ => none
  | n + 1, o, c :: rest =>
    match c, rest with
    | ':', [] => (tree? s o).map .tree
    | ':', path => do atPath? s (← tree? s o) (Text.split '/' (String.ofList path))
    | '^', '\x7b' :: rest => do
      let (kind, rest) ← braced? rest
      walk? s n (← peel? s kind o) rest
    | '^', rest =>
      match count rest with
      | (0, rest) => do walk? s n (.commit (← commit? s o)) rest
      | (1, rest) => do walk? s n (.commit (← parent? s (← commit? s o))) rest
      | _ => none
    | '~', rest =>
      let (k, rest) := count rest
      if maxNumber < k then none
      else do walk? s n (.commit (← ancestor? s k (← commit? s o))) rest
    | _, _ => none

def splitName : List Char → List Char × List Char
  | [] => ([], [])
  | '@' :: '\x7b' :: rest => ([], '@' :: '\x7b' :: rest)
  | c :: rest =>
    if c == '^' || c == '~' || c == ':' then ([], c :: rest)
    else
      let (name, rest) := splitName rest
      (c :: name, rest)

def eval? (s : Store) (r : Repository) (revision : String) : Option Object := do
  if revision = "@" then s.find? (← r.target? headName)
  else
    let (name, rest) := splitName revision.toList
    match name, rest with
    | [], ':' :: '/' :: pattern =>
      return .commit (← search? (String.ofList pattern) (allCommits s r))
    | name, '@' :: '\x7b' :: rest => do
      let (content, rest) ← braced? rest
      walk? s rest.length (← s.find? (← logged? r (String.ofList name) content)) rest
    | name, rest => do walk? s rest.length (← named? s r (String.ofList name)) rest

end ApiDrift.Git.Revision
