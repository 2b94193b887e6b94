import ApiDrift.Content
import ApiDrift.Table
import ApiDrift.Text.Split
/-! Files below one directory, found by paths as a file system finds them. -/
namespace ApiDrift.Files

/-- A place in the tree, by the names from the top down. What lies outside begins with `..`. -/
abbrev Position := List String

inductive Fault where
  | notFound
  | notDirectory
  | isDirectory
  | nameTooLong
  | other (message : String)
deriving DecidableEq, Repr

namespace Fault

def text : Fault → String
  | notFound => "No such file or directory"
  | notDirectory => "Not a directory"
  | isDirectory => "Is a directory"
  | nameTooLong => "File name too long"
  | other m => m

def message : Fault → String
  | notFound => notFound.text ++ " (os error 2)"
  | notDirectory => notDirectory.text ++ " (os error 20)"
  | isDirectory => isDirectory.text ++ " (os error 21)"
  | nameTooLong => nameTooLong.text ++ " (os error 36)"
  | other m => m

end Fault

inductive Entry where
  | file (content : Content)
  | directory
deriving DecidableEq, Repr

structure Tree where
  entries : Table Entry := .empty

def key (p : Position) : String := String.intercalate "/" p

namespace Tree

/-- The top and the directories above it always exist, and nothing is known beside them. -/
def entry? (t : Tree) (p : Position) : Option Entry :=
  if p.all (· == "..") then some .directory else t.entries.get? (key p)

def put (t : Tree) (p : Position) (e : Entry) : Tree := ⟨t.entries.insert (key p) e⟩

/-- Makes the directories in which a place lies, the first of which lies in `above`. -/
def makeParents (t : Tree) (above : Position) : Position → Tree
  | [] => t
  | [_] => t
  | name :: rest => makeParents (t.put (above ++ [name]) .directory) (above ++ [name]) rest

def makeDirectory (t : Tree) (p : Position) : Tree := (t.makeParents [] p).put p .directory

def write (t : Tree) (p : Position) (c : Content) : Tree := (t.makeParents [] p).put p (.file c)

def remove (t : Tree) (p : Position) : Tree := ⟨t.entries.erase (key p)⟩

def maxNameBytes : Nat := 255

def tooManyBytes : Nat := 4096

def step (t : Tree) (p : Position) (name : String) : Except Fault Position :=
  match t.entry? p with
  | none => .error .notFound
  | some (.file _) => .error .notDirectory
  | some .directory =>
    if name = "" ∨ name = "." then .ok p
    else if name = ".." then .ok (if p.all (· == "..") then p ++ [".."] else p.dropLast)
    else if maxNameBytes < name.utf8ByteSize then .error .nameTooLong
    else .ok (p ++ [name])

/-- The place that a path names, seen from a directory. Absolute paths lead outside. -/
def locate (t : Tree) (cwd : Position) (path : String) : Except Fault Position :=
  if tooManyBytes ≤ path.utf8ByteSize then .error .nameTooLong
  else match Text.split '/' path with
    | [] => .error .notFound
    | [""] => .error .notFound
    | "" :: rest => rest.foldlM t.step [".."]
    | parts => parts.foldlM t.step cwd

def find (t : Tree) (cwd : Position) (path : String) : Except Fault (Position × Entry) := do
  let p ← t.locate cwd path
  match t.entry? p with
  | none => .error .notFound
  | some e => pure (p, e)

def read (t : Tree) (cwd : Position) (path : String) : Except Fault Content := do
  match ← t.find cwd path with
  | (_, .file c) => pure c
  | (_, .directory) => .error .isDirectory

end Tree

end ApiDrift.Files
