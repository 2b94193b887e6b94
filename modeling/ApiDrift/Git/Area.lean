import ApiDrift.Git.Repository
import ApiDrift.Snapshot.Config
import ApiDrift.Text.Glob
/-! The refs in an area, as a walk through the files of a git directory finds them. An area may
hold wildcards and whatever else a path may hold, and names come out as the area writes them. -/
namespace ApiDrift.Git.Area

def pattern (area : String) : String := Snapshot.heading area ++ "*"

/-- The directory in which the refs of a pattern lie: what stands before its first wildcard, up
to the last slash there. -/
def directory (pattern : String) : List Char :=
  let literal := pattern.toList.takeWhile fun c => !Text.Glob.isSpecial c
  (literal.reverse.dropWhile fun c => c != '/').reverse

def surplusSlashes (directory : List Char) : Nat :=
  (directory.reverse.takeWhile fun c => c == '/').length - 1

def below (directory : Files.Position) (files : List Files.Position) : List Files.Position :=
  files.filterMap fun f =>
    if directory.isPrefixOf f ∧ directory.length < f.length then some (f.drop directory.length)
    else none

def heads (l : List Files.Position) : List String := (l.filterMap List.head?).eraseDups

/-- The files that a walk finds below a directory, by what it takes them to be called. For every
surplus slash it loses a character of the names that are directly there. -/
def walk (surplus : Nat) (l : List Files.Position) : List String :=
  (heads l).flatMap fun name =>
    let cut := String.ofList (name.toList.drop surplus)
    let isFile := [name] ∈ l
    (l.filter fun f => f.head? = some cut ∧ isFile = (f.length == 1)).map Files.key

def insertName (name : String) : List String → List String
  | [] => [name]
  | other :: rest => if other < name then other :: insertName name rest else name :: other :: rest

def refs (r : Repository) (area : String) : List String :=
  let pattern := pattern area
  let directory := directory pattern
  let heading := String.ofList directory
  match r.directoryAt? [] (Text.split '/' heading) with
  | none => []
  | some place =>
    let names := (walk (surplusSlashes directory) (below place r.looseFiles)).map (heading ++ ·)
    (names.filter (Text.Glob.matchesText pattern)).foldr insertName []

end ApiDrift.Git.Area
