import ApiDrift.Content
import ApiDrift.Text.Digits
/-! The objects of repositories. Equal objects are one object, in whatever repository they are. -/
namespace ApiDrift.Git

/-- Objects are numbered in the order in which they are first stored. -/
abbrev ObjectId := Nat

def idText (id : ObjectId) : String := Text.padded 10 40 id

/-- Files of a tree by path, in ascending order. The notes about objects are kept like files,
each under the id of what it is about. -/
abbrev Listing := List (String × ObjectId)

def Listing.insertNote (files : Listing) (target : String) (note : ObjectId) : Listing :=
  match files with
  | [] => [(target, note)]
  | f :: rest =>
    if f.1 = target then (target, note) :: rest
    else if target < f.1 then (target, note) :: f :: rest
    else f :: Listing.insertNote rest target note

structure Commit where
  tree : ObjectId
  parent : Option ObjectId
  time : Int
  /-- Who made it: repositories have authors of their own for the notes that they add. -/
  author : String
  message : String
deriving DecidableEq, Repr

inductive Object where
  | blob (content : Content)
  | tree (files : Listing)
  | commit (c : Commit)
  /-- An annotated tag. The time is that of its tagger, if it has one. -/
  | tag (name : String) (target : ObjectId) (time : Option Int)
deriving DecidableEq, Repr

structure Store where
  objects : List Object := []

namespace Store

def find? (s : Store) (id : ObjectId) : Option Object := s.objects[id]?

def idOf? (s : Store) (o : Object) : Option ObjectId := s.objects.findIdx? (· == o)

def intern (s : Store) (o : Object) : ObjectId × Store :=
  match s.idOf? o with
  | some id => (id, s)
  | none => (s.objects.length, ⟨s.objects ++ [o]⟩)

def untagWithin (s : Store) : Nat → ObjectId → ObjectId
  | 0, id => id
  | n + 1, id =>
    match s.find? id with
    | some (.tag _ target _) => untagWithin s n target
    | _ => id

/-- What a tag is about in the end. A tag is younger than what it is about, so its number bounds
the number of tags on the way. -/
def untag (s : Store) (id : ObjectId) : ObjectId := s.untagWithin id id

def commit? (s : Store) (id : ObjectId) : Option Commit :=
  match s.find? id with
  | some (.commit c) => some c
  | _ => none

def commitTime? (s : Store) (id : ObjectId) : Option Int := (s.commit? (s.untag id)).map Commit.time

def treeFiles? (s : Store) (id : ObjectId) : Option Listing :=
  match s.find? id with
  | some (.tree files) => some files
  | _ => none

def files? (s : Store) (id : ObjectId) : Option Listing :=
  match s.commit? (s.untag id) with
  | some c => s.treeFiles? c.tree
  | none => s.treeFiles? (s.untag id)

def content? (s : Store) (id : ObjectId) : Option Content :=
  match s.find? id with
  | some (.blob content) => some content
  | _ => none

def isTag (s : Store) (id : ObjectId) : Bool :=
  match s.find? id with
  | some (.tag _ _ _) => true
  | _ => false

def ancestryWithin (s : Store) : Nat → ObjectId → List ObjectId
  | 0, _ => []
  | n + 1, id =>
    match s.commit? id with
    | none => []
    | some c => id :: (c.parent.map (ancestryWithin s n)).getD []

/-- A commit and all those before it, the latest first. A commit is younger than its parent, so
its number bounds theirs. What is no commit has none. -/
def ancestry (s : Store) (id : ObjectId) : List ObjectId := s.ancestryWithin (id + 1) id

def reachWithin (s : Store) : Nat → ObjectId → List ObjectId
  | 0, _ => []
  | n + 1, id =>
    match s.find? id with
    | none => []
    | some (.blob _) => [id]
    | some (.tree files) => id :: files.map Prod.snd
    | some (.tag _ target _) => id :: reachWithin s n target
    | some (.commit c) =>
      id :: (reachWithin s n c.tree ++ (c.parent.map (reachWithin s n)).getD [])

def reach (s : Store) (id : ObjectId) : List ObjectId := s.reachWithin (id + 1) id

/-- Why an object is not about one of another kind. A tag is found out only on the way. -/
def peelFault (s : Store) (id : ObjectId) (kind : String) (number : Nat) : String :=
  let reason := if s.isTag id then "code=Peel (-19)" else "code=InvalidSpec (-12)"
  "the git_object of id '" ++ idText id ++ "' can not be successfully peeled into a " ++ kind
    ++ s!" (git_object_t={number}).; class=Object (11); " ++ reason

end Store

end ApiDrift.Git
