import ApiDrift.Git.Area
import ApiDrift.Git.Workspace
import ApiDrift.Snapshot.Backend
/-! Refs published at remotes and brought in from there. Only the histories of refs decide: what
would be lost is never replaced. -/
namespace ApiDrift.Git

open Files (Position)
open Snapshot (Failure Action)

def isAhead (s : Store) (other tip : ObjectId) : Bool := other ∈ s.ancestry tip

/-! ### Publishing -/

/-- Why a ref cannot be published: the remote's history of it is not the end of ours. -/
def pushFault? (s : Store) (ours theirs : Repository) (name : String) : Option String := do
  let tip ← ours.refs.get? name
  let other ← theirs.refs.get? name
  if tip = other then none
  else if other ∉ ours.held then
    some ("cannot push because a reference that you are trying to update on the remote contains "
      ++ "commits that are not present locally.; class=Reference (4); code=NotFastForward (-11)")
  else if (s.commit? tip).isNone || (s.commit? other).isNone then
    some "object is no commit object; class=Invalid (3)"
  else if isAhead s other tip then none
  else some "cannot push non-fastforwardable reference; class=Reference (4); code=NotFastForward (-11)"

def specFault? (name : String) : Option String :=
  if RefName.isValid name then none
  else some ("invalid refspec " ++ name ++ ":" ++ name ++ "; class=Invalid (3)")

structure Received where
  repository : Repository
  refused : List (String × Obstacle) := []

def Received.add (ours : Repository) (now : Int) (r : Received) (name : String) : Received :=
  match ours.refs.get? name with
  | none => r
  | some tip =>
    match r.repository.tryPut name tip now with
    | .error o => { r with refused := r.refused ++ [(name, o)] }
    | .ok theirs => { r with repository := theirs }

def trackingName? (remote name : String) : Option String :=
  (Text.after? branchesHeading name).map fun rest => remotesHeading ++ remote ++ "/" ++ rest

def track (remote : String) (now : Int) (r : Repository) (ref : String × ObjectId) : Repository :=
  match trackingName? remote ref.1 with
  | none => r
  | some name => ((r.tryPut name ref.2 now).toOption).getD r

/-! ### Bringing in -/

structure Fetched where
  repository : Repository
  heads : List (String × ObjectId) := []
  obstacle : Option (String × Obstacle) := none

def Fetched.put (f : Fetched) (ref : String × ObjectId) (now : Int) : Fetched :=
  match f.repository.tryPut ref.1 ref.2 now with
  | .error o => { f with obstacle := some (ref.1, o) }
  | .ok r => { f with repository := r }

/-- A tag is brought in if it is new and its object is here. -/
def Fetched.follow (f : Fetched) (ref : String × ObjectId) (now : Int) : Fetched :=
  if ref.2 ∉ f.repository.held || f.repository.refs.contains ref.1 then f
  else { f with heads := f.heads ++ [ref] }.put ref now

/-- A ref that was asked for is brought in, unless it would lose what is only here. -/
def Fetched.forward (s : Store) (f : Fetched) (ref : String × ObjectId) (now : Int) : Fetched :=
  let f := { f with heads := f.heads ++ [ref] }
  match f.repository.refs.get? ref.1 with
  | none => f.put ref now
  | some tip => if isAhead s tip ref.2 then f.put ref now else f

def Fetched.add (s : Store) (area : String) (now : Int) (f : Fetched) (ref : String × ObjectId) :
    Fetched :=
  if f.obstacle.isSome then f
  else if isBelow tagsHeading ref.1 then f.follow ref now
  else if isBelow (Snapshot.heading area) ref.1 then f.forward s ref now
  else f

/-- Whether a ref counts as the one that was fetched: it is in the area. Where branches are
fetched, tags that came along count too. -/
def countsAsHead (area name : String) : Bool :=
  isBelow (Snapshot.heading area) name || Snapshot.heading area == branchesHeading

/-- Brings in the refs of an area from a remote. When any of them is new, all objects of the
remote come with it, and tags follow their objects. -/
def fetched (s : Store) (ours theirs : Repository) (area : String) (now : Int) : Fetched :=
  let wanted := theirs.refs.entries.filter fun e => isBelow (Snapshot.heading area) e.1
  let ours :=
    if wanted.all fun ref => ref.2 ∈ ours.held then ours
    else ours.hold (theirs.refs.values.flatMap s.reach)
  theirs.refs.entries.foldl (Fetched.add s area now) { repository := { ours with fetchHead := none } }

def Fetched.conclude (f : Fetched) (remote area : String) (now : Int) : Repository :=
  let heads := f.heads.filter fun ref => countsAsHead area ref.1
  let branches := heads.filter fun ref => isBelow branchesHeading ref.1
  branches.foldl (track remote now) { f.repository with fetchHead := (heads.head?).map Prod.snd }

namespace Checkout

def store (c : Checkout) : Store := c.workspace.store

def repository (c : Checkout) : Repository := c.workspace.repository c.gitDir

def remote (c : Checkout) (name : String) : Except Failure Position :=
  let fault (m : String) : Except Failure Position := .error (.remoteSync name m)
  if name.isEmpty || !RefName.isValid (remotesHeading ++ name ++ "/test") then
    fault ("'" ++ name ++ "' is not a valid remote name.; class=Config (7); code=InvalidSpec (-12)")
  else match c.repository.remotes.get? name with
    | none => fault ("remote '" ++ name ++ "' does not exist; class=Config (7); code=NotFound (-3)")
    | some path =>
      match c.workspace.directory? path with
      | none => fault "unsupported URL protocol; class=Net (12)"
      | some place =>
        match c.workspace.gitDirAt? place with
        | some gitDir => .ok gitDir
        | none =>
          fault ("could not find repository at '" ++ c.workspace.name ++ "/" ++ path
            ++ "'; class=Repository (6)")

def refusal (gitDir : String) (refused : List (String × Obstacle)) : String :=
  "rejected " ++ String.intercalate ", "
    (refused.map fun (name, o) => name ++ " (" ++ (o.text name gitDir).1 ++ ")")

/-- Publishes refs. None is published if the history of any of them forbids it. -/
def push (remote : String) (refs : List String) : Action Checkout Unit := do
  let c ← get
  let fault (m : String) : Action Checkout Unit := throw (.remoteSync remote m)
  match c.remote remote with
  | .error e => throw e
  | .ok place =>
    let w := c.workspace
    let theirs := w.repository place
    match (refs.findSome? specFault?).or (refs.findSome? (pushFault? c.store c.repository theirs)) with
    | some m => fault m
    | none =>
      if !theirs.bare then
        fault ("local push doesn't (yet) support pushing to non-bare repos.; "
          ++ "class=Invalid (3); code=BareRepo (-8)")
      else
        let sent := refs.filterMap fun name => (c.repository.refs.get? name).map fun tip => (name, tip)
        let theirs := theirs.hold (sent.flatMap fun ref => c.store.reach ref.2)
        let received := refs.foldl (Received.add c.repository w.now) { repository := theirs }
        let accepted := sent.filter fun ref => (received.refused.lookup ref.1).isNone
        let w := w.setRepository place received.repository
        set { c with workspace :=
          w.setRepository c.gitDir (accepted.foldl (track remote w.now) (w.repository c.gitDir)) }
        if received.refused.isEmpty then pure ()
        else fault (refusal (w.pathText place) received.refused)

/-- Brings in the refs of an area. An area with wildcards in it, or that is no name, cannot be
asked for. -/
def fetch (remote area : String) : Action Checkout Unit := do
  let c ← get
  match c.remote remote with
  | .error e => throw e
  | .ok place =>
    let w := c.workspace
    let fault (m : String) : Action Checkout Unit := throw (.remoteSync remote m)
    let keep (r : Repository) : Action Checkout Unit :=
      set { c with workspace := w.setRepository c.gitDir r }
    let spec := Area.pattern area
    if RefName.isValid (Snapshot.heading area ++ "x") then
      let f := fetched c.store c.repository (w.repository place) area w.now
      match f.obstacle with
      | none => keep (f.conclude remote area w.now)
      | some (name, o) => do
        keep f.repository
        let (reason, kind) := o.text name (w.pathText c.gitDir)
        fault (reason ++ "; " ++ kind)
    else
      fault ("'" ++ spec ++ ":" ++ spec ++ "' is not a valid refspec.; class=Invalid (3); "
        ++ "code=InvalidSpec (-12)")

end Checkout

end ApiDrift.Git
