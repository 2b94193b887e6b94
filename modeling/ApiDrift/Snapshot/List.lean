import ApiDrift.Snapshot.Check
/-! Which releases have snapshots of which files. -/
namespace ApiDrift.Snapshot

variable {σ : Type} [Backend σ]

structure DatedTag where
  date : Option Int
  tag : String
deriving DecidableEq, Repr

/-- Unknown times come before all others. -/
def earlier : Option Int → Option Int → Bool
  | none, some _ => true
  | some a, some b => a < b
  | _, none => false

def DatedTag.precedes (a b : DatedTag) : Bool :=
  earlier a.date b.date || (a.date == b.date && a.tag < b.tag)

/-- Puts a tag before the first one that precedes it. -/
def insertNewest (t : DatedTag) : List DatedTag → List DatedTag
  | [] => [t]
  | u :: rest => if u.precedes t then t :: u :: rest else u :: insertNewest t rest

def newestFirst (l : List DatedTag) : List DatedTag := l.foldr insertNewest []

structure ListEntry where
  tag : String
  date : Option Int
  file : String
  note : Option String
deriving DecidableEq, Repr

def dateTag (s : σ) (tag : String) : Except Failure DatedTag := do
  pure ⟨← Backend.tagTime s tag, tag⟩

def listTag (config : Config) (files : List String) (s : σ) (t : DatedTag) :
    Except Failure (List ListEntry) :=
  match Backend.resolve s t.tag with
  | none => .error (.invalidRef t.tag)
  | some target =>
    files.mapM fun file => do
      pure ⟨t.tag, t.date, file, (← Backend.note s (config.notesRef file) target).map Blob.id⟩

/-- The snapshots of all releases, the newest release first, of every file that has snapshots
or is asked for. -/
def list (config : Config) (files : List String) (s : σ) : Except Failure (List ListEntry) := do
  let names := checkedFiles config files s
  let tags ← (Backend.tags s).mapM (dateTag s)
  let entries ← (newestFirst tags).mapM (listTag config names s)
  pure entries.flatten

end ApiDrift.Snapshot
