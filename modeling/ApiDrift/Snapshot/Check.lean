import ApiDrift.Policy
import ApiDrift.Snapshot.Record
/-! Recorded snapshots compared with each other or with the work tree. -/
namespace ApiDrift.Snapshot

variable {σ : Type} [Backend σ]

inductive Side where
  | old | new
deriving DecidableEq, Repr

def Side.text : Side → String
  | old => "old"
  | new => "new"

structure FileFailure where
  side : Side
  error : Introspection.ParseError
deriving DecidableEq, Repr

/-- One file compared. A side that is missing counts as an API without anything in it. -/
structure FileReport where
  file : String
  oldMissing : Bool
  newMissing : Bool
  result : Except FileFailure Outcome

def FileReport.passed (r : FileReport) : Bool :=
  match r.result with
  | .ok outcome => outcome.passed
  | .error _ => false

/-- What to compare. The old side is the latest release unless a ref is given, and the new side
is the work tree. -/
structure Request where
  oldRef : Option String := none
  newRef : Option String := none
  files : List String := []
  policy : Policy := {}

structure CheckReport where
  oldRef : Option String := none
  fetchError : Option String := none
  files : List FileReport := []

def CheckReport.passed (r : CheckReport) : Bool := r.files.all FileReport.passed

def addNames (names : List String) : List String → List String
  | [] => names
  | path :: rest =>
    let base := Text.basename path
    addNames (if base ∈ names then names else names ++ [base]) rest

def checkedFiles (config : Config) (files : List String) (s : σ) : List String :=
  addNames ((Backend.noteRefs s config.area).filterMap (Text.after? (heading config.area))) files

def load (file : String) (side : Side) : Option Content → Except FileFailure Node
  | none => .ok {}
  | some content =>
    match content.parse { file := some file } with
    | .ok parsed => .ok parsed.root
    | .error e => .error ⟨side, e⟩

/-- Compares the two sides of a file. The old side is read first. -/
def reportFile (policy : Policy) (file : String) (old new : Option Content) : FileReport where
  file := file
  oldMissing := old.isNone
  newMissing := new.isNone
  result := do
    let before ← load file .old old
    let after ← load file .new new
    pure (ApiDrift.check before after policy)

def recorded (config : Config) (s : σ) (file target : String) : Except Failure (Option Content) := do
  pure ((← Backend.note s (config.notesRef file) target).map Blob.content)

def checkFile (config : Config) (policy : Policy) (oldTarget : String) (newTarget : Option String)
    (s : σ) (file : String) : Except Failure FileReport := do
  let old ← recorded config s file oldTarget
  let new ← match newTarget with
    | some target => recorded config s file target
    | none => Backend.workingFile s file
  pure (reportFile policy file old new)

/-- Brings in the notes of others. A failure is only told. -/
def fetchNotes (config : Config) : Action σ (Option String) := do
  match ← Action.attempt (Backend.fetch config.remote config.area) with
  | .ok _ => pure none
  | .error e => pure (some e.message)

/-- Compares every file that has snapshots, or is asked for, between two refs. Refs that are given
must exist. Without any release there is nothing to compare with. -/
def check (config : Config) (request : Request) : Action σ CheckReport := do
  if let some reference := request.oldRef then discard (resolveOrFail reference)
  let newTarget ← match request.newRef with
    | some reference => do pure (some (← resolveOrFail reference))
    | none => pure none
  let fetchError ← fetchNotes config
  match request.oldRef.or (← Action.look Backend.latestTag) with
  | none => pure { fetchError }
  | some reference => do
    let oldTarget ← resolveOrFail reference
    let files ← Action.consult fun s =>
      (checkedFiles config request.files s).mapM
        (checkFile config request.policy oldTarget newTarget s)
    pure { oldRef := some reference, fetchError, files }

end ApiDrift.Snapshot
