import ApiDrift.CommandLine.Date
import ApiDrift.CommandLine.Documents
import ApiDrift.Git.Checkout
import ApiDrift.Snapshot.List
/-! The commands that record and check snapshots in a repository. -/
namespace ApiDrift.CommandLine

open Files (Position)
open Snapshot (Failure Action PushOutcome InstallReport DistReport FileReport CheckReport ListEntry)
open Git (Workspace Checkout)

def failureReport (context : String) (e : Failure) : Report :=
  ⟨context, e.message :: e.reason?.toList⟩

def pushLines : Option PushOutcome → List String
  | some (.skipped command) =>
    ["Run this command to push the API signature database:", "   " ++ command]
  | _ => []

def installLines (r : InstallReport) : List String :=
  r.added.map Snapshot.Recorded.render ++ r.unchanged.map (· ++ ": Nothing to do")

def distLines (r : DistReport) : List String :=
  r.added.map Snapshot.Recorded.render
    ++ r.ignored.map fun file => r.tag ++ ": Ignored XML file ‘" ++ file ++ "’; already has a note"

/-- Opens the repository and works on it. What was recorded before a failure stays. -/
def withCheckout {α : Type} (w : Workspace) (cwd : Position) (git : GitOptions) (context : String)
    (work : Action Checkout α) (print : α → Output) : Output × Workspace :=
  match w.openCheckout cwd git.location with
  | .error e => (.failed (failureReport "Failed to open git repository" e) "", w)
  | .ok checkout =>
    match work.run checkout with
    | (.ok result, checkout) => (print result, checkout.workspace)
    | (.error e, checkout) => (.failed (failureReport context e) "", checkout.workspace)

def recordOutput (git : GitOptions) (done : List String) (push : Option PushOutcome) : Output :=
  .passed true (lines ((if git.silent then [] else done) ++ pushLines push)) ""

def runInstall (w : Workspace) (cwd : Position) (git : GitOptions) (files : List String) :
    Output × Workspace :=
  withCheckout w cwd git "Failed to install API signatures" (Snapshot.install git.config files)
    fun r => recordOutput git (installLines r) r.push

def runDist (w : Workspace) (cwd : Position) (git : GitOptions) (files : List String)
    (ignoreExisting : Bool) : Output × Workspace :=
  withCheckout w cwd git "Failed to store API signatures"
    (Snapshot.dist git.config files ignoreExisting) fun r => recordOutput git (distLines r) r.push

def fileHeading (silent : Bool) (oldRef : String) (r : FileReport) : List String :=
  if silent then [" DIFF      " ++ r.file]
  else ("Comparing " ++ r.file) ::
    (if r.oldMissing then
      [r.file ++ ": No API signature stored for ‘" ++ oldRef ++ "’; comparing against an empty API"]
    else [])

def changeLines (r : FileReport) : List String :=
  match r.result with
  | .ok outcome => outcome.changes.map (changeLine r.file)
  | .error _ => []

def failureLines (r : FileReport) : List String :=
  match r.result with
  | .ok _ => []
  | .error ⟨side, e⟩ =>
    let problems := match e with
      | .structural diagnostics => diagnostics.map Diagnostic.render
      | _ => []
    problems ++ ["error: Failed to parse " ++ side.text ++ " API of ‘" ++ r.file ++ "’: " ++ e.message]

def checkOutput (git : GitOptions) (r : CheckReport) : Output :=
  match r.oldRef with
  | none =>
    .passed r.passed
      (lines (if git.silent then [] else ["No release tags; nothing to compare against."])) ""
  | some oldRef =>
    .passed r.passed
      (lines (r.files.flatMap fun f => fileHeading git.silent oldRef f ++ changeLines f))
      (lines (r.files.flatMap failureLines))

/-- Compares snapshots. Without a repository there is nothing to check, which is no failure. -/
def runCheck (w : Workspace) (cwd : Position) (git : GitOptions) (request : Snapshot.Request) :
    Output × Workspace :=
  let context := "Failed to check API"
  match w.openCheckout cwd git.location with
  | .error (.repositoryAbsent _) =>
    (.passed true "" (lines ["Could not find git repository. Skipping."]), w)
  | .error e => (.failed (failureReport context e) "", w)
  | .ok checkout =>
    match (Snapshot.check git.config request).run checkout with
    | (.ok report, checkout) => (checkOutput git report, checkout.workspace)
    | (.error e, checkout) => (.failed (failureReport context e) "", checkout.workspace)

def entryLine (e : ListEntry) : String :=
  String.intercalate "\t"
    [e.tag, (e.date.map fun t => (Date.ofSeconds t).render).getD "-", e.file, e.note.getD "-"]

def runList (w : Workspace) (cwd : Position) (git : GitOptions) (files : List String) :
    Output × Workspace :=
  withCheckout w cwd git "Failed to list API signatures"
    (Action.consult (Snapshot.list git.config files))
    fun entries => .passed true (lines (entries.map entryLine)) ""

def runVcs (w : Workspace) (cwd : Position) (git : GitOptions) :
    SnapshotCommand → Output × Workspace
  | .install files => runInstall w cwd git files
  | .dist files ignoreExisting => runDist w cwd git files ignoreExisting
  | .list files => runList w cwd git files
  | .check oldRef newRef files warnings =>
    match policyOf warnings with
    | .error report => (.failed report "", w)
    | .ok policy => runCheck w cwd git { oldRef, newRef, files, policy }

end ApiDrift.CommandLine
