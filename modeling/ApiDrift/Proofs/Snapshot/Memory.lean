import ApiDrift.Proofs.Snapshot.Action
import ApiDrift.Proofs.Snapshot.Notes
import ApiDrift.Snapshot.Check
/-! What the operations on snapshots do to a repository in memory, each as one equation. -/
namespace ApiDrift.Snapshot

namespace Memory

theorem length_contentId (content : String) : (contentId content).length = 16 :=
  Text.length_padded ((Nat.length_toDigits_le_iff (by decide) (by decide)).2 (UInt64.toNat_lt _))

example : contentId "<node/>" = "174f3f44819d0c9b" := by decide +kernel

/-- The text at a path in a release. -/
def tagText (m : Memory) (tag path : String) : Option String :=
  (m.tags.get? tag).bind fun t => t.files.get? path

/-- The text of the tracked file that a name refers to. -/
def workText (m : Memory) (name : String) : Option String :=
  (matchTracked m.workTree.names name).bind m.workTree.get?

/-- The repository with one more note. -/
def noted (m : Memory) (notesRef target content : String) : Memory :=
  { m with notes := m.notes.add notesRef target content }

/-- The repository after its remote was given the notes under some refs. -/
def pushed (m : Memory) (remote : String) (refs : List String) : Memory :=
  { m with remote := mergeRefs m.notes m.remote refs, pushes := m.pushes ++ [(remote, refs)] }

/-- The repository after it was given the notes of an area at its remote. -/
def fetched (m : Memory) (area : String) : Memory :=
  { m with notes := mergeRefs m.remote m.notes (m.remote.refs area) }

end Memory

variable (m : Memory)

theorem run_resolveOrFail (reference : String) :
    (resolveOrFail reference).run m = match m.resolve reference with
      | some target => (.ok target, m)
      | none => (.error (.invalidRef reference), m) := by
  rw [resolveOrFail, Action.run_look_bind]
  show (match m.resolve reference with
    | some target => pure target
    | none => throw (.invalidRef reference) : Action Memory String).run m = _
  cases m.resolve reference with
  | none => rfl
  | some target => rfl

theorem run_hasNote (config : Config) (target path : String) :
    (hasNote config target path).run m =
      (.ok (m.notes.find? (config.notesRef (Text.basename path)) target).isSome, m) := by
  let found (m : Memory) := m.notes.find? (config.notesRef (Text.basename path)) target
  refine (Action.run_consult_bind (fun m => (found m).map Memory.blob) _ m).trans ?_
  rw [Option.isSome_map]
  rfl

theorem run_addNote (notesRef target content : String) :
    (Backend.addNote notesRef target content).run m =
      if (m.notes.find? notesRef target).isSome then (.error (.noteExists target notesRef), m)
      else (.ok (Memory.contentId content), m.noted notesRef target content) := by
  show (Memory.addNote notesRef target content).run m = _
  refine (Action.run_look_bind id _ m).trans ?_
  unfold id
  split
  · rfl
  · rfl

theorem run_addNote_of_absent {notesRef target : String}
    (absent : ¬(m.notes.find? notesRef target).isSome) (content : String) :
    (Backend.addNote notesRef target content).run m =
      (.ok (Memory.contentId content), m.noted notesRef target content) := by
  rw [run_addNote, if_neg absent]

theorem run_installFile (config : Config) (tag target path : String) :
    (installFile config tag target path).run m =
      let notesRef := config.notesRef (Text.basename path)
      if (m.notes.find? notesRef target).isSome then (.ok none, m)
      else match m.tagText tag path with
        | some s =>
          (.ok (some ⟨tag, path, notesRef, Memory.contentId s⟩), m.noted notesRef target s)
        | none => (.ok none, m) := by
  rw [installFile, Action.run_bind_of_ok (run_hasNote m config target path)]
  dsimp only
  split
  · rfl
  · next fresh =>
    refine (Action.run_consult_bind (fun m => (m.tagText tag path).map Memory.blob) _ m).trans ?_
    cases m.tagText tag path with
    | none => rfl
    | some s =>
        exact Action.run_bind_of_ok (Action.run_bind_of_ok (run_addNote_of_absent m fresh s))

theorem workingFile_eq (name : String) : m.workingFile name = (m.workText name).map .text := by
  unfold Memory.workingFile Memory.workText
  cases matchTracked m.workTree.names name with
  | none => rfl
  | some path => rfl

theorem run_releaseContent (tag path : String) :
    (releaseContent tag path).run m = match (m.tagText tag path).or (m.workText path) with
      | some s => (.ok (.text s), m)
      | none => (.error (.missingFile tag path), m) := by
  refine (Action.run_consult_bind (fun m => (m.tagText tag path).map Memory.blob) _ m).trans ?_
  cases m.tagText tag path with
  | some s => rfl
  | none =>
      refine (Action.run_consult_bind (fun m => m.workingFile path) _ m).trans ?_
      rw [workingFile_eq, Option.none_or]
      cases m.workText path with
      | none => rfl
      | some s => rfl

theorem run_distFile (config : Config) (ignoreExisting : Bool) (tag target path : String) :
    (distFile config ignoreExisting tag target path).run m =
      let notesRef := config.notesRef (Text.basename path)
      if (m.notes.find? notesRef target).isSome then
        if ignoreExisting then (.ok (.ignored path), m) else (.error (.noteExists tag path), m)
      else match (m.tagText tag path).or (m.workText path) with
        | some s =>
          (.ok (.added ⟨tag, path, notesRef, Memory.contentId s⟩), m.noted notesRef target s)
        | none => (.error (.missingFile tag path), m) := by
  rw [distFile, Action.run_bind_of_ok (run_hasNote m config target path)]
  dsimp only
  split
  · split
    · rfl
    · rfl
  · next fresh =>
    rw [Action.run_bind, run_releaseContent]
    cases (m.tagText tag path).or (m.workText path) with
    | none => rfl
    | some s =>
        exact Action.run_bind_of_ok (Action.run_bind_of_ok (run_addNote_of_absent m fresh s))

theorem run_reach (remote : String) :
    (Memory.reach remote).run m =
      if m.remoteFails then (.error (.remoteSync remote "remote unavailable"), m)
      else (.ok (), m) := by
  refine (Action.run_look_bind id _ m).trans ?_
  unfold id
  split
  · rfl
  · rfl

/-- What is done at the remote is done if the remote can be reached. -/
theorem run_reach_modify (remote : String) (f : Memory → Memory) :
    (Memory.reach remote >>= fun _ => modify f).run m =
      if m.remoteFails then (.error (.remoteSync remote "remote unavailable"), m)
      else (.ok (), f m) := by
  rw [Action.run_bind, run_reach]
  cases m.remoteFails with
  | true => rfl
  | false => rfl

theorem run_push (remote : String) (refs : List String) :
    (Backend.push remote refs).run m =
      if m.remoteFails then (.error (.remoteSync remote "remote unavailable"), m)
      else (.ok (), m.pushed remote refs) :=
  run_reach_modify m remote fun m => m.pushed remote refs

theorem run_fetch (remote area : String) :
    (Backend.fetch remote area).run m =
      if m.remoteFails then (.error (.remoteSync remote "remote unavailable"), m)
      else (.ok (), m.fetched area) :=
  run_reach_modify m remote fun m => m.fetched area

theorem run_publish (config : Config) :
    (publish config).run m = match m.notes.refs config.area with
      | [] => (.ok none, m)
      | r :: rest =>
        if config.push then
          if m.remoteFails then (.error (.remoteSync config.remote "remote unavailable"), m)
          else (.ok (some (.pushed config.remote (r :: rest))), m.pushed config.remote (r :: rest))
        else (.ok (some (.skipped config.pushCommand)), m) := by
  refine (Action.run_look_bind (fun m : Memory => m.notes.refs config.area) _ m).trans ?_
  cases m.notes.refs config.area with
  | nil => rfl
  | cons r rest =>
      dsimp only
      split
      · rw [Action.run_bind, run_push]
        cases m.remoteFails with
        | true => rfl
        | false => rfl
      · rfl

theorem run_fetchNotes (config : Config) :
    (fetchNotes config).run m =
      if m.remoteFails then
        (.ok (some (Failure.remoteSync config.remote "remote unavailable").message), m)
      else (.ok none, m.fetched config.area) := by
  have attempted : (Action.attempt (Backend.fetch config.remote config.area)).run m =
      (.ok ((Backend.fetch config.remote config.area).run m).1,
        ((Backend.fetch config.remote config.area).run m).2) := rfl
  rw [fetchNotes, Action.run_bind_of_ok attempted, run_fetch]
  cases m.remoteFails with
  | true => rfl
  | false => rfl

theorem recorded_eq (config : Config) (file target : String) :
    recorded config m file target =
      .ok ((m.notes.find? (config.notesRef file) target).map .text) := by
  show Except.ok (((m.notes.find? _ _).map Memory.blob).map _) = _
  rw [Option.map_map]
  rfl

theorem checkFile_eq (config : Config) (policy : Policy) (target : String)
    (newTarget : Option String) (file : String) :
    checkFile config policy target newTarget m file = .ok (reportFile policy file
      ((m.notes.find? (config.notesRef file) target).map .text)
      ((newTarget.elim (m.workText file) (m.notes.find? (config.notesRef file))).map .text)) := by
  unfold checkFile
  rw [recorded_eq]
  cases newTarget with
  | none =>
      show Except.ok (reportFile policy file _ (m.workingFile file)) = _
      rw [workingFile_eq]
      rfl
  | some new =>
      dsimp only
      rw [recorded_eq]
      rfl

theorem run_check_latest {config : Config} {policy : Policy} {n : Memory} {e : Option String}
    {tag target : String} (fetched : (fetchNotes config).run m = (.ok e, n))
    (latest : n.latestTag = some tag) (resolved : n.resolve tag = some target) :
    (check config { policy }).run m =
      (.ok { oldRef := some tag, fetchError := e,
             files := (checkedFiles config [] n).map fun file => reportFile policy file
               ((n.notes.find? (config.notesRef file) target).map .text)
               ((n.workText file).map .text) }, n) := by
  have files : (checkedFiles config [] n).mapM (checkFile config policy target none n) =
      .ok ((checkedFiles config [] n).map fun file => reportFile policy file
        ((n.notes.find? (config.notesRef file) target).map .text)
        ((n.workText file).map .text)) := by
    rw [funext (checkFile_eq n config policy target none)]
    exact List.mapM_pure
  unfold check
  refine (Action.run_bind_of_ok fetched).trans ?_
  refine (Action.run_look_bind (fun m : Memory => m.latestTag) _ n).trans ?_
  have named := run_resolveOrFail n tag
  rw [resolved] at named
  rw [latest]
  refine (Action.run_bind_of_ok named).trans ?_
  exact Action.run_bind_of_ok (Action.run_consult_of_ok files)

end ApiDrift.Snapshot
