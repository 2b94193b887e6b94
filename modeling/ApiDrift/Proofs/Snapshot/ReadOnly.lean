import ApiDrift.Proofs.Snapshot.Checked
import ApiDrift.Proofs.Snapshot.Reconcile
/-! What a check does to a repository in memory: it brings in notes, where the remote can be reached
and the refs that were given exist, and changes nothing else. What it reports comes from the
repository as it is then, so that another check finds the same. -/
namespace ApiDrift.Snapshot

namespace Memory

/-- The repository once a check has tried to bring in notes. -/
def refreshed (m : Memory) (area : String) : Memory := if m.remoteFails then m else m.fetched area

/-- The first ref of a request that does not exist. -/
def unresolved? (m : Memory) (request : Request) : Option String :=
  (request.oldRef.toList ++ request.newRef.toList).find? fun r => (m.resolve r).isNone

/-- What is reported of a repository, where the new side is the snapshots of an object, or the work
tree if there is none. -/
def reportAgainst (m : Memory) (config : Config) (request : Request) (newTarget : Option String)
    (fetchError : Option String) : Except Failure CheckReport :=
  match request.oldRef.or m.latestTag with
  | none => .ok { fetchError }
  | some reference =>
    match m.resolve reference with
    | none => .error (.invalidRef reference)
    | some oldTarget =>
      .ok { oldRef := some reference, fetchError,
            files := (checkedFiles config request.files m).map fun file =>
              reportFile request.policy file
                ((m.notes.find? (config.notesRef file) oldTarget).map .text)
                ((newTarget.elim (m.workText file)
                  (m.notes.find? (config.notesRef file))).map .text) }

end Memory

/-- Why notes could not be brought in, if they could not. -/
def Memory.outage (m : Memory) (remote : String) : Option String :=
  if m.remoteFails then some (Failure.remoteSync remote "remote unavailable").message else none

variable (m : Memory) (config : Config) (request : Request)

theorem run_fetchNotes_eq :
    (fetchNotes config).run m = (.ok (m.outage config.remote), m.refreshed config.area) := by
  rw [run_fetchNotes, Memory.outage, Memory.refreshed]
  split
  · rfl
  · rfl

theorem run_checkAgainst (newTarget : Option String) :
    (checkAgainst config request newTarget).run m =
      ((m.refreshed config.area).reportAgainst config request newTarget (m.outage config.remote),
        m.refreshed config.area) := by
  refine (Action.run_bind_of_ok (run_fetchNotes_eq m config)).trans ?_
  refine (Action.run_look_bind (fun m : Memory => m.latestTag) _ _).trans ?_
  generalize m.refreshed config.area = n
  rw [Memory.reportAgainst]
  cases request.oldRef.or n.latestTag with
  | none => rfl
  | some reference =>
      have named := run_resolveOrFail n reference
      cases found : n.resolve reference with
      | none =>
          rw [found] at named
          dsimp only
          rw [Action.run_bind, named, found]
      | some oldTarget =>
          rw [found] at named
          refine (Action.run_bind_of_ok named).trans ?_
          have files : (checkedFiles config request.files n).mapM
              (checkFile config request.policy oldTarget newTarget n) =
                .ok ((checkedFiles config request.files n).map fun file =>
                  reportFile request.policy file
                    ((n.notes.find? (config.notesRef file) oldTarget).map .text)
                    ((newTarget.elim (n.workText file)
                      (n.notes.find? (config.notesRef file))).map .text)) := by
            rw [funext (checkFile_eq n config request.policy oldTarget newTarget)]
            exact List.mapM_pure
          dsimp only
          rw [found]
          exact Action.run_bind_of_ok (Action.run_consult_of_ok files)

theorem Action.run_discard_bind {σ α β : Type} (x : Action σ α) (f : Unit → Action σ β) (s : σ) :
    (discard x >>= f).run s = (x >>= fun _ => f ()).run s := by
  rw [show discard x = (do let _ ← x; pure ()) from rfl, run_bind, run_bind, run_bind]
  rcases x.run s with ⟨result, t⟩
  cases result with
  | ok a => rfl
  | error e => rfl

theorem run_resolveOrFail_bind {α : Type} (reference : String) (f : String → Action Memory α) :
    (resolveOrFail reference >>= f).run m = match m.resolve reference with
      | some target => (f target).run m
      | none => (.error (.invalidRef reference), m) := by
  rw [Action.run_bind, run_resolveOrFail]
  cases m.resolve reference with
  | none => rfl
  | some target => rfl

/-- A check on a repository in memory: it stops at a ref that does not exist, or else reports on
the repository that it has brought up to date. -/
theorem run_check : (check config request).run m = match m.unresolved? request with
    | some reference => (.error (.invalidRef reference), m)
    | none =>
      ((m.refreshed config.area).reportAgainst config request (request.newRef.bind m.resolve)
        (m.outage config.remote), m.refreshed config.area) := by
  have new : (do
      let newTarget ← match request.newRef with
        | some reference => do pure (some (← resolveOrFail reference))
        | none => pure none
      checkAgainst config request newTarget : Action Memory CheckReport).run m =
        match request.newRef.toList.find? fun r => (m.resolve r).isNone with
        | some reference => (.error (.invalidRef reference), m)
        | none =>
          ((m.refreshed config.area).reportAgainst config request (request.newRef.bind m.resolve)
            (m.outage config.remote), m.refreshed config.area) := by
    cases request.newRef with
    | none => exact run_checkAgainst m config request none
    | some reference =>
        refine (run_resolveOrFail_bind m reference _).trans ?_
        cases found : m.resolve reference with
        | none => simp [found]
        | some target =>
            refine (run_checkAgainst m config request (some target)).trans ?_
            simp [found]
  obtain ⟨oldRef, newRef, files, policy⟩ := request
  cases oldRef with
  | none => exact new
  | some reference =>
      refine (Action.run_discard_bind _ _ m).trans ((run_resolveOrFail_bind m reference _).trans ?_)
      rw [Memory.unresolved?]
      cases found : m.resolve reference with
      | none => simp [found]
      | some target =>
          refine new.trans ?_
          simp [found]

namespace Memory
variable (area : String)

theorem fetched_fetched : (m.fetched area).fetched area = m.fetched area := by
  have known : mergeRefs m.remote (m.fetched area).notes (m.remote.refs area) =
      (m.fetched area).notes := by
    refine Notes.mergeRefs_eq_self fun r listed target s found => ?_
    have inside : InArea area r := (Notes.mem_refs_iff.1 listed).1
    rw [fetched, Notes.find?_mergeRefs_refs, if_pos inside, found, Option.isSome_or,
      Option.isSome_some, Bool.or_true]
  exact congrArg (fun notes => { m with notes }) known

theorem refreshed_refreshed : (m.refreshed area).refreshed area = m.refreshed area := by
  rw [refreshed]
  split
  · rfl
  · next reachable =>
    have same : m.remoteFails = false := by
      rw [refreshed] at reachable
      split at reachable
      · next fails => exact absurd fails reachable
      · next reachable => exact Bool.not_eq_true _ ▸ reachable
    rw [refreshed, same]
    exact m.fetched_fetched area

theorem resolve_refreshed : (m.refreshed area).resolve = m.resolve := by
  rw [refreshed]
  split
  · rfl
  · rfl

theorem unresolved?_refreshed : (m.refreshed area).unresolved? request = m.unresolved? request := by
  rw [unresolved?, unresolved?, resolve_refreshed]

theorem outage_refreshed (remote : String) :
    (m.refreshed area).outage remote = m.outage remote := by
  rw [refreshed]
  split
  · rfl
  · rfl

end Memory

theorem run_check_again :
    (check config request).run ((check config request).run m).2 = (check config request).run m := by
  rw [run_check m]
  cases known : m.unresolved? request with
  | some reference => rw [run_check, known]
  | none =>
      dsimp only
      rw [run_check, m.unresolved?_refreshed, known, m.refreshed_refreshed, m.outage_refreshed,
        m.resolve_refreshed]

/-- What a check may do: nothing but add notes that the remote has in the area where there were
none. -/
structure Memory.Consulted (area : String) (m n : Memory) : Prop where
  tags : n.tags = m.tags
  refs : n.refs = m.refs
  workTree : n.workTree = m.workTree
  remote : n.remote = m.remote
  pushes : n.pushes = m.pushes
  remoteFails : n.remoteFails = m.remoteFails
  kept : ∀ r target s, m.notes.find? r target = some s → n.notes.find? r target = some s
  added : ∀ r target s, n.notes.find? r target = some s → m.notes.find? r target = none →
    InArea area r ∧ m.remote.find? r target = some s

theorem Memory.Consulted.refl (area : String) (m : Memory) : m.Consulted area m where
  tags := rfl
  refs := rfl
  workTree := rfl
  remote := rfl
  pushes := rfl
  remoteFails := rfl
  kept _ _ _ known := known
  added _ _ _ known fresh := nomatch fresh.symm.trans known

theorem Memory.consulted_fetched (area : String) (m : Memory) :
    m.Consulted area (m.fetched area) where
  tags := rfl
  refs := rfl
  workTree := rfl
  remote := rfl
  pushes := rfl
  remoteFails := rfl
  kept r target s known := by
    rw [Memory.fetched, Notes.find?_mergeRefs_refs, known, Option.some_or]
  added r target s known fresh := by
    rw [Memory.fetched, Notes.find?_mergeRefs_refs, fresh, Option.none_or] at known
    exact Option.ite_none_right_eq_some.1 known

theorem consulted_check : m.Consulted config.area ((check config request).run m).2 := by
  rw [run_check]
  split
  · exact .refl config.area m
  · rw [Memory.refreshed]
    split
    · exact .refl config.area m
    · exact m.consulted_fetched config.area

/-- The report without word of why notes could not be brought in. -/
def CheckReport.untold (r : CheckReport) : CheckReport := { r with fetchError := none }

/-- The same repository with an empty remote, which can be reached. -/
def Memory.deserted (m : Memory) : Memory := { m with remote := .empty, remoteFails := false }

theorem untold_reportAgainst (newTarget fetchError : Option String) :
    (m.reportAgainst config request newTarget fetchError).map CheckReport.untold =
      m.reportAgainst config request newTarget none := by
  unfold Memory.reportAgainst
  cases request.oldRef.or m.latestTag with
  | none => rfl
  | some reference =>
      dsimp only
      cases m.resolve reference with
      | none => rfl
      | some oldTarget => rfl

theorem untold_check (fails : m.remoteFails = true) :
    ((check config request).run m).1.map CheckReport.untold =
      ((check config request).run m.deserted).1.map CheckReport.untold := by
  have stays : m.refreshed config.area = m := if_pos fails
  have empty : m.deserted.refreshed config.area = m.deserted := rfl
  rw [run_check, run_check, show m.deserted.unresolved? request = m.unresolved? request from rfl]
  cases m.unresolved? request with
  | some reference => rfl
  | none =>
      dsimp only
      rw [stays, empty, untold_reportAgainst, untold_reportAgainst]
      rfl

theorem check_leaves (fresh : m.refreshed config.area = m) :
    ((check config request).run m).2 = m := by
  rw [run_check]
  cases m.unresolved? request with
  | some reference => rfl
  | none => exact fresh

theorem run_check_of_unresolved {reference : String} (absent : m.resolve reference = none)
    (given : request.oldRef = some reference ∨ request.newRef = some reference) :
    ∃ r, (check config request).run m = (.error (.invalidRef r), m) := by
  have unknown : (m.unresolved? request).isSome := by
    refine List.find?_isSome.2 ⟨reference, ?_, by rw [absent]; rfl⟩
    rw [List.mem_append, Option.mem_toList, Option.mem_toList]
    exact given
  obtain ⟨r, first⟩ := Option.isSome_iff_exists.1 unknown
  exact ⟨r, by rw [run_check, first]⟩

/-- A check changes nothing but that it brings in notes of its area, and not even that if a ref that
was given does not exist. Where the remote cannot be reached, the repository stays as it is, and the
report is the one that an empty remote leads to, apart from word of the failure. Another check gives
the same report and changes nothing. -/
theorem check_only_reads (config : Config) (request : Request) (m : Memory) :
    ∃ result n, (check config request).run m = (result, n) ∧ m.Consulted config.area n ∧
      (∀ reference, request.oldRef = some reference ∨ request.newRef = some reference →
        m.resolve reference = none → n = m ∧ ∃ r, result = .error (.invalidRef r)) ∧
      (m.remoteFails = true → n = m ∧ ∃ other,
        (check config request).run m.deserted = (other, m.deserted) ∧
        result.map CheckReport.untold = other.map CheckReport.untold) ∧
      (check config request).run n = (result, n) := by
  have consulted := consulted_check m config request
  have again := run_check_again m config request
  have untold := untold_check m config request
  have leaves := check_leaves m config request
  rcases run : (check config request).run m with ⟨result, n⟩
  rw [run] at consulted again untold leaves
  refine ⟨result, n, rfl, consulted, fun reference given absent => ?_, fun fails => ?_, again⟩
  · obtain ⟨r, stopped⟩ := run_check_of_unresolved m config request absent given
    obtain ⟨rfl, rfl⟩ := Prod.mk.inj (run.symm.trans stopped)
    exact ⟨rfl, r, rfl⟩
  · have empty : ((check config request).run m.deserted).2 = m.deserted :=
      check_leaves m.deserted config request rfl
    exact ⟨leaves (if_pos fails), _, Prod.ext rfl empty, untold fails⟩

/-- A release whose snapshot of a bell only the remote has. -/
def remoteBell (away : Bool) : Memory where
  tags := Table.ofList [("v1", ⟨0, .empty⟩)]
  workTree := Table.ofList [("api/bell.xml", "<node><interface name='o.Bell'/></node>")]
  remote := Notes.add .empty "refs/notes/dbus/api/bell.xml" "tag:v1"
    "<node><interface name='o.Bell'><method name='Ring'/></interface></node>"
  remoteFails := away

/-- The snapshot is brought in and compared once and again, a ref that does not exist prevents that,
and without the remote there is nothing to compare. -/
theorem remoteBell_consulted :
    (∃ report n, (check {} {}).run (remoteBell false) = (.ok report, n) ∧
      report.files.map FileReport.file = ["bell.xml"] ∧ report.passed = false ∧
      (remoteBell false).Consulted "notes/dbus/api" n ∧
      (check {} {}).run n = (.ok report, n)) ∧
    ((remoteBell false).resolve "v2" = none ∧ ∃ r,
      (check {} { newRef := some "v2" }).run (remoteBell false) =
        (.error (.invalidRef r), remoteBell false)) ∧
    ∃ report, (check {} {}).run (remoteBell true) = (.ok report, remoteBell true) ∧
      report.fetchError.isSome ∧ ∃ other, (check {} {}).run (remoteBell true).deserted =
        (.ok other, (remoteBell true).deserted) ∧ report.untold = other.untold := by
  have compared : ((check {} {}).run (remoteBell false)).1.toOption.map (fun r =>
      (r.files.map FileReport.file, r.passed)) = some (["bell.xml"], false) := by
    decide +kernel
  have told : ((check {} {}).run (remoteBell true)).1.toOption.map (fun r =>
      r.fetchError.isSome) = some true := by decide +kernel
  have absent : (remoteBell false).resolve "v2" = none := by decide +kernel
  refine ⟨?_, ⟨absent, ?_⟩, ?_⟩
  · obtain ⟨result, n, run, consulted, -, -, again⟩ := check_only_reads {} {} (remoteBell false)
    rw [run] at compared
    obtain ⟨report, rfl, reported⟩ := exists_of_toOption_map compared
    obtain ⟨files, failed⟩ := Prod.mk.inj reported
    exact ⟨report, n, run, files, failed, consulted, again⟩
  · obtain ⟨result, n, run, -, stopped, -⟩ :=
      check_only_reads {} { newRef := some "v2" } (remoteBell false)
    obtain ⟨rfl, r, rfl⟩ := stopped "v2" (.inr rfl) absent
    exact ⟨r, run⟩
  · obtain ⟨result, n, run, -, -, away, -⟩ := check_only_reads {} {} (remoteBell true)
    obtain ⟨rfl, other, elsewhere, same⟩ := away rfl
    rw [run] at told
    obtain ⟨report, rfl, failed⟩ := exists_of_toOption_map told
    cases other with
    | error e => exact nomatch same
    | ok other => exact ⟨report, run, failed, other, elsewhere, Except.ok.inj same⟩

end ApiDrift.Snapshot
