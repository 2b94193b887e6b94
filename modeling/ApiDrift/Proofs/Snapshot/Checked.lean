import ApiDrift.Proofs.Except
import ApiDrift.Proofs.Snapshot.Action
import ApiDrift.Snapshot.Check
/-! How a check comes to its report, in any repository. -/
namespace ApiDrift.Snapshot
variable {σ α : Type}

theorem Action.run_consult_eq_ok {f : σ → Except Failure α} {s t : σ} {a : α} :
    (consult f).run s = (.ok a, t) ↔ f s = .ok a ∧ s = t := by
  unfold consult
  rw [show ∀ g : σ → Action σ α, (get >>= g).run s = (g s).run s from fun _ => rfl]
  cases f s with
  | ok b => exact run_pure_eq_ok.trans (and_congr_left' (Except.ok.injEq b a).symm.to_iff)
  | error e => exact ⟨fun failed => (nomatch failed), fun read => (nomatch read.1)⟩

theorem Action.run_discard_eq_ok {x : Action σ α} {s t : σ} {u : Unit} :
    (discard x).run s = (.ok u, t) ↔ ∃ a, x.run s = (.ok a, t) := by
  have same : discard x = (do let _ ← x; pure ()) := rfl
  rw [same, run_bind_eq_ok]
  constructor
  · rintro ⟨a, v, run, rest⟩
    obtain ⟨-, rfl⟩ := run_pure_eq_ok.1 rest
    exact ⟨a, run⟩
  · rintro ⟨a, run⟩
    exact ⟨a, t, run, rfl⟩

variable [Backend σ]

/-- A check that had an old side: what it compared, where notes had been brought in. -/
structure Checked (config : Config) (request : Request) (s t : σ) (report : CheckReport)
    (reference oldTarget : String) (newTarget : Option String) : Prop where
  fetched : (fetchNotes config).run s = (.ok report.fetchError, t)
  oldRef : report.oldRef = some reference
  old : Backend.resolve t reference = some oldTarget
  new : request.newRef.map (Backend.resolve s) = newTarget.map some
  files : (checkedFiles config request.files t).mapM
    (checkFile config request.policy oldTarget newTarget t) = .ok report.files

/-- The rest of a check, once the object of the new side is known. -/
def checkAgainst (config : Config) (request : Request) (newTarget : Option String) :
    Action σ CheckReport := do
  let fetchError ← fetchNotes config
  match request.oldRef.or (← Action.look Backend.latestTag) with
  | none => pure { fetchError }
  | some reference => do
    let oldTarget ← resolveOrFail reference
    let files ← Action.consult fun s =>
      (checkedFiles config request.files s).mapM
        (checkFile config request.policy oldTarget newTarget s)
    pure { oldRef := some reference, fetchError, files }

theorem checkAgainst_ok {config : Config} {request : Request} {s t : σ} {report : CheckReport}
    (newTarget : Option String)
    (new : request.newRef.map (Backend.resolve s) = newTarget.map some)
    (run : (checkAgainst config request newTarget).run s = (.ok report, t)) :
    (report.oldRef = none ∧ report.files = []) ∨ ∃ reference oldTarget newTarget,
      Checked config request s t report reference oldTarget newTarget := by
  obtain ⟨fetchError, u, fetched, run⟩ := Action.run_bind_eq_ok.1 run
  rw [Action.run_look_bind] at run
  generalize request.oldRef.or (Backend.latestTag u) = chosen at run
  cases chosen with
  | none =>
      obtain ⟨rfl, -⟩ := Action.run_pure_eq_ok.1 run
      exact .inl ⟨rfl, rfl⟩
  | some reference =>
      obtain ⟨oldTarget, v, old, run⟩ := Action.run_bind_eq_ok.1 run
      obtain ⟨resolved, rfl⟩ := run_resolveOrFail_eq_ok.1 old
      obtain ⟨reports, w, read, run⟩ := Action.run_bind_eq_ok.1 run
      obtain ⟨each, rfl⟩ := Action.run_consult_eq_ok.1 read
      obtain ⟨rfl, rfl⟩ := Action.run_pure_eq_ok.1 run
      exact .inr ⟨reference, oldTarget, newTarget, fetched, rfl, resolved, new, each⟩

/-- A check that gives a report either had nothing to compare with or compared every file. -/
theorem check_ok {config : Config} {request : Request} {s t : σ} {report : CheckReport}
    (run : (check config request).run s = (.ok report, t)) :
    (report.oldRef = none ∧ report.files = []) ∨
    ∃ reference oldTarget newTarget,
      Checked config request s t report reference oldTarget newTarget := by
  obtain ⟨oldRef, newRef, files, policy⟩ := request
  cases oldRef with
  | none =>
      cases newRef with
      | none => exact checkAgainst_ok none rfl run
      | some new =>
          obtain ⟨target, u, named, run⟩ := Action.run_bind_eq_ok.1 run
          obtain ⟨resolved, rfl⟩ := run_resolveOrFail_eq_ok.1 named
          exact checkAgainst_ok (some target) (congrArg some resolved) run
  | some old =>
      obtain ⟨_, u, known, run⟩ := Action.run_bind_eq_ok.1 run
      obtain ⟨target, named⟩ := Action.run_discard_eq_ok.1 known
      obtain ⟨-, rfl⟩ := run_resolveOrFail_eq_ok.1 named
      cases newRef with
      | none => exact checkAgainst_ok none rfl run
      | some new =>
          obtain ⟨target, u, named, run⟩ := Action.run_bind_eq_ok.1 run
          obtain ⟨resolved, rfl⟩ := run_resolveOrFail_eq_ok.1 named
          exact checkAgainst_ok (some target) (congrArg some resolved) run

theorem Checked.exists_contents {config : Config} {request : Request} {s t : σ}
    {report : CheckReport} {reference oldTarget : String} {newTarget : Option String}
    (h : Checked config request s t report reference oldTarget newTarget) :
    ∀ f ∈ report.files, ∃ old new, f = reportFile request.policy f.file old new := by
  intro f hf
  obtain ⟨file, -, compared⟩ := exists_of_mem_mapM_ok h.files f hf
  obtain ⟨old, -, compared⟩ := except_bind_eq_ok.1 compared
  cases newTarget with
  | none =>
      obtain ⟨new, -, compared⟩ := except_bind_eq_ok.1 compared
      obtain rfl := Except.ok.inj compared
      exact ⟨old, new, rfl⟩
  | some target =>
      obtain ⟨new, -, compared⟩ := except_bind_eq_ok.1 compared
      obtain rfl := Except.ok.inj compared
      exact ⟨old, new, rfl⟩

theorem reportFile_result_eq_ok_iff {policy : Policy} {file : String} {old new : Option Content}
    {outcome : Outcome} :
    (reportFile policy file old new).result = .ok outcome ↔
      ∃ before after, load file .old old = .ok before ∧ load file .new new = .ok after ∧
        ApiDrift.check before after policy = outcome := by
  refine except_bind_eq_ok.trans (exists_congr fun before => ?_)
  rw [except_bind_eq_ok, ← exists_and_left]
  refine exists_congr fun after => ?_
  exact and_congr_right' (and_congr_right' (Except.ok.injEq ..).to_iff)

theorem FileReport.passed_iff {r : FileReport} :
    r.passed = true ↔ ∃ outcome, r.result = .ok outcome ∧ outcome.passed = true := by
  unfold passed
  cases r.result with
  | ok outcome => exact ⟨fun h => ⟨outcome, rfl, h⟩, fun ⟨_, same, h⟩ => Except.ok.inj same ▸ h⟩
  | error e => exact ⟨fun h => (nomatch h), fun ⟨_, same, _⟩ => (nomatch same)⟩

end ApiDrift.Snapshot
