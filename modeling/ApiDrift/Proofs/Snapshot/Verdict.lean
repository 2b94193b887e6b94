import ApiDrift.Proofs.Snapshot.Checked
import ApiDrift.Proofs.Snapshot.Memory
/-! The verdict of a check, file by file. The report has one entry for each file with snapshots and
each further one that was asked for. What it says of a file depends on the texts of that file alone,
and it passes when each file does. -/
namespace ApiDrift.Snapshot

/-- The snapshot of a file at a ref. -/
def Memory.snapshotText (m : Memory) (config : Config) (reference file : String) : Option String :=
  (m.resolve reference).bind (m.notes.find? (config.notesRef file))

/-- The new side of a file: its snapshot at a ref, or the file itself if there is no ref. -/
def Memory.newText (m : Memory) (config : Config) (newRef : Option String) (file : String) :
    Option String :=
  newRef.elim (m.workText file) fun reference => m.snapshotText config reference file

/-- What one side of a file describes. A side that is missing describes nothing. -/
def Describes (file : String) : Option String → Node → Prop
  | none, root => root = {}
  | some s, root => ∃ parsed,
      Introspection.parseText { file := some file } s = .ok parsed ∧ parsed.root = root

theorem load_eq_ok_iff {file : String} {side : Side} {text : Option String} {root : Node} :
    load file side (text.map .text) = .ok root ↔ Describes file text root := by
  cases text with
  | none => exact (Except.ok.injEq ..).to_iff.trans eq_comm
  | some s =>
      have parse : (Content.text s).parse { file := some file } =
        Introspection.parseText { file := some file } s := rfl
      rw [Option.map_some, load, parse]
      cases read : Introspection.parseText { file := some file } s with
      | ok parsed =>
          constructor
          · exact fun same => ⟨parsed, read, Except.ok.inj same⟩
          · rintro ⟨other, again, rfl⟩
            obtain rfl := Except.ok.inj (read.symm.trans again)
            rfl
      | error e =>
          exact ⟨fun failed => (nomatch failed),
            fun ⟨_, again, _⟩ => (nomatch read.symm.trans again)⟩

theorem Policy.passed_judge_iff (policy : Policy) (changes : List Change) :
    (policy.judge changes).passed = true ↔
      ∀ c ∈ changes.filter policy.isEnabled, policy.isFatal c = false := by
  rw [Policy.judge, Bool.not_eq_true', List.any_eq_false]
  exact forall₂_congr fun _ _ => Bool.not_eq_true _ |>.to_iff

/-- A file passes when both sides can be read and no change that is reported is fatal. -/
theorem reportFile_passed_iff {policy : Policy} {file : String} {old new : Option String} :
    (reportFile policy file (old.map .text) (new.map .text)).passed = true ↔
      ∃ before after, Describes file old before ∧ Describes file new after ∧
        ∀ c ∈ (compare before after).filter policy.isEnabled, policy.isFatal c = false := by
  rw [FileReport.passed_iff]
  constructor
  · rintro ⟨outcome, judged, passed⟩
    obtain ⟨before, after, readOld, readNew, rfl⟩ := reportFile_result_eq_ok_iff.1 judged
    exact ⟨before, after, load_eq_ok_iff.1 readOld, load_eq_ok_iff.1 readNew,
      (Policy.passed_judge_iff ..).1 passed⟩
  · rintro ⟨before, after, readOld, readNew, harmless⟩
    refine ⟨_, reportFile_result_eq_ok_iff.2 ⟨before, after, load_eq_ok_iff.2 readOld,
      load_eq_ok_iff.2 readNew, rfl⟩, ?_⟩
    exact (Policy.passed_judge_iff ..).2 harmless

theorem addNames_eq (names files : List String) :
    addNames names files =
      names ++ ((files.map Text.basename).filter (· ∉ names)).eraseDups := by
  induction files generalizing names with
  | nil => exact (List.append_nil names).symm
  | cons path rest ih =>
      rw [addNames, List.map_cons, List.filter_cons, ih]
      by_cases listed : Text.basename path ∈ names
      · rw [if_pos listed, if_neg (by simpa using listed)]
      · have others : (rest.map Text.basename).filter (· ∉ names ++ [Text.basename path]) =
            ((rest.map Text.basename).filter (· ∉ names)).filter (· != Text.basename path) := by
          rw [List.filter_filter]
          refine List.filter_congr fun base _ => ?_
          simp [Bool.and_comm, bne, BEq.beq]
        rw [if_neg listed, if_pos (by simpa using listed), others, List.eraseDups_cons,
          List.append_assoc]
        rfl

theorem nodup_addNames {names : List String} (distinct : names.Nodup) (files : List String) :
    (addNames names files).Nodup := by
  induction files generalizing names with
  | nil => exact distinct
  | cons path rest ih =>
      rw [addNames]
      refine ih ?_
      split
      · exact distinct
      · next fresh => exact List.nodup_append_comm.1 (List.nodup_cons.2 ⟨fresh, distinct⟩)

/-- The files that a report is about: those of which the area holds notes, in the order of their
refs, and then the others that were asked for, by base name. None stands twice. -/
structure Memory.Covers (n : Memory) (config : Config) (asked files : List String) : Prop where
  once : files.Nodup
  order : ∃ listed, (listed.map config.notesRef).Pairwise (· < ·) ∧
    (∀ file, file ∈ listed ↔ ∃ target s, n.notes.find? (config.notesRef file) target = some s) ∧
    files = listed ++ ((asked.map Text.basename).filter (· ∉ listed)).eraseDups

theorem covers_checkedFiles (n : Memory) (config : Config) (asked : List String) :
    n.Covers config asked (checkedFiles config asked n) where
  once := nodup_addNames (n.notes.files_nodup config.area) asked
  order := by
    refine ⟨n.notes.files config.area, ?_, fun file => Notes.mem_files_iff, addNames_eq _ asked⟩
    exact (Notes.map_heading_files ..).symm ▸ Notes.refs_sorted ..

/-- Both sides of a file can be read, and nothing that is fatal is reported of it. -/
def Memory.FilePasses (n : Memory) (config : Config) (request : Request)
    (reference file : String) : Prop :=
  ∃ before after, Describes file (n.snapshotText config reference file) before ∧
    Describes file (n.newText config request.newRef file) after ∧
    ∀ c ∈ (compare before after).filter request.policy.isEnabled, request.policy.isFatal c = false

variable {config : Config} {request : Request} {m n : Memory} {report : CheckReport}
  {reference : String}

theorem fetchNotes_eq {fetchError : Option String}
    (run : (fetchNotes config).run m = (.ok fetchError, n)) :
    n = if m.remoteFails then m else m.fetched config.area := by
  rw [run_fetchNotes] at run
  split at run
  · next fails => rw [if_pos fails, (Prod.mk.inj run).2]
  · next reachable => rw [if_neg reachable, (Prod.mk.inj run).2]

theorem Checked.new_eq {newTarget : Option String} {oldTarget : String}
    (h : Checked config request m n report reference oldTarget newTarget) (file : String) :
    newTarget.elim (n.workText file) (n.notes.find? (config.notesRef file)) =
      n.newText config request.newRef file := by
  have same (r : String) : m.resolve r = n.resolve r := by
    rw [fetchNotes_eq h.fetched]
    split
    · rfl
    · rfl
  have new := h.new
  unfold Memory.newText
  generalize request.newRef = newRef at new
  cases newRef with
  | none =>
      obtain rfl := Option.map_eq_none_iff.1 new.symm
      rfl
  | some r =>
      obtain ⟨target, rfl, resolved⟩ := Option.map_eq_some_iff.1 new.symm
      have known : n.resolve r = some target := (same r).symm.trans resolved.symm
      rw [Option.elim, Option.elim, Memory.snapshotText, known]
      rfl

theorem Checked.files_eq {newTarget : Option String} {oldTarget : String}
    (h : Checked config request m n report reference oldTarget newTarget) :
    report.files = (checkedFiles config request.files n).map fun file =>
      reportFile request.policy file ((n.snapshotText config reference file).map .text)
        ((n.newText config request.newRef file).map .text) := by
  have each := h.files
  rw [funext (checkFile_eq n config request.policy oldTarget newTarget)] at each
  refine (Except.ok.inj (List.mapM_pure.symm.trans each)).symm.trans (List.map_congr_left ?_)
  intro file _
  have old : n.resolve reference = some oldTarget := h.old
  rw [h.new_eq, Memory.snapshotText, old]
  rfl

theorem Checked.eq_reportFile {newTarget : Option String} {oldTarget : String}
    (h : Checked config request m n report reference oldTarget newTarget) :
    ∀ f ∈ report.files, f = reportFile request.policy f.file
      ((n.snapshotText config reference f.file).map .text)
      ((n.newText config request.newRef f.file).map .text) := by
  rw [h.files_eq]
  exact List.forall_mem_map.2 fun _ _ => rfl

theorem checked_of_run (run : (check config request).run m = (.ok report, n))
    (compared : report.oldRef = some reference) :
    ∃ oldTarget newTarget, Checked config request m n report reference oldTarget newTarget := by
  rcases check_ok run with ⟨none, -⟩ | ⟨other, oldTarget, newTarget, checked⟩
  · exact nomatch none.symm.trans compared
  · obtain rfl := Option.some_inj.1 (checked.oldRef.symm.trans compared)
    exact ⟨oldTarget, newTarget, checked⟩

/-- A check tells of each file what that file alone gives rise to. The report covers the files that
have notes, once those at the remote have been brought in, and the files asked for. Two checks under
one policy that find the same texts of a file, perhaps elsewhere and among other files, say the same
of it. And a check passes when each file passes. -/
theorem check_file_by_file (run : (check config request).run m = (.ok report, n))
    (compared : report.oldRef = some reference) :
    n = (if m.remoteFails then m else m.fetched config.area) ∧
    n.Covers config request.files (report.files.map FileReport.file) ∧
    (∀ config' request' (m' n' : Memory) report' reference',
      (check config' request').run m' = (.ok report', n') → report'.oldRef = some reference' →
      request'.policy = request.policy →
      ∀ f ∈ report.files, ∀ f' ∈ report'.files, f'.file = f.file →
        n'.snapshotText config' reference' f.file = n.snapshotText config reference f.file →
        n'.newText config' request'.newRef f.file = n.newText config request.newRef f.file →
        f' = f) ∧
    (report.passed = true ↔
      ∀ f ∈ report.files, n.FilePasses config request reference f.file) := by
  obtain ⟨oldTarget, newTarget, checked⟩ := checked_of_run run compared
  refine ⟨fetchNotes_eq checked.fetched, ?_, ?_, ?_⟩
  · have names : report.files.map FileReport.file = checkedFiles config request.files n := by
      rw [checked.files_eq, List.map_map]
      exact List.map_id _
    rw [names]
    exact covers_checkedFiles n config request.files
  · intro config' request' m' n' report' reference' run' compared' policy f hf f' hf' file old new
    obtain ⟨_, _, checked'⟩ := checked_of_run run' compared'
    have own := checked.eq_reportFile f hf
    have other := checked'.eq_reportFile f' hf'
    rw [file, policy, old, new] at other
    exact other.trans own.symm
  · rw [CheckReport.passed, List.all_eq_true]
    refine forall₂_congr fun f hf => ?_
    rw [checked.eq_reportFile f hf]
    exact reportFile_passed_iff

/-- A release with a snapshot of a bell that has lost its method since, and one of a gong. -/
def bellAndGong (gong : String) : Memory where
  tags := Table.ofList [("v1", ⟨0, .empty⟩)]
  workTree := Table.ofList [("api/bell.xml", "<node><interface name='o.Bell'/></node>")]
  notes := Notes.add (Notes.add .empty "refs/notes/dbus/api/gong.xml" "tag:v1" gong)
    "refs/notes/dbus/api/bell.xml" "tag:v1"
    "<node><interface name='o.Bell'><method name='Ring'/></interface></node>"

def bellAndHorn : Request where
  files := ["api/bell.xml", "api/horn.xml"]

/-- A broken gong fails for itself. Of the bell the same is said as beside a good one. -/
theorem bellAndGong_apart : ∃ report n report' n',
    (check {} bellAndHorn).run (bellAndGong "<gong") = (.ok report, n) ∧
    (check {} bellAndHorn).run (bellAndGong "<node/>") = (.ok report', n') ∧
    report.files.map FileReport.file = ["bell.xml", "gong.xml", "horn.xml"] ∧
    n.Covers {} bellAndHorn.files ["bell.xml", "gong.xml", "horn.xml"] ∧
    (¬ ∀ f ∈ report.files, n.FilePasses {} bellAndHorn "v1" f.file) ∧
    ∀ f ∈ report.files, ∀ f' ∈ report'.files, f.file = "bell.xml" → f'.file = "bell.xml" →
      f' = f := by
  have told : ((check {} bellAndHorn).run (bellAndGong "<gong")).1.toOption.map
      (fun r => (r.oldRef, r.files.map FileReport.file, r.passed)) =
        some (some "v1", ["bell.xml", "gong.xml", "horn.xml"], false) := by decide +kernel
  have told' : ((check {} bellAndHorn).run (bellAndGong "<node/>")).1.toOption.map
      CheckReport.oldRef = some (some "v1") := by decide +kernel
  rcases run : (check {} bellAndHorn).run (bellAndGong "<gong") with ⟨outcome, n⟩
  rcases run' : (check {} bellAndHorn).run (bellAndGong "<node/>") with ⟨outcome', n'⟩
  rw [run] at told
  rw [run'] at told'
  obtain ⟨report, rfl, reported⟩ := exists_of_toOption_map told
  obtain ⟨report', rfl, oldRef'⟩ := exists_of_toOption_map told'
  obtain ⟨oldRef, reported⟩ := Prod.mk.inj reported
  obtain ⟨names, failed⟩ := Prod.mk.inj reported
  obtain ⟨fetched, covers, apart, verdict⟩ := check_file_by_file run oldRef
  obtain ⟨fetched', -⟩ := check_file_by_file run' oldRef'
  rw [names] at covers
  rw [failed] at verdict
  refine ⟨report, n, report', n', rfl, rfl, names, covers,
    fun passes => (nomatch verdict.2 passes), fun f hf f' hf' bell bell' => ?_⟩
  refine apart _ _ _ _ _ _ run' oldRef' rfl f hf f' hf' (bell'.trans bell.symm) ?_ ?_
  · rw [bell, fetched, fetched']
    decide +kernel
  · rw [bell, fetched, fetched']
    decide +kernel

end ApiDrift.Snapshot
