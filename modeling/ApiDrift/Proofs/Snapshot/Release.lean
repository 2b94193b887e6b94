import ApiDrift.Proofs.Change.Agreement
import ApiDrift.Proofs.Except
import ApiDrift.Proofs.Introspection.Parse
import ApiDrift.Proofs.Snapshot.Memory
import ApiDrift.Proofs.Snapshot.Tracked
/-! A release that was just recorded, checked against the work tree that it was made from: nothing
has changed. Writing looks a file up by its path and reading by its base name; that both come to
the same file is what the check depends on. -/
namespace ApiDrift.Snapshot

namespace Memory
variable {m : Memory} {tag : String}

theorem resolve_of_plain {release : MemoryTag} (plain : ∀ rest, tag ≠ tagsHeading ++ rest)
    (known : m.tags.get? tag = some release) : m.resolve tag = some (tagId tag) := by
  rw [resolve, Text.after?_eq_none_iff.2 plain, Option.getD_none, Table.contains, known]
  rfl

theorem workText_of_get? {path s : String} (h : m.workTree.get? path = some s) :
    m.workText path = some s := by
  have tracked : path ∈ m.workTree.names := Table.mem_names_iff.2 (Option.isSome_of_eq_some h)
  rw [workText, matchTracked_eq, if_pos tracked]
  exact h

/-- A repository without any snapshot, whose latest release has just the files of the work tree.
Their last components tell them apart. -/
structure Released (m : Memory) (tag : String) : Prop where
  noNotes : ∀ r target, m.notes.find? r target = none
  noRemoteNotes : ∀ r target, m.remote.find? r target = none
  latest : m.latestTag = some tag
  plainTag : ∀ rest, tag ≠ tagsHeading ++ rest
  sameFiles : ∃ release, m.tags.get? tag = some release ∧
    ∀ path, release.files.get? path = m.workTree.get? path
  plainPaths : ∀ path ∈ m.workTree.names, '\\' ∉ path.toList
  pathsApart : (m.workTree.names.map Text.lastComponent).Nodup

theorem Released.workText_basename (released : m.Released tag) (path : String) :
    m.workText (Text.basename path) = m.workText path := by
  rw [workText, workText, matchTracked_basename released.plainPaths released.pathsApart]

theorem Released.releaseText_eq (released : m.Released tag) (notes : Notes) (path : String) :
    (tagText { m with notes } tag path).or (workText { m with notes } path) = m.workText path := by
  obtain ⟨release, known, same⟩ := released.sameFiles
  show (m.tagText tag path).or (m.workText path) = m.workText path
  have text : m.tagText tag path = m.workTree.get? path := by
    rw [tagText, known, Option.bind_some, same]
  rw [text]
  cases tracked : m.workTree.get? path with
  | none => rfl
  | some s => rw [Option.some_or, workText_of_get? tracked]

end Memory

/-- Notes that are just what was recorded for a release, each with what the work tree has under
the base name of its file. -/
structure Recording (config : Config) (m : Memory) (tag : String) (done : List Recorded)
    (notes : Notes) : Prop where
  found_iff : ∀ r target s, notes.find? r target = some s ↔
    target = Memory.tagId tag ∧ ∃ x ∈ done, x.notesRef = r ∧ m.workText x.file = some s
  each : ∀ x ∈ done, x.notesRef = config.notesRef (Text.basename x.file) ∧
    (m.workText x.file).map Memory.contentId = some x.note
  apart : (done.map Recorded.notesRef).Nodup

namespace Recording
variable {config : Config} {m : Memory} {tag : String} {done : List Recorded} {notes : Notes}

theorem start (released : m.Released tag) : Recording config m tag [] m.notes := by
  refine ⟨fun r target s => ?_, fun x hx => absurd hx List.not_mem_nil, List.nodup_nil⟩
  rw [released.noNotes]
  constructor
  · intro found
    exact nomatch found
  · rintro ⟨-, x, hx, -⟩
    exact absurd hx List.not_mem_nil

theorem exists_text (h : Recording config m tag done notes) {x : Recorded} (hx : x ∈ done) :
    ∃ s, m.workText x.file = some s ∧
      notes.find? (config.notesRef (Text.basename x.file)) (Memory.tagId tag) = some s := by
  obtain ⟨ref, note⟩ := h.each x hx
  obtain ⟨s, text, -⟩ := Option.map_eq_some_iff.1 note
  exact ⟨s, text, (h.found_iff _ _ s).2 ⟨rfl, x, hx, ref, text⟩⟩

theorem add (h : Recording config m tag done notes) {x : Recorded} {s : String}
    (ref : x.notesRef = config.notesRef (Text.basename x.file))
    (text : m.workText x.file = some s) (note : Memory.contentId s = x.note)
    (fresh : notes.find? x.notesRef (Memory.tagId tag) = none) :
    Recording config m tag (done ++ [x]) (notes.add x.notesRef (Memory.tagId tag) s) := by
  have absent : ∀ y ∈ done, y.notesRef ≠ x.notesRef := by
    intro y hy same
    obtain ⟨t, -, found⟩ := h.exists_text hy
    rw [← (h.each y hy).1, same, fresh] at found
    exact nomatch found
  refine ⟨fun r target t => ?_, ?_, ?_⟩
  · rw [Notes.find?_add_eq_some_iff fresh, h.found_iff, and_left_comm,
      eq_comm (a := Memory.tagId tag)]
    simp only [List.mem_append, List.mem_singleton, or_and_right, exists_or, exists_eq_left,
      and_or_left, text, Option.some_inj]
  · refine List.forall_mem_append.2 ⟨h.each, List.forall_mem_singleton.2 ⟨ref, ?_⟩⟩
    rw [text, Option.map_some, note]
  · rw [List.map_append]
    refine h.apart.append (List.nodup_singleton _) (List.disjoint_singleton.2 fun known => ?_)
    obtain ⟨y, hy, same⟩ := List.mem_map.1 known
    exact absent y hy same

theorem distFile_ok (released : m.Released tag) (h : Recording config m tag done notes)
    {path : String} {d : Distributed} {u : Memory}
    (run : (distFile config false tag (Memory.tagId tag) path).run { m with notes } = (.ok d, u)) :
    u = { m with notes := u.notes } ∧
      Recording config m tag (done ++ d.recorded?.toList) u.notes := by
  rw [run_distFile] at run
  dsimp only at run
  split at run
  · exact nomatch run
  · next fresh =>
    rw [released.releaseText_eq] at run
    cases found : m.workText path with
    | none =>
        rw [found] at run
        exact nomatch run
    | some s =>
        rw [found] at run
        obtain ⟨added, rfl⟩ := Prod.mk.inj run
        obtain rfl := Except.ok.inj added
        exact ⟨rfl, h.add rfl found rfl (Option.not_isSome_iff_eq_none.1 fresh)⟩

end Recording

/-- Distributing files to a release without snapshots records just what it reports. -/
theorem recording_of_distFiles {config : Config} {m u : Memory} {tag : String}
    {files : List String} {done : List Distributed} (released : m.Released tag)
    (run : (files.mapM (distFile config false tag (Memory.tagId tag))).run m = (.ok done, u)) :
    u = { m with notes := u.notes } ∧
      Recording config m tag (done.filterMap Distributed.recorded?) u.notes := by
  refine Action.run_mapM_induction (P := fun before v => v = { m with notes := v.notes } ∧
    Recording config m tag (before.filterMap Distributed.recorded?) v.notes)
    ⟨rfl, .start released⟩ ?_ run
  rintro path - before v d w ⟨frame, here⟩ step
  rw [frame] at step
  have next := here.distFile_ok released step
  rwa [List.filterMap_append, List.filterMap_cons]

/-- A repository with the releases and the work tree of `m` and with these notes, whose remote has
no others. -/
structure Memory.Holds (m : Memory) (notes : Notes) (u : Memory) : Prop where
  tags : u.tags = m.tags
  workTree : u.workTree = m.workTree
  ours : ∀ r target, u.notes.find? r target = notes.find? r target
  theirs : ∀ r target s, u.remote.find? r target = some s → notes.find? r target = some s

namespace Memory.Holds
variable {m u v : Memory} {notes : Notes} {config : Config}

theorem pushed (h : m.Holds notes u) (remote : String) (refs : List String) :
    m.Holds notes (u.pushed remote refs) := by
  refine { h with theirs := fun r target s found => ?_ }
  have merged : (mergeRefs u.notes u.remote refs).find? r target = some s := found
  rw [Notes.find?_mergeRefs] at merged
  rcases Option.or_eq_some_iff.1 merged with known | ⟨-, new⟩
  · exact h.theirs r target s known
  · obtain ⟨-, new⟩ := Option.ite_none_right_eq_some.1 new
    rwa [h.ours] at new

theorem fetched (h : m.Holds notes u) (area : String) : m.Holds notes (u.fetched area) := by
  refine { h with ours := fun r target => ?_ }
  show (mergeRefs u.remote u.notes (u.remote.refs area)).find? r target = _
  rw [Notes.find?_mergeRefs, h.ours]
  cases kept : notes.find? r target with
  | some s => rfl
  | none =>
      rw [Option.none_or, ite_eq_right_iff]
      intro _
      by_contra other
      obtain ⟨s, found⟩ := Option.ne_none_iff_exists'.1 other
      rw [h.theirs r target s found] at kept
      exact nomatch kept

theorem publish_ok (h : m.Holds notes u) {outcome : Option PushOutcome}
    (run : (publish config).run u = (.ok outcome, v)) : m.Holds notes v := by
  rw [run_publish] at run
  split at run
  · obtain ⟨-, rfl⟩ := Prod.mk.inj run
    exact h
  · split at run
    · split at run
      · exact nomatch run
      · obtain ⟨-, rfl⟩ := Prod.mk.inj run
        exact h.pushed _ _
    · obtain ⟨-, rfl⟩ := Prod.mk.inj run
      exact h

theorem fetchNotes_ok (h : m.Holds notes u) (config : Config) :
    ∃ e n, (fetchNotes config).run u = (.ok e, n) ∧ m.Holds notes n := by
  rw [run_fetchNotes]
  split
  · exact ⟨_, u, rfl, h⟩
  · exact ⟨none, _, rfl, h.fetched _⟩

end Memory.Holds

/-- Where both sides have one text, nothing has changed unless there is no description in it. -/
theorem reportFile_same (policy : Policy) (file : String) (content : Content) :
    (reportFile policy file (some content) (some content)).result = .ok ⟨true, []⟩ ∨
      ∃ e, content.parse { file := some file } = .error e ∧
        (reportFile policy file (some content) (some content)).result = .error ⟨.old, e⟩ := by
  cases read : content.parse { file := some file } with
  | error e =>
      refine .inr ⟨e, rfl, ?_⟩
      simp only [reportFile, load, read]
      rfl
  | ok p =>
      left
      have trusted : p.Trusted := by
        cases content with
        | text s => exact Introspection.trusted_of_parseChars read
        | binary bytes => exact Introspection.trusted_of_parseBytes read
      have same := compare_self trusted.root.wellNamed trusted.root.wellAnnotated
        trusted.root.wellDirected
      simp only [reportFile, load, read]
      show Except.ok (policy.judge (compare p.root p.root)) = _
      rw [same]
      rfl

namespace Recording
variable {config : Config} {m n : Memory} {tag : String} {done : List Recorded} {notes : Notes}

theorem basenames_nodup (h : Recording config m tag done notes) :
    (done.map fun x => Text.basename x.file).Nodup := by
  have refs : done.map Recorded.notesRef =
      (done.map fun x => Text.basename x.file).map config.notesRef := by
    rw [List.map_map]
    exact List.map_congr_left fun x hx => (h.each x hx).1
  have apart := h.apart
  rw [refs] at apart
  exact apart.of_map _

theorem files_perm (h : Recording config m tag done notes) (holds : m.Holds notes n) :
    (n.notes.files config.area).Perm (done.map fun x => Text.basename x.file) := by
  apply (List.perm_ext_iff_of_nodup (n.notes.files_nodup config.area) h.basenames_nodup).2
  intro file
  rw [Notes.mem_files_iff, List.mem_map]
  constructor
  · rintro ⟨target, s, found⟩
    rw [holds.ours] at found
    obtain ⟨-, x, hx, ref, -⟩ := (h.found_iff _ _ _).1 found
    rw [(h.each x hx).1] at ref
    exact ⟨x, hx, (String.append_right_inj _).1 ref⟩
  · rintro ⟨x, hx, rfl⟩
    obtain ⟨s, -, found⟩ := h.exists_text hx
    refine ⟨Memory.tagId tag, s, ?_⟩
    rw [holds.ours]
    exact found

/-- A file with notes has one for the release, of the text that the work tree has for it. -/
theorem texts_of_mem_files (h : Recording config m tag done notes) (released : m.Released tag)
    (holds : m.Holds notes n) {file : String} (hf : file ∈ n.notes.files config.area) :
    ∃ s, notes.find? (config.notesRef file) (Memory.tagId tag) = some s ∧
      n.workText file = some s := by
  obtain ⟨x, hx, rfl⟩ := List.mem_map.1 ((h.files_perm holds).mem_iff.1 hf)
  obtain ⟨s, text, found⟩ := h.exists_text hx
  refine ⟨s, found, ?_⟩
  rw [Memory.workText, holds.workTree]
  exact (released.workText_basename x.file).trans text

end Recording

/-- A distribution that succeeds leaves just what it reports, at the remote too if at all. -/
theorem recording_of_dist {config : Config} {m m' : Memory} {tag : String} {files : List String}
    {done : DistReport} (released : m.Released tag)
    (run : (dist config files false).run m = (.ok done, m')) :
    ∃ notes, Recording config m tag done.added notes ∧ m.Holds notes m' := by
  obtain ⟨release, known, -⟩ := released.sameFiles
  have resolved := run_resolveOrFail m tag
  rw [Memory.resolve_of_plain released.plainTag known] at resolved
  rw [dist, Action.run_look_bind, show Backend.latestTag m = some tag from released.latest] at run
  dsimp only at run
  rw [Action.run_bind_of_ok resolved] at run
  obtain ⟨each, u, distributed, run⟩ := Action.run_bind_eq_ok.1 run
  obtain ⟨push, v, published, run⟩ := Action.run_bind_eq_ok.1 run
  obtain ⟨rfl, rfl⟩ := Action.run_pure_eq_ok.1 run
  obtain ⟨frame, recording⟩ := recording_of_distFiles released distributed
  have holds : m.Holds u.notes u := by
    rw [frame]
    refine ⟨rfl, rfl, fun _ _ => rfl, fun r target s found => ?_⟩
    exact nomatch (released.noRemoteNotes r target).symm.trans found
  exact ⟨u.notes, recording, holds.publish_ok published⟩

/-- Once files were distributed to the latest release, a check of that release against the work
tree covers just them and finds no change, whatever the policy. Only what holds no description
cannot be compared. -/
theorem check_after_dist {m m' : Memory} {tag : String} {config : Config} {files : List String}
    {done : DistReport} (policy : Policy) (released : m.Released tag)
    (run : (dist config files false).run m = (.ok done, m')) :
    ∃ report n, (check config { policy }).run m' = (.ok report, n) ∧ report.oldRef = some tag ∧
      (report.files.map FileReport.file).Perm (done.added.map fun x => Text.basename x.file) ∧
      (report.files.map FileReport.file).Nodup ∧
      ∀ f ∈ report.files, f.oldMissing = false ∧ f.newMissing = false ∧
        (f.result = .ok ⟨true, []⟩ ∨ ∃ s e,
          m'.notes.find? (config.notesRef f.file) (Memory.tagId tag) = some s ∧
          (Content.text s).parse { file := some f.file } = .error e ∧
          f.result = .error ⟨.old, e⟩) := by
  obtain ⟨notes, recording, holds⟩ := recording_of_dist released run
  obtain ⟨e, n, fetched, after⟩ := holds.fetchNotes_ok config
  obtain ⟨release, known, -⟩ := released.sameFiles
  have latest : n.latestTag = some tag := by
    rw [Memory.latestTag, after.tags]
    exact released.latest
  have resolved : n.resolve tag = some (Memory.tagId tag) :=
    Memory.resolve_of_plain released.plainTag (after.tags ▸ known)
  have names : (List.map FileReport.file ((checkedFiles config [] n).map fun file =>
      reportFile policy file
        ((n.notes.find? (config.notesRef file) (Memory.tagId tag)).map .text)
        ((n.workText file).map .text))) = n.notes.files config.area := by
    rw [List.map_map]
    exact List.map_id _
  refine ⟨_, n, run_check_latest m' fetched latest resolved, rfl, ?_, ?_, ?_⟩
  · rw [names]
    exact recording.files_perm after
  · rw [names]
    exact n.notes.files_nodup config.area
  · intro f hf
    obtain ⟨file, hfile, rfl⟩ := List.mem_map.1 hf
    obtain ⟨s, note, text⟩ := recording.texts_of_mem_files released after hfile
    rw [after.ours, note, text]
    refine ⟨rfl, rfl, ?_⟩
    rcases reportFile_same policy file (.text s) with clean | ⟨e, broken, failed⟩
    · exact .inl clean
    · exact .inr ⟨s, e, (holds.ours _ _).trans note, broken, failed⟩

def bellFiles : Table String :=
  Table.ofList [("api/bell.xml", "<node><interface name='o.Bell'/></node>"), ("README", "A bell.")]

/-- A repository right after its first release. -/
def bellRepository : Memory where
  tags := Table.ofList [("v1", ⟨0, bellFiles⟩)]
  workTree := bellFiles

theorem bellRepository_released : bellRepository.Released "v1" where
  noNotes _ _ := rfl
  noRemoteNotes _ _ := rfl
  latest := by decide +kernel
  plainTag rest same := by
    have other : Text.after? Memory.tagsHeading "v1" = none := by decide +kernel
    rw [Text.after?_eq_some_iff.2 same] at other
    exact nomatch other
  sameFiles := ⟨⟨0, bellFiles⟩, (Table.get?_insert ..).trans (if_pos rfl), fun _ => rfl⟩
  plainPaths := by decide +kernel
  pathsApart := by decide +kernel

theorem bellRepository_checks_clean : bellRepository.Released "v1" ∧
    ∃ done m', (dist {} ["bell.xml", "README"] false).run bellRepository = (.ok done, m') ∧
    ∃ report n, (check {} {}).run m' = (.ok report, n) ∧ report.oldRef = some "v1" ∧
      (report.files.map FileReport.file).Perm ["bell.xml", "README"] := by
  have added : ((dist {} ["bell.xml", "README"] false).run bellRepository).1.toOption.map
      (fun done => done.added.map fun x => Text.basename x.file) = some ["bell.xml", "README"] := by
    decide +kernel
  refine ⟨bellRepository_released, ?_⟩
  rcases run : (dist {} ["bell.xml", "README"] false).run bellRepository with ⟨outcome, m'⟩
  rw [run] at added
  obtain ⟨done, rfl, names⟩ := exists_of_toOption_map added
  obtain ⟨report, n, checked, reference, files, -⟩ :=
    check_after_dist {} bellRepository_released run
  rw [names] at files
  exact ⟨done, m', rfl, report, n, checked, reference, files⟩

end ApiDrift.Snapshot
