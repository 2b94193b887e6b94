import ApiDrift.Proofs.Snapshot.Install
/-! Files that share a base name share their notes. An installation sees to the first of them that a
release has, and leaves the others out without a word, unless they had a note before. -/
namespace ApiDrift.Snapshot

namespace Memory

/-- A file had a note for a release, or it is reported as recorded there and the note has its
text. -/
def SeenTo (m : Memory) (config : Config) (report : InstallReport) (w : Memory)
    (tag path : String) : Prop :=
  (m.notes.find? (config.notesRef (Text.basename path)) (tagId tag)).isSome ∨
    ∃ x ∈ report.added, x.tag = tag ∧ x.file = path ∧
      w.notes.find? (config.notesRef (Text.basename path)) (tagId tag) = m.tagText tag path

variable {m w : Memory} {config : Config} {files : List String} {report : InstallReport}
  {tag path : String}

theorem isSome_source? (listed : path ∈ files) (carried : (m.tagText tag path).isSome) :
    ∃ first, m.source? tag files (Text.basename path) = some first := by
  refine Option.isSome_iff_exists.1 (List.find?_isSome.2 ⟨path, listed, ?_⟩)
  rw [beq_self_eq_true, carried]
  rfl

theorem seenTo_iff (completed : m.Completed config files w)
    (accounts : report.Accounts m config files) (carried : (m.tagText tag path).isSome) :
    m.SeenTo config report w tag path ↔
      (m.notes.find? (config.notesRef (Text.basename path)) (tagId tag)).isSome ∨
        m.source? tag files (Text.basename path) = some path := by
  by_cases noted : (m.notes.find? (config.notesRef (Text.basename path)) (tagId tag)).isSome
  · exact iff_of_true (.inl noted) (.inl noted)
  · rw [SeenTo, or_iff_right noted, or_iff_right noted]
    constructor
    · rintro ⟨x, hx, rfl, rfl, -⟩
      exact ((accounts.mem_added_iff x).1 hx).source
    · intro first
      obtain ⟨s, text⟩ := Option.isSome_iff_exists.1 carried
      have missing : m.Missing config files
          ⟨tag, path, config.notesRef (Text.basename path), contentId s⟩ :=
        ⟨first, congrArg (Option.map contentId) text, rfl, Option.not_isSome_iff_eq_none.1 noted⟩
      refine ⟨_, (accounts.mem_added_iff _).2 missing, rfl, rfl, ?_⟩
      rw [text]
      exact (completed.found_iff _ _ s).2 (.inr ⟨_, missing, rfl, rfl, text⟩)

end Memory

variable {m w : Memory} {config : Config} {files : List String} {report : InstallReport}

theorem accounts_of_install
    (plain : ∀ tag ∈ m.tags.names, ∀ rest, tag ≠ Memory.tagsHeading ++ rest)
    (run : (install config files).run m = (.ok report, w)) :
    m.Completed config files w ∧ report.Accounts m config files := by
  obtain ⟨releases, v, recorded, names, own, last⟩ := installAll_ok config files plain
  obtain ⟨outcome, u, published, tags, refs, workTree, notes, -⟩ := publish_total config v
  rw [install, Action.run_bind_of_ok recorded, Action.run_bind, published] at run
  cases outcome with
  | error e => cases run
  | ok push =>
      obtain ⟨same, rfl⟩ := Prod.mk.inj run
      obtain rfl := Except.ok.inj same
      exact ⟨last.completed tags refs workTree notes, last.accounts names own push⟩

/-- An installation that succeeds sees, for every release, to the first of the files with a base
name that the release has. It sees to another one of them only if there was a note before. So it
leaves no file out just if no release without a note has two listed files of one base name. -/
theorem install_sees_to_first
    (plain : ∀ tag ∈ m.tags.names, ∀ rest, tag ≠ Memory.tagsHeading ++ rest)
    (run : (install config files).run m = (.ok report, w)) :
    (∀ tag, ∀ path ∈ files, (m.tagText tag path).isSome →
      (m.SeenTo config report w tag path ↔
        (m.notes.find? (config.notesRef (Text.basename path)) (Memory.tagId tag)).isSome ∨
          m.source? tag files (Text.basename path) = some path) ∧
      ∃ first, m.source? tag files (Text.basename path) = some first ∧
        m.SeenTo config report w tag first) ∧
    ((∀ tag, ∀ path ∈ files, (m.tagText tag path).isSome → m.SeenTo config report w tag path) ↔
      ∀ tag, ∀ path ∈ files, ∀ other ∈ files, Text.basename path = Text.basename other →
        (m.tagText tag path).isSome → (m.tagText tag other).isSome →
        m.notes.find? (config.notesRef (Text.basename path)) (Memory.tagId tag) = none →
        path = other) := by
  obtain ⟨completed, accounts⟩ := accounts_of_install plain run
  have each {tag path : String} (carried : (m.tagText tag path).isSome) :=
    Memory.seenTo_iff completed accounts carried
  refine ⟨fun tag path listed carried => ⟨each carried, ?_⟩, ?_, ?_⟩
  · obtain ⟨first, source⟩ := Memory.isSome_source? listed carried
    obtain ⟨-, base, s, text⟩ := Memory.of_source? source
    refine ⟨first, source, (each (Option.isSome_of_eq_some text)).2 (.inr ?_)⟩
    rwa [base]
  · intro all tag path listed other listed' same carried carried' absent
    have unnoted : ∀ {p : String}, Text.basename path = Text.basename p →
        ¬(m.notes.find? (config.notesRef (Text.basename p)) (Memory.tagId tag)).isSome := by
      intro p base
      rw [← base, absent]
      exact Bool.false_ne_true
    have first := ((each carried).1 (all tag path listed carried)).resolve_left (unnoted rfl)
    have first' := ((each carried').1 (all tag other listed' carried')).resolve_left (unnoted same)
    rw [← same] at first'
    exact Option.some_inj.1 (first.symm.trans first')
  · intro apart tag path listed carried
    rw [each carried, or_iff_not_imp_left, Option.not_isSome_iff_eq_none]
    intro absent
    obtain ⟨first, source⟩ := Memory.isSome_source? listed carried
    obtain ⟨listed', base, s, text⟩ := Memory.of_source? source
    have same := apart tag path listed first listed' base.symm carried
      (Option.isSome_of_eq_some text) absent
    exact source.trans (congrArg some same.symm)

/-- In the first release `b/bell.xml` comes first of two, and in the second there was a note. -/
theorem twoReleases_seen_to :
    (∀ tag ∈ twoReleases.tags.names, ∀ rest, tag ≠ Memory.tagsHeading ++ rest) ∧
    ∃ report w, (install {} ["b/bell.xml", "a/bell.xml"]).run twoReleases = (.ok report, w) ∧
      twoReleases.SeenTo {} report w "v1" "b/bell.xml" ∧
      ¬twoReleases.SeenTo {} report w "v1" "a/bell.xml" ∧
      twoReleases.SeenTo {} report w "v2" "a/bell.xml" := by
  have plain : ∀ tag ∈ twoReleases.tags.names, ∀ rest, tag ≠ Memory.tagsHeading ++ rest := by
    simp only [← Text.after?_eq_none_iff]
    decide +kernel
  refine ⟨plain, ?_⟩
  rcases run : (install {} ["b/bell.xml", "a/bell.xml"]).run twoReleases with ⟨outcome, w⟩
  have succeeds : ((install {} ["b/bell.xml", "a/bell.xml"]).run twoReleases).1.toOption.isSome :=
    by decide +kernel
  rw [run] at succeeds
  cases outcome with
  | error e => exact nomatch succeeds
  | ok report =>
      obtain ⟨each, -⟩ := install_sees_to_first plain run
      refine ⟨report, w, rfl, ?_, ?_, ?_⟩
      · exact (each "v1" "b/bell.xml" (by decide) (by decide +kernel)).1.2
          (.inr (by decide +kernel))
      · exact fun seen => absurd ((each "v1" "a/bell.xml" (by decide) (by decide +kernel)).1.1 seen)
          (by decide +kernel)
      · exact (each "v2" "a/bell.xml" (by decide) (by decide +kernel)).1.2
          (.inl (by decide +kernel))

/-- One release with two files of one base name, and no snapshots. -/
def twinBells : Memory where
  tags := Table.ofList [("v1", ⟨100, Table.ofList [("a/bell.xml", "1"), ("b/bell.xml", "2")]⟩)]

/-- The second bell is listed, and the release has it. Installing succeeds and says nothing of it,
and its text is nowhere. -/
theorem second_bell_left_out :
    (∀ tag ∈ twinBells.tags.names, ∀ rest, tag ≠ Memory.tagsHeading ++ rest) ∧
    twinBells.tagText "v1" "b/bell.xml" = some "2" ∧
    ∃ report w,
      (install { push := false } ["a/bell.xml", "b/bell.xml"]).run twinBells = (.ok report, w) ∧
      ¬twinBells.SeenTo { push := false } report w "v1" "b/bell.xml" ∧
      report.added.map Recorded.file = ["a/bell.xml"] ∧ report.unchanged = [] ∧
      w.notes.find? "refs/notes/dbus/api/bell.xml" "tag:v1" = some "1" := by
  refine ⟨?_, by decide +kernel, ?_⟩
  · simp only [← Text.after?_eq_none_iff]
    decide +kernel
  have told : (fun r : Except Failure InstallReport × Memory =>
      (r.1.toOption.map fun report => (report.added.map Recorded.file, report.unchanged),
        r.2.notes.find? "refs/notes/dbus/api/bell.xml" "tag:v1"))
      ((install { push := false } ["a/bell.xml", "b/bell.xml"]).run twinBells) =
      (some (["a/bell.xml"], []), some "1") := by
    decide +kernel
  rcases run : (install { push := false } ["a/bell.xml", "b/bell.xml"]).run twinBells
    with ⟨outcome, w⟩
  rw [run] at told
  obtain ⟨reported, note⟩ := Prod.mk.inj told
  obtain ⟨report, rfl, listed⟩ := exists_of_toOption_map reported
  obtain ⟨added, unchanged⟩ := Prod.mk.inj listed
  refine ⟨report, w, rfl, ?_, added, unchanged, note⟩
  rintro (noted | ⟨x, hx, -, file, -⟩)
  · exact absurd noted (by decide +kernel)
  · have listed : "b/bell.xml" ∈ report.added.map Recorded.file :=
      file ▸ List.mem_map_of_mem hx
    rw [added] at listed
    exact absurd listed (by decide)

end ApiDrift.Snapshot
