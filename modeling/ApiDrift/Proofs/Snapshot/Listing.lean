import ApiDrift.Proofs.Snapshot.Distribution
import ApiDrift.Proofs.Snapshot.Newest
import ApiDrift.Proofs.Snapshot.ReadOnly
import ApiDrift.Proofs.Snapshot.Verdict
/-! The list of all snapshots of a repository in memory. It is a table of releases and files, from
the newest release on, and that one is the release to which distributions add and with which checks
compare. -/
namespace ApiDrift.Snapshot

namespace Memory

/-- A release as lists order it. -/
def dated (e : String × MemoryTag) : DatedTag := ⟨some e.2.time, e.1⟩

/-- The releases as lists order them. -/
def datedTags (m : Memory) : List DatedTag := m.tags.entries.map dated

variable {m : Memory} {config : Config} {files : List String} {tag : String}

theorem later_eq (a b : String × MemoryTag) :
    later a b = if (dated a).key < (dated b).key then b else a := by
  rw [later]
  refine if_congr ?_ rfl rfl
  rw [DatedTag.key_lt_iff_of_dated rfl rfl]
  simp [dated]

theorem mem_datedTags_iff {t : DatedTag} :
    t ∈ m.datedTags ↔ ∃ release, m.tags.get? t.tag = some release ∧ t.date = some release.time := by
  rw [datedTags, List.mem_map]
  constructor
  · rintro ⟨⟨name, release⟩, known, rfl⟩
    exact ⟨release, Table.mem_entries_iff.1 known, rfl⟩
  · rintro ⟨release, known, date⟩
    refine ⟨(t.tag, release), Table.mem_entries_iff.2 known, ?_⟩
    rw [dated, ← date]

theorem tag_datedTags (m : Memory) : m.datedTags.map DatedTag.tag = m.tags.names := by
  rw [datedTags, List.map_map]
  rfl

theorem datedTags_nodup (m : Memory) : m.datedTags.Nodup :=
  .of_map DatedTag.tag (m.tag_datedTags ▸ m.tags.names_nodup)

theorem latestTag_of_newestFirst {t : DatedTag} {rest : List DatedTag}
    (newest : newestFirst m.datedTags = t :: rest) : m.latestTag = some t.tag := by
  obtain ⟨known, greatest⟩ := newestFirst_eq_cons newest
  obtain ⟨own, isTag, rfl⟩ := List.mem_map.1 known
  rw [latestTag]
  cases listed : m.tags.entries with
  | nil => exact absurd (listed ▸ isTag) List.not_mem_nil
  | cons first others =>
      obtain ⟨found, above⟩ := foldl_greatest later_eq first others
      rw [← listed] at found above
      have same : dated (others.foldl later first) = dated own :=
        DatedTag.key_injective (le_antisymm
          (greatest _ (List.mem_map_of_mem found)) (above own isTag))
      exact congrArg (fun t : DatedTag => some t.tag) same

/-- The entry for a release and a file. -/
def entry (m : Memory) (config : Config) (t : DatedTag) (file : String) : ListEntry :=
  ⟨t.tag, t.date, file, (m.notes.find? (config.notesRef file) (tagId t.tag)).map contentId⟩

/-- The entries for some files, release by release, from the newest one on. -/
def entries (m : Memory) (config : Config) (files : List String) : List ListEntry :=
  (newestFirst m.datedTags).flatMap fun t => files.map (m.entry config t)

end Memory

variable {m : Memory} {config : Config} {files : List String}

theorem listTag_eq {t : DatedTag} (resolved : m.resolve t.tag = some (Memory.tagId t.tag))
    (names : List String) :
    listTag config names m t = .ok (names.map (m.entry config t)) := by
  rw [listTag, show Backend.resolve m t.tag = m.resolve t.tag from rfl, resolved]
  refine mapM_eq_ok fun file _ => ?_
  show Except.ok (ListEntry.mk _ _ _ (((m.notes.find? _ _).map Memory.blob).map Blob.id)) = _
  rw [Option.map_map]
  rfl

theorem mem_newestFirst_iff {t : DatedTag} : t ∈ newestFirst m.datedTags ↔
    ∃ release, m.tags.get? t.tag = some release ∧ t.date = some release.time :=
  (newestFirst_perm _).mem_iff.trans Memory.mem_datedTags_iff

theorem mapM_dateTag (m : Memory) : (Backend.tags m).mapM (dateTag m) = .ok m.datedTags := by
  have each : ∀ tag ∈ Backend.tags m,
      dateTag m tag = .ok ⟨(m.tags.get? tag).map MemoryTag.time, tag⟩ := fun _ _ => rfl
  rw [mapM_eq_ok each]
  refine congrArg Except.ok ((List.map_map ..).trans (List.map_congr_left fun e he => ?_))
  rw [Function.comp_apply, Table.mem_entries_iff.1 (show (e.1, e.2) ∈ m.tags.entries from he)]
  rfl

/-- A list of a repository in memory always succeeds, and has all entries, release by release. -/
theorem list_eq_ok (plain : ∀ tag ∈ m.tags.names, ∀ rest, tag ≠ Memory.tagsHeading ++ rest) :
    list config files m = .ok (m.entries config (checkedFiles config files m)) := by
  have parts : (newestFirst m.datedTags).mapM (listTag config (checkedFiles config files m) m) =
      .ok ((newestFirst m.datedTags).map fun t =>
        (checkedFiles config files m).map (m.entry config t)) := by
    refine mapM_eq_ok fun t ht => listTag_eq ?_ _
    obtain ⟨release, known, -⟩ := mem_newestFirst_iff.1 ht
    exact Memory.resolve_of_plain
      (plain t.tag (Table.mem_names_iff.2 (Option.isSome_of_eq_some known))) known
  rw [list, mapM_dateTag]
  show (do
    let entries ← (newestFirst m.datedTags).mapM (listTag config (checkedFiles config files m) m)
    pure entries.flatten) = _
  rw [parts, Memory.entries, List.flatMap_def]
  rfl

/-- Of two entries the first one is of a later release: it was made later, or at the same time and
has the greater name. Or both are of one release, and the file of the first one comes first. -/
def ListEntry.Above (names : List String) (a b : ListEntry) : Prop :=
  (∃ s t, a.date = some s ∧ b.date = some t ∧ (t < s ∨ t = s ∧ b.tag < a.tag)) ∨
    a.tag = b.tag ∧ names.idxOf a.file < names.idxOf b.file

/-- A table of all releases and all files, with the notes that are there. -/
structure Memory.Tabulates (m : Memory) (config : Config) (files : List String)
    (entries : List ListEntry) : Prop where
  mem_iff : ∀ e, e ∈ entries ↔ e.file ∈ files ∧ ∃ release, m.tags.get? e.tag = some release ∧
    e.date = some release.time ∧
    e.note = (m.notes.find? (config.notesRef e.file) (tagId e.tag)).map contentId
  once : (entries.map fun e => (e.tag, e.file)).Nodup
  ordered : entries.Pairwise (ListEntry.Above files)

theorem pairwise_idxOf {α : Type} [BEq α] [LawfulBEq α] {l : List α} (distinct : l.Nodup) :
    l.Pairwise fun a b => l.idxOf a < l.idxOf b := by
  refine List.pairwise_iff_getElem.2 fun i j hi hj before => ?_
  rwa [distinct.idxOf_getElem, distinct.idxOf_getElem]

theorem mem_entries_iff {e : ListEntry} : e ∈ m.entries config files ↔ e.file ∈ files ∧
    ∃ release, m.tags.get? e.tag = some release ∧ e.date = some release.time ∧
      e.note = (m.notes.find? (config.notesRef e.file) (Memory.tagId e.tag)).map
        Memory.contentId := by
  simp only [Memory.entries, List.mem_flatMap, List.mem_map, mem_newestFirst_iff]
  constructor
  · rintro ⟨t, ⟨release, known, date⟩, file, listed, rfl⟩
    exact ⟨listed, release, known, date, rfl⟩
  · rintro ⟨listed, release, known, date, note⟩
    refine ⟨⟨e.date, e.tag⟩, ⟨release, known, date⟩, e.file, listed, ?_⟩
    rw [Memory.entry, ← note]

theorem entries_ordered (distinct : files.Nodup) :
    (m.entries config files).Pairwise (ListEntry.Above files) := by
  refine List.pairwise_flatMap.2 ⟨fun t _ => ?_, ?_⟩
  · exact List.pairwise_map.2 ((pairwise_idxOf distinct).imp fun before => .inr ⟨rfl, before⟩)
  · have strictly : (newestFirst m.datedTags).Pairwise fun a b => b.key < a.key :=
      ((newestFirst_ordered _).and (((newestFirst_perm _).nodup_iff).2 m.datedTags_nodup)).imp
        fun ⟨below, differ⟩ => below.lt_of_ne (DatedTag.key_injective.ne differ.symm)
    refine strictly.imp_of_mem fun {t u} ht hu after => ?_
    obtain ⟨release, -, date⟩ := mem_newestFirst_iff.1 ht
    obtain ⟨release', -, date'⟩ := mem_newestFirst_iff.1 hu
    intro a ha b hb
    obtain ⟨file, -, rfl⟩ := List.mem_map.1 ha
    obtain ⟨file', -, rfl⟩ := List.mem_map.1 hb
    exact .inl ⟨release.time, release'.time, date, date',
      (DatedTag.key_lt_iff_of_dated date' date).1 after⟩

theorem ne_of_above {a b : ListEntry} (ha : a ∈ m.entries config files)
    (hb : b ∈ m.entries config files) (above : a.Above files b) :
    (a.tag, a.file) ≠ (b.tag, b.file) := by
  intro same
  obtain ⟨tag, file⟩ := Prod.mk.inj same
  rcases above with ⟨s, t, date, date', later⟩ | ⟨-, before⟩
  · obtain ⟨-, release, known, own, -⟩ := mem_entries_iff.1 ha
    obtain ⟨-, release', known', own', -⟩ := mem_entries_iff.1 hb
    rw [tag, known'] at known
    obtain rfl := Option.some_inj.1 known
    obtain rfl := Option.some_inj.1 (date.symm.trans own)
    obtain rfl := Option.some_inj.1 (date'.symm.trans own')
    rcases later with later | ⟨-, later⟩
    · exact Int.lt_irrefl _ later
    · exact String.lt_irrefl _ (tag ▸ later)
  · exact Nat.lt_irrefl _ (file ▸ before)

theorem tabulates_entries (distinct : files.Nodup) :
    m.Tabulates config files (m.entries config files) := by
  have ordered : (m.entries config files).Pairwise (ListEntry.Above files) :=
    entries_ordered distinct
  refine ⟨fun e => mem_entries_iff, List.pairwise_map.2 ?_, ordered⟩
  exact ordered.imp_of_mem fun ha hb above => ne_of_above ha hb above

section Latest
variable {tag : String} (latest : m.latestTag = some tag)
include latest

/-- A distribution adds notes about the latest release only, also where it does not come to an
end. -/
theorem dist_at_latest (own : m.resolve tag = some (Memory.tagId tag)) {ignoreExisting : Bool}
    {outcome : Except Failure DistReport} {w : Memory}
    (run : (dist config files ignoreExisting).run m = (outcome, w)) :
    (∀ report, outcome = .ok report → report.tag = tag) ∧
      ∀ r target s, w.notes.find? r target = some s → m.notes.find? r target = some s ∨
        target = Memory.tagId tag := by
  have added {done : List Distributed} {before : List String} {notes : Notes}
      (kept : m.Distribution config ignoreExisting tag before done notes) (r target s : String)
      (found : notes.find? r target = some s) :
      m.notes.find? r target = some s ∨ target = Memory.tagId tag :=
    ((kept.found_iff r target s).1 found).imp_right And.left
  have resolved : (resolveOrFail tag).run m = (.ok (Memory.tagId tag), m) :=
    run_resolveOrFail_eq_ok.2 ⟨own, rfl⟩
  rw [dist, Action.run_look_bind, show Backend.latestTag m = some tag from latest] at run
  dsimp only at run
  rw [Action.run_bind_of_ok resolved, Action.run_bind] at run
  rcases m.run_distFiles config ignoreExisting tag files with ⟨done, u, ran, kept⟩ |
    ⟨before, path, after, done, e, u, -, kept, -, ran⟩
  · obtain ⟨pushed, v, published, -, -, -, notes, -⟩ := publish_total config { m with notes := u }
    rw [ran] at run
    dsimp only at run
    rw [Action.run_bind, published] at run
    cases pushed with
    | ok push =>
        obtain ⟨rfl, rfl⟩ := Prod.mk.inj run
        refine ⟨fun report same => ?_, notes ▸ added kept⟩
        obtain rfl := Except.ok.inj same
        rfl
    | error e =>
        obtain ⟨rfl, rfl⟩ := Prod.mk.inj run
        exact ⟨by rintro _ ⟨⟩, notes ▸ added kept⟩
  · rw [ran] at run
    obtain ⟨rfl, rfl⟩ := Prod.mk.inj run
    exact ⟨by rintro _ ⟨⟩, added kept⟩

theorem check_at_latest {request : Request} (unasked : request.oldRef = none)
    {report : CheckReport} {n : Memory} (run : (check config request).run m = (.ok report, n)) :
    report.oldRef = some tag := by
  have same : (m.refreshed config.area).latestTag = m.latestTag := by
    rw [Memory.refreshed]
    split
    · rfl
    · rfl
  rw [run_check] at run
  split at run
  · cases run
  · have reported := congrArg Prod.fst run
    dsimp only at reported
    rw [Memory.reportAgainst, unasked, Option.none_or, same, latest] at reported
    dsimp only at reported
    split at reported
    · cases reported
    · obtain rfl := Except.ok.inj reported
      rfl

end Latest

/-- A list of a repository in memory has one entry for each release and each file that has
snapshots or is asked for, with the note that is there, from the newest release on. The release of
its first entry is the latest one, to which distributions add and with which checks compare. -/
theorem list_tabulates (config : Config) (files : List String)
    (plain : ∀ tag ∈ m.tags.names, ∀ rest, tag ≠ Memory.tagsHeading ++ rest) :
    ∃ entries, list config files m = .ok entries ∧
      m.Tabulates config (checkedFiles config files m) entries ∧
      m.Covers config files (checkedFiles config files m) ∧
      ∀ e ∈ entries.head?, m.latestTag = some e.tag ∧
        (∀ paths ignoreExisting outcome w,
          (dist config paths ignoreExisting).run m = (outcome, w) →
          (∀ report, outcome = .ok report → report.tag = e.tag) ∧
          ∀ r target s, w.notes.find? r target = some s → m.notes.find? r target = some s ∨
            target = Memory.tagId e.tag) ∧
        ∀ request report n, request.oldRef = none →
          (check config request).run m = (.ok report, n) → report.oldRef = some e.tag := by
  have covers := covers_checkedFiles m config files
  refine ⟨_, list_eq_ok plain, tabulates_entries covers.once, covers, fun e first => ?_⟩
  obtain ⟨rest, whole⟩ := List.head?_eq_some_iff.1 first
  obtain ⟨tags, later, dates, newest⟩ := newestFirst_of_list (whole ▸ list_eq_ok plain)
  obtain rfl := Except.ok.inj (dates.symm.trans (mapM_dateTag m))
  have latest : m.latestTag = some e.tag := Memory.latestTag_of_newestFirst newest
  have own : m.resolve e.tag = some (Memory.tagId e.tag) := by
    obtain ⟨known, -⟩ := newestFirst_eq_cons newest
    obtain ⟨release, found, -⟩ := Memory.mem_datedTags_iff.1 known
    exact Memory.resolve_of_plain
      (plain e.tag (Table.mem_names_iff.2 (Option.isSome_of_eq_some found))) found
  exact ⟨latest, fun _ _ _ _ run => dist_at_latest latest own run,
    fun _ _ _ unasked run => check_at_latest latest unasked run⟩

/-- Three releases, two of them made at one time, and snapshots of two files, one of them of another
release only. -/
def threeReleases : Memory where
  tags := Table.ofList [("v2", ⟨200, .empty⟩), ("v1.1", ⟨200, .empty⟩), ("v9", ⟨100, .empty⟩)]
  notes := (Notes.add .empty "refs/notes/dbus/api/bell.xml" "tag:v1.1" "1").add
    "refs/notes/dbus/api/gong.xml" "tag:v9" "2"

theorem threeReleases_tabulated :
    (∀ tag ∈ threeReleases.tags.names, ∀ rest, tag ≠ Memory.tagsHeading ++ rest) ∧
    ∃ entries, list {} ["api/lamp.xml", "bell.xml"] threeReleases = .ok entries ∧
      threeReleases.Tabulates {} ["bell.xml", "gong.xml", "lamp.xml"] entries ∧
      entries.map (fun e => (e.tag, e.file, e.note)) =
        [("v2", "bell.xml", none), ("v2", "gong.xml", none), ("v2", "lamp.xml", none),
          ("v1.1", "bell.xml", some (Memory.contentId "1")), ("v1.1", "gong.xml", none),
          ("v1.1", "lamp.xml", none), ("v9", "bell.xml", none),
          ("v9", "gong.xml", some (Memory.contentId "2")), ("v9", "lamp.xml", none)] ∧
      threeReleases.latestTag = some "v2" := by
  have plain : ∀ tag ∈ threeReleases.tags.names, ∀ rest, tag ≠ Memory.tagsHeading ++ rest := by
    simp only [← Text.after?_eq_none_iff]
    decide +kernel
  have names : checkedFiles {} ["api/lamp.xml", "bell.xml"] threeReleases =
      ["bell.xml", "gong.xml", "lamp.xml"] := by decide +kernel
  have told : (list {} ["api/lamp.xml", "bell.xml"] threeReleases).toOption.map
      (fun entries => entries.map fun e => (e.tag, e.file, e.note)) = some
        [("v2", "bell.xml", none), ("v2", "gong.xml", none), ("v2", "lamp.xml", none),
          ("v1.1", "bell.xml", some (Memory.contentId "1")), ("v1.1", "gong.xml", none),
          ("v1.1", "lamp.xml", none), ("v9", "bell.xml", none),
          ("v9", "gong.xml", some (Memory.contentId "2")), ("v9", "lamp.xml", none)] := by
    decide +kernel
  obtain ⟨entries, run, table, -, newest⟩ :=
    list_tabulates {} ["api/lamp.xml", "bell.xml"] plain
  rw [run] at told
  rw [names] at table
  have rows := Option.some_inj.1 told
  refine ⟨plain, entries, run, table, rows, ?_⟩
  cases entries with
  | nil => exact nomatch rows
  | cons e rest =>
      have first : e.tag = "v2" := congrArg Prod.fst (List.cons.inj rows).1
      exact first ▸ (newest e rfl).1

end ApiDrift.Snapshot
