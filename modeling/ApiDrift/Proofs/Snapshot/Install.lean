import ApiDrift.Proofs.Snapshot.Release
import Mathlib.Logic.Function.Basic
/-! Installation: which snapshots it records. A nested loop over releases and files writes to the
notes that it reads, and files are told apart by base names only. What has been recorded at any
moment is what was missing, had the files of each release ended where the loop has come to. -/
namespace ApiDrift.Snapshot

theorem Memory.tagId_injective : Function.Injective Memory.tagId :=
  fun _ _ same => (String.append_right_inj _).1 same

theorem Config.notesRef_injective (c : Config) : Function.Injective c.notesRef :=
  fun _ _ same => (String.append_right_inj _).1 same

namespace Memory

/-- The first of the files with a base name that a release has. -/
def source? (m : Memory) (tag : String) (files : List String) (base : String) : Option String :=
  files.find? fun path => Text.basename path == base && (m.tagText tag path).isSome

/-- A snapshot that a release lacks, of the first of the files with its base name. -/
structure Missing (m : Memory) (config : Config) (files : List String) (x : Recorded) : Prop where
  source : m.source? x.tag files (Text.basename x.file) = some x.file
  note : (m.tagText x.tag x.file).map contentId = some x.note
  ref : x.notesRef = config.notesRef (Text.basename x.file)
  absent : m.notes.find? x.notesRef (tagId x.tag) = none

variable {m : Memory} {config : Config} {files : List String} {tag base path : String}
  {x : Recorded}

theorem source?_append (first second : List String) :
    m.source? tag (first ++ second) base =
      (m.source? tag first base).or (m.source? tag second base) := List.find?_append

theorem of_source? (h : m.source? tag files base = some path) :
    path ∈ files ∧ Text.basename path = base ∧ ∃ s, m.tagText tag path = some s := by
  unfold source? at h
  have chosen := List.find?_some h
  have ⟨named, carried⟩ := Bool.and_eq_true_iff.1 chosen
  exact ⟨List.mem_of_find?_eq_some h, eq_of_beq named, Option.isSome_iff_exists.1 carried⟩

theorem Missing.nil : ¬m.Missing config [] x := fun h => nomatch h.source

theorem missing_append_iff {first second : List String} :
    m.Missing config (first ++ second) x ↔ m.Missing config first x ∨
      m.source? x.tag first (Text.basename x.file) = none ∧ m.Missing config second x := by
  constructor
  · intro h
    have source := h.source
    rw [source?_append, Option.or_eq_some_iff] at source
    rcases source with source | ⟨none, source⟩
    · exact .inl { h with source }
    · exact .inr ⟨none, { h with source }⟩
  · rintro (h | ⟨none, h⟩)
    · exact { h with source := by rw [source?_append, h.source, Option.some_or] }
    · exact { h with source := by rw [source?_append, none, Option.none_or, h.source] }

theorem missing_singleton_iff :
    m.Missing config [path] x ↔ x.file = path ∧
      (∃ s, m.tagText x.tag path = some s ∧ contentId s = x.note) ∧
      x.notesRef = config.notesRef (Text.basename path) ∧
      m.notes.find? x.notesRef (tagId x.tag) = none := by
  constructor
  · intro h
    have file := List.mem_singleton.1 (of_source? h.source).1
    exact ⟨file, file ▸ Option.map_eq_some_iff.1 h.note, file ▸ h.ref, h.absent⟩
  · rintro ⟨rfl, ⟨s, text, note⟩, ref, absent⟩
    refine ⟨?_, Option.map_eq_some_iff.2 ⟨s, text, note⟩, ref, absent⟩
    rw [source?, List.find?_singleton, beq_self_eq_true, text]
    rfl

theorem Missing.eq {y : Recorded} (h : m.Missing config files x) (h' : m.Missing config files y)
    (tag : x.tag = y.tag) (ref : x.notesRef = y.notesRef) : x = y := by
  have base : Text.basename x.file = Text.basename y.file :=
    config.notesRef_injective (h.ref.symm.trans (ref.trans h'.ref))
  have file : x.file = y.file := by
    apply Option.some_inj.1
    rw [← h.source, ← h'.source, tag, base]
  have note : x.note = y.note := by
    apply Option.some_inj.1
    rw [← h.note, ← h'.note, tag, file]
  cases x
  cases y
  exact Recorded.mk.injEq .. ▸ ⟨tag, file, ref, note⟩

end Memory

/-- By release, and in a release by the place of the file. -/
def Recorded.Precedes (files : List String) (x y : Recorded) : Prop :=
  x.tag < y.tag ∨ x.tag = y.tag ∧ files.idxOf x.file < files.idxOf y.file

/-- A moment of an installation in `m`: what has been recorded is what was missing among the files
that were read at each release, and the notes are those from before with it. -/
structure Progress (m : Memory) (config : Config) (files : List String)
    (read : String → List String) (records : List Recorded) (v : Memory) : Prop where
  frame : v = { m with notes := v.notes }
  mem_iff : ∀ x, x ∈ records ↔ m.Missing config (read x.tag) x
  found_iff : ∀ r target s, v.notes.find? r target = some s ↔ m.notes.find? r target = some s ∨
    ∃ x ∈ records, x.notesRef = r ∧ Memory.tagId x.tag = target ∧
      m.tagText x.tag x.file = some s
  ordered : records.Pairwise (Recorded.Precedes files)

namespace Progress
variable {m v : Memory} {config : Config} {files : List String} {read : String → List String}
  {records : List Recorded} {tag path : String}

theorem start : Progress m config files (fun _ => []) [] m := by
  refine ⟨rfl, fun x => ?_, fun r target s => ?_, .nil⟩
  · exact iff_of_false List.not_mem_nil Memory.Missing.nil
  · rw [or_iff_left]
    rintro ⟨x, hx, -⟩
    exact List.not_mem_nil hx

theorem tagText_eq (h : Progress m config files read records v) (tag path : String) :
    v.tagText tag path = m.tagText tag path := by
  rw [h.frame]
  rfl

/-- Nothing is found just if nothing was there before and no file with the base name was read. -/
theorem find?_eq_none_iff (h : Progress m config files read records v) (tag base : String) :
    v.notes.find? (config.notesRef base) (Memory.tagId tag) = none ↔
      m.notes.find? (config.notesRef base) (Memory.tagId tag) = none ∧
        m.source? tag (read tag) base = none := by
  simp only [Option.eq_none_iff_forall_ne_some]
  constructor
  · intro none
    have before : m.notes.find? (config.notesRef base) (Memory.tagId tag) = .none := by
      apply Option.eq_none_iff_forall_ne_some.2
      intro s known
      exact none s ((h.found_iff _ _ s).2 (.inl known))
    refine ⟨Option.eq_none_iff_forall_ne_some.1 before, fun path source => ?_⟩
    obtain ⟨-, rfl, s, text⟩ := Memory.of_source? source
    have recorded :
        ⟨tag, path, config.notesRef (Text.basename path), Memory.contentId s⟩ ∈ records :=
      (h.mem_iff _).2 ⟨source, congrArg (Option.map _) text, rfl, before⟩
    exact none s ((h.found_iff _ _ s).2 (.inr ⟨_, recorded, rfl, rfl, text⟩))
  · rintro ⟨before, unread⟩ s found
    rcases (h.found_iff _ _ s).1 found with known | ⟨x, hx, ref, object, -⟩
    · exact before s known
    · obtain rfl := Memory.tagId_injective object
      have missing := (h.mem_iff x).1 hx
      obtain rfl := config.notesRef_injective (missing.ref.symm.trans ref)
      exact unread _ missing.source

/-- One more file is read at a release. What that adds is what was missing of this file alone,
unless a file with its base name was read there before. -/
theorem extend {after : List String} {fresh : Option Recorded} {w : Memory}
    (h : Progress m config files read records v) (whole : read tag ++ path :: after = files)
    (latest : ∀ t, read t ≠ [] → t ≠ tag → t < tag) (frame : w = { m with notes := w.notes })
    (mem_iff : ∀ x, x ∈ fresh.toList ↔ x.tag = tag ∧
      m.source? tag (read tag) (Text.basename x.file) = none ∧ m.Missing config [path] x)
    (added : ∀ r target s, w.notes.find? r target = some s ↔ v.notes.find? r target = some s ∨
      ∃ x ∈ fresh.toList, x.notesRef = r ∧ Memory.tagId x.tag = target ∧
        m.tagText x.tag x.file = some s) :
    Progress m config files (Function.update read tag (read tag ++ [path]))
      (records ++ fresh.toList) w := by
  refine ⟨frame, fun x => ?_, fun r target s => ?_, ?_⟩
  · rw [List.mem_append, h.mem_iff, mem_iff]
    by_cases here : x.tag = tag
    · subst here
      rw [Function.update_self, Memory.missing_append_iff, and_iff_right rfl]
    · rw [Function.update_of_ne here, or_iff_left fun new => here new.1]
  · rw [added, h.found_iff]
    simp only [List.mem_append, or_and_right, exists_or, or_assoc]
  · refine List.pairwise_append.2 ⟨h.ordered, ?_, ?_⟩
    · cases fresh with
      | none => exact .nil
      | some x => exact List.pairwise_singleton _ x
    · intro y hy x hx
      obtain ⟨here, unread, missing⟩ := (mem_iff x).1 hx
      obtain ⟨rfl, ⟨s, text, -⟩, -⟩ := Memory.missing_singleton_iff.1 missing
      have place := (Memory.of_source? ((h.mem_iff y).1 hy).source).1
      by_cases same : y.tag = tag
      · rw [same] at place
        have new : x.file ∉ read tag := by
          intro old
          have passed := List.find?_eq_none.1 unread x.file old
          rw [beq_self_eq_true, ← here, text] at passed
          exact passed rfl
        refine .inr ⟨same.trans here.symm, ?_⟩
        rw [← whole, List.idxOf_append_of_mem place, List.idxOf_append_of_notMem new,
          List.idxOf_cons_self]
        exact List.idxOf_lt_length_iff.2 place
      · exact .inl (here ▸ latest _ (List.ne_nil_of_mem place) same)

section
variable {after : List String} (h : Progress m config files read records v)
  (whole : read tag ++ path :: after = files) (latest : ∀ t, read t ≠ [] → t ≠ tag → t < tag)
include h whole latest

theorem pass (nothing : ∀ x : Recorded, x.tag = tag →
      m.source? tag (read tag) (Text.basename x.file) = none → ¬m.Missing config [path] x) :
    Progress m config files (Function.update read tag (read tag ++ [path]))
      (records ++ (none : Option Recorded).toList) v := by
  refine h.extend whole latest h.frame (fun x => ?_) fun r target s => ?_
  · refine iff_of_false List.not_mem_nil ?_
    rintro ⟨here, unread, missing⟩
    exact nothing x here unread missing
  · rw [or_iff_left]
    rintro ⟨x, hx, -⟩
    exact List.not_mem_nil hx

theorem add {s : String} (text : m.tagText tag path = some s)
    (fresh : v.notes.find? (config.notesRef (Text.basename path)) (Memory.tagId tag) = none) :
    Progress m config files (Function.update read tag (read tag ++ [path]))
      (records ++ (some ⟨tag, path, config.notesRef (Text.basename path), Memory.contentId s⟩ :
        Option Recorded).toList)
      (v.noted (config.notesRef (Text.basename path)) (Memory.tagId tag) s) := by
  obtain ⟨absent, unread⟩ := (h.find?_eq_none_iff tag (Text.basename path)).1 fresh
  refine h.extend whole latest ?_ (fun x => ?_) fun r target t => ?_
  · rw [h.frame]
    rfl
  · rw [Option.toList_some, List.mem_singleton]
    constructor
    · rintro rfl
      exact ⟨rfl, unread, Memory.missing_singleton_iff.2 ⟨rfl, ⟨s, text, rfl⟩, rfl, absent⟩⟩
    · rintro ⟨rfl, -, missing⟩
      obtain ⟨rfl, ⟨t, carried, note⟩, ref, -⟩ := Memory.missing_singleton_iff.1 missing
      obtain rfl := Option.some_inj.1 (text.symm.trans carried)
      rw [← ref, note]
  · refine (Notes.find?_add_eq_some_iff fresh).trans ?_
    simp only [Option.toList_some, List.mem_singleton, exists_eq_left, text, Option.some_inj]

theorem installFile_ok :
    ∃ fresh w, (installFile config tag (Memory.tagId tag) path).run v = (.ok fresh, w) ∧
      (∀ x ∈ fresh.toList, x.tag = tag) ∧
      Progress m config files (Function.update read tag (read tag ++ [path]))
        (records ++ fresh.toList) w := by
  rw [run_installFile, h.tagText_eq]
  dsimp only
  split
  · next found =>
    refine ⟨none, v, rfl, nofun, h.pass whole latest ?_⟩
    rintro x rfl unread missing
    obtain ⟨rfl, -, ref, absent⟩ := Memory.missing_singleton_iff.1 missing
    rw [ref] at absent
    rw [(h.find?_eq_none_iff _ _).2 ⟨absent, unread⟩] at found
    exact Bool.false_ne_true found
  · next fresh =>
    cases text : m.tagText tag path with
    | none =>
        refine ⟨none, v, rfl, nofun, h.pass whole latest ?_⟩
        rintro x rfl - missing
        obtain ⟨-, ⟨s, carried, -⟩, -⟩ := Memory.missing_singleton_iff.1 missing
        rw [text] at carried
        exact nomatch carried
    | some s =>
        refine ⟨some _, _, rfl, fun x hx => ?_, ?_⟩
        · rw [List.mem_singleton.1 hx]
        · exact h.add whole latest text (Option.not_isSome_iff_eq_none.1 fresh)

end

theorem installFiles_ok (h : Progress m config files read records v) (unread : read tag = [])
    (latest : ∀ t, read t ≠ [] → t < tag) :
    ∃ done w, (files.mapM (installFile config tag (Memory.tagId tag))).run v = (.ok done, w) ∧
      (∀ x ∈ done.filterMap id, x.tag = tag) ∧
      Progress m config files (Function.update read tag files)
        (records ++ done.filterMap id) w := by
  have start : Progress m config files (Function.update read tag [])
      (records ++ ([] : List (Option Recorded)).filterMap id) v := by
    rwa [Function.update_eq_self_iff.2 unread.symm, List.filterMap_nil, List.append_nil]
  refine Action.run_mapM_total (P := fun before done u => (∀ x ∈ done.filterMap id, x.tag = tag) ∧
    Progress m config files (Function.update read tag before) (records ++ done.filterMap id) u)
    ⟨nofun, start⟩ ?_
  intro before path after done u whole ⟨own, here⟩
  have sofar : Function.update read tag before tag ++ path :: after = files := by
    rwa [Function.update_self]
  have later (t : String) (some : Function.update read tag before t ≠ []) (other : t ≠ tag) :
      t < tag := by
    rw [Function.update_of_ne other] at some
    exact latest t some
  obtain ⟨fresh, w, run, also, next⟩ := here.installFile_ok sofar later
  have more : (done ++ [fresh]).filterMap id = done.filterMap id ++ fresh.toList := by
    rw [List.filterMap_append]
    cases fresh <;> rfl
  rw [Function.update_idem, Function.update_self, List.append_assoc, ← more] at next
  refine ⟨fresh, w, run, ?_, next⟩
  rw [more]
  exact List.forall_mem_append.2 ⟨own, also⟩

theorem installAt_ok (h : Progress m config files read records v) (unread : read tag = [])
    (latest : ∀ t, read t ≠ [] → t < tag) (resolved : v.resolve tag = some (Memory.tagId tag)) :
    ∃ release w, (installAt config files tag).run v = (.ok release, w) ∧ release.tag = tag ∧
      (∀ x ∈ release.added, x.tag = tag) ∧
      Progress m config files (Function.update read tag files) (records ++ release.added) w := by
  obtain ⟨done, w, run, own, last⟩ := h.installFiles_ok unread latest
  have named := run_resolveOrFail v tag
  rw [resolved] at named
  refine ⟨⟨tag, done.filterMap id⟩, w, ?_, rfl, own, last⟩
  rw [installAt, Action.run_bind_of_ok named, Action.run_bind_of_ok run]
  rfl

end Progress

/-- All files at the releases that are done, and none at the others. -/
def readAt (files done : List String) (tag : String) : List String :=
  if tag ∈ done then files else []

theorem update_readAt (files done : List String) (tag : String) :
    Function.update (readAt files done) tag files = readAt files (done ++ [tag]) := by
  funext t
  by_cases same : t = tag
  · subst same
    rw [Function.update_self, readAt, if_pos (List.mem_append_right _ List.mem_cons_self)]
  · rw [Function.update_of_ne same]
    simp only [readAt, List.mem_append, List.mem_singleton, or_iff_left same]

variable {m : Memory} {config : Config} {files : List String}

/-- Installing succeeds at every release, and is done with a release when it comes to the next. -/
theorem installAll_ok (config : Config) (files : List String)
    (plain : ∀ tag ∈ m.tags.names, ∀ rest, tag ≠ Memory.tagsHeading ++ rest) :
    ∃ releases v, (installAll config files).run m = (.ok releases, v) ∧
      releases.map Release.tag = m.tags.names ∧ (∀ r ∈ releases, ∀ x ∈ r.added, x.tag = r.tag) ∧
      Progress m config files (readAt files m.tags.names) (releases.flatMap Release.added) v := by
  have sorted : m.tags.names.Pairwise (· < ·) := m.tags.sorted.map _ fun _ _ before => before
  show ∃ releases v, (m.tags.names.mapM (installAt config files)).run m = (.ok releases, v) ∧ _
  refine Action.run_mapM_total (P := fun before releases u => releases.map Release.tag = before ∧
    (∀ r ∈ releases, ∀ x ∈ r.added, x.tag = r.tag) ∧
    Progress m config files (readAt files before) (releases.flatMap Release.added) u)
    ⟨rfl, nofun, .start⟩ ?_
  intro before tag after releases u whole ⟨names, own, here⟩
  -- Names ascend, so that a release is read once and all records so far are of earlier ones.
  rw [← whole] at sorted
  have earlier (t : String) (ht : t ∈ before) : t < tag :=
    (List.pairwise_append.1 sorted).2.2 t ht tag List.mem_cons_self
  have new : tag ∉ before := fun old => String.lt_irrefl _ (earlier tag old)
  have latest (t : String) (some : readAt files before t ≠ []) : t < tag := by
    by_contra later
    exact some (if_neg fun old => later (earlier t old))
  have known : tag ∈ m.tags.names := whole ▸ List.mem_append_right _ List.mem_cons_self
  have resolved : u.resolve tag = some (Memory.tagId tag) := by
    obtain ⟨release, found⟩ := Option.isSome_iff_exists.1 (Table.mem_names_iff.1 known)
    rw [here.frame]
    exact Memory.resolve_of_plain (plain tag known) found
  obtain ⟨release, w, run, tagged, also, next⟩ := here.installAt_ok (if_neg new) latest resolved
  refine ⟨release, w, run, ?_, ?_, ?_⟩
  · rw [List.map_append, names, List.map_singleton, tagged]
  · refine List.forall_mem_append.2 ⟨own, List.forall_mem_singleton.2 ?_⟩
    rwa [tagged]
  · rwa [List.flatMap_append, List.flatMap_singleton, ← update_readAt]

/-- Publishing touches neither the releases nor the notes, and fails only for want of a remote. -/
theorem publish_total (config : Config) (v : Memory) :
    ∃ outcome w, (publish config).run v = (outcome, w) ∧ w.tags = v.tags ∧ w.refs = v.refs ∧
      w.workTree = v.workTree ∧ w.notes = v.notes ∧
      ∀ e, outcome = .error e → e = .remoteSync config.remote "remote unavailable" ∧
        config.push = true ∧ v.remoteFails = true := by
  rw [run_publish]
  split
  · exact ⟨_, v, rfl, rfl, rfl, rfl, rfl, nofun⟩
  · split
    · next push =>
      split
      · next fails =>
        refine ⟨_, v, rfl, rfl, rfl, rfl, rfl, fun e failed => ?_⟩
        exact ⟨(Except.error.inj failed).symm, push, fails⟩
      · exact ⟨_, _, rfl, rfl, rfl, rfl, rfl, nofun⟩
    · exact ⟨_, v, rfl, rfl, rfl, rfl, rfl, nofun⟩

theorem Recorded.Precedes.irrefl (files : List String) (x : Recorded) : ¬x.Precedes files x := by
  rintro (before | ⟨-, before⟩)
  · exact String.lt_irrefl _ before
  · exact Nat.lt_irrefl _ before

theorem missing_readAt_iff {x : Recorded} :
    m.Missing config (readAt files m.tags.names x.tag) x ↔ m.Missing config files x := by
  unfold readAt
  split
  · exact Iff.rfl
  · next unknown =>
    refine iff_of_false Memory.Missing.nil fun h => unknown ?_
    obtain ⟨s, text, -⟩ := Option.map_eq_some_iff.1 h.note
    obtain ⟨release, found, -⟩ := Option.bind_eq_some_iff.1 text
    exact Table.mem_names_iff.2 (Option.isSome_of_eq_some found)

theorem map_tag_filter_isEmpty {releases : List Release}
    (distinct : (releases.map Release.tag).Nodup)
    (own : ∀ r ∈ releases, ∀ x ∈ r.added, x.tag = r.tag) :
    (releases.filter fun r => r.added.isEmpty).map Release.tag =
      (releases.map Release.tag).filter fun tag =>
        ∀ x ∈ releases.flatMap Release.added, x.tag ≠ tag := by
  rw [List.filter_map]
  refine congrArg (List.map Release.tag) (List.filter_congr fun r hr => ?_)
  rw [Function.comp_apply, Bool.eq_iff_iff, decide_eq_true_iff, List.isEmpty_iff]
  constructor
  · intro empty x hx same
    obtain ⟨r', hr', hx⟩ := List.mem_flatMap.1 hx
    obtain rfl := List.inj_on_of_nodup_map distinct hr' hr ((own r' hr' x hx).symm.trans same)
    rw [empty] at hx
    exact List.not_mem_nil hx
  · intro none
    apply List.eq_nil_iff_forall_not_mem.2
    intro x hx
    exact none x (List.mem_flatMap.2 ⟨r, hr, hx⟩) (own r hr x hx)

/-- The repository after the missing snapshots of the files were added, and nothing else. -/
structure Memory.Completed (m : Memory) (config : Config) (files : List String) (w : Memory) :
    Prop where
  tags : w.tags = m.tags
  refs : w.refs = m.refs
  workTree : w.workTree = m.workTree
  found_iff : ∀ r target s, w.notes.find? r target = some s ↔ m.notes.find? r target = some s ∨
    ∃ x, m.Missing config files x ∧ x.notesRef = r ∧ tagId x.tag = target ∧
      m.tagText x.tag x.file = some s

/-- The report of what was missing, each snapshot once and in order, and of the other releases. -/
structure InstallReport.Accounts (report : InstallReport) (m : Memory) (config : Config)
    (files : List String) : Prop where
  mem_added_iff : ∀ x, x ∈ report.added ↔ m.Missing config files x
  ordered : report.added.Pairwise (Recorded.Precedes files)
  once : (report.added.map fun x => (x.notesRef, x.tag)).Nodup
  unchanged : report.unchanged = m.tags.names.filter fun tag => ∀ x ∈ report.added, x.tag ≠ tag

theorem Progress.completed {records : List Recorded} {v w : Memory}
    (h : Progress m config files (readAt files m.tags.names) records v) (tags : w.tags = v.tags)
    (refs : w.refs = v.refs) (workTree : w.workTree = v.workTree) (notes : w.notes = v.notes) :
    m.Completed config files w := by
  refine ⟨?_, ?_, ?_, fun r target s => ?_⟩
  · rw [tags, h.frame]
  · rw [refs, h.frame]
  · rw [workTree, h.frame]
  · rw [notes, h.found_iff]
    simp only [h.mem_iff, missing_readAt_iff]

theorem Progress.accounts {releases : List Release} {v : Memory}
    (h : Progress m config files (readAt files m.tags.names) (releases.flatMap Release.added) v)
    (names : releases.map Release.tag = m.tags.names)
    (own : ∀ r ∈ releases, ∀ x ∈ r.added, x.tag = r.tag) (push : Option PushOutcome) :
    InstallReport.Accounts ⟨releases.flatMap Release.added,
      (releases.filter fun r => r.added.isEmpty).map Release.tag, push⟩ m config files := by
  have mem_iff (x : Recorded) :
      x ∈ releases.flatMap Release.added ↔ m.Missing config files x := by
    rw [h.mem_iff, missing_readAt_iff]
  refine ⟨mem_iff, h.ordered, ?_, ?_⟩
  · refine List.pairwise_map.2 (h.ordered.imp_of_mem fun {x y} hx hy before same => ?_)
    have ⟨ref, tag⟩ := Prod.mk.inj same
    have one := ((mem_iff x).1 hx).eq ((mem_iff y).1 hy) tag ref
    exact Recorded.Precedes.irrefl files y (one ▸ before)
  · rw [map_tag_filter_isEmpty (names ▸ m.tags.names_nodup) own, names]

/-- Whatever files are asked for and whatever notes there are, an installation adds just the missing
snapshots. It can fail only when it comes to publish them, and else it reports just these. -/
theorem install_completes (config : Config) (files : List String)
    (plain : ∀ tag ∈ m.tags.names, ∀ rest, tag ≠ Memory.tagsHeading ++ rest) :
    ∃ outcome w, (install config files).run m = (outcome, w) ∧ m.Completed config files w ∧
      match outcome with
      | .ok report => report.Accounts m config files
      | .error e => e = .remoteSync config.remote "remote unavailable" ∧ config.push = true ∧
          m.remoteFails = true := by
  obtain ⟨releases, v, run, names, own, last⟩ := installAll_ok config files plain
  obtain ⟨outcome, w, published, tags, refs, workTree, notes, failed⟩ := publish_total config v
  have completed := last.completed tags refs workTree notes
  rw [install, Action.run_bind_of_ok run, Action.run_bind, published]
  cases outcome with
  | ok push => exact ⟨_, w, rfl, completed, last.accounts names own push⟩
  | error e =>
      have ⟨reason, push, fails⟩ := failed e rfl
      rw [last.frame] at fails
      exact ⟨_, w, rfl, completed, reason, push, fails⟩

/-- Two releases with files of one base name. The later one has a snapshot of it already. -/
def twoReleases : Memory where
  tags := Table.ofList
    [("v1", ⟨0, Table.ofList [("a/bell.xml", "1"), ("b/bell.xml", "2"), ("README", "A bell.")]⟩),
     ("v2", ⟨1, Table.ofList [("a/bell.xml", "3")]⟩)]
  notes := Notes.add .empty "refs/notes/dbus/api/bell.xml" "tag:v2" "0"

theorem twoReleases_completed :
    (∀ tag ∈ twoReleases.tags.names, ∀ rest, tag ≠ Memory.tagsHeading ++ rest) ∧
    ∃ report w, (install {} ["README", "b/bell.xml", "a/bell.xml", "README"]).run twoReleases =
        (.ok report, w) ∧
      twoReleases.Completed {} ["README", "b/bell.xml", "a/bell.xml", "README"] w ∧
      report.Accounts twoReleases {} ["README", "b/bell.xml", "a/bell.xml", "README"] ∧
      report.added.map (fun x => (x.tag, x.file, x.note)) =
        [("v1", "README", Memory.contentId "A bell."), ("v1", "b/bell.xml", Memory.contentId "2")] ∧
      report.unchanged = ["v2"] := by
  have plain : ∀ tag ∈ twoReleases.tags.names, ∀ rest, tag ≠ Memory.tagsHeading ++ rest := by
    have names : ∀ tag ∈ twoReleases.tags.names, Text.after? Memory.tagsHeading tag = none := by
      decide +kernel
    intro tag known rest same
    have other := names tag known
    rw [Text.after?_eq_some_iff.2 same] at other
    exact nomatch other
  have told : ((install {} ["README", "b/bell.xml", "a/bell.xml", "README"]).run
      twoReleases).1.toOption.map (fun report =>
        (report.added.map (fun x => (x.tag, x.file, x.note)), report.unchanged)) =
      some ([("v1", "README", Memory.contentId "A bell."),
        ("v1", "b/bell.xml", Memory.contentId "2")], ["v2"]) := by
    decide +kernel
  obtain ⟨outcome, w, run, completed, account⟩ := install_completes {} _ plain
  rw [run] at told
  obtain ⟨report, rfl, reported⟩ := exists_of_toOption_map told
  obtain ⟨added, unchanged⟩ := Prod.mk.inj reported
  exact ⟨plain, report, w, run, completed, account, added, unchanged⟩

end ApiDrift.Snapshot
