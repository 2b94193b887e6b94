import ApiDrift.Proofs.Snapshot.Install
import ApiDrift.Proofs.Snapshot.Retry
/-! Distribution: files recorded for the latest release, one after another. A file finds the notes
that those before it have left. So what becomes of it depends on the repository at the start and on
the files before it, and where one is refused, those before it are done and nothing else is. -/
namespace ApiDrift.Snapshot

namespace Memory

/-- The text of a file for a release: from the release, or else from the work tree. -/
def releaseText (m : Memory) (tag path : String) : Option String :=
  (m.tagText tag path).or (m.workText path)

/-- A file has a note for the release once those before it are done: there was one, or one of them
has the same base name. -/
def Covered (m : Memory) (config : Config) (tag : String) (before : List String)
    (path : String) : Prop :=
  (m.notes.find? (config.notesRef (Text.basename path)) (tagId tag)).isSome ∨
    ∃ earlier ∈ before, Text.basename earlier = Text.basename path

/-- What becomes of a file after those before it. -/
inductive Fate (m : Memory) (config : Config) (ignoreExisting : Bool) (tag : String)
    (before : List String) (path : String) : Except Failure Distributed → Prop where
  | added {s : String} (new : ¬m.Covered config tag before path)
      (text : m.releaseText tag path = some s) :
      Fate m config ignoreExisting tag before path
        (.ok (.added ⟨tag, path, config.notesRef (Text.basename path), contentId s⟩))
  | ignored (covered : m.Covered config tag before path) (tolerant : ignoreExisting = true) :
      Fate m config ignoreExisting tag before path (.ok (.ignored path))
  | noteExists (covered : m.Covered config tag before path) (strict : ignoreExisting = false) :
      Fate m config ignoreExisting tag before path (.error (.noteExists tag path))
  | missingFile (new : ¬m.Covered config tag before path)
      (absent : m.releaseText tag path = none) :
      Fate m config ignoreExisting tag before path (.error (.missingFile tag path))

/-- Files that were distributed, each with what became of it, and the notes afterwards. -/
structure Distribution (m : Memory) (config : Config) (ignoreExisting : Bool) (tag : String)
    (files : List String) (done : List Distributed) (notes : Notes) : Prop where
  length : done.length = files.length
  fate : ∀ before path after, files = before ++ path :: after →
    ∃ d, done[before.length]? = some d ∧ m.Fate config ignoreExisting tag before path (.ok d)
  found_iff : ∀ r target s, notes.find? r target = some s ↔ m.notes.find? r target = some s ∨
    target = tagId tag ∧ ∃ x ∈ done.filterMap Distributed.recorded?,
      x.notesRef = r ∧ m.releaseText tag x.file = some s
  covers : ∀ path, (notes.find? (config.notesRef (Text.basename path)) (tagId tag)).isSome ↔
    m.Covered config tag files path

variable {m : Memory} {config : Config} {ignoreExisting : Bool} {tag path : String}
  {files : List String}

theorem covered_concat_iff {p : String} : m.Covered config tag (files ++ [path]) p ↔
    m.Covered config tag files p ∨ Text.basename path = Text.basename p := by
  simp only [Covered, List.mem_append, List.mem_singleton, or_and_right, exists_or,
    exists_eq_left, or_assoc]

namespace Distribution
variable {done : List Distributed} {notes : Notes}

theorem start : m.Distribution config ignoreExisting tag [] [] m.notes := by
  refine ⟨rfl, fun before path after none => ?_, fun r target s => ?_, fun path => ?_⟩
  · exact absurd none (List.append_ne_nil_of_right_ne_nil _ (List.cons_ne_nil _ _)).symm
  · rw [or_iff_left]
    rintro ⟨-, x, hx, -⟩
    exact List.not_mem_nil hx
  · rw [Covered, or_iff_left]
    rintro ⟨earlier, hp, -⟩
    exact List.not_mem_nil hp

section
variable (h : m.Distribution config ignoreExisting tag files done notes)
include h

theorem fate_concat {d : Distributed} (own : m.Fate config ignoreExisting tag files path (.ok d))
    (before : List String) (p : String) (after : List String)
    (split : files ++ [path] = before ++ p :: after) :
    ∃ e, (done ++ [d])[before.length]? = some e ∧
      m.Fate config ignoreExisting tag before p (.ok e) := by
  rcases List.eq_nil_or_concat after with rfl | ⟨after, last, rfl⟩
  · obtain ⟨rfl, same⟩ := List.append_inj' split rfl
    obtain rfl := List.singleton_inj.1 same
    exact ⟨d, by rw [← h.length, List.getElem?_concat_length], own⟩
  · rw [List.concat_eq_append, ← List.cons_append, ← List.append_assoc] at split
    obtain ⟨rfl, -⟩ := List.append_inj' split rfl
    obtain ⟨e, found, fate⟩ := h.fate before p after rfl
    refine ⟨e, ?_, fate⟩
    rw [List.getElem?_append_left (List.getElem?_eq_some_iff.1 found).1, found]

theorem length_concat (d : Distributed) : (done ++ [d]).length = (files ++ [path]).length := by
  rw [List.length_append, List.length_append, h.length]
  rfl

theorem ignore (covered : m.Covered config tag files path) (tolerant : ignoreExisting = true) :
    m.Distribution config ignoreExisting tag (files ++ [path]) (done ++ [.ignored path]) notes := by
  have none : (done ++ [Distributed.ignored path]).filterMap Distributed.recorded? =
      done.filterMap Distributed.recorded? := by
    rw [List.filterMap_append]
    exact List.append_nil _
  refine ⟨h.length_concat _, h.fate_concat (.ignored covered tolerant), fun r target s => ?_,
    fun p => ?_⟩
  · rw [h.found_iff, none]
  · rw [h.covers, covered_concat_iff, or_iff_left_of_imp]
    intro same
    rwa [Covered, ← same]

theorem add {s : String} (new : ¬m.Covered config tag files path)
    (text : m.releaseText tag path = some s) :
    m.Distribution config ignoreExisting tag (files ++ [path])
      (done ++ [.added ⟨tag, path, config.notesRef (Text.basename path), contentId s⟩])
      (notes.add (config.notesRef (Text.basename path)) (tagId tag) s) := by
  have fresh : notes.find? (config.notesRef (Text.basename path)) (tagId tag) = none :=
    Option.not_isSome_iff_eq_none.1 fun found => new ((h.covers path).1 found)
  have one (x : Recorded) : (done ++ [Distributed.added x]).filterMap Distributed.recorded? =
      done.filterMap Distributed.recorded? ++ [x] := List.filterMap_append
  refine ⟨h.length_concat _, h.fate_concat (.added new text), fun r target t => ?_, fun p => ?_⟩
  · rw [Notes.find?_add_eq_some_iff fresh, h.found_iff, one, and_left_comm,
      eq_comm (a := tagId tag)]
    simp only [List.mem_append, List.mem_singleton, or_and_right, exists_or, exists_eq_left,
      and_or_left, or_assoc, text, Option.some_inj]
  · rw [covered_concat_iff, ← h.covers, Notes.find?_add]
    by_cases same : Text.basename p = Text.basename path
    · rw [if_pos ⟨congrArg _ same, rfl⟩]
      exact iff_of_true rfl (.inr same.symm)
    · rw [if_neg fun here => same (config.notesRef_injective here.1),
        or_iff_left fun same' => same same'.symm]

/-- One more file comes to what becomes of it, and is done then if it is not refused. -/
theorem run_distFile (path : String) : ∃ result u,
    (distFile config ignoreExisting tag (tagId tag) path).run { m with notes } =
      (result, { m with notes := u }) ∧
    m.Fate config ignoreExisting tag files path result ∧
    (∀ d, result = .ok d →
      m.Distribution config ignoreExisting tag (files ++ [path]) (done ++ [d]) u) ∧
    ∀ e, result = .error e → u = notes := by
  rw [Snapshot.run_distFile, show (({ m with notes } : Memory).tagText tag path).or
    (({ m with notes } : Memory).workText path) = m.releaseText tag path from rfl]
  dsimp only
  by_cases covered : m.Covered config tag files path
  · rw [if_pos ((h.covers path).2 covered)]
    cases given : ignoreExisting with
    | true =>
        refine ⟨_, notes, rfl, .ignored covered rfl, fun d done => ?_, fun e => nofun⟩
        obtain rfl := Except.ok.inj done
        exact given ▸ h.ignore covered given
    | false => exact ⟨_, notes, rfl, .noteExists covered rfl, fun d => nofun, fun _ _ => rfl⟩
  · rw [if_neg fun found => covered ((h.covers path).1 found)]
    cases text : m.releaseText tag path with
    | none => exact ⟨_, notes, rfl, .missingFile covered text, fun d => nofun, fun _ _ => rfl⟩
    | some s =>
        refine ⟨_, _, rfl, .added covered text, fun d done => ?_, fun e => nofun⟩
        obtain rfl := Except.ok.inj done
        exact h.add covered text

end

theorem exists_fate (h : m.Distribution config ignoreExisting tag files done notes)
    {d : Distributed} (hd : d ∈ done) : ∃ before path after, files = before ++ path :: after ∧
      m.Fate config ignoreExisting tag before path (.ok d) := by
  obtain ⟨i, hi, found⟩ := List.mem_iff_getElem.1 hd
  have here : i < files.length := h.length ▸ hi
  have split : files = files.take i ++ files[i] :: files.drop (i + 1) := by
    rw [← List.drop_eq_getElem_cons here, List.take_append_drop]
  obtain ⟨e, same, fate⟩ := h.fate _ _ _ split
  rw [List.length_take_of_le (Nat.le_of_lt here), List.getElem?_eq_getElem hi, found] at same
  obtain rfl := Option.some_inj.1 same
  exact ⟨_, _, _, split, fate⟩

end Distribution

/-- A run over all files distributes them, or those before the first one that is refused. -/
theorem run_distFiles (m : Memory) (config : Config) (ignoreExisting : Bool) (tag : String)
    (files : List String) :
    (∃ done u, (files.mapM (distFile config ignoreExisting tag (tagId tag))).run m =
        (.ok done, { m with notes := u }) ∧
      m.Distribution config ignoreExisting tag files done u) ∨
    ∃ before path after done e u, files = before ++ path :: after ∧
      m.Distribution config ignoreExisting tag before done u ∧
      m.Fate config ignoreExisting tag before path (.error e) ∧
      (files.mapM (distFile config ignoreExisting tag (tagId tag))).run m =
        (.error e, { m with notes := u }) := by
  have step : ∀ before path after done (u : Memory) d v, before ++ path :: after = files →
      (u = { m with notes := u.notes } ∧
        m.Distribution config ignoreExisting tag before done u.notes) →
      (distFile config ignoreExisting tag (tagId tag) path).run u = (.ok d, v) →
      v = { m with notes := v.notes } ∧
        m.Distribution config ignoreExisting tag (before ++ [path]) (done ++ [d]) v.notes := by
    rintro before path after done u d v - ⟨frame, here⟩ run
    obtain ⟨result, w, run', -, next, -⟩ := here.run_distFile path
    rw [frame, run'] at run
    obtain ⟨rfl, rfl⟩ := Prod.mk.inj run
    exact ⟨rfl, next d rfl⟩
  have start : m = { m with notes := m.notes } ∧
      m.Distribution config ignoreExisting tag [] [] m.notes := ⟨rfl, .start⟩
  rcases Action.run_mapM_cases start step with ⟨done, t, run, frame, last⟩ |
    ⟨before, path, after, done, u, e, t, whole, ⟨frame, here⟩, failed, run⟩
  · exact .inl ⟨done, t.notes, by rw [run, ← frame], last⟩
  · obtain ⟨result, w, run', fate, -, stays⟩ := here.run_distFile path
    rw [frame, run'] at failed
    obtain ⟨rfl, rfl⟩ := Prod.mk.inj failed
    obtain rfl := stays e rfl
    exact .inr ⟨before, path, after, done, e, _, whole.symm, here, fate, run⟩

/-- Why a distribution stopped, and what it has done by then. -/
inductive Stopped (m : Memory) (config : Config) (ignoreExisting : Bool) (files : List String)
    (w : Memory) : Failure → Prop where
  | noTags (none : m.latestTag = none) (same : w = m) :
      Stopped m config ignoreExisting files w .noTags
  | refused {tag path : String} {before after : List String} {done : List Distributed}
      {e : Failure} (latest : m.latestTag = some tag) (split : files = before ++ path :: after)
      (fate : m.Fate config ignoreExisting tag before path (.error e))
      (kept : m.Distribution config ignoreExisting tag before done w.notes)
      (frame : w = { m with notes := w.notes }) :
      Stopped m config ignoreExisting files w e
  | unpublished {tag : String} {done : List Distributed} (latest : m.latestTag = some tag)
      (kept : m.Distribution config ignoreExisting tag files done w.notes)
      (frame : w = { m with notes := w.notes }) (push : config.push = true)
      (fails : m.remoteFails = true) :
      Stopped m config ignoreExisting files w
        (.remoteSync config.remote "remote unavailable")

end Memory

/-- The report of files that all were distributed for the latest release: each is added or ignored,
in order, and the notes are those from before and what was added. -/
structure DistReport.Accounts (report : DistReport) (m : Memory) (config : Config)
    (ignoreExisting : Bool) (files : List String) (notes : Notes) : Prop where
  latest : m.latestTag = some report.tag
  places : ∃ done, m.Distribution config ignoreExisting report.tag files done notes ∧
    report.added = done.filterMap Distributed.recorded? ∧
    report.ignored = done.filterMap Distributed.ignored?
  found_iff : ∀ r target s, notes.find? r target = some s ↔ m.notes.find? r target = some s ∨
    target = Memory.tagId report.tag ∧ ∃ x ∈ report.added,
      x.notesRef = r ∧ m.releaseText report.tag x.file = some s
  new : ∀ x ∈ report.added, x.tag = report.tag ∧
    x.notesRef = config.notesRef (Text.basename x.file) ∧
    m.notes.find? x.notesRef (Memory.tagId report.tag) = none ∧
    (m.releaseText report.tag x.file).map Memory.contentId = some x.note
  strict : ignoreExisting = false → report.ignored = [] ∧ (files.map Text.basename).Nodup

theorem nodup_map_of_split {α β : Type} {f : α → β} {l : List α}
    (h : ∀ before a after, l = before ++ a :: after → ∀ b ∈ before, f b ≠ f a) :
    (l.map f).Nodup := by
  induction l with
  | nil => exact List.nodup_nil
  | cons a l ih =>
      refine List.nodup_cons.2 ⟨fun again => ?_, ih fun before b after split c hc => ?_⟩
      · obtain ⟨b, hb, same⟩ := List.mem_map.1 again
        obtain ⟨before, after, split⟩ := List.append_of_mem hb
        exact h (a :: before) b after (congrArg _ split) a List.mem_cons_self same.symm
      · exact h (a :: before) b after (congrArg _ split) c (List.mem_cons_of_mem _ hc)

namespace Memory.Distribution
variable {m : Memory} {config : Config} {ignoreExisting : Bool} {tag : String}
  {files : List String} {done : List Distributed} {notes : Notes}
  (h : m.Distribution config ignoreExisting tag files done notes)
include h

theorem of_recorded {x : Recorded} (hx : x ∈ done.filterMap Distributed.recorded?) :
    x.tag = tag ∧ x.notesRef = config.notesRef (Text.basename x.file) ∧
      m.notes.find? x.notesRef (tagId tag) = none ∧
      (m.releaseText tag x.file).map contentId = some x.note := by
  obtain ⟨d, hd, recorded⟩ := List.mem_filterMap.1 hx
  obtain ⟨before, path, after, -, fate⟩ := h.exists_fate hd
  cases fate with
  | added new text =>
      obtain rfl := Option.some_inj.1 recorded
      exact ⟨rfl, rfl, Option.not_isSome_iff_eq_none.1 fun found => new (.inl found),
        congrArg (Option.map contentId) text⟩
  | ignored => exact nomatch recorded

theorem ignored_eq_nil (strict : ignoreExisting = false) :
    done.filterMap Distributed.ignored? = [] := by
  refine List.filterMap_eq_nil_iff.2 fun d hd => ?_
  obtain ⟨before, path, after, -, fate⟩ := h.exists_fate hd
  cases fate with
  | added => rfl
  | ignored covered tolerant => exact nomatch strict.symm.trans tolerant

theorem basenames_nodup (strict : ignoreExisting = false) :
    (files.map Text.basename).Nodup := by
  refine nodup_map_of_split fun before path after split earlier hp same => ?_
  obtain ⟨d, -, fate⟩ := h.fate before path after split
  cases fate with
  | added new => exact new (.inr ⟨earlier, hp, same⟩)
  | ignored covered tolerant => exact nomatch strict.symm.trans tolerant

theorem accounts (latest : m.latestTag = some tag) (push : Option PushOutcome) :
    DistReport.Accounts ⟨tag, done.filterMap Distributed.recorded?,
      done.filterMap Distributed.ignored?, push⟩ m config ignoreExisting files notes where
  latest := latest
  places := ⟨done, h, rfl, rfl⟩
  found_iff := h.found_iff
  new _ hx := h.of_recorded hx
  strict strict := ⟨h.ignored_eq_nil strict, h.basenames_nodup strict⟩

end Memory.Distribution

/-- Whatever files are asked for and whatever notes there are, a distribution accounts for all of
them, or for those before the one that stops it. -/
theorem dist_accounts {m : Memory} (config : Config) (files : List String) (ignoreExisting : Bool)
    (own : ∀ tag, m.latestTag = some tag → m.resolve tag = some (Memory.tagId tag)) :
    ∃ outcome w, (dist config files ignoreExisting).run m = (outcome, w) ∧
      match outcome with
      | .ok report => report.Accounts m config ignoreExisting files w.notes ∧
          w.tags = m.tags ∧ w.refs = m.refs ∧ w.workTree = m.workTree
      | .error e => m.Stopped config ignoreExisting files w e := by
  rw [dist, Action.run_look_bind, show Backend.latestTag m = m.latestTag from rfl]
  cases latest : m.latestTag with
  | none => exact ⟨_, m, rfl, .noTags latest rfl⟩
  | some tag =>
      have resolved : (resolveOrFail tag).run m = (.ok (Memory.tagId tag), m) :=
        run_resolveOrFail_eq_ok.2 ⟨own tag latest, rfl⟩
      dsimp only
      rw [Action.run_bind_of_ok resolved, Action.run_bind]
      rcases m.run_distFiles config ignoreExisting tag files with ⟨done, u, run, kept⟩ |
        ⟨before, path, after, done, e, u, split, kept, fate, run⟩
      · obtain ⟨outcome, w, published, tags, refs, workTree, notes, failed⟩ :=
          publish_total config { m with notes := u }
        rw [run]
        dsimp only
        rw [Action.run_bind, published]
        cases outcome with
        | ok push =>
            refine ⟨_, w, rfl, ?_, tags, refs, workTree⟩
            rw [notes]
            exact kept.accounts latest push
        | error e =>
            obtain ⟨rfl, push, fails⟩ := failed e rfl
            obtain rfl := publish_eq_error published
            exact ⟨_, _, rfl, .unpublished latest kept rfl push fails⟩
      · rw [run]
        exact ⟨_, _, rfl, .refused latest split fate kept rfl⟩

/-- A release that a file came after, and of which a snapshot of another file is there already. -/
def lateGong : Memory where
  tags := Table.ofList [("v1", ⟨0, Table.ofList [("README", "A bell.")]⟩),
    ("v2", ⟨1, Table.ofList [("api/bell.xml", "1"), ("README", "A bell.")]⟩)]
  workTree := Table.ofList [("api/bell.xml", "2"), ("src/gong.xml", "3")]
  notes := Notes.add .empty "refs/notes/dbus/api/README" "tag:v2" "0"

def lateFiles : List String := ["gong.xml", "api/bell.xml", "README", "bell.xml"]

theorem lateGong_accounted :
    (∀ tag, lateGong.latestTag = some tag → lateGong.resolve tag = some (Memory.tagId tag)) ∧
    (∃ report w, (dist {} lateFiles true).run lateGong = (.ok report, w) ∧
      report.Accounts lateGong {} true lateFiles w.notes ∧
      report.added.map (fun x => (x.file, x.note)) =
        [("gong.xml", Memory.contentId "3"), ("api/bell.xml", Memory.contentId "1")] ∧
      report.ignored = ["README", "bell.xml"]) ∧
    ∃ w, (dist {} lateFiles false).run lateGong = (.error (.noteExists "v2" "README"), w) ∧
      lateGong.Stopped {} false lateFiles w (.noteExists "v2" "README") := by
  have own : ∀ tag, lateGong.latestTag = some tag →
      lateGong.resolve tag = some (Memory.tagId tag) := by
    intro tag latest
    obtain rfl : "v2" = tag := Option.some_inj.1 ((by decide +kernel :
      some "v2" = lateGong.latestTag).trans latest)
    decide +kernel
  have told : ((dist {} lateFiles true).run lateGong).1.toOption.map (fun report =>
      (report.added.map (fun x => (x.file, x.note)), report.ignored)) =
      some ([("gong.xml", Memory.contentId "3"), ("api/bell.xml", Memory.contentId "1")],
        ["README", "bell.xml"]) := by
    decide +kernel
  have stops : ((dist {} lateFiles false).run lateGong).1 =
      .error (.noteExists "v2" "README") := by decide +kernel
  refine ⟨own, ?_, ?_⟩
  · obtain ⟨outcome, w, run, account⟩ := dist_accounts {} lateFiles true own
    rw [run] at told
    obtain ⟨report, rfl, reported⟩ := exists_of_toOption_map told
    obtain ⟨added, ignored⟩ := Prod.mk.inj reported
    exact ⟨report, w, run, account.1, added, ignored⟩
  · obtain ⟨outcome, w, run, account⟩ := dist_accounts {} lateFiles false own
    rw [run] at stops
    obtain rfl : outcome = _ := stops
    exact ⟨w, run, account⟩

end ApiDrift.Snapshot
