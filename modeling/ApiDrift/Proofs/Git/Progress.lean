import ApiDrift.Proofs.Git.Due
/-! An installation in a git repository on its way. It moves note refs only, which are not in each
other's way, and what it has noted is what was due at the places where it has been. -/
namespace ApiDrift.Git.Checkout

open Snapshot (Config Failure Blob Recorded)

/-! ### Note refs while notes are added -/

section Refs
variable {c u v : Checkout} {config : Config} {files : List String} {path path' name name' : String}

theorem notesName_eq_ok {notesRef : String} (named : c.notesName notesRef = .ok name) :
    RefName.normalize notesRef = .ok name := by
  unfold notesName at named
  split at named
  · exact nomatch named
  · next found =>
    split at named
    · exact nomatch named
    · rw [found, Except.ok.inj named]

theorem not_slash_mem_basename (path : String) : '/' ∉ (Text.basename path).toList :=
  fun h => (Text.not_slash_of_mem_basename h).1 rfl

theorem eq_of_notesName (named : c.notesName (config.notesRef (Text.basename path)) = .ok name) :
    name = RefName.folder config.area ++ "/" ++ Text.basename path :=
  RefName.normalize_heading (not_slash_mem_basename path) (notesName_eq_ok named)

theorem basename_eq_of_notesName
    (named : c.notesName (config.notesRef (Text.basename path)) = .ok name)
    (named' : c.notesName (config.notesRef (Text.basename path')) = .ok name) :
    Text.basename path = Text.basename path' :=
  (String.append_right_inj _).1 ((eq_of_notesName named).symm.trans (eq_of_notesName named'))

theorem IsNoteRef.not_isAbove (isRef : c.IsNoteRef config files name)
    (isRef' : c.IsNoteRef config files name') : RefName.isAbove name name' = false := by
  obtain ⟨path, -, named⟩ := isRef
  obtain ⟨path', -, named'⟩ := isRef'
  rw [eq_of_notesName named, eq_of_notesName named']
  exact RefName.not_isAbove_sibling (not_slash_mem_basename path')

section Grows
variable (grows : c.Grows (c.IsNoteRef config files) u)
include grows

theorem pathText_grows : u.workspace.pathText u.gitDir = c.workspace.pathText c.gitDir := by
  rw [grows.place]
  cases c.gitDir with
  | nil => exact grows.name
  | cons first rest => exact congrArg (· ++ "/" ++ Files.key (first :: rest)) grows.name

theorem notesName_grows (notesRef : String) : u.notesName notesRef = c.notesName notesRef := by
  delta notesName
  rw [pathText_grows grows]

theorem obstacle?_grows (isRef : c.IsNoteRef config files name) :
    u.repository.obstacle? name = c.repository.obstacle? name := by
  have same (blocks : String → Bool)
      (free : ∀ other, c.IsNoteRef config files other → blocks other = false) :
      u.repository.refs.names.any blocks = c.repository.refs.names.any blocks := by
    rw [Bool.eq_iff_iff, List.any_eq_true, List.any_eq_true]
    refine exists_congr fun other => and_congr_left fun blocking => ?_
    rw [Table.mem_names_iff, Table.mem_names_iff, grows.refs other fun moved => ?_]
    exact Bool.eq_false_iff.1 (free other moved) blocking
  rw [Repository.obstacle?, Repository.obstacle?,
    same (fun other => RefName.isAbove other name) fun other moved => moved.not_isAbove isRef,
    same (fun other => RefName.isAbove name other) fun other moved => isRef.not_isAbove moved]

end Grows

end Refs

/-! ### The state of an installation -/

/-- A snapshot is the note on a ref about an object. -/
structure Under (c : Checkout) (x : Recorded) (name target : String) (blob : Blob) : Prop where
  named : c.notesName x.notesRef = .ok name
  resolved : c.resolve x.tag = some target
  carried : c.carried? x.tag x.file = some blob

/-- A moment of an installation: what was due at the places that are done is noted, and nothing else
has become so. -/
structure Progress (c : Checkout) (config : Config) (files : List String)
    (done : List (String × String)) (u : Checkout) : Prop where
  grows : c.Grows (c.IsNoteRef config files) u
  noted_iff : ∀ name target blob, u.noteAt name target = .ok (some blob) ↔
    c.noteAt name target = .ok (some blob) ∨ ∃ x ∈ c.dueAt config done, c.Under x name target blob
  unreadable_iff : ∀ name target e,
    u.noteAt name target = .error e ↔ c.noteAt name target = .error e

namespace Progress
variable {c u : Checkout} {config : Config} {files : List String}
  {done : List (String × String)} {tag path target : String}

theorem start (closed : c.Closed) : Progress c config files [] c := by
  refine ⟨.refl closed, fun _ _ _ => ?_, fun _ _ _ => .rfl⟩
  rw [or_iff_left]
  rintro ⟨x, due, -⟩
  exact List.not_mem_nil due

theorem note_eq (here : Progress c config files done u) (notesRef target : String) :
    u.note notesRef target = (c.notesName notesRef).bind fun name => u.noteAt name target := by
  rw [Checkout.note_eq, notesName_grows here.grows]

theorem note_eq_error_iff (here : Progress c config files done u) {notesRef : String} {e : Failure} :
    u.note notesRef target = .error e ↔ c.note notesRef target = .error e := by
  rw [here.note_eq, Checkout.note_eq]
  cases c.notesName notesRef with
  | error _ => exact .rfl
  | ok name => exact here.unreadable_iff name target e

theorem note_eq_ok_iff (here : Progress c config files done u) {notesRef : String}
    {noted : Option Blob} : u.note notesRef target = .ok noted ↔
      ∃ name, c.notesName notesRef = .ok name ∧ u.noteAt name target = .ok noted := by
  rw [here.note_eq]
  cases c.notesName notesRef with
  | error e => exact iff_of_false nofun fun h => nomatch h
  | ok name => simp only [Except.ok.injEq, exists_eq_left', Except.bind]

theorem note_eq_some_iff (here : Progress c config files done u) {notesRef : String} {blob : Blob} :
    u.note notesRef target = .ok (some blob) ↔ c.note notesRef target = .ok (some blob) ∨
      ∃ name, c.notesName notesRef = .ok name ∧
        ∃ x ∈ c.dueAt config done, c.Under x name target blob := by
  rw [here.note_eq, Checkout.note_eq]
  cases c.notesName notesRef with
  | error e =>
      refine iff_of_false nofun ?_
      rintro (known | ⟨name, named, -⟩)
      · exact nomatch known
      · exact nomatch named
  | ok name =>
      simp only [Except.ok.injEq, exists_eq_left']
      exact here.noted_iff name target blob

/-- What is due at the places that are done is what is noted there and was not before. -/
theorem noteAt_eq_none_iff (here : Progress c config files done u) {name : String} :
    u.noteAt name target = .ok none ↔ c.noteAt name target = .ok none ∧
      ∀ x ∈ c.dueAt config done, ∀ blob, ¬c.Under x name target blob := by
  have noted := here.noted_iff name target
  have unreadable := here.unreadable_iff name target
  rcases now : u.noteAt name target with e | _ | blob
  · rw [(unreadable e).1 now]
    exact iff_of_false nofun fun h => nomatch h.1
  · rw [now] at noted unreadable
    refine iff_of_true rfl ⟨?_, fun x due blob under => nomatch (noted blob).2 (.inr ⟨x, due, under⟩)⟩
    rcases was : c.noteAt name target with e | _ | blob
    · exact nomatch (unreadable e).2 was
    · rfl
    · exact nomatch (noted blob).2 (.inl was)
  · refine iff_of_false nofun fun ⟨absent, unmade⟩ => ?_
    rcases (noted blob).1 now with known | ⟨x, due, under⟩
    · exact nomatch absent.symm.trans known
    · exact unmade x due blob under

/-- When the loop comes to a file that no earlier release of an object has, no snapshot of it is due
under that object. -/
theorem not_under {earlier later : List String} {name : String} {x : Recorded}
    (distinct : (files.map Text.basename).Nodup) (whole : earlier ++ path :: later = files)
    (named : c.notesName (config.notesRef (Text.basename path)) = .ok name)
    (unseen : ∀ other ∈ c.before tag, c.resolve other = some target → c.carried? other path = none)
    (due : x ∈ c.dueAt config
      (places (c.before tag) files ++ earlier.map fun path => (tag, path))) (blob : Blob) :
    ¬c.Under x name target blob := by
  intro under
  have known : path ∈ files := whole ▸ List.mem_append_right _ List.mem_cons_self
  obtain ⟨listed, due⟩ := mem_dueAt_iff.1 due
  obtain ⟨-, own, -, made⟩ := due?_eq_some_iff.1 due
  have ref : x.notesRef = config.notesRef (Text.basename x.file) :=
    congrArg Recorded.notesRef made
  have base : Text.basename x.file = Text.basename path :=
    basename_eq_of_notesName (ref ▸ under.named) named
  rcases List.mem_append.1 listed with passed | again
  · obtain ⟨passed, listed⟩ := mem_places_iff.1 passed
    have same : x.file = path := List.inj_on_of_nodup_map distinct listed known base
    have none := unseen x.tag passed under.resolved
    rw [← same, under.carried] at none
    exact nomatch none
  · obtain ⟨p, before, same⟩ := List.mem_map.1 again
    rw [← (Prod.mk.inj same).2] at base
    rw [← whole, List.map_append, List.map_cons] at distinct
    exact (List.nodup_append.1 distinct).2.2 _ (List.mem_map_of_mem before) _
      List.mem_cons_self base

/-- Nothing is noted by the time when the loop comes to a file just if the release lacks it. -/
theorem note_eq_none_iff {earlier later : List String} (distinct : (files.map Text.basename).Nodup)
    (whole : earlier ++ path :: later = files) (resolved : c.resolve tag = some target)
    (here : Progress c config files
      (places (c.before tag) files ++ earlier.map fun path => (tag, path)) u) :
    u.note (config.notesRef (Text.basename path)) target = .ok none ↔ c.Lacks config tag path := by
  have known : path ∈ files := whole ▸ List.mem_append_right _ List.mem_cons_self
  constructor
  · intro fresh
    obtain ⟨name, named, fresh⟩ := here.note_eq_ok_iff.1 fresh
    obtain ⟨absent, unmade⟩ := here.noteAt_eq_none_iff.1 fresh
    have absent : c.note (config.notesRef (Text.basename path)) target = .ok none := by
      rw [Checkout.note_eq, named]
      exact absent
    refine ⟨target, resolved, absent, fun other h same => ?_⟩
    by_contra carries
    obtain ⟨first, passed, x, due, stands⟩ := exists_due absent h same carries
    have made := mem_dueAt (List.mem_append_left (earlier.map fun path => (tag, path))
      (mem_places_iff.2 ⟨passed, known⟩)) due
    obtain ⟨-, blob, carried, rfl⟩ := due?_eq_some_iff.1 due
    exact unmade _ made blob ⟨named, stands, carried⟩
  · rintro ⟨target', resolved', absent, unseen⟩
    obtain rfl : target' = target := by
      rw [Option.mem_def, resolved] at resolved'
      exact (Option.some_inj.1 resolved').symm
    rw [Checkout.note_eq] at absent
    cases named : c.notesName (config.notesRef (Text.basename path)) with
    | error e =>
        rw [named] at absent
        exact nomatch absent
    | ok name =>
        rw [named] at absent
        exact here.note_eq_ok_iff.2 ⟨name, named, here.noteAt_eq_none_iff.2
          ⟨absent, fun _ due => not_under distinct whole named unseen due⟩⟩

theorem dueAt_concat (c : Checkout) (config : Config) (done : List (String × String))
    (tag path : String) : c.dueAt config (done ++ [(tag, path)]) =
      c.dueAt config done ++ (c.due? config tag path).toList := by
  rw [dueAt, List.filterMap_append, List.filterMap_cons]
  cases c.due? config tag path <;> rfl

theorem pass (here : Progress c config files done u) (nothing : c.due? config tag path = none) :
    Progress c config files (done ++ [(tag, path)]) u := by
  refine { here with noted_iff := ?_ }
  rw [dueAt_concat, nothing, Option.toList_none, List.append_nil]
  exact here.noted_iff

theorem id_of_carried (here : Progress c config files done u) {blob : Blob}
    {text : String} (carried : c.carried? tag path = some blob)
    (content : blob.content = .text text) :
    blob = ⟨idText (u.store.intern (.blob (.text text))).1, .text text⟩ := by
  obtain ⟨id, stored, rfl⟩ : ∃ id, c.store.find? id = some (.blob (.text text)) ∧
      blob = ⟨idText id, .text text⟩ := by
    obtain ⟨t, l, -, -, -, found⟩ := carried?_eq_some_iff.1 carried
    obtain ⟨id, -, found⟩ := Option.bind_eq_some_iff.1 found
    obtain ⟨own, stored, rfl⟩ := Option.map_eq_some_iff.1 found
    obtain rfl : own = .text text := content
    refine ⟨id, ?_, rfl⟩
    unfold Store.content? at stored
    split at stored
    · next whole => rw [whole, Option.some_inj.1 stored]
    · exact nomatch stored
  have known := Store.find?_extends here.grows.store (Store.has_of_find? stored)
  rw [Store.intern_of_find? here.grows.closed.store.once (known.trans stored)]

theorem add (here : Progress c config files done u) {blob : Blob}
    {name text : String} (known : path ∈ files)
    (named : c.notesName (config.notesRef (Text.basename path)) = .ok name)
    (resolved : c.resolve tag = some target) (lacks : c.Lacks config tag path)
    (carried : c.carried? tag path = some blob) (content : blob.content = .text text)
    (fresh : u.noteAt name target = .ok none) :
    Progress c config files (done ++ [(tag, path)]) (u.withNote name target text) := by
  have same := here.id_of_carried carried content
  have due := due?_eq_some_iff.2 ⟨lacks, blob, carried, rfl⟩
  obtain ⟨tree, readable⟩ : ∃ tree, u.notesTree name = .ok tree := by
    rw [noteAt] at fresh
    cases found : u.notesTree name with
    | error e =>
        rw [found] at fresh
        cases fresh
    | ok tree => exact ⟨tree, rfl⟩
  have after := noteAt_withNote here.grows.closed target text readable
  rw [← same] at after
  refine ⟨?_, fun other about b => ?_, fun other about e => ?_⟩
  · refine here.grows.trans ((grows_withNote here.grows.closed name target text).mono ?_)
    rintro other rfl
    exact ⟨path, known, named⟩
  · rw [after, dueAt_concat, due]
    simp only [Option.toList_some, List.mem_append, List.mem_singleton, or_and_right, exists_or,
      exists_eq_left, ← or_assoc, ← here.noted_iff]
    split
    · next place =>
      have unnoted : ¬u.noteAt name target = .ok (some b) := by
        rw [fresh]
        rintro ⟨⟩
      rw [place.1, place.2, or_iff_right unnoted, Except.ok.injEq, Option.some_inj]
      constructor
      · rintro rfl
        exact ⟨named, resolved, carried⟩
      · exact fun under => Option.some_inj.1 (carried.symm.trans under.carried)
    · next elsewhere =>
      refine (or_iff_left fun under => elsewhere ⟨?_, ?_⟩).symm
      · exact Except.ok.inj (under.named.symm.trans named)
      · exact Option.some_inj.1 (under.resolved.symm.trans resolved)
  · rw [after, ← here.unreadable_iff]
    split
    · next place =>
      rw [place.1, place.2, fresh]
      exact iff_of_false (by rintro ⟨⟩) (by rintro ⟨⟩)
    · exact .rfl

end Progress

end ApiDrift.Git.Checkout
