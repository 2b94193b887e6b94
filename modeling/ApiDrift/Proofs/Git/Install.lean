import ApiDrift.Git.Setup
import ApiDrift.Proofs.Git.Progress
/-! Installation in a git repository. Any release may stop the loop over all of them. What stops it
is told by the repository as it was before, since a loop that has come to a file has moved nothing
but refs of notes. -/
namespace ApiDrift.Git.Checkout

open Snapshot (Config Failure Blob Action Recorded Release InstallReport installFile installAt)

/-! ### One file at one release -/

section Run
variable {config : Config} {u v : Checkout} {tag target path notesRef name text : String}
  {e : Failure}

theorem run_addNote (fresh : u.note notesRef target = .ok none)
    (named : u.notesName notesRef = .ok name) :
    (addNote notesRef target text).run u =
      if '\x00' ∈ text.toList then
        (.error (.git "data contained a nul byte that could not be represented as a string"), u)
      else (extend u name target text).run u := by
  unfold addNote
  refine (Action.run_look_bind id _ u).trans ?_
  dsimp only [id]
  rw [fresh, named]
  dsimp only
  split
  · rfl
  · rfl

theorem run_hasNote {noted : Option Blob}
    (found : u.note (config.notesRef (Text.basename path)) target = .ok noted) :
    (Snapshot.hasNote config target path).run u = (.ok noted.isSome, u) :=
  Action.run_bind_of_ok (Action.run_consult_of_ok found)

theorem run_installFile_of_unreadable
    (unreadable : u.note (config.notesRef (Text.basename path)) target = .error e) :
    (installFile config tag target path).run u = (.error e, u) :=
  Action.run_bind_of_error (Action.run_bind_of_error (Action.run_consult_of_error unreadable))

theorem run_installFile_of_noted {blob : Blob}
    (noted : u.note (config.notesRef (Text.basename path)) target = .ok (some blob)) :
    (installFile config tag target path).run u = (.ok none, u) :=
  Action.run_bind_of_ok (run_hasNote noted)

theorem run_installFile_of_fresh
    (fresh : u.note (config.notesRef (Text.basename path)) target = .ok none) :
    (installFile config tag target path).run u = match u.tagBlob tag path with
      | .error e => (.error e, u)
      | .ok none => (.ok none, u)
      | .ok (some blob) =>
        (do pure (some (← Snapshot.record config tag target path blob.content)) :
          Action Checkout (Option Recorded)).run u := by
  refine (Action.run_bind_of_ok (run_hasNote fresh)).trans ?_
  rcases found : u.tagBlob tag path with e | blob
  · have read : (Action.consult fun c : Checkout => c.tagBlob tag path).run u = (.error e, u) :=
      Action.run_consult_of_error found
    exact Action.run_bind_of_error read
  · have read : (Action.consult fun c : Checkout => c.tagBlob tag path).run u = (.ok blob, u) :=
      Action.run_consult_of_ok found
    refine (Action.run_bind_of_ok read).trans ?_
    cases blob with
    | none => rfl
    | some blob => rfl

theorem run_record_of_text : (do
      pure (some (← Snapshot.record config tag target path (.text text))) :
        Action Checkout (Option Recorded)).run u =
      match (addNote (config.notesRef (Text.basename path)) target text).run u with
      | (.ok id, v) => (.ok (some ⟨tag, path, config.notesRef (Text.basename path), id⟩), v)
      | (.error e, v) => (.error e, v) := by
  rcases added : (addNote (config.notesRef (Text.basename path)) target text).run u with ⟨_ | id, v⟩
  · exact Action.run_bind_of_error (Action.run_bind_of_error added)
  · exact Action.run_bind_of_ok (Action.run_bind_of_ok added)

end Run

/-! ### The loops -/

section Loop
variable {c u : Checkout} {config : Config} {files : List String} {tag : String}

theorem places_concat (tag : String) (done : List String) (path : String)
    (before : List (String × String)) : before ++ (done ++ [path]).map (fun path => (tag, path)) =
      before ++ done.map (fun path => (tag, path)) ++ [(tag, path)] := by
  rw [List.map_append, List.append_assoc, List.map_singleton]

/-- What becomes of a file of a release: it is refused, and nothing changes, or it is seen to. -/
def Handled (c : Checkout) (config : Config) (files : List String) (done : List (String × String))
    (tag path : String) (u : Checkout) (result : Except Failure (Option Recorded) × Checkout) :
    Prop :=
  (∃ e, c.Refuses config tag path e ∧ result = (.error e, u)) ∨
    ∃ v, (∀ e, ¬c.Refuses config tag path e) ∧ result = (.ok (c.due? config tag path), v) ∧
      Progress c config files (done ++ [(tag, path)]) v

section File
variable {done : List (String × String)} {path target : String}
  (here : Progress c config files done u) (resolved : c.resolve tag = some target)
include here resolved

theorem Progress.readable {noted : Option Blob}
    (found : u.note (config.notesRef (Text.basename path)) target = .ok noted) (target' : String)
    (e : Failure) (named : c.resolve tag = some target') :
    c.note (config.notesRef (Text.basename path)) target' ≠ .error e := by
  obtain rfl := Option.some_inj.1 (named.symm.trans resolved)
  exact fun fault => nomatch found.symm.trans (here.note_eq_error_iff.2 fault)

/-- A file that a release has and lacks is recorded if it is a text that a note can hold and no ref
is in the way. -/
theorem record_cases (listed : path ∈ files) {blob : Blob} (lacks : c.Lacks config tag path)
    (fresh : u.note (config.notesRef (Text.basename path)) target = .ok none)
    (found : c.tagBlob tag path = .ok (some blob)) :
    Handled c config files done tag path u
      ((do pure (some (← Snapshot.record config tag target path blob.content)) :
        Action Checkout (Option Recorded)).run u) := by
  have carried : c.carried? tag path = some blob := by
    rw [carried?, found]
    rfl
  cases content : blob.content with
  | binary bytes => exact .inl ⟨_, .binary lacks carried content, rfl⟩
  | text text =>
      obtain ⟨name, named, absent⟩ := here.note_eq_ok_iff.1 fresh
      rw [run_record_of_text, run_addNote fresh ((notesName_grows here.grows _).trans named)]
      by_cases nul : '\x00' ∈ text.toList
      · rw [if_pos nul]
        exact .inl ⟨_, .nul lacks carried content nul, rfl⟩
      · rw [if_neg nul, run_extend, obstacle?_grows here.grows ⟨path, listed, named⟩,
          pathText_grows here.grows]
        cases way : c.repository.obstacle? name with
        | some o => exact .inl ⟨_, .obstructed lacks carried content nul named way, rfl⟩
        | none =>
            have due : c.due? config tag path = some ⟨tag, path,
                config.notesRef (Text.basename path),
                idText (u.store.intern (.blob (.text text))).1⟩ := by
              rw [due?, if_pos lacks, carried, Option.map_some,
                congrArg Blob.id (here.id_of_carried carried content)]
            refine .inr ⟨_, fun e => not_refuses (here.readable resolved fresh) fun _ =>
              ⟨some blob, found, ?_⟩, by rw [due],
              here.add listed named resolved lacks carried content absent⟩
            rintro _ ⟨⟩
            exact ⟨text, name, content, nul, named, way⟩

end File

theorem installFile_cases (closed : c.Closed) (apart : c.Apart config files)
    (distinct : (files.map Text.basename).Nodup) (known : tag ∈ c.tags) {target path : String}
    {earlier later : List String} (whole : earlier ++ path :: later = files)
    (resolved : c.resolve tag = some target)
    (here : Progress c config files
      (places (c.before tag) files ++ earlier.map fun path => (tag, path)) u) :
    Handled c config files (places (c.before tag) files ++ earlier.map fun path => (tag, path))
      tag path u ((installFile config tag target path).run u) := by
  have listed : path ∈ files := whole ▸ List.mem_append_right _ List.mem_cons_self
  have lacks_iff := here.note_eq_none_iff distinct whole resolved
  have same : u.tagBlob tag path = c.tagBlob tag path :=
    tagBlob_grows closed here.grows (apart.not_isNoteRef known (by simp [Revision.fullNames]))
  rcases noted : u.note (config.notesRef (Text.basename path)) target with e | _ | blob
  · exact .inl ⟨e, .unreadable resolved (here.note_eq_error_iff.1 noted),
      run_installFile_of_unreadable noted⟩
  · have lacks := lacks_iff.1 noted
    rw [run_installFile_of_fresh noted, same]
    rcases found : c.tagBlob tag path with e | _ | blob
    · exact .inl ⟨e, refuses_of_tagBlob known lacks found, rfl⟩
    · have nothing : c.due? config tag path = none := by
        rw [due?, carried?, found]
        exact ite_self none
      refine .inr ⟨u, fun e => not_refuses (here.readable resolved noted) fun _ =>
        ⟨none, found, ?_⟩, by rw [nothing], here.pass nothing⟩
      rintro _ ⟨⟩
    · exact record_cases here resolved listed lacks noted found
  · have unlacked : ¬c.Lacks config tag path := by
      intro lacks
      cases noted.symm.trans (lacks_iff.2 lacks)
    have nothing : c.due? config tag path = none := if_neg unlacked
    refine .inr ⟨u, fun e => not_refuses (here.readable resolved noted) (absurd · unlacked), ?_,
      here.pass nothing⟩
    rw [nothing]
    exact run_installFile_of_noted noted

theorem places_append_singleton (tags : List String) (tag : String) (files : List String) :
    places (tags ++ [tag]) files = places tags files ++ files.map fun path => (tag, path) := by
  rw [places, List.flatMap_append, List.flatMap_singleton]
  rfl

section Releases
variable (closed : c.Closed) (apart : c.Apart config files)
  (distinct : (files.map Text.basename).Nodup)
include closed apart distinct

/-- The files of one release are seen to one after the other, up to one that is refused. -/
theorem installFiles_cases (known : tag ∈ c.tags) {target : String}
    (resolved : c.resolve tag = some target)
    (here : Progress c config files (places (c.before tag) files) u) :
    (∃ earlier path later e v, earlier ++ path :: later = files ∧
      (∀ path ∈ earlier, ∀ e, ¬c.Refuses config tag path e) ∧ c.Refuses config tag path e ∧
      (files.mapM (installFile config tag target)).run u = (.error e, v) ∧
      Progress c config files
        (places (c.before tag) files ++ earlier.map fun path => (tag, path)) v) ∨
    ∃ done v, (∀ path ∈ files, ∀ e, ¬c.Refuses config tag path e) ∧
      (files.mapM (installFile config tag target)).run u = (.ok done, v) ∧
      done.filterMap id = files.filterMap (c.due? config tag) ∧
      Progress c config files
        (places (c.before tag) files ++ files.map fun path => (tag, path)) v := by
  let P (earlier : List String) (done : List (Option Recorded)) (u : Checkout) : Prop :=
    done.filterMap id = earlier.filterMap (c.due? config tag) ∧
      (∀ path ∈ earlier, ∀ e, ¬c.Refuses config tag path e) ∧
      Progress c config files
        (places (c.before tag) files ++ earlier.map fun path => (tag, path)) u
  have start : P [] [] u := by
    refine ⟨rfl, nofun, ?_⟩
    rwa [List.map_nil, List.append_nil]
  have step (earlier : List String) (path : String) (later : List String)
      (done : List (Option Recorded)) (u : Checkout) (fresh : Option Recorded) (v : Checkout)
      (whole : earlier ++ path :: later = files) (at_ : P earlier done u)
      (run : (installFile config tag target path).run u = (.ok fresh, v)) :
      P (earlier ++ [path]) (done ++ [fresh]) v := by
    obtain ⟨added, passed, there⟩ := at_
    rcases installFile_cases closed apart distinct known whole resolved there with
      ⟨e, -, failed⟩ | ⟨w, fine, run', next⟩
    · exact nomatch failed.symm.trans run
    · obtain ⟨same, rfl⟩ := Prod.mk.inj (run'.symm.trans run)
      obtain rfl := Except.ok.inj same
      refine ⟨?_, List.forall_mem_append.2 ⟨passed, List.forall_mem_singleton.2 fine⟩,
        places_concat .. ▸ next⟩
      rw [List.filterMap_append, List.filterMap_append, added]
      rfl
  rcases Action.run_mapM_cases start step with ⟨done, v, run, added, passed, last⟩ |
    ⟨earlier, path, later, done, w, e, v, whole, ⟨-, passed, there⟩, failed, run⟩
  · exact .inr ⟨done, v, passed, run, added, last⟩
  · rcases installFile_cases closed apart distinct known whole resolved there with
      ⟨e', refused, failed'⟩ | ⟨_, -, run', -⟩
    · obtain ⟨same, rfl⟩ := Prod.mk.inj (failed'.symm.trans failed)
      obtain rfl := Except.error.inj same
      exact .inl ⟨earlier, path, later, e', w, whole, passed, refused, run, there⟩
    · exact nomatch run'.symm.trans failed

theorem installAt_cases (known : tag ∈ c.tags)
    (here : Progress c config files (places (c.before tag) files) u) :
    (∃ earlier e v, c.Stops config files tag earlier e ∧
      (installAt config files tag).run u = (.error e, v) ∧
      Progress c config files
        (places (c.before tag) files ++ earlier.map fun path => (tag, path)) v) ∨
    ∃ v, c.Passes config files tag ∧
      (installAt config files tag).run u = (.ok ⟨tag, files.filterMap (c.due? config tag)⟩, v) ∧
      Progress c config files (places (c.before tag ++ [tag]) files) v := by
  have same : u.resolve tag = c.resolve tag :=
    resolve_grows closed here.grows apart.branch_not_isNoteRef
      (fun _ => apart.not_isNoteRef known) (apart.valid tag known)
  cases resolved : c.resolve tag with
  | none =>
      have looked : (Snapshot.resolveOrFail tag).run u = (.error (.invalidRef tag), u) :=
        Snapshot.run_resolveOrFail_of_none (same.trans resolved)
      refine .inl ⟨[], _, u, .unnamed resolved, Action.run_bind_of_error looked, ?_⟩
      rwa [List.map_nil, List.append_nil]
  | some target =>
      have looked : (Snapshot.resolveOrFail tag).run u = (.ok target, u) :=
        Snapshot.run_resolveOrFail_eq_ok.2 ⟨same.trans resolved, rfl⟩
      have named : (c.resolve tag).isSome := Option.isSome_of_eq_some resolved
      rcases installFiles_cases closed apart distinct known resolved here with
        ⟨earlier, path, later, e, v, whole, passed, refused, run, there⟩ |
          ⟨done, v, passed, run, added, last⟩
      · exact .inl ⟨earlier, e, v, .refused named whole passed refused,
          (Action.run_bind_of_ok looked).trans (Action.run_bind_of_error run), there⟩
      · rw [places_append_singleton, ← added]
        exact .inr ⟨v, ⟨named, passed⟩,
          (Action.run_bind_of_ok looked).trans (Action.run_bind_of_ok run), last⟩

/-- The releases are seen to one after the other, up to one at which the installation stops. -/
theorem installAll_cases :
    (∃ tags tag later earlier e v, tags ++ tag :: later = c.tags ∧
      (∀ tag ∈ tags, c.Passes config files tag) ∧ c.Stops config files tag earlier e ∧
      (Snapshot.installAll config files).run c = (.error e, v) ∧
      Progress c config files (places tags files ++ earlier.map fun path => (tag, path)) v) ∨
    ∃ v, (∀ tag ∈ c.tags, c.Passes config files tag) ∧
      (Snapshot.installAll config files).run c =
        (.ok (c.tags.map fun tag => ⟨tag, files.filterMap (c.due? config tag)⟩), v) ∧
      Progress c config files (places c.tags files) v := by
  let P (tags : List String) (done : List Release) (u : Checkout) : Prop :=
    (∀ tag ∈ tags, c.Passes config files tag) ∧
      done = tags.map (fun tag => ⟨tag, files.filterMap (c.due? config tag)⟩) ∧
      Progress c config files (places tags files) u
  have start : P [] [] c := ⟨nofun, rfl, .start closed⟩
  have place {tags : List String} {tag : String} {later : List String}
      (whole : tags ++ tag :: later = c.tags) : tag ∈ c.tags ∧ c.before tag = tags :=
    ⟨whole ▸ List.mem_append_right _ List.mem_cons_self, before_of_split whole.symm⟩
  have step (tags : List String) (tag : String) (later : List String) (done : List Release)
      (u : Checkout) (release : Release) (v : Checkout) (whole : tags ++ tag :: later = c.tags)
      (at_ : P tags done u) (run : (installAt config files tag).run u = (.ok release, v)) :
      P (tags ++ [tag]) (done ++ [release]) v := by
    obtain ⟨passed, rfl, there⟩ := at_
    obtain ⟨known, rfl⟩ := place whole
    rcases installAt_cases closed apart distinct known there with
      ⟨earlier, e, w, -, failed, -⟩ | ⟨w, fine, run', next⟩
    · exact nomatch failed.symm.trans run
    · obtain ⟨same, rfl⟩ := Prod.mk.inj (run'.symm.trans run)
      obtain rfl := Except.ok.inj same
      refine ⟨List.forall_mem_append.2 ⟨passed, List.forall_mem_singleton.2 fine⟩, ?_, next⟩
      rw [List.map_append, List.map_singleton]
  have looked : (Snapshot.installAll config files).run c =
      (c.tags.mapM (installAt config files)).run c := Action.run_look_bind ..
  rw [looked]
  rcases Action.run_mapM_cases start step with ⟨done, v, run, passed, rfl, last⟩ |
    ⟨tags, tag, later, done, w, e, v, whole, ⟨passed, -, there⟩, failed, run⟩
  · exact .inr ⟨v, passed, run, last⟩
  · obtain ⟨known, rfl⟩ := place whole
    rcases installAt_cases closed apart distinct known there with
      ⟨earlier, e', w', stops, failed', last⟩ | ⟨_, -, run', -⟩
    · obtain ⟨same, rfl⟩ := Prod.mk.inj (failed'.symm.trans failed)
      obtain rfl := Except.error.inj same
      exact .inl ⟨_, tag, later, earlier, e', w', whole, passed, stops, run, last⟩
    · exact nomatch run'.symm.trans failed

end Releases

theorem run_publish (unpushed : config.push = false) (u : Checkout) :
    ∃ push, (Snapshot.publish config).run u = (.ok push, u) := by
  unfold Snapshot.publish
  simp only [Action.run_look_bind]
  cases Snapshot.Backend.noteRefs u config.area with
  | nil => exact ⟨none, rfl⟩
  | cons ref rest =>
      refine ⟨some (.skipped config.pushCommand), ?_⟩
      simp only [unpushed]
      rfl

theorem flatMap_added (c : Checkout) (config : Config) (files tags : List String) :
    (tags.map fun tag => (⟨tag, files.filterMap (c.due? config tag)⟩ : Release)).flatMap
      Release.added = c.dueAt config (places tags files) := by
  rw [List.flatMap_map, dueAt, places, List.filterMap_flatMap]
  refine List.flatMap_congr fun tag _ => ?_
  rw [List.filterMap_map]
  rfl

theorem map_tag_unchanged (c : Checkout) (config : Config) (files tags : List String) :
    ((tags.map fun tag => (⟨tag, files.filterMap (c.due? config tag)⟩ : Release)).filter
      fun r => r.added.isEmpty).map Release.tag =
      tags.filter fun tag => files.all fun path => (c.due? config tag path).isNone := by
  rw [List.filter_map, List.map_map]
  refine (List.map_id _).trans (List.filter_congr fun tag _ => ?_)
  rw [Bool.eq_iff_iff]
  simp [List.filterMap_eq_nil_iff]

/-- Where nothing else can stop an installation, it stops only at a release that lacks a file and
has no tree. -/
theorem Orderly.treeless {path : String} {e : Failure} (orderly : c.Orderly config files)
    (known : tag ∈ c.tags) (listed : path ∈ files) (refused : c.Refuses config tag path e) :
    c.Lacks config tag path ∧ c.tree? tag = none := by
  obtain ⟨name, notes, named, readable, free⟩ := orderly.refs path listed
  cases refused with
  | unreadable _ fault =>
      have read := (note_eq c _ _).symm.trans fault
      rw [named, Except.bind, noteAt, readable] at read
      cases read
  | treeless lacks isTag treeless => exact ⟨lacks, by rw [tree?, isTag, Option.bind_some, treeless]⟩
  | pathless _ _ fault => cases fault.symm.trans (orderly.paths path listed)
  | binary _ carried content =>
      have text := orderly.texts tag known path listed _ carried
      rw [content] at text
      cases text
  | nul _ carried content nul =>
      have text := orderly.texts tag known path listed _ carried
      rw [content] at text
      exact absurd nul (of_decide_eq_true text)
  | obstructed _ _ _ _ named' way =>
      obtain rfl := Except.ok.inj (named'.symm.trans named)
      cases way.symm.trans free

end Loop

section Result
variable {c : Checkout} {config : Config} {files : List String}

/-- An installation ends at a moment that is told by how it ended. What is left once the loops are
over changes nothing and does not fail. -/
theorem install_ends (closed : c.Closed) (apart : c.Apart config files)
    (distinct : (files.map Text.basename).Nodup) (unpushed : config.push = false) :
    ∃ outcome w done, (Snapshot.install config files).run c = (outcome, w) ∧
      c.Course config files outcome done ∧ Progress c config files done w := by
  rcases installAll_cases closed apart distinct with
    ⟨tags, tag, later, earlier, e, w, whole, passed, stops, run, last⟩ | ⟨w, passed, run, last⟩
  · exact ⟨_, w, _, Action.run_bind_of_error run, .stopped whole passed stops, last⟩
  · obtain ⟨push, published⟩ := run_publish unpushed w
    refine ⟨_, w, _, (Action.run_bind_of_ok run).trans (Action.run_bind_of_ok published), ?_, last⟩
    rw [flatMap_added, map_tag_unchanged]
    exact .complete passed push

theorem Passes.tree_or_noted {tag : String} (passes : c.Passes config files tag)
    (known : tag ∈ c.tags) :
    (c.tree? tag).isSome ∨ ∀ path ∈ files, ¬c.Lacks config tag path := by
  obtain ⟨t, isTag⟩ := Option.isSome_iff_exists.1 (isSome_tag? known)
  cases tree : c.store.files? t.target with
  | some l => exact .inl (by rw [tree?, isTag, Option.bind_some, tree]; rfl)
  | none =>
      exact .inr fun path listed lacks => passes.passed path listed _ (.treeless lacks isTag tree)

/-- Where nothing else is in the way, an installation succeeds if and only if every release that
lacks a file has a tree. -/
theorem Course.isOk_iff {outcome : Except Failure InstallReport} {done : List (String × String)}
    (course : c.Course config files outcome done) (orderly : c.Orderly config files) :
    (∃ report, outcome = .ok report) ↔
      ∀ tag ∈ c.tags, (c.tree? tag).isSome ∨ ∀ path ∈ files, ¬c.Lacks config tag path := by
  cases course with
  | complete passed push =>
      exact iff_of_true ⟨_, rfl⟩ fun tag known => (passed tag known).tree_or_noted known
  | stopped whole passed stops =>
      refine iff_of_false (by rintro ⟨_, ⟨⟩⟩) fun well => ?_
      have known := whole ▸ List.mem_append_right _ List.mem_cons_self
      cases stops with
      | unnamed unnamed =>
          have named := orderly.named _ known
          rw [unnamed] at named
          cases named
      | refused _ whole' _ refused =>
          have listed := whole' ▸ List.mem_append_right _ List.mem_cons_self
          obtain ⟨lacks, treeless⟩ := orderly.treeless known listed refused
          rcases well _ known with tree | unlacked
          · rw [treeless] at tree
            cases tree
          · exact unlacked _ listed lacks

/-- An installation sees to the files at one release after the other, whatever the releases are of,
up to a file that is refused: as long as nothing is, it adds all that is due and counts every other
release as unchanged. What it has added is the text in the release, under the release's object.
Where nothing else is in the way, it succeeds if and only if every release that lacks a file has a
tree. -/
theorem install_course (closed : c.Closed) (apart : c.Apart config files)
    (distinct : (files.map Text.basename).Nodup) (unpushed : config.push = false) :
    ∃ outcome w done, (Snapshot.install config files).run c = (outcome, w) ∧
      c.Course config files outcome done ∧
      (∀ notesRef target blob, w.note notesRef target = .ok (some blob) ↔
        c.note notesRef target = .ok (some blob) ∨ ∃ name, c.notesName notesRef = .ok name ∧
          ∃ x ∈ c.dueAt config done, c.Under x name target blob) ∧
      (c.Orderly config files → ((∃ report, outcome = .ok report) ↔
        ∀ tag ∈ c.tags, (c.tree? tag).isSome ∨ ∀ path ∈ files, ¬c.Lacks config tag path)) := by
  obtain ⟨outcome, w, done, run, course, last⟩ := install_ends closed apart distinct unpushed
  exact ⟨outcome, w, done, run, course, fun _ _ _ => last.note_eq_some_iff, course.isOk_iff⟩

/-- Releases of a commit without the file, of one that has it, of its tree, of another release, and
of the file alone, with a note about the last one. -/
def oddReleases : Checkout :=
  let w := ({} : Workspace).init [] false none
  let w := (w.stage [] "README" (.text "Bells")).commit [] 100
  let w := w.annotatedTag [] "v0" "HEAD" (some 100)
  let w := (w.stage [] "bell.xml" (.text "1")).commit [] 200
  let w := w.annotatedTag [] "v1" "HEAD" (some 200)
  let w := w.annotatedTag [] "v2" "HEAD^\x7btree\x7d" none
  let w := w.annotatedTag [] "v3" "v1" (some 300)
  let w := w.annotatedTag [] "v4" "HEAD:bell.xml" (some 400)
  let c : Checkout := { workspace := w, gitDir := [".git"], workTree := some [] }
  ((addNote "refs/notes/dbus/api/bell.xml" ((c.resolve "v4").getD "") "0").run c).2

theorem oddReleases_installed :
    (oddReleases.Closed ∧ oddReleases.Apart { push := false } ["bell.xml"] ∧
      oddReleases.Orderly { push := false } ["bell.xml"]) ∧
    ∃ report w,
      (Snapshot.install { push := false } ["bell.xml"]).run oddReleases = (.ok report, w) ∧
      report.added.map (fun x => (x.tag, x.file)) =
        [("v1", "bell.xml"), ("v2", "bell.xml"), ("v3", "bell.xml")] ∧
      report.unchanged = ["v0", "v4"] := by
  have facts : (oddReleases.Closed ∧ oddReleases.Apart { push := false } ["bell.xml"]) ∧
      ((∀ tag ∈ oddReleases.tags, (oddReleases.resolve tag).isSome) ∧
        (∀ path ∈ ["bell.xml"], pathFault? path = none) ∧
        ∀ tag ∈ oddReleases.tags, ∀ path ∈ ["bell.xml"], ∀ blob ∈ oddReleases.carried? tag path,
          isNotable blob.content = true) ∧
      (oddReleases.notesName "refs/notes/dbus/api/bell.xml" = .ok "refs/notes/dbus/api/bell.xml" ∧
        (oddReleases.notesTree "refs/notes/dbus/api/bell.xml").isOk = true ∧
        oddReleases.repository.obstacle? "refs/notes/dbus/api/bell.xml" = none) ∧
      (∀ tag ∈ oddReleases.tags, (oddReleases.tree? tag).isSome ∨
        ∀ path ∈ ["bell.xml"], ¬oddReleases.Lacks { push := false } tag path) ∧
      (oddReleases.dueAt { push := false } (places oddReleases.tags ["bell.xml"])).map
        (fun x => (x.tag, x.file)) =
          [("v1", "bell.xml"), ("v2", "bell.xml"), ("v3", "bell.xml")] ∧
      (oddReleases.tags.filter fun tag => ["bell.xml"].all fun path =>
        (oddReleases.due? { push := false } tag path).isNone) = ["v0", "v4"] := by
    decide +kernel
  obtain ⟨⟨closed, apart⟩, ⟨named, paths, texts⟩, ⟨ref, readable, free⟩, trees, added, unchanged⟩ :=
    facts
  have orderly : oddReleases.Orderly { push := false } ["bell.xml"] := by
    refine ⟨named, paths, List.forall_mem_singleton.2 ?_, texts⟩
    cases notes : oddReleases.notesTree "refs/notes/dbus/api/bell.xml" with
    | error e =>
        rw [notes] at readable
        exact nomatch readable
    | ok notes' => exact ⟨_, notes', ref, notes, free⟩
  obtain ⟨outcome, w, done, run, course, -, succeeds⟩ :=
    install_course closed apart (List.nodup_singleton _) rfl
  obtain ⟨report, rfl⟩ := (succeeds orderly).2 trees
  refine ⟨⟨closed, apart, orderly⟩, report, w, run, ?_⟩
  cases course
  exact ⟨added, unchanged⟩

/-- A release of a file alone, and one of the commit that has it. -/
def blobRelease : Checkout :=
  let w := ({} : Workspace).init [] false none
  let w := (w.stage [] "bell.xml" (.text "1")).commit [] 100
  let w := w.annotatedTag [] "v1" "HEAD:bell.xml" (some 200)
  let w := w.annotatedTag [] "v2" "HEAD" (some 300)
  { workspace := w, gitDir := [".git"], workTree := some [] }

/-- The first release has no tree, so the installation fails, and the file of the second one is not
recorded. -/
theorem blobRelease_stops :
    blobRelease.tags = ["v1", "v2"] ∧ (blobRelease.carried? "v2" "bell.xml").isSome ∧
    ((Snapshot.install { push := false } ["bell.xml"]).run blobRelease).1 =
      .error (.git ("the git_object of id '0000000000000000000000000000000000000000' can not be " ++
        "successfully peeled into a tree (git_object_t=2).; class=Object (11); " ++
        "code=InvalidSpec (-12)")) ∧
    ∀ target ∈ blobRelease.resolve "v2",
      ((Snapshot.install { push := false } ["bell.xml"]).run blobRelease).2.note
        "refs/notes/dbus/api/bell.xml" target = .ok none := by
  decide +kernel

end Result

end ApiDrift.Git.Checkout
