import ApiDrift.Proofs.Git.Naming
/-! What an installation in a git repository has to do, and what can stop it, told by the repository
as it is before. Releases may be of any kind of object, and several names may stand for one. -/
namespace ApiDrift.Git.Checkout

open Snapshot (Config Failure Blob Recorded InstallReport)

/-- All files at each of some releases. -/
def places (tags files : List String) : List (String × String) :=
  tags.flatMap fun tag => files.map fun path => (tag, path)

theorem mem_places_iff {tags files : List String} {tag path : String} :
    (tag, path) ∈ places tags files ↔ tag ∈ tags ∧ path ∈ files := by
  simp [places]

section Spec
variable (c : Checkout) (config : Config) (files : List String)

/-- The files of a release, if it is of something that has a tree. -/
def tree? (tag : String) : Option Listing :=
  (c.tag? tag).bind fun t => c.store.files? t.target

/-- The blob of a file in a release. -/
def carried? (tag path : String) : Option Blob := (c.tagBlob tag path).toOption.bind id

/-- The releases before one. -/
def before (tag : String) : List String := c.tags.takeWhile (· != tag)

/-- Nothing is noted of a file about what a release's name stands for, and no earlier release of the
same object has the file. -/
def Lacks (tag path : String) : Prop :=
  ∃ target ∈ c.resolve tag, c.note (config.notesRef (Text.basename path)) target = .ok none ∧
    ∀ other ∈ c.before tag, c.resolve other = some target → c.carried? other path = none

instance (tag path : String) : Decidable (c.Lacks config tag path) :=
  inferInstanceAs (Decidable (∃ target ∈ c.resolve tag, _ ∧ _))

/-- The snapshot of a file that a release has and lacks. -/
def due? (tag path : String) : Option Recorded :=
  if c.Lacks config tag path then
    (c.carried? tag path).map fun blob =>
      ⟨tag, path, config.notesRef (Text.basename path), blob.id⟩
  else none

/-- The snapshots that are due at some places. -/
def dueAt (done : List (String × String)) : List Recorded :=
  done.filterMap fun p => c.due? config p.1 p.2

/-- Why a file of a release stops an installation. -/
inductive Refuses (tag path : String) : Failure → Prop
  /-- The notes about the release cannot be read. -/
  | unreadable {target : String} {e : Failure} (named : c.resolve tag = some target)
      (fault : c.note (config.notesRef (Text.basename path)) target = .error e) :
      Refuses tag path e
  /-- The release is of something that is no tree and has none. -/
  | treeless {t : Tag} (lacks : c.Lacks config tag path) (known : c.tag? tag = some t)
      (treeless : c.store.files? t.target = none) :
      Refuses tag path (.git (c.store.peelFault t.target "tree" 2))
  /-- The path cannot be one in a tree. -/
  | pathless {m : String} (lacks : c.Lacks config tag path) (tree : (c.tree? tag).isSome)
      (fault : pathFault? path = some m) :
      Refuses tag path (.git m)
  | binary {blob : Blob} {bytes : List UInt8} (lacks : c.Lacks config tag path)
      (carried : c.carried? tag path = some blob) (content : blob.content = .binary bytes) :
      Refuses tag path (.notText path)
  /-- No note holds the text. -/
  | nul {blob : Blob} {text : String} (lacks : c.Lacks config tag path)
      (carried : c.carried? tag path = some blob) (content : blob.content = .text text)
      (nul : '\x00' ∈ text.toList) :
      Refuses tag path
        (.git "data contained a nul byte that could not be represented as a string")
  /-- Another ref is in the way of the note ref. -/
  | obstructed {blob : Blob} {text name : String} {o : Obstacle} (lacks : c.Lacks config tag path)
      (carried : c.carried? tag path = some blob) (content : blob.content = .text text)
      (plain : '\x00' ∉ text.toList)
      (named : c.notesName (config.notesRef (Text.basename path)) = .ok name)
      (way : c.repository.obstacle? name = some o) :
      Refuses tag path (.git ((o.text name (c.workspace.pathText c.gitDir)).1 ++ "; " ++
        (o.text name (c.workspace.pathText c.gitDir)).2))

/-- An installation passes a release with all its files. -/
structure Passes (tag : String) : Prop where
  named : (c.resolve tag).isSome
  passed : ∀ path ∈ files, ∀ e, ¬c.Refuses config tag path e

/-- An installation stops at a release, after some of the files. -/
inductive Stops (tag : String) : List String → Failure → Prop
  | unnamed (unnamed : c.resolve tag = none) : Stops tag [] (.invalidRef tag)
  | refused {earlier later : List String} {path : String} {e : Failure}
      (named : (c.resolve tag).isSome) (whole : earlier ++ path :: later = files)
      (passed : ∀ path ∈ earlier, ∀ e, ¬c.Refuses config tag path e)
      (refused : c.Refuses config tag path e) : Stops tag earlier e

/-- How an installation ends, after it has seen to some files at some releases. -/
inductive Course : Except Failure InstallReport → List (String × String) → Prop
  | complete (passed : ∀ tag ∈ c.tags, c.Passes config files tag)
      (push : Option Snapshot.PushOutcome) :
      Course (.ok ⟨c.dueAt config (places c.tags files),
        c.tags.filter fun tag => files.all fun path => (c.due? config tag path).isNone, push⟩)
        (places c.tags files)
  | stopped {tags later earlier : List String} {tag : String} {e : Failure}
      (whole : tags ++ tag :: later = c.tags) (passed : ∀ tag ∈ tags, c.Passes config files tag)
      (stops : c.Stops config files tag earlier e) :
      Course (.error e) (places tags files ++ earlier.map fun path => (tag, path))

/-- The name of a file's note ref. -/
def IsNoteRef (name : String) : Prop :=
  ∃ path ∈ files, c.notesName (config.notesRef (Text.basename path)) = .ok name

/-- The names of releases are names of refs in short, and note refs have other names than those
that such a name may be short for. -/
structure Apart : Prop where
  valid : ∀ tag ∈ c.tags, RefName.isValid (tagsHeading ++ tag)
  branch : ∀ path ∈ files, c.notesName (config.notesRef (Text.basename path)) ≠ .ok branch
  names : ∀ tag ∈ c.tags, ∀ name ∈ Revision.fullNames tag, ∀ path ∈ files,
    c.notesName (config.notesRef (Text.basename path)) ≠ .ok name

instance : Decidable (c.Apart config files) :=
  decidable_of_iff
    ((∀ tag ∈ c.tags, RefName.isValid (tagsHeading ++ tag)) ∧
      (∀ path ∈ files, c.notesName (config.notesRef (Text.basename path)) ≠ .ok branch) ∧
      ∀ tag ∈ c.tags, ∀ name ∈ Revision.fullNames tag, ∀ path ∈ files,
        c.notesName (config.notesRef (Text.basename path)) ≠ .ok name)
    ⟨fun ⟨valid, branch, names⟩ => ⟨valid, branch, names⟩,
      fun apart => ⟨apart.valid, apart.branch, apart.names⟩⟩

/-- A text that a note can hold. -/
def isNotable : Content → Bool
  | .text s => '\x00' ∉ s.toList
  | .binary _ => false

/-- Nothing but what releases are of can stop an installation: their names stand for something, note
refs can be read and put where they are, and files are texts that notes can hold. -/
structure Orderly : Prop where
  named : ∀ tag ∈ c.tags, (c.resolve tag).isSome
  paths : ∀ path ∈ files, pathFault? path = none
  refs : ∀ path ∈ files, ∃ name notes, c.notesName (config.notesRef (Text.basename path)) = .ok name ∧
    c.notesTree name = .ok notes ∧ c.repository.obstacle? name = none
  texts : ∀ tag ∈ c.tags, ∀ path ∈ files, ∀ blob ∈ c.carried? tag path,
    isNotable blob.content = true

end Spec

section Due
variable {c : Checkout} {config : Config} {tag path target : String} {x : Recorded}

/-- A release has a file if it has a tree, the path can be one there and leads to a blob. -/
theorem carried?_eq_some_iff {blob : Blob} : c.carried? tag path = some blob ↔
    ∃ t l, c.tag? tag = some t ∧ c.store.files? t.target = some l ∧ pathFault? path = none ∧
      c.listed? l path = some blob := by
  rw [carried?]
  cases known : c.tag? tag with
  | none =>
      rw [tagBlob, known]
      constructor
      · rintro ⟨⟩
      · rintro ⟨_, _, ⟨⟩, -⟩
  | some t =>
      rw [tagBlob_of_tag? known]
      cases files : c.store.files? t.target with
      | none =>
          constructor
          · rintro ⟨⟩
          · rintro ⟨t', l, ⟨⟩, found, -⟩
            cases files.symm.trans found
      | some l =>
          cases fault : pathFault? path with
          | some m =>
              constructor
              · rintro ⟨⟩
              · rintro ⟨_, _, _, _, ⟨⟩, -⟩
          | none =>
              constructor
              · exact fun found => ⟨t, l, rfl, files, rfl, found⟩
              · rintro ⟨t', l', ⟨⟩, found, -, listed⟩
                obtain rfl := Option.some_inj.1 (files.symm.trans found)
                exact listed

theorem due?_eq_some_iff : c.due? config tag path = some x ↔ c.Lacks config tag path ∧
    ∃ blob, c.carried? tag path = some blob ∧
      x = ⟨tag, path, config.notesRef (Text.basename path), blob.id⟩ := by
  unfold due?
  split
  · next lacks =>
    rw [and_iff_right lacks, Option.map_eq_some_iff]
    exact exists_congr fun blob => and_congr_right fun _ => eq_comm
  · next noted => exact iff_of_false nofun fun h => noted h.1

theorem mem_dueAt_iff {done : List (String × String)} :
    x ∈ c.dueAt config done ↔ (x.tag, x.file) ∈ done ∧ c.due? config x.tag x.file = some x := by
  rw [dueAt, List.mem_filterMap]
  constructor
  · rintro ⟨⟨tag, path⟩, listed, due⟩
    obtain ⟨-, blob, -, rfl⟩ := due?_eq_some_iff.1 due
    exact ⟨listed, due⟩
  · exact fun ⟨listed, due⟩ => ⟨_, listed, due⟩

theorem mem_dueAt {done : List (String × String)} (listed : (tag, path) ∈ done)
    (due : c.due? config tag path = some x) : x ∈ c.dueAt config done :=
  List.mem_filterMap.2 ⟨(tag, path), listed, due⟩

theorem before_of_split {earlier later : List String} (split : c.tags = earlier ++ tag :: later) :
    c.before tag = earlier := by
  have once := c.tags_nodup
  rw [split] at once
  have others : ∀ other ∈ earlier, (other != tag) = true := fun other h =>
    bne_iff_ne.2 fun same => (List.nodup_append.1 once).2.2 other h tag List.mem_cons_self same
  rw [before, split, List.takeWhile_append_of_pos others, List.takeWhile_cons_of_neg, List.append_nil]
  rw [bne_self_eq_false]
  exact Bool.false_ne_true

/-- If earlier releases of an object have a file of which nothing was noted, the first of them lacks
it. -/
theorem exists_due {other : String}
    (absent : c.note (config.notesRef (Text.basename path)) target = .ok none)
    (earlier : other ∈ c.before tag) (resolved : c.resolve other = some target)
    (carried : c.carried? other path ≠ none) :
    ∃ first ∈ c.before tag, ∃ x, c.due? config first path = some x ∧
      c.resolve first = some target := by
  let has (t : String) : Bool := c.resolve t = some target ∧ c.carried? t path ≠ none
  have found : ((c.before tag).find? has).isSome :=
    List.find?_isSome.2 ⟨other, earlier, decide_eq_true ⟨resolved, carried⟩⟩
  obtain ⟨first, found⟩ := Option.isSome_iff_exists.1 found
  obtain ⟨own, as, bs, whole, others⟩ := List.find?_eq_some_iff_append.1 found
  obtain ⟨resolved, carried⟩ := of_decide_eq_true own
  obtain ⟨blob, carried⟩ := Option.ne_none_iff_exists'.1 carried
  have place : c.before first = as := by
    have tags : c.tags = as ++ first :: (bs ++ c.tags.dropWhile (· != tag)) := by
      rw [← List.cons_append, ← List.append_assoc, ← whole, before, List.takeWhile_append_dropWhile]
    exact before_of_split tags
  refine ⟨first, List.mem_of_find?_eq_some found, _, due?_eq_some_iff.2 ⟨?_, blob, carried, rfl⟩,
    resolved⟩
  refine ⟨target, resolved, absent, fun t h same => ?_⟩
  by_contra carries
  have passed := others t (place ▸ h)
  rw [Bool.not_eq_true', decide_eq_false_iff_not] at passed
  exact passed ⟨same, carries⟩

end Due

/-! ### Which files are refused -/

section Refusal
variable {c : Checkout} {config : Config} {files : List String} {tag path target : String}
  {e : Failure}

theorem Apart.not_isNoteRef (apart : c.Apart config files) (known : tag ∈ c.tags) {name : String}
    (short : name ∈ Revision.fullNames tag) : ¬c.IsNoteRef config files name :=
  fun ⟨path, listed, named⟩ => apart.names tag known name short path listed named

theorem Apart.branch_not_isNoteRef (apart : c.Apart config files) :
    ¬c.IsNoteRef config files Git.branch :=
  fun ⟨path, listed, named⟩ => apart.branch path listed named

theorem refuses_of_tagBlob (known : tag ∈ c.tags) (lacks : c.Lacks config tag path)
    (failed : c.tagBlob tag path = .error e) : c.Refuses config tag path e := by
  obtain ⟨t, isTag⟩ := Option.isSome_iff_exists.1 (isSome_tag? known)
  rw [tagBlob_of_tag? isTag] at failed
  split at failed
  · next files =>
    obtain rfl := Except.error.inj failed
    exact .treeless lacks isTag files
  · next l m files fault =>
    obtain rfl := Except.error.inj failed
    refine .pathless lacks ?_ fault
    rw [tree?, isTag, Option.bind_some, files]
    rfl
  · exact nomatch failed

/-- What stops an installation at a file is told by the first of its steps that fails. -/
theorem not_refuses (readable : ∀ target e, c.resolve tag = some target →
      c.note (config.notesRef (Text.basename path)) target ≠ .error e)
    (recordable : c.Lacks config tag path → ∃ found, c.tagBlob tag path = .ok found ∧
      ∀ blob, found = some blob → ∃ text name, blob.content = .text text ∧ '\x00' ∉ text.toList ∧
        c.notesName (config.notesRef (Text.basename path)) = .ok name ∧
        c.repository.obstacle? name = none) : ¬c.Refuses config tag path e := by
  have texts {blob : Blob} (lacks : c.Lacks config tag path)
      (carried : c.carried? tag path = some blob) : ∃ text name, blob.content = .text text ∧
        '\x00' ∉ text.toList ∧ c.notesName (config.notesRef (Text.basename path)) = .ok name ∧
        c.repository.obstacle? name = none := by
    obtain ⟨found, read, texts⟩ := recordable lacks
    rw [carried?, read] at carried
    exact texts blob carried
  intro refused
  cases refused with
  | unreadable named fault => exact readable _ _ named fault
  | treeless lacks known treeless =>
      obtain ⟨found, read, -⟩ := recordable lacks
      rw [tagBlob_of_tag? known, treeless] at read
      exact nomatch read
  | pathless lacks tree fault =>
      obtain ⟨found, read, -⟩ := recordable lacks
      obtain ⟨l, tree⟩ := Option.isSome_iff_exists.1 tree
      obtain ⟨t, known, files⟩ := Option.bind_eq_some_iff.1 tree
      rw [tagBlob_of_tag? known, files, fault] at read
      exact nomatch read
  | binary lacks carried content =>
      obtain ⟨text, name, isText, -⟩ := texts lacks carried
      exact nomatch content.symm.trans isText
  | nul lacks carried content nul =>
      obtain ⟨text, name, isText, plain, -⟩ := texts lacks carried
      obtain rfl := Content.text.inj (content.symm.trans isText)
      exact plain nul
  | obstructed lacks carried content plain named way =>
      obtain ⟨text, name, -, -, named', free⟩ := texts lacks carried
      obtain rfl := Except.ok.inj (named.symm.trans named')
      exact nomatch way.symm.trans free

end Refusal

end ApiDrift.Git.Checkout
