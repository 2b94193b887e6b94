import ApiDrift.Git.Checkout
import ApiDrift.Proofs.Git.Store
import ApiDrift.Proofs.Snapshot.Action
import ApiDrift.Proofs.Table
/-! Notes in a git repository. Adding one puts objects after those that were stored and moves one
ref. So all other notes, and whatever else is read from the repository, stay as they are. -/
namespace ApiDrift.Git

open Snapshot (Failure Blob Action)

theorem Listing.lookup_insertNote (files : Listing) (target other : String) (note : ObjectId) :
    (files.insertNote target note).lookup other =
      if other = target then some note else files.lookup other := by
  induction files with
  | nil => exact Table.lookup_entry (target, note) [] other
  | cons f rest ih =>
      rw [insertNote]
      split
      · next here =>
        rw [Table.lookup_entry, Table.lookup_entry, here]
        split
        · rfl
        · rfl
      · next elsewhere =>
        split
        · exact Table.lookup_entry (target, note) (f :: rest) other
        · rw [Table.lookup_entry, Table.lookup_entry, ih]
          by_cases first : other = f.1
          · rw [if_pos first, if_pos first, if_neg fun same => elsewhere (first.symm.trans same)]
          · rw [if_neg first, if_neg first]

theorem Listing.mem_insertNote {files : Listing} {target : String} {note : ObjectId}
    {f : String × ObjectId} (h : f ∈ files.insertNote target note) :
    f = (target, note) ∨ f ∈ files := by
  induction files with
  | nil => exact .inl (List.mem_singleton.1 h)
  | cons g rest ih =>
      rw [insertNote] at h
      split at h
      · exact (List.mem_cons.1 h).imp_right (List.mem_cons_of_mem g)
      · split at h
        · exact List.mem_cons.1 h
        · rcases List.mem_cons.1 h with rfl | later
          · exact .inr List.mem_cons_self
          · exact (ih later).imp_right (List.mem_cons_of_mem g)

theorem Listing.insertNote_ne_nil (files : Listing) (target : String) (note : ObjectId) :
    files.insertNote target note ≠ [] := by
  cases files with
  | nil => exact List.cons_ne_nil _ _
  | cons f rest =>
      rw [insertNote]
      split
      · exact List.cons_ne_nil _ _
      · split
        · exact List.cons_ne_nil _ _
        · exact List.cons_ne_nil _ _

theorem Listing.mem_of_lookup {files : Listing} {path : String} {id : ObjectId}
    (found : files.lookup path = some id) : (path, id) ∈ files := by
  obtain ⟨before, after, rfl, -⟩ := List.lookup_eq_some_iff.1 found
  exact List.mem_append_right _ List.mem_cons_self

namespace Repository

theorem obstacle?_congr {r r' : Repository} (same : r.refs = r'.refs) (name : String) :
    r.obstacle? name = r'.obstacle? name := by
  rw [obstacle?, obstacle?, same]

theorem get?_put (r : Repository) (name other : String) (id : ObjectId) (time : Int) :
    (r.put name id time).refs.get? other = if other = name then some id else r.refs.get? other := by
  unfold put
  split
  · next there =>
    split
    · next same => rw [same, there]
    · rfl
  · exact Table.get?_insert ..

theorem fetchHead_put (r : Repository) (name : String) (id : ObjectId) (time : Int) :
    (r.put name id time).fetchHead = r.fetchHead := by
  unfold put
  split
  · rfl
  · rfl

end Repository

namespace Workspace

theorem repository_setRepository (w : Workspace) (place : Files.Position) (r : Repository) :
    (w.setRepository place r).repository place = r := by
  rw [repository, setRepository, Table.get?_insert, if_pos rfl, Option.getD_some]

theorem repository_keep (w : Workspace) (place : Files.Position) (o : Object) :
    (w.keep place o).2.repository place = (w.repository place).hold [(w.store.intern o).1] :=
  repository_setRepository ..

end Workspace

namespace Checkout

/-- Refs lead to stored objects only, and those to each other. -/
structure Closed (c : Checkout) : Prop where
  store : c.store.Sound
  refs : ∀ name id, c.repository.refs.get? name = some id → c.store.Has id
  fetchHead : ∀ id, c.repository.fetchHead = some id → c.store.Has id

theorem closed_iff {c : Checkout} : c.Closed ↔ c.store.Sound ∧
    (∀ e ∈ c.repository.refs.entries, c.store.Has e.2) ∧
    ∀ id ∈ c.repository.fetchHead, c.store.Has id := by
  constructor
  · intro closed
    exact ⟨closed.store, fun e h => closed.refs e.1 e.2 (Table.mem_entries_iff.1 h), closed.fetchHead⟩
  · rintro ⟨store, refs, fetchHead⟩
    exact ⟨store, fun name id found => refs (name, id) (Table.mem_entries_iff.2 found), fetchHead⟩

instance (c : Checkout) : Decidable c.Closed := decidable_of_iff _ closed_iff.symm

/-- One checkout is another one after some refs were moved there. -/
structure Grows (moved : String → Prop) (c v : Checkout) : Prop where
  place : v.gitDir = c.gitDir
  name : v.workspace.name = c.workspace.name
  store : c.store.Extends v.store
  /-- No tree without files is new. -/
  filled : .tree [] ∈ v.store.objects → .tree [] ∈ c.store.objects
  refs : ∀ name, ¬moved name → v.repository.refs.get? name = c.repository.refs.get? name
  fetchHead : v.repository.fetchHead = c.repository.fetchHead
  closed : v.Closed

namespace Grows
variable {moved moved' : String → Prop} {c v w : Checkout}

theorem refl (closed : c.Closed) : c.Grows moved c :=
  ⟨rfl, rfl, .refl _, id, fun _ _ => rfl, rfl, closed⟩

theorem trans (first : c.Grows moved v) (second : v.Grows moved w) : c.Grows moved w where
  place := second.place.trans first.place
  name := second.name.trans first.name
  store := first.store.trans second.store
  filled := first.filled ∘ second.filled
  refs name still := (second.refs name still).trans (first.refs name still)
  fetchHead := second.fetchHead.trans first.fetchHead
  closed := second.closed

theorem mono (h : c.Grows moved v) (wider : ∀ name, moved name → moved' name) :
    c.Grows moved' v :=
  { h with refs := fun name still => h.refs name (mt (wider name) still) }

end Grows

/-- A checkout with one more object. -/
def keeping (c : Checkout) (o : Object) : Checkout :=
  { c with workspace := (c.workspace.keep c.gitDir o).2 }

theorem refs_keeping (c : Checkout) (o : Object) :
    (c.keeping o).repository.refs = c.repository.refs := by
  rw [repository, keeping, Workspace.repository_keep]
  rfl

theorem fetchHead_keeping (c : Checkout) (o : Object) :
    (c.keeping o).repository.fetchHead = c.repository.fetchHead := by
  rw [repository, keeping, Workspace.repository_keep]
  rfl

theorem grows_keeping {c : Checkout} {o : Object} (closed : c.Closed)
    (links : ∀ link ∈ o.links, c.store.Has link) (filled : o ≠ .tree []) :
    c.Grows (fun _ => False) (c.keeping o) where
  place := rfl
  name := rfl
  store := c.store.extends_intern o
  filled stored := (Store.mem_intern stored).resolve_right filled.symm
  refs name _ := by rw [refs_keeping]
  fetchHead := fetchHead_keeping c o
  closed := by
    refine ⟨closed.store.intern links, fun name id found => ?_, fun id found => ?_⟩
    · rw [refs_keeping] at found
      exact (closed.refs name id found).extends (c.store.extends_intern o)
    · rw [fetchHead_keeping] at found
      exact (closed.fetchHead id found).extends (c.store.extends_intern o)

/-- A checkout with a ref at an object. -/
def moving (c : Checkout) (name : String) (id : ObjectId) : Checkout :=
  let r := c.repository.put name id c.workspace.now
  { c with workspace := c.workspace.setRepository c.gitDir r }

theorem repository_moving (c : Checkout) (name : String) (id : ObjectId) :
    (c.moving name id).repository = c.repository.put name id c.workspace.now :=
  Workspace.repository_setRepository ..

theorem grows_moving {c : Checkout} {name : String} {id : ObjectId} (closed : c.Closed)
    (known : c.store.Has id) : c.Grows (· = name) (c.moving name id) where
  place := rfl
  name := rfl
  store := .refl _
  filled := fun stored => stored
  refs other still := by rw [repository_moving, Repository.get?_put, if_neg still]
  fetchHead := by rw [repository_moving, Repository.fetchHead_put]
  closed := by
    refine ⟨closed.store, fun other id found => ?_, fun id found => ?_⟩
    · rw [repository_moving, Repository.get?_put] at found
      split at found
      · exact Option.some_inj.1 found ▸ known
      · exact closed.refs other id found
    · rw [repository_moving, Repository.fetchHead_put] at found
      exact closed.fetchHead id found

/-! ### What is noted -/

/-- The blob that is listed under a path. -/
def listed? (c : Checkout) (files : Listing) (path : String) : Option Blob :=
  (files.lookup path).bind fun id => (c.store.content? id).map fun content => ⟨idText id, content⟩

/-- The note on a ref about an object. -/
def noteAt (c : Checkout) (name target : String) : Except Failure (Option Blob) :=
  (c.notesTree name).map fun files => files.bind (c.listed? · target)

theorem listed?_eq (c : Checkout) (files : Listing) (path : String) :
    c.listed? files path = (do
      let id ← files.lookup path
      pure ⟨idText id, ← c.store.content? id⟩) := by
  refine congrArg (files.lookup path).bind (funext fun id => ?_)
  cases c.store.content? id with
  | none => rfl
  | some content => rfl

theorem note_eq (c : Checkout) (notesRef target : String) :
    c.note notesRef target = (c.notesName notesRef).bind fun name => c.noteAt name target := by
  unfold note noteAt
  cases c.notesName notesRef with
  | error e => rfl
  | ok name =>
      show (c.notesTree name).bind _ = (c.notesTree name).map _
      cases c.notesTree name with
      | error e => rfl
      | ok files =>
          cases files with
          | none => rfl
          | some l => exact congrArg Except.ok (listed?_eq c l target).symm

/-- The files of a tree of notes, none if there is no tree. -/
def notesFiles (c : Checkout) (name : String) : Listing :=
  ((c.notesTree name).toOption.bind id).getD []

/-- The tree of a ref's notes with one more, whose text is stored. -/
def noteTree (c : Checkout) (name target content : String) : Object :=
  .tree ((c.notesFiles name).insertNote target (c.store.intern (.blob (.text content))).1)

/-- The commit of that tree. -/
def noteCommit (c : Checkout) (name target content : String) : Commit where
  tree := ((c.keeping (.blob (.text content))).store.intern (c.noteTree name target content)).1
  parent := c.repository.refs.get? name
  time := c.workspace.now
  author := c.workspace.pathText c.gitDir
  message := noteMessage

def withTree (c : Checkout) (name target content : String) : Checkout :=
  (c.keeping (.blob (.text content))).keeping (c.noteTree name target content)

/-- The checkout after a note was put on a ref. -/
def withNote (c : Checkout) (name target content : String) : Checkout :=
  let d := c.withTree name target content
  let commit := .commit (c.noteCommit name target content)
  (d.keeping commit).moving name (d.store.intern commit).1

variable {c v : Checkout} {name target content : String}

theorem extend_eq (c : Checkout) (name target content : String) :
    extend c name target content = (
      let d := c.withTree name target content
      let commit := Object.commit (c.noteCommit name target content)
      let e := d.keeping commit
      match e.repository.tryPut name (d.store.intern commit).1 c.workspace.now with
      | .error o =>
        let (reason, kind) := o.text name (c.workspace.pathText c.gitDir)
        throw (.git (reason ++ "; " ++ kind))
      | .ok r => do
        set { e with workspace := e.workspace.setRepository c.gitDir r }
        pure (idText (c.store.intern (.blob (.text content))).1)) := rfl

theorem run_extend (s : Checkout) :
    (extend c name target content).run s = match c.repository.obstacle? name with
      | some o =>
        let (reason, kind) := o.text name (c.workspace.pathText c.gitDir)
        (.error (.git (reason ++ "; " ++ kind)), s)
      | none =>
        (.ok (idText (c.store.intern (.blob (.text content))).1),
          c.withNote name target content) := by
  let d := c.withTree name target content
  let commit := Object.commit (c.noteCommit name target content)
  have refs : (d.keeping commit).repository.refs = c.repository.refs :=
    (refs_keeping d commit).trans ((refs_keeping _ _).trans (refs_keeping c _))
  rw [extend_eq]
  dsimp only
  rw [Repository.tryPut, Repository.obstacle?_congr refs]
  cases c.repository.obstacle? name with
  | none => rfl
  | some o => rfl

theorem listed?_extends {files : Listing} (more : c.store.Extends v.store)
    (known : ∀ f ∈ files, c.store.Has f.2) (path : String) :
    v.listed? files path = c.listed? files path := by
  refine Option.bind_congr fun id found => ?_
  rw [Store.content?_extends more (known _ (Listing.mem_of_lookup found))]

section Closed
variable (closed : c.Closed)
include closed

theorem has_notesFiles {f : String × ObjectId} (listed : f ∈ c.notesFiles name) :
    c.store.Has f.2 := by
  unfold notesFiles notesTree at listed
  split at listed
  · exact nomatch listed
  · split at listed
    · exact nomatch listed
    · next k _ =>
      cases files : c.store.treeFiles? k.tree with
      | none =>
          rw [files] at listed
          exact nomatch listed
      | some l =>
          rw [files] at listed
          exact closed.store.has_file files listed

theorem find?_keeping (o : Object) :
    (c.keeping o).store.find? (c.store.intern o).1 = some o :=
  Store.find?_intern closed.store.once o

theorem grows_withText (content : String) :
    c.Grows (fun _ => False) (c.keeping (.blob (.text content))) :=
  grows_keeping closed (fun _ h => absurd h List.not_mem_nil) nofun

theorem grows_withTree (name target content : String) :
    c.Grows (fun _ => False) (c.withTree name target content) := by
  have text := grows_withText closed content
  refine text.trans (grows_keeping text.closed (fun link h => ?_) ?_)
  · obtain ⟨f, listed, rfl⟩ := List.mem_map.1 h
    rcases Listing.mem_insertNote listed with rfl | old
    · exact Store.has_of_find? (find?_keeping closed _)
    · exact (has_notesFiles closed old).extends text.store
  · exact mt Object.tree.inj (Listing.insertNote_ne_nil _ _ _)

theorem find?_withTree (name target content : String) :
    (c.withTree name target content).store.find? (c.noteCommit name target content).tree =
      some (c.noteTree name target content) :=
  find?_keeping (grows_withText closed content).closed _

theorem grows_withCommit (name target content : String) :
    c.Grows (fun _ => False)
      ((c.withTree name target content).keeping (.commit (c.noteCommit name target content))) := by
  have tree := grows_withTree closed name target content
  refine tree.trans (grows_keeping tree.closed (fun link h => ?_) nofun)
  rcases List.mem_cons.1 h with rfl | old
  · exact Store.has_of_find? (find?_withTree closed name target content)
  · exact (closed.refs name link (Option.mem_toList.1 old)).extends tree.store

theorem grows_withNote (name target content : String) :
    c.Grows (· = name) (c.withNote name target content) := by
  have commit := grows_withCommit closed name target content
  refine (commit.mono fun _ => False.elim).trans (grows_moving commit.closed ?_)
  exact Store.has_of_find? (find?_keeping (grows_withTree closed name target content).closed _)

theorem noteAt_grows {moved : String → Prop} (grows : c.Grows moved v) (still : ¬moved name)
    (target : String) : v.noteAt name target = c.noteAt name target := by
  unfold noteAt notesTree
  rw [grows.refs name still]
  cases at? : c.repository.refs.get? name with
  | none => rfl
  | some tip =>
      dsimp only
      rw [Store.commit?_extends grows.store (closed.refs name tip at?)]
      cases commit : c.store.commit? tip with
      | none => rfl
      | some k =>
          dsimp only
          rw [Store.treeFiles?_extends grows.store (closed.store.has_tree commit)]
          cases tree : c.store.treeFiles? k.tree with
          | none => rfl
          | some files =>
              exact congrArg Except.ok
                (listed?_extends grows.store (fun f => closed.store.has_file tree) target)

theorem notesTree_withNote (name target content : String) :
    (c.withNote name target content).notesTree name =
      .ok (some ((c.notesFiles name).insertNote target
        (c.store.intern (.blob (.text content))).1)) := by
  have tree := grows_withTree closed name target content
  have tip := find?_keeping tree.closed (.commit (c.noteCommit name target content))
  have files := find?_withTree closed name target content
  have more : (c.withTree name target content).store.Extends
      (c.withNote name target content).store := Store.extends_intern _ _
  rw [← Store.find?_extends more (Store.has_of_find? files)] at files
  have moved : (c.withNote name target content).repository.refs.get? name =
      some ((c.withTree name target content).store.intern
        (.commit (c.noteCommit name target content))).1 := by
    rw [withNote, repository_moving, Repository.get?_put, if_pos rfl]
  have commit : (c.withNote name target content).store.commit?
      ((c.withTree name target content).store.intern
        (.commit (c.noteCommit name target content))).1 =
      some (c.noteCommit name target content) := by
    rw [Store.commit?, show (c.withNote name target content).store.find? _ = _ from tip]
  unfold notesTree
  rw [moved]
  dsimp only
  rw [commit]
  dsimp only
  rw [Store.treeFiles?, files]
  rfl

theorem find?_withNote (name target content : String) :
    (c.withNote name target content).store.find? (c.store.intern (.blob (.text content))).1 =
      some (.blob (.text content)) := by
  have text := find?_keeping closed (.blob (.text content))
  have more : (c.keeping (.blob (.text content))).store.Extends
      (c.withNote name target content).store :=
    (Store.extends_intern _ _).trans (Store.extends_intern _ _)
  rw [Store.find?_extends more (Store.has_of_find? text), text]

theorem noteAt_withNote_self (target other content : String) {files : Option Listing}
    (readable : c.notesTree name = .ok files) :
    (c.withNote name target content).noteAt name other =
      if other = target then
        .ok (some ⟨idText (c.store.intern (.blob (.text content))).1, .text content⟩)
      else c.noteAt name other := by
  have before : c.noteAt name other = .ok (c.listed? (c.notesFiles name) other) := by
    rw [noteAt, notesFiles, readable]
    cases files <;> rfl
  have after : (c.withNote name target content).noteAt name other =
      .ok ((c.withNote name target content).listed? ((c.notesFiles name).insertNote target
        (c.store.intern (.blob (.text content))).1) other) := by
    rw [noteAt, notesTree_withNote closed]
    rfl
  rw [after, before, ← apply_ite Except.ok, listed?, Listing.lookup_insertNote]
  split
  · rw [Option.bind_some, Store.content?, find?_withNote closed]
    rfl
  · exact congrArg Except.ok (listed?_extends (grows_withNote closed name target content).store
      (fun f => has_notesFiles closed) other)

/-- Where the notes of a ref can be read, one more is there afterwards, and that is all. -/
theorem noteAt_withNote (target content : String) {files : Option Listing}
    (readable : c.notesTree name = .ok files) (other about : String) :
    (c.withNote name target content).noteAt other about =
      if other = name ∧ about = target then
        .ok (some ⟨idText (c.store.intern (.blob (.text content))).1, .text content⟩)
      else c.noteAt other about := by
  by_cases ref : other = name
  · rw [ref, noteAt_withNote_self closed target about content readable]
    simp only [true_and]
  · rw [noteAt_grows closed (grows_withNote closed name target content) ref,
      if_neg fun same => ref same.1]

end Closed

end Checkout

end ApiDrift.Git
