import ApiDrift.Proofs.Snapshot.Deed
import ApiDrift.Proofs.Snapshot.Keeps
import Mathlib.Logic.Function.Basic
/-! Clones of a repository that share one remote. Whatever they do, and in whatever order their
calls come, a note that is held somewhere stays there as it is, and some call wrote it. -/
namespace ApiDrift.Snapshot

/-- Where notes are held. -/
inductive Place (ι : Type) where
  | clone (k : ι)
  | remote
deriving DecidableEq, Repr

/-- Clones of one repository, and the remote that all of them see. -/
structure Fleet (ι : Type) where
  clones : ι → Memory := fun _ => {}
  remote : Notes := .empty
  /-- All calls so far, each with the clone that made it. -/
  history : List (ι × Deed) := []

namespace Fleet
variable {ι : Type} {f : Fleet ι} {r t s : String}

/-- A clone with the shared remote as its own. -/
def view (f : Fleet ι) (k : ι) : Memory := { f.clones k with remote := f.remote }

def notesAt (f : Fleet ι) : Place ι → Notes
  | .clone k => (f.clones k).notes
  | .remote => f.remote

theorem find?_notesAt_new (place : Place ι) :
    (({} : Fleet ι).notesAt place).find? r t = none := by
  cases place with
  | clone k => rfl
  | remote => rfl

variable [DecidableEq ι]

/-- One call, made by one clone. -/
def step (f : Fleet ι) (e : ι × Deed) : Fleet ι where
  clones := Function.update f.clones e.1 (e.2.after (f.view e.1))
  remote := (e.2.after (f.view e.1)).remote
  history := f.history ++ [e]

def steps (f : Fleet ι) (l : List (ι × Deed)) : Fleet ι := l.foldl step f

/-- What becomes of new clones. -/
def after (history : List (ι × Deed)) : Fleet ι := steps {} history

/-- Some call of the history succeeded and left this note. -/
def Written (history : List (ι × Deed)) (notesRef target content : String) : Prop :=
  ∃ before k d later, history = before ++ (k, d) :: later ∧
    d.Writes ((after before).view k) notesRef target content

/-- None of the calls puts another note in the place of this one. -/
def Undisturbed (place : Place ι) (notesRef target content : String) (l : List (ι × Deed)) :
    Prop :=
  place = .remote → ∀ k s, (k, .addRemoteNote notesRef target s) ∈ l → s = content

theorem steps_append (f : Fleet ι) (l m : List (ι × Deed)) :
    f.steps (l ++ m) = (f.steps l).steps m := List.foldl_append

theorem after_append (l m : List (ι × Deed)) : after (l ++ m) = (after l).steps m :=
  steps_append {} l m

theorem history_steps (l : List (ι × Deed)) : (f.steps l).history = f.history ++ l := by
  induction l generalizing f with
  | nil => exact (List.append_nil _).symm
  | cons e rest ih => exact ih.trans (List.append_assoc _ [e] rest)

theorem history_after (l : List (ι × Deed)) : (after l).history = l := history_steps l

theorem notesAt_step_clone (f : Fleet ι) (e : ι × Deed) (k : ι) :
    (f.step e).notesAt (.clone k) =
      if k = e.1 then (e.2.after (f.view e.1)).notes else f.notesAt (.clone k) := by
  show (Function.update f.clones e.1 (e.2.after (f.view e.1)) k).notes = _
  rw [Function.update_apply]
  split
  · rfl
  · rfl

theorem find?_step {e : ι × Deed} {place : Place ι}
    (held : (f.notesAt place).find? r t = some s) (still : Undisturbed place r t s [e]) :
    ((f.step e).notesAt place).find? r t = some s := by
  cases place with
  | clone k =>
      rw [notesAt_step_clone]
      split
      · next own =>
        subst own
        exact Deed.find?_notes_after held
      · exact held
  | remote =>
      refine Deed.find?_remote_after held fun s' again => still rfl e.1 s' ?_
      rw [← again]
      exact List.mem_singleton_self e

theorem find?_steps {l : List (ι × Deed)} {place : Place ι}
    (held : (f.notesAt place).find? r t = some s) (still : Undisturbed place r t s l) :
    ((f.steps l).notesAt place).find? r t = some s := by
  induction l generalizing f with
  | nil => exact held
  | cons e rest ih =>
      have first : Undisturbed place r t s [e] := fun remote k s' h =>
        still remote k s' (List.mem_cons.2 (.inl (List.mem_singleton.1 h)))
      exact ih (find?_step held first) fun remote k s' h =>
        still remote k s' (List.mem_cons_of_mem e h)

/-- A note that is held after a call was held before, perhaps elsewhere, or is written just now. -/
theorem origin_step {e : ι × Deed} {place : Place ι}
    (held : ((f.step e).notesAt place).find? r t = some s) :
    (∃ place, (f.notesAt place).find? r t = some s) ∨ e.2.Writes (f.view e.1) r t s := by
  cases place with
  | clone k =>
      rw [notesAt_step_clone] at held
      split at held
      · obtain known | known | written := Deed.origin_notes held
        · exact .inl ⟨.clone e.1, known⟩
        · exact .inl ⟨.remote, known⟩
        · exact .inr written
      · exact .inl ⟨.clone k, held⟩
  | remote =>
      obtain known | known | written := Deed.origin_remote held
      · exact .inl ⟨.remote, known⟩
      · exact .inl ⟨.clone e.1, known⟩
      · exact .inr written

theorem written_of_held {history : List (ι × Deed)} {place : Place ι}
    (held : ((after history).notesAt place).find? r t = some s) : Written history r t s := by
  induction history using List.reverseRecOn generalizing place with
  | nil => exact nomatch (find?_notesAt_new place).symm.trans held
  | append_singleton earlier e ih =>
      rw [after_append] at held
      obtain ⟨place, known⟩ | written := origin_step held
      · obtain ⟨before, k, d, later, rfl, written⟩ := ih known
        refine ⟨before, k, d, later ++ [e], ?_, written⟩
        rw [List.append_assoc, List.cons_append]
      · exact ⟨earlier, e.1, e.2, [], rfl, written⟩

end Fleet

/-- A clone in the middle of an operation. -/
structure Session (ι : Type) where
  fleet : Fleet ι
  clone : ι
  /-- The calls that come before each of the next own calls. -/
  meanwhile : List (List (ι × Deed))

namespace Session
variable {ι : Type} [DecidableEq ι]

def view (s : Session ι) : Memory := s.fleet.view s.clone

def call (d : Deed) : Action (Session ι) String := ExceptT.mk fun s =>
  let fleet := s.fleet.steps (s.meanwhile.headD [])
  ((d.call.run (fleet.view s.clone)).1,
    { s with fleet := fleet.step (s.clone, d), meanwhile := s.meanwhile.tail })

/-- What a clone reads does not depend on the remote, so others come in only before its calls. -/
instance : Backend (Session ι) where
  tags s := Backend.tags s.view
  latestTag s := Backend.latestTag s.view
  tagTime s := Backend.tagTime s.view
  resolve s := Backend.resolve s.view
  tagBlob s := Backend.tagBlob s.view
  note s := Backend.note s.view
  noteRefs s := Backend.noteRefs s.view
  workingFile s := Backend.workingFile s.view
  addNote notesRef target content := call (.addNote notesRef target content)
  push remote refs := discard (call (.push remote refs))
  fetch remote area := discard (call (.fetch remote area))

/-- The second state is reached from the first one by calls. -/
def Leads (s u : Session ι) : Prop := ∃ l, u.fleet = s.fleet.steps l

theorem keeps_call (d : Deed) : Keeps Leads (call d : Action (Session ι) String) := by
  intro s
  refine ⟨s.meanwhile.headD [] ++ [(s.clone, d)], ?_⟩
  rw [Fleet.steps_append]
  rfl

theorem kept_leads : Kept (Leads (ι := ι)) where
  refl s := ⟨[], rfl⟩
  trans := by
    rintro s t u ⟨l, first⟩ ⟨m, second⟩
    refine ⟨l ++ m, ?_⟩
    rw [Fleet.steps_append, ← first, second]
  addNote notesRef target content := keeps_call _
  push remote refs := (keeps_call (.push remote refs)).discard
  fetch remote area := (keeps_call (.fetch remote area)).discard

end Session

/-- What the user of a clone may do. -/
inductive Operation where
  | install (config : Config) (files : List String)
  | dist (config : Config) (files : List String) (ignoreExisting : Bool)
  | check (config : Config) (request : Request)
  | list (config : Config) (files : List String)
  | single (d : Deed)

/-- An operation at a clone, with what happens before each call that it makes. -/
structure Turn (ι : Type) where
  clone : ι
  operation : Operation
  meanwhile : List (List (ι × Deed)) := []

section Play
variable {ι : Type} [DecidableEq ι]

def Operation.run : Operation → Action (Session ι) Unit
  | install config files => discard (Snapshot.install config files)
  | dist config files ignoreExisting => discard (Snapshot.dist config files ignoreExisting)
  | check config request => discard (Snapshot.check config request)
  | list config files => discard (Action.consult (Snapshot.list config files))
  | single d => discard (Session.call d)

theorem Operation.leads (o : Operation) :
    Keeps Session.Leads (o.run : Action (Session ι) Unit) := by
  have h := Session.kept_leads (ι := ι)
  cases o with
  | install config files => exact (h.install config files).discard
  | dist config files ignoreExisting => exact (h.dist config files ignoreExisting).discard
  | check config request => exact (h.check config request).discard
  | list config files => exact (Keeps.consult h.refl _).discard
  | single d => exact (Session.keeps_call d).discard

namespace Fleet

def turn (f : Fleet ι) (t : Turn ι) : Fleet ι :=
  (t.operation.run.run ⟨f, t.clone, t.meanwhile⟩).2.fleet

/-- What becomes of new clones, operation after operation. -/
def play (turns : List (Turn ι)) : Fleet ι := turns.foldl turn {}

theorem turn_eq (f : Fleet ι) (t : Turn ι) : ∃ l, f.turn t = f.steps l :=
  t.operation.leads ⟨f, t.clone, t.meanwhile⟩

theorem foldl_turn_eq (f : Fleet ι) (turns : List (Turn ι)) :
    ∃ l, turns.foldl turn f = f.steps l := by
  induction turns generalizing f with
  | nil => exact ⟨[], rfl⟩
  | cons t rest ih =>
      obtain ⟨l, first⟩ := turn_eq f t
      obtain ⟨m, others⟩ := ih (f.steps l)
      refine ⟨l ++ m, ?_⟩
      rw [List.foldl_cons, first, others, steps_append]

theorem play_eq (turns : List (Turn ι)) : play turns = after (play turns).history := by
  obtain ⟨l, reached⟩ := foldl_turn_eq {} turns
  have same : play turns = after l := reached
  rw [same, history_after]

theorem history_play_prefix {earlier turns : List (Turn ι)} (h : earlier <+: turns) :
    (play earlier).history <+: (play turns).history := by
  obtain ⟨others, rfl⟩ := h
  obtain ⟨l, reached⟩ := foldl_turn_eq (play earlier) others
  have same : play (earlier ++ others) = (play earlier).steps l := List.foldl_append.trans reached
  rw [same, history_steps]
  exact List.prefix_append _ l

end Fleet

/-- Whatever clones of a repository do, the notes that are held anywhere, in any state on the way,
were written by some call, and they stay where they are. -/
theorem snapshots_permanent (turns : List (Turn ι)) :
    (∀ earlier, earlier <+: turns → (Fleet.play earlier).history <+: (Fleet.play turns).history ∧
      Fleet.play earlier = Fleet.after (Fleet.play earlier).history) ∧
    ∀ before between, before ++ between <+: (Fleet.play turns).history →
      ∀ place notesRef target content,
        ((Fleet.after before).notesAt place).find? notesRef target = some content →
          Fleet.Written before notesRef target content ∧
          (Fleet.Undisturbed place notesRef target content between →
            ((Fleet.after (before ++ between)).notesAt place).find? notesRef target =
              some content) := by
  refine ⟨fun earlier h => ⟨Fleet.history_play_prefix h, Fleet.play_eq earlier⟩, ?_⟩
  intro before between _ place notesRef target content held
  refine ⟨Fleet.written_of_held held, fun still => ?_⟩
  rw [Fleet.after_append]
  exact Fleet.find?_steps held still

end Play

/-- One clone records a release and publishes the note, another one compares with it. -/
def bellTurns : List (Turn Bool) := [
  { clone := false, operation := .single (.addTag "v1" 1 [("bell.xml", "<node/>")]) },
  { clone := false, operation := .dist {} ["bell.xml"] false
    meanwhile := [
      [(true, .addTag "v1" 1 [])],
      [(true, .fetch "origin" "notes/dbus/api"), (true, .setOutage true)]] },
  { clone := true, operation := .check {} {}, meanwhile := [[(true, .setOutage false)]] }]

def bellPublished : List (Bool × Deed) := [
  (false, .addTag "v1" 1 [("bell.xml", "<node/>")]),
  (true, .addTag "v1" 1 []),
  (false, .addNote "refs/notes/dbus/api/bell.xml" "tag:v1" "<node/>"),
  (true, .fetch "origin" "notes/dbus/api"), (true, .setOutage true),
  (false, .push "origin" ["refs/notes/dbus/api/bell.xml"])]

def bellCompared : List (Bool × Deed) := [
  (true, .setOutage false), (true, .fetch "origin" "notes/dbus/api")]

theorem bell_note_permanent :
    (Fleet.play bellTurns).history = bellPublished ++ bellCompared ∧
      ((Fleet.after bellPublished).notesAt .remote).find? "refs/notes/dbus/api/bell.xml" "tag:v1" =
        some "<node/>" ∧
      Fleet.Written bellPublished "refs/notes/dbus/api/bell.xml" "tag:v1" "<node/>" ∧
      ((Fleet.play bellTurns).notesAt .remote).find? "refs/notes/dbus/api/bell.xml" "tag:v1" =
        some "<node/>" := by
  have told : (Fleet.play bellTurns).history = bellPublished ++ bellCompared := by decide +kernel
  have held : ((Fleet.after bellPublished).notesAt .remote).find?
      "refs/notes/dbus/api/bell.xml" "tag:v1" = some "<node/>" := by decide +kernel
  have still : Fleet.Undisturbed .remote "refs/notes/dbus/api/bell.xml" "tag:v1" "<node/>"
      bellCompared := by
    intro _ k s replaced
    simp only [bellCompared, List.mem_cons, Prod.mk.injEq, reduceCtorEq, and_false,
      List.not_mem_nil, or_self] at replaced
  obtain ⟨reached, permanent⟩ := snapshots_permanent bellTurns
  obtain ⟨written, kept⟩ := permanent bellPublished bellCompared ⟨[], by rw [told, List.append_nil]⟩
    .remote _ _ _ held
  refine ⟨told, held, written, ?_⟩
  rw [(reached bellTurns (List.prefix_refl _)).2, told]
  exact kept still

end ApiDrift.Snapshot
