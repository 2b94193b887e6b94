import ApiDrift.Proofs.Snapshot.Memory
/-! Calls on a repository in memory: a note that is there stays as it is, whatever is called, and
a note that comes up was on the other side before or is written by the call. -/
namespace ApiDrift.Snapshot

/-- A call that changes a repository in memory or its remote. -/
inductive Deed where
  | addNote (notesRef target content : String)
  | push (remote : String) (refs : List String)
  | fetch (remote area : String)
  | addTag (name : String) (time : Int) (files : List (String × String))
  | addRef (name object : String)
  | writeFile (path content : String)
  | setOutage (fails : Bool)
  | addRemoteNote (notesRef target content : String)
deriving DecidableEq, Repr

namespace Deed

/-- A note that is added gives its id, and no other call gives anything. -/
def call : Deed → Action Memory String
  | addNote notesRef target content => Backend.addNote notesRef target content
  | push remote refs => do Backend.push remote refs; pure ""
  | fetch remote area => do Backend.fetch remote area; pure ""
  | addTag name time files => do modify (·.addTag name time files); pure ""
  | addRef name object => do modify (·.addRef name object); pure ""
  | writeFile path content => do modify (·.writeFile path content); pure ""
  | setOutage fails => do modify ({ · with remoteFails := fails }); pure ""
  | addRemoteNote notesRef target content => do
    modify (·.addRemoteNote notesRef target content); pure ""

/-- The repository afterwards, also when the call fails. -/
def after (d : Deed) (m : Memory) : Memory := (d.call.run m).2

/-- The call succeeds and leaves this note, in the clone or at the remote. -/
def Writes (d : Deed) (m : Memory) (notesRef target content : String) : Prop :=
  (d = addNote notesRef target content ∨ d = addRemoteNote notesRef target content) ∧
    ∃ id, (d.call.run m).1 = .ok id

variable {d : Deed} {m : Memory} {r t s : String}

theorem after_addNote (m : Memory) (notesRef target content : String) :
    (addNote notesRef target content).after m =
      if (m.notes.find? notesRef target).isSome then m else m.noted notesRef target content := by
  rw [after, call, run_addNote]
  split
  · rfl
  · rfl

theorem after_push (m : Memory) (remote : String) (refs : List String) :
    (push remote refs).after m = if m.remoteFails then m else m.pushed remote refs := by
  rw [after, call, Action.run_bind, run_push]
  cases m.remoteFails with
  | true => rfl
  | false => rfl

theorem after_fetch (m : Memory) (remote area : String) :
    (fetch remote area).after m = if m.remoteFails then m else m.fetched area := by
  rw [after, call, Action.run_bind, run_fetch]
  cases m.remoteFails with
  | true => rfl
  | false => rfl

theorem writes_addNote (fresh : m.notes.find? r t = none) : (addNote r t s).Writes m r t s := by
  refine ⟨.inl rfl, Memory.contentId s, ?_⟩
  rw [call, run_addNote, fresh]
  rfl

theorem writes_addRemoteNote : (addRemoteNote r t s).Writes m r t s := ⟨.inr rfl, "", rfl⟩

theorem find?_notes_after (known : m.notes.find? r t = some s) :
    (d.after m).notes.find? r t = some s := by
  cases d with
  | addNote r' t' s' =>
      rw [after_addNote]
      split
      · exact known
      · next fresh =>
        refine (Notes.find?_add ..).trans ((if_neg ?_).trans known)
        rintro ⟨rfl, rfl⟩
        exact fresh (Option.isSome_of_eq_some known)
  | push remote refs =>
      rw [after_push]
      split
      · exact known
      · exact known
  | fetch remote area =>
      rw [after_fetch]
      split
      · exact known
      · refine (Notes.find?_mergeRefs ..).trans ?_
        rw [known, Option.some_or]
  | addTag => exact known
  | addRef => exact known
  | writeFile => exact known
  | setOutage => exact known
  | addRemoteNote => exact known

theorem find?_remote_after (known : m.remote.find? r t = some s)
    (still : ∀ s', d = addRemoteNote r t s' → s' = s) :
    (d.after m).remote.find? r t = some s := by
  cases d with
  | addNote r' t' s' =>
      rw [after_addNote]
      split
      · exact known
      · exact known
  | push remote refs =>
      rw [after_push]
      split
      · exact known
      · refine (Notes.find?_mergeRefs ..).trans ?_
        rw [known, Option.some_or]
  | fetch remote area =>
      rw [after_fetch]
      split
      · exact known
      · exact known
  | addTag => exact known
  | addRef => exact known
  | writeFile => exact known
  | setOutage => exact known
  | addRemoteNote r' t' s' =>
      refine (Notes.find?_add ..).trans ?_
      split
      · next here => rw [still s' (by rw [here.1, here.2])]
      · exact known

/-- A note that a clone has afterwards was there, came from the remote or is written just now. -/
theorem origin_notes (h : (d.after m).notes.find? r t = some s) :
    m.notes.find? r t = some s ∨ m.remote.find? r t = some s ∨ d.Writes m r t s := by
  cases d with
  | addNote r' t' s' =>
      rw [after_addNote] at h
      split at h
      · exact .inl h
      · next fresh =>
        rw [Memory.noted, Notes.find?_add] at h
        split at h
        · next here =>
          obtain ⟨rfl, rfl⟩ := here
          obtain rfl := Option.some.inj h
          exact .inr (.inr (writes_addNote (Option.not_isSome_iff_eq_none.1 fresh)))
        · exact .inl h
  | push remote refs =>
      rw [after_push] at h
      split at h
      · exact .inl h
      · exact .inl h
  | fetch remote area =>
      rw [after_fetch] at h
      split at h
      · exact .inl h
      · exact (Notes.find?_of_find?_mergeRefs h).imp_right .inl
  | addTag => exact .inl h
  | addRef => exact .inl h
  | writeFile => exact .inl h
  | setOutage => exact .inl h
  | addRemoteNote => exact .inl h

/-- A note that the remote has afterwards was there, came from the clone or is written just now. -/
theorem origin_remote (h : (d.after m).remote.find? r t = some s) :
    m.remote.find? r t = some s ∨ m.notes.find? r t = some s ∨ d.Writes m r t s := by
  cases d with
  | addNote r' t' s' =>
      rw [after_addNote] at h
      split at h
      · exact .inl h
      · exact .inl h
  | push remote refs =>
      rw [after_push] at h
      split at h
      · exact .inl h
      · exact (Notes.find?_of_find?_mergeRefs h).imp_right .inl
  | fetch remote area =>
      rw [after_fetch] at h
      split at h
      · exact .inl h
      · exact .inl h
  | addTag => exact .inl h
  | addRef => exact .inl h
  | writeFile => exact .inl h
  | setOutage => exact .inl h
  | addRemoteNote r' t' s' =>
      replace h := (Notes.find?_add ..).symm.trans h
      split at h
      · next here =>
        obtain ⟨rfl, rfl⟩ := here
        obtain rfl := Option.some.inj h
        exact .inr (.inr writes_addRemoteNote)
      · exact .inl h

end Deed

end ApiDrift.Snapshot
