import ApiDrift.Proofs.Snapshot.Memory
/-! A clone and its remote brought together: the clone brings in the notes of an area and then
publishes what the area holds. Both then have the notes of both, and none was overwritten. -/
namespace ApiDrift.Snapshot

/-- Whether the notes under a ref belong to an area. -/
def InArea (area notesRef : String) : Prop := (Text.after? (heading area) notesRef).isSome

instance (area notesRef : String) : Decidable (InArea area notesRef) :=
  inferInstanceAs (Decidable (_ = true))

namespace Notes

theorem find?_mergeRefs_refs (source n : Notes) (area r target : String) :
    (Memory.mergeRefs source n (source.refs area)).find? r target =
      (n.find? r target).or (if InArea area r then source.find? r target else none) := by
  rw [find?_mergeRefs]
  congr 1
  by_cases inside : InArea area r
  · rw [if_pos inside]
    split
    · rfl
    · next unlisted =>
      cases found : source.find? r target with
      | none => rfl
      | some s => exact absurd (mem_refs_iff.2 ⟨inside, target, s, found⟩) unlisted
  · rw [if_neg inside, if_neg fun listed => inside (mem_refs_iff.1 listed).1]

theorem addMissing_eq_self {n : Notes} {r target : String} (known : (n.find? r target).isSome)
    (content : String) : n.addMissing r target content = n := by
  rw [addMissing, Table.contains, get?_under, if_pos known]

theorem mergeRef_eq_self {theirs : Table String} {n : Notes} {r : String}
    (known : ∀ target s, theirs.get? target = some s → (n.find? r target).isSome) :
    mergeRef theirs n r = n := by
  have each : ∀ e ∈ theirs.entries, (n.find? r e.1).isSome := fun e he =>
    known e.1 e.2 (Table.mem_entries_iff.1 he)
  unfold mergeRef
  revert each
  induction theirs.entries with
  | nil => exact fun _ => rfl
  | cons e rest ih =>
      intro each
      obtain ⟨first, others⟩ := List.forall_mem_cons.1 each
      rw [List.foldl_cons, addMissing_eq_self first]
      exact ih others

theorem mergeRefs_eq_self {source n : Notes} {refs : List String}
    (known : ∀ r ∈ refs, ∀ target s, source.find? r target = some s → (n.find? r target).isSome) :
    Memory.mergeRefs source n refs = n := by
  unfold Memory.mergeRefs
  induction refs with
  | nil => rfl
  | cons r rest ih =>
      obtain ⟨first, others⟩ := List.forall_mem_cons.1 known
      have here : mergeRef (source.under r) n r = n :=
        mergeRef_eq_self fun target s found => first target s (by rwa [get?_under] at found)
      rw [List.foldl_cons, here]
      exact ih others

end Notes

/-- Brings in the notes of an area, and then publishes all that the area holds. -/
def reconcile (remote area : String) : Action Memory Unit := do
  Backend.fetch remote area
  let refs ← Action.look fun m : Memory => Backend.noteRefs m area
  Backend.push remote refs

/-- The repository after its clone has done so. -/
def Memory.reconciled (m : Memory) (remote area : String) : Memory :=
  (m.fetched area).pushed remote ((m.fetched area).notes.refs area)

variable {m n : Memory} {remote area : String}

theorem run_reconcile (reachable : m.remoteFails = false) :
    (reconcile remote area).run m = (.ok (), m.reconciled remote area) := by
  have fetched : (Backend.fetch remote area).run m = (.ok (), m.fetched area) := by
    rw [run_fetch, reachable]
    rfl
  have pushed (refs : List String) : (Backend.push remote refs).run (m.fetched area) =
      (.ok (), (m.fetched area).pushed remote refs) := by
    have still : (m.fetched area).remoteFails = false := reachable
    rw [run_push, still]
    rfl
  refine (Action.run_bind_of_ok fetched).trans ?_
  exact (Action.run_look_bind (fun m : Memory => m.notes.refs area) _ _).trans (pushed _)

theorem find?_notes_reconciled (r target : String) :
    (m.reconciled remote area).notes.find? r target =
      (m.notes.find? r target).or (if InArea area r then m.remote.find? r target else none) :=
  Notes.find?_mergeRefs_refs ..

theorem find?_remote_reconciled (r target : String) :
    (m.reconciled remote area).remote.find? r target =
      (m.remote.find? r target).or (if InArea area r then m.notes.find? r target else none) := by
  refine (Notes.find?_mergeRefs_refs ..).trans ?_
  show (m.remote.find? r target).or
    (if InArea area r then (Memory.mergeRefs m.remote m.notes _).find? r target else none) = _
  rw [Notes.find?_mergeRefs_refs]
  by_cases inside : InArea area r
  · rw [if_pos inside, if_pos inside, if_pos inside]
    cases m.remote.find? r target with
    | some s => rfl
    | none => rw [Option.or_none]
  · rw [if_neg inside, if_neg inside]

/-- What a clone and its remote hold after both were brought together. -/
structure Reconciled (area : String) (m n : Memory) : Prop where
  notes : ∀ r target, InArea area r → ((n.notes.find? r target).isSome ↔
    (m.notes.find? r target).isSome ∨ (m.remote.find? r target).isSome)
  remote : ∀ r target, InArea area r → ((n.remote.find? r target).isSome ↔
    (m.notes.find? r target).isSome ∨ (m.remote.find? r target).isSome)
  notesKept : ∀ r target s, m.notes.find? r target = some s → n.notes.find? r target = some s
  remoteKept : ∀ r target s, m.remote.find? r target = some s → n.remote.find? r target = some s
  agree : ∀ r target, InArea area r →
    (∀ s s', m.notes.find? r target = some s → m.remote.find? r target = some s' → s = s') →
    n.notes.find? r target = n.remote.find? r target
  elsewhere : ∀ r target, ¬InArea area r →
    n.notes.find? r target = m.notes.find? r target ∧
      n.remote.find? r target = m.remote.find? r target

theorem reconciled_reconciled : Reconciled area m (m.reconciled remote area) where
  notes r target inside := by
    rw [find?_notes_reconciled, if_pos inside, Option.isSome_or, Bool.or_eq_true]
  remote r target inside := by
    rw [find?_remote_reconciled, if_pos inside, Option.isSome_or, Bool.or_eq_true, or_comm]
  notesKept r target s known := by
    rw [find?_notes_reconciled, known, Option.some_or]
  remoteKept r target s known := by
    rw [find?_remote_reconciled, known, Option.some_or]
  agree r target inside same := by
    rw [find?_notes_reconciled, find?_remote_reconciled, if_pos inside, if_pos inside]
    cases own : m.notes.find? r target with
    | none => rw [Option.none_or, Option.or_none]
    | some s =>
        cases theirs : m.remote.find? r target with
        | none => rfl
        | some s' => rw [same s s' own theirs]
  elsewhere r target outside := by
    rw [find?_notes_reconciled, find?_remote_reconciled, if_neg outside, if_neg outside,
      Option.or_none, Option.or_none]
    exact ⟨rfl, rfl⟩

theorem Reconciled.again (h : Reconciled area m n) (remote : String) :
    (n.reconciled remote area).notes = n.notes ∧ (n.reconciled remote area).remote = n.remote := by
  have fetched : Memory.mergeRefs n.remote n.notes (n.remote.refs area) = n.notes := by
    refine Notes.mergeRefs_eq_self fun r listed target s found => ?_
    have inside : InArea area r := (Notes.mem_refs_iff.1 listed).1
    exact (h.notes r target inside).2
      ((h.remote r target inside).1 (Option.isSome_of_eq_some found))
  refine ⟨fetched, ?_⟩
  show Memory.mergeRefs (Memory.mergeRefs n.remote n.notes (n.remote.refs area)) n.remote
    ((Memory.mergeRefs n.remote n.notes (n.remote.refs area)).refs area) = n.remote
  rw [fetched]
  refine Notes.mergeRefs_eq_self fun r listed target s found => ?_
  have inside : InArea area r := (Notes.mem_refs_iff.1 listed).1
  exact (h.remote r target inside).2
    ((h.notes r target inside).1 (Option.isSome_of_eq_some found))

/-- A clone that brings in the notes of an area and publishes what it then has there ends with the
same notes as its remote: those that either had, each side with its own content where both had one.
Notes of other areas stay as they are, and doing it again changes no note. -/
theorem reconcile_reconciles (remote area : String) (m : Memory)
    (reachable : m.remoteFails = false) :
    ∃ n, (reconcile remote area).run m = (.ok (), n) ∧ Reconciled area m n ∧
      ∃ k, (reconcile remote area).run n = (.ok (), k) ∧
        k.notes = n.notes ∧ k.remote = n.remote := by
  have done : Reconciled area m (m.reconciled remote area) := reconciled_reconciled
  have again : (reconcile remote area).run (m.reconciled remote area) =
      (.ok (), (m.reconciled remote area).reconciled remote area) := run_reconcile reachable
  exact ⟨_, run_reconcile reachable, done, _, again, done.again remote⟩

/-- A clone with a snapshot that its remote has otherwise, one that it lacks, and a note of another
area. -/
def dividedBells : Memory where
  notes := Notes.add (Notes.add .empty "refs/notes/dbus/api/bell.xml" "tag:v1" "mine")
    "refs/notes/review" "tag:v1" "fine"
  remote := Notes.add (Notes.add .empty "refs/notes/dbus/api/bell.xml" "tag:v1" "theirs")
    "refs/notes/dbus/api/gong.xml" "tag:v2" "loud"

theorem dividedBells_reconciled : dividedBells.remoteFails = false ∧
    ∃ n, (reconcile "origin" "notes/dbus/api").run dividedBells = (.ok (), n) ∧
      n.notes.find? "refs/notes/dbus/api/bell.xml" "tag:v1" = some "mine" ∧
      n.remote.find? "refs/notes/dbus/api/bell.xml" "tag:v1" = some "theirs" ∧
      n.notes.find? "refs/notes/dbus/api/gong.xml" "tag:v2" =
        n.remote.find? "refs/notes/dbus/api/gong.xml" "tag:v2" ∧
      n.remote.find? "refs/notes/review" "tag:v1" = none ∧
      ∃ k, (reconcile "origin" "notes/dbus/api").run n = (.ok (), k) ∧ k.notes = n.notes ∧
        k.remote = n.remote := by
  obtain ⟨n, run, done, again⟩ := reconcile_reconciles "origin" "notes/dbus/api" dividedBells rfl
  refine ⟨rfl, n, run, done.notesKept _ _ _ (by decide +kernel),
    done.remoteKept _ _ _ (by decide +kernel), ?_, ?_, again⟩
  · refine done.agree _ _ (by decide +kernel) fun s s' own _ => ?_
    have lacks : dividedBells.notes.find? "refs/notes/dbus/api/gong.xml" "tag:v2" = none := by
      decide +kernel
    exact nomatch lacks.symm.trans own
  · refine (done.elsewhere "refs/notes/review" "tag:v1" (by decide +kernel)).2.trans ?_
    decide +kernel

end ApiDrift.Snapshot
