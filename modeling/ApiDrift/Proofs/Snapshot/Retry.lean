import ApiDrift.Proofs.Snapshot.Keeps
import ApiDrift.Proofs.Snapshot.Memory
/-! Recording taken up again. What is recorded depends on nothing at the remote, and a file that is
done is passed over from then on. So a run that could only not publish is made good by another one,
and once files are installed there is nothing left to install. -/
namespace ApiDrift.Snapshot
variable {σ α β : Type}

theorem Action.run_mapM_idle {f : α → Action σ β} {g : α → β} {s : σ} {l : List α}
    (idle : ∀ a ∈ l, (f a).run s = (.ok (g a), s)) : (l.mapM f).run s = (.ok (l.map g), s) := by
  induction l with
  | nil => rfl
  | cons a rest ih =>
      obtain ⟨own, others⟩ := List.forall_mem_cons.1 idle
      rw [List.mapM_cons, run_bind_of_ok own, run_bind_of_ok (ih others)]
      rfl

namespace Memory

/-- A repository with the remote of another one: what is there, what was pushed to it, and whether
it can be reached. -/
def facing (m n : Memory) : Memory :=
  { m with remote := n.remote, pushes := n.pushes, remoteFails := n.remoteFails }

/-- The same repository, which may have more notes by now, and whose remote may have changed. -/
structure Extends (m n : Memory) : Prop where
  tags : n.tags = m.tags
  refs : n.refs = m.refs
  workTree : n.workTree = m.workTree
  notes : ∀ r target s, m.notes.find? r target = some s → n.notes.find? r target = some s

theorem Extends.refl (m : Memory) : m.Extends m := ⟨rfl, rfl, rfl, fun _ _ _ => id⟩

theorem Extends.trans {m n k : Memory} (h : m.Extends n) (h' : n.Extends k) : m.Extends k where
  tags := h'.tags.trans h.tags
  refs := h'.refs.trans h.refs
  workTree := h'.workTree.trans h.workTree
  notes r target s found := h'.notes r target s (h.notes r target s found)

theorem extends_noted {m : Memory} {notesRef target : String}
    (fresh : m.notes.find? notesRef target = none) (content : String) :
    m.Extends (m.noted notesRef target content) := by
  refine ⟨rfl, rfl, rfl, fun r t s found => ?_⟩
  refine (Notes.find?_add ..).trans ((if_neg ?_).trans found)
  rintro ⟨rfl, rfl⟩
  exact nomatch fresh.symm.trans found

theorem extends_fetched (m : Memory) (area : String) : m.Extends (m.fetched area) := by
  refine ⟨rfl, rfl, rfl, fun r target s found => ?_⟩
  refine (Notes.find?_mergeRefs ..).trans ?_
  rw [found, Option.some_or]

theorem kept_extends : Kept Extends where
  refl := Extends.refl
  trans := Extends.trans
  addNote notesRef target content m := by
    rw [run_addNote]
    split
    · exact .refl m
    · next fresh => exact extends_noted (Option.not_isSome_iff_eq_none.1 fresh) content
  push remote refs m := by
    rw [run_push]
    split
    · exact .refl m
    · exact ⟨rfl, rfl, rfl, fun _ _ _ => id⟩
  fetch remote area m := by
    rw [run_fetch]
    split
    · exact .refl m
    · exact extends_fetched m area

theorem Extends.resolve {m n : Memory} (h : m.Extends n) (reference : String) :
    n.resolve reference = m.resolve reference := by
  rw [Memory.resolve, Memory.resolve, h.tags, h.refs]

theorem Extends.tagText {m n : Memory} (h : m.Extends n) (tag path : String) :
    n.tagText tag path = m.tagText tag path := by
  rw [Memory.tagText, Memory.tagText, h.tags]

theorem Extends.isSome_find? {m n : Memory} (h : m.Extends n) {r target : String}
    (found : (m.notes.find? r target).isSome) : (n.notes.find? r target).isSome := by
  obtain ⟨s, known⟩ := Option.isSome_iff_exists.1 found
  rw [h.notes r target s known]
  rfl

section Steps
variable {f : α → Action Memory β} {m n : Memory} {l : List α} {done : List β}

theorem extends_of_run (each : ∀ a, Keeps Extends (f a)) (run : (l.mapM f).run m = (.ok done, n)) :
    m.Extends n := by
  have kept := Keeps.mapM Extends.refl Extends.trans each l m
  rwa [run] at kept

/-- What a step does for its own element, and later steps keep, holds of every element once all
steps have succeeded. -/
theorem forall_of_run_mapM {Q : α → Memory → Prop} (each : ∀ a, Keeps Extends (f a))
    (own : ∀ {a m b n}, (f a).run m = (.ok b, n) → Q a n)
    (stays : ∀ {a m n}, Q a m → m.Extends n → Q a n) (run : (l.mapM f).run m = (.ok done, n)) :
    ∀ a ∈ l, Q a n := by
  induction l generalizing m done with
  | nil => exact List.forall_mem_nil _
  | cons a rest ih =>
      rw [List.mapM_cons] at run
      obtain ⟨b, u, first, run⟩ := Action.run_bind_eq_ok.1 run
      obtain ⟨bs, v, others, run⟩ := Action.run_bind_eq_ok.1 run
      obtain ⟨rfl, rfl⟩ := Action.run_pure_eq_ok.1 run
      exact List.forall_mem_cons.2 ⟨stays (own first) (extends_of_run each others), ih others⟩

end Steps

end Memory

/-- An action that neither goes by the remote nor fails for want of it. -/
structure Local (x : Action Memory α) : Prop where
  run_facing : ∀ m n : Memory, x.run (m.facing n) = ((x.run m).1, (x.run m).2.facing n)
  cause : ∀ m remote reason, (x.run m).1 ≠ .error (.remoteSync remote reason)

namespace Local

theorem pure (a : α) : Local (Pure.pure a : Action Memory α) := ⟨fun _ _ => rfl, fun _ _ _ => nofun⟩

theorem bind {x : Action Memory α} {f : α → Action Memory β} (first : Local x)
    (rest : ∀ a, Local (f a)) : Local (x >>= f) := by
  constructor
  · intro m n
    rw [Action.run_bind, Action.run_bind, first.run_facing]
    rcases x.run m with ⟨result, u⟩
    cases result with
    | ok a => exact (rest a).run_facing u n
    | error e => rfl
  · intro m remote reason
    rw [Action.run_bind]
    have cause := first.cause m remote reason
    rcases run : x.run m with ⟨result, u⟩
    rw [run] at cause
    cases result with
    | ok a => exact (rest a).cause u remote reason
    | error e => exact fun failed => cause (congrArg Except.error (Except.error.inj failed))

theorem mapM {f : α → Action Memory β} (each : ∀ a, Local (f a)) (l : List α) :
    Local (l.mapM f) := by
  induction l with
  | nil => exact pure []
  | cons a rest ih =>
      rw [List.mapM_cons]
      exact bind (each a) fun b => bind ih fun bs => pure (b :: bs)

theorem look {f : Memory → α} (blind : ∀ m n : Memory, f (m.facing n) = f m) :
    Local (Action.look f) := by
  refine ⟨fun m n => ?_, fun _ _ _ => nofun⟩
  show (Except.ok (f (m.facing n)), m.facing n) = _
  rw [blind]
  rfl

theorem resolveOrFail (reference : String) : Local (resolveOrFail reference) := by
  constructor
  · intro m n
    rw [run_resolveOrFail, run_resolveOrFail, show (m.facing n).resolve reference =
      m.resolve reference from rfl]
    cases m.resolve reference with
    | none => rfl
    | some target => rfl
  · intro m remote reason
    rw [run_resolveOrFail]
    cases m.resolve reference with
    | none => exact nofun
    | some target => exact nofun

variable (config : Config)

theorem installFile (tag target path : String) : Local (installFile config tag target path) := by
  constructor
  · intro m n
    rw [run_installFile, run_installFile, show (m.facing n).tagText tag path =
      m.tagText tag path from rfl, show (m.facing n).notes = m.notes from rfl]
    dsimp only
    split
    · rfl
    · cases m.tagText tag path with
      | none => rfl
      | some s => rfl
  · intro m remote reason
    rw [run_installFile]
    dsimp only
    split
    · exact nofun
    · cases m.tagText tag path with
      | none => exact nofun
      | some s => exact nofun

theorem installAll (files : List String) : Local (installAll config files) := by
  refine bind (look fun _ _ => rfl) fun tags => mapM (fun tag => ?_) tags
  exact bind (resolveOrFail tag) fun target =>
    bind (mapM (installFile config tag target) files) fun _ => pure _

theorem distFile (ignoreExisting : Bool) (tag target path : String) :
    Local (distFile config ignoreExisting tag target path) := by
  constructor
  · intro m n
    rw [run_distFile, run_distFile, show (m.facing n).tagText tag path =
      m.tagText tag path from rfl, show (m.facing n).workText path = m.workText path from rfl,
      show (m.facing n).notes = m.notes from rfl]
    dsimp only
    split
    · split
      · rfl
      · rfl
    · cases (m.tagText tag path).or (m.workText path) with
      | none => rfl
      | some s => rfl
  · intro m remote reason
    rw [run_distFile]
    dsimp only
    split
    · split
      · exact nofun
      · exact nofun
    · cases (m.tagText tag path).or (m.workText path) with
      | none => exact nofun
      | some s => exact nofun

end Local
variable {m n : Memory} {config : Config} {files : List String} {tag target path : String}

theorem Memory.isSome_find?_noted (m : Memory) (notesRef target content : String) :
    ((m.noted notesRef target content).notes.find? notesRef target).isSome := by
  have found : (m.notes.add notesRef target content).find? notesRef target = some content :=
    (Notes.find?_add ..).trans (if_pos ⟨rfl, rfl⟩)
  exact Option.isSome_of_eq_some found

/-- A file that installing passes over: it has a note, or the release does not have it. -/
def Memory.Settled (m : Memory) (config : Config) (tag target path : String) : Prop :=
  (m.notes.find? (config.notesRef (Text.basename path)) target).isSome ∨ m.tagText tag path = none

/-- A release at which all files are settled. -/
def Memory.SettledAt (m : Memory) (config : Config) (files : List String) (tag : String) : Prop :=
  ∃ target, m.resolve tag = some target ∧ ∀ path ∈ files, m.Settled config tag target path

theorem Memory.Settled.mono (h : m.Settled config tag target path) (e : m.Extends n) :
    n.Settled config tag target path :=
  h.imp e.isSome_find? fun absent => (e.tagText tag path).trans absent

theorem Memory.SettledAt.mono (h : m.SettledAt config files tag) (e : m.Extends n) :
    n.SettledAt config files tag := by
  obtain ⟨target, resolved, each⟩ := h
  exact ⟨target, (e.resolve tag).trans resolved, fun path hp => (each path hp).mono e⟩

theorem installFile_settles {fresh : Option Recorded}
    (run : (installFile config tag target path).run m = (.ok fresh, n)) :
    n.Settled config tag target path := by
  rw [run_installFile] at run
  dsimp only at run
  split at run
  · next found =>
    obtain ⟨-, rfl⟩ := Prod.mk.inj run
    exact .inl found
  · cases text : m.tagText tag path with
    | none =>
        rw [text] at run
        obtain ⟨-, rfl⟩ := Prod.mk.inj run
        exact .inr text
    | some s =>
        rw [text] at run
        obtain ⟨-, rfl⟩ := Prod.mk.inj run
        exact .inl (m.isSome_find?_noted _ _ _)

theorem Memory.Settled.installFile (h : m.Settled config tag target path) :
    (installFile config tag target path).run m = (.ok none, m) := by
  rw [run_installFile]
  dsimp only
  split
  · rfl
  · next missing => rw [h.resolve_left missing]

theorem installAt_settles {release : Release}
    (run : (installAt config files tag).run m = (.ok release, n)) :
    n.SettledAt config files tag := by
  obtain ⟨target, u, named, run⟩ := Action.run_bind_eq_ok.1 run
  obtain ⟨done, v, each, run⟩ := Action.run_bind_eq_ok.1 run
  obtain ⟨-, rfl⟩ := Action.run_pure_eq_ok.1 run
  obtain ⟨resolved, rfl⟩ := run_resolveOrFail_eq_ok.1 named
  have steps := Memory.kept_extends.installFile config tag target
  refine ⟨target, ((Memory.extends_of_run steps each).resolve tag).trans resolved, ?_⟩
  exact Memory.forall_of_run_mapM steps installFile_settles Memory.Settled.mono each

theorem Memory.SettledAt.installAt (h : m.SettledAt config files tag) :
    (installAt config files tag).run m = (.ok ⟨tag, []⟩, m) := by
  obtain ⟨target, resolved, each⟩ := h
  have idle := Action.run_mapM_idle fun path hp => (each path hp).installFile
  rw [Snapshot.installAt, Action.run_bind_of_ok (run_resolveOrFail_eq_ok.2 ⟨resolved, rfl⟩),
    Action.run_bind_of_ok idle]
  rw [List.map_const', List.filterMap_replicate_of_none rfl]
  rfl

/-- Once installing has succeeded at all releases, doing it again adds nothing at any of them. -/
theorem installAll_again {releases : List Release}
    (run : (installAll config files).run m = (.ok releases, n)) :
    (installAll config files).run n = (.ok (m.tags.names.map fun tag => ⟨tag, []⟩), n) := by
  have each : (m.tags.names.mapM (installAt config files)).run m = (.ok releases, n) := run
  have steps := Memory.kept_extends.installAt config files
  have settled := Memory.forall_of_run_mapM steps installAt_settles Memory.SettledAt.mono each
  show (n.tags.names.mapM (installAt config files)).run n = _
  rw [(Memory.extends_of_run steps each).tags]
  exact Action.run_mapM_idle fun tag ht => (settled tag ht).installAt

/-- The files recorded for the latest release, or passed over, with its tag. -/
def distAll (config : Config) (files : List String) (ignoreExisting : Bool) :
    Action Memory (String × List Distributed) := do
  match ← Action.look Backend.latestTag with
  | none => throw .noTags
  | some tag => do
    let target ← resolveOrFail tag
    let done ← files.mapM (distFile config ignoreExisting tag target)
    pure (tag, done)

theorem dist_eq (ignoreExisting : Bool) :
    (dist config files ignoreExisting : Action Memory DistReport) = (do
      let d ← distAll config files ignoreExisting
      let push ← publish config
      pure ⟨d.1, d.2.filterMap Distributed.recorded?, d.2.filterMap Distributed.ignored?,
        push⟩) := by
  unfold dist distAll
  rw [bind_assoc]
  congr
  funext latest
  cases latest with
  | none => rfl
  | some tag => simp only [bind_assoc, pure_bind]

theorem local_distAll (ignoreExisting : Bool) : Local (distAll config files ignoreExisting) := by
  refine .bind (.look fun _ _ => rfl) fun latest => ?_
  cases latest with
  | none => exact ⟨fun _ _ => rfl, fun _ _ _ => nofun⟩
  | some tag =>
      refine .bind (.resolveOrFail tag) fun target => ?_
      exact .bind (.mapM (.distFile config ignoreExisting tag target) files) fun _ => .pure _

theorem distFile_settles {d : Distributed}
    (run : (distFile config true tag target path).run m = (.ok d, n)) :
    (n.notes.find? (config.notesRef (Text.basename path)) target).isSome := by
  rw [run_distFile] at run
  dsimp only at run
  split at run
  · next found =>
    obtain ⟨-, rfl⟩ := Prod.mk.inj run
    exact found
  · split at run
    · obtain ⟨-, rfl⟩ := Prod.mk.inj run
      exact m.isSome_find?_noted _ _ _
    · exact nomatch run

theorem distFile_of_found (tag : String)
    (found : (m.notes.find? (config.notesRef (Text.basename path)) target).isSome) :
    (distFile config true tag target path).run m = (.ok (.ignored path), m) := by
  rw [run_distFile]
  dsimp only
  rw [if_pos found]
  rfl

theorem distAll_again {d : String × List Distributed}
    (run : (distAll config files true).run m = (.ok d, n)) :
    (distAll config files true).run n = (.ok (d.1, files.map .ignored), n) := by
  rw [distAll, Action.run_look_bind] at run
  rw [distAll, Action.run_look_bind]
  cases latest : Backend.latestTag m with
  | none => rw [latest] at run; exact nomatch run
  | some tag =>
      rw [latest] at run
      obtain ⟨target, u, named, run⟩ := Action.run_bind_eq_ok.1 run
      obtain ⟨resolved, rfl⟩ := run_resolveOrFail_eq_ok.1 named
      obtain ⟨done, v, each, run⟩ := Action.run_bind_eq_ok.1 run
      obtain ⟨rfl, rfl⟩ := Action.run_pure_eq_ok.1 run
      have steps := Memory.kept_extends.distFile config true tag target
      have extended := Memory.extends_of_run steps each
      have found := Memory.forall_of_run_mapM steps distFile_settles
        (fun here e => e.isSome_find? here) each
      have same : Backend.latestTag v = some tag := by
        refine Eq.trans ?_ latest
        show Memory.latestTag v = Memory.latestTag m
        rw [Memory.latestTag, Memory.latestTag, extended.tags]
      have named : (resolveOrFail tag).run v = (.ok target, v) :=
        run_resolveOrFail_eq_ok.2 ⟨(extended.resolve tag).trans resolved, rfl⟩
      have idle := Action.run_mapM_idle fun path hp => distFile_of_found tag (found path hp)
      rw [same]
      refine (Action.run_bind_of_ok named).trans ?_
      exact Action.run_bind_of_ok idle

theorem Local.run_of_facing {x : Action Memory α} {r : Except Failure α} (h : Local x)
    (run : x.run m = (r, n)) (k : Memory) : x.run (m.facing k) = (r, n.facing k) := by
  rw [h.run_facing, run]

theorem Local.facing_start {x : Action Memory α} {r : Except Failure α} (h : Local x)
    (run : x.run m = (r, n)) : n.facing m = n :=
  (Prod.mk.inj ((h.run_of_facing run m).symm.trans run)).2

theorem Local.ne_remoteSync {x : Action Memory α} {e : Failure} (h : Local x)
    (run : x.run m = (.error e, n)) (remote reason : String) : e ≠ .remoteSync remote reason := by
  rintro rfl
  exact h.cause m remote reason (congrArg Prod.fst run)

theorem facing_of_publish {r : Except Failure (Option PushOutcome)}
    (run : (publish config).run m = (r, n)) : m.facing n = n := by
  rw [run_publish] at run
  split at run
  · rw [← (Prod.mk.inj run).2]; rfl
  · split at run
    · split at run
      · rw [← (Prod.mk.inj run).2]; rfl
      · rw [← (Prod.mk.inj run).2]; rfl
    · rw [← (Prod.mk.inj run).2]; rfl

theorem publish_eq_error {e : Failure} (run : (publish config).run m = (.error e, n)) : m = n := by
  rw [run_publish] at run
  split at run
  · exact nomatch run
  · split at run
    · split at run
      · exact (Prod.mk.inj run).2
      · exact nomatch run
    · exact nomatch run

theorem publish_of_reachable (config : Config) (reachable : m.remoteFails = false) :
    ∃ push n, (publish config).run m = (.ok push, n) := by
  rw [run_publish, reachable]
  split
  · exact ⟨_, _, rfl⟩
  · split
    · exact ⟨_, _, rfl⟩
    · exact ⟨_, _, rfl⟩

/-- When the action stops because its remote cannot be reached, doing it again from there, with
the remote back, comes to what it would have come to with the remote there from the start. -/
def RetrySafe (x : Action Memory α) (m : Memory) : Prop :=
  ∀ remote reason m', x.run { m with remoteFails := true } =
      (.error (.remoteSync remote reason), m') →
    ∃ again first done, x.run { m' with remoteFails := false } = (.ok again, done) ∧
      x.run { m with remoteFails := false } = (.ok first, done)

/-- What depends on nothing at the remote, and leaves nothing to do for another run of it, may be
followed by publishing. -/
theorem retrySafe_publish {x : Action Memory α} (h : Local x)
    (again : ∀ {m n a}, x.run m = (.ok a, n) → ∃ b, x.run n = (.ok b, n))
    (f : α → Option PushOutcome → β) (m : Memory) :
    RetrySafe (do let a ← x; let push ← publish config; pure (f a push)) m := by
  intro remote reason m' failed
  rcases recorded : x.run { m with remoteFails := true } with ⟨result, u⟩
  rw [Action.run_bind, recorded] at failed
  cases result with
  | error e =>
      exact absurd (Except.error.inj (Prod.mk.inj failed).1) (h.ne_remoteSync recorded _ _)
  | ok a =>
      have stopped : u = m' := by
        dsimp only at failed
        rw [Action.run_bind] at failed
        split at failed
        · exact nomatch failed
        · next e v run =>
          obtain ⟨-, rfl⟩ := Prod.mk.inj failed
          exact publish_eq_error run
      subst stopped
      let w : Memory := { u with remoteFails := false }
      have undisturbed : x.run { m with remoteFails := false } = (.ok a, w) := by
        refine (h.run_of_facing recorded { m with remoteFails := false }).trans ?_
        exact congrArg (fun k : Memory => (Except.ok a, { k with remoteFails := false }))
          (h.facing_start recorded)
      obtain ⟨b, idle⟩ := again undisturbed
      obtain ⟨push, done, published⟩ := publish_of_reachable config (m := w) rfl
      have ends {c : α} : (do let push ← publish config; pure (f c push)).run w =
          (.ok (f c push), done) := Action.run_bind_of_ok published
      exact ⟨_, _, done, (Action.run_bind_of_ok idle).trans ends,
        (Action.run_bind_of_ok undisturbed).trans ends⟩

/-- Installing leaves nothing to install, also when what it recorded could not be published. -/
theorem installAll_after_install {outcome : Except Failure InstallReport}
    (ran : (install config files).run m = (outcome, n))
    (cause : ∀ e, outcome = .error e → ∃ remote reason, e = .remoteSync remote reason) :
    (installAll config files).run n = (.ok (m.tags.names.map fun tag => ⟨tag, []⟩), n) := by
  have own : Local (installAll config files) := .installAll config files
  rcases recorded : (installAll config files).run m with ⟨result, u⟩
  rw [install, Action.run_bind, recorded] at ran
  cases result with
  | error e =>
      obtain ⟨rfl, -⟩ := Prod.mk.inj ran
      obtain ⟨remote, reason, rfl⟩ := cause e rfl
      exact absurd rfl (own.ne_remoteSync recorded remote reason)
  | ok releases =>
      have facing : u.facing n = n := by
        dsimp only at ran
        rw [Action.run_bind] at ran
        rcases published : (publish config).run u with ⟨push, v⟩
        rw [published] at ran
        cases push with
        | error e =>
            obtain ⟨-, rfl⟩ := Prod.mk.inj ran
            exact facing_of_publish published
        | ok push =>
            obtain ⟨-, rfl⟩ := Prod.mk.inj ran
            exact facing_of_publish published
      have idle := own.run_of_facing (installAll_again recorded) n
      rwa [facing] at idle

/-- Recording can be repeated. When it could only not be published, doing it again with the remote
back is as good as if the remote had never been away. And once installing has come that far,
another run adds no note, whether it is published or not, and says so. -/
theorem recording_retry_safe (config : Config) (files : List String) (m : Memory) :
    RetrySafe (install config files) m ∧ RetrySafe (dist config files true) m ∧
    ∀ outcome m', (install config files).run m = (outcome, m') →
      (∀ e, outcome = .error e → ∃ remote reason, e = .remoteSync remote reason) →
      ∀ fails again n, (install config files).run { m' with remoteFails := fails } = (again, n) →
        n.notes = m'.notes ∧
        ∀ report, again = .ok report → report.added = [] ∧ report.unchanged = m.tags.names := by
  refine ⟨?_, ?_, ?_⟩
  · unfold install
    exact retrySafe_publish (.installAll config files) (fun run => ⟨_, installAll_again run⟩) _ m
  · rw [dist_eq]
    exact retrySafe_publish (local_distAll true) (fun run => ⟨_, distAll_again run⟩) _ m
  · intro outcome m' ran cause fails again n run
    have idle : (installAll config files).run { m' with remoteFails := fails } =
        (.ok (m.tags.names.map fun tag => ⟨tag, []⟩), { m' with remoteFails := fails }) :=
      (Local.installAll config files).run_of_facing (installAll_after_install ran cause)
        { m' with remoteFails := fails }
    rw [install, Action.run_bind_of_ok idle, Action.run_bind] at run
    rcases published : (publish config).run { m' with remoteFails := fails } with ⟨push, v⟩
    have notes : v.notes = m'.notes := (congrArg Memory.notes (facing_of_publish published)).symm
    rw [published] at run
    cases push with
    | error e =>
        obtain ⟨rfl, rfl⟩ := Prod.mk.inj run
        exact ⟨notes, fun _ => nofun⟩
    | ok push =>
        obtain ⟨rfl, rfl⟩ := Prod.mk.inj run
        refine ⟨notes, fun report same => ?_⟩
        obtain rfl := Except.ok.inj same
        constructor
        · exact List.flatMap_eq_nil_iff.2 (List.forall_mem_map.2 fun _ _ => rfl)
        · rw [List.filter_eq_self.2 (List.forall_mem_map.2 fun _ _ => rfl), List.map_map]
          exact List.map_id _

/-- Two releases of a file of which another clone has published a snapshot. -/
def sharedReleases : Memory where
  tags := Table.ofList [("v1", ⟨0, Table.ofList [("bell.xml", "1")]⟩),
    ("v2", ⟨1, Table.ofList [("bell.xml", "2"), ("README", "A bell.")]⟩)]
  remote := Notes.add .empty "refs/notes/dbus/api/bell.xml" "tag:v1" "0"

def sharedFiles : List String := ["bell.xml", "README", "bell.xml"]

/-- Both ways of recording stop at the remote here, and both can be repeated. -/
theorem sharedReleases_retried :
    (∃ m', (install {} sharedFiles).run { sharedReleases with remoteFails := true } =
        (.error (.remoteSync "origin" "remote unavailable"), m') ∧
      (∃ again first done,
        (install {} sharedFiles).run { m' with remoteFails := false } = (.ok again, done) ∧
        (install {} sharedFiles).run { sharedReleases with remoteFails := false } =
          (.ok first, done)) ∧
      ∀ report n, (install {} sharedFiles).run { m' with remoteFails := false } = (.ok report, n) →
        n.notes = m'.notes ∧ report.added = [] ∧ report.unchanged = ["v1", "v2"]) ∧
    ∃ m', (dist {} sharedFiles true).run { sharedReleases with remoteFails := true } =
        (.error (.remoteSync "origin" "remote unavailable"), m') ∧
      ∃ again first done,
        (dist {} sharedFiles true).run { m' with remoteFails := false } = (.ok again, done) ∧
        (dist {} sharedFiles true).run { sharedReleases with remoteFails := false } =
          (.ok first, done) := by
  have installFails : ((install {} sharedFiles).run { sharedReleases with remoteFails := true }).1 =
      .error (.remoteSync "origin" "remote unavailable") := by decide +kernel
  have distFails : ((dist {} sharedFiles true).run { sharedReleases with remoteFails := true }).1 =
      .error (.remoteSync "origin" "remote unavailable") := by decide +kernel
  have names : sharedReleases.tags.names = ["v1", "v2"] := by decide +kernel
  obtain ⟨retryInstall, retryDist, -⟩ := recording_retry_safe {} sharedFiles sharedReleases
  obtain ⟨-, -, further⟩ :=
    recording_retry_safe {} sharedFiles { sharedReleases with remoteFails := true }
  constructor
  · rcases run : (install {} sharedFiles).run { sharedReleases with remoteFails := true }
      with ⟨outcome, m'⟩
    rw [run] at installFails
    obtain rfl : outcome = _ := installFails
    refine ⟨m', run, retryInstall _ _ _ run, fun report n again => ?_⟩
    obtain ⟨notes, idle⟩ := further _ _ run
      (fun e same => ⟨_, _, (Except.error.inj same).symm⟩) false _ n again
    exact ⟨notes, names ▸ idle report rfl⟩
  · rcases run : (dist {} sharedFiles true).run { sharedReleases with remoteFails := true }
      with ⟨outcome, m'⟩
    rw [run] at distFails
    obtain rfl : outcome = _ := distFails
    exact ⟨m', run, retryDist _ _ _ run⟩

end ApiDrift.Snapshot
