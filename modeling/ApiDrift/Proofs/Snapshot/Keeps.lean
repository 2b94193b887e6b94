import ApiDrift.Proofs.Snapshot.Action
import ApiDrift.Snapshot.List
/-! What every operation on snapshots keeps, in any repository: all that adding notes, publishing
and bringing in keep. The operations change a repository in no other way, also when they stop in
the middle. -/
namespace ApiDrift.Snapshot
variable {σ α β : Type} {R : σ → σ → Prop}

/-- The action leads from each state to one that is related to it, whatever its outcome is. -/
def Keeps (R : σ → σ → Prop) (x : Action σ α) : Prop := ∀ s, R s (x.run s).2

namespace Keeps

theorem bind {x : Action σ α} {f : α → Action σ β} (trans : ∀ {s t u}, R s t → R t u → R s u)
    (first : Keeps R x) (rest : ∀ a, Keeps R (f a)) : Keeps R (x >>= f) := by
  intro s
  rw [Action.run_bind]
  have here := first s
  rcases run : x.run s with ⟨result, t⟩
  rw [run] at here
  cases result with
  | ok a => exact trans here (rest a t)
  | error e => exact here

theorem pure (refl : ∀ s, R s s) (a : α) : Keeps R (Pure.pure a : Action σ α) := refl

theorem throw (refl : ∀ s, R s s) (e : Failure) : Keeps R (MonadExcept.throw e : Action σ α) :=
  refl

theorem look (refl : ∀ s, R s s) (f : σ → α) : Keeps R (Action.look f) := refl

theorem consult (refl : ∀ s, R s s) (f : σ → Except Failure α) : Keeps R (Action.consult f) := by
  intro s
  unfold Action.consult
  rw [show ∀ g : σ → Action σ α, (get >>= g).run s = (g s).run s from fun _ => rfl]
  cases f s with
  | ok a => exact refl s
  | error e => exact refl s

theorem attempt {x : Action σ α} (h : Keeps R x) : Keeps R (Action.attempt x) := h

theorem discard {x : Action σ α} (h : Keeps R x) : Keeps R (discard x) := by
  intro s
  have same : ((Functor.discard x).run s).2 = (x.run s).2 := by
    show ((x >>= fun _ => Pure.pure PUnit.unit).run s).2 = _
    rw [Action.run_bind]
    rcases x.run s with ⟨result, t⟩
    cases result with
    | ok a => rfl
    | error e => rfl
  rw [same]
  exact h s

theorem mapM (refl : ∀ s, R s s) (trans : ∀ {s t u}, R s t → R t u → R s u)
    {f : α → Action σ β} (each : ∀ a, Keeps R (f a)) (l : List α) : Keeps R (l.mapM f) := by
  induction l with
  | nil => exact pure refl []
  | cons a rest ih =>
      rw [List.mapM_cons]
      exact bind trans (each a) fun b => bind trans ih fun bs => pure refl (b :: bs)

end Keeps

/-- What each call that changes a repository keeps. -/
structure Kept [Backend σ] (R : σ → σ → Prop) : Prop where
  refl : ∀ s, R s s
  trans : ∀ {s t u}, R s t → R t u → R s u
  addNote : ∀ notesRef target content, Keeps R (Backend.addNote notesRef target content)
  push : ∀ remote refs, Keeps R (Backend.push remote refs)
  fetch : ∀ remote area, Keeps R (Backend.fetch remote area)

namespace Kept
variable [Backend σ] (h : Kept R) (config : Config)
include h

theorem resolveOrFail (reference : String) : Keeps R (resolveOrFail reference) := by
  refine .bind h.trans (.look h.refl _) fun found => ?_
  cases found with
  | none => exact .throw h.refl _
  | some target => exact .pure h.refl target

theorem publish : Keeps R (publish config) := by
  refine .bind h.trans (.look h.refl _) fun refs => ?_
  cases refs with
  | nil => exact .pure h.refl _
  | cons r rest =>
      dsimp only
      split
      · exact .bind h.trans (h.push _ _) fun _ => .pure h.refl _
      · exact .pure h.refl _

theorem hasNote (target path : String) : Keeps R (hasNote config target path) :=
  .bind h.trans (.consult h.refl _) fun _ => .pure h.refl _

theorem record (tag target path : String) (content : Content) :
    Keeps R (record config tag target path content) := by
  cases content with
  | binary _ => exact .throw h.refl _
  | text s => exact .bind h.trans (h.addNote _ _ _) fun _ => .pure h.refl _

theorem installFile (tag target path : String) :
    Keeps R (installFile config tag target path) := by
  refine .bind h.trans (h.hasNote config target path) fun noted => ?_
  split
  · exact .pure h.refl _
  · refine .bind h.trans (.consult h.refl _) fun blob => ?_
    cases blob with
    | none => exact .pure h.refl _
    | some blob => exact .bind h.trans (h.record config _ _ _ _) fun _ => .pure h.refl _

theorem installAt (files : List String) (tag : String) : Keeps R (installAt config files tag) := by
  refine .bind h.trans (h.resolveOrFail tag) fun target => .bind h.trans ?_ fun _ => .pure h.refl _
  exact .mapM h.refl h.trans (h.installFile config tag target) files

theorem install (files : List String) : Keeps R (install config files) := by
  refine .bind h.trans ?_ fun _ => .bind h.trans (h.publish config) fun _ => .pure h.refl _
  exact .bind h.trans (.look h.refl _) fun tags =>
    .mapM h.refl h.trans (h.installAt config files) tags

theorem releaseContent (tag path : String) : Keeps R (releaseContent tag path) := by
  refine .bind h.trans (.consult h.refl _) fun blob => ?_
  cases blob with
  | some blob => exact .pure h.refl _
  | none =>
      refine .bind h.trans (.consult h.refl _) fun content => ?_
      cases content with
      | some content => exact .pure h.refl content
      | none => exact .throw h.refl _

theorem distFile (ignoreExisting : Bool) (tag target path : String) :
    Keeps R (distFile config ignoreExisting tag target path) := by
  refine .bind h.trans (h.hasNote config target path) fun noted => ?_
  split
  · split
    · exact .pure h.refl _
    · exact .throw h.refl _
  · refine .bind h.trans (h.releaseContent tag path) fun content => ?_
    exact .bind h.trans (h.record config tag target path content) fun _ => .pure h.refl _

theorem dist (files : List String) (ignoreExisting : Bool) :
    Keeps R (dist config files ignoreExisting) := by
  refine .bind h.trans (.look h.refl _) fun latest => ?_
  cases latest with
  | none => exact .throw h.refl _
  | some tag =>
      refine .bind h.trans (h.resolveOrFail tag) fun target => .bind h.trans ?_ fun _ => ?_
      · exact .mapM h.refl h.trans (h.distFile config ignoreExisting tag target) files
      · exact .bind h.trans (h.publish config) fun _ => .pure h.refl _

theorem fetchNotes : Keeps R (fetchNotes config) := by
  refine .bind h.trans (h.fetch config.remote config.area).attempt fun result => ?_
  cases result with
  | ok _ => exact .pure h.refl _
  | error e => exact .pure h.refl _

theorem check (request : Request) : Keeps R (check config request) := by
  obtain ⟨oldRef, newRef, files, policy⟩ := request
  have begun {further : Option String → Option String → Action σ CheckReport}
      (kept : ∀ fetchError tag, Keeps R (further fetchError tag)) :
      Keeps R (Snapshot.fetchNotes config >>= fun fetchError =>
        Action.look Backend.latestTag >>= fun tag => further fetchError tag) :=
    .bind h.trans (h.fetchNotes config) fun fetchError =>
      .bind h.trans (.look h.refl _) (kept fetchError)
  have compared (newTarget fetchError : Option String) (reference : String) : Keeps R (do
      let oldTarget ← Snapshot.resolveOrFail reference
      let reports ← Action.consult fun s : σ =>
        (checkedFiles config files s).mapM (checkFile config policy oldTarget newTarget s)
      Pure.pure { oldRef := some reference, fetchError, files := reports } :
      Action σ CheckReport) := by
    refine .bind h.trans (h.resolveOrFail reference) fun _ => ?_
    exact .bind h.trans (.consult h.refl _) fun _ => .pure h.refl _
  cases oldRef with
  | none =>
      cases newRef with
      | none =>
          refine begun fun fetchError tag => ?_
          cases tag with
          | none => exact .pure h.refl _
          | some latest => exact compared none fetchError latest
      | some new =>
          refine .bind h.trans (h.resolveOrFail new) fun target => begun fun fetchError tag => ?_
          cases tag with
          | none => exact .pure h.refl _
          | some latest => exact compared (some target) fetchError latest
  | some old =>
      refine .bind h.trans (h.resolveOrFail old).discard fun _ => ?_
      cases newRef with
      | none => exact begun fun fetchError _ => compared none fetchError old
      | some new =>
          refine .bind h.trans (h.resolveOrFail new) fun target => ?_
          exact begun fun fetchError _ => compared (some target) fetchError old

end Kept

end ApiDrift.Snapshot
