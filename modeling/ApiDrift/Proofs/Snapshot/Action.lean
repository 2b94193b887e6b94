import ApiDrift.Snapshot.Record
/-! Runs of actions: what a sequence of steps gives, and what a whole run keeps when each of its
steps keeps it. -/
namespace ApiDrift.Snapshot.Action
variable {σ α β : Type}

theorem run_bind (x : Action σ α) (f : α → Action σ β) (s : σ) :
    (x >>= f).run s = match x.run s with
      | (.ok a, t) => (f a).run t
      | (.error e, t) => (.error e, t) := by
  rw [ExceptT.run_bind, show ∀ g : Except Failure α → StateM σ (Except Failure β),
    (x.run >>= g) s = g (x.run s).1 (x.run s).2 from fun _ => rfl]
  rcases x.run s with ⟨r, t⟩
  cases r with
  | ok a => rfl
  | error e => rfl

theorem run_bind_of_ok {x : Action σ α} {f : α → Action σ β} {s t : σ} {a : α}
    (h : x.run s = (.ok a, t)) : (x >>= f).run s = (f a).run t := by
  rw [run_bind, h]

theorem run_bind_of_error {x : Action σ α} {f : α → Action σ β} {s t : σ} {e : Failure}
    (h : x.run s = (.error e, t)) : (x >>= f).run s = (.error e, t) := by
  rw [run_bind, h]

theorem run_look_bind (f : σ → α) (g : α → Action σ β) (s : σ) :
    (look f >>= g).run s = (g (f s)).run s := rfl

theorem run_consult_bind (f : σ → α) (g : α → Action σ β) (s : σ) :
    (consult (fun t => .ok (f t)) >>= g).run s = (g (f s)).run s := rfl

theorem run_consult_of_ok {f : σ → Except Failure α} {s : σ} {a : α} (h : f s = .ok a) :
    (consult f).run s = (.ok a, s) := by
  unfold consult
  refine (run_look_bind id _ s).trans ?_
  rw [id, h]
  rfl

theorem run_consult_of_error {f : σ → Except Failure α} {s : σ} {e : Failure}
    (h : f s = .error e) : (consult f).run s = (.error e, s) := by
  unfold consult
  refine (run_look_bind id _ s).trans ?_
  rw [id, h]
  rfl

theorem run_bind_eq_ok {x : Action σ α} {f : α → Action σ β} {s t : σ} {b : β} :
    (x >>= f).run s = (.ok b, t) ↔ ∃ a u, x.run s = (.ok a, u) ∧ (f a).run u = (.ok b, t) := by
  rw [run_bind]
  constructor
  · intro h
    split at h
    · next a u first => exact ⟨a, u, first, h⟩
    · exact nomatch h
  · rintro ⟨a, u, first, rest⟩
    rw [first]
    exact rest

theorem run_pure_eq_ok {a b : α} {s t : σ} :
    (pure a : Action σ α).run s = (.ok b, t) ↔ a = b ∧ s = t := by
  constructor
  · intro h
    exact ⟨Except.ok.inj (congrArg Prod.fst h), congrArg Prod.snd h⟩
  · rintro ⟨rfl, rfl⟩
    rfl

/-- A run comes to the end of its list, or to the first step that fails. What each step keeps holds
there, and it may depend on how far the list is done. -/
theorem run_mapM_cases {f : α → Action σ β} {P : List α → List β → σ → Prop} {s : σ} {l : List α}
    (start : P [] [] s)
    (step : ∀ before a after done u b v, before ++ a :: after = l → P before done u →
      (f a).run u = (.ok b, v) → P (before ++ [a]) (done ++ [b]) v) :
    (∃ done t, (l.mapM f).run s = (.ok done, t) ∧ P l done t) ∨
      ∃ before a after done u e t, before ++ a :: after = l ∧ P before done u ∧
        (f a).run u = (.error e, t) ∧ (l.mapM f).run s = (.error e, t) := by
  have later : ∀ (after before : List α) (done : List β) (u : σ), before ++ after = l →
      P before done u →
      (∃ more t, (after.mapM f).run u = (.ok more, t) ∧ P l (done ++ more) t) ∨
        ∃ before a rest done v e t, before ++ a :: rest = l ∧ P before done v ∧
          (f a).run v = (.error e, t) ∧ (after.mapM f).run u = (.error e, t) := by
    intro after
    induction after with
    | nil =>
        intro before done u whole here
        rw [List.append_nil] at whole
        refine .inl ⟨[], u, by rw [List.mapM_nil]; rfl, ?_⟩
        rwa [← whole, List.append_nil]
    | cons a after ih =>
        intro before done u whole here
        rw [List.mapM_cons]
        rcases first : (f a).run u with ⟨outcome, v⟩
        cases outcome with
        | error e =>
            refine .inr ⟨before, a, after, done, u, e, v, whole, here, first, ?_⟩
            rw [run_bind, first]
        | ok b =>
            have rest : (before ++ [a]) ++ after = l := by rwa [List.append_assoc]
            have next := step before a after done u b v whole here first
            rw [run_bind_of_ok first]
            rcases ih _ _ v rest next with ⟨more, t, others, last⟩ |
              ⟨before', a', rest', done', w, e, t, whole', kept, failed, others⟩
            · refine .inl ⟨b :: more, t, ?_, by rwa [List.append_cons]⟩
              rw [run_bind_of_ok others]
              rfl
            · refine .inr ⟨before', a', rest', done', w, e, t, whole', kept, failed, ?_⟩
              rw [run_bind, others]
  exact later l [] [] s rfl start

/-- What holds before anything is done, and is kept by each step, holds once all is done. -/
theorem run_mapM_induction {f : α → Action σ β} {P : List β → σ → Prop} {s t : σ} {l : List α}
    {done : List β} (start : P [] s)
    (step : ∀ a ∈ l, ∀ before u b v, P before u → (f a).run u = (.ok b, v) → P (before ++ [b]) v)
    (h : (l.mapM f).run s = (.ok done, t)) : P done t := by
  have kept : ∀ before a after done u b v, before ++ a :: after = l → P done u →
      (f a).run u = (.ok b, v) → P (done ++ [b]) v := by
    rintro before a after done u b v rfl
    exact step a (List.mem_append_right _ List.mem_cons_self) done u b v
  rcases run_mapM_cases (P := fun _ => P) start kept with
    ⟨done', t', run, last⟩ | ⟨_, _, _, _, _, e, t', _, _, _, failed⟩
  · obtain ⟨same, rfl⟩ := Prod.mk.inj (h.symm.trans run)
    rwa [Except.ok.inj same]
  · exact nomatch h.symm.trans failed

/-- Steps each of which succeeds where those before it have led make a run that succeeds. -/
theorem run_mapM_total {f : α → Action σ β} {P : List α → List β → σ → Prop} {s : σ} {l : List α}
    (start : P [] [] s)
    (step : ∀ before a after done u, before ++ a :: after = l → P before done u →
      ∃ b v, (f a).run u = (.ok b, v) ∧ P (before ++ [a]) (done ++ [b]) v) :
    ∃ done t, (l.mapM f).run s = (.ok done, t) ∧ P l done t := by
  have kept : ∀ before a after done u b v, before ++ a :: after = l → P before done u →
      (f a).run u = (.ok b, v) → P (before ++ [a]) (done ++ [b]) v := by
    intro before a after done u b v whole here run
    obtain ⟨b', v', run', next⟩ := step before a after done u whole here
    obtain ⟨same, rfl⟩ := Prod.mk.inj (run.symm.trans run')
    rwa [Except.ok.inj same]
  rcases run_mapM_cases start kept with complete | ⟨before, a, after, done, u, e, t, whole, here,
    failed, -⟩
  · exact complete
  · obtain ⟨b, v, run, -⟩ := step before a after done u whole here
    exact nomatch failed.symm.trans run

end ApiDrift.Snapshot.Action

namespace ApiDrift.Snapshot

theorem run_resolveOrFail_eq_ok {σ : Type} [Backend σ] {reference target : String} {s t : σ} :
    (resolveOrFail reference).run s = (.ok target, t) ↔
      Backend.resolve s reference = some target ∧ s = t := by
  rw [resolveOrFail, Action.run_look_bind]
  cases Backend.resolve s reference with
  | none => exact ⟨fun failed => (nomatch failed), fun found => (nomatch found.1)⟩
  | some known => exact Action.run_pure_eq_ok.trans (and_congr_left' Option.some_inj.symm)

theorem run_resolveOrFail_of_none {σ : Type} [Backend σ] {reference : String} {s : σ}
    (unresolved : Backend.resolve s reference = none) :
    (resolveOrFail reference).run s = (.error (.invalidRef reference), s) := by
  rw [resolveOrFail, Action.run_look_bind, unresolved]
  rfl

end ApiDrift.Snapshot
