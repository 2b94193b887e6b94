import Mathlib.Data.List.Basic
/-! Computations that may fail, and what their success says about their parts. -/
namespace ApiDrift
variable {α β γ ε : Type}

theorem exists_of_toOption_map {x : Except ε α} {f : α → β} {b : β}
    (h : x.toOption.map f = some b) : ∃ a, x = .ok a ∧ f a = b := by
  cases x with
  | error e => exact nomatch h
  | ok a => exact ⟨a, rfl, Option.some_inj.1 h⟩

theorem except_bind_eq_ok {x : Except ε α} {f : α → Except ε β} {b : β} :
    (x >>= f) = .ok b ↔ ∃ a, x = .ok a ∧ f a = .ok b := by
  cases x with
  | error e => exact ⟨fun failed => (nomatch failed), fun ⟨_, same, _⟩ => (nomatch same)⟩
  | ok a => exact ⟨fun rest => ⟨a, rfl, rest⟩, fun ⟨_, same, rest⟩ => Except.ok.inj same ▸ rest⟩

theorem exists_of_mem_mapM_ok {f : α → Except ε β} {l : List α} {done : List β}
    (run : l.mapM f = .ok done) : ∀ b ∈ done, ∃ a ∈ l, f a = .ok b := by
  induction l generalizing done with
  | nil =>
      obtain rfl := Except.ok.inj run
      exact List.forall_mem_nil _
  | cons a rest ih =>
      rw [List.mapM_cons] at run
      obtain ⟨b, own, run⟩ := except_bind_eq_ok.1 run
      obtain ⟨bs, others, run⟩ := except_bind_eq_ok.1 run
      obtain rfl := Except.ok.inj run
      refine List.forall_mem_cons.2 ⟨⟨a, List.mem_cons_self, own⟩, fun b' hb => ?_⟩
      exact (ih others b' hb).imp fun a' h => ⟨List.mem_cons_of_mem a h.1, h.2⟩

theorem map_of_mapM_ok {f : α → Except ε β} {g : β → γ} {h : α → γ}
    (own : ∀ a b, f a = .ok b → g b = h a) {l : List α} {done : List β}
    (run : l.mapM f = .ok done) : done.map g = l.map h := by
  induction l generalizing done with
  | nil =>
      obtain rfl := Except.ok.inj run
      rfl
  | cons a rest ih =>
      rw [List.mapM_cons] at run
      obtain ⟨b, here, run⟩ := except_bind_eq_ok.1 run
      obtain ⟨bs, others, run⟩ := except_bind_eq_ok.1 run
      obtain rfl := Except.ok.inj run
      rw [List.map_cons, List.map_cons, own a b here, ih others]

theorem mapM_eq_ok {f : α → Except ε β} {g : α → β} {l : List α}
    (each : ∀ a ∈ l, f a = .ok (g a)) : l.mapM f = .ok (l.map g) := by
  induction l with
  | nil => rfl
  | cons a rest ih =>
      obtain ⟨first, others⟩ := List.forall_mem_cons.1 each
      rw [List.mapM_cons, first, ih others]
      rfl

end ApiDrift
