import ApiDrift.Proofs.Change.Warnings
/-! Policies by how much they ask for. One that enables no more, disables no less and takes no more
for fatal reports less of any comparison, and passes whatever the other one passes. That a code can
stand against its category, on either side, does not break this. -/
namespace ApiDrift

namespace Policy

/-- The first policy asks for no more than the second one. -/
structure Relaxes (q p : Policy) : Prop where
  enabled : ∀ name ∈ q.enabled.names, name ∈ p.enabled.names
  disabled : ∀ name ∈ p.disabled.names, name ∈ q.disabled.names
  fatal : ∀ name ∈ q.fatal.names, name ∈ p.fatal.names

variable {p q : Policy} {c : Change}

/-- A change is reported unless its code is disabled, for its code or for its category. Only the
second reason goes when the category is disabled. -/
theorem isEnabled_iff : p.isEnabled c = true ↔ c.code.text ∉ p.disabled.names ∧
    (c.code.text ∈ p.enabled.names ∨
      c.category.text ∈ p.enabled.names ∧ c.category.text ∉ p.disabled.names) := by
  simp only [isEnabled, Bool.or_eq_true, Bool.and_eq_true, Bool.not_eq_true', ← Bool.not_eq_true,
    contains_eq_true_iff]
  tauto

theorem isFatal_iff : p.isFatal c = true ↔
    c.category.text ∈ p.fatal.names ∨ c.code.text ∈ p.fatal.names := by
  rw [isFatal, Bool.or_eq_true, contains_eq_true_iff, contains_eq_true_iff]

theorem changes_judge (p : Policy) (l : List Change) :
    (p.judge l).changes = l.filter p.isEnabled := rfl

namespace Relaxes
variable (h : q.Relaxes p)
include h

theorem isEnabled (reported : q.isEnabled c = true) : p.isEnabled c = true := by
  obtain ⟨free, asked⟩ := isEnabled_iff.1 reported
  refine isEnabled_iff.2 ⟨mt (h.disabled _) free, ?_⟩
  rcases asked with code | ⟨category, open_⟩
  · exact .inl (h.enabled _ code)
  · exact .inr ⟨h.enabled _ category, mt (h.disabled _) open_⟩

theorem isFatal (fatal : q.isFatal c = true) : p.isFatal c = true :=
  isFatal_iff.2 ((isFatal_iff.1 fatal).imp (h.fatal _) (h.fatal _))

theorem judge_judge (l : List Change) : q.judge (p.judge l).changes = q.judge l := by
  have same : (l.filter p.isEnabled).filter q.isEnabled = l.filter q.isEnabled := by
    rw [List.filter_filter]
    refine List.filter_congr fun c _ => ?_
    rw [Bool.and_eq_left_iff_imp]
    exact h.isEnabled
  rw [changes_judge, judge, same]
  rfl

theorem passed_judge {l : List Change} (passed : (p.judge l).passed = true) :
    (q.judge l).passed = true := by
  rw [judge, Bool.not_eq_true', List.any_eq_false] at passed ⊢
  intro c reported fatal
  obtain ⟨found, enabled⟩ := List.mem_filter.1 reported
  exact passed c (List.mem_filter.2 ⟨found, h.isEnabled enabled⟩) (h.isFatal fatal)

end Relaxes

end Policy

/-- A policy that asks for no more reports a part of what the other one reports, in the order of the
comparison, and passes whatever the other one passes. It comes to the same verdict on the report of
the other one as on the whole comparison. -/
theorem check_relaxed (old new : Node) {p q : Policy} (relaxed : q.Relaxes p) :
    (check old new q).changes.Sublist (check old new p).changes ∧
      (check old new p).changes.Sublist (compare old new) ∧
      ((check old new p).passed = true → (check old new q).passed = true) ∧
      q.judge (check old new p).changes = check old new q := by
  have again : q.judge (check old new p).changes = check old new q :=
    relaxed.judge_judge (compare old new)
  refine ⟨?_, List.filter_sublist, relaxed.passed_judge, again⟩
  rw [← again]
  exact List.filter_sublist

/-- A gong that can be struck and damped. -/
def gong : Node where
  interfaces := [{ name := "o.Gong", methods := [{ kind := .method, name := "Strike" },
    { kind := .method, name := "Damp" }] }]

/-- The gong with a signal instead of one of its methods. -/
def ringingGong : Node where
  interfaces := [{ name := "o.Gong", methods := [{ kind := .method, name := "Strike" }]
                   signals := [{ kind := .signal, name := "Rang" }] }]

/-- Everything is reported, and what comes to a method is fatal. -/
def watchfulPolicy : Policy where
  enabled := .ofNames ["info", "forwards-compatibility", "backwards-compatibility", "method-removed"]
  fatal := .ofNames ["method-added", "forwards-compatibility"]

/-- Methods that are removed are reported although their category is disabled, and signals that are
added are not although theirs is enabled. -/
def calmPolicy : Policy where
  enabled := .ofNames ["info", "backwards-compatibility", "method-removed"]
  disabled := .ofNames ["backwards-compatibility", "signal-added"]
  fatal := .ofNames ["method-added"]

theorem gong_relaxed :
    calmPolicy.Relaxes watchfulPolicy ∧
      (check gong ringingGong watchfulPolicy).passed = true ∧
      (check gong ringingGong calmPolicy).passed = true ∧
      (check gong ringingGong watchfulPolicy).changes.map (fun c => c.code.text) =
        ["signal-added", "method-removed"] ∧
      (check gong ringingGong calmPolicy).changes.map (fun c => c.code.text) =
        ["method-removed"] ∧
      (check gong ringingGong calmPolicy).changes.Sublist
        (check gong ringingGong watchfulPolicy).changes := by
  have relaxed : calmPolicy.Relaxes watchfulPolicy := by
    refine ⟨?_, ?_, ?_⟩ <;> decide +kernel
  have passed : (check gong ringingGong watchfulPolicy).passed = true := by cbv
  obtain ⟨part, -, passes, -⟩ := check_relaxed gong ringingGong relaxed
  exact ⟨relaxed, passed, passes passed, by cbv, by cbv, part⟩

end ApiDrift
