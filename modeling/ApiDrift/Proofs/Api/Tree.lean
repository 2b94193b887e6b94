import ApiDrift.Api.Basic
import Mathlib.Data.List.Forall2
import Mathlib.Data.List.Nodup
/-! Induction over the tree of nodes, properties that hold at every depth of it, look-up by name in
a list where names do not repeat, and lists that are related element by element. -/
namespace ApiDrift

namespace Node

theorem induction {motive : Node → Prop}
    (step : ∀ n : Node, (∀ c ∈ n.nodes, motive c) → motive n) (n : Node) : motive n :=
  @Node.rec motive (fun l => ∀ c ∈ l, motive c)
    (fun _ _ _ _ _ _ below => step _ below)
    (fun _ h => absurd h List.not_mem_nil)
    (fun _ _ first later c h => (List.mem_cons.1 h).elim (fun e => e ▸ first) (later c)) n

mutual

/-- The node and all its descendants, each before its own descendants. -/
def allNodes : Node → List Node
  | ⟨name, interfaces, nodes, annotations, doc, location⟩ =>
    ⟨name, interfaces, nodes, annotations, doc, location⟩ :: allNodesOf nodes

def allNodesOf : List Node → List Node
  | [] => []
  | n :: rest => n.allNodes ++ allNodesOf rest

end

theorem mem_allNodesOf {m : Node} {l : List Node} :
    m ∈ allNodesOf l ↔ ∃ c ∈ l, m ∈ c.allNodes := by
  induction l with
  | nil => simp only [allNodesOf, List.not_mem_nil, false_and, exists_false]
  | cons n rest ih => simp only [allNodesOf, List.mem_append, ih, List.mem_cons, exists_eq_or_imp]

theorem mem_allNodes {m n : Node} : m ∈ n.allNodes ↔ m = n ∨ ∃ c ∈ n.nodes, m ∈ c.allNodes := by
  cases n with
  | mk name interfaces nodes annotations doc location =>
      simp only [allNodes, List.mem_cons, mem_allNodesOf]

/-- A property of a node and of all its descendants. -/
def Everywhere (P : Node → Prop) (n : Node) : Prop := ∀ m ∈ n.allNodes, P m

instance (P : Node → Prop) [DecidablePred P] (n : Node) : Decidable (n.Everywhere P) :=
  inferInstanceAs (Decidable (∀ m ∈ n.allNodes, P m))

theorem everywhere_iff {P : Node → Prop} {n : Node} :
    n.Everywhere P ↔ P n ∧ ∀ c ∈ n.nodes, c.Everywhere P := by
  constructor
  · intro h
    refine ⟨h n (mem_allNodes.2 (.inl rfl)), fun c hc m hm => ?_⟩
    exact h m (mem_allNodes.2 (.inr ⟨c, hc, hm⟩))
  · intro h m hm
    rcases mem_allNodes.1 hm with rfl | ⟨c, hc, hm⟩
    · exact h.1
    · exact h.2 c hc m hm

theorem Everywhere.here {P : Node → Prop} {n : Node} (h : n.Everywhere P) : P n :=
  (everywhere_iff.1 h).1

theorem Everywhere.below {P : Node → Prop} {n c : Node} (h : n.Everywhere P) (hc : c ∈ n.nodes) :
    c.Everywhere P := (everywhere_iff.1 h).2 c hc

theorem Everywhere.mono {P Q : Node → Prop} {n : Node} (h : n.Everywhere P)
    (imp : ∀ m, P m → Q m) : n.Everywhere Q := fun m hm => imp m (h m hm)

end Node

section Lookup
variable {α κ : Type} [BEq κ] [LawfulBEq κ] {f : α → κ} {l : List α} {k : κ}

theorem find?_key_eq_some_iff (distinct : (l.map f).Nodup) {x : α} :
    (l.find? fun y => f y == k) = some x ↔ x ∈ l ∧ f x = k := by
  constructor
  · intro h
    exact ⟨List.mem_of_find?_eq_some h, by simpa only [beq_iff_eq] using List.find?_some h⟩
  · rintro ⟨hx, rfl⟩
    cases found : l.find? fun y => f y == f x with
    | none => exact absurd (beq_self_eq_true _) (List.find?_eq_none.1 found x hx)
    | some y =>
        have same : f y = f x := by simpa only [beq_iff_eq] using List.find?_some found
        rw [List.inj_on_of_nodup_map distinct (List.mem_of_find?_eq_some found) hx same]

theorem find?_key_eq_none_iff : (l.find? fun y => f y == k) = none ↔ ∀ x ∈ l, f x ≠ k := by
  simp only [List.find?_eq_none, beq_iff_eq, ne_eq]

theorem isSome_find?_key_iff : (l.find? fun y => f y == k).isSome ↔ k ∈ l.map f := by
  simp only [List.find?_isSome, beq_iff_eq, List.mem_map]

/-- A list whose keys do not repeat can take one more element under a key that is not found. -/
theorem nodup_map_concat (distinct : (l.map f).Nodup) {x : α}
    (fresh : ¬ (l.find? fun y => f y == f x).isSome) : ((l ++ [x]).map f).Nodup := by
  have absent := find?_key_eq_none_iff.1 (Option.not_isSome_iff_eq_none.1 fresh)
  rw [List.map_append]
  refine distinct.append (List.nodup_singleton _) (List.disjoint_singleton.2 fun known => ?_)
  obtain ⟨y, hy, same⟩ := List.mem_map.1 known
  exact absent y hy same

theorem forall_mem_lookup_iff {β : Type} {P : β → Prop} (distinct : (l.map f).Nodup)
    {found : α → List β} {missing : List β} :
    (∀ b ∈ (l.find? fun y => f y == k).elim missing found, P b) ↔
      (∀ x ∈ l, f x = k → ∀ b ∈ found x, P b) ∧
      ((∀ x ∈ l, f x ≠ k) → ∀ b ∈ missing, P b) := by
  cases look : l.find? fun y => f y == k with
  | none =>
      have absent := find?_key_eq_none_iff.1 look
      exact ⟨fun h => ⟨fun x hx e => absurd e (absent x hx), fun _ => h⟩, fun h => h.2 absent⟩
  | some y =>
      obtain ⟨hy, e⟩ := (find?_key_eq_some_iff distinct).1 look
      constructor
      · intro h
        refine ⟨fun x hx ex => ?_, fun absent => absurd e (absent y hy)⟩
        rw [List.inj_on_of_nodup_map distinct hx hy (ex.trans e.symm)]
        exact h
      · intro h
        exact h.1 y hy e

end Lookup

section Related
variable {α β γ : Type} {R : α → β → Prop} {l : List α} {m : List β}

theorem exists_of_mem_forall₂ (h : List.Forall₂ R l m) {b : β} (hb : b ∈ m) : ∃ a ∈ l, R a b := by
  induction h with
  | nil => exact absurd hb List.not_mem_nil
  | @cons a b l m own _ ih =>
      rcases List.mem_cons.1 hb with rfl | later
      · exact ⟨a, List.mem_cons_self, own⟩
      · obtain ⟨a, ha, related⟩ := ih later
        exact ⟨a, List.mem_cons_of_mem _ ha, related⟩

theorem map_eq_of_forall₂ {f : α → γ} {g : β → γ} (same : ∀ a b, R a b → f a = g b)
    (h : List.Forall₂ R l m) : l.map f = m.map g := by
  induction h with
  | nil => rfl
  | cons own _ ih => rw [List.map_cons, List.map_cons, ih, same _ _ own]

/-- An order of one list is one of another that is related to it element by element. -/
theorem pairwise_of_forall₂ {S : α → α → Prop} {T : β → β → Prop} (h : List.Forall₂ R l m)
    (carries : ∀ {a a' b b'}, R a b → R a' b' → S a a' → T b b') (order : l.Pairwise S) :
    m.Pairwise T := by
  induction h with
  | nil => exact .nil
  | cons own rest ih =>
      obtain ⟨first, later⟩ := List.pairwise_cons.1 order
      refine List.pairwise_cons.2 ⟨fun b hb => ?_, ih later⟩
      obtain ⟨a, ha, related⟩ := exists_of_mem_forall₂ rest hb
      exact carries own related (first a ha)

end Related

end ApiDrift
