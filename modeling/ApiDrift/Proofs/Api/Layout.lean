import ApiDrift.Proofs.Api.Shape
import ApiDrift.Proofs.Location
import Mathlib.Data.List.Pairwise
/-! Where the elements of a description stand. In a document the parts of an element do not
interleave, while a description keeps them kind by kind. -/
namespace ApiDrift

section Stretches
variable {l m l' m' : List Location}

/-- All of some places come before all of others. -/
def Before (l m : List Location) : Prop := ∀ a ∈ l, ∀ b ∈ m, a < b

/-- Of two stretches of a text one comes before the other. -/
def Apart (l m : List Location) : Prop := Before l m ∨ Before m l

theorem Before.mono (h : Before l m) (hl : l' ⊆ l) (hm : m' ⊆ m) : Before l' m' :=
  fun a ha b hb => h a (hl ha) b (hm hb)

theorem Apart.mono (h : Apart l m) (hl : l' ⊆ l) (hm : m' ⊆ m) : Apart l' m' :=
  h.imp (·.mono hl hm) (·.mono hm hl)

theorem Apart.symm (h : Apart l m) : Apart m l := Or.symm h

theorem Apart.before (h : Apart l m) {a b : Location} (ha : a ∈ l) (hb : b ∈ m) (le : a ≤ b) :
    Before l m := h.resolve_right fun after => absurd le (after b hb a ha).not_ge

end Stretches

/-- A method or signal and its arguments. -/
def Callable.places (c : Callable) : List Location := c.location :: c.args.map Argument.location

namespace Member

def places : Member → List Location
  | method m => m.places
  | signal s => s.places
  | property p => [p.location]

theorem location_mem_places (m : Member) : m.location ∈ m.places := by
  cases m <;> exact List.mem_cons_self

end Member

namespace Interface

/-- An interface and its members with their arguments, in the order of a comparison. -/
def places (i : Interface) : List Location := i.location :: i.members.flatMap Member.places

/-- Members that do not interleave are taken in the order in which they stand, whatever their
kinds. -/
theorem ascending_members {i : Interface} (inside : ∀ m ∈ i.members, m.places.Pairwise (· < ·))
    (apart : i.declared.Pairwise fun m n => Apart m.places n.places) :
    (i.members.flatMap Member.places).Pairwise (· < ·) := by
  have sorted : i.members.Pairwise fun m n => m.location ≤ n.location := by
    have merged : i.members.Pairwise fun m n => decide (m.location ≤ n.location) = true := by
      refine List.pairwise_mergeSort (fun a b c hab hbc => ?_) (fun a b => ?_) i.declared
      · rw [decide_eq_true_iff] at hab hbc ⊢
        exact le_trans hab hbc
      · rw [Bool.or_eq_true, decide_eq_true_iff, decide_eq_true_iff]
        exact le_total a.location b.location
    exact merged.imp of_decide_eq_true
  have split : i.members.Pairwise fun m n => Apart m.places n.places :=
    i.members_perm.symm.pairwise apart fun h => h.symm
  rw [List.pairwise_flatMap]
  refine ⟨inside, ?_⟩
  exact (split.and sorted).imp fun {m n} h =>
    h.1.before m.location_mem_places n.location_mem_places h.2

end Interface

namespace Node

/-- A node and all elements below it. -/
def places (n : Node) : List Location :=
  n.allNodes.flatMap fun m => m.location :: m.interfaces.flatMap Interface.places

theorem mem_places {l : Location} {n : Node} :
    l ∈ n.places ↔ (l = n.location ∨ ∃ i ∈ n.interfaces, l ∈ i.places) ∨
      ∃ c ∈ n.nodes, l ∈ c.places := by
  constructor
  · intro h
    obtain ⟨m, hm, hl⟩ := List.mem_flatMap.1 h
    rcases mem_allNodes.1 hm with rfl | ⟨c, hc, hm⟩
    · exact .inl (by rwa [List.mem_cons, List.mem_flatMap] at hl)
    · exact .inr ⟨c, hc, List.mem_flatMap.2 ⟨m, hm, hl⟩⟩
  · rintro (here | ⟨c, hc, h⟩)
    · refine List.mem_flatMap.2 ⟨n, mem_allNodes.2 (.inl rfl), ?_⟩
      rwa [List.mem_cons, List.mem_flatMap]
    · obtain ⟨m, hm, hl⟩ := List.mem_flatMap.1 h
      exact List.mem_flatMap.2 ⟨m, mem_allNodes.2 (.inr ⟨c, hc, hm⟩), hl⟩

theorem location_mem_places (n : Node) : n.location ∈ n.places := mem_places.2 (.inl (.inl rfl))

/-- The parts of a node do not interleave, and those of a kind are kept in their order. -/
structure LaidOut (n : Node) : Prop where
  interfaces : (n.interfaces.flatMap Interface.places).Pairwise (· < ·)
  nodes : n.nodes.Pairwise fun c d => Before c.places d.places
  apart : ∀ i ∈ n.interfaces, ∀ c ∈ n.nodes, Apart i.places c.places

end Node

end ApiDrift
