import ApiDrift.Proofs.Api.Layout
import ApiDrift.Proofs.Introspection.Nesting
import ApiDrift.Proofs.Introspection.Origin
import ApiDrift.Proofs.Introspection.Places
/-! The parts of a description stand as the elements do that they were read from: each element
begins after its parent, and its siblings lie wholly before it or after it. -/
namespace ApiDrift.Introspection

open Xml (beginsAmong)

namespace Placed

theorem firsts_sublist (p : Placed) (base : String) :
    (p.firsts base).Sublist (placedAfter [] p.children) :=
  List.filter_sublist.trans List.filter_sublist

variable {p q : Placed} {base other : String}

theorem mem_of_mem_firsts (h : q ∈ p.firsts base) : q ∈ placedAfter [] p.children :=
  (p.firsts_sublist base).mem h

theorem Ascending.firsts (h : p.Ascending) (base : String) :
    (p.firsts base).Pairwise fun q r => Before q.places r.places :=
  (ascending_iff.1 h).2.2.sublist (p.firsts_sublist base)

theorem Ascending.apart (h : p.Ascending) (kinds : base ≠ other) {r : Placed}
    (hq : q ∈ p.firsts base) (hr : r ∈ p.firsts other) : Apart q.places r.places := by
  refine placedAfter_apart h.inside (mem_of_mem_firsts hq) (mem_of_mem_firsts hr) ?_
  rintro rfl
  have kind {base : String} (first : q ∈ p.firsts base) : q.head.base = base :=
    (isPlain_iff.1 (List.mem_filter.1 (List.mem_filter.1 first).1).2).2
  exact kinds ((kind hq).symm.trans (kind hr))

end Placed

section Parts
variable {p : Placed}

theorem CallableOf.places_sublist {c : Callable} (h : CallableOf p c) :
    c.places.Sublist p.places := by
  have args : c.args.map Argument.location = (p.inside "arg").map fun q => q.head.location := by
    exact (map_eq_of_forall₂ (fun _ _ own => own.location.symm) h.args).symm
  rw [Callable.places, Placed.places, h.location, args]
  refine .cons_cons _ (.trans ?_ (heads_sublist [] p.children))
  exact List.filter_sublist.map _

/-- The elements that the members of an interface are read from, kind by kind. -/
def Placed.members (p : Placed) : List Placed :=
  p.firsts "method" ++ p.firsts "signal" ++ p.firsts "property"

theorem Placed.mem_of_mem_members {q : Placed} (h : q ∈ p.members) :
    q ∈ placedAfter [] p.children := by
  rcases List.mem_append.1 h with h | h
  · rcases List.mem_append.1 h with h | h
    · exact mem_of_mem_firsts h
    · exact mem_of_mem_firsts h
  · exact mem_of_mem_firsts h

theorem Placed.Ascending.members (h : p.Ascending) :
    p.members.Pairwise fun q r => Apart q.places r.places := by
  have alike (base : String) : (p.firsts base).Pairwise fun q r => Apart q.places r.places :=
    (h.firsts base).imp .inl
  refine List.pairwise_append.2 ⟨List.pairwise_append.2 ⟨alike _, alike _, ?_⟩, alike _, ?_⟩
  · exact fun q hq r hr => h.apart (by decide) hq hr
  · intro q hq r hr
    rcases List.mem_append.1 hq with hq | hq
    · exact h.apart (by decide) hq hr
    · exact h.apart (by decide) hq hr

namespace InterfaceOf
variable {i : Interface}

theorem declared (h : InterfaceOf p i) :
    List.Forall₂ (fun q m => m.places.Sublist q.places) p.members i.declared := by
  refine List.rel_append (List.rel_append ?_ ?_) ?_
  · exact List.forall₂_map_right_iff.2 (h.methods.imp fun _ _ own => own.places_sublist)
  · exact List.forall₂_map_right_iff.2 (h.signals.imp fun _ _ own => own.places_sublist)
  · refine List.forall₂_map_right_iff.2 (h.properties.imp fun q r own => ?_)
    rw [Member.places, own.location]
    exact .cons_cons _ (List.nil_sublist _)

theorem exists_of_mem_members (h : InterfaceOf p i) {m : Member} (hm : m ∈ i.members) :
    ∃ q ∈ placedAfter [] p.children, m.places.Sublist q.places := by
  obtain ⟨q, hq, within⟩ := exists_of_mem_forall₂ h.declared (i.members_perm.mem_iff.1 hm)
  exact ⟨q, Placed.mem_of_mem_members hq, within⟩

theorem places_subset (h : InterfaceOf p i) : i.places ⊆ p.places := by
  intro l hl
  rw [Placed.mem_places_iff, ← h.location]
  refine (List.mem_cons.1 hl).imp id fun inside => ?_
  obtain ⟨m, hm, hl⟩ := List.mem_flatMap.1 inside
  obtain ⟨q, hq, within⟩ := h.exists_of_mem_members hm
  exact ⟨q, hq, within.mem hl⟩

/-- An interface is taken in the order of its document, with its members and their arguments. -/
theorem ascending (h : InterfaceOf p i) (ascending : p.Ascending) : i.places.Pairwise (· < ·) := by
  obtain ⟨first, inside, -⟩ := Placed.ascending_iff.1 ascending
  refine List.pairwise_cons.2 ⟨fun l hl => ?_, Interface.ascending_members (fun m hm => ?_) ?_⟩
  · obtain ⟨m, hm, hl⟩ := List.mem_flatMap.1 hl
    obtain ⟨q, hq, within⟩ := h.exists_of_mem_members hm
    rw [h.location]
    exact first q hq l (within.mem hl)
  · obtain ⟨q, hq, within⟩ := h.exists_of_mem_members hm
    exact (inside q hq).sublist within
  · exact pairwise_of_forall₂ h.declared (fun own other apart => apart.mono own.subset other.subset)
      ascending.members

end InterfaceOf

namespace NodeOf
variable {n : Node}

theorem places_subset (h : NodeOf p n) : n.places ⊆ p.places := by
  induction n using Node.induction generalizing p with
  | step n ih =>
      cases h with
      | intro name location doc interfaces nodes =>
          intro l hl
          rw [Placed.mem_places_iff, ← location]
          rcases Node.mem_places.1 hl with (here | ⟨i, hi, hl⟩) | ⟨c, hc, hl⟩
          · exact .inl here
          · obtain ⟨q, hq, own⟩ := exists_of_mem_forall₂ interfaces hi
            exact .inr ⟨q, Placed.mem_of_mem_firsts hq, own.places_subset hl⟩
          · obtain ⟨q, hq, own⟩ := exists_of_mem_forall₂ nodes hc
            exact .inr ⟨q, Placed.mem_of_mem_firsts hq, ih c hc own hl⟩

theorem laidOut (h : NodeOf p n) (ascending : p.Ascending) : n.Everywhere Node.LaidOut := by
  induction n using Node.induction generalizing p with
  | step n ih =>
      cases h with
      | intro name location doc interfaces nodes =>
          have inside {base : String} {q : Placed} (hq : q ∈ p.firsts base) : q.Ascending :=
            (Placed.ascending_iff.1 ascending).2.1 q (Placed.mem_of_mem_firsts hq)
          refine Node.everywhere_iff.2 ⟨⟨?_, ?_, fun i hi c hc => ?_⟩, fun c hc => ?_⟩
          · refine List.pairwise_flatMap.2 ⟨fun i hi => ?_, ?_⟩
            · obtain ⟨q, hq, own⟩ := exists_of_mem_forall₂ interfaces hi
              exact own.ascending (inside hq)
            · exact pairwise_of_forall₂ interfaces
                (fun own other before => before.mono own.places_subset other.places_subset)
                (ascending.firsts "interface")
          · exact pairwise_of_forall₂ nodes
              (fun own other before => before.mono own.places_subset other.places_subset)
              (ascending.firsts "node")
          · obtain ⟨q, hq, own⟩ := exists_of_mem_forall₂ interfaces hi
            obtain ⟨r, hr, other⟩ := exists_of_mem_forall₂ nodes hc
            exact (ascending.apart (by decide) hq hr).mono own.places_subset other.places_subset
          · obtain ⟨q, hq, own⟩ := exists_of_mem_forall₂ nodes hc
            exact ih c hc own (inside hq)

end NodeOf

end Parts

section Document

/-- The elements of an accepted document without a document type begin one after the other. -/
theorem begins_ascending {text : List Char} {d : Xml.Document}
    (wellFormed : Xml.Document.parse text = .ok d) (plain : hasDoctype text = false) :
    (beginsAmong d.children).Pairwise (· < ·) := by
  obtain ⟨s', -, inStep⟩ := (inPlainStep_document (hasDoctype_eq_false plain)).resolve_left
    (faultless_not_doomed wellFormed)
  exact inStep.ascends.sorted.sublist (Xml.Document.parse_begins wellFormed inStep.undeclared)

theorem describedElement?_ascending {d : Xml.Document} {root : Placed}
    (described : describedElement? d = some root)
    (begins : (beginsAmong d.children).Pairwise (· < ·)) : root.Ascending := by
  obtain ⟨outer, first, found⟩ := Option.bind_eq_some_iff.1 described
  rw [beginsAmong_eq_placedAfter [], List.pairwise_flatMap] at begins
  have whole : outer.Ascending := begins.1 outer (List.mem_of_mem_head? first)
  rcases List.mem_cons.1 (List.mem_of_find?_eq_some found) with rfl | below
  · exact whole
  · exact whole.sublist ((sublist_of_mem_placedAmong below).trans (List.sublist_cons_self ..))

/-- What is read from a document without a document type is laid out as the document is. -/
theorem parseBytes_laidOut {options : Options} {bytes : List UInt8} {p : Parsed} {text : List Char}
    (read : parseBytes options bytes = .ok p) (decoded : Text.Utf8.decode bytes = .ok text)
    (plain : hasDoctype text = false) : p.root.Everywhere Node.LaidOut := by
  obtain ⟨text', d, root, -, -, decoded', wellFormed, described, own, harmless, -⟩ :=
    parseBytes_describes read
  obtain rfl := Except.ok.inj (decoded'.symm.trans decoded)
  rw [own]
  exact (nodeOf_describe none harmless).laidOut
    (describedElement?_ascending described (begins_ascending wellFormed plain))

end Document

end ApiDrift.Introspection
