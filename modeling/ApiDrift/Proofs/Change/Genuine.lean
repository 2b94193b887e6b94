import ApiDrift.Proofs.Change.Sites
/-! Every change that a comparison reports is a difference: its old and its new value are not the
same, its kind tells which of them there is, and a code that names two values names these. Nothing
is asked of the two versions. -/
namespace ApiDrift
open Compare

/-- The values of a change are those that its code names, if it names any. -/
def ChangeCode.Names : ChangeCode → Option String → Option String → Prop
  | argumentDirection x y, old, new => old = some x.text ∧ new = some y.text
  | propertyAccess x y, old, new => old = some x.text ∧ new = some y.text
  | emitsChanged x y, old, new => old = some x ∧ new = some y
  | _, _, _ => True

/-- A change between two values that are not the same. What was added has only a new one, what was
removed only an old one. -/
structure Change.Genuine (c : Change) : Prop where
  differ : c.old ≠ c.new
  added : c.kind = .added → c.old = none ∧ c.new.isSome
  removed : c.kind = .removed → c.old.isSome ∧ c.new = none
  named : c.code.Names c.old c.new

theorem ChangeCode.OfAttribute.names {code : ChangeCode} {old new : Option String}
    (own : code.OfAttribute old new) : code.Names old new := by
  cases code with
  | argumentDirection x y => exact own
  | propertyAccess x y => exact own
  | emitsChanged x y => exact own
  | _ => trivial

theorem Compare.presenceKind_eq_added_iff {old new : Option String} :
    presenceKind old new = .added ↔ old = none ∧ new.isSome := by
  cases old <;> cases new <;> simp [presenceKind]

theorem Compare.presenceKind_eq_removed_iff {old new : Option String} :
    presenceKind old new = .removed ↔ old.isSome ∧ new = none := by
  cases old <;> cases new <;> simp [presenceKind]

namespace Change
variable {c : Change}

theorem genuine_of_presence (kind : c.kind = presenceKind c.old c.new) (differ : c.old ≠ c.new)
    (named : c.code.Names c.old c.new) : c.Genuine where
  differ := differ
  added h := presenceKind_eq_added_iff.1 (kind ▸ h)
  removed h := presenceKind_eq_removed_iff.1 (kind ▸ h)
  named := named

theorem genuine_of_modified (kind : c.kind = .modified) (differ : c.old ≠ c.new)
    (named : c.code.Names c.old c.new) : c.Genuine where
  differ := differ
  added h := nomatch kind.symm.trans h
  removed h := nomatch kind.symm.trans h
  named := named

end Change

namespace Compare
variable {s : Subject} {c : Change} {path : String} {scope : Option String}

theorem genuine_compareMark {old new : Option String} {set unset : ChangeCode}
    {whenSet whenUnset : String} (onSet : ∀ o n, set.Names o n) (onUnset : ∀ o n, unset.Names o n) :
    ∀ c ∈ compareMark s old new set unset whenSet whenUnset, c.Genuine := by
  intro c h
  obtain ⟨changed, rfl⟩ := mem_unless_iff.1 h
  refine Change.genuine_of_presence rfl ?_ ?_
  · rintro (same : old = new)
    rw [same, beq_self_eq_true] at changed
    exact changed rfl
  · show (if _ then set else unset).Names old new
    split
    · exact onSet old new
    · exact onUnset old new

theorem genuine_compareSymbol {old new : Option String} :
    ∀ c ∈ compareSymbol s old new, c.Genuine := by
  intro c h
  obtain ⟨changed, rfl⟩ := mem_unless_iff.1 h
  exact Change.genuine_of_presence rfl changed trivial

theorem genuine_compareGeneric {old : Annotations} {a : Annotation} :
    ∀ c ∈ compareGeneric s old a, c.Genuine := by
  unfold compareGeneric
  split
  · exact List.forall_mem_singleton.2 (Change.genuine_of_presence rfl nofun trivial)
  · next v _ =>
    intro c h
    obtain ⟨changed, rfl⟩ := mem_unless_iff.1 h
    exact Change.genuine_of_presence rfl (fun same => changed (Option.some_inj.1 same)) trivial

theorem genuine_removeGeneric {new : Annotations} {a : Annotation} :
    ∀ c ∈ removeGeneric s new a, c.Genuine :=
  forall_mem_unless (Change.genuine_of_presence rfl nofun trivial)

theorem genuine_compareAnnotations {old new : Annotations} :
    ∀ c ∈ compareAnnotations s old new, c.Genuine := by
  simp only [compareAnnotations, List.forall_mem_append, List.forall_mem_flatMap]
  refine ⟨⟨⟨⟨?_, genuine_compareSymbol⟩, ?_⟩, fun _ _ => genuine_compareGeneric⟩,
    fun _ _ => genuine_removeGeneric⟩
  · exact genuine_compareMark (fun _ _ => trivial) fun _ _ => trivial
  · exact genuine_compareMark (fun _ _ => trivial) fun _ _ => trivial

theorem genuine_compareDoc {old new : Option Documentation} :
    ∀ c ∈ compareDoc s old new, c.Genuine := by
  intro c h
  obtain ⟨changed, rfl⟩ := mem_unless_iff.1 h
  exact Change.genuine_of_modified rfl changed trivial

end Compare

theorem Site.Finds.genuine {s : Site} {c : Change} (h : s.Finds c) : c.Genuine := by
  cases h with
  | element => exact Change.genuine_of_presence rfl nofun trivial
  | argument => exact Change.genuine_of_presence rfl nofun trivial
  | altered differ own => exact Change.genuine_of_modified rfl differ own.names
  | annotations h => exact genuine_compareAnnotations c h
  | doc h => exact genuine_compareDoc c h

theorem Site.Loses.genuine {s : Site} {c : Change} (h : s.Loses c) : c.Genuine := by
  cases h with
  | element => exact Change.genuine_of_presence rfl nofun trivial
  | argument => exact Change.genuine_of_presence rfl nofun trivial

namespace Compare
variable {c : Change} {path : String} {scope : Option String}

-- A callable may stand in the list of the other kind here, so the element at which a change is
-- found need not be one of those that the new version is said to have.

theorem exists_finds_of_mem_member {old new : Interface} {m : Member}
    (h : c ∈ compareMember path old new m) : ∃ s : Site, s.Finds c := by
  have callable {kind : ElementKind} {path : String} {location : Location} {n : Callable}
      {o? : Option Callable}
      (h : c ∈ o?.elim [.addedElement kind path location] fun o => compareCallable path o n) :
      ∃ s : Site, s.Finds c := by
    obtain rfl | ⟨o, -, h⟩ := mem_elim h
    · exact ⟨⟨kind, path, location, n.annotations, n.doc⟩, .element⟩
    · obtain ⟨s, -, found⟩ := exists_finds_callable rfl h
      exact ⟨s, found⟩
  cases m with
  | method n => exact callable (compareMember_method old new n ▸ h)
  | signal n => exact callable (compareMember_signal old new n ▸ h)
  | property n =>
      rw [compareMember_property] at h
      obtain rfl | ⟨o, -, h⟩ := mem_elim h
      · exact ⟨n.site _, .element⟩
      · exact ⟨_, finds_property h⟩

theorem exists_finds_of_mem_owned {old : Node} {i : Interface} (h : c ∈ compareOwned scope old i) :
    ∃ s : Site, s.Finds c := by
  let own : Site := ⟨.interface, interfacePath scope i, i.location, i.annotations, i.doc⟩
  rw [compareOwned_eq] at h
  obtain rfl | ⟨o, -, h⟩ := mem_elim h
  · exact ⟨own, .element⟩
  · simp only [compareInterface, List.mem_append] at h
    obtain ((h | h) | h) | h := h
    · exact ⟨own, finds_emits h⟩
    · exact ⟨own, .annotations h⟩
    · exact ⟨own, .doc h⟩
    · obtain ⟨m, -, h⟩ := List.mem_flatMap.1 h
      exact exists_finds_of_mem_member h

theorem exists_finds_of_mem_node {old new : Node} (h : c ∈ compareNode scope old new) :
    ∃ s : Site, s.Finds c := by
  induction new using Node.induction generalizing old scope with
  | step new ih =>
      simp only [compareNode_eq, List.mem_append] at h
      obtain ((h | h) | h) | h := h
      · exact ⟨⟨.node, _, _, _, new.doc⟩, .annotations h⟩
      · exact ⟨⟨.node, _, _, new.annotations, _⟩, .doc h⟩
      · obtain ⟨i, -, h⟩ := List.mem_flatMap.1 h
        exact exists_finds_of_mem_owned h
      · obtain ⟨child, hc, h⟩ := List.mem_flatMap.1 h
        obtain rfl | ⟨o, h⟩ := mem_compareChild h
        · exact ⟨⟨.node, _, _, child.annotations, child.doc⟩, .element⟩
        · exact ih child hc h

end Compare

/-- Between any two versions whatsoever, no change is reported where nothing differs, and each says
of its values what they are. -/
theorem compare_genuine {a b : Node} {c : Change} (h : c ∈ compare a b) : c.Genuine := by
  rw [compare, List.mem_append] at h
  obtain first | second := h
  · obtain ⟨s, found⟩ := exists_finds_of_mem_node first
    exact found.genuine
  · obtain ⟨s, -, lost⟩ := exists_loses_node second
    exact lost.genuine

/-- A bell that announces its tone in some way. -/
def toneAnnounced (value : String) : Node where
  interfaces := [
    { name := "o.Bell"
      properties := [
        { name := "Tone", type := .ofText "s", access := .read
          annotations := ⟨[⟨AnnotationName.emitsChanged, value, {}⟩]⟩ }] }]

/-- The tone is announced in another way, which the code names. -/
theorem toneAnnounced_genuine : ∃ c ∈ compare (toneAnnounced "const") (toneAnnounced "maybe"),
    c.code = .emitsChanged "const" "maybe" ∧ c.Genuine := by
  have found : (compare (toneAnnounced "const") (toneAnnounced "maybe")).map Change.code =
      [.emitsChanged "const" "maybe"] := by decide +kernel
  obtain ⟨c, single, code⟩ := List.map_eq_singleton_iff.1 found
  have mem : c ∈ compare (toneAnnounced "const") (toneAnnounced "maybe") := by
    rw [single]
    exact List.mem_singleton.2 rfl
  exact ⟨c, mem, code, compare_genuine mem⟩

end ApiDrift
