import ApiDrift.Proofs.Change.Mirror
import ApiDrift.Proofs.Change.Sites
import ApiDrift.Proofs.Introspection.Parse
/-! Which version a change is located in. An element that is gone stands in the old one. All else is
located in the new one, and so is the loss of what was noted about an element that remains. -/
namespace ApiDrift
open Compare

namespace Site
variable {s : Site} {c : Change}

/-- The message is about this element: it begins with it or names it later on. -/
def NamedIn (s : Site) (message : String) : Prop :=
  s.subject.titled.toList <+: message.toList ∨ s.subject.named.toList <:+: message.toList

/-- The location is that of the element, of an annotation that the message begins with, or of the
documentation if that is what has changed. -/
inductive Holds (s : Site) (c : Change) : Prop
  | element (location : c.location = s.location)
  | note {a : Annotation} (own : a ∈ s.annotations.toList)
      (named : ("Annotation ‘" ++ a.name ++ "’").toList <+: c.message.toList)
      (location : c.location = a.location)
  | doc {d : Documentation} (own : s.doc = some d) (code : c.code = .documentation)
      (location : c.location = d.location)

/-- The change belongs to the element and is located there. -/
structure Locates (s : Site) (c : Change) : Prop where
  path : c.path = s.path
  named : s.NamedIn c.message
  holds : s.Holds c

theorem prefix_of_eq_append {heading message : String} (rest : String)
    (h : message = heading ++ rest) : heading.toList <+: message.toList :=
  ⟨rest.toList, by rw [h, String.toList_append]⟩

theorem namedIn_of_eq_append {message : String} (before rest : String)
    (h : message = before ++ s.subject.named ++ rest) : s.NamedIn message :=
  .inr ⟨before.toList, rest.toList, by rw [h, String.toList_append, String.toList_append]⟩

theorem locates_of_titled (rest : String) (path : c.path = s.path)
    (location : c.location = s.location) (message : c.message = s.subject.titled ++ rest) :
    s.Locates c :=
  ⟨path, .inl (prefix_of_eq_append rest message), .element location⟩

theorem locates_change {kind : ChangeKind} {category : Category} {code : ChangeCode}
    {old new : Option String} {what : String} :
    s.Locates (s.subject.change kind category code old new what) := by
  apply locates_of_titled (" has " ++ what ++ ".") rfl rfl
  simp only [Subject.change, String.append_assoc]

theorem locates_compareGeneric {old : Annotations} {a : Annotation}
    (own : a ∈ s.annotations.toList) : ∀ c ∈ compareGeneric s.subject old a, s.Locates c := by
  unfold compareGeneric
  split
  · have begins : "’ has been added to " = "’" ++ " has been added to " := rfl
    refine List.forall_mem_singleton.2 ⟨rfl, ?_, .note own ?_ rfl⟩
    · exact namedIn_of_eq_append ("Annotation ‘" ++ a.name ++ "’ has been added to ") "." rfl
    · apply prefix_of_eq_append (" has been added to " ++ s.subject.named ++ ".")
      simp only [begins, String.append_assoc]
  · next v _ =>
    have begins : "’ on " = "’" ++ " on " := rfl
    refine forall_mem_unless ⟨rfl, ?_, .note own ?_ rfl⟩
    · apply namedIn_of_eq_append ("Annotation ‘" ++ a.name ++ "’ on ")
        (" has changed value " ++ fromTo v a.value ++ ".")
      simp only [String.append_assoc]
    · apply prefix_of_eq_append
        (" on " ++ s.subject.named ++ " has changed value " ++ fromTo v a.value ++ ".")
      simp only [begins, String.append_assoc]

theorem locates_removeGeneric {new : Annotations} {a : Annotation} :
    ∀ c ∈ removeGeneric s.subject new a, s.Locates c := by
  refine forall_mem_unless ⟨rfl, ?_, .element rfl⟩
  exact namedIn_of_eq_append ("Annotation ‘" ++ a.name ++ "’ has been removed from ") "." rfl

theorem locates_compareAnnotations {old : Annotations} :
    ∀ c ∈ compareAnnotations s.subject old s.annotations, s.Locates c := by
  simp only [compareAnnotations, List.forall_mem_append, List.forall_mem_flatMap]
  refine ⟨⟨⟨⟨forall_mem_unless locates_change, forall_mem_unless locates_change⟩,
    forall_mem_unless locates_change⟩, fun a ha => ?_⟩, fun a _ => locates_removeGeneric⟩
  exact locates_compareGeneric (List.mem_of_mem_filter ha)

theorem locates_compareDoc {old : Option Documentation} :
    ∀ c ∈ compareDoc s.subject old s.doc, s.Locates c := by
  have named : s.NamedIn ("Documentation for " ++ s.subject.named ++ " has changed.") :=
    namedIn_of_eq_append "Documentation for " " has changed." rfl
  refine forall_mem_unless ⟨rfl, named, ?_⟩
  cases doc : s.doc with
  | none => exact .element rfl
  | some d => exact .doc doc rfl rfl

theorem Finds.locates (h : s.Finds c) : s.Locates c := by
  cases h with
  | element =>
      apply locates_of_titled " has been added." rfl rfl
      simp only [Change.addedElement, Subject.titled, subject, String.append_assoc]
      rfl
  | argument same location =>
      apply locates_of_titled " has been added." rfl location
      simp only [addedArgument, Subject.titled, subject, same, String.append_assoc]
      rfl
  | altered differ own => exact locates_change
  | annotations h => exact locates_compareAnnotations c h
  | doc h => exact locates_compareDoc c h

theorem Loses.locates (h : s.Loses c) : s.Locates c := by
  cases h with
  | element =>
      apply locates_of_titled " has been removed." rfl rfl
      simp only [Change.removedElement, Subject.titled, subject, String.append_assoc]
      rfl
  | argument same location =>
      apply locates_of_titled " has been removed." rfl location
      simp only [removedArgument, Subject.titled, subject, same, String.append_assoc]
      rfl

theorem Finds.not_isRemoval (h : s.Finds c) : ¬c.isRemoval = true := by
  cases h with
  | element => exact Bool.false_ne_true
  | argument => exact Bool.false_ne_true
  | altered differ own =>
      rw [Change.isRemoval_iff]
      rintro ⟨kind, removed⟩
      cases removed
      exact own
  | annotations h => exact (amends_compareAnnotations c h).not_isRemoval
  | doc h => exact (amends_compareDoc c h).not_isRemoval

theorem Loses.isRemoval (h : s.Loses c) : c.isRemoval = true := by
  cases h <;> rfl

theorem Loses.kind (h : s.Loses c) : c.kind = .removed := by
  cases h <;> rfl

end Site

/-- A removed element is located in the old version. Every other change, with the losses of what was
noted about an element, is located in the document that it leads to. -/
theorem parsed_change_located {options : Introspection.Options} {bytes : List UInt8}
    {b : Introspection.Parsed} (read : Introspection.parseBytes options bytes = .ok b) {a : Node}
    {c : Change} (h : c ∈ compare a b.root) :
    (c.isRemoval = true → c.kind = .removed ∧ ∃ s ∈ a.sites, s.Locates c) ∧
      (c.isRemoval = false → ∃ s ∈ b.root.sites, s.Locates c) := by
  have directed := (Introspection.trusted_of_parseBytes read).root.wellDirected
  rcases exists_site_of_mem_compare directed h with ⟨s, hs, found⟩ | ⟨s, hs, lost⟩
  · exact ⟨fun gone => absurd gone found.not_isRemoval, fun _ => ⟨s, hs, found.locates⟩⟩
  · refine ⟨fun _ => ⟨lost.kind, s, hs, lost.locates⟩, fun stays => ?_⟩
    exact absurd (stays ▸ lost.isRemoval) Bool.false_ne_true

/-- A bell, with text before it, what is noted about it and what it has. -/
def bellAfter (before content : String) : List UInt8 :=
  Text.Utf8.encode
    ("<node>" ++ before ++ "<interface name='o.B'>" ++ content ++ "</interface></node>").toList

/-- A method goes and a note comes, while the bell moves down. -/
theorem bell_changes_located :
    ∃ a b gone came, Introspection.parseBytes {} (bellAfter "" "<method name='R'/>") = .ok a ∧
      Introspection.parseBytes {}
        (bellAfter "\n\n" "<annotation name='o.Since' value='2'/>") = .ok b ∧
      (gone ∈ compare a.root b.root ∧ gone.isRemoval = true ∧
        gone.kind = .removed ∧ ∃ s ∈ a.root.sites, s.Locates gone) ∧
      came ∈ compare a.root b.root ∧ came.isRemoval = false ∧
        ∃ s ∈ b.root.sites, s.Locates came := by
  have found : Introspection.holdsOfBoth
      (fun a b => (compare a b).any Change.isRemoval &&
        (compare a b).any fun c => c.isRemoval == false)
      (bellAfter "" "<method name='R'/>")
      (bellAfter "\n\n" "<annotation name='o.Since' value='2'/>") = some true := by decide +kernel
  obtain ⟨a, b, readFirst, readSecond, both⟩ := Introspection.of_holdsOfBoth found
  obtain ⟨losses, others⟩ := Bool.and_eq_true_iff.1 both
  obtain ⟨gone, hg, removal⟩ := List.any_eq_true.1 losses
  obtain ⟨came, hc, other⟩ := List.any_eq_true.1 others
  have stays := eq_of_beq other
  exact ⟨a, b, gone, came, readFirst, readSecond,
    ⟨hg, removal, (parsed_change_located readSecond hg).1 removal⟩,
    hc, stays, (parsed_change_located readSecond hc).2 stays⟩

/-- The locations that an element has to offer. -/
def Site.places (s : Site) : List Location :=
  s.location :: s.annotations.toList.map Annotation.location
    ++ s.doc.toList.map Documentation.location

/-- What is removed from an element that remains is located nowhere in the old version. -/
theorem lost_note_not_located :
    ∃ a b c, Introspection.parseBytes {}
        (bellAfter "" "<annotation name='o.Since' value='2'/>") = .ok a ∧
      Introspection.parseBytes {} (bellAfter "\n\n" "") = .ok b ∧
      c ∈ compare a.root b.root ∧ c.kind = .removed ∧
      ∀ s ∈ a.root.sites, c.location ∉ s.places := by
  have found : Introspection.holdsOfBoth
      (fun a b => (compare a b).any fun c => decide
        (c.kind = .removed ∧ ∀ s ∈ a.sites, c.location ∉ s.places))
      (bellAfter "" "<annotation name='o.Since' value='2'/>") (bellAfter "\n\n" "") =
        some true := by decide +kernel
  obtain ⟨a, b, readFirst, readSecond, losses⟩ := Introspection.of_holdsOfBoth found
  obtain ⟨c, hc, astray⟩ := List.any_eq_true.1 losses
  exact ⟨a, b, c, readFirst, readSecond, hc, of_decide_eq_true astray⟩

end ApiDrift
