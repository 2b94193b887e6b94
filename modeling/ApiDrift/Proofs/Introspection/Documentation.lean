import ApiDrift.Proofs.Introspection.Placed
/-! The documentation of an element by what stands in the document: the last annotation that is kept
for it, the last child of a documentation vocabulary, and the comment before the element. -/
namespace ApiDrift.Introspection

namespace Placed

/-- The annotations of an element that are kept for documentation. -/
def docAnnotations (p : Placed) : List Placed :=
  (p.inside "annotation").filter fun q => q.name? == some AnnotationName.docString

/-- The value of an annotation, empty where it is left out. -/
def value (p : Placed) : String := (p.head.attribute? "value").getD ""

/-- The children of a documentation vocabulary whose text is not blank. -/
def docElements (p : Placed) : List Placed :=
  (placedAfter [] p.children).filter fun q =>
    isDocElement q.head && !Text.allBlank (fullText q.children)

/-- The last annotation that is kept for documentation, if there is one, is blank. -/
def Unannotated (p : Placed) : Prop :=
  ∀ q, p.docAnnotations.getLast? = some q → Text.allBlank q.value = true

end Placed

/-- What documents an element: an annotation comes before a child element, and that before a
comment. Each is given in full, with the place where it stands. -/
inductive Documented (p : Placed) : Option Documentation → Prop
  | annotated {q : Placed} (last : p.docAnnotations.getLast? = some q)
      (filled : Text.allBlank q.value = false) :
      Documented p (some ⟨q.value, .annotated, q.head.location⟩)
  | element {q : Placed} (unannotated : p.Unannotated) (last : p.docElements.getLast? = some q) :
      Documented p (some ⟨fullText q.children, .element, q.head.location⟩)
  | comment {d : Documentation} (unannotated : p.Unannotated) (bare : p.docElements = [])
      (precedes : EndsWithComment p.before d) : Documented p (some d)
  | nothing (unannotated : p.Unannotated) (bare : p.docElements = [])
      (alone : ∀ d, ¬EndsWithComment p.before d) : Documented p none

theorem filterMap_childDoc? (before l : List Xml.Node) :
    l.filterMap childDoc? = ((placedAfter before l).filter fun q =>
      isDocElement q.head && !Text.allBlank (fullText q.children)).map fun q =>
        ⟨fullText q.children, .element, q.head.location⟩ := by
  induction l generalizing before with
  | nil => rfl
  | cons n rest ih =>
      simp only [List.filterMap_cons, placedAfter, ih (before ++ [n])]
      cases n with
      | element head children =>
          cases kept : isDocElement head && !Text.allBlank (fullText children) with
          | true => simp only [childDoc?, List.filter_cons, kept, if_true, List.map_cons]
          | false => simp only [childDoc?, List.filter_cons, kept, Bool.false_eq_true, if_false]
      | text s => rfl
      | comment s location => rfl
      | instruction => rfl

theorem docChild?_eq (p : Placed) :
    docChild? p.children = p.docElements.getLast?.map fun q =>
      ⟨fullText q.children, .element, q.head.location⟩ := by
  rw [docChild?, filterMap_childDoc? [], List.getLast?_map]
  rfl

section Noted

/-- Whether an element is an annotation that is kept for documentation. -/
def isDocNote (q : Placed) : Bool :=
  q.head.isPlain "annotation" && q.name? == some AnnotationName.docString

def docNote (q : Placed) : Annotation :=
  ⟨AnnotationName.docString, q.value, q.head.location⟩

/-- Of annotations those are kept that stand for documentation among some elements: the last one
counts. -/
def Noted (l : List Placed) (annotations : Annotations) : Prop :=
  annotations.get? AnnotationName.docString =
    (l.filter isDocNote).getLast?.map docNote

theorem noted_empty : Noted [] {} := rfl

theorem Noted.other {l : List Placed} {annotations : Annotations} (h : Noted l annotations)
    {q : Placed} (other : q.head.base ≠ "annotation") : Noted (l ++ [q]) annotations := by
  have passed : isDocNote q = false := by
    rw [← Bool.not_eq_true]
    exact fun kept => other (isPlain_iff.1 (Bool.and_eq_true_iff.1 kept).1).2
  unfold Noted
  rw [List.filter_append, List.filter_cons, passed, if_neg Bool.false_ne_true, List.filter_nil,
    List.append_nil]
  exact h

theorem Noted.add {l : List Placed} {annotations : Annotations}
    (h : Noted l annotations) {q : Placed} (plain : q.head.isPlain "annotation" = true)
    (owner : Place) : Noted (l ++ [q]) (annotate annotations owner q.toChild).value := by
  have kept : isDocNote q = true ↔ q.name? = some AnnotationName.docString := by
    rw [isDocNote, plain, Bool.true_and, beq_iff_eq]
  unfold Noted at h ⊢
  have own : q.toChild.head.attribute? "name" = q.name? := rfl
  rw [annotate, Logged.value_bind, value_required, own, Logged.value_bind,
    List.filter_append, List.filter_cons, List.filter_nil]
  cases named : q.name? with
  | none =>
      have passed : ¬isDocNote q = true := fun own => by
        rw [kept.1 own] at named
        cases named
      rw [if_neg passed, List.append_nil]
      exact h
  | some name =>
      simp only [Logged.value_bind, Logged.value_pure, Annotations.get?_insert]
      by_cases own : name = AnnotationName.docString
      · subst own
        rw [if_pos rfl, if_pos (kept.2 named), List.getLast?_concat]
        rfl
      · have passed : ¬isDocNote q = true := fun isKept => by
          rw [kept.1 isKept] at named
          exact own (Option.some_inj.1 named).symm
        rw [if_neg own, if_neg passed, List.append_nil]
        exact h

theorem getLast?_docAnnotations {names : List String} {p : Placed} {annotations : Annotations}
    (known : "annotation" ∈ names) (h : Noted (acceptedPlaces names p.children) annotations) :
    annotations.get? AnnotationName.docString = p.docAnnotations.getLast?.map docNote := by
  rw [h, Placed.docAnnotations, inside_eq_filter known, List.filter_filter]
  refine congrArg (fun l => (List.getLast? l).map docNote) ?_
  exact List.filter_congr fun q _ => Bool.and_comm ..

/-- What is found for an element documents it, where its annotations are those in it. -/
theorem documented_resolveDoc {names : List String} {p : Placed} {annotations : Annotations}
    (known : "annotation" ∈ names) (h : Noted (acceptedPlaces names p.children) annotations) :
    Documented p (resolveDoc annotations (docChild? p.children) p.toChild.comment) := by
  have last := getLast?_docAnnotations known h
  have others (unannotated : p.Unannotated) :
      Documented p ((docChild? p.children).or p.toChild.comment) := by
    rw [docChild?_eq]
    cases element : p.docElements.getLast? with
    | some q => exact .element unannotated element
    | none =>
        have bare := List.getLast?_eq_none_iff.1 element
        cases found : p.toChild.comment with
        | some d => exact .comment unannotated bare (precedingComment_eq_some_iff.1 found)
        | none =>
            refine .nothing unannotated bare fun d before => ?_
            rw [Placed.toChild, precedingComment_eq_some_iff.2 before] at found
            exact nomatch found
  rw [resolveDoc, last, Option.or_assoc]
  cases kept : p.docAnnotations.getLast? with
  | none => exact others fun q own => by rw [kept] at own; exact nomatch own
  | some q =>
      cases filled : Text.allBlank q.value with
      | false =>
          simp only [Option.map_some, Option.bind_some, docNote, filled]
          exact .annotated kept filled
      | true =>
          simp only [Option.map_some, Option.bind_some, docNote, filled]
          refine others fun r own => ?_
          rw [kept] at own
          rwa [← Option.some_inj.1 own]

end Noted

end ApiDrift.Introspection
