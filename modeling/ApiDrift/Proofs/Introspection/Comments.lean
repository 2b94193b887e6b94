import ApiDrift.Introspection.Children
import Mathlib.Data.List.Induction
/-! The comment that belongs to an element. Going forward through the siblings and searching back
from the element find the same one. -/
namespace ApiDrift.Introspection

/-- A documentation is that of the last comment of a list after which only blank text comes. -/
def EndsWithComment (before : List Xml.Node) (d : Documentation) : Prop :=
  ∃ earlier text place blank, before = earlier ++ .comment text place :: blank ∧
    (∀ n ∈ blank, ∃ s, n = .text s ∧ Text.allBlank s = true) ∧ d = commentDoc text place

theorem isBlankText_iff {n : Xml.Node} :
    isBlankText n = true ↔ ∃ s, n = .text s ∧ Text.allBlank s = true := by
  cases n with
  | text s => simp [isBlankText]
  | element head children => simp [isBlankText]
  | comment text place => simp [isBlankText]
  | instruction => simp [isBlankText]

theorem not_endsWithComment_nil {d : Documentation} : ¬EndsWithComment [] d := by
  rintro ⟨earlier, text, place, blank, shape, -⟩
  simp at shape

theorem precedingComment_cons (n : Xml.Node) (before : List Xml.Node) :
    precedingComment (n :: before) = pendingAfter (precedingComment before) n := by
  cases n <;> rfl

theorem foldl_pendingAfter (before : List Xml.Node) :
    before.foldl pendingAfter none = precedingComment before.reverse := by
  induction before using List.reverseRecOn with
  | nil => rfl
  | append_singleton before n ih =>
      rw [List.foldl_append, ih, List.reverse_concat, precedingComment_cons]
      rfl

theorem endsWithComment_concat_iff {before : List Xml.Node} {n : Xml.Node} {d : Documentation} :
    EndsWithComment (before ++ [n]) d ↔
      (∃ text place, n = .comment text place ∧ d = commentDoc text place) ∨
        (isBlankText n = true ∧ EndsWithComment before d) := by
  constructor
  · rintro ⟨earlier, text, place, blank, shape, only, rfl⟩
    induction blank using List.reverseRecOn with
    | nil =>
        obtain ⟨-, same⟩ := List.append_inj' shape rfl
        exact .inl ⟨text, place, List.head_eq_of_cons_eq same, rfl⟩
    | append_singleton blank m _ =>
        rw [← List.cons_append, ← List.append_assoc] at shape
        obtain ⟨shorter, same⟩ := List.append_inj' shape rfl
        obtain rfl := List.head_eq_of_cons_eq same
        obtain ⟨others, last⟩ := List.forall_mem_append.1 only
        refine .inr ⟨isBlankText_iff.2 (last n (List.mem_singleton.2 rfl)), ?_⟩
        exact ⟨earlier, text, place, blank, shorter, others, rfl⟩
  · rintro (⟨text, place, rfl, rfl⟩ | ⟨blank, earlier, text, place, between, rfl, only, rfl⟩)
    · exact ⟨before, text, place, [], rfl, nofun, rfl⟩
    · refine ⟨earlier, text, place, between ++ [n], by simp, ?_, rfl⟩
      exact List.forall_mem_append.2 ⟨only, List.forall_mem_singleton.2 (isBlankText_iff.1 blank)⟩

theorem pendingAfter_eq_some_iff {pending : Option Documentation} {n : Xml.Node}
    {d : Documentation} :
    pendingAfter pending n = some d ↔
      (∃ text place, n = .comment text place ∧ d = commentDoc text place) ∨
        (isBlankText n = true ∧ pending = some d) := by
  cases n with
  | comment text place =>
      rw [pendingAfter, Option.some_inj, or_iff_left (fun blank => nomatch blank.1)]
      constructor
      · rintro rfl
        exact ⟨text, place, rfl, rfl⟩
      · rintro ⟨text', place', same, rfl⟩
        obtain ⟨rfl, rfl⟩ := Xml.Node.comment.inj same
        rfl
  | text s => simp [pendingAfter]
  | element head children => simp [pendingAfter, isBlankText]
  | instruction => simp [pendingAfter, isBlankText]

theorem precedingComment_eq_some_iff {before : List Xml.Node} {d : Documentation} :
    precedingComment before.reverse = some d ↔ EndsWithComment before d := by
  induction before using List.reverseRecOn with
  | nil => exact iff_of_false nofun not_endsWithComment_nil
  | append_singleton before n ih =>
      rw [List.reverse_concat, precedingComment_cons, pendingAfter_eq_some_iff, ih,
        endsWithComment_concat_iff]

theorem acceptedChildren_append (names : List String) (pending : Option Documentation)
    (l more : List Xml.Node) :
    acceptedChildren names pending (l ++ more) =
      acceptedChildren names pending l ++
        acceptedChildren names (l.foldl pendingAfter pending) more := by
  induction l generalizing pending with
  | nil => rfl
  | cons n l ih =>
      simp only [List.cons_append, acceptedChildren, List.foldl_cons, ih]
      cases n with
      | element head children =>
          dsimp only
          split
          · rfl
          · rfl
      | text s => rfl
      | comment text place => rfl
      | instruction => rfl

/-- Each accepted element is taken with the comment that the search back from it finds: the nearest
earlier one, if only blank text lies between. -/
theorem accepted_comment_precedes {names : List String} {head : Xml.Element}
    (accepted : isAccepted names head = true) (before children after : List Xml.Node) :
    acceptedChildren names none (before ++ .element head children :: after) =
        acceptedChildren names none before ++
          ⟨head, children, precedingComment before.reverse⟩ :: acceptedChildren names none after ∧
      ∀ d, precedingComment before.reverse = some d ↔ EndsWithComment before d := by
  refine ⟨?_, fun d => precedingComment_eq_some_iff⟩
  rw [acceptedChildren_append, foldl_pendingAfter]
  congr 1
  simp only [acceptedChildren, if_pos accepted]
  rfl

/-- What stands before a method: a comment, an element that is not known, another comment, and the
end of its line. -/
def beforeRing : List Xml.Node :=
  [.comment "Sounds." ⟨2, 3⟩, .element { base := "sound" } [], .comment "Rings." ⟨4, 3⟩, .text "\n  "]

theorem ring_comment_precedes :
    isAccepted ["method"] { base := "method" } = true ∧
      acceptedChildren ["method"] none (beforeRing ++ [.element { base := "method" } []]) =
        [⟨{ base := "method" }, [], some (commentDoc "Rings." ⟨4, 3⟩)⟩] ∧
      EndsWithComment beforeRing (commentDoc "Rings." ⟨4, 3⟩) := by
  have accepted : isAccepted ["method"] { base := "method" } = true := by decide
  have found : precedingComment beforeRing.reverse = some (commentDoc "Rings." ⟨4, 3⟩) := by
    decide +kernel
  obtain ⟨taken, searched⟩ := accepted_comment_precedes accepted beforeRing [] []
  refine ⟨accepted, ?_, (searched _).1 found⟩
  rw [taken, found]
  rfl

end ApiDrift.Introspection
