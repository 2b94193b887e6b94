import ApiDrift.Policy
import ApiDrift.Proofs.Change.Sites
import ApiDrift.Proofs.Introspection.Parse
import ApiDrift.Proofs.Text.Blank
/-! Codes as the names of changes in a policy. Every code that a comparison gives stands for a
transition, and those that have a spelling are the transitions between known values. Announcing
changed values is the one attribute that documents may give any value at all. -/
namespace ApiDrift
open Compare

namespace ChangeCode

/-- Values that a code names are different ones. -/
def IsTransition : ChangeCode → Prop
  | argumentDirection old new => old ≠ new
  | propertyAccess old new => old ≠ new
  | emitsChanged old new => old ≠ new
  | _ => True

/-- Ways of announcing changed values that a code names are known ones. -/
def Known : ChangeCode → Prop
  | emitsChanged old new => old ∈ emitsValues ∧ new ∈ emitsValues
  | _ => True

theorem OfAttribute.isTransition {code : ChangeCode} {old new : Option String}
    (own : code.OfAttribute old new) (differ : old ≠ new) : code.IsTransition := by
  cases code with
  | argumentDirection x y =>
      rintro rfl
      exact differ (own.1.trans own.2.symm)
  | propertyAccess x y =>
      rintro rfl
      exact differ (own.1.trans own.2.symm)
  | emitsChanged x y =>
      rintro rfl
      exact differ (own.1.trans own.2.symm)
  | _ => trivial

theorem mem_pairs_iff {α : Type} [DecidableEq α] {l : List α} {a b : α} :
    (a, b) ∈ pairs l ↔ a ∈ l ∧ b ∈ l ∧ b ≠ a := by
  simp [pairs]

theorem mem_all_of_known {c : ChangeCode} (transition : c.IsTransition) (known : c.Known) :
    c ∈ all := by
  cases c with
  | added k => cases k <;> decide
  | removed k => cases k <;> decide
  | argumentDirection old new =>
      cases old <;> cases new <;> first | exact absurd rfl transition | decide
  | propertyAccess old new =>
      cases old <;> cases new <;> first | exact absurd rfl transition | decide
  | emitsChanged old new =>
      have pair : (old, new) ∈ pairs emitsValues :=
        mem_pairs_iff.2 ⟨known.1, known.2, Ne.symm transition⟩
      exact List.mem_append_right _ (List.mem_map.2 ⟨_, pair, rfl⟩)
  | _ => decide

theorem ofText?_text_of_mem_all : ∀ c ∈ all, ofText? c.text = some c := by decide +kernel

theorem splitHyphen?_eq_some {l : List Char} {x y : String}
    (h : splitHyphen? l = some (x, y)) : l = x.toList ++ '-' :: y.toList := by
  unfold splitHyphen? at h
  have first := List.head?_dropWhile_not (fun c : Char => c != '-') l
  have whole := List.takeWhile_append_dropWhile (p := fun c : Char => c != '-') (l := l)
  split at h
  · cases h
  · next c new rest =>
    obtain ⟨rfl, rfl⟩ := Prod.mk.inj (Option.some_inj.1 h)
    rw [rest] at first whole
    obtain rfl : c = '-' := by simpa using first
    rw [String.toList_ofList, String.toList_ofList, whole]

theorem exists_of_transition? {α : Type} [DecidableEq α] {read : String → Option α}
    {make : α → α → ChangeCode} {l : List Char} {c : ChangeCode}
    (h : transition? read make l = some c) :
    ∃ x y old new, l = x.toList ++ '-' :: y.toList ∧ read x = some old ∧ read y = some new ∧
      old ≠ new ∧ c = make old new := by
  unfold transition? at h
  obtain ⟨⟨x, y⟩, cut, h⟩ := Option.bind_eq_some_iff.1 h
  obtain ⟨old, readOld, h⟩ := Option.bind_eq_some_iff.1 h
  obtain ⟨new, readNew, h⟩ := Option.bind_eq_some_iff.1 h
  obtain ⟨differ, made⟩ := Option.ite_none_left_eq_some.1 h
  exact ⟨x, y, old, new, splitHyphen?_eq_some cut, readOld, readNew, differ,
    (Option.some_inj.1 made).symm⟩

/-- The ways in which a text is read as a code: it is a simple one's, or it names a transition under
one of three headings. -/
theorem ofText?_cases {s : String} {c : ChangeCode} (h : ofText? s = some c) :
    (c ∈ simple ∧ c.text = s) ∨
    (∃ rest, s.toList = directionHeading.toList ++ rest ∧
      transition? Direction.ofText? argumentDirection rest = some c) ∨
    (∃ rest, s.toList = accessHeading.toList ++ rest ∧
      transition? Access.ofText? propertyAccess rest = some c) ∨
    ∃ rest, s.toList = emitsHeading.toList ++ rest ∧
      transition? (fun v => if v ∈ emitsValues then some v else none) emitsChanged rest =
        some c := by
  unfold ofText? at h
  split at h
  · next found =>
    obtain rfl := Option.some_inj.1 h
    exact .inl ⟨List.mem_of_find?_eq_some found, by simpa using List.find?_some found⟩
  · dsimp only at h
    cases direction : Text.afterChars? directionHeading.toList s.toList with
    | some rest =>
        rw [direction] at h
        exact .inr (.inl ⟨rest, Text.afterChars?_eq_some.1 direction, h⟩)
    | none =>
        cases access : Text.afterChars? accessHeading.toList s.toList with
        | some rest =>
            rw [direction, access] at h
            exact .inr (.inr (.inl ⟨rest, Text.afterChars?_eq_some.1 access, h⟩))
        | none =>
            cases emits : Text.afterChars? emitsHeading.toList s.toList with
            | some rest =>
                rw [direction, access, emits] at h
                exact .inr (.inr (.inr ⟨rest, Text.afterChars?_eq_some.1 emits, h⟩))
            | none =>
                rw [direction, access, emits] at h
                exact nomatch h

theorem known_of_mem_simple {c : ChangeCode} (h : c ∈ simple) : c.Known := by
  cases c with
  | emitsChanged old new => simp [simple] at h
  | _ => trivial

theorem known_of_ofText? {s : String} {c : ChangeCode} (h : ofText? s = some c) : c.Known := by
  obtain ⟨listed, -⟩ | ⟨rest, -, h⟩ | ⟨rest, -, h⟩ | ⟨rest, -, h⟩ := ofText?_cases h
  · exact known_of_mem_simple listed
  · obtain ⟨_, _, old, new, -, -, -, -, rfl⟩ := exists_of_transition? h
    trivial
  · obtain ⟨_, _, old, new, -, -, -, -, rfl⟩ := exists_of_transition? h
    trivial
  · obtain ⟨x, y, old, new, -, readOld, readNew, -, rfl⟩ := exists_of_transition? h
    obtain ⟨knownOld, sameOld⟩ := Option.ite_none_right_eq_some.1 readOld
    obtain ⟨knownNew, sameNew⟩ := Option.ite_none_right_eq_some.1 readNew
    exact ⟨Option.some_inj.1 sameOld ▸ knownOld, Option.some_inj.1 sameNew ▸ knownNew⟩

theorem text_ne_allEntry : ∀ c ∈ all, c.text ≠ allEntry := by decide +kernel

theorem isWordChar_of_mem_all : ∀ c ∈ all, c.text.toList.all Text.isWordChar := by decide +kernel

theorem entries_text {c : ChangeCode} (h : c ∈ all) : WarningList.entries c.text = [c.text] := by
  have word := List.all_eq_true.1 (isWordChar_of_mem_all c h)
  have single : ',' ∉ c.text.toList := fun comma => absurd (word ',' comma) (by decide)
  have whole : Text.trim c.text = c.text :=
    Text.trim_eq_self fun ch hch => Text.not_isBlank_of_isWordChar (word ch hch)
  have some : c.text ≠ "" := by
    intro none
    have read := ofText?_text_of_mem_all c h
    rw [none] at read
    exact nomatch read
  rw [WarningList.entries, Text.split_eq_singleton single, List.map_singleton, whole]
  exact List.filter_eq_self.2 (List.forall_mem_singleton.2 (decide_eq_true some))

theorem parse_text_of_mem_all {c : ChangeCode} (h : c ∈ all) :
    WarningList.parse c.text = .ok (NameSet.add .empty c.text) := by
  have known : WarningList.isKnown c.text = true := by
    rw [WarningList.isKnown, ofText?_text_of_mem_all c h, Option.isSome_some, Bool.or_true]
  rw [WarningList.parse, entries_text h, WarningList.addEntries, if_neg (text_ne_allEntry c h),
    if_pos known]
  rfl

end ChangeCode

namespace NameSet

theorem contains_add_empty (name : String) : (add .empty name).contains name = true := by
  rw [Table.contains, add, Table.get?_insert, if_pos rfl, Option.isSome_some]

end NameSet

namespace Policy

/-- Whatever else a policy says, the names decide about the change: they report it, they suppress it
and they make it fatal. -/
structure Governs (names : NameSet) (c : Change) : Prop where
  enables : ∀ p : Policy, { p with enabled := names, disabled := .empty }.isEnabled c = true
  disables : ∀ p : Policy, { p with disabled := names }.isEnabled c = false
  condemns : ∀ p : Policy, { p with fatal := names }.isFatal c = true

theorem governs_of_contains {names : NameSet} {c : Change}
    (h : names.contains c.code.text = true) : Governs names c := by
  constructor
  · intro p
    have free : Table.contains (.empty : NameSet) c.code.text = false := rfl
    simp only [isEnabled, h, free, Bool.not_false, Bool.and_self, Bool.or_true]
  · intro p
    simp only [isEnabled, h, Bool.not_true, Bool.and_false, Bool.or_self]
  · intro p
    simp only [isFatal, h, Bool.or_true]

end Policy

namespace Compare

theorem isTransition_compareAnnotations {s : Subject} {old new : Annotations} :
    ∀ c ∈ compareAnnotations s old new, c.code.IsTransition := by
  simp only [compareAnnotations, List.forall_mem_append, List.forall_mem_flatMap]
  refine ⟨⟨⟨⟨forall_mem_unless ?_, forall_mem_unless trivial⟩, forall_mem_unless ?_⟩, ?_⟩, ?_⟩
  · show ChangeCode.IsTransition (if _ then _ else _)
    split <;> trivial
  · show ChangeCode.IsTransition (if _ then _ else _)
    split <;> trivial
  · intro a _
    unfold compareGeneric
    split
    · exact List.forall_mem_singleton.2 trivial
    · exact forall_mem_unless trivial
  · intro a _
    exact forall_mem_unless trivial

end Compare

namespace Site
variable {s : Site} {c : Change}

theorem Finds.isTransition (h : s.Finds c) : c.code.IsTransition := by
  cases h with
  | element => trivial
  | argument => trivial
  | altered differ own => exact own.isTransition differ
  | annotations h => exact Compare.isTransition_compareAnnotations c h
  | doc h =>
      obtain ⟨-, rfl⟩ := mem_unless_iff.1 h
      trivial

theorem Loses.isTransition (h : s.Loses c) : c.code.IsTransition := by
  cases h <;> trivial

end Site

theorem isTransition_of_mem_compare {a b : Node} {c : Change} (directed : b.WellDirected)
    (h : c ∈ compare a b) : c.code.IsTransition := by
  rcases exists_site_of_mem_compare directed h with ⟨s, -, found⟩ | ⟨s, -, lost⟩
  · exact found.isTransition
  · exact lost.isTransition

/-- The code of a change that leads to a document can be named in policies, and decides there about
the change, just if the ways of announcing that the code names are known ones. -/
theorem parsed_code_nameable_iff {options : Introspection.Options} {bytes : List UInt8}
    {b : Introspection.Parsed} (read : Introspection.parseBytes options bytes = .ok b) {a : Node}
    {c : Change} (h : c ∈ compare a b.root) :
    (c.code.text ∈ ChangeCode.all.map ChangeCode.text ∧
      ChangeCode.ofText? c.code.text = some c.code ∧
      ∃ names, WarningList.parse c.code.text = .ok names ∧ Policy.Governs names c) ↔
    ∀ old new, c.code = .emitsChanged old new →
      old ∈ ChangeCode.emitsValues ∧ new ∈ ChangeCode.emitsValues := by
  constructor
  · rintro ⟨-, readBack, -⟩ old new same
    have known := ChangeCode.known_of_ofText? readBack
    rwa [same] at known
  · intro values
    have known : c.code.Known := by
      cases code : c.code with
      | emitsChanged old new => exact values old new code
      | _ => trivial
    have directed := (Introspection.trusted_of_parseBytes read).root.wellDirected
    have listed := ChangeCode.mem_all_of_known (isTransition_of_mem_compare directed h) known
    exact ⟨List.mem_map_of_mem listed, ChangeCode.ofText?_text_of_mem_all _ listed, _,
      ChangeCode.parse_text_of_mem_all listed,
      Policy.governs_of_contains (NameSet.contains_add_empty _)⟩

/-- A counter that announces changed values in this way. -/
def counterAnnouncing (value : String) : List UInt8 :=
  Text.Utf8.encode ("<node><interface name='o.Counter'><annotation name='"
    ++ AnnotationName.emitsChanged ++ "' value='" ++ value ++ "'/></interface></node>").toList

theorem counter_announcement_named :
    ∃ a b c, Introspection.parseBytes {} (counterAnnouncing "const") = .ok a ∧
      Introspection.parseBytes {} (counterAnnouncing "false") = .ok b ∧
      c ∈ compare a.root b.root ∧ c.code = .emitsChanged "const" "false" ∧
      c.code.text ∈ ChangeCode.all.map ChangeCode.text ∧
      ChangeCode.ofText? c.code.text = some c.code ∧
      ∃ names, WarningList.parse c.code.text = .ok names ∧ Policy.Governs names c := by
  have found : Introspection.holdsOfBoth
      (fun a b => (compare a b).any fun c => c.code == .emitsChanged "const" "false")
      (counterAnnouncing "const") (counterAnnouncing "false") = some true := by decide +kernel
  obtain ⟨a, b, readFirst, readSecond, some⟩ := Introspection.of_holdsOfBoth found
  obtain ⟨c, hc, code⟩ := List.any_eq_true.1 some
  have same := eq_of_beq code
  refine ⟨a, b, c, readFirst, readSecond, hc, same, (parsed_code_nameable_iff readSecond hc).2 ?_⟩
  intro old new eq
  rw [same] at eq
  obtain ⟨rfl, rfl⟩ := ChangeCode.emitsChanged.inj eq
  decide

/-- Documents may announce changed values as no policy can name it. -/
theorem unknown_announcement_unnamed :
    ∃ a b c, Introspection.parseBytes {} (counterAnnouncing "true") = .ok a ∧
      Introspection.parseBytes {} (counterAnnouncing "maybe") = .ok b ∧
      c ∈ compare a.root b.root ∧ c.code.text = "ecs-changed-true-maybe" ∧
      c.code.text ∉ ChangeCode.all.map ChangeCode.text ∧
      ChangeCode.ofText? c.code.text = none ∧
      WarningList.parse c.code.text = .error ⟨"ecs-changed-true-maybe"⟩ := by
  have found : Introspection.holdsOfBoth
      (fun a b => (compare a b).any fun c => c.code.text == "ecs-changed-true-maybe")
      (counterAnnouncing "true") (counterAnnouncing "maybe") = some true := by decide +kernel
  obtain ⟨a, b, readFirst, readSecond, some⟩ := Introspection.of_holdsOfBoth found
  obtain ⟨c, hc, code⟩ := List.any_eq_true.1 some
  have same := eq_of_beq code
  refine ⟨a, b, c, readFirst, readSecond, hc, same, ?_⟩
  rw [same]
  exact ⟨by decide +kernel, by decide +kernel, rfl⟩

end ApiDrift
