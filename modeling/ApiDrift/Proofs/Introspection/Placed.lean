import ApiDrift.Proofs.Introspection.Clean
import ApiDrift.Proofs.Introspection.Comments
/-! Elements in their places among their siblings, and children taken in one by one in their
order. -/
namespace ApiDrift.Introspection

section Notions

/-- An element with its children and its earlier siblings. -/
structure Placed where
  before : List Xml.Node
  head : Xml.Element
  children : List Xml.Node

/-- The elements among siblings that come after others, in document order. -/
def placedAfter (before : List Xml.Node) : List Xml.Node → List Placed
  | [] => []
  | n :: rest =>
    let later := placedAfter (before ++ [n]) rest
    match n with
    | .element head children => ⟨before, head, children⟩ :: later
    | _ => later

mutual

/-- The element after these siblings, if it is one, and all elements in it, in document order. -/
def placedAt (before : List Xml.Node) : Xml.Node → List Placed
  | .element head children => ⟨before, head, children⟩ :: placedAmong [] children
  | _ => []

def placedAmong (before : List Xml.Node) : List Xml.Node → List Placed
  | [] => []
  | n :: rest => placedAt before n ++ placedAmong (before ++ [n]) rest

end

namespace Placed

def name? (p : Placed) : Option String := p.head.attribute? "name"

/-- The child elements of this name and of no namespace. -/
def inside (p : Placed) (base : String) : List Placed :=
  (placedAfter [] p.children).filter fun q => q.head.isPlain base

/-- Whether an earlier sibling is of the same kind and has the same name, or as well none. -/
def hasNamesake (p : Placed) : Bool :=
  (placedAfter [] p.before).any fun q => q.head.isPlain p.head.base && q.name? == p.name?

/-- Of the child elements of a kind the first of each name. -/
def firsts (p : Placed) (base : String) : List Placed :=
  (p.inside base).filter fun q => q.name?.isSome && !q.hasNamesake

/-- Of the child elements of a kind those after the first of their name. -/
def repeats (p : Placed) (base : String) : List Placed :=
  (p.inside base).filter fun q => q.name?.isSome && q.hasNamesake

/-- The element with the comment directly before it. -/
def toChild (p : Placed) : Child := ⟨p.head, p.children, precedingComment p.before.reverse⟩

end Placed

/-- The element that a document describes: the first plain `node` in its document element, or that
element itself. -/
def describedElement? (d : Xml.Document) : Option Placed :=
  (placedAfter [] d.children).head?.bind fun root =>
    (root :: placedAmong [] root.children).find? fun p => p.head.isPlain "node"

end Notions

section Siblings

theorem placedAfter_append (before l more : List Xml.Node) :
    placedAfter before (l ++ more) = placedAfter before l ++ placedAfter (before ++ l) more := by
  induction l generalizing before with
  | nil => rw [List.append_nil]; rfl
  | cons n rest ih =>
      have later := ih (before ++ [n])
      rw [List.append_assoc, List.singleton_append] at later
      simp only [List.cons_append, placedAfter, later]
      cases n <;> rfl

theorem shape_of_mem_placedAfter {before l : List Xml.Node} {p : Placed}
    (h : p ∈ placedAfter before l) :
    ∃ between after, l = between ++ .element p.head p.children :: after ∧
      p.before = before ++ between := by
  induction l generalizing before with
  | nil => exact absurd h List.not_mem_nil
  | cons n rest ih =>
      have later (h : p ∈ placedAfter (before ++ [n]) rest) : ∃ between after,
          n :: rest = between ++ .element p.head p.children :: after ∧
            p.before = before ++ between := by
        obtain ⟨between, after, rfl, place⟩ := ih h
        exact ⟨n :: between, after, rfl, by rw [place, List.append_assoc]; rfl⟩
      cases n with
      | element head children =>
          obtain rfl | h := List.mem_cons.1 h
          · exact ⟨[], rest, rfl, (List.append_nil _).symm⟩
          · exact later h
      | text s => exact later h
      | comment s location => exact later h
      | instruction => exact later h

theorem mem_of_mem_placedAfter {before l : List Xml.Node} {p : Placed}
    (h : p ∈ placedAfter before l) : .element p.head p.children ∈ l := by
  obtain ⟨between, after, rfl, -⟩ := shape_of_mem_placedAfter h
  exact List.mem_append_right between (.head after)

theorem isPlain_iff {head : Xml.Element} {base : String} :
    head.isPlain base = true ↔ head.uri = none ∧ head.base = base := by
  rw [Xml.Element.isPlain, Bool.and_eq_true, Option.isNone_iff_eq_none, beq_iff_eq]

theorem isPlain_base_iff {head other : Xml.Element} {base : String}
    (plain : head.isPlain base = true) :
    other.isPlain head.base = true ↔ other.isPlain base = true := by
  rw [(isPlain_iff.1 plain).2]

end Siblings

section Taken
variable {names : List String}

/-- The elements among siblings that are part of a description. -/
def acceptedPlaces (names : List String) (l : List Xml.Node) : List Placed :=
  (placedAfter [] l).filter fun p => isAccepted names p.head

theorem inside_eq_filter {base : String} (known : base ∈ names) (p : Placed) :
    p.inside base = (acceptedPlaces names p.children).filter fun q => q.head.isPlain base := by
  rw [Placed.inside, acceptedPlaces, List.filter_filter]
  refine List.filter_congr fun q _ => ?_
  rw [Bool.eq_iff_iff, Bool.and_eq_true, iff_self_and]
  intro plain
  obtain ⟨uri, rfl⟩ := isPlain_iff.1 plain
  exact isAccepted_iff.2 ⟨uri, known⟩

/-- Each part of a description is taken with the comment that the search back from it finds. -/
theorem acceptedChildren_eq_map (before l : List Xml.Node) :
    acceptedChildren names (precedingComment before.reverse) l =
      ((placedAfter before l).filter fun p => isAccepted names p.head).map Placed.toChild := by
  induction l generalizing before with
  | nil => rfl
  | cons n rest ih =>
      have later : acceptedChildren names (pendingAfter (precedingComment before.reverse) n) rest =
          ((placedAfter (before ++ [n]) rest).filter fun p => isAccepted names p.head).map
            Placed.toChild := by
        rw [← precedingComment_cons, ← List.reverse_concat, ih]
      simp only [acceptedChildren, placedAfter, later]
      cases n with
      | element head children =>
          dsimp only
          rw [List.filter_cons]
          split
          · rfl
          · rfl
      | text s => rfl
      | comment s location => rfl
      | instruction => rfl

variable {σ : Type} {step : σ → Child → Logged σ}

theorem foldlM_concat (s : σ) (l : List Child) (c : Child) :
    (l ++ [c]).foldlM step s = l.foldlM step s >>= fun t => step t c := by
  induction l generalizing s with
  | nil =>
      show (⟨_, (step s c).log ++ []⟩ : Logged σ) = ⟨_, [] ++ (step s c).log⟩
      rw [List.append_nil]
      rfl
  | cons first rest ih =>
      rw [List.cons_append, List.foldlM_cons, List.foldlM_cons, Logged.bind_assoc]
      simp only [ih]

theorem acceptedPlaces_concat (earlier : List Xml.Node) (n : Xml.Node) :
    acceptedPlaces names (earlier ++ [n]) = acceptedPlaces names earlier ++
      (placedAfter earlier [n]).filter fun p => isAccepted names p.head := by
  rw [acceptedPlaces, placedAfter_append, List.filter_append, List.nil_append]
  rfl

/-- What holds before any child is taken in, and goes on to hold with each one more, holds when all
are. -/
theorem taken_induction {I : List Placed → Logged σ → Prop} {s : σ} {children : List Xml.Node}
    (start : I [] (pure s))
    (taken : ∀ q x, .element q.head q.children ∈ children → isAccepted names q.head = true →
      I (acceptedPlaces names q.before) x →
        I (acceptedPlaces names q.before ++ [q]) (x >>= fun t => step t q.toChild)) :
    I (acceptedPlaces names children)
      ((acceptedChildren names none children).foldlM step s) := by
  show I _ ((acceptedChildren names (precedingComment ([] : List Xml.Node).reverse)
    children).foldlM step s)
  rw [acceptedChildren_eq_map]
  change I _ (((acceptedPlaces names children).map Placed.toChild).foldlM step s)
  induction children using List.reverseRecOn with
  | nil => exact start
  | append_singleton earlier n ih =>
      replace ih := ih fun q x h => taken q x (List.mem_append_left _ h)
      rw [acceptedPlaces_concat]
      cases n with
      | element head children =>
          by_cases accepted : isAccepted names head = true
          · have own := taken ⟨earlier, head, children⟩ _ (by simp) accepted ih
            simp only [placedAfter, List.filter_cons, accepted, if_true, List.filter_nil,
              List.map_append, List.map_singleton, foldlM_concat]
            exact own
          · simpa only [placedAfter, List.filter_cons, accepted, List.filter_nil,
              List.append_nil, Bool.false_eq_true, if_false] using ih
      | text s => simpa only [placedAfter, List.filter_nil, List.append_nil] using ih
      | comment s location => simpa only [placedAfter, List.filter_nil, List.append_nil] using ih
      | instruction => simpa only [placedAfter, List.filter_nil, List.append_nil] using ih

end Taken

section Names
variable {names : List String}

/-- Of elements those of a kind, each the first of its name. -/
def firstsAmong (base : String) (l : List Placed) : List Placed :=
  l.filter fun q => q.head.isPlain base && (q.name?.isSome && !q.hasNamesake)

def repeatsAmong (base : String) (l : List Placed) : List Placed :=
  l.filter fun q => q.head.isPlain base && (q.name?.isSome && q.hasNamesake)

theorem firsts_eq {base : String} (known : base ∈ names) (p : Placed) :
    p.firsts base = firstsAmong base (acceptedPlaces names p.children) := by
  rw [Placed.firsts, inside_eq_filter known, List.filter_filter, firstsAmong]
  exact List.filter_congr fun q _ => Bool.and_comm ..

theorem repeats_eq {base : String} (known : base ∈ names) (p : Placed) :
    p.repeats base = repeatsAmong base (acceptedPlaces names p.children) := by
  rw [Placed.repeats, inside_eq_filter known, List.filter_filter, repeatsAmong]
  exact List.filter_congr fun q _ => Bool.and_comm ..

theorem firstsAmong_concat (base : String) (l : List Placed) (q : Placed) :
    firstsAmong base (l ++ [q]) = firstsAmong base l ++ firstsAmong base [q] :=
  List.filter_append ..

theorem firstsAmong_other {base : String} {q : Placed} (other : q.head.base ≠ base) :
    firstsAmong base [q] = [] := by
  refine List.filter_eq_nil_iff.2 fun e he first => ?_
  obtain rfl := List.mem_singleton.1 he
  exact other (isPlain_iff.1 (Bool.and_eq_true_iff.1 first).1).2

theorem repeatsAmong_other {base : String} {q : Placed} (other : q.head.base ≠ base) :
    repeatsAmong base [q] = [] := by
  refine List.filter_eq_nil_iff.2 fun e he first => ?_
  obtain rfl := List.mem_singleton.1 he
  exact other (isPlain_iff.1 (Bool.and_eq_true_iff.1 first).1).2

theorem firstsAmong_own {base name : String} {q : Placed} (plain : q.head.isPlain base = true)
    (named : q.name? = some name) :
    firstsAmong base [q] = if q.hasNamesake then [] else [q] := by
  rw [firstsAmong, List.filter_cons, plain, named]
  cases q.hasNamesake <;> rfl

theorem repeatsAmong_own {base name : String} {q : Placed} (plain : q.head.isPlain base = true)
    (named : q.name? = some name) :
    repeatsAmong base [q] = if q.hasNamesake then [q] else [] := by
  rw [repeatsAmong, List.filter_cons, plain, named]
  cases q.hasNamesake <;> rfl

theorem hasNamesake_iff {base : String} {p : Placed} (plain : p.head.isPlain base = true) :
    p.hasNamesake = true ↔
      ∃ q ∈ placedAfter [] p.before, q.head.isPlain base = true ∧ q.name? = p.name? := by
  rw [Placed.hasNamesake, List.any_eq_true]
  refine exists_congr fun q => and_congr_right fun _ => ?_
  rw [Bool.and_eq_true, isPlain_base_iff plain, beq_iff_eq]

theorem mem_names_firstsAmong_iff {base name : String} (known : base ∈ names) (l : List Xml.Node) :
    some name ∈ (firstsAmong base (acceptedPlaces names l)).map Placed.name? ↔
      ∃ q ∈ placedAfter [] l, q.head.isPlain base = true ∧ q.name? = some name := by
  induction l using List.reverseRecOn with
  | nil => exact iff_of_false List.not_mem_nil fun ⟨_, h, _⟩ => absurd h List.not_mem_nil
  | append_singleton earlier n ih =>
      rw [acceptedPlaces_concat, placedAfter_append, List.nil_append, firstsAmong, List.filter_append,
        List.map_append, List.mem_append]
      change some name ∈ (firstsAmong base (acceptedPlaces names earlier)).map Placed.name? ∨ _ ↔ _
      rw [ih]
      simp only [List.mem_append, or_and_right, exists_or]
      refine or_congr_right' fun fresh => ?_
      simp only [List.filter_filter, List.mem_map, List.mem_filter, Bool.and_eq_true,
        Bool.not_eq_true']
      refine exists_congr fun q => ?_
      constructor
      · rintro ⟨⟨here, ⟨plain, -⟩, -⟩, named⟩
        exact ⟨here, plain, named⟩
      · rintro ⟨here, plain, named⟩
        obtain ⟨uri, own⟩ := isPlain_iff.1 plain
        refine ⟨⟨here, ⟨plain, by rw [named]; rfl, ?_⟩, isAccepted_iff.2 ⟨uri, own ▸ known⟩⟩, named⟩
        rw [← Bool.not_eq_true, hasNamesake_iff plain]
        obtain ⟨between, after, shape, place⟩ := shape_of_mem_placedAfter here
        obtain rfl : between = [] := by
          cases between with
          | nil => rfl
          | cons _ _ => simp at shape
        rintro ⟨other, among, kind, same⟩
        rw [place, List.append_nil] at among
        exact fresh ⟨other, among, kind, same.trans named⟩

/-- An element has an earlier namesake just when its name is known of the first ones before it. -/
theorem hasNamesake_iff_mem_names {base name : String} {p : Placed} (known : base ∈ names)
    (plain : p.head.isPlain base = true) (named : p.name? = some name) :
    p.hasNamesake = true ↔
      some name ∈ (firstsAmong base (acceptedPlaces names p.before)).map Placed.name? := by
  rw [hasNamesake_iff plain, mem_names_firstsAmong_iff known, named]

end Names

section Described

mutual

theorem findElement?_eq_find? (name : String) (before : List Xml.Node) (n : Xml.Node) :
    findElement? name before.reverse n =
      ((placedAt before n).find? fun p => p.head.isPlain name).map fun p =>
        (p.head, p.children, p.before.reverse) := by
  cases n with
  | element head children =>
      rw [findElement?, placedAt, List.find?_cons]
      cases head.isPlain name with
      | true => rfl
      | false => exact findAmong?_eq_find? name [] children
  | text s => rfl
  | comment s location => rfl
  | instruction => rfl

theorem findAmong?_eq_find? (name : String) (before l : List Xml.Node) :
    findAmong? name before.reverse l =
      ((placedAmong before l).find? fun p => p.head.isPlain name).map fun p =>
        (p.head, p.children, p.before.reverse) := by
  cases l with
  | nil => rfl
  | cons n rest =>
      have later := findAmong?_eq_find? name (before ++ [n]) rest
      rw [List.reverse_concat] at later
      rw [findAmong?, placedAmong, List.find?_append, Option.map_or,
        findElement?_eq_find? name before n, later]

end

theorem rootElement?_eq_head? (before l : List Xml.Node) :
    rootElement? before.reverse l =
      (placedAfter before l).head?.map fun p => (p.head, p.children, p.before.reverse) := by
  induction l generalizing before with
  | nil => rfl
  | cons n rest ih =>
      have later := ih (before ++ [n])
      rw [List.reverse_concat] at later
      cases n with
      | element head children => rfl
      | text s => exact later
      | comment s location => exact later
      | instruction => exact later

end Described

end ApiDrift.Introspection
