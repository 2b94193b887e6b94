import ApiDrift.Proofs.Introspection.Gather
/-! Attributes that are missing, or whose value means nothing, where nothing can be described
without them. All of them in a document are listed without regard to how it is read. Those are
told that no element without a name hides. -/
namespace ApiDrift.Introspection

section Notions

/-- What an element of a description describes. -/
inductive Part where
  | node | interface | callable | argument | property | annotation
deriving DecidableEq, Repr

namespace Part

/-- The names that elements may have inside, and what they describe there. -/
def contents : Part → List (String × Part)
  | node => [("interface", interface), ("node", node), ("annotation", annotation)]
  | interface => [("method", callable), ("signal", callable), ("property", property),
      ("annotation", annotation)]
  | callable => [("arg", argument), ("annotation", annotation)]
  | argument => [("annotation", annotation)]
  | property => [("annotation", annotation)]
  | annotation => []

def names (p : Part) : List String := p.contents.map Prod.fst

def inside? (p : Part) (base : String) : Option Part := p.contents.lookup base

/-- The attributes without which there is nothing to describe. -/
def required : Part → List String
  | node => []
  | interface => ["name"]
  | callable => ["name"]
  | argument => ["type"]
  | property => ["name", "type", "access"]
  | annotation => ["name"]

end Part

/-- A required attribute that an element has not, or whose value means nothing. The elements
around it are given without the document element, the nearest first. -/
structure Lapse where
  around : List Xml.Element
  head : Xml.Element
  attr : String

def hasUnknownAccess (head : Xml.Element) : Bool :=
  (head.attribute? "access").any fun value => value ∉ ["read", "write", "readwrite"]

/-- The attributes of an element that are missing, and then one that means nothing. -/
def lapsesAt (p : Part) (head : Xml.Element) : List String :=
  p.required.filter (fun attr => (head.attribute? attr).isNone) ++
    if p = .property ∧ hasUnknownAccess head then ["access"] else []

mutual

/-- The lapses of an element inside a part and of all that is in it, in document order. Elements
that do not belong there, or are of another vocabulary, are left out with all that is in them. -/
def lapses (p : Part) (around : List Xml.Element) : Xml.Node → List Lapse
  | .element head children =>
    if head.uri = none then
      match p.inside? head.base with
      | some q => (lapsesAt q head).map (Lapse.mk around head) ++
          lapsesAmong q (head :: around) children
      | none => []
    else []
  | _ => []

def lapsesAmong (p : Part) (around : List Xml.Element) : List Xml.Node → List Lapse
  | [] => []
  | n :: rest => lapses p around n ++ lapsesAmong p around rest

end

/-- The lapses of an element that describes this part, and of all that is in it. -/
def lapsesOf (p : Part) (around : List Xml.Element) (head : Xml.Element)
    (children : List Xml.Node) : List Lapse :=
  (lapsesAt p head).map (Lapse.mk around head) ++ lapsesAmong p (head :: around) children

/-- Whether a reading goes into an element: an argument needs no name for it. -/
def isEntered (head : Xml.Element) : Bool :=
  head.base == "arg" || (head.attribute? "name").isSome

/-- Whether a reading comes to a lapse. It looks at the value of an attribute only where the
element has a name. -/
def Lapse.isTold (l : Lapse) : Bool :=
  l.around.all isEntered &&
    ((l.head.attribute? l.attr).isNone || (l.head.attribute? "name").isSome)

def Lapse.problem (l : Lapse) : Problem :=
  match l.head.attribute? l.attr with
  | none => .missingAttribute l.attr l.head.base
  | some value =>
    .invalidAccess value ((l.around.head?.bind fun e => e.attribute? "name").getD "")
      ((l.head.attribute? "name").getD "")

def Lapse.finding (l : Lapse) : Finding := ⟨l.problem, l.head.location⟩

/-- What is said of the lapses that a reading comes to. -/
def tellings (ls : List Lapse) : List Finding := (ls.filter Lapse.isTold).map Lapse.finding

theorem tellings_append (ls more : List Lapse) :
    tellings (ls ++ more) = tellings ls ++ tellings more := by
  rw [tellings, List.filter_append, List.map_append, tellings, tellings]

theorem isFatal_finding (l : Lapse) : l.finding.isFatal = true := by
  unfold Lapse.finding Lapse.problem Finding.isFatal
  cases l.head.attribute? l.attr with
  | none => rfl
  | some value => rfl

end Notions

section Hidden

mutual

theorem suffix_of_mem_lapses {p : Part} {around : List Xml.Element} {l : Lapse} (n : Xml.Node)
    (h : l ∈ lapses p around n) : around <:+ l.around := by
  cases n with
  | element head children =>
      rw [lapses] at h
      split at h
      · split at h
        · obtain own | below := List.mem_append.1 h
          · obtain ⟨attr, -, rfl⟩ := List.mem_map.1 own
            exact List.suffix_refl around
          · exact (List.suffix_cons head around).trans (suffix_of_mem_lapsesAmong children below)
        · exact absurd h List.not_mem_nil
      · exact absurd h List.not_mem_nil
  | text s => exact absurd h List.not_mem_nil
  | comment s location => exact absurd h List.not_mem_nil
  | instruction => exact absurd h List.not_mem_nil

theorem suffix_of_mem_lapsesAmong {p : Part} {around : List Xml.Element} {l : Lapse}
    (children : List Xml.Node) (h : l ∈ lapsesAmong p around children) : around <:+ l.around := by
  cases children with
  | nil => exact absurd h List.not_mem_nil
  | cons n rest =>
      obtain first | later := List.mem_append.1 h
      · exact suffix_of_mem_lapses n first
      · exact suffix_of_mem_lapsesAmong rest later

end

theorem isEntered_of_ne {head : Xml.Element} (other : head.base ≠ "arg") :
    isEntered head = (head.attribute? "name").isSome := by
  rw [isEntered, beq_false_of_ne other, Bool.false_or]

theorem all_entered_cons {head : Xml.Element} {around : List Xml.Element}
    (entered : around.all isEntered = true) (inward : isEntered head = true) :
    (head :: around).all isEntered = true := by
  rw [List.all_cons, inward, entered, Bool.true_and]

theorem tellings_hidden {p : Part} {around : List Xml.Element} {head : Xml.Element}
    {children : List Xml.Node} (hidden : isEntered head = false) :
    tellings (lapsesAmong p (head :: around) children) = [] := by
  refine List.map_eq_nil_iff.2 (List.filter_eq_nil_iff.2 fun l hl told => ?_)
  have inside := (suffix_of_mem_lapsesAmong children hl).subset (.head around)
  have entered := List.all_eq_true.1 (Bool.and_eq_true_iff.1 told).1 head inside
  rw [hidden] at entered
  cases entered

/-- What is said of those of these attributes that an element has not. -/
def missingIn (head : Xml.Element) (attrs : List String) : List Finding :=
  (attrs.filter fun attr => (head.attribute? attr).isNone).map fun attr =>
    ⟨.missingAttribute attr head.base, head.location⟩

theorem missingIn_cons (head : Xml.Element) (attr : String) (attrs : List String) :
    missingIn head (attr :: attrs) = missingIn head [attr] ++ missingIn head attrs := by
  rw [missingIn, ← List.singleton_append, List.filter_append, List.map_append, missingIn, missingIn]

theorem tellings_missing {around : List Xml.Element} (entered : around.all isEntered = true)
    (head : Xml.Element) (attrs : List String) :
    tellings ((attrs.filter fun attr => (head.attribute? attr).isNone).map
      (Lapse.mk around head)) = missingIn head attrs := by
  have missing : ∀ attr ∈ attrs.filter (fun attr => (head.attribute? attr).isNone),
      head.attribute? attr = none := fun attr h =>
    Option.isNone_iff_eq_none.1 (List.mem_filter.1 h).2
  rw [tellings, List.filter_eq_self.2, List.map_map, missingIn]
  · refine List.map_congr_left fun attr h => ?_
    simp only [Function.comp_apply, Lapse.finding, Lapse.problem, missing attr h]
  · intro l hl
    obtain ⟨attr, h, rfl⟩ := List.mem_map.1 hl
    rw [Lapse.isTold, entered, missing attr h]
    rfl

theorem lapsesAt_of_ne {p : Part} (other : p ≠ .property) (head : Xml.Element) :
    lapsesAt p head = p.required.filter fun attr => (head.attribute? attr).isNone := by
  rw [lapsesAt, if_neg fun h => other h.1, List.append_nil]

theorem tellings_lapsesOf {p : Part} {around : List Xml.Element} (other : p ≠ .property)
    (entered : around.all isEntered = true) (head : Xml.Element) (children : List Xml.Node) :
    tellings (lapsesOf p around head children) =
      missingIn head p.required ++ tellings (lapsesAmong p (head :: around) children) := by
  rw [lapsesOf, tellings_append, lapsesAt_of_ne other, tellings_missing entered]

end Hidden

section Contents

theorem mem_contents_of_inside? {p q : Part} {base : String} (h : p.inside? base = some q) :
    (base, q) ∈ p.contents := by
  obtain ⟨before, after, split, -⟩ := List.lookup_eq_some_iff.1 h
  rw [split]
  exact List.mem_append_right before (.head after)

theorem mem_names_iff {p : Part} {base : String} : base ∈ p.names ↔ (p.inside? base).isSome := by
  rw [Part.inside?, List.lookup_isSome_iff, Part.names, List.mem_map]
  refine exists_congr fun entry => and_congr_right fun _ => ?_
  rw [beq_iff_eq, eq_comm]

theorem lapses_of_inside {p q : Part} {around : List Xml.Element} {head : Xml.Element}
    {children : List Xml.Node} (plain : head.uri = none) (inside : p.inside? head.base = some q) :
    lapses p around (.element head children) = lapsesOf q around head children := by
  rw [lapses, if_pos plain, inside, lapsesOf]

theorem lapses_of_outside {p : Part} {around : List Xml.Element} {head : Xml.Element}
    {children : List Xml.Node} (refused : ¬isAccepted p.names head = true) :
    lapses p around (.element head children) = [] := by
  rw [lapses]
  split
  · next plain =>
    have unknown : p.inside? head.base = none := by
      rw [← Option.not_isSome_iff_eq_none, ← mem_names_iff]
      exact fun known => refused (isAccepted_iff.2 ⟨plain, known⟩)
    rw [unknown]
  · rfl

theorem lapsesAmong_annotation (around : List Xml.Element) (children : List Xml.Node) :
    lapsesAmong Part.annotation around children = [] := by
  induction children with
  | nil => rfl
  | cons n rest ih =>
      rw [lapsesAmong, ih, List.append_nil]
      cases n with
      | element head below =>
          rw [lapses]
          split <;> rfl
      | text s => rfl
      | comment s location => rfl
      | instruction => rfl

end Contents

end ApiDrift.Introspection
