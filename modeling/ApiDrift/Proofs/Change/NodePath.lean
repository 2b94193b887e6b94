import ApiDrift.Proofs.Change.Mirror
import ApiDrift.Proofs.Introspection.Parse
import ApiDrift.Proofs.Text.Blank
/-! Object paths of nodes that come and go. Nodes are matched level by level by their whole names,
and a name may have several elements, so that one path can stand for different ways down the tree:
along one of them a node may come while along another one a node goes. -/
namespace ApiDrift
open Compare

section Ways

/-- The node below to which names lead, one after the other. -/
def Node.at? (n : Node) : List String → Option Node
  | [] => some n
  | name :: rest => (n.child? name).bind fun c => c.at? rest

/-- Names lead to a node of the second tree, whose parent the first one has as well, and not to one
of the first. -/
structure Node.Gains (a b : Node) (names : List String) : Prop where
  there : (b.at? names).isSome
  above : (a.at? names.dropLast).isSome
  missing : a.at? names = none

/-- The object path below the root that names make up. -/
def pathOf (names : List String) : String := "/".intercalate names

/-- No node below is named with more than one element of an object path. -/
def Node.Undivided (n : Node) : Prop :=
  n.Everywhere fun m => ∀ c ∈ m.nodes, ∀ name ∈ c.name, '/' ∉ name.toList

instance (n : Node) : Decidable n.Undivided :=
  inferInstanceAs (Decidable (n.Everywhere fun m =>
    ∀ c ∈ m.nodes, ∀ name ∈ c.name, '/' ∉ name.toList))

theorem Node.not_gains_nil (a b : Node) : ¬a.Gains b [] := fun h => nomatch h.missing

/-- What is gained is a child whose name is new, or it is gained below two children of one name. -/
theorem Node.gains_cons_iff {a b : Node} {name : String} {rest : List String} :
    a.Gains b (name :: rest) ↔ ∃ c, b.child? name = some c ∧
      (a.child? name).elim (rest = []) fun d => d.Gains c rest := by
  have step (n : Node) (l : List String) :
      n.at? (name :: l) = (n.child? name).bind fun c => c.at? l := rfl
  constructor
  · rintro ⟨there, above, missing⟩
    rw [step] at there missing
    obtain ⟨c, found⟩ := Option.isSome_iff_exists.1 there
    obtain ⟨child, met, -⟩ := Option.bind_eq_some_iff.1 found
    refine ⟨child, met, ?_⟩
    rw [met, Option.bind_some] at there
    cases rest with
    | nil =>
        cases other : a.child? name with
        | none => rfl
        | some d =>
            rw [other] at missing
            exact nomatch missing
    | cons next rest =>
        rw [List.dropLast_cons_cons, step] at above
        cases other : a.child? name with
        | none =>
            rw [other] at above
            exact nomatch above
        | some d =>
            rw [other] at above missing
            exact ⟨there, above, missing⟩
  · rintro ⟨child, met, gained⟩
    cases other : a.child? name with
    | none =>
        rw [other] at gained
        obtain rfl : rest = [] := gained
        refine ⟨?_, rfl, ?_⟩
        · rw [step, met]
          rfl
        · rw [step, other]
          rfl
    | some d =>
        rw [other] at gained
        cases rest with
        | nil => exact absurd gained (Node.not_gains_nil d child)
        | cons next rest =>
            refine ⟨?_, ?_, ?_⟩
            · rw [step, met]
              exact gained.there
            · rw [List.dropLast_cons_cons, step, other]
              exact gained.above
            · rw [step, other]
              exact gained.missing

/-- The path at which a comparison reports a node, from a scope on. -/
def scopeAfter (scope : Option String) (names : List String) : Option String :=
  names.foldl (fun scope name => some (childPath scope name)) scope

theorem scopeAfter_some (path : String) (names : List String) :
    scopeAfter (some path) names = some (pathOf (path :: names)) := by
  induction names generalizing path with
  | nil => rw [pathOf, String.intercalate_singleton, scopeAfter, List.foldl_nil]
  | cons name rest ih =>
      have joined : pathOf ((path ++ "/" ++ name) :: rest) = pathOf (path :: name :: rest) := by
        rw [pathOf, pathOf, String.intercalate_cons_append, String.intercalate_cons_cons]
      exact (ih _).trans (congrArg some joined)

theorem scopeAfter_none_eq_some_iff {names : List String} {path : String} :
    scopeAfter none names = some path ↔ names ≠ [] ∧ pathOf names = path := by
  cases names with
  | nil => exact iff_of_false nofun fun h => h.1 rfl
  | cons name rest =>
      rw [show scopeAfter none (name :: rest) = scopeAfter (some name) rest from rfl,
        scopeAfter_some, Option.some_inj]
      exact (and_iff_right (List.cons_ne_nil name rest)).symm

theorem splitChars_pathOf {names : List String} (some : names ≠ [])
    (single : ∀ name ∈ names, '/' ∉ name.toList) :
    Text.split '/' (pathOf names) = names := by
  induction names with
  | nil => exact absurd rfl some
  | cons name rest ih =>
      obtain ⟨own, others⟩ := List.forall_mem_cons.1 single
      cases rest with
      | nil => rw [pathOf, String.intercalate_singleton, Text.split_eq_singleton own]
      | cons next rest =>
          have later := ih (List.cons_ne_nil next rest) others
          have parts := Text.split_append '/' name (pathOf (next :: rest))
          rw [Text.split_eq_singleton own, later] at parts
          rw [pathOf, String.intercalate_cons_cons]
          exact parts

theorem Node.Undivided.single {n : Node} (undivided : n.Undivided) {names : List String}
    (there : (n.at? names).isSome) : ∀ name ∈ names, '/' ∉ name.toList := by
  induction names generalizing n with
  | nil => exact List.forall_mem_nil _
  | cons name rest ih =>
      obtain ⟨m, found⟩ := Option.isSome_iff_exists.1 there
      obtain ⟨c, met, below⟩ := Option.bind_eq_some_iff.1 found
      have among := List.mem_of_find?_eq_some met
      have named : c.name = some name := by simpa using List.find?_some met
      refine List.forall_mem_cons.2 ⟨undivided.here c among name named, ?_⟩
      exact ih (undivided.below among) (Option.isSome_of_eq_some below)

end Ways

section Reported
variable {scope : Option String} {path : String}

/-- Among changes there is the addition of such an element at a path. -/
def Comes (kind : ElementKind) (path : String) (l : List Change) : Prop :=
  ∃ c ∈ l, c.code = .added kind ∧ c.path = path

def Goes (kind : ElementKind) (path : String) (l : List Change) : Prop :=
  ∃ c ∈ l, c.code = .removed kind ∧ c.path = path

instance (kind : ElementKind) (path : String) (l : List Change) : Decidable (Comes kind path l) :=
  inferInstanceAs (Decidable (∃ c ∈ l, c.code = .added kind ∧ c.path = path))

instance (kind : ElementKind) (path : String) (l : List Change) : Decidable (Goes kind path l) :=
  inferInstanceAs (Decidable (∃ c ∈ l, c.code = .removed kind ∧ c.path = path))

theorem goes_append {kind : ElementKind} {l m : List Change} :
    Goes kind path (l ++ m) ↔ Goes kind path l ∨ Goes kind path m := by
  simp only [Goes, List.mem_append, or_and_right, exists_or]

theorem goes_flatMap {α : Type} {kind : ElementKind} {l : List α} {f : α → List Change} :
    Goes kind path (l.flatMap f) ↔ ∃ x ∈ l, Goes kind path (f x) := by
  simp only [Goes, List.mem_flatMap]
  constructor
  · rintro ⟨c, ⟨x, hx, hc⟩, gone⟩
    exact ⟨x, hx, c, hc, gone⟩
  · rintro ⟨x, hx, c, hc, gone⟩
    exact ⟨c, ⟨x, hx, hc⟩, gone⟩

theorem Compare.Mirrored.comes_iff {first second : List Change} (h : Mirrored first second)
    (kind : ElementKind) (path : String) : Comes kind path first ↔ Goes kind path second := by
  induction h with
  | nil =>
      refine iff_of_false ?_ ?_
      · rintro ⟨c, hc, -⟩
        exact absurd hc List.not_mem_nil
      · rintro ⟨c, hc, -⟩
        exact absurd hc List.not_mem_nil
  | amend amends _ ih =>
      rw [← ih, Comes, List.exists_mem_cons_iff]
      exact or_iff_right fun same => (amends kind).1 same.1
  | mirror mirrors _ ih =>
      rw [Comes, Goes, List.exists_mem_cons_iff, List.exists_mem_cons_iff]
      refine or_congr ?_ ih
      obtain ⟨own, added, removed⟩ := mirrors.element
      rw [added, removed, mirrors.path, ChangeCode.added.injEq, ChangeCode.removed.injEq]

theorem code_removedArguments (position : Nat) (old new : List Argument) :
    ∀ c ∈ removedArguments path position old new, c.code = .removed .argument := by
  induction old generalizing position new with
  | nil =>
      rw [removedArguments]
      exact List.forall_mem_nil _
  | cons a old ih =>
      cases new with
      | nil =>
          rw [removedArguments]
          exact List.forall_mem_cons.2 ⟨rfl, ih (position + 1) []⟩
      | cons _ new =>
          rw [removedArguments]
          exact ih (position + 1) new

theorem not_goes_removedOwned (scope : Option String) (new : Node) (i : Interface) :
    ¬Goes .node path (removedOwned scope new i) := by
  have element {α : Type} {found : Option α} {kind : ElementKind} {place : String}
      {location : Location} {lost : α → List Change} (other : kind ≠ .node)
      (inside : ∀ x, ¬Goes .node path (lost x)) :
      ¬Goes .node path (found.elim [.removedElement kind place location] lost) := by
    cases found with
    | some x => exact inside x
    | none =>
        rintro ⟨c, hc, gone, -⟩
        obtain rfl := List.mem_singleton.1 hc
        exact other (ChangeCode.removed.inj gone)
  have beyond (place : String) (old new : List Argument) :
      ¬Goes .node path (removedArguments place 0 old new) := by
    rintro ⟨c, hc, gone, -⟩
    cases (code_removedArguments 0 old new c hc).symm.trans gone
  rw [removedOwned_eq]
  refine element (by decide) fun n => ?_
  rw [goes_flatMap]
  rintro ⟨m, -, gone⟩
  revert gone
  cases m with
  | method m =>
      rw [removedMember_method]
      exact element (by decide) fun _ => beyond _ _ _
  | signal s =>
      rw [removedMember_signal]
      exact element (by decide) fun _ => beyond _ _ _
  | property p =>
      rw [removedMember_property]
      refine element (by decide) fun _ => ?_
      rintro ⟨c, hc, -⟩
      exact absurd hc List.not_mem_nil

theorem goes_removedChild {new child : Node} {name : String} (named : child.name = some name) :
    Goes .node path (removedChild scope new child) ↔
      (new.child? name).elim (childPath scope name = path)
        fun n => Goes .node path (removedNode (some (childPath scope name)) n child) := by
  rw [removedChild, named, Option.elim_some]
  cases new.child? name with
  | some n => rfl
  | none =>
      constructor
      · rintro ⟨c, hc, -, place⟩
        obtain rfl := List.mem_singleton.1 hc
        exact place
      · intro place
        exact ⟨_, List.mem_singleton_self _, rfl, place⟩

/-- In the second pass nodes go just at the paths of what the old version has beyond the new one. -/
theorem goes_removedNode {old : Node} (distinct : old.WellNamed) (scope : Option String)
    (new : Node) : Goes .node path (removedNode scope new old) ↔
      ∃ names, new.Gains old names ∧ scopeAfter scope names = some path := by
  induction old using Node.induction generalizing scope new with
  | step old ih =>
      have interfaces : ¬Goes .node path (old.interfaces.flatMap (removedOwned scope new)) := by
        rw [goes_flatMap]
        rintro ⟨i, -, gone⟩
        exact not_goes_removedOwned scope new i gone
      have child {c : Node} {name : String} :
          old.child? name = some c ↔ c ∈ old.nodes ∧ c.name = some name :=
        find?_key_eq_some_iff distinct.here.children
      rw [removedNode_eq, goes_append, or_iff_right interfaces, goes_flatMap]
      constructor
      · rintro ⟨c, hc, gone⟩
        obtain ⟨name, named⟩ := Option.isSome_iff_exists.1 (distinct.here.childNamed c hc)
        rw [goes_removedChild named] at gone
        cases met : new.child? name with
        | none =>
            rw [met] at gone
            refine ⟨[name], Node.gains_cons_iff.2 ⟨c, child.2 ⟨hc, named⟩, ?_⟩, congrArg some gone⟩
            rw [met]
            rfl
        | some n =>
            rw [met, Option.elim_some, ih c hc (distinct.below hc)] at gone
            obtain ⟨rest, gained, place⟩ := gone
            refine ⟨name :: rest, Node.gains_cons_iff.2 ⟨c, child.2 ⟨hc, named⟩, ?_⟩, place⟩
            rw [met]
            exact gained
      · rintro ⟨names, gained, place⟩
        cases names with
        | nil => exact absurd gained (Node.not_gains_nil new old)
        | cons name rest =>
            obtain ⟨c, found, below⟩ := Node.gains_cons_iff.1 gained
            obtain ⟨hc, named⟩ := child.1 found
            refine ⟨c, hc, (goes_removedChild named).2 ?_⟩
            cases met : new.child? name with
            | none =>
                rw [met] at below
                obtain rfl : rest = [] := below
                exact Option.some_inj.1 place
            | some n =>
                rw [met] at below
                exact (ih c hc (distinct.below hc) _ n).2 ⟨rest, below, place⟩

/-- Nodes go from one version to another just at the paths of what the first has beyond the
second. -/
theorem goes_compare_iff {a b : Node} (distinct : a.WellNamed) :
    Goes .node path (compare a b) ↔ ∃ names, b.Gains a names ∧ pathOf names = path := by
  have first : ¬Goes .node path (compareNode none a b) := by
    rintro ⟨c, hc, gone, -⟩
    exact (mirrored_node none a b).first_not_removal c hc (Change.isRemoval_iff.2 ⟨_, gone⟩)
  rw [compare, goes_append, or_iff_right first, goes_removedNode distinct]
  refine exists_congr fun names => and_congr_right fun gained => ?_
  rw [scopeAfter_none_eq_some_iff, and_iff_right]
  rintro rfl
  exact Node.not_gains_nil b a gained

theorem comes_compare_iff {a b : Node} (distinct : b.WellNamed) :
    Comes .node path (compare a b) ↔ ∃ names, a.Gains b names ∧ pathOf names = path := by
  rw [← goes_compare_iff distinct]
  have second (a b : Node) : ¬Comes .node path (removedNode none b a) := by
    rintro ⟨c, hc, came, -⟩
    exact ((mirrored_node none b a).second_removal c hc).2 (Change.isAddition_iff.2 ⟨_, came⟩)
  have first : ¬Goes .node path (compareNode none b a) := by
    rintro ⟨c, hc, gone, -⟩
    exact (mirrored_node none b a).first_not_removal c hc (Change.isRemoval_iff.2 ⟨_, gone⟩)
  have split : Comes .node path (compare a b) ↔ Comes .node path (compareNode none a b) := by
    rw [Comes, compare]
    simp only [List.mem_append, or_and_right, exists_or]
    exact or_iff_left (second a b)
  rw [split, compare, goes_append, or_iff_right first]
  exact (mirrored_node none a b).comes_iff .node path

end Reported

/-- Along one way a node comes while along another one a node goes, and both have this path. -/
def Node.Conflict (a b : Node) (path : String) : Prop :=
  ∃ came went, a.Gains b came ∧ b.Gains a went ∧ came ≠ went ∧ pathOf came = path ∧
    pathOf went = path

/-- A path is that of a node that comes and of one that goes just if it is divided into names in two
ways, of which one leads to a node that came and the other one to a node that went. So it never
happens where the names of nodes are single elements of paths. -/
theorem parsed_node_conflict_iff {optionsOld optionsNew : Introspection.Options}
    {bytesOld bytesNew : List UInt8} {old new : Introspection.Parsed}
    (readOld : Introspection.parseBytes optionsOld bytesOld = .ok old)
    (readNew : Introspection.parseBytes optionsNew bytesNew = .ok new) :
    (∀ path, Comes .node path (compare old.root new.root) ∧
        Goes .node path (compare old.root new.root) ↔ old.root.Conflict new.root path) ∧
      (old.root.Undivided → new.root.Undivided → ∀ path,
        ¬(Comes .node path (compare old.root new.root) ∧
          Goes .node path (compare old.root new.root))) := by
  have distinctOld := (Introspection.trusted_of_parseBytes readOld).root.wellNamed
  have distinctNew := (Introspection.trusted_of_parseBytes readNew).root.wellNamed
  have conflict (path : String) : Comes .node path (compare old.root new.root) ∧
      Goes .node path (compare old.root new.root) ↔ old.root.Conflict new.root path := by
    rw [comes_compare_iff distinctNew, goes_compare_iff distinctOld]
    constructor
    · rintro ⟨⟨came, gained, placeCame⟩, went, lost, placeWent⟩
      refine ⟨came, went, gained, lost, ?_, placeCame, placeWent⟩
      rintro rfl
      have there := lost.there
      rw [gained.missing] at there
      exact nomatch there
    · rintro ⟨came, went, gained, lost, -, placeCame, placeWent⟩
      exact ⟨⟨came, gained, placeCame⟩, went, lost, placeWent⟩
  refine ⟨conflict, fun singleOld singleNew path both => ?_⟩
  obtain ⟨came, went, gained, lost, differ, placeCame, placeWent⟩ := (conflict path).1 both
  have partsCame : Text.split '/' (pathOf came) = came :=
    splitChars_pathOf (fun none => Node.not_gains_nil _ _ (none ▸ gained))
      (singleNew.single gained.there)
  have partsWent : Text.split '/' (pathOf went) = went :=
    splitChars_pathOf (fun none => Node.not_gains_nil _ _ (none ▸ lost))
      (singleOld.single lost.there)
  rw [placeCame] at partsCame
  rw [placeWent] at partsWent
  exact differ (partsCame.symm.trans partsWent)

/-- A house with the nodes in it. -/
def house (content : String) : List UInt8 :=
  Text.Utf8.encode ("<node>" ++ content ++ "</node>").toList

/-- A room takes the place of a hall: a node comes at one path and a node goes at another one. -/
theorem room_for_hall_apart : ∃ old new,
    Introspection.parseBytes {} (house "<node name='hall'/>") = .ok old ∧
      Introspection.parseBytes {} (house "<node name='room'/>") = .ok new ∧
      Comes .node "room" (compare old.root new.root) ∧
      Goes .node "hall" (compare old.root new.root) ∧
      (∀ path, Comes .node path (compare old.root new.root) ∧
        Goes .node path (compare old.root new.root) ↔ old.root.Conflict new.root path) ∧
      ∀ path, ¬(Comes .node path (compare old.root new.root) ∧
        Goes .node path (compare old.root new.root)) := by
  have found : Introspection.holdsOfBoth (fun a b =>
      decide (a.Undivided ∧ b.Undivided ∧ Comes .node "room" (compare a b) ∧
        Goes .node "hall" (compare a b)))
      (house "<node name='hall'/>") (house "<node name='room'/>") = some true := by
    decide +kernel
  obtain ⟨old, new, readOld, readNew, all⟩ := Introspection.of_holdsOfBoth found
  obtain ⟨singleOld, singleNew, came, gone⟩ := of_decide_eq_true all
  have law := parsed_node_conflict_iff readOld readNew
  exact ⟨old, new, readOld, readNew, came, gone, law.1, law.2 singleOld singleNew⟩

/-- A room that stood beside its wing moves into it. The objects have the same paths as before, and
yet a node comes at the path at which a node goes. -/
theorem room_moved_comes_and_goes : ∃ old new,
    Introspection.parseBytes {} (house "<node name='wing'/><node name='wing/room'/>") = .ok old ∧
      Introspection.parseBytes {} (house "<node name='wing'><node name='room'/></node>") =
        .ok new ∧
      old.diagnostics = [] ∧ new.diagnostics = [] ∧
      Comes .node "wing/room" (compare old.root new.root) ∧
      Goes .node "wing/room" (compare old.root new.root) := by
  have found : Introspection.holdsOfBoth (fun a b =>
      decide (Comes .node "wing/room" (compare a b) ∧ Goes .node "wing/room" (compare a b)))
      (house "<node name='wing'/><node name='wing/room'/>")
      (house "<node name='wing'><node name='room'/></node>") = some true := by
    decide +kernel
  obtain ⟨old, new, readOld, readNew, both⟩ := Introspection.of_holdsOfBoth found
  obtain ⟨came, gone⟩ := of_decide_eq_true both
  have findings : (Introspection.parseBytes {} (house
      "<node name='wing'/><node name='wing/room'/>")).toOption.map
        Introspection.Parsed.diagnostics = some [] := by decide +kernel
  have findings' : (Introspection.parseBytes {} (house
      "<node name='wing'><node name='room'/></node>")).toOption.map
        Introspection.Parsed.diagnostics = some [] := by decide +kernel
  obtain ⟨p, readFirst, cleanOld⟩ := exists_of_toOption_map findings
  obtain ⟨q, readSecond, cleanNew⟩ := exists_of_toOption_map findings'
  obtain rfl := Except.ok.inj (readFirst.symm.trans readOld)
  obtain rfl := Except.ok.inj (readSecond.symm.trans readNew)
  exact ⟨p, q, readOld, readNew, cleanOld, cleanNew, came, gone⟩

end ApiDrift
