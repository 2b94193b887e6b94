import ApiDrift.Proofs.Change.Mirror
import ApiDrift.Proofs.Change.Sites
import ApiDrift.Proofs.Introspection.Layout
/-! The order of a comparison. Removals come last. Additions and removals follow their documents,
except that all interfaces of a node come before its child nodes, wherever these stand. -/
namespace ApiDrift
open Compare

section Lost

/-- A member that an interface lacks, or which has more arguments than the one of its name. -/
def Member.LostIn (other : Interface) : Member → Prop
  | method m => ∀ n ∈ other.method? m.name, n.args.length < m.args.length
  | signal s => ∀ n ∈ other.signal? s.name, n.args.length < s.args.length
  | property p => other.property? p.name = none

/-- An interface that a node lacks, or of which some member or argument is lost. -/
def Interface.LostIn (other : Node) (i : Interface) : Prop :=
  ∀ j ∈ other.interface? i.name, ∃ m ∈ i.members, m.LostIn j

namespace Node

/-- Something below a node is not there in another. -/
inductive Loses : Node → Node → Prop
  | interface {old new : Node} {i : Interface} (among : i ∈ old.interfaces) (lost : i.LostIn new) :
      Loses old new
  | child {old new c : Node} {name : String} (among : c ∈ old.nodes) (named : c.name = some name)
      (missing : new.child? name = none) : Loses old new
  | inside {old new c n : Node} {name : String} (among : c ∈ old.nodes) (named : c.name = some name)
      (found : new.child? name = some n) (loses : Loses c n) : Loses old new

/-- A child node that a node lacks, or below which something is lost. -/
def LostIn (c other : Node) : Prop :=
  ∃ name, c.name = some name ∧ ∀ n ∈ other.child? name, c.Loses n

/-- Somewhere in a tree a child node stands before an interface, and both lose something. -/
inductive Crossed : Node → Node → Prop
  | here {old new : Node} {i : Interface} {c : Node} (interface : i ∈ old.interfaces)
      (child : c ∈ old.nodes) (earlier : c.location < i.location) (interfaceLost : i.LostIn new)
      (childLost : c.LostIn new) : Crossed old new
  | inside {old new c n : Node} {name : String} (among : c ∈ old.nodes) (named : c.name = some name)
      (found : new.child? name = some n) (crossed : Crossed c n) : Crossed old new

theorem loses_iff {old new : Node} :
    old.Loses new ↔ (∃ i ∈ old.interfaces, i.LostIn new) ∨ ∃ c ∈ old.nodes, c.LostIn new := by
  constructor
  · rintro (⟨hi, lost⟩ | ⟨hc, named, missing⟩ | ⟨hc, named, found, loses⟩)
    · exact .inl ⟨_, hi, lost⟩
    · refine .inr ⟨_, hc, _, named, fun n hn => ?_⟩
      rw [missing] at hn
      exact nomatch hn
    · refine .inr ⟨_, hc, _, named, fun n hn => ?_⟩
      obtain rfl := Option.some_inj.1 (found.symm.trans hn)
      exact loses
  · rintro (⟨i, hi, lost⟩ | ⟨c, hc, name, named, lost⟩)
    · exact .interface hi lost
    · cases found : new.child? name with
      | none => exact .child hc named found
      | some n => exact .inside hc named found (lost n found)

theorem crossed_iff {old new : Node} :
    old.Crossed new ↔
      (∃ c ∈ old.nodes, ∃ name, c.name = some name ∧ ∃ n ∈ new.child? name, c.Crossed n) ∨
      ∃ i ∈ old.interfaces, ∃ c ∈ old.nodes,
        c.location < i.location ∧ i.LostIn new ∧ c.LostIn new := by
  constructor
  · rintro (⟨hi, hc, earlier, interfaceLost, childLost⟩ | ⟨hc, named, found, crossed⟩)
    · exact .inr ⟨_, hi, _, hc, earlier, interfaceLost, childLost⟩
    · exact .inl ⟨_, hc, _, named, _, found, crossed⟩
  · rintro (⟨c, hc, name, named, n, found, crossed⟩ | ⟨i, hi, c, hc, earlier, lost, below⟩)
    · exact .inside hc named found crossed
    · exact .here hi hc earlier lost below

end Node

end Lost

namespace Compare
variable {path : String} {scope : Option String}

section Places

theorem removedArguments_sublist (position : Nat) (old new : List Argument) :
    ((removedArguments path position old new).map Change.location).Sublist
      (old.map Argument.location) := by
  induction old generalizing position new with
  | nil =>
      rw [removedArguments]
      exact .slnil
  | cons a old ih =>
      cases new with
      | nil =>
          rw [removedArguments]
          exact .cons_cons _ (ih (position + 1) [])
      | cons _ new =>
          rw [removedArguments]
          exact .cons _ (ih (position + 1) new)

/-- An element that is lost stands where it stood, and else what is lost of it stands in it. -/
theorem elim_sublist {α : Type} {found : Option α} {kind : ElementKind} {path : String}
    {location : Location} {inside : List Location} {lost : α → List Change}
    (within : ∀ x ∈ found, ((lost x).map Change.location).Sublist inside) :
    ((found.elim [.removedElement kind path location] lost).map Change.location).Sublist
      (location :: inside) := by
  cases found with
  | none => exact .cons_cons _ (List.nil_sublist _)
  | some x => exact .cons _ (within x rfl)

theorem flatMap_sublist {α : Type} {l : List α} {lost : α → List Change}
    {places : α → List Location}
    (within : ∀ x ∈ l, ((lost x).map Change.location).Sublist (places x)) :
    ((l.flatMap lost).map Change.location).Sublist (l.flatMap places) := by
  induction l with
  | nil => exact .slnil
  | cons x rest ih =>
      obtain ⟨own, others⟩ := List.forall_mem_cons.1 within
      rw [List.flatMap_cons, List.flatMap_cons, List.map_append]
      exact own.append (ih others)

theorem removedMember_sublist (new : Interface) (m : Member) :
    ((removedMember path new m).map Change.location).Sublist m.places := by
  cases m with
  | method m =>
      rw [removedMember_method]
      exact elim_sublist fun n _ => removedArguments_sublist 0 m.args n.args
  | signal s =>
      rw [removedMember_signal]
      exact elim_sublist fun n _ => removedArguments_sublist 0 s.args n.args
  | property p =>
      rw [removedMember_property]
      exact elim_sublist fun _ _ => .slnil

theorem removedOwned_sublist (new : Node) (i : Interface) :
    ((removedOwned scope new i).map Change.location).Sublist i.places := by
  rw [removedOwned_eq]
  exact elim_sublist fun n _ => flatMap_sublist fun m _ => removedMember_sublist n m

theorem location_mem_of_mem_removedOwned {new : Node} {i : Interface} {c : Change}
    (h : c ∈ removedOwned scope new i) : c.location ∈ i.places :=
  (removedOwned_sublist new i).mem (List.mem_map_of_mem h)

theorem location_mem_of_mem_removedNode {new old : Node} {c : Change}
    (h : c ∈ removedNode scope new old) : c.location ∈ old.places := by
  induction old using Node.induction generalizing scope new with
  | step old ih =>
      rw [removedNode_eq, List.mem_append, List.mem_flatMap, List.mem_flatMap] at h
      rcases h with ⟨i, hi, h⟩ | ⟨child, hc, h⟩
      · exact Node.mem_places.2 (.inl (.inr ⟨i, hi, location_mem_of_mem_removedOwned h⟩))
      · refine Node.mem_places.2 (.inr ⟨child, hc, ?_⟩)
        rcases mem_removedChild h with rfl | ⟨n, h⟩
        · exact child.location_mem_places
        · exact ih child hc h

theorem location_mem_of_mem_removedChild {new child : Node} {c : Change}
    (h : c ∈ removedChild scope new child) : c.location ∈ child.places := by
  rcases mem_removedChild h with rfl | ⟨n, h⟩
  · exact child.location_mem_places
  · exact location_mem_of_mem_removedNode h

end Places

section Found

theorem removedArguments_eq_nil_iff (position : Nat) (old new : List Argument) :
    removedArguments path position old new = [] ↔ old.length ≤ new.length := by
  induction old generalizing position new with
  | nil => exact iff_of_true rfl (Nat.zero_le _)
  | cons a old ih =>
      cases new with
      | nil => exact iff_of_false (List.cons_ne_nil _ _) (Nat.not_succ_le_zero _)
      | cons _ new =>
          rw [removedArguments, ih, List.length_cons, List.length_cons, Nat.add_le_add_iff_right]

/-- Something is found of an element unless it is met on the other side with nothing of it lost. -/
theorem elim_ne_nil_iff {α : Type} {found : Option α} {missing : Change} {lost : α → List Change} :
    found.elim [missing] lost ≠ [] ↔ ∀ x ∈ found, lost x ≠ [] := by
  cases found with
  | none => exact iff_of_true (List.cons_ne_nil _ _) nofun
  | some x => exact ⟨fun h y hy => Option.some_inj.1 hy ▸ h, fun h => h x rfl⟩

theorem flatMap_ne_nil_iff {α β : Type} {l : List α} {f : α → List β} :
    l.flatMap f ≠ [] ↔ ∃ x ∈ l, f x ≠ [] := by
  rw [ne_eq, List.flatMap_eq_nil_iff]
  simp only [not_forall, exists_prop]

theorem removedMember_ne_nil_iff {new : Interface} {m : Member} :
    removedMember path new m ≠ [] ↔ m.LostIn new := by
  have beyond (args : List Argument) (path : String) (n : Callable) :
      removedArguments path 0 args n.args ≠ [] ↔ n.args.length < args.length := by
    rw [ne_eq, removedArguments_eq_nil_iff, Nat.not_le]
  cases m with
  | method m =>
      rw [removedMember_method, elim_ne_nil_iff]
      exact forall₂_congr fun n _ => beyond m.args _ n
  | signal s =>
      rw [removedMember_signal, elim_ne_nil_iff]
      exact forall₂_congr fun n _ => beyond s.args _ n
  | property p =>
      rw [removedMember_property, elim_ne_nil_iff]
      simp only [ne_eq, not_true_eq_false, imp_false]
      exact Option.eq_none_iff_forall_not_mem.symm

theorem removedOwned_ne_nil_iff (scope : Option String) {new : Node} {i : Interface} :
    removedOwned scope new i ≠ [] ↔ i.LostIn new := by
  rw [removedOwned_eq, elim_ne_nil_iff]
  simp only [flatMap_ne_nil_iff, removedMember_ne_nil_iff]
  rfl

theorem removedChild_ne_nil_iff {new child : Node}
    (below : ∀ scope n, removedNode scope n child ≠ [] ↔ child.Loses n) :
    removedChild scope new child ≠ [] ↔ child.LostIn new := by
  rw [removedChild]
  cases named : child.name with
  | none =>
      refine iff_of_false (· rfl) ?_
      rintro ⟨name, own, -⟩
      cases named.symm.trans own
  | some name =>
      rw [Option.elim_some, elim_ne_nil_iff]
      simp only [below]
      refine ⟨fun h => ⟨name, named, h⟩, ?_⟩
      rintro ⟨name', own, h⟩
      obtain rfl := Option.some_inj.1 (own.symm.trans named)
      exact h

theorem removedNode_ne_nil_iff (scope : Option String) (new old : Node) :
    removedNode scope new old ≠ [] ↔ old.Loses new := by
  induction old using Node.induction generalizing scope new with
  | step old ih =>
      rw [removedNode_eq, Node.loses_iff, ne_eq, List.append_eq_nil_iff,
        not_and_or]
      refine or_congr (flatMap_ne_nil_iff.trans ?_) (flatMap_ne_nil_iff.trans ?_)
      · exact exists_congr fun i => and_congr_right fun _ => removedOwned_ne_nil_iff scope
      · refine exists_congr fun c => and_congr_right fun hc => ?_
        exact removedChild_ne_nil_iff fun scope n => ih c hc scope n

end Found

section Sorted

/-- Changes in the order in which their places come in a document. -/
def InOrder (l : List Change) : Prop := l.Pairwise fun c d => c.location ≤ d.location

instance (l : List Change) : Decidable (InOrder l) :=
  inferInstanceAs (Decidable (l.Pairwise fun c d => c.location ≤ d.location))

theorem inOrder_append_iff {l m : List Change} :
    InOrder (l ++ m) ↔ InOrder l ∧ InOrder m ∧ ∀ x ∈ l, ∀ y ∈ m, x.location ≤ y.location :=
  List.pairwise_append

theorem inOrder_of_sublist {l : List Change} {places : List Location}
    (stand : (l.map Change.location).Sublist places) (ascending : places.Pairwise (· < ·)) :
    InOrder l :=
  List.pairwise_map.1 ((ascending.sublist stand).imp le_of_lt)

theorem inOrder_removedOwned {new old : Node} (laidOut : old.LaidOut) :
    InOrder (old.interfaces.flatMap (removedOwned scope new)) :=
  inOrder_of_sublist (flatMap_sublist fun i _ => removedOwned_sublist new i) laidOut.interfaces

theorem inOrder_removedChild_iff {new child : Node}
    (below : ∀ scope n, InOrder (removedNode scope n child) ↔ ¬child.Crossed n) :
    InOrder (removedChild scope new child) ↔
      ∀ name, child.name = some name → ∀ n ∈ new.child? name, ¬child.Crossed n := by
  rw [removedChild]
  cases child.name with
  | none =>
      refine iff_of_true .nil fun name own => ?_
      cases own
  | some name =>
      rw [Option.elim_some]
      cases found : new.child? name with
      | none =>
          refine iff_of_true (List.pairwise_singleton ..) fun name' own n met => ?_
          obtain rfl := Option.some_inj.1 own
          cases found.symm.trans met
      | some n =>
          rw [Option.elim_some, below]
          refine ⟨fun h name' own n' met => ?_, fun h => h name rfl n found⟩
          obtain rfl := Option.some_inj.1 own
          obtain rfl := Option.some_inj.1 (found.symm.trans met)
          exact h

/-- What is lost of an interface is found before what is lost of a child node. That is the order of
the document unless both lose something and the child node stands first. -/
theorem ordered_between_iff {new c : Node} {i : Interface} (apart : Apart i.places c.places) :
    (∀ x ∈ removedOwned scope new i, ∀ y ∈ removedChild scope new c, x.location ≤ y.location) ↔
      ¬(c.location < i.location ∧ i.LostIn new ∧ c.LostIn new) := by
  have own : i.location ∈ i.places := List.mem_cons_self
  have child : c.location ∈ c.places := c.location_mem_places
  rw [← removedOwned_ne_nil_iff scope,
    ← removedChild_ne_nil_iff (removedNode_ne_nil_iff · · c)]
  constructor
  · rintro ordered ⟨earlier, someLost, someBelow⟩
    obtain ⟨x, hx⟩ := List.exists_mem_of_ne_nil _ someLost
    obtain ⟨y, hy⟩ := List.exists_mem_of_ne_nil _ someBelow
    have before := apart.symm.before child own earlier.le
    exact (before _ (location_mem_of_mem_removedChild hy) _
      (location_mem_of_mem_removedOwned hx)).not_ge (ordered x hx y hy)
  · intro uncrossed x hx y hy
    have le : i.location ≤ c.location := by
      refine le_of_not_gt fun earlier => uncrossed ⟨earlier, ?_, ?_⟩
      · exact List.ne_nil_of_mem hx
      · exact List.ne_nil_of_mem hy
    exact (apart.before own child le _ (location_mem_of_mem_removedOwned hx) _
      (location_mem_of_mem_removedChild hy)).le

/-- The second pass follows a document, except where it crosses from an interface to a child node
before it. -/
theorem inOrder_removedNode_iff {old : Node} (laidOut : old.Everywhere Node.LaidOut)
    (scope : Option String) (new : Node) :
    InOrder (removedNode scope new old) ↔ ¬old.Crossed new := by
  induction old using Node.induction generalizing scope new with
  | step old ih =>
      have here := laidOut.here
      have children : InOrder (old.nodes.flatMap (removedChild scope new)) ↔ ∀ c ∈ old.nodes,
          ∀ name, c.name = some name → ∀ n ∈ new.child? name, ¬c.Crossed n := by
        rw [InOrder, List.pairwise_flatMap, and_iff_left]
        · exact forall₂_congr fun c hc =>
            inOrder_removedChild_iff fun scope n => ih c hc (laidOut.below hc) scope n
        · refine here.nodes.imp fun {c d} before x hx y hy => ?_
          exact (before _ (location_mem_of_mem_removedChild hx) _
            (location_mem_of_mem_removedChild hy)).le
      have across : (∀ x ∈ old.interfaces.flatMap (removedOwned scope new),
          ∀ y ∈ old.nodes.flatMap (removedChild scope new), x.location ≤ y.location) ↔
          ∀ i ∈ old.interfaces, ∀ c ∈ old.nodes,
            ¬(c.location < i.location ∧ i.LostIn new ∧ c.LostIn new) := by
        simp only [List.forall_mem_flatMap]
        refine forall₂_congr fun i hi => ⟨fun h c hc => ?_, fun h x hx c hc => ?_⟩
        · exact (ordered_between_iff (here.apart i hi c hc)).1 fun x hx => h x hx c hc
        · exact (ordered_between_iff (here.apart i hi c hc)).2 (h c hc) x hx
      rw [removedNode_eq, inOrder_append_iff, and_iff_right (inOrder_removedOwned here), children,
        across, Node.crossed_iff, not_or]
      simp only [not_exists, not_and]

end Sorted

/-- The first pass adds elements at the places where the second pass the other way round finds them
gone. -/
theorem inOrder_additions_iff (a b : Node) :
    InOrder ((compare a b).filter Change.isAddition) ↔ InOrder (removedNode none a b) := by
  have same : ((compare a b).filter Change.isAddition).map Change.location =
      (removedNode none a b).map Change.location := by
    rw [filter_isAddition_compare]
    exact map_eq_of_forall₂ (fun _ _ mirrors => mirrors.location) (mirrored_node none a b).forall₂
  rw [InOrder, InOrder, ← List.pairwise_map (f := Change.location), same, List.pairwise_map]

end Compare

/-- Of two documents without a document type, the removals come last in a comparison. The additions
come in the order of the new document and the removals in that of the old one, unless a child node
stands before an interface and both have come, or both have gone, as a whole or in part. -/
theorem parsed_changes_ordered {oldOptions newOptions : Introspection.Options}
    {oldBytes newBytes : List UInt8} {oldText newText : List Char}
    {old new : Introspection.Parsed}
    (readOld : Introspection.parseBytes oldOptions oldBytes = .ok old)
    (readNew : Introspection.parseBytes newOptions newBytes = .ok new)
    (decodedOld : Text.Utf8.decode oldBytes = .ok oldText)
    (decodedNew : Text.Utf8.decode newBytes = .ok newText)
    (plainOld : Introspection.hasDoctype oldText = false)
    (plainNew : Introspection.hasDoctype newText = false) :
    (compare old.root new.root).Pairwise (fun c d => c.isRemoval = true → d.isRemoval = true) ∧
      (InOrder ((compare old.root new.root).filter Change.isAddition) ↔
        ¬new.root.Crossed old.root) ∧
      (InOrder ((compare old.root new.root).filter Change.isRemoval) ↔
        ¬old.root.Crossed new.root) := by
  have laidOutOld := Introspection.parseBytes_laidOut readOld decodedOld plainOld
  have laidOutNew := Introspection.parseBytes_laidOut readNew decodedNew plainNew
  refine ⟨?_, ?_, ?_⟩
  · have first := (mirrored_node none old.root new.root).first_not_removal
    have second := (mirrored_node none new.root old.root).second_removal
    refine List.pairwise_append.2 ⟨?_, ?_, fun c _ d hd _ => (second d hd).1⟩
    · exact List.pairwise_of_forall_mem_list fun c hc _ _ removal => absurd removal (first c hc)
    · exact List.pairwise_of_forall_mem_list fun _ _ d hd _ => (second d hd).1
  · rw [inOrder_additions_iff]
    exact inOrder_removedNode_iff laidOutNew none old.root
  · rw [filter_isRemoval_compare]
    exact inOrder_removedNode_iff laidOutOld none new.root

/-- A hall with what is in it. -/
def hallText (content : String) : List Char := ("<node>" ++ content ++ "</node>").toList

def hall (content : String) : List UInt8 := Text.Utf8.encode (hallText content)

/-- Where a bell and after it a room come to a hall, the additions are in order. -/
theorem bell_then_room_ordered :
    ∃ old new, Introspection.parseBytes {} (hall "") = .ok old ∧
      Introspection.parseBytes {}
        (hall "\n<interface name='o.Bell'/>\n<node name='room'/>") = .ok new ∧
      ((compare old.root new.root).map fun c => (c.code, c.location)) =
        [(.added .interface, ⟨2, 1⟩), (.added .node, ⟨3, 1⟩)] ∧
      (compare old.root new.root).Pairwise (fun c d => c.isRemoval = true → d.isRemoval = true) ∧
      (InOrder ((compare old.root new.root).filter Change.isAddition) ↔
        ¬new.root.Crossed old.root) ∧
      (InOrder ((compare old.root new.root).filter Change.isRemoval) ↔
        ¬old.root.Crossed new.root) := by
  have found : Introspection.holdsOfBoth
      (fun a b => ((compare a b).map fun c => (c.code, c.location)) ==
        [(.added .interface, ⟨2, 1⟩), (.added .node, ⟨3, 1⟩)])
      (hall "") (hall "\n<interface name='o.Bell'/>\n<node name='room'/>") = some true := by
    decide +kernel
  obtain ⟨old, new, readOld, readNew, came⟩ := Introspection.of_holdsOfBoth found
  refine ⟨old, new, readOld, readNew, eq_of_beq came, ?_⟩
  have decodedOld : Text.Utf8.decode (hall "") = .ok (hallText "") := by decide +kernel
  have decodedNew : Text.Utf8.decode (hall "\n<interface name='o.Bell'/>\n<node name='room'/>") =
      .ok (hallText "\n<interface name='o.Bell'/>\n<node name='room'/>") := by decide +kernel
  exact parsed_changes_ordered readOld readNew decodedOld decodedNew (by decide +kernel)
    (by decide +kernel)

/-- Where the room stands before the bell, the bell is still told of first, whether both come or
go. -/
theorem room_then_bell_disordered :
    ∃ old new, Introspection.parseBytes {} (hall "") = .ok old ∧
      Introspection.parseBytes {}
        (hall "\n<node name='room'/>\n<interface name='o.Bell'/>") = .ok new ∧
      Introspection.hasDoctype (hallText "") = false ∧
      Introspection.hasDoctype
        (hallText "\n<node name='room'/>\n<interface name='o.Bell'/>") = false ∧
      ¬InOrder ((compare old.root new.root).filter Change.isAddition) ∧
      ¬InOrder ((compare new.root old.root).filter Change.isRemoval) := by
  have found : Introspection.holdsOfBoth
      (fun a b => !decide (InOrder ((compare a b).filter Change.isAddition)) &&
        !decide (InOrder ((compare b a).filter Change.isRemoval)))
      (hall "") (hall "\n<node name='room'/>\n<interface name='o.Bell'/>") = some true := by
    decide +kernel
  obtain ⟨old, new, readOld, readNew, both⟩ := Introspection.of_holdsOfBoth found
  simp only [Bool.and_eq_true, Bool.not_eq_true', decide_eq_false_iff_not] at both
  exact ⟨old, new, readOld, readNew, by decide +kernel, by decide +kernel, both⟩

end ApiDrift
