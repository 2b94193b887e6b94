import ApiDrift.Introspection.Describe
import ApiDrift.Proofs.Api.Shape
import ApiDrift.Proofs.Text.Blank
/-! What elements describe is sound, however broken they are: each builder keeps the invariant of
what it builds, whatever it passes over or reports. -/
namespace ApiDrift.Introspection

/-- A documentation, if there is one, that was taken from a comment. -/
def FromComment (doc : Option Documentation) : Prop := ∀ d ∈ doc, d.source = .comment

theorem fromComment_none : FromComment none := fun _ h => nomatch h

theorem FromComment.written {doc : Option Documentation} (h : FromComment doc) :
    ∀ d ∈ doc, d.Written := by
  intro d hd marked
  rw [h d hd] at marked
  rcases marked with annotated | element
  · exact nomatch annotated
  · exact nomatch element

theorem fromComment_pendingAfter {pending : Option Documentation} (h : FromComment pending)
    (n : Xml.Node) : FromComment (pendingAfter pending n) := by
  intro d hd
  cases n with
  | comment text location =>
      have same : commentDoc text location = d := Option.some_inj.1 hd
      rw [← same]
      rfl
  | text s =>
      simp only [pendingAfter] at hd
      split at hd
      · exact h d hd
      · exact nomatch hd
  | element head children => exact nomatch hd
  | instruction => exact nomatch hd

theorem fromComment_precedingComment (before : List Xml.Node) :
    FromComment (precedingComment before) := by
  induction before with
  | nil => exact fromComment_none
  | cons n rest ih =>
      cases n with
      | comment text location =>
          intro d hd
          have same : commentDoc text location = d := Option.some_inj.1 hd
          rw [← same]
          rfl
      | text s =>
          simp only [precedingComment]
          split
          · exact ih
          · exact fromComment_none
      | element head children => exact fromComment_none
      | instruction => exact fromComment_none

theorem fromComment_of_mem_acceptedChildren (names : List String) (l : List Xml.Node) :
    ∀ {pending : Option Documentation}, FromComment pending →
      ∀ c ∈ acceptedChildren names pending l, FromComment c.comment := by
  induction l with
  | nil => exact fun _ c hc => absurd hc List.not_mem_nil
  | cons n rest ih =>
      intro pending h c hc
      have later := ih (fromComment_pendingAfter h n) c
      cases n with
      | element head children =>
          simp only [acceptedChildren] at hc
          split at hc
          · rcases List.mem_cons.1 hc with rfl | hc
            · exact h
            · exact later hc
          · exact later hc
      | text s => exact later hc
      | comment text location => exact later hc
      | instruction => exact later hc

theorem written_childDoc? {n : Xml.Node} {d : Documentation} (h : childDoc? n = some d) :
    d.Written := by
  cases n with
  | element head children =>
      simp only [childDoc?, Option.ite_none_right_eq_some, Option.some.injEq, Bool.and_eq_true,
        Bool.not_eq_true'] at h
      obtain ⟨⟨-, filled⟩, rfl⟩ := h
      intro _ blank
      rw [Text.trim_eq_empty_iff.1 blank] at filled
      exact nomatch filled
  | text s => exact nomatch h
  | comment text location => exact nomatch h
  | instruction => exact nomatch h

theorem written_docChild? {children : List Xml.Node} : ∀ d ∈ docChild? children, d.Written := by
  intro d hd
  obtain ⟨n, -, found⟩ := List.mem_filterMap.1 (List.mem_of_getLast? hd)
  exact written_childDoc? found

/-- Annotations of different names, with the documentation that is found for their element. -/
theorem wellNoted_resolveDoc {annotations : Annotations} {children : List Xml.Node}
    {comment : Option Documentation} (distinct : annotations.Distinct) (h : FromComment comment) :
    WellNoted annotations (resolveDoc annotations (docChild? children) comment) := by
  refine ⟨distinct, fun d hd => ?_⟩
  rcases Option.or_eq_some_iff.1 hd with hd | ⟨-, hd⟩
  · rcases Option.or_eq_some_iff.1 hd with hd | ⟨-, hd⟩
    · obtain ⟨a, -, made⟩ := Option.bind_eq_some_iff.1 hd
      obtain ⟨filled, made⟩ := Option.ite_none_left_eq_some.1 made
      obtain rfl := Option.some_inj.1 made
      intro _ blank
      exact filled (Text.trim_eq_empty_iff.1 blank)
    · exact written_docChild? d hd
  · exact h.written d hd

theorem distinct_annotate {annotations : Annotations} (h : annotations.Distinct)
    (owner : Place) (c : Child) : (annotate annotations owner c).value.Distinct := by
  unfold annotate
  simp only [required, Logged.value_bind, Logged.value_pure]
  cases c.head.attribute? "name" with
  | none => exact h
  | some name => exact h.insert _

theorem distinct_annotateAll {owner : Place} {l : List Child} :
    ∀ {annotations : Annotations}, annotations.Distinct →
      (annotateAll annotations owner l).value.Distinct := by
  induction l with
  | nil => exact fun h => h
  | cons c rest ih => exact fun h => ih <| distinct_annotate h owner c

theorem directed_of_argumentDirection {e : Xml.Element} {kind : CallableKind}
    {label : ArgumentLabel} {owner : Place} {a : Argument}
    (h : a.direction = (argumentDirection e kind label owner).value) : a.Directed kind := by
  unfold argumentDirection at h
  cases kind with
  | method =>
      show a.direction.isSome
      rw [h]
      cases e.attribute? "direction" with
      | none => rfl
      | some value =>
          dsimp only [Option.bind_some]
          cases Direction.ofText? value <;> rfl
  | signal =>
      show a.direction = none
      rw [h]
      cases e.attribute? "direction" with
      | none => rfl
      | some value =>
          dsimp only [Option.bind_some]
          cases Direction.ofText? value with
          | none => rfl
          | some d => cases d <;> rfl

theorem sound_describeArgument {kind : CallableKind} {interface name : String} {position : Nat}
    {c : Child} (h : FromComment c.comment) :
    ∀ a ∈ (describeArgument kind interface name position c).value, a.Sound kind := by
  intro a ha
  simp only [describeArgument, required, Logged.value_bind, Logged.value_pure] at ha
  cases type : c.head.attribute? "type" with
  | none =>
      rw [type] at ha
      exact nomatch ha
  | some text =>
      rw [type] at ha
      dsimp only at ha
      split at ha <;>
        · obtain rfl := Option.some_inj.1 ha
          exact ⟨directed_of_argumentDirection rfl, rfl,
            wellNoted_resolveDoc (distinct_annotateAll Annotations.distinct_empty) h⟩

theorem sound_addCallableParts {kind : CallableKind} (interface : String) {l : List Child} :
    ∀ {callable : Callable}, callable.Sound kind → (∀ c ∈ l, FromComment c.comment) →
      (addCallableParts callable interface l).value.Sound kind := by
  induction l with
  | nil => exact fun h _ => h
  | cons c rest ih =>
      intro callable h comments
      have ⟨own, others⟩ := List.forall_mem_cons.1 comments
      unfold addCallableParts
      split
      · refine ih { h with args := fun a ha => ?_ } others
        rcases List.mem_append.1 ha with known | new
        · exact h.args a known
        · have sound := sound_describeArgument own a (Option.mem_toList.1 new)
          rwa [h.kind_eq] at sound
      · have annotations := distinct_annotate h.noted.distinct
          (.callable callable.kind interface callable.name) c
        exact ih { h with noted := ⟨annotations, h.noted.written⟩ } others

theorem sound_describeCallable {kind : CallableKind} {interface : String} {c : Child}
    (h : FromComment c.comment) :
    ∀ m ∈ (describeCallable kind interface c).value, m.Sound kind := by
  intro m hm
  simp only [describeCallable, required, Logged.value_bind, Logged.value_pure] at hm
  cases named : c.head.attribute? "name" with
  | none =>
      rw [named] at hm
      exact nomatch hm
  | some name =>
      rw [named] at hm
      obtain rfl := Option.some_inj.1 hm
      have start : Callable.Sound kind { kind, name, location := c.head.location } :=
        ⟨rfl, List.forall_mem_nil _, ⟨Annotations.distinct_empty, fromComment_none.written⟩⟩
      have parts := sound_addCallableParts interface start
        (fromComment_of_mem_acceptedChildren ["arg", "annotation"] c.children fromComment_none)
      exact { parts with noted := wellNoted_resolveDoc parts.noted.distinct h }

theorem sound_describeProperty {interface : String} {c : Child} (h : FromComment c.comment) :
    ∀ p ∈ (describeProperty interface c).value, p.Sound := by
  intro p hp
  simp only [describeProperty, required, Logged.value_bind, Logged.value_pure] at hp
  cases named : c.head.attribute? "name" with
  | none =>
      rw [named] at hp
      exact nomatch hp
  | some name =>
      rw [named] at hp
      cases type : c.head.attribute? "type" with
      | none =>
          rw [type] at hp
          exact nomatch hp
      | some text =>
          rw [type] at hp
          dsimp only [Logged.value_bind] at hp
          split at hp <;>
            · obtain ⟨access, -, rfl⟩ := Option.map_eq_some_iff.1 hp
              exact ⟨rfl, wellNoted_resolveDoc
                (distinct_annotateAll Annotations.distinct_empty) h⟩

theorem sound_addMethod {i : Interface} {m : Callable} (h : i.Sound) (hm : m.Sound .method) :
    (addMethod i m).value.Sound := by
  simp only [addMethod, Logged.value_bind, Logged.value_pure]
  split
  · exact h
  · next fresh =>
    exact { h with
      names := { h.names with methods := nodup_map_concat h.names.methods fresh }
      methods := List.forall_mem_append.2 ⟨h.methods, List.forall_mem_singleton.2 hm⟩ }

theorem sound_addSignal {i : Interface} {s : Callable} (h : i.Sound) (hs : s.Sound .signal) :
    (addSignal i s).value.Sound := by
  simp only [addSignal, Logged.value_bind, Logged.value_pure]
  split
  · exact h
  · next fresh =>
    exact { h with
      names := { h.names with signals := nodup_map_concat h.names.signals fresh }
      signals := List.forall_mem_append.2 ⟨h.signals, List.forall_mem_singleton.2 hs⟩ }

theorem sound_addProperty {i : Interface} {p : Property} (h : i.Sound) (hp : p.Sound) :
    (addProperty i p).value.Sound := by
  simp only [addProperty, Logged.value_bind, Logged.value_pure]
  split
  · exact h
  · next fresh =>
    exact { h with
      names := { h.names with properties := nodup_map_concat h.names.properties fresh }
      properties := List.forall_mem_append.2 ⟨h.properties, List.forall_mem_singleton.2 hp⟩ }

/-- What changes only the annotations and the documentation keeps an interface sound. -/
theorem sound_of_noted {i : Interface} {annotations : Annotations} {doc : Option Documentation}
    (h : i.Sound) (noted : WellNoted annotations doc) :
    Interface.Sound { i with annotations, doc } :=
  { h with names := { h.names with }, noted }

theorem sound_addMember {i : Interface} {c : Child} (h : i.Sound) (hc : FromComment c.comment) :
    (addMember i c).value.Sound := by
  unfold addMember
  split
  · rw [Logged.value_bind]
    cases described : (describeCallable .method i.name c).value with
    | none => exact h
    | some m => exact sound_addMethod h (sound_describeCallable hc m described)
  · split
    · rw [Logged.value_bind]
      cases described : (describeCallable .signal i.name c).value with
      | none => exact h
      | some s => exact sound_addSignal h (sound_describeCallable hc s described)
    · split
      · rw [Logged.value_bind]
        cases described : (describeProperty i.name c).value with
        | none => exact h
        | some p => exact sound_addProperty h (sound_describeProperty hc p described)
      · have annotations := distinct_annotate h.noted.distinct (.interface i.name) c
        exact sound_of_noted h ⟨annotations, h.noted.written⟩

theorem sound_addMembers {l : List Child} :
    ∀ {i : Interface}, i.Sound → (∀ c ∈ l, FromComment c.comment) →
      (addMembers i l).value.Sound := by
  induction l with
  | nil => exact fun h _ => h
  | cons c rest ih =>
      intro i h comments
      have ⟨own, others⟩ := List.forall_mem_cons.1 comments
      exact ih (sound_addMember h own) others

theorem sound_describeInterface {c : Child} (h : FromComment c.comment) :
    ∀ i ∈ (describeInterface c).value, i.Sound := by
  intro i hi
  simp only [describeInterface, required, Logged.value_bind, Logged.value_pure] at hi
  cases named : c.head.attribute? "name" with
  | none =>
      rw [named] at hi
      exact nomatch hi
  | some name =>
      rw [named] at hi
      obtain rfl := Option.some_inj.1 hi
      have start : Interface.Sound { name, location := c.head.location } :=
        ⟨⟨List.nodup_nil, List.nodup_nil, List.nodup_nil⟩, List.forall_mem_nil _,
          List.forall_mem_nil _, List.forall_mem_nil _,
          ⟨Annotations.distinct_empty, fromComment_none.written⟩⟩
      have members := sound_addMembers start
        (fromComment_of_mem_acceptedChildren interfaceNames c.children fromComment_none)
      exact sound_of_noted members (wellNoted_resolveDoc members.noted.distinct h)

theorem sound_of_nodes_eq {n m : Node} (h : n.Sound) (same : m.nodes = n.nodes)
    (here : m.SoundHere) : m.Sound := by
  refine Node.everywhere_iff.2 ⟨here, ?_⟩
  rw [same]
  exact fun c hc => h.below hc

theorem sound_addInterface {n : Node} {i : Interface} (h : n.Sound) (hi : i.Sound) :
    (addInterface n i).value.Sound := by
  simp only [addInterface, Logged.value_bind, Logged.value_pure]
  split
  · exact h
  · next fresh =>
    exact sound_of_nodes_eq h rfl { h.here with
      interfaceNames := nodup_map_concat h.here.interfaceNames fresh
      interfaces := List.forall_mem_append.2 ⟨h.here.interfaces, List.forall_mem_singleton.2 hi⟩ }

theorem sound_addNode {n child : Node} {name path : String} {location : Location} (h : n.Sound)
    (hc : child.Sound) (named : child.name = some name) :
    (addNode n name path location child).value.Sound := by
  simp only [addNode, Logged.value_bind, Logged.value_pure]
  split
  · exact h
  · next fresh =>
    rw [Node.child?, ← named] at fresh
    refine Node.everywhere_iff.2 ⟨{ h.here with
      childNames := nodup_map_concat h.here.childNames fresh
      childNamed := List.forall_mem_append.2 ⟨h.here.childNamed, ?_⟩ }, ?_⟩
    · exact List.forall_mem_singleton.2 (Option.isSome_of_eq_some named)
    · exact List.forall_mem_append.2 ⟨fun c => h.below, List.forall_mem_singleton.2 hc⟩

/-- An element describes a sound node under its own name, where its children keep nodes sound. -/
theorem sound_describeNodeWith (head : Xml.Element) (children : List Xml.Node)
    {comment : Option Documentation} {parts : Node → Logged Node} (hc : FromComment comment)
    (keeps : ∀ n : Node, n.Sound → (parts n).value.Sound ∧ (parts n).value.name = n.name) :
    (describeNodeWith head children comment parts).value.Sound ∧
      (describeNodeWith head children comment parts).value.name = head.attribute? "name" := by
  have start : Node.Sound { name := head.attribute? "name", location := head.location } :=
    Node.everywhere_iff.2 ⟨⟨List.nodup_nil, List.nodup_nil, List.forall_mem_nil _,
      List.forall_mem_nil _, ⟨Annotations.distinct_empty, fromComment_none.written⟩⟩,
      List.forall_mem_nil _⟩
  obtain ⟨sound, name⟩ := keeps _ start
  refine ⟨sound_of_nodes_eq sound rfl { sound.here with noted := ?_ }, name⟩
  exact wellNoted_resolveDoc sound.here.noted.distinct hc

theorem name_addInterface (n : Node) (i : Interface) : (addInterface n i).value.name = n.name := by
  simp only [addInterface, Logged.value_bind, Logged.value_pure]
  split <;> rfl

theorem name_addNode (n child : Node) (name path : String) (location : Location) :
    (addNode n name path location child).value.name = n.name := by
  simp only [addNode, Logged.value_bind, Logged.value_pure]
  split <;> rfl

mutual

theorem sound_addNodeParts (path : Option String) {pending : Option Documentation} {n : Node}
    (l : List Xml.Node) (h : n.Sound) (hp : FromComment pending) :
    (addNodeParts path pending n l).value.Sound ∧
      (addNodeParts path pending n l).value.name = n.name := by
  cases l with
  | nil => exact ⟨h, rfl⟩
  | cons child rest =>
      have first := sound_addNodePart path child h hp
      have later := sound_addNodeParts path rest first.1 (fromComment_pendingAfter hp child)
      exact ⟨later.1, later.2.trans first.2⟩

theorem sound_addNodePart (path : Option String) {pending : Option Documentation} {n : Node}
    (child : Xml.Node) (h : n.Sound) (hp : FromComment pending) :
    (addNodePart path pending n child).value.Sound ∧
      (addNodePart path pending n child).value.name = n.name := by
  cases child with
  | text s => exact ⟨h, rfl⟩
  | comment s location => exact ⟨h, rfl⟩
  | instruction => exact ⟨h, rfl⟩
  | element head children =>
      have below (path : Option String) (m : Node) (hm : m.Sound) :=
        sound_addNodeParts path children hm fromComment_none
      unfold addNodePart
      split
      · exact ⟨h, rfl⟩
      · split
        · rw [Logged.value_bind]
          cases described : (describeInterface ⟨head, children, pending⟩).value with
          | none => exact ⟨h, rfl⟩
          | some i =>
              have sound := sound_describeInterface (c := ⟨head, children, pending⟩) hp i described
              exact ⟨sound_addInterface h sound, name_addInterface n i⟩
        · split
          · split
            · exact ⟨h, rfl⟩
            · next name named =>
              simp only [Logged.value_bind]
              have described := sound_describeNodeWith head children hp
                (below (some (childPath path name)))
              exact ⟨sound_addNode h described.1 (described.2.trans named), name_addNode ..⟩
          · have annotations := distinct_annotate h.here.noted.distinct (nodePlace n.name)
              ⟨head, children, pending⟩
            exact ⟨sound_of_nodes_eq h rfl
              { h.here with noted := ⟨annotations, h.here.noted.written⟩ }, rfl⟩

end

theorem sound_describeRoot (head : Xml.Element) (children : List Xml.Node)
    {comment : Option Documentation} (hc : FromComment comment) :
    (describeRoot head children comment).value.Sound := by
  have described := sound_describeNodeWith head children hc fun n hn =>
    sound_addNodeParts none children hn fromComment_none
  rw [describeRoot, Logged.value_bind]
  split <;> exact described.1

end ApiDrift.Introspection
