import ApiDrift.Proofs.Introspection.Members
import ApiDrift.Proofs.Introspection.Parse
/-! A document is read without any finding just when it is in the grammar. -/
namespace ApiDrift.Introspection

section Nodes

/-- What a node defines. -/
def nodeDefinitions (n : Node) : List (String × String) :=
  definitions "interface" (n.interfaces.map Interface.name) ++
    definitions "node" (n.nodes.filterMap Node.name) ++ annotationDefinitions n.annotations

theorem mem_nodeDefinitions_iff {n : Node} {kind name : String} :
    (kind, name) ∈ nodeDefinitions n ↔
      kind = "interface" ∧ name ∈ n.interfaces.map Interface.name ∨
      kind = "node" ∧ name ∈ n.nodes.filterMap Node.name ∨
      kind = "annotation" ∧ name ∈ n.annotations.toList.map Annotation.name := by
  simp only [nodeDefinitions, annotationDefinitions, List.mem_append, mem_definitions_iff, or_assoc]

/-- The node with what an accepted child adds to it. -/
def addNodeChild (path : Option String) (n : Node) (c : Child) : Logged Node :=
  addNodePart path c.comment n (.element c.head c.children)

theorem addNodeParts_eq_foldlM {path : Option String} {pending : Option Documentation} {n : Node}
    {children : List Xml.Node} :
    addNodeParts path pending n children =
      (acceptedChildren nodeNames pending children).foldlM (addNodeChild path) n := by
  induction children generalizing pending n with
  | nil => rfl
  | cons child rest ih =>
      rw [addNodeParts]
      simp only [ih, acceptedChildren]
      cases child with
      | element head below =>
          dsimp only
          by_cases accepted : isAccepted nodeNames head
          · rw [if_pos accepted, List.foldlM_cons]
            rfl
          · have skipped : addNodePart path pending n (.element head below) = pure n := by
              rw [addNodePart, if_pos (by simpa using accepted)]
            rw [if_neg accepted, skipped]
            rfl
      | text s => rfl
      | comment s location => rfl
      | instruction => rfl

section Parts
variable {path : Option String} {n : Node} {c : Child}

theorem takes_interface (plain : c.head.uri = none) (base : c.head.base = "interface") :
    Takes nodeDefinitions n c.head (InterfaceFits c.head c.children) (addNodeChild path n c) := by
  have accepted : isAccepted nodeNames c.head = true :=
    isAccepted_iff.2 ⟨plain, by rw [base]; decide⟩
  rw [addNodeChild, addNodePart, accepted, if_neg (by decide), if_pos base]
  refine takes_named base (by decide) clean_describeInterface_iff
    (fun fits => fits.named.imp fun _ h => h.1) (fun _ => name_describeInterface) (fun _ => rfl)
    (fun name => ?_) fun i e => ?_
  · simp [mem_nodeDefinitions_iff]
  · simp only [nodeDefinitions, List.map_append, List.map_cons, List.map_nil, List.mem_append,
      mem_definitions_concat_iff]
    tauto

theorem node_takes_annotated (plain : c.head.uri = none) (base : c.head.base = "annotation") :
    Takes nodeDefinitions n c.head (AnnotationFits c.head c.children) (addNodeChild path n c) := by
  have accepted : isAccepted nodeNames c.head = true :=
    isAccepted_iff.2 ⟨plain, by rw [base]; decide⟩
  have other : ¬c.head.base = "interface" ∧ ¬c.head.base = "node" := by simp [base]
  rw [addNodeChild, addNodePart, accepted, if_neg (by decide), if_neg other.1, if_neg other.2]
  obtain ⟨name, interfaces, nodes, annotations, doc, location⟩ := n
  refine (takes_annotated annotations (nodePlace name) base).within nodeDefinitions
    (fun annotations => ⟨name, interfaces, nodes, annotations, doc, location⟩)
    (definitions "interface" (interfaces.map Interface.name) ++
      definitions "node" (nodes.filterMap Node.name)) (fun _ => rfl) fun d hd => ?_
  have kind := ((mem_defines?_iff (by simp [base])).1 hd).1
  simp only [List.mem_append, mem_definitions_iff, kind, base]
  simp

/-- The node that an element below the root describes. -/
def describeNode (path : Option String) (head : Xml.Element) (children : List Xml.Node)
    (comment : Option Documentation) : Logged Node :=
  describeNodeWith head children comment fun n => addNodeParts path none n children

theorem name_describeNode (path : Option String) (head : Xml.Element) (children : List Xml.Node)
    (comment : Option Documentation) :
    (describeNode path head children comment).value.name = head.attribute? "name" :=
  (sound_describeNodeWith head children fromComment_none
    fun _ h => sound_addNodeParts path children h fromComment_none).2

theorem takes_childNode (plain : c.head.uri = none) (base : c.head.base = "node")
    (below : ∀ path, (describeNode path c.head c.children c.comment).Clean ↔ NodeFits c.children) :
    Takes nodeDefinitions n c.head ((∃ name, c.head.attribute? "name" = some name ∧
      Name.isRelativePath name = true) ∧ NodeFits c.children) (addNodeChild path n c) := by
  have accepted : isAccepted nodeNames c.head = true :=
    isAccepted_iff.2 ⟨plain, by rw [base]; decide⟩
  have other : ¬c.head.base = "interface" := by simp [base]
  rw [addNodeChild, addNodePart, accepted, if_neg (by decide), if_neg other, if_pos base]
  cases named : c.head.attribute? "name" with
  | none =>
      have reported : ¬(do
          Logged.report c.head.location .unnamedChild
          pure n : Logged Node).Clean := fun h => Logged.not_clean_report _ _ (Logged.clean_bind.1 h).1
      refine ⟨iff_of_false reported ?_, fun h => absurd h reported⟩
      rintro ⟨⟨⟨_, h, _⟩, _⟩, _⟩
      cases h
  | some name =>
      dsimp only
      rw [← Logged.bind_assoc]
      refine takes_described ?_ fun _ => ?_
      · rw [Logged.clean_bind, Logged.clean_reportWhen, Bool.not_eq_false']
        refine and_congr ?_ (below (some (childPath path name)))
        simp only [Option.some.injEq, exists_eq_left']
      · let child := (describeNode (some (childPath path name)) c.head c.children c.comment).value
        have own : child.name = some name := (name_describeNode ..).trans named
        have single : [child].filterMap Node.name = [name] := List.filterMap_cons_some own
        refine ⟨("node", name), { n with nodes := n.nodes ++ [child] }, _, _, _, ?_, rfl, ?_,
          fun e => ?_⟩
        · rw [defines?, base, named]
          rfl
        · rw [Node.child?, isSome_find?_key_iff, mem_nodeDefinitions_iff]
          simp
        · simp only [nodeDefinitions, List.filterMap_append, single, List.mem_append,
            mem_definitions_concat_iff]
          tauto

theorem collects_nodeParts (path : Option String) {children : List Xml.Node} (below : ∀ head inside,
      .element head inside ∈ children → ∀ path comment,
        (describeNode path head inside comment).Clean ↔ NodeFits inside) :
    Collects nodeNames children (addNodeChild path) nodeDefinitions
      fun _ head inside => (head.base = "interface" → InterfaceFits head inside) ∧
        (head.base = "node" → (∃ name, head.attribute? "name" = some name ∧
          Name.isRelativePath name = true) ∧ NodeFits inside) ∧
        (head.base = "annotation" → AnnotationFits head inside) where
  takes n c h plain base := by
    simp only [nodeNames, List.mem_cons, List.not_mem_nil, or_false] at base
    obtain kind | kind | kind := base
    · exact (takes_interface plain kind).of_iff (by simp [kind])
    · exact (takes_childNode plain kind fun path => below _ _ h path c.comment).of_iff
        (by simp [kind])
    · exact (node_takes_annotated plain kind).of_iff (by simp [kind])
  fits_step _ _ := rfl

theorem nodeFits_iff {children : List Xml.Node} : NodeFits children ↔
    Tidy nodeNames children ∧ Each "interface" InterfaceFits children ∧
      Each "node" (fun head inside => (∃ name, head.attribute? "name" = some name ∧
        Name.isRelativePath name = true) ∧ NodeFits inside) children ∧
      Each "annotation" AnnotationFits children := by
  constructor
  · rintro ⟨tidy, interfaces, annotations, named, nodes⟩
    refine ⟨tidy, interfaces, fun head inside h plain base => ?_, annotations⟩
    exact ⟨named head inside h plain base, nodes head inside h plain base⟩
  · rintro ⟨tidy, interfaces, nodes, annotations⟩
    refine ⟨tidy, interfaces, annotations, ?_, ?_⟩
    · exact fun head inside h plain base => (nodes head inside h plain base).1
    · exact fun head inside h plain base => (nodes head inside h plain base).2

/-- What holds for the children of an element when it holds for what is in each of them. -/
theorem below_induction {P : List Xml.Node → Prop}
    (step : ∀ children, (∀ head inside, .element head inside ∈ children → P inside) → P children)
    (children : List Xml.Node) : P children :=
  step children fun head inside _ => below_induction step inside
termination_by sizeOf children
decreasing_by
  have smaller := List.sizeOf_lt_of_mem ‹Xml.Node.element head inside ∈ children›
  rw [Xml.Node.element.sizeOf_spec] at smaller
  omega

theorem clean_describeNode_iff (path : Option String) (head : Xml.Element)
    (children : List Xml.Node) (comment : Option Documentation) :
    (describeNode path head children comment).Clean ↔ NodeFits children := by
  induction children using below_induction generalizing path head comment with
  | step children ih =>
      have collected := (collects_nodeParts path fun below inside h _ _ =>
        ih below inside h _ _ _).clean_children_iff
          { name := head.attribute? "name", location := head.location }
          (nodePlace (head.attribute? "name")) none rfl
      unfold describeNode describeNodeWith
      simp only [Logged.clean_bind, addNodeParts_eq_foldlM, Logged.clean_pure, and_true, collected]
      rw [nodeFits_iff, eachOf_and_iff, eachOf_and_iff, eachOf_named_iff (by decide),
        eachOf_named_iff (by decide), eachOf_named_iff (by decide)]

end Parts

theorem clean_describeRoot_iff {head : Xml.Element} {children : List Xml.Node}
    {comment : Option Documentation} : (describeRoot head children comment).Clean ↔
      (∀ path, head.attribute? "name" = some path → Name.isAbsolutePath path = true) ∧
        NodeFits children := by
  have own := name_describeNode none head children comment
  have below := clean_describeNode_iff none head children comment
  unfold describeNode at own below
  rw [describeRoot, Logged.clean_bind, below, and_comm, own]
  refine and_congr_left fun _ => ?_
  cases head.attribute? "name" with
  | none => simp
  | some path => simp

end Nodes

section Document

mutual

theorem findElement?_eq (name : String) (before : List Xml.Node) (n : Xml.Node) :
    (findElement? name before n).map (fun e => (e.1, e.2.1)) =
      (elements n).find? fun e => e.1.isPlain name := by
  cases n with
  | element head children =>
      rw [findElement?, elements, List.find?_cons]
      cases head.isPlain name with
      | true => rfl
      | false => exact findAmong?_eq name [] children
  | text s => rfl
  | comment s location => rfl
  | instruction => rfl

theorem findAmong?_eq (name : String) (before : List Xml.Node) (l : List Xml.Node) :
    (findAmong? name before l).map (fun e => (e.1, e.2.1)) =
      (elementsAmong l).find? fun e => e.1.isPlain name := by
  cases l with
  | nil => rfl
  | cons n rest =>
      rw [findAmong?, elementsAmong, List.find?_append, Option.map_or,
        findElement?_eq name before n, findAmong?_eq name (n :: before) rest]

end

theorem rootElement?_eq (before l : List Xml.Node) :
    (rootElement? before l).map (fun e => Xml.Node.element e.1 e.2.1) =
      l.find? Xml.Node.isElement := by
  induction l generalizing before with
  | nil => rfl
  | cons n rest ih =>
      cases n with
      | element head children => rfl
      | text s => exact ih _
      | comment s location => exact ih _
      | instruction => exact ih _

theorem clean_describeDocument_iff {d : Xml.Document} :
    (describeDocument d).Clean ∧ (describeDocument d).value.isSome ↔ DocumentFits d := by
  have first := rootElement?_eq [] d.children
  unfold describeDocument DocumentFits
  rw [← first]
  cases rootElement? [] d.children with
  | none => exact iff_of_false (fun h => nomatch h.2) fun ⟨_, _, h, _⟩ => nomatch h
  | some e =>
      obtain ⟨head, below, before⟩ := e
      have node := findElement?_eq "node" before (.element head below)
      have admitted : ¬(!head.isPlain "node" && !(head.uri == some specUri && head.base == "spec")) =
          true ↔ head.isPlain "node" = true ∨ head.uri = some specUri ∧ head.base = "spec" := by
        simp only [Bool.and_eq_true, Bool.not_eq_true', beq_iff_eq, not_and_or, Bool.not_eq_false]
      simp only [Option.map_some, Option.some.injEq, Xml.Node.element.injEq, and_assoc,
        exists_eq_left', exists_and_left, ← admitted, ← node]
      by_cases foreign : (!head.isPlain "node" &&
          !(head.uri == some specUri && head.base == "spec")) = true
      · simp only [foreign, if_true, Logged.clean_bind, Logged.not_clean_report, false_and,
          not_true_eq_false]
      · simp only [foreign]
        cases findElement? "node" before (.element head below) with
        | none => simp
        | some e =>
            obtain ⟨root, inside, before⟩ := e
            simp [clean_describeRoot_iff]

end Document

theorem clean_ofLogged_iff {file : Option String} {found : Logged (Option Node)} :
    (∃ p, Parsed.ofLogged file found = .ok p ∧ p.diagnostics = []) ↔
      found.Clean ∧ found.value.isSome := by
  unfold Parsed.ofLogged Logged.Clean
  constructor
  · rintro ⟨p, read, nothing⟩
    split at read
    · exact nomatch read
    · cases value : found.value with
      | none =>
          rw [value] at read
          exact nomatch read
      | some root =>
          rw [value] at read
          obtain rfl := Except.ok.inj read
          exact ⟨List.map_eq_nil_iff.1 nothing, rfl⟩
  · rintro ⟨clean, described⟩
    obtain ⟨root, value⟩ := Option.isSome_iff_exists.1 described
    refine ⟨⟨root, []⟩, ?_, rfl⟩
    simp only [clean, value, List.any_nil, List.map_nil, Bool.false_eq_true, if_false]

/-- A well-formed document, unless it is too deep, is read without any finding just when it is in
the grammar. -/
theorem parseBytes_clean_iff {options : Options} {bytes : List UInt8} {text : List Char}
    {d : Xml.Document} (decoded : Text.Utf8.decode bytes = .ok text)
    (wellFormed : Xml.Document.parse text = .ok d)
    (shallow : ∀ location limit, parseBytes options bytes ≠ .error (.tooDeep location limit)) :
    (∃ p, parseBytes options bytes = .ok p ∧ p.diagnostics = []) ↔ DocumentFits d := by
  have read : parseBytes options bytes =
      Parsed.ofLogged options.file (describeDocument d) := by
    unfold parseBytes parseChars parseDocument at shallow ⊢
    rw [decoded] at shallow ⊢
    dsimp only at shallow ⊢
    cases deep : tooDeepLocation? options.maxNesting text with
    | some l => exact absurd (by rw [deep]) (shallow l options.maxNesting)
    | none =>
        rw [deep, wellFormed] at shallow
        rw [wellFormed]
        dsimp only at shallow ⊢
        cases beyond : beyondAmong? options.maxNesting 1 d.children with
        | some l => exact absurd (by rw [beyond]) (shallow l options.maxNesting)
        | none => rfl
  rw [read, clean_ofLogged_iff, clean_describeDocument_iff]

/-- A document in which a signal has the name of a method. -/
def ringTwice : List UInt8 :=
  Text.Utf8.encode
    ("<node><interface name='o.Bell'><method name='Ring'/><signal name='Ring'/></interface>"
      ++ "<node name='clapper'/></node>").toList

theorem ringTwice_fits : ∃ text d p, Text.Utf8.decode ringTwice = .ok text ∧
    Xml.Document.parse text = .ok d ∧ parseBytes {} ringTwice = .ok p ∧
    p.diagnostics = [] ∧ DocumentFits d := by
  have wellFormed : ((Text.Utf8.decode ringTwice).toOption.map fun text =>
      (Xml.Document.parse text).toOption.isSome) = some true := by decide +kernel
  have findings : (parseBytes {} ringTwice).toOption.map Parsed.diagnostics = some [] := by
    decide +kernel
  obtain ⟨text, decoded, some⟩ := exists_of_toOption_map wellFormed
  obtain ⟨p, read, clean⟩ := exists_of_toOption_map findings
  cases parsed : Xml.Document.parse text with
  | error fault =>
      rw [parsed] at some
      exact nomatch some
  | ok d =>
      have fits := (parseBytes_clean_iff decoded parsed fun l n deep => by
        rw [read] at deep
        exact nomatch deep).1 ⟨p, read, clean⟩
      exact ⟨text, d, p, decoded, parsed, read, clean, fits⟩

end ApiDrift.Introspection
