import ApiDrift.Proofs.Introspection.Clean
/-! The nodes of a document against those of its description. Where nothing was found, the first
node element of the document is described with all nodes in it, and no other. -/
namespace ApiDrift.Introspection

section Trees

/-- A node apart from its interfaces and notes: its name, where it stands, and the nodes below. -/
inductive NodeTree where
  | mk (name : Option String) (location : Location) (below : List NodeTree)

def NodeTree.name : NodeTree → Option String
  | mk name _ _ => name

def NodeTree.append : NodeTree → List NodeTree → NodeTree
  | mk name location below, more => mk name location (below ++ more)

theorem NodeTree.append_nil (t : NodeTree) : t.append [] = t := by
  obtain ⟨name, location, below⟩ := t
  rw [append, List.append_nil]

theorem NodeTree.append_append (t : NodeTree) (first later : List NodeTree) :
    (t.append first).append later = t.append (first ++ later) := by
  obtain ⟨name, location, below⟩ := t
  rw [append, append, append, List.append_assoc]

mutual

/-- The nodes of a description. -/
def nodeTree : Node → NodeTree
  | ⟨name, _, nodes, _, _, location⟩ => .mk name location (nodeTrees nodes)

def nodeTrees : List Node → List NodeTree
  | [] => []
  | n :: rest => nodeTree n :: nodeTrees rest

end

theorem nodeTree_eq (n : Node) : nodeTree n = .mk n.name n.location (nodeTrees n.nodes) := by
  cases n
  rfl

theorem nodeTrees_append (l more : List Node) :
    nodeTrees (l ++ more) = nodeTrees l ++ nodeTrees more := by
  induction l with
  | nil => rfl
  | cons n rest ih => rw [List.cons_append, nodeTrees, ih, nodeTrees, List.cons_append]

/-- What a `node` element stands for, and whether it stands in an element of another vocabulary. -/
structure PlacedNode where
  isForeign : Bool
  tree : NodeTree

/-- Elements of other vocabularies are free, so nothing in them counts. -/
def counted (l : List PlacedNode) : List NodeTree :=
  (l.filter fun n => !n.isForeign).map PlacedNode.tree

mutual

/-- The outermost `node` elements at and below a node of a document, in document order, each with
those below it that count. -/
def nodesAt (foreign : Bool) : Xml.Node → List PlacedNode
  | .element head children =>
    if head.isPlain "node" then
      [⟨foreign, .mk (head.attribute? "name") head.location (counted (nodesAmong false children))⟩]
    else nodesAmong (foreign || head.uri.isSome) children
  | _ => []

def nodesAmong (foreign : Bool) : List Xml.Node → List PlacedNode
  | [] => []
  | n :: rest => nodesAt foreign n ++ nodesAmong foreign rest

end

/-- What an element stands for as a node. -/
def treeOf (head : Xml.Element) (children : List Xml.Node) : NodeTree :=
  .mk (head.attribute? "name") head.location (counted (nodesAmong false children))

/-- The outermost `node` elements of a document. A specification that is the document element is
looked into. -/
def nodesOf (d : Xml.Document) : List PlacedNode :=
  match d.children.find? Xml.Node.isElement with
  | some (.element head children) =>
    if head.uri = some specUri ∧ head.base = "spec" then nodesAmong false children
    else nodesAt false (.element head children)
  | _ => []

end Trees

section Counted

theorem counted_append (l more : List PlacedNode) :
    counted (l ++ more) = counted l ++ counted more := by
  rw [counted, List.filter_append, List.map_append, counted, counted]

theorem counted_eq_nil_iff {l : List PlacedNode} :
    counted l = [] ↔ ∀ n ∈ l, n.isForeign = true := by
  rw [counted, List.map_eq_nil_iff, List.filter_eq_nil_iff]
  simp only [Bool.not_eq_true', Bool.not_eq_false]

mutual

theorem counted_nodesAt_foreign (n : Xml.Node) : counted (nodesAt true n) = [] := by
  cases n with
  | element head children =>
      rw [nodesAt]
      split
      · rfl
      · exact counted_nodesAmong_foreign children
  | text s => rfl
  | comment s location => rfl
  | instruction => rfl

theorem counted_nodesAmong_foreign (l : List Xml.Node) : counted (nodesAmong true l) = [] := by
  cases l with
  | nil => rfl
  | cons n rest =>
      rw [nodesAmong, counted_append, counted_nodesAt_foreign n, counted_nodesAmong_foreign rest]
      rfl

end

theorem counted_nodesAt_of_uri {head : Xml.Element} {children : List Xml.Node}
    (foreign : head.uri ≠ none) : counted (nodesAt false (.element head children)) = [] := by
  have some := Option.isSome_iff_ne_none.2 foreign
  have other : ¬head.isPlain "node" = true := by
    rw [Xml.Element.isPlain, ← Option.not_isSome, some]
    exact Bool.false_ne_true
  rw [nodesAt, if_neg other, some]
  exact counted_nodesAmong_foreign children

theorem nodesAt_node {head : Xml.Element} {children : List Xml.Node} (plain : head.uri = none)
    (node : head.base = "node") :
    nodesAt false (.element head children) = [⟨false, treeOf head children⟩] := by
  have own : head.isPlain "node" = true := by
    rw [Xml.Element.isPlain, plain, node]
    rfl
  rw [nodesAt, if_pos own, treeOf]

theorem nodesAt_other {head : Xml.Element} {children : List Xml.Node} (plain : head.uri = none)
    (other : head.base ≠ "node") :
    nodesAt false (.element head children) = nodesAmong false children := by
  rw [nodesAt, if_neg, plain]
  · rfl
  · rw [Xml.Element.isPlain, plain, beq_false_of_ne other]
    exact Bool.false_ne_true

/-- No node counts among these. -/
def NoNodes (children : List Xml.Node) : Prop := counted (nodesAmong false children) = []

theorem noNodes_of_each {names : List String} {children : List Xml.Node}
    (tidy : Tidy names children)
    (each : EachOf names (fun head below => head.base ≠ "node" ∧ NoNodes below) children) :
    NoNodes children := by
  have known := tidy.known
  clear tidy
  induction children with
  | nil => rfl
  | cons n rest ih =>
      have later := ih (fun head below h => each head below (.tail _ h))
        fun head below h => known head below (.tail _ h)
      have here : counted (nodesAt false n) = [] := by
        cases n with
        | element head below =>
            by_cases plain : head.uri = none
            · have own := each head below (.head rest) plain (known head below (.head rest) plain)
              rw [nodesAt_other plain own.1]
              exact own.2
            · exact counted_nodesAt_of_uri plain
        | text s => rfl
        | comment s location => rfl
        | instruction => rfl
      rw [NoNodes, nodesAmong, counted_append, here, later]
      rfl

section Fits
variable {head : Xml.Element} {children : List Xml.Node} {kind : CallableKind}

theorem AnnotationFits.noNodes (fits : AnnotationFits head children) : NoNodes children :=
  noNodes_of_each fits.tidy fun _ _ _ _ known => absurd known List.not_mem_nil

theorem noNodes_of_annotations (tidy : Tidy ["annotation"] children)
    (annotations : Each "annotation" AnnotationFits children) : NoNodes children := by
  refine noNodes_of_each tidy fun head below h plain known => ?_
  have base := List.mem_singleton.1 known
  exact ⟨by simp [base], (annotations head below h plain base).noNodes⟩

theorem ArgumentFits.noNodes (fits : ArgumentFits kind head children) : NoNodes children :=
  noNodes_of_annotations fits.tidy fits.annotations

theorem PropertyFits.noNodes (fits : PropertyFits head children) : NoNodes children :=
  noNodes_of_annotations fits.tidy fits.annotations

theorem CallableFits.noNodes (fits : CallableFits kind head children) : NoNodes children := by
  refine noNodes_of_each fits.tidy fun head below h plain known => ?_
  simp only [List.mem_cons, List.not_mem_nil, or_false] at known
  obtain base | base := known
  · exact ⟨by simp [base], (fits.args head below h plain base).noNodes⟩
  · exact ⟨by simp [base], (fits.annotations head below h plain base).noNodes⟩

theorem InterfaceFits.noNodes (fits : InterfaceFits head children) : NoNodes children := by
  refine noNodes_of_each fits.tidy fun head below h plain known => ?_
  simp only [List.mem_cons, List.not_mem_nil, or_false] at known
  obtain base | base | base | base := known
  · exact ⟨by simp [base], (fits.methods head below h plain base).noNodes⟩
  · exact ⟨by simp [base], (fits.signals head below h plain base).noNodes⟩
  · exact ⟨by simp [base], (fits.properties head below h plain base).noNodes⟩
  · exact ⟨by simp [base], (fits.annotations head below h plain base).noNodes⟩

end Fits
end Counted

section Described

theorem nodeTree_addInterface (n : Node) (i : Interface) :
    nodeTree (addInterface n i).value = nodeTree n := by
  simp only [addInterface, Logged.value_bind, Logged.value_pure]
  split
  · rfl
  · rw [nodeTree_eq, nodeTree_eq]

theorem nodeTree_addNode {n child : Node} {name path : String} {location : Location}
    (clean : (addNode n name path location child).Clean) :
    nodeTree (addNode n name path location child).value =
      (nodeTree n).append [nodeTree child] := by
  have unknown := Logged.clean_reportWhen.1 (Logged.clean_bind.1 clean).1
  simp only [addNode, unknown, Logged.value_bind, Logged.value_pure]
  rw [nodeTree_eq, nodeTree_eq n, NodeTree.append, if_neg Bool.false_ne_true, nodeTrees_append]
  rfl

theorem nodeTree_addNodeChild {path : Option String} {n : Node} {c : Child}
    (plain : c.head.uri = none) (known : c.head.base ∈ nodeNames)
    (clean : (addNodeChild path n c).Clean)
    (below : ∀ path comment, (describeNode path c.head c.children comment).Clean →
      nodeTree (describeNode path c.head c.children comment).value = treeOf c.head c.children) :
    nodeTree (addNodeChild path n c).value =
      (nodeTree n).append (counted (nodesAt false (.element c.head c.children))) := by
  have accepted : isAccepted nodeNames c.head = true := isAccepted_iff.2 ⟨plain, known⟩
  simp only [nodeNames, List.mem_cons, List.not_mem_nil, or_false] at known
  rw [addNodeChild, addNodePart, accepted, if_neg (by decide)] at clean ⊢
  obtain base | base | base := known
  · have other : c.head.base ≠ "node" := by simp [base]
    rw [if_pos base] at clean ⊢
    have fits := clean_describeInterface_iff.1 (Logged.clean_bind.1 clean).1
    rw [nodesAt_other plain other, fits.noNodes, NodeTree.append_nil, Logged.value_bind]
    cases (describeInterface ⟨c.head, c.children, c.comment⟩).value with
    | none => rfl
    | some i => exact nodeTree_addInterface n i
  · have other : ¬c.head.base = "interface" := by simp [base]
    rw [if_neg other, if_pos base] at clean ⊢
    cases named : c.head.attribute? "name" with
    | none =>
        rw [named] at clean
        exact absurd (Logged.clean_bind.1 clean).1 (Logged.not_clean_report _ _)
    | some name =>
        rw [named] at clean
        dsimp only at clean ⊢
        obtain ⟨-, clean⟩ := Logged.clean_bind.1 clean
        obtain ⟨described, added⟩ := Logged.clean_bind.1 clean
        have tree := below (some (childPath path name)) c.comment described
        rw [describeNode] at tree
        rw [nodesAt_node plain base, Logged.value_bind, Logged.value_bind, nodeTree_addNode added,
          tree]
        rfl
  · have other : ¬c.head.base = "interface" ∧ ¬c.head.base = "node" := by simp [base]
    rw [if_neg other.1, if_neg other.2] at clean ⊢
    have fits := (clean_annotate_iff.1 (Logged.clean_bind.1 clean).1).1
    rw [nodesAt_other plain other.2, fits.noNodes, NodeTree.append_nil, nodeTree_eq, nodeTree_eq n]
    rfl

theorem nodeTree_addNodeParts {path : Option String} {children : List Xml.Node}
    (known : ∀ head below, .element head below ∈ children → head.uri = none → head.base ∈ nodeNames)
    (below : ∀ head inside, .element head inside ∈ children → ∀ path comment,
      (describeNode path head inside comment).Clean →
        nodeTree (describeNode path head inside comment).value = treeOf head inside)
    {n : Node} {pending : Option Documentation}
    (clean : (addNodeParts path pending n children).Clean) :
    nodeTree (addNodeParts path pending n children).value =
      (nodeTree n).append (counted (nodesAmong false children)) := by
  induction children generalizing n pending with
  | nil => exact (NodeTree.append_nil _).symm
  | cons child rest ih =>
      rw [addNodeParts] at clean ⊢
      obtain ⟨first, later⟩ := Logged.clean_bind.1 clean
      have added : nodeTree (addNodePart path pending n child).value =
          (nodeTree n).append (counted (nodesAt false child)) := by
        cases child with
        | element head inside =>
            by_cases plain : head.uri = none
            · exact nodeTree_addNodeChild (c := ⟨head, inside, pending⟩) plain
                (known head inside (.head rest) plain) first (below head inside (.head rest))
            · have skipped : isAccepted nodeNames head = false := by
                rw [Bool.eq_false_iff]
                exact fun accepted => plain (isAccepted_iff.1 accepted).1
              rw [counted_nodesAt_of_uri plain, NodeTree.append_nil, addNodePart, skipped]
              rfl
        | text s => exact (NodeTree.append_nil _).symm
        | comment s location => exact (NodeTree.append_nil _).symm
        | instruction => exact (NodeTree.append_nil _).symm
      rw [Logged.value_bind, nodesAmong, counted_append, ← NodeTree.append_append, ← added]
      exact ih (fun head below h => known head below (.tail _ h))
        (fun head inside h => below head inside (.tail _ h)) later

/-- An element in which nothing was found is described with the nodes that count in it. -/
theorem nodeTree_describeNode (path : Option String) {head : Xml.Element} {children : List Xml.Node}
    {comment : Option Documentation} (clean : (describeNode path head children comment).Clean) :
    nodeTree (describeNode path head children comment).value = treeOf head children := by
  induction children using below_induction generalizing path head comment with
  | step children ih =>
      have fits := (clean_describeNode_iff path head children comment).1 clean
      have known := (nodeFits_iff.1 fits).1.known
      obtain ⟨-, parts⟩ := Logged.clean_bind.1 clean
      have tree := nodeTree_addNodeParts known
        (fun head inside h path _ clean => ih head inside h path clean)
        (Logged.clean_bind.1 parts).1
      rw [nodeTree_eq] at tree ⊢
      exact tree

theorem nodeTree_describeRoot {head : Xml.Element} {children : List Xml.Node}
    {comment : Option Documentation} (clean : (describeRoot head children comment).Clean) :
    nodeTree (describeRoot head children comment).value = treeOf head children := by
  have described := (Logged.clean_bind.1 clean).1
  rw [describeRoot, Logged.value_bind]
  split <;> exact nodeTree_describeNode none described

end Described

section Document

mutual

theorem head?_nodesAt (foreign : Bool) (n : Xml.Node) :
    (nodesAt foreign n).head?.map PlacedNode.tree =
      ((elements n).find? fun e => e.1.isPlain "node").map fun e => treeOf e.1 e.2 := by
  cases n with
  | element head children =>
      rw [nodesAt, elements, List.find?_cons]
      cases head.isPlain "node" with
      | true => rfl
      | false => exact head?_nodesAmong _ children
  | text s => rfl
  | comment s location => rfl
  | instruction => rfl

theorem head?_nodesAmong (foreign : Bool) (l : List Xml.Node) :
    (nodesAmong foreign l).head?.map PlacedNode.tree =
      ((elementsAmong l).find? fun e => e.1.isPlain "node").map fun e => treeOf e.1 e.2 := by
  cases l with
  | nil => rfl
  | cons n rest =>
      rw [nodesAmong, elementsAmong, List.head?_append, List.find?_append, Option.map_or,
        Option.map_or, head?_nodesAt foreign n, head?_nodesAmong foreign rest]

end

/-- Of the outermost nodes of a document in which nothing was found the first is described. -/
theorem head?_nodesOf {d : Xml.Document} {root : Node} (clean : (describeDocument d).Clean)
    (described : (describeDocument d).value = some root) :
    (nodesOf d).head?.map PlacedNode.tree = some (nodeTree root) := by
  have element := rootElement?_eq [] d.children
  unfold nodesOf
  rw [← element]
  unfold describeDocument at clean described
  cases outer : rootElement? [] d.children with
  | none =>
      rw [outer] at described
      exact nomatch described
  | some e =>
      obtain ⟨head, children, before⟩ := e
      rw [outer] at clean described
      dsimp only [Option.map_some] at clean described ⊢
      have first := findElement?_eq "node" before (.element head children)
      have inside : (if head.uri = some specUri ∧ head.base = "spec" then nodesAmong false children
          else nodesAt false (.element head children)).head?.map PlacedNode.tree =
            ((elements (.element head children)).find? fun e => e.1.isPlain "node").map
              fun e => treeOf e.1 e.2 := by
        split
        · next spec =>
          have other : head.isPlain "node" = false := by
            rw [Xml.Element.isPlain, spec.1]
            rfl
          rw [elements, List.find?_cons, other]
          exact head?_nodesAmong false children
        · exact head?_nodesAt false (.element head children)
      rw [inside, ← first]
      cases found : findElement? "node" before (.element head children) with
      | none =>
          rw [found] at described
          split at described <;> exact nomatch described
      | some e =>
          obtain ⟨node, below, earlier⟩ := e
          rw [found] at clean described
          have clean : (describeRoot node below (precedingComment earlier)).Clean := by
            split at clean
            · exact (Logged.clean_bind.1 (Logged.clean_bind.1 clean).2).1
            · exact (Logged.clean_bind.1 clean).1
          have described : (describeRoot node below (precedingComment earlier)).value = root := by
            split at described <;> exact Option.some_inj.1 described
          rw [← described, nodeTree_describeRoot clean]
          rfl

theorem of_ofLogged_clean {file : Option String} {found : Logged (Option Node)} {p : Parsed}
    (read : Parsed.ofLogged file found = .ok p) (nothing : p.diagnostics = []) :
    found.Clean ∧ found.value = some p.root := by
  unfold Parsed.ofLogged at read
  split at read
  · exact nomatch read
  · cases value : found.value with
    | none =>
        rw [value] at read
        exact nomatch read
    | some root =>
        rw [value] at read
        obtain rfl := Except.ok.inj read
        exact ⟨List.map_eq_nil_iff.1 nothing, rfl⟩

/-- Each of these nodes that counts is the root: it is the first one, and all nodes in it are below
the root. -/
def Represents (root : Node) (l : List PlacedNode) : Prop :=
  ∀ i n, l[i]? = some n → n.isForeign = false → i = 0 ∧ n.tree = nodeTree root

theorem represents_iff {root : Node} {l : List PlacedNode}
    (first : l.head?.map PlacedNode.tree = some (nodeTree root)) :
    Represents root l ↔ counted l.tail = [] := by
  obtain ⟨n, head, tree⟩ := Option.map_eq_some_iff.1 first
  obtain ⟨others, rfl⟩ := List.head?_eq_some_iff.1 head
  rw [List.tail_cons, counted_eq_nil_iff]
  constructor
  · intro each m hm
    obtain ⟨i, found⟩ := List.mem_iff_getElem?.1 hm
    by_contra counts
    have zero := (each (i + 1) m found (Bool.eq_false_iff.2 counts)).1
    exact Nat.succ_ne_zero i zero
  · intro foreign i m found counts
    cases i with
    | zero =>
        obtain rfl := Option.some_inj.1 found
        exact ⟨rfl, tree⟩
    | succ i =>
        rw [foreign m (List.mem_of_getElem? found)] at counts
        exact nomatch counts

/-- Where nothing was found in a document, its first `node` element is described with all nodes in
it. All others are left out, so each node is represented just when no other one counts; and so it is
where the document element is a node. -/
theorem parseBytes_nodes_kept {options : Options} {bytes : List UInt8} {text : List Char}
    {d : Xml.Document} {p : Parsed} (decoded : Text.Utf8.decode bytes = .ok text)
    (wellFormed : Xml.Document.parse text = .ok d) (read : parseBytes options bytes = .ok p)
    (clean : p.diagnostics = []) :
    (nodesOf d).head?.map PlacedNode.tree = some (nodeTree p.root) ∧
      (Represents p.root (nodesOf d) ↔ counted (nodesOf d).tail = []) ∧
      ∀ head children, d.children.find? Xml.Node.isElement = some (.element head children) →
        head.isPlain "node" = true → nodesOf d = [⟨false, nodeTree p.root⟩] := by
  have outcome := parseBytes_eq_ofLogged decoded wellFormed fun location limit deep => by
    rw [read] at deep
    exact nomatch deep
  rw [read] at outcome
  obtain ⟨nothing, described⟩ := of_ofLogged_clean outcome.symm clean
  have first := head?_nodesOf nothing described
  refine ⟨first, represents_iff first, fun head children root plain => ?_⟩
  have unspecified : ¬(head.uri = some specUri ∧ head.base = "spec") := by
    rintro ⟨spec, -⟩
    rw [Xml.Element.isPlain, spec] at plain
    exact nomatch plain
  have single : nodesOf d = [⟨false, treeOf head children⟩] := by
    rw [nodesOf, root]
    dsimp only
    rw [if_neg unspecified, nodesAt, if_pos plain, treeOf]
  rw [single] at first ⊢
  have same : treeOf head children = nodeTree p.root := Option.some_inj.1 first
  rw [same]

/-- The outermost nodes of a document by their names, each with whether it is foreign. -/
def listNodes (bytes : List UInt8) : Option (List (Bool × Option String)) :=
  match Text.Utf8.decode bytes with
  | .error _ => none
  | .ok text =>
    match Xml.Document.parse text with
    | .error _ => none
    | .ok d => some ((nodesOf d).map fun n => (n.isForeign, n.tree.name))

theorem of_listNodes {bytes : List UInt8} {listed : List (Bool × Option String)}
    (h : listNodes bytes = some listed) : ∃ text d, Text.Utf8.decode bytes = .ok text ∧
      Xml.Document.parse text = .ok d ∧
      (nodesOf d).map (fun n => (n.isForeign, n.tree.name)) = listed := by
  unfold listNodes at h
  split at h
  · exact nomatch h
  · next text decoded =>
    split at h
    · exact nomatch h
    · next d wellFormed => exact ⟨text, d, decoded, wellFormed, Option.some_inj.1 h⟩

/-- The name of what bytes describe, if nothing was found in them. -/
def rootName? (bytes : List UInt8) : Option (Option String) :=
  match parseBytes {} bytes with
  | .error _ => none
  | .ok p => if p.diagnostics = [] then some p.root.name else none

theorem of_rootName? {bytes : List UInt8} {name : Option String} (h : rootName? bytes = some name) :
    ∃ p, parseBytes {} bytes = .ok p ∧ p.diagnostics = [] ∧ p.root.name = name := by
  unfold rootName? at h
  split at h
  · exact nomatch h
  · next p read =>
    obtain ⟨clean, named⟩ := Option.ite_none_right_eq_some.1 h
    exact ⟨p, read, clean, Option.some_inj.1 named⟩

/-- A specification of two bells, one below the other, after a title. -/
def specifiedBells : List UInt8 :=
  Text.Utf8.encode
    ("<tp:spec xmlns:tp='http://telepathy.freedesktop.org/wiki/DbusSpec#extensions-v0'>"
      ++ "<tp:title>Bells</tp:title><node name='/bell'><node name='clapper'/></node>"
      ++ "</tp:spec>").toList

theorem specifiedBells_kept : ∃ text d p, Text.Utf8.decode specifiedBells = .ok text ∧
    Xml.Document.parse text = .ok d ∧ parseBytes {} specifiedBells = .ok p ∧ p.diagnostics = [] ∧
    (nodesOf d).map (fun n => (n.isForeign, n.tree.name)) = [(false, some "/bell")] ∧
    Represents p.root (nodesOf d) := by
  have listed : listNodes specifiedBells = some [(false, some "/bell")] := by decide +kernel
  have named : rootName? specifiedBells = some (some "/bell") := by decide +kernel
  obtain ⟨text, d, decoded, wellFormed, nodes⟩ := of_listNodes listed
  obtain ⟨p, read, clean, -⟩ := of_rootName? named
  have others : counted (nodesOf d).tail = [] := by
    have none := congrArg List.tail nodes
    rw [← List.map_tail, List.tail_cons, List.map_eq_nil_iff] at none
    rw [none]
    rfl
  exact ⟨text, d, p, decoded, wellFormed, read, clean, nodes,
    (parseBytes_nodes_kept decoded wellFormed read clean).2.1.2 others⟩

/-- A specification of one bell, with another one in a remark of its own vocabulary. -/
def remarkedBell : List UInt8 :=
  Text.Utf8.encode
    ("<tp:spec xmlns:tp='http://telepathy.freedesktop.org/wiki/DbusSpec#extensions-v0'>"
      ++ "<tp:note><node name='/aside'/></tp:note><node name='/main'/></tp:spec>").toList

/-- Not every node is represented: here the only one that counts is left out. -/
theorem remarkedBell_lost : ∃ text d p, Text.Utf8.decode remarkedBell = .ok text ∧
    Xml.Document.parse text = .ok d ∧ parseBytes {} remarkedBell = .ok p ∧ p.diagnostics = [] ∧
    (nodesOf d).map (fun n => (n.isForeign, n.tree.name)) =
      [(true, some "/aside"), (false, some "/main")] ∧
    p.root.name = some "/aside" ∧ ¬ Represents p.root (nodesOf d) := by
  have listed : listNodes remarkedBell = some [(true, some "/aside"), (false, some "/main")] := by
    decide +kernel
  have named : rootName? remarkedBell = some (some "/aside") := by decide +kernel
  obtain ⟨text, d, decoded, wellFormed, nodes⟩ := of_listNodes listed
  obtain ⟨p, read, clean, aside⟩ := of_rootName? named
  refine ⟨text, d, p, decoded, wellFormed, read, clean, nodes, aside, fun each => ?_⟩
  have second : ((nodesOf d).map fun n => (n.isForeign, n.tree.name))[1]? =
      some (false, some "/main") := by
    rw [nodes]
    rfl
  rw [List.getElem?_map] at second
  obtain ⟨main, found, placed⟩ := Option.map_eq_some_iff.1 second
  exact absurd (each 1 main found (Prod.mk.inj placed).1).1 Nat.one_ne_zero

end Document

end ApiDrift.Introspection
