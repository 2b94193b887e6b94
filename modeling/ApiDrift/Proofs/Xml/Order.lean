import ApiDrift.Proofs.Xml.Ascend
import ApiDrift.Proofs.Xml.Outline
/-! The elements of a document begin where its start tags stand, and in their order. What an
assembly holds is read from the front, and each token adds to it at the end. -/
namespace ApiDrift.Xml

mutual

/-- Where the elements of a node begin, in document order. -/
def Node.begins : Node → List Location
  | .element head children => head.location :: beginsAmong children
  | _ => []

def beginsAmong : List Node → List Location
  | [] => []
  | n :: rest => n.begins ++ beginsAmong rest

end

theorem beginsAmong_eq_flatMap (l : List Node) : beginsAmong l = l.flatMap Node.begins := by
  induction l with
  | nil => rfl
  | cons n rest ih => rw [beginsAmong, ih, List.flatMap_cons]

theorem beginsAmong_append (l more : List Node) :
    beginsAmong (l ++ more) = beginsAmong l ++ beginsAmong more := by
  simp only [beginsAmong_eq_flatMap, List.flatMap_append]

theorem beginsAmong_reverse_cons (n : Node) (l : List Node) :
    beginsAmong (n :: l).reverse = beginsAmong l.reverse ++ n.begins := by
  rw [List.reverse_cons, beginsAmong_append, beginsAmong, beginsAmong, List.append_nil]

namespace Assembly
variable {a b : Assembly}

/-- Where the elements begin that an assembly holds, in document order. -/
def begins (a : Assembly) : List Location := beginsAmong a.outline.reverse

theorem begins_collapse_cons (n : Node) (inner top : List Node) (opened : List OpenElement) :
    beginsAmong (collapse (n :: inner) top opened).reverse =
      beginsAmong (collapse inner top opened).reverse ++ n.begins := by
  induction opened generalizing n inner with
  | nil => exact beginsAmong_reverse_cons n (inner ++ top)
  | cons e rest ih =>
      rw [collapse, collapse, ih, ih _ [], List.append_assoc]
      refine congrArg _ ?_
      rw [List.cons_append, Node.begins, Node.begins, beginsAmong_reverse_cons]
      rfl

theorem begins_withSiblings (a : Assembly) (l : List Node) {more : List Location}
    (adds : beginsAmong l.reverse = beginsAmong a.siblings.reverse ++ more) :
    (a.withSiblings l).begins = a.begins ++ more := by
  unfold begins outline withSiblings
  unfold siblings at adds
  cases h : a.opened with
  | nil =>
      simp only [h] at adds ⊢
      exact adds
  | cons e rest =>
      simp only [h] at adds ⊢
      rw [collapse, collapse, begins_collapse_cons, begins_collapse_cons, List.append_assoc]
      refine congrArg _ ?_
      rw [List.nil_append, List.nil_append, Node.begins, Node.begins, adds]
      rfl

theorem begins_addChild (a : Assembly) (child : Node) :
    (a.addChild child).begins = a.begins ++ child.begins := by
  rw [addChild_eq]
  exact begins_withSiblings a _ (beginsAmong_reverse_cons child a.siblings)

theorem begins_addText (a : Assembly) (text : String) : (a.addText text).begins = a.begins := by
  have same : beginsAmong (addTextTo text a.siblings).reverse =
      beginsAmong a.siblings.reverse ++ [] := by
    rw [List.append_nil]
    unfold addTextTo
    split
    · next s rest siblings =>
      rw [siblings, beginsAmong_reverse_cons, beginsAmong_reverse_cons]
      rfl
    · rw [beginsAmong_reverse_cons]
      exact List.append_nil _
  rw [addText_eq, begins_withSiblings a _ same, List.append_nil]

theorem Beside.begins (beside : Beside a b) : b.begins = a.begins := by
  rw [Assembly.begins, beside.outline, Assembly.begins]

/-- From one assembly to another elements are added at the end, at some of these places. -/
def Adds (places : List Location) (a b : Assembly) : Prop :=
  ∃ more, more.Sublist places ∧ b.begins = a.begins ++ more

theorem adds_nothing {l : List Location} (same : b.begins = a.begins) : Adds l a b :=
  ⟨[], List.nil_sublist l, by rw [same, List.append_nil]⟩

theorem addStartTag_adds {room : Nat} {tag : Tag} (h : addStartTag room a tag = .ok b) :
    Adds [tag.location] a b := by
  cases addStartTag_started h with
  | unfinished _ beside => exact adds_nothing beside.begins
  | @opened c head _ beside place =>
      refine ⟨[head.location], place ▸ List.Sublist.refl _, ?_⟩
      rw [← beside.begins]
      exact begins_collapse_cons (.element head []) [] c.top c.opened
  | @empty c head _ beside place =>
      refine ⟨[head.location], place ▸ List.Sublist.refl _, ?_⟩
      rw [← beside.begins]
      exact begins_addChild c (.element head [])

theorem addEndTag_begins {name : QName} {place : Location}
    (h : addEndTag a name place = .ok b) : b.begins = a.begins := by
  cases addEndTag_ended h with
  | @closed c e rest beside opened _ =>
      have closed : c.outline =
          (addChild { c with opened := rest } (.element e.head e.children.reverse)).outline := by
        rw [addChild_eq]
        unfold outline
        rw [opened]
        cases rest <;> rfl
      rw [← beside.begins, begins, ← closed, begins]

theorem addToken_adds {room : Nat} {intake : Intake} {t : Token} (none : a.entities = [])
    (undeclared : t.declares = false) (h : addToken room intake a t = .ok b) :
    Adds (places [t]) a b := by
  cases t with
  | startTag tag => exact addStartTag_adds h
  | endTag name place => exact adds_nothing (addEndTag_begins h)
  | text raw =>
      obtain ⟨text, rfl⟩ := addExpanded_eq_flush none h
      unfold flush
      split
      · exact adds_nothing rfl
      · exact adds_nothing (begins_addText a _)
  | cdata text =>
      obtain rfl := Except.ok.inj h
      exact adds_nothing (begins_addText a _)
  | comment s place =>
      obtain rfl := Except.ok.inj h
      exact adds_nothing ((begins_addChild a _).trans (List.append_nil _))
  | instruction =>
      obtain rfl := Except.ok.inj h
      exact adds_nothing ((begins_addChild a _).trans (List.append_nil _))
  | entity name value => exact nomatch undeclared

theorem addTokens_adds {room : Nat} {intake : Intake} {ts : List Token} (none : a.entities = [])
    (undeclared : ∀ t ∈ ts, t.declares = false) (h : addTokens room intake a ts = .ok b) :
    Adds (places ts) a b := by
  induction ts generalizing a with
  | nil =>
      obtain rfl := Except.ok.inj h
      exact adds_nothing rfl
  | cons t ts ih =>
      unfold addTokens at h
      split at h
      · cases h
      · next c added =>
        obtain ⟨own, others⟩ := List.forall_mem_cons.1 undeclared
        have kept := (addToken_steps none own added).entities.trans none
        obtain ⟨first, among, here⟩ := addToken_adds none own added
        obtain ⟨later, amongLater, there⟩ := ih kept others h
        have split : places (t :: ts) = places [t] ++ places ts :=
          List.filterMap_append (l := [t]) ..
        refine ⟨first ++ later, split ▸ among.append amongLater, ?_⟩
        rw [there, here, List.append_assoc]

end Assembly

/-- In an accepted document without entities, elements begin at places of its start tags, and in
their order. -/
theorem Document.parse_begins {text : List Char} {d : Document} (h : parse text = .ok d)
    (undeclared : ∀ t ∈ (Scan.ofDocument text).tokens, t.declares = false) :
    (beginsAmong d.children).Sublist (places (Scan.ofDocument text).tokens) := by
  unfold parse at h
  split at h
  · cases h
  next a assembled =>
  split at h
  · cases h
  next closed =>
  split at h
  · cases h
  obtain rfl := Except.ok.inj h
  obtain ⟨more, among, whole⟩ :=
    Assembly.addTokens_adds rfl undeclared (Assembly.addScan_ok assembled).2
  have top : a.begins = beginsAmong a.top.reverse := by
    simp only [Bool.not_eq_true', Bool.not_eq_false, List.isEmpty_iff] at closed
    unfold Assembly.begins Assembly.outline
    rw [closed]
    rfl
  rw [← top, whole]
  exact among

end ApiDrift.Xml
