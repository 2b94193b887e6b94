import ApiDrift.Introspection.Nesting
/-! Which elements and comments a document comes to hold, and how deep, read off its tokens. What
an assembly holds at one time it holds for good, so each token is looked at on its own. -/
namespace ApiDrift.Xml

open Introspection (Effect)

/-- What can be told of a node when it begins. -/
inductive Mark where
  | element
  | comment (s : String)
deriving DecidableEq, Repr

def Node.mark? : Node → Option Mark
  | .element _ _ => some .element
  | .comment s _ => some (.comment s)
  | _ => none

/-- A node with the mark lies at this level of a list of siblings, which are at level one
themselves. -/
inductive Shows (m : Mark) : Nat → List Node → Prop
  | here {n : Node} {l : List Node} : n ∈ l → n.mark? = some m → Shows m 1 l
  | inside {head : Element} {children l : List Node} {k : Nat} :
      .element head children ∈ l → Shows m k children → Shows m (k + 1) l

mutual

def Node.marksFrom (level : Nat) : Node → List (Nat × Mark)
  | .element _ children => (level, .element) :: marksAmong (level + 1) children
  | n => n.mark?.toList.map fun m => (level, m)

/-- The marks of siblings at `level` and of all that lies below them. -/
def marksAmong (level : Nat) : List Node → List (Nat × Mark)
  | [] => []
  | n :: rest => n.marksFrom level ++ marksAmong level rest

end

/-- Whatever the one list shows, the other shows at the same level. -/
def Grows (l l' : List Node) : Prop := ∀ m k, Shows m k l → Shows m k l'

theorem Grows.refl (l : List Node) : Grows l l := fun _ _ shown => shown

theorem Grows.trans {l m n : List Node} (first : Grows l m) (second : Grows m n) : Grows l n :=
  fun mark k shown => second mark k (first mark k shown)

theorem grows_of_marked {l l' : List Node}
    (kept : ∀ n ∈ l, n.mark?.isSome = true → n ∈ l') : Grows l l' := by
  intro m k shown
  cases shown with
  | here mem mark => exact .here (kept _ mem (by rw [mark]; rfl)) mark
  | inside mem lower => exact .inside (kept _ mem rfl) lower

theorem grows_of_subset {l l' : List Node} (subset : l ⊆ l') : Grows l l' :=
  grows_of_marked fun _ mem _ => subset mem

theorem Grows.element {l l' : List Node} (grows : Grows l l') (head : Element) :
    Grows [.element head l] [.element head l'] := by
  intro m k shown
  cases shown with
  | here mem mark =>
      obtain rfl := List.mem_singleton.1 mem
      exact .here (List.mem_singleton.2 rfl) mark
  | inside mem lower =>
      cases List.mem_singleton.1 mem
      exact .inside (List.mem_singleton.2 rfl) (grows _ _ lower)

theorem not_shows_nil {m : Mark} {k : Nat} : ¬ Shows m k [] := by
  intro shown
  cases shown with
  | here mem _ => exact List.not_mem_nil mem
  | inside mem _ => exact List.not_mem_nil mem

theorem shows_append {m : Mark} {k : Nat} {l l' : List Node} :
    Shows m k (l ++ l') ↔ Shows m k l ∨ Shows m k l' := by
  constructor
  · intro shown
    cases shown with
    | here mem mark =>
        exact (List.mem_append.1 mem).imp (fun mem => .here mem mark) fun mem => .here mem mark
    | inside mem lower =>
        exact (List.mem_append.1 mem).imp (fun mem => .inside mem lower) fun mem => .inside mem lower
  · rintro (shown | shown)
    · exact grows_of_subset (List.subset_append_left l l') m k shown
    · exact grows_of_subset (List.subset_append_right l l') m k shown

theorem shows_element_iff {m : Mark} {k : Nat} {head : Element} {children : List Node} :
    Shows m k [.element head children] ↔
      (k = 1 ∧ m = .element) ∨ ∃ j, k = j + 1 ∧ Shows m j children := by
  constructor
  · intro shown
    cases shown with
    | here mem mark =>
        rw [List.mem_singleton.1 mem] at mark
        exact .inl ⟨rfl, (Option.some.inj mark).symm⟩
    | inside mem lower =>
        cases List.mem_singleton.1 mem
        exact .inr ⟨_, rfl, lower⟩
  · rintro (⟨rfl, rfl⟩ | ⟨j, rfl, lower⟩)
    · exact .here (List.mem_singleton.2 rfl) rfl
    · exact .inside (List.mem_singleton.2 rfl) lower

theorem shows_leaf_iff {m : Mark} {k : Nat} {n : Node} (leaf : n.isElement = false) :
    Shows m k [n] ↔ k = 1 ∧ n.mark? = some m := by
  constructor
  · intro shown
    cases shown with
    | here mem mark =>
        rw [List.mem_singleton.1 mem] at mark
        exact ⟨rfl, mark⟩
    | inside mem _ =>
        rw [← List.mem_singleton.1 mem] at leaf
        exact nomatch leaf
  · rintro ⟨rfl, mark⟩
    exact .here (List.mem_singleton.2 rfl) mark

theorem mem_leaf_iff {level j : Nat} {m : Mark} {n : Node} (leaf : n.isElement = false) :
    (j, m) ∈ n.mark?.toList.map (fun m => (level, m)) ↔
      ∃ k, j + 1 = level + k ∧ Shows m k [n] := by
  simp only [List.mem_map, Option.mem_toList, Prod.mk.injEq, shows_leaf_iff leaf]
  constructor
  · rintro ⟨_, mark, rfl, rfl⟩
    exact ⟨1, rfl, rfl, mark⟩
  · rintro ⟨k, below, rfl, mark⟩
    exact ⟨m, mark, by omega, rfl⟩

mutual

theorem mem_marksFrom_iff (level j : Nat) (m : Mark) : (n : Node) →
    ((j, m) ∈ n.marksFrom level ↔ ∃ k, j + 1 = level + k ∧ Shows m k [n])
  | .element head children => by
      have lower := mem_marksAmong_iff (level + 1) j m children
      simp only [Node.marksFrom, List.mem_cons, Prod.mk.injEq, lower, shows_element_iff]
      constructor
      · rintro (⟨rfl, rfl⟩ | ⟨k, below, shown⟩)
        · exact ⟨1, rfl, .inl ⟨rfl, rfl⟩⟩
        · exact ⟨k + 1, by omega, .inr ⟨k, rfl, shown⟩⟩
      · rintro ⟨k, below, ⟨rfl, rfl⟩ | ⟨i, rfl, shown⟩⟩
        · exact .inl ⟨by omega, rfl⟩
        · exact .inr ⟨i, by omega, shown⟩
  | .text _ => mem_leaf_iff rfl
  | .comment _ _ => mem_leaf_iff rfl
  | .instruction => mem_leaf_iff rfl

theorem mem_marksAmong_iff (level j : Nat) (m : Mark) : (l : List Node) →
    ((j, m) ∈ marksAmong level l ↔ ∃ k, j + 1 = level + k ∧ Shows m k l)
  | [] => ⟨nofun, fun ⟨_, _, shown⟩ => absurd shown not_shows_nil⟩
  | n :: rest => by
      have first := mem_marksFrom_iff level j m n
      have others := mem_marksAmong_iff level j m rest
      rw [marksAmong, List.mem_append, first, others, ← exists_or]
      refine exists_congr fun k => ?_
      rw [← and_or_left, ← shows_append, List.singleton_append]

end

theorem mem_marks_iff {m : Mark} {k : Nat} {l : List Node} :
    (k, m) ∈ marksAmong 1 l ↔ Shows m k l := by
  rw [mem_marksAmong_iff]
  constructor
  · rintro ⟨j, level, shown⟩
    obtain rfl : k = j := by omega
    exact shown
  · intro shown
    exact ⟨k, Nat.add_comm k 1, shown⟩

theorem Grows.append {l l' n n' : List Node} (first : Grows l l') (second : Grows n n') :
    Grows (l ++ n) (l' ++ n') :=
  fun m k shown =>
    shows_append.2 ((shows_append.1 shown).imp (first m k) (second m k))

theorem grows_reverse (l : List Node) : Grows l l.reverse :=
  grows_of_subset fun _ mem => List.mem_reverse.2 mem

theorem Grows.reverse {l l' : List Node} (grows : Grows l l') : Grows l.reverse l'.reverse := by
  have back := grows_reverse l.reverse
  rw [List.reverse_reverse] at back
  exact back.trans (grows.trans (grows_reverse l'))

/-- What a token does to the nesting. -/
def Token.effect : Token → Effect
  | .startTag tag => if tag.finish = .opened then .opens else .none
  | .endTag _ _ => .closes
  | _ => .none

/-- How many elements are open after an effect. -/
def depthAfter : Effect → Nat → Nat
  | .opens, depth => depth + 1
  | .closes, depth => depth - 1
  | .none, depth => depth

/-- Whether the token declares an entity. -/
def Token.declares : Token → Bool
  | .entity _ _ => true
  | _ => false

/-- Whether the token is a start tag in which a fault was found. -/
def Token.isBroken : Token → Bool
  | .startTag ⟨_, _, .broken _, _⟩ => true
  | _ => false

theorem isBroken_startTag_iff {tag : Tag} :
    (Token.startTag tag).isBroken = true ↔ ∃ fault, tag.finish = .broken fault := by
  obtain ⟨name, attributes, finish, place⟩ := tag
  cases finish <;> simp [Token.isBroken]

/-- Whether one of the tokens opens an element below `limit`, where `depth` elements are open before
them. -/
def OpensBeyond (limit depth : Nat) : List Token → Prop
  | [] => False
  | t :: rest =>
    (t.effect = .opens ∧ limit < depth + 1) ∨ OpensBeyond limit (depthAfter t.effect depth) rest

/-- What tokens say that come where `depth` elements are open, a list of nodes shows. -/
structure Bears (depth : Nat) (ts : List Token) (l : List Node) : Prop where
  opens : ∀ limit, OpensBeyond limit depth ts → ∃ level, limit < level ∧ Shows .element level l
  comment : ∀ s place, .comment s place ∈ ts → ∃ k, Shows (.comment (String.ofList s)) k l

theorem Bears.grows {depth : Nat} {ts : List Token} {l l' : List Node} (bears : Bears depth ts l)
    (grows : Grows l l') : Bears depth ts l' where
  opens limit beyond := by
    obtain ⟨level, below, shown⟩ := bears.opens limit beyond
    exact ⟨level, below, grows _ _ shown⟩
  comment s place mem := by
    obtain ⟨k, shown⟩ := bears.comment s place mem
    exact ⟨k, grows _ _ shown⟩

namespace Assembly

/-- The top of the document when all open elements are closed at once, the innermost of which
still takes `inner`. -/
def collapse (inner top : List Node) : List OpenElement → List Node
  | [] => inner ++ top
  | e :: rest => collapse [.element e.head (inner ++ e.children).reverse] top rest

def outline (a : Assembly) : List Node := collapse [] a.top a.opened

theorem grows_collapse {inner inner' : List Node} (grows : Grows inner inner')
    {top top' : List Node} (above : Grows top top') (opened : List OpenElement) :
    Grows (collapse inner top opened) (collapse inner' top' opened) := by
  induction opened generalizing inner inner' with
  | nil => exact grows.append above
  | cons e rest ih => exact ih ((grows.append (.refl e.children)).reverse.element e.head)

theorem shows_collapse {m : Mark} {k : Nat} {inner : List Node} (shown : Shows m k inner)
    (top : List Node) (opened : List OpenElement) :
    Shows m (k + opened.length) (collapse inner top opened) := by
  induction opened generalizing k inner with
  | nil => exact shows_append.2 (.inl shown)
  | cons e rest ih =>
      have inside : Shows m k (inner ++ e.children).reverse :=
        grows_reverse _ m k (shows_append.2 (.inl shown))
      have around : Shows m (k + 1) [.element e.head (inner ++ e.children).reverse] :=
        .inside (List.mem_singleton.2 rfl) inside
      have lower := ih around
      rwa [Nat.add_right_comm] at lower

/-- The siblings among which the next node comes, the last first. -/
def siblings (a : Assembly) : List Node :=
  match a.opened with
  | [] => a.top
  | e :: _ => e.children

def withSiblings (a : Assembly) (l : List Node) : Assembly :=
  match a.opened with
  | [] => { a with top := l }
  | e :: rest => { a with opened := { e with children := l } :: rest }

theorem addChild_eq (a : Assembly) (child : Node) :
    a.addChild child = a.withSiblings (child :: a.siblings) := by
  unfold addChild withSiblings siblings
  cases a.opened <;> rfl

theorem addText_eq (a : Assembly) (text : String) :
    a.addText text = a.withSiblings (addTextTo text a.siblings) := by
  unfold addText withSiblings siblings
  cases a.opened <;> rfl

theorem withSiblings_opened_length (a : Assembly) (l : List Node) :
    (a.withSiblings l).opened.length = a.opened.length := by
  unfold withSiblings
  cases h : a.opened with
  | nil => simp
  | cons e rest => rfl

theorem withSiblings_entities (a : Assembly) (l : List Node) :
    (a.withSiblings l).entities = a.entities := by
  unfold withSiblings
  cases a.opened <;> rfl

theorem grows_withSiblings (a : Assembly) {l : List Node} (grows : Grows a.siblings l) :
    Grows a.outline (a.withSiblings l).outline := by
  unfold outline withSiblings
  unfold siblings at grows
  cases h : a.opened with
  | nil =>
      simp only [h] at grows ⊢
      exact grows_collapse (.refl []) grows []
  | cons e rest =>
      simp only [h] at grows ⊢
      exact grows_collapse (grows.reverse.element e.head) (.refl a.top) rest

theorem shows_withSiblings (a : Assembly) {m : Mark} {k : Nat} {l : List Node}
    (shown : Shows m k l) : Shows m (k + a.opened.length) (a.withSiblings l).outline := by
  unfold outline withSiblings
  cases h : a.opened with
  | nil => exact shown
  | cons e rest =>
      have inside : Shows m (k + 1) [.element e.head l.reverse] :=
        .inside (List.mem_singleton.2 rfl) (grows_reverse l m k shown)
      have lower := shows_collapse inside a.top rest
      rwa [Nat.add_right_comm] at lower

theorem grows_addTextTo (text : String) (l : List Node) : Grows l (addTextTo text l) := by
  refine grows_of_marked fun n mem marked => ?_
  unfold addTextTo
  split
  · next s rest =>
    rcases List.mem_cons.1 mem with rfl | mem
    · cases marked
    · exact List.mem_cons_of_mem _ mem
  · exact List.mem_cons_of_mem _ mem

/-- Two assemblies apart from what belongs to the tag being read. -/
structure Beside (a b : Assembly) : Prop where
  entities : b.entities = a.entities
  opened : b.opened = a.opened
  top : b.top = a.top

theorem Beside.trans {a b c : Assembly} (first : Beside a b) (second : Beside b c) : Beside a c :=
  ⟨second.entities.trans first.entities, second.opened.trans first.opened,
    second.top.trans first.top⟩

theorem Beside.outline {a b : Assembly} (beside : Beside a b) : b.outline = a.outline := by
  unfold Assembly.outline
  rw [beside.opened, beside.top]

theorem addAttribute_beside {a b : Assembly} {name : QName} {value : String} {place : Location}
    (h : addAttribute a name value place = .ok b) : Beside a b := by
  unfold addAttribute at h
  repeat' split at h
  all_goals cases h
  all_goals exact ⟨rfl, rfl, rfl⟩

theorem addAttributes_beside {room : Nat} {a b : Assembly} {l : List RawAttribute}
    (h : addAttributes room a l = .ok b) : Beside a b := by
  induction l generalizing a with
  | nil =>
      obtain rfl := Except.ok.inj h
      exact ⟨rfl, rfl, rfl⟩
  | cons r rest ih =>
      unfold addAttributes at h
      split at h
      · cases h
      · next value references _ =>
        split at h
        · cases h
        · next c added =>
          have first := addAttribute_beside added
          exact Beside.trans ⟨first.entities, first.opened, first.top⟩ (ih h)

theorem settle_beside {a b : Assembly} {attributes : List Attribute}
    (h : a.settle = .ok (attributes, b)) : Beside a b := by
  unfold settle at h
  split at h
  · cases h
  · obtain ⟨-, rfl⟩ := Prod.mk.inj (Except.ok.inj h)
    exact ⟨rfl, rfl, rfl⟩

/-- What a start tag makes of an assembly. -/
inductive Started (a : Assembly) (tag : Tag) : Assembly → Prop
  | unfinished {c : Assembly} : tag.finish = .unfinished → Beside a c → Started a tag c
  | opened {c : Assembly} {head : Element} : tag.finish = .opened → Beside a c →
      head.location = tag.location →
      Started a tag { c with opened := ⟨tag.name, head, []⟩ :: c.opened }
  | empty {c : Assembly} {head : Element} : tag.finish = .empty → Beside a c →
      head.location = tag.location → Started a tag (c.addChild (.element head []))

theorem addStartTag_started {room : Nat} {a b : Assembly} {tag : Tag}
    (h : addStartTag room a tag = .ok b) : Started a tag b := by
  unfold addStartTag at h
  simp only [bind, Except.bind, throw, throwThe, MonadExceptOf.throw, pure, Except.pure] at h
  split at h
  · cases h
  split at h
  · cases h
  next c added =>
  have attributed : Beside a c := by
    have beside := addAttributes_beside added
    exact ⟨beside.entities, beside.opened, beside.top⟩
  cases finish : tag.finish with
  | unfinished =>
      simp only [finish] at h
      obtain rfl := Except.ok.inj h
      exact .unfinished finish attributed
  | broken e =>
      simp only [finish] at h
      cases h
  | opened =>
      simp only [finish, if_true] at h
      split at h
      · cases h
      next d settled =>
      split at h
      · cases h
      obtain rfl := Except.ok.inj h
      exact .opened finish (attributed.trans (settle_beside settled)) rfl
  | empty =>
      simp only [finish, reduceCtorEq, if_false] at h
      split at h
      · cases h
      next d settled =>
      split at h
      · cases h
      obtain rfl := Except.ok.inj h
      exact .empty finish (attributed.trans (settle_beside settled)) rfl

/-- What an end tag makes of an assembly: the innermost open element becomes a child. -/
inductive Ended (a : Assembly) (name : QName) : Assembly → Prop
  | closed {c : Assembly} {e : OpenElement} {rest : List OpenElement} : Beside a c →
      c.opened = e :: rest → e.name = name →
      Ended a name (addChild { c with opened := rest } (.element e.head e.children.reverse))

theorem addEndTag_ended {a b : Assembly} {name : QName} {place : Location}
    (h : addEndTag a name place = .ok b) : Ended a name b := by
  unfold addEndTag at h
  simp only [bind, Except.bind, throw, throwThe, MonadExceptOf.throw, pure, Except.pure] at h
  split at h
  case isFalse => cases h
  split at h
  · cases h
  next c settled =>
  split at h
  · cases h
  next e rest opened =>
  split at h
  case isFalse => cases h
  next same =>
  obtain rfl := Except.ok.inj h
  exact .closed (settle_beside settled) opened same

/-- What a token makes of an assembly without entities. -/
structure Steps (a : Assembly) (t : Token) (b : Assembly) : Prop where
  entities : b.entities = a.entities
  grows : Grows a.outline b.outline
  depth : b.opened.length = depthAfter t.effect a.opened.length
  opens : t.effect = .opens → Shows .element (a.opened.length + 1) b.outline
  comment : ∀ s place, t = .comment s place → ∃ k, Shows (.comment (String.ofList s)) k b.outline

theorem Steps.of_beside {a b : Assembly} {t : Token} (beside : Beside a b) (effect : t.effect = .none)
    (silent : ∀ s place, t ≠ .comment s place) : Steps a t b where
  entities := beside.entities
  grows := by
    rw [beside.outline]
    exact .refl _
  depth := by rw [effect, beside.opened, depthAfter]
  opens := by
    rw [effect]
    exact nofun
  comment s place is_ := absurd is_ (silent s place)

theorem Steps.of_siblings {a b : Assembly} {t : Token} {l : List Node} (beside : Beside a b)
    (grows : Grows b.siblings l) (effect : t.effect = .none)
    (comment : ∀ s place, t = .comment s place → Shows (.comment (String.ofList s)) 1 l) :
    Steps a t (b.withSiblings l) where
  entities := (withSiblings_entities b l).trans beside.entities
  grows := by
    rw [← beside.outline]
    exact grows_withSiblings b grows
  depth := by rw [withSiblings_opened_length, beside.opened, effect, depthAfter]
  opens := by
    rw [effect]
    exact nofun
  comment s place is_ := ⟨_, shows_withSiblings b (comment s place is_)⟩

theorem addStartTag_steps {room : Nat} {a b : Assembly} {tag : Tag}
    (h : addStartTag room a tag = .ok b) : Steps a (.startTag tag) b := by
  cases addStartTag_started h with
  | unfinished finish beside => exact .of_beside beside (by simp [Token.effect, finish]) nofun
  | @opened c head finish beside _ =>
      have effect : (Token.startTag tag).effect = .opens := by simp [Token.effect, finish]
      have around : Shows .element 1 [.element head []] := .here (List.mem_singleton.2 rfl) rfl
      refine ⟨beside.entities, ?_, ?_, fun _ => ?_, nofun⟩
      · rw [← beside.outline]
        exact grows_collapse (grows_of_subset (List.nil_subset _)) (.refl _) _
      · rw [effect, ← beside.opened, depthAfter, List.length_cons]
      · rw [← beside.opened, Nat.add_comm]
        exact shows_collapse around _ _
  | empty finish beside _ =>
      rw [addChild_eq]
      exact .of_siblings beside (grows_of_subset (List.subset_cons_self _ _))
        (by simp [Token.effect, finish]) nofun

theorem addEndTag_steps {a b : Assembly} {name : QName} {place : Location}
    (h : addEndTag a name place = .ok b) : Steps a (.endTag name place) b := by
  cases addEndTag_ended h with
  | @closed c e rest beside opened _ =>
      rw [addChild_eq]
      have closed : a.outline = (withSiblings { c with opened := rest } (.element e.head
          e.children.reverse :: siblings { c with opened := rest })).outline := by
        rw [← beside.outline]
        unfold outline
        rw [opened]
        cases rest <;> rfl
      refine ⟨?_, ?_, ?_, nofun, nofun⟩
      · rw [withSiblings_entities]
        exact beside.entities
      · rw [closed]
        exact .refl _
      · rw [withSiblings_opened_length, ← beside.opened, opened]
        rfl

theorem addExpanded_eq_flush {room : Nat} {intake : Intake} {a b : Assembly} {text : List Char}
    {asIs : Bool} {s : Span} (none : a.entities = [])
    (h : addExpanded room intake a text asIs s = .ok b) : ∃ text, b = a.flush text := by
  fun_induction addExpanded room intake a text asIs s with
  | case1 a text => exact ⟨text, (Except.ok.inj h).symm⟩
  | case2 | case5 | case6 | case7 => cases h
  | case3 | case4 | case9 | case10 => next ih => exact ih none h
  | case8 a text asIs s tail name rest read value found =>
      rw [none] at found
      cases found

theorem addToken_steps {room : Nat} {intake : Intake} {a b : Assembly} {t : Token}
    (none : a.entities = []) (undeclared : t.declares = false)
    (h : addToken room intake a t = .ok b) : Steps a t b := by
  cases t with
  | startTag tag => exact addStartTag_steps h
  | endTag name place => exact addEndTag_steps h
  | text raw =>
      obtain ⟨text, rfl⟩ := addExpanded_eq_flush none h
      unfold flush
      split
      · exact .of_beside ⟨rfl, rfl, rfl⟩ rfl nofun
      · rw [addText_eq]
        exact .of_siblings ⟨rfl, rfl, rfl⟩ (grows_addTextTo _ _) rfl nofun
  | cdata text =>
      obtain rfl := Except.ok.inj h
      rw [addText_eq]
      exact .of_siblings ⟨rfl, rfl, rfl⟩ (grows_addTextTo _ _) rfl nofun
  | comment s place =>
      obtain rfl := Except.ok.inj h
      rw [addChild_eq]
      refine .of_siblings ⟨rfl, rfl, rfl⟩ (grows_of_subset (List.subset_cons_self _ _)) rfl ?_
      intro s' place' same
      obtain ⟨rfl, -⟩ := Token.comment.inj same
      exact .here (List.mem_cons_self ..) rfl
  | instruction =>
      obtain rfl := Except.ok.inj h
      rw [addChild_eq]
      exact .of_siblings ⟨rfl, rfl, rfl⟩ (grows_of_subset (List.subset_cons_self _ _)) rfl nofun
  | entity name value => exact nomatch undeclared

/-- What a run of tokens makes of an assembly without entities. -/
structure Runs (a : Assembly) (ts : List Token) (b : Assembly) : Prop where
  grows : Grows a.outline b.outline
  bears : Bears a.opened.length ts b.outline

theorem Runs.cons {a b c : Assembly} {t : Token} {ts : List Token} (first : Steps a t b)
    (later : Runs b ts c) : Runs a (t :: ts) c where
  grows := first.grows.trans later.grows
  bears := by
    refine ⟨?_, ?_⟩
    · rintro limit (⟨opens, below⟩ | beyond)
      · exact ⟨_, below, later.grows _ _ (first.opens opens)⟩
      · rw [← first.depth] at beyond
        exact later.bears.opens limit beyond
    · intro s place mem
      rcases List.mem_cons.1 mem with here | mem
      · obtain ⟨k, shown⟩ := first.comment s place here.symm
        exact ⟨k, later.grows _ _ shown⟩
      · exact later.bears.comment s place mem

theorem addTokens_runs {room : Nat} {intake : Intake} {a b : Assembly} {ts : List Token}
    (none : a.entities = []) (undeclared : ∀ t ∈ ts, t.declares = false)
    (h : addTokens room intake a ts = .ok b) : Runs a ts b := by
  induction ts generalizing a with
  | nil =>
      obtain rfl := Except.ok.inj h
      exact ⟨.refl _, fun _ => nofun, fun _ _ => nofun⟩
  | cons t ts ih =>
      unfold addTokens at h
      split at h
      · cases h
      · next c added =>
        obtain ⟨first, others⟩ := List.forall_mem_cons.1 undeclared
        have step := addToken_steps none first added
        exact .cons step (ih (step.entities.trans none) others h)

theorem addStartTag_intact {room : Nat} {a b : Assembly} {tag : Tag}
    (h : addStartTag room a tag = .ok b) : (Token.startTag tag).isBroken = false := by
  have finished (fault : Fault) : tag.finish ≠ .broken fault := by
    cases addStartTag_started h with
    | unfinished finish _ | opened finish _ _ | empty finish _ _ =>
        rw [finish]
        exact nofun
  rw [← Bool.not_eq_true, isBroken_startTag_iff]
  rintro ⟨fault, broken⟩
  exact finished fault broken

theorem addTokens_intact {room : Nat} {intake : Intake} {a b : Assembly} {ts : List Token}
    (h : addTokens room intake a ts = .ok b) : ∀ t ∈ ts, t.isBroken = false := by
  induction ts generalizing a with
  | nil => exact fun _ => nofun
  | cons t ts ih =>
      unfold addTokens at h
      split at h
      · cases h
      · next c added =>
        refine List.forall_mem_cons.2 ⟨?_, ih h⟩
        cases t with
        | startTag tag => exact addStartTag_intact added
        | _ => rfl

theorem addScan_ok {room : Nat} {intake : Intake} {a b : Assembly} {scan : Scan}
    (h : addScan room intake a scan = .ok b) :
    scan.fault = none ∧ addTokens room intake a scan.tokens = .ok b := by
  unfold addScan at h
  split at h
  · cases h
  · next c added =>
    cases fault : scan.fault with
    | none =>
        simp only [fault] at h
        exact ⟨rfl, added.trans h⟩
    | some e =>
        simp only [fault] at h
        cases h

end Assembly

namespace Document

theorem parse_faultless {text : List Char} {d : Document} (h : parse text = .ok d) :
    (Scan.ofDocument text).fault = none ∧
      ∀ t ∈ (Scan.ofDocument text).tokens, t.isBroken = false := by
  unfold parse at h
  split at h
  · cases h
  · next a assembled =>
    obtain ⟨faultless, added⟩ := Assembly.addScan_ok assembled
    exact ⟨faultless, Assembly.addTokens_intact added⟩

theorem parse_bears {text : List Char} {d : Document} (h : parse text = .ok d)
    (undeclared : ∀ t ∈ (Scan.ofDocument text).tokens, t.declares = false) :
    Bears 0 (Scan.ofDocument text).tokens d.children := by
  unfold parse at h
  split at h
  · cases h
  next a assembled =>
  split at h
  · cases h
  next closed =>
  split at h
  · cases h
  obtain rfl := Except.ok.inj h
  have runs := Assembly.addTokens_runs rfl undeclared (Assembly.addScan_ok assembled).2
  have whole : a.outline = a.top := by
    simp only [Bool.not_eq_true', Bool.not_eq_false, List.isEmpty_iff] at closed
    unfold Assembly.outline
    rw [closed]
    rfl
  exact runs.bears.grows (whole ▸ grows_reverse a.top)

end Document

end ApiDrift.Xml
