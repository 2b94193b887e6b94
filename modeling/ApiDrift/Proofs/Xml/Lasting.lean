import ApiDrift.Proofs.Xml.Outline
import Mathlib.Data.List.Basic
/-! Elements and comments that an assembly holds stay in it, whatever is taken in later, expanded
entities included. -/
namespace ApiDrift.Xml

/-- What tells a node from others that begin elsewhere, without what an element comes to hold. -/
inductive Landmark where
  | element (head : Element)
  | comment (s : String) (place : Location)
deriving DecidableEq, Repr

def Node.landmark? : Node → Option Landmark
  | .element head _ => some (.element head)
  | .comment s place => some (.comment s place)
  | _ => none

/-- A node with the landmark is among siblings or anywhere inside of them. -/
inductive Stands (m : Landmark) : List Node → Prop
  | here {n : Node} {l : List Node} : n ∈ l → n.landmark? = some m → Stands m l
  | inside {head : Element} {children l : List Node} : .element head children ∈ l →
      Stands m children → Stands m l

variable {m : Landmark} {l l' : List Node}

theorem Stands.mono (stands : Stands m l)
    (kept : ∀ n ∈ l, n.landmark?.isSome = true → n ∈ l') : Stands m l' := by
  cases stands with
  | here mem mark => exact .here (kept _ mem (by rw [mark]; rfl)) mark
  | inside mem lower => exact .inside (kept _ mem rfl) lower

theorem Stands.subset (stands : Stands m l) (subset : l ⊆ l') : Stands m l' :=
  stands.mono fun _ mem _ => subset mem

theorem Stands.shows {s : String} {place : Location} (stands : Stands (.comment s place) l) :
    ∃ k, Shows (.comment s) k l := by
  induction stands with
  | @here n l mem mark =>
      refine ⟨1, .here mem ?_⟩
      cases n with
      | comment s' place' =>
          obtain ⟨rfl, -⟩ := Landmark.comment.inj (Option.some.inj mark)
          rfl
      | element head children => cases mark
      | text s => cases mark
      | instruction => cases mark
  | inside mem _ ih =>
      obtain ⟨k, shown⟩ := ih
      exact ⟨k + 1, .inside mem shown⟩

namespace Assembly

variable {a b c : Assembly}

/-- The landmark of a node that has been added, or of an element that is open. -/
def Has (a : Assembly) (m : Landmark) : Prop :=
  Stands m a.top ∨ ∃ e ∈ a.opened, m = .element e.head ∨ Stands m e.children

/-- Whatever the one assembly has, the other has. -/
def Lasts (a b : Assembly) : Prop := ∀ m, a.Has m → b.Has m

theorem Lasts.refl (a : Assembly) : Lasts a a := fun _ has => has

theorem Lasts.trans (first : Lasts a b) (second : Lasts b c) : Lasts a c :=
  fun m has => second m (first m has)

theorem Beside.lasts (beside : Beside a b) : Lasts a b := by
  intro m has
  unfold Has
  rw [beside.opened, beside.top]
  exact has

theorem lasts_withSiblings {l : List Node} (kept : ∀ m, Stands m a.siblings → Stands m l) :
    Lasts a (a.withSiblings l) := by
  intro m has
  unfold Has withSiblings at *
  unfold siblings at kept
  cases h : a.opened with
  | nil =>
      simp only [h] at kept has ⊢
      exact has.imp_left (kept m)
  | cons e rest =>
      simp only [h, List.exists_mem_cons_iff] at kept has ⊢
      exact has.imp_right fun inside => inside.imp_left fun first => first.imp_right (kept m)

theorem has_withSiblings (a : Assembly) {l : List Node} (stands : Stands m l) :
    (a.withSiblings l).Has m := by
  unfold Has withSiblings
  cases a.opened with
  | nil => exact .inl stands
  | cons e rest => exact .inr ⟨_, List.mem_cons_self .., .inr stands⟩

theorem lasts_addChild (a : Assembly) (child : Node) : Lasts a (a.addChild child) := by
  rw [addChild_eq]
  exact lasts_withSiblings fun m stands => stands.subset (List.subset_cons_self _ _)

theorem has_addChild (a : Assembly) {child : Node} (mark : child.landmark? = some m) :
    (a.addChild child).Has m := by
  rw [addChild_eq]
  exact has_withSiblings a (.here (List.mem_cons_self ..) mark)

theorem stands_addTextTo (text : String) (stands : Stands m l) : Stands m (addTextTo text l) := by
  refine stands.mono fun n mem marked => ?_
  unfold addTextTo
  split
  · rcases List.mem_cons.1 mem with rfl | mem
    · cases marked
    · exact List.mem_cons_of_mem _ mem
  · exact List.mem_cons_of_mem _ mem

theorem lasts_addText (a : Assembly) (text : String) : Lasts a (a.addText text) := by
  rw [addText_eq]
  exact lasts_withSiblings fun _ => stands_addTextTo text

theorem lasts_flush (a : Assembly) (text : List Char) : Lasts a (a.flush text) := by
  unfold flush
  split
  · exact .refl a
  · exact lasts_addText a _

theorem Started.lasts {tag : Tag} (started : Started a tag b) : Lasts a b := by
  cases started with
  | unfinished _ beside => exact beside.lasts
  | opened _ beside _ =>
      refine beside.lasts.trans fun m has => ?_
      exact has.imp_right fun ⟨e, mem, inside⟩ => ⟨e, List.mem_cons_of_mem _ mem, inside⟩
  | empty _ beside _ => exact beside.lasts.trans (lasts_addChild _ _)

theorem Ended.lasts {name : QName} (ended : Ended a name b) : Lasts a b := by
  cases ended with
  | @closed c e rest beside opened _ =>
      refine beside.lasts.trans fun m has => ?_
      unfold Has at has
      rw [opened, List.exists_mem_cons_iff] at has
      rcases has with above | (rfl | within) | around
      · exact lasts_addChild { c with opened := rest } _ m (.inl above)
      · exact has_addChild _ rfl
      · rw [addChild_eq]
        refine has_withSiblings _ (.inside (List.mem_cons_self ..) ?_)
        exact within.subset fun _ mem => List.mem_reverse.2 mem
      · exact lasts_addChild { c with opened := rest } _ m (.inr around)

/-- An entity's content makes nothing go. -/
def Intake.Lasting (intake : Intake) : Prop :=
  ∀ place b value c, intake place b value = .ok c → Lasts b c

variable {room : Nat} {intake : Intake}

theorem addExpanded_lasts (lasting : intake.Lasting) {text : List Char} {asIs : Bool} {s : Span}
    (h : addExpanded room intake a text asIs s = .ok b) : Lasts a b := by
  fun_induction addExpanded room intake a text asIs s with
  | case1 a text =>
      obtain rfl := Except.ok.inj h
      exact lasts_flush a text
  | case2 | case5 | case6 | case7 => cases h
  | case3 | case4 | case9 | case10 => next ih => exact ih h
  | case8 a text asIs s tail name rest read value found flushed count counted c taken references
      _ _ ih =>
      have through : Lasts flushed c := fun m has => lasting _ _ _ _ taken m has
      exact ((lasts_flush a text).trans through).trans (ih h)

theorem addToken_lasts (lasting : intake.Lasting) {t : Token}
    (h : addToken room intake a t = .ok b) : Lasts a b := by
  cases t with
  | startTag tag => exact (addStartTag_started h).lasts
  | endTag name place => exact (addEndTag_ended h).lasts
  | text raw => exact addExpanded_lasts lasting h
  | cdata text =>
      obtain rfl := Except.ok.inj h
      exact lasts_addText a _
  | comment s place =>
      obtain rfl := Except.ok.inj h
      exact lasts_addChild a _
  | instruction =>
      obtain rfl := Except.ok.inj h
      exact lasts_addChild a _
  | entity name value =>
      obtain rfl := Except.ok.inj h
      exact fun _ has => has

/-- What a token tells of a node, the assembly has. -/
structure Lands (t : Token) (a : Assembly) : Prop where
  element : ∀ tag, t = .startTag tag → t.effect = .opens →
    ∃ head : Element, head.location = tag.location ∧ a.Has (.element head)
  comment : ∀ s place, t = .comment s place → a.Has (.comment (String.ofList s) place)

theorem Lands.mono {t : Token} (lands : Lands t a) (lasts : Lasts a b) : Lands t b where
  element tag is_ opens := by
    obtain ⟨head, place, has⟩ := lands.element tag is_ opens
    exact ⟨head, place, lasts _ has⟩
  comment s place is_ := lasts _ (lands.comment s place is_)

theorem addToken_lands {t : Token} (h : addToken room intake a t = .ok b) : Lands t b := by
  cases t with
  | startTag tag =>
      refine ⟨fun tag' same opens => ?_, by simp⟩
      obtain rfl := Token.startTag.inj same
      cases addStartTag_started h with
      | unfinished finish _ => simp [Token.effect, finish] at opens
      | opened _ _ place => exact ⟨_, place, .inr ⟨_, List.mem_cons_self .., .inl rfl⟩⟩
      | empty finish _ _ => simp [Token.effect, finish] at opens
  | comment s place =>
      refine ⟨by simp, fun s' place' same => ?_⟩
      obtain ⟨rfl, rfl⟩ := Token.comment.inj same
      obtain rfl := Except.ok.inj h
      exact has_addChild a rfl
  | _ => exact ⟨by simp, by simp⟩

theorem addTokens_lasts (lasting : intake.Lasting) {ts : List Token}
    (h : addTokens room intake a ts = .ok b) : Lasts a b ∧ ∀ t ∈ ts, Lands t b := by
  induction ts generalizing a with
  | nil =>
      obtain rfl := Except.ok.inj h
      exact ⟨.refl a, nofun⟩
  | cons t ts ih =>
      unfold addTokens at h
      split at h
      · cases h
      · next c added =>
        obtain ⟨later, others⟩ := ih h
        refine ⟨(addToken_lasts lasting added).trans later, ?_⟩
        exact List.forall_mem_cons.2 ⟨(addToken_lands added).mono later, others⟩

theorem addScan_lasts (lasting : intake.Lasting) {scan : Scan}
    (h : addScan room intake a scan = .ok b) : Lasts a b ∧ ∀ t ∈ scan.tokens, Lands t b :=
  addTokens_lasts lasting (addScan_ok h).2

theorem addWithin_lasts {scan : Scan} (h : addWithin room a scan = .ok b) :
    Lasts a b ∧ ∀ t ∈ scan.tokens, Lands t b := by
  induction room generalizing a b scan with
  | zero =>
      have lasting : Intake.Lasting fun place _ _ => .error (.at place .entityLoop) := by
        intro _ _ _ _ taken
        cases taken
      exact addScan_lasts lasting h
  | succ room ih =>
      have lasting : Intake.Lasting fun _ b value => addWithin room b (Scan.ofContent value) :=
        fun _ _ _ _ taken => (ih taken).1
      exact addScan_lasts lasting h

end Assembly

namespace Document

/-- An accepted document holds an element for each tag that opens one, with the location of the tag,
and every comment among its tokens. -/
theorem parse_stands {text : List Char} {d : Document} (h : parse text = .ok d) :
    (∀ tag, .startTag tag ∈ (Scan.ofDocument text).tokens →
      (Token.startTag tag).effect = .opens →
        ∃ head : Element, head.location = tag.location ∧ Stands (.element head) d.children) ∧
    ∀ s place, .comment s place ∈ (Scan.ofDocument text).tokens →
      Stands (.comment (String.ofList s) place) d.children := by
  unfold parse at h
  split at h
  · cases h
  next a assembled =>
  split at h
  · cases h
  next closed =>
  split at h
  · cases h
  obtain rfl := Except.ok.inj h
  have stands {m : Landmark} (has : a.Has m) : Stands m a.top.reverse := by
    simp only [Bool.not_eq_true', Bool.not_eq_false, List.isEmpty_iff] at closed
    unfold Assembly.Has at has
    rw [closed] at has
    rcases has with above | ⟨e, mem, -⟩
    · exact above.subset fun _ mem => List.mem_reverse.2 mem
    · exact absurd mem List.not_mem_nil
  obtain ⟨-, lands⟩ := Assembly.addWithin_lasts assembled
  refine ⟨fun tag mem opens => ?_, fun s place mem => ?_⟩
  · obtain ⟨head, place, has⟩ := (lands _ mem).element tag rfl opens
    exact ⟨head, place, stands has⟩
  · exact stands ((lands _ mem).comment s place rfl)

end Document

end ApiDrift.Xml
