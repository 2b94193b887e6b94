import ApiDrift.Signature.Basic
import Mathlib.Data.List.Infix
/-! Descriptions of types say which types they are. Each begins with words that are fixed for its
kind of type, no such words begin others, and all brackets that are opened are closed again. So a
description ends where it does whatever follows, and lists are told apart by their commas. -/
namespace ApiDrift

/-- The fixed words that a description begins with. -/
inductive Wording where
  | basic (b : BasicType)
  | array
  | dict
  | struct
  | entry
deriving DecidableEq, Repr

namespace Wording

def text : Wording → List Char
  | basic b => b.describe.toList
  | array => "Array of [".toList
  | dict => "Dict of \x7b".toList
  | struct => "Struct of (".toList
  | entry => "Dict Entry of \x7b".toList

def all : List Wording :=
  [basic .byte, basic .boolean, basic .int16, basic .uint16, basic .int32, basic .uint32,
    basic .int64, basic .uint64, basic .double, basic .string, basic .objectPath,
    basic .signature, basic .variant, basic .unixFd, array, dict, struct, entry]

theorem mem_all (w : Wording) : w ∈ all := by
  cases w with
  | basic b => cases b <;> decide
  | array => decide
  | dict => decide
  | struct => decide
  | entry => decide

theorem eq_of_begins {w w' : Wording} (h : w.text <+: w'.text) : w = w' := by
  have apart : ∀ w ∈ all, ∀ w' ∈ all, w.text.isPrefixOf w'.text = true → w = w' := by
    decide +kernel
  exact apart w w.mem_all w' w'.mem_all (List.isPrefixOf_iff_prefix.2 h)

theorem append_inj {w w' : Wording} {r r' : List Char} (h : w.text ++ r = w'.text ++ r') :
    w = w' ∧ r = r' := by
  have same : w = w' := by
    have first : w.text <+: w'.text ++ r' := ⟨r, h⟩
    rcases List.prefix_or_prefix_of_prefix first (List.prefix_append w'.text r') with h | h
    · exact eq_of_begins h
    · exact (eq_of_begins h).symm
  subst same
  exact ⟨rfl, List.append_cancel_left h⟩

theorem head?_text (w : Wording) : ∃ c, w.text.head? = some c ∧ c ≠ ')' := by
  have each : ∀ w ∈ all, w.text.head?.any (· != ')') = true := by decide +kernel
  obtain ⟨c, first, other⟩ := (Option.any_eq_true _ _).1 (each w w.mem_all)
  exact ⟨c, first, bne_iff_ne.1 other⟩

end Wording

namespace ValueType

def wording : ValueType → Wording
  | basic b => .basic b
  | array (dictEntry _ _) => .dict
  | array _ => .array
  | struct _ => .struct
  | dictEntry _ _ => .entry

/-- What the description of an entry or of a dictionary says after its first words. -/
def pair (k v : ValueType) : List Char :=
  k.describe.toList ++ (": ".toList ++ (v.describe.toList ++ "\x7d".toList))

/-- What a description says after its first words. -/
def details : ValueType → List Char
  | basic _ => []
  | array (dictEntry k v) => pair k v
  | array t => t.describe.toList ++ "]".toList
  | struct ts => (describeAll ts).toList ++ ")".toList
  | dictEntry k v => pair k v

theorem toList_around (first inner last : String) :
    (first ++ inner ++ last).toList = first.toList ++ (inner.toList ++ last.toList) := by
  rw [String.toList_append, String.toList_append, List.append_assoc]

theorem toList_around_pair (first : String) (k v : ValueType) :
    (first ++ k.describe ++ ": " ++ v.describe ++ "\x7d").toList = first.toList ++ pair k v := by
  rw [toList_around, toList_around, List.append_assoc, List.append_assoc, pair]

-- The equations are read off the whole definition: Lean runs into the texts when it looks for
-- those of single cases.
theorem toList_describe (t : ValueType) : t.describe.toList = t.wording.text ++ t.details := by
  cases t with
  | basic b =>
      rw [describe.eq_def]
      exact (List.append_nil _).symm
  | array t =>
      rw [describe.eq_def]
      cases t with
      | dictEntry k v => exact toList_around_pair ..
      | basic b => exact toList_around ..
      | array t => exact toList_around ..
      | struct ts => exact toList_around ..
  | struct ts =>
      rw [describe.eq_def]
      exact toList_around ..
  | dictEntry k v =>
      rw [describe.eq_def]
      exact toList_around_pair ..

theorem describe_append_inj {t u : ValueType} {r r' : List Char}
    (h : t.describe.toList ++ r = u.describe.toList ++ r') :
    t.wording = u.wording ∧ t.details ++ r = u.details ++ r' := by
  rw [toList_describe, toList_describe, List.append_assoc, List.append_assoc] at h
  exact Wording.append_inj h

/-- What comes after the first type of a list. -/
def others : List ValueType → List Char
  | [] => []
  | t :: ts => ", ".toList ++ (describeAll (t :: ts)).toList

theorem toList_describeAll (t : ValueType) (ts : List ValueType) :
    (describeAll (t :: ts)).toList = t.describe.toList ++ others ts := by
  rw [describeAll.eq_def]
  cases ts with
  | nil => rw [others, List.append_nil]
  | cons u ts => exact toList_around ..

/-- The type is known from its description, whatever follows. -/
def Readable (t : ValueType) : Prop :=
  ∀ u r r', t.describe.toList ++ r = u.describe.toList ++ r' → t = u ∧ r = r'

/-- A list of types ends where the text ends or a structure does. -/
def EndsList (r : List Char) : Prop := ∀ c ∈ r.head?, c = ')'

/-- The same of types in a list, up to its end. -/
def AllReadable (ts : List ValueType) : Prop :=
  ∀ us r r', EndsList r → EndsList r' →
    (describeAll ts).toList ++ r = (describeAll us).toList ++ r' → ts = us ∧ r = r'

theorem eq_array {t u : ValueType} (h : (array t).wording = u.wording) :
    ∃ u', u = array u' := by
  cases u with
  | array u' => exact ⟨u', rfl⟩
  | basic b => cases t <;> cases h
  | struct us => cases t <;> cases h
  | dictEntry k v => cases t <;> cases h

theorem eq_struct {ts : List ValueType} {u : ValueType} (h : (struct ts).wording = u.wording) :
    ∃ us, u = struct us := by
  cases u with
  | struct us => exact ⟨us, rfl⟩
  | basic b => cases h
  | array u' => cases u' <;> cases h
  | dictEntry k v => cases h

theorem eq_dictEntry {k v u : ValueType} (h : (dictEntry k v).wording = u.wording) :
    ∃ k' v', u = dictEntry k' v' := by
  cases u with
  | dictEntry k' v' => exact ⟨k', v', rfl⟩
  | basic b => cases h
  | array u' => cases u' <;> cases h
  | struct us => cases h

theorem eq_basic {b : BasicType} {u : ValueType} (h : (basic b).wording = u.wording) :
    u = basic b := by
  cases u with
  | basic b' => cases h; rfl
  | array u' => cases u' <;> cases h
  | struct us => cases h
  | dictEntry k v => cases h

theorem readable_basic (b : BasicType) : Readable (basic b) := by
  intro u r r' h
  obtain ⟨words, rest⟩ := describe_append_inj h
  obtain rfl := eq_basic words
  exact ⟨rfl, rest⟩

theorem readable_dictEntry {k v : ValueType} (key : Readable k) (value : Readable v) :
    Readable (dictEntry k v) := by
  intro u r r' h
  obtain ⟨words, inside⟩ := describe_append_inj h
  obtain ⟨k', v', rfl⟩ := eq_dictEntry words
  replace inside : pair k v ++ r = pair k' v' ++ r' := inside
  simp only [pair, List.append_assoc] at inside
  obtain ⟨sameKey, inside⟩ := key _ _ _ inside
  obtain ⟨sameValue, inside⟩ := value _ _ _ (List.append_cancel_left inside)
  exact ⟨by rw [sameKey, sameValue], List.append_cancel_left inside⟩

theorem array_cases (t : ValueType) :
    ((array t).wording = .dict ∧ t.wording = .entry ∧ (array t).details = t.details) ∨
      ((array t).wording = .array ∧ (array t).details = t.describe.toList ++ "]".toList) := by
  cases t with
  | dictEntry k v => exact .inl ⟨rfl, rfl, rfl⟩
  | basic b => exact .inr ⟨rfl, rfl⟩
  | array t => exact .inr ⟨rfl, rfl⟩
  | struct ts => exact .inr ⟨rfl, rfl⟩

theorem readable_array {t : ValueType} (element : Readable t) : Readable (array t) := by
  intro u r r' h
  obtain ⟨words, inside⟩ := describe_append_inj h
  obtain ⟨u, rfl⟩ := eq_array words
  have elements : t = u ∧ r = r' := by
    rcases array_cases t with ⟨dict, entry, details⟩ | ⟨array, details⟩
    · rcases array_cases u with ⟨-, entry', details'⟩ | ⟨array', -⟩
      · apply element
        rw [toList_describe, toList_describe, entry, entry', List.append_assoc, List.append_assoc,
          ← details, ← details', inside]
      · exact nomatch dict.symm.trans (words.trans array')
    · rcases array_cases u with ⟨dict', -⟩ | ⟨-, details'⟩
      · exact nomatch array.symm.trans (words.trans dict')
      · rw [details, details', List.append_assoc, List.append_assoc] at inside
        obtain ⟨same, rest⟩ := element _ _ _ inside
        exact ⟨same, List.append_cancel_left rest⟩
  exact ⟨congrArg array elements.1, elements.2⟩

theorem readable_struct {ts : List ValueType} (members : AllReadable ts) :
    Readable (struct ts) := by
  intro u r r' h
  obtain ⟨words, inside⟩ := describe_append_inj h
  obtain ⟨us, rfl⟩ := eq_struct words
  replace inside : (describeAll ts).toList ++ ")".toList ++ r =
    (describeAll us).toList ++ ")".toList ++ r' := inside
  rw [List.append_assoc, List.append_assoc] at inside
  have ends (r : List Char) : EndsList (")".toList ++ r) := fun c hc => (Option.some_inj.1 hc).symm
  obtain ⟨same, rest⟩ := members _ _ _ (ends r) (ends r') inside
  exact ⟨congrArg struct same, List.append_cancel_left rest⟩

theorem describe_append_ne (t : ValueType) {r r' : List Char} (ends : EndsList r') :
    t.describe.toList ++ r ≠ r' := by
  rintro rfl
  obtain ⟨c, first, other⟩ := t.wording.head?_text
  refine other (ends c ?_)
  rw [toList_describe, List.append_assoc, List.head?_append, first]
  rfl

theorem comma_append_ne {r r' : List Char} (ends : EndsList r') : ", ".toList ++ r ≠ r' := by
  rintro rfl
  exact nomatch ends ',' rfl

theorem allReadable_nil : AllReadable [] := by
  intro us r r' ends _ h
  cases us with
  | nil => exact ⟨rfl, h⟩
  | cons u us =>
      rw [toList_describeAll, List.append_assoc] at h
      exact absurd h.symm (describe_append_ne u ends)

theorem allReadable_cons {t : ValueType} {ts : List ValueType} (first : Readable t)
    (later : AllReadable ts) : AllReadable (t :: ts) := by
  intro us r r' ends ends' h
  rw [toList_describeAll, List.append_assoc] at h
  cases us with
  | nil => exact absurd h (describe_append_ne t ends')
  | cons u us =>
      rw [toList_describeAll, List.append_assoc] at h
      obtain ⟨rfl, rest⟩ := first _ _ _ h
      cases ts with
      | nil =>
          cases us with
          | nil => exact ⟨rfl, rest⟩
          | cons u us =>
              rw [others, others, List.append_assoc] at rest
              exact absurd rest.symm (comma_append_ne ends)
      | cons t ts =>
          cases us with
          | nil =>
              rw [others, others, List.append_assoc] at rest
              exact absurd rest (comma_append_ne ends')
          | cons u us =>
              rw [others, others, List.append_assoc, List.append_assoc] at rest
              obtain ⟨same, rest⟩ := later _ _ _ ends ends' (List.append_cancel_left rest)
              exact ⟨congrArg _ same, rest⟩

/-- By induction on types, together with lists of types, since a structure holds one. -/
theorem allReadable (ts : List ValueType) : AllReadable ts :=
  (spell.mutual_induct (motive_1 := Readable) (motive_2 := AllReadable) readable_basic
    (fun _ => readable_array) (fun _ => readable_struct) (fun _ _ => readable_dictEntry)
    allReadable_nil (fun _ _ => allReadable_cons)).2 ts

end ValueType

/-- Signatures are described alike only if they are the same, however deep their types are nested
and also where entries stand alone or structures are empty. -/
theorem Signature.describe_inj {as bs : List ValueType} :
    (Signature.mk as).describe = (Signature.mk bs).describe ↔ as = bs := by
  refine ⟨fun h => ?_, fun h => by rw [h]⟩
  have texts : (ValueType.describeAll as).toList ++ [] = (ValueType.describeAll bs).toList ++ [] :=
    congrArg (fun s : String => s.toList ++ []) h
  exact (ValueType.allReadable as bs [] [] nofun nofun texts).1

end ApiDrift
