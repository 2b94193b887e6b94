import ApiDrift.Introspection.Nesting
/-! Where a look at bare markup finds its end: at the first `>` outside of quoted values and
brackets. -/
namespace ApiDrift.Introspection

open Xml (isSpace isNameChar)

/-- Characters that have a meaning for where markup ends. -/
def meaningful : List Char := ['"', '\'', '[', ']', '>']

/-- Text that leads from one level of brackets to another without ending the markup it stands in:
its quoted values are closed, and outside of them a `>` stands in brackets only. A closing bracket
too many has no effect. -/
inductive Leads : Nat → List Char → Nat → Prop
  | nil (d : Nat) : Leads d [] d
  | plain {c : Char} {l : List Char} {d e : Nat} : c ∉ meaningful → Leads d l e → Leads d (c :: l) e
  | quoted {q : Char} {value l : List Char} {d e : Nat} : q = '\'' ∨ q = '"' → q ∉ value →
      Leads d l e → Leads d (q :: (value ++ q :: l)) e
  | angle {l : List Char} {d e : Nat} : Leads (d + 1) l e → Leads (d + 1) ('>' :: l) e
  | opening {l : List Char} {d e : Nat} : Leads (d + 1) l e → Leads d ('[' :: l) e
  | closing {l : List Char} {d e : Nat} : Leads (d - 1) l e → Leads d (']' :: l) e

theorem Leads.append {d e f : Nat} {l m : List Char} (first : Leads d l e) (second : Leads e m f) :
    Leads d (l ++ m) f := by
  induction first with
  | nil => exact second
  | plain other _ ih => exact .plain other (ih second)
  | quoted quote absent _ ih =>
      rw [List.cons_append, List.append_assoc]
      exact .quoted quote absent (ih second)
  | angle _ ih => exact .angle (ih second)
  | opening _ ih => exact .opening (ih second)
  | closing _ ih => exact .closing (ih second)

theorem markupLength_plain {c : Char} (other : c ∉ meaningful) (d passed : Nat) (l : List Char) :
    markupLength none d passed (c :: l) = markupLength none d (passed + 1) l := by
  simp only [meaningful, List.mem_cons, List.not_mem_nil, or_false, not_or] at other
  simp [markupLength, other]

theorem markupLength_quote {q : Char} (quote : q = '\'' ∨ q = '"') (d passed : Nat)
    (l : List Char) :
    markupLength none d passed (q :: l) = markupLength (some q) d (passed + 1) l := by
  rw [markupLength, if_pos quote.symm]

theorem markupLength_within {q : Char} {value : List Char} (absent : q ∉ value) (d passed : Nat)
    (rest : List Char) :
    markupLength (some q) d passed (value ++ rest) =
      markupLength (some q) d (passed + value.length) rest := by
  induction value generalizing passed with
  | nil => rfl
  | cons c value ih =>
      rw [List.mem_cons, not_or] at absent
      rw [List.cons_append, markupLength]
      simp only [if_neg (Ne.symm absent.1)]
      rw [ih absent.2, List.length_cons]
      congr 1
      omega

theorem markupLength_unquote (q : Char) (d passed : Nat) (l : List Char) :
    markupLength (some q) d passed (q :: l) = markupLength none d (passed + 1) l := by
  rw [markupLength]
  simp only [if_pos]

theorem markupLength_lt {quote : Option Char} {d passed n : Nat} {l : List Char}
    (found : markupLength quote d passed l = some n) : passed < n := by
  induction l generalizing quote d passed with
  | nil => cases found
  | cons c l ih =>
      have later {quote : Option Char} {d : Nat}
          (found : markupLength quote d (passed + 1) l = some n) : passed < n :=
        Nat.lt_of_succ_lt (ih found)
      cases quote with
      | some q => exact later found
      | none =>
          rw [markupLength] at found
          split at found
          · exact later found
          split at found
          · exact later found
          split at found
          · exact later found
          split at found
          · obtain rfl := Option.some.inj found
            exact Nat.lt_succ_self passed
          · exact later found

theorem Leads.markupLength_eq {d e : Nat} {l : List Char} (leads : Leads d l e) (passed : Nat)
    (rest : List Char) :
    markupLength none d passed (l ++ rest) = markupLength none e (passed + l.length) rest := by
  induction leads generalizing passed with
  | nil => rfl
  | plain other _ ih =>
      rw [List.cons_append, markupLength_plain other, ih, List.length_cons]
      congr 1
      omega
  | quoted quote absent _ ih =>
      rw [List.cons_append, markupLength_quote quote, List.append_assoc,
        markupLength_within absent, List.cons_append, markupLength_unquote, ih]
      congr 1
      simp only [List.length_cons, List.length_append]
      omega
  | angle _ ih =>
      rw [List.cons_append, markupLength]
      simp only [Char.reduceEq, or_self, if_false, Nat.succ_ne_zero, and_false]
      rw [ih, List.length_cons]
      congr 1
      omega
  | opening _ ih =>
      rw [List.cons_append, markupLength]
      simp only [Char.reduceEq, or_self, if_false, if_true]
      rw [ih, List.length_cons]
      congr 1
      omega
  | closing _ ih =>
      rw [List.cons_append, markupLength]
      simp only [Char.reduceEq, or_self, if_false, if_true]
      rw [ih, List.length_cons]
      congr 1
      omega

/-- How a look at text goes: through it, up to the end of the markup, or into a quoted value that
is not closed. -/
inductive Goes (d : Nat) : List Char → Prop
  | on {l : List Char} {e : Nat} : Leads d l e → Goes d l
  | ends {before : List Char} (rest : List Char) : Leads d before 0 → Goes d (before ++ '>' :: rest)
  | quotes {before value : List Char} {q : Char} {e : Nat} : q = '\'' ∨ q = '"' → q ∉ value →
      Leads d before e → Goes d (before ++ q :: value)

theorem Goes.after {d e : Nat} (piece : List Char) {l : List Char}
    (leads : ∀ {m f}, Leads e m f → Leads d (piece ++ m) f) (goes : Goes e l) :
    Goes d (piece ++ l) := by
  cases goes with
  | on later => exact .on (leads later)
  | ends rest later =>
      rw [← List.append_assoc]
      exact .ends rest (leads later)
  | quotes quote absent later =>
      rw [← List.append_assoc]
      exact .quotes quote absent (leads later)

theorem goes (d : Nat) (l : List Char) : Goes d l := by
  -- A quoted value is passed at once, so the induction is on the length.
  induction size : l.length using Nat.strongRecOn generalizing d l with
  | ind n ih =>
  cases l with
  | nil => exact .on (.nil d)
  | cons c l =>
      have next (e : Nat) : Goes e l := ih l.length (by simp [← size]) e l rfl
      by_cases quote : c = '\'' ∨ c = '"'
      · by_cases closed : c ∈ l
        · obtain ⟨value, rest, rfl, absent⟩ := List.eq_append_cons_of_mem closed
          have shorter : rest.length < n := by
            rw [← size]
            simp
            omega
          have after : Goes d (c :: (value ++ [c]) ++ rest) := by
            refine Goes.after _ (fun leads => ?_) (ih _ shorter d rest rfl)
            rw [List.cons_append, List.append_assoc]
            exact .quoted quote absent leads
          simpa using after
        · have here : Goes d ([] ++ c :: l) := .quotes quote closed (.nil d)
          exact here
      · by_cases angle : c = '>'
        · subst angle
          cases d with
          | zero =>
              have here : Goes 0 ([] ++ '>' :: l) := .ends l (.nil 0)
              exact here
          | succ d => exact Goes.after ['>'] .angle (next _)
        · by_cases opening : c = '['
          · subst opening
            exact Goes.after ['['] .opening (next _)
          · by_cases closing : c = ']'
            · subst closing
              exact Goes.after [']'] .closing (next _)
            · have other : c ∉ meaningful := by
                rw [not_or] at quote
                simp [meaningful, quote, angle, opening, closing]
              exact Goes.after [c] (.plain other) (next _)

/-- Markup is passed as a whole exactly if what stands in it leads from no bracket to no bracket. -/
theorem markupLength_eq_iff {body : List Char} (rest : List Char) :
    markupLength none 0 0 (body ++ '>' :: rest) = some (body.length + 1) ↔ Leads 0 body 0 := by
  constructor
  · intro length
    cases goes 0 body with
    | @on _ e leads =>
        rw [leads.markupLength_eq, Nat.zero_add] at length
        cases e with
        | zero => exact leads
        | succ e =>
            have onward : markupLength none (e + 1) body.length ('>' :: rest) =
                markupLength none (e + 1) (body.length + 1) rest :=
              (Leads.angle (.nil e.succ)).markupLength_eq body.length rest
            rw [onward] at length
            exact absurd (markupLength_lt length) (Nat.lt_irrefl _)
    | @ends before rest' leads =>
        rw [List.append_assoc, leads.markupLength_eq] at length
        simp [markupLength] at length
    | @quotes before value q e quote absent leads =>
        have other : q ∉ value ++ ['>'] := by
          rcases quote with rfl | rfl <;> simp [absent]
        rw [List.append_assoc, leads.markupLength_eq, List.cons_append, markupLength_quote quote,
          List.append_cons, markupLength_within other] at length
        have later := markupLength_lt length
        simp only [List.length_append, List.length_cons, List.length_nil] at later
        omega
  · intro leads
    rw [leads.markupLength_eq]
    simp [markupLength]

/-- Text in which quotes, brackets and `>` stand in closed quoted values only. -/
inductive Worded : List Char → Prop
  | nil : Worded []
  | plain {c : Char} {l : List Char} : c ∉ meaningful → Worded l → Worded (c :: l)
  | quoted {q : Char} {value l : List Char} : q = '\'' ∨ q = '"' → q ∉ value → Worded l →
      Worded (q :: (value ++ q :: l))

theorem Worded.append {used more : List Char} (first : Worded used) (second : Worded more) :
    Worded (used ++ more) := by
  induction first with
  | nil => exact second
  | plain other _ ih => exact .plain other ih
  | quoted quote absent _ ih =>
      rw [List.cons_append, List.append_assoc]
      exact .quoted quote absent ih

theorem Worded.leads {used : List Char} (worded : Worded used) (d : Nat) : Leads d used d := by
  induction worded with
  | nil => exact .nil d
  | plain other _ ih => exact .plain other ih
  | quoted quote absent _ ih => exact .quoted quote absent ih

theorem worded_of_class {p : Char → Bool} (apart : meaningful.any p = false) {used : List Char}
    (all : ∀ c ∈ used, p c = true) : Worded used := by
  induction used with
  | nil => exact .nil
  | cons c used ih =>
      obtain ⟨first, others⟩ := List.forall_mem_cons.1 all
      refine .plain (fun mem => ?_) (ih others)
      exact List.any_eq_false.1 apart c mem first

theorem worded_spaces {used : List Char} (blank : ∀ c ∈ used, isSpace c = true) : Worded used :=
  worded_of_class (by decide) blank

theorem worded_name {used : List Char} (named : ∀ c ∈ used, isNameChar c = true) : Worded used :=
  worded_of_class (by decide) named

theorem worded_of_all {used : List Char} (all : used.all (fun c => !meaningful.contains c) = true) :
    Worded used :=
  worded_of_class (p := fun c => !meaningful.contains c) (by decide) (List.all_eq_true.1 all)

end ApiDrift.Introspection
