import ApiDrift.Proofs.Introspection.Nesting
import ApiDrift.Proofs.Xml.Lasting
import Mathlib.Data.List.DropRight
import Mathlib.Data.List.Induction
/-! Where a text says that its elements nest too deep: at an element of its document, on the line of
its tag, in a column that counts bytes where the document counts characters. -/
namespace ApiDrift

/-- What stands after the last line feed. -/
def lastLine (text : List Char) : List Char := text.rtakeWhile (· != '\n')

/-- How many bytes the characters take beyond one each. -/
def extraBytes : List Char → Nat
  | [] => 0
  | c :: text => c.utf8Size - 1 + extraBytes text

theorem extraBytes_concat (text : List Char) (c : Char) :
    extraBytes (text ++ [c]) = extraBytes text + (c.utf8Size - 1) := by
  induction text with
  | nil => simp [extraBytes]
  | cons d text ih =>
      rw [List.cons_append, extraBytes, ih, extraBytes]
      omega

theorem extraBytes_eq_zero {text : List Char} :
    extraBytes text = 0 ↔ ∀ c ∈ text, c.utf8Size = 1 := by
  induction text with
  | nil => exact iff_of_true rfl nofun
  | cons c text ih =>
      have some := c.utf8Size_pos
      rw [List.forall_mem_cons, ← ih, extraBytes]
      omega

/-- Counted in bytes, a place has the same line, and the column is further right by what the
characters before it on the line take beyond one byte each. -/
theorem Location.foldl_nextBytes (text : List Char) :
    text.foldl Location.nextBytes .start =
      ⟨(Location.start.after text).line,
        (Location.start.after text).column + extraBytes (lastLine text)⟩ := by
  induction text using List.reverseRecOn with
  | nil => rfl
  | append_singleton text c ih =>
      rw [List.foldl_append, ih, Location.after_append]
      by_cases feed : c = '\n'
      · subst feed
        simp [lastLine, extraBytes, Location.nextBytes, Location.after, Location.next]
      · have some := c.utf8Size_pos
        simp [lastLine, extraBytes_concat, Location.nextBytes, Location.after, Location.next, feed]
        omega

theorem Location.foldl_nextBytes_eq_iff (text : List Char) :
    text.foldl Location.nextBytes .start = Location.start.after text ↔
      ∀ c ∈ lastLine text, c.utf8Size = 1 := by
  rw [← extraBytes_eq_zero, Location.foldl_nextBytes]
  constructor
  · intro same
    have column := congrArg Location.column same
    dsimp only at column
    omega
  · intro none
    rw [none, Nat.add_zero]

namespace Introspection

open Xml (Element Stands)

/-- If the look at the bare text keeps in step, what it finds is an element of the document. -/
theorem element_of_tooDeepAt? {text : List Char} {limit n : Nat} {d : Xml.Document}
    (wellFormed : Xml.Document.parse text = .ok d) (found : tooDeepAt? limit text = some n)
    (level : ∀ markup, doctype? text = some markup → Level markup)
    (clear : ∀ s place, Stands (.comment s place) d.children → seemsClosed s.toList = false) :
    ∃ head : Element, Stands (.element head) d.children ∧
      head.location = Location.start.after (text.take n) := by
  obtain ⟨elements, comments⟩ := Xml.Document.parse_stands wellFormed
  obtain ⟨s', ended, inStep⟩ :=
    (inStep_document level).resolve_left (faultless_not_doomed wellFormed)
  have clear' : Clear (Xml.Scan.ofDocument text).tokens := by
    intro s place mem
    have unclosed := clear _ _ (comments s place mem)
    rwa [String.toList_ofList] at unclosed
  obtain ⟨tag, front, ⟨before, after, split, opens, -⟩, within, rfl, place⟩ :=
    inStep.begins ended clear' found
  have mem : .startTag tag ∈ (Xml.Scan.ofDocument text).tokens := by
    rw [split]
    exact List.mem_append_right _ (List.mem_cons_self ..)
  obtain ⟨head, same, stands⟩ := elements tag mem opens
  refine ⟨head, stands, ?_⟩
  rw [same, place, ← List.prefix_iff_eq_take.1 within]

/-- Where a look at the bare text of a document finds a tag that nests too deep, the text is refused
with the line of the tag, and with its column just if all characters before it on the line are one
byte each; else the column is too large by their further bytes. The tag is that of an element of
the document, unless the look has lost step in the document type declaration or in a comment that
begins as if it ended at once. -/
theorem parseChars_tooDeep_located {options : Options} {text : List Char} {d : Xml.Document}
    (wellFormed : Xml.Document.parse text = .ok d) {n : Nat}
    (found : tooDeepAt? options.maxNesting text = some n) :
    ∃ place, parseChars options text = .error (.tooDeep place options.maxNesting) ∧
      place.line = (Location.start.after (text.take n)).line ∧
      place.column = (Location.start.after (text.take n)).column +
        extraBytes (lastLine (text.take n)) ∧
      (place = Location.start.after (text.take n) ↔ ∀ c ∈ lastLine (text.take n), c.utf8Size = 1) ∧
      ((∀ markup, doctype? text = some markup → Level markup) →
        (∀ s place, Stands (.comment s place) d.children → seemsClosed s.toList = false) →
          ∃ head : Element, Stands (.element head) d.children ∧
            head.location = Location.start.after (text.take n)) := by
  have scanned : tooDeepLocation? options.maxNesting text =
      some ((text.take n).foldl Location.nextBytes .start) := by
    rw [tooDeepLocation?, found, Option.map_some]
  refine ⟨(text.take n).foldl Location.nextBytes .start, ?_, ?_, ?_,
    Location.foldl_nextBytes_eq_iff _, element_of_tooDeepAt? wellFormed found⟩
  · simp only [parseChars, scanned]
  · rw [Location.foldl_nextBytes]
  · rw [Location.foldl_nextBytes]

/-- A bell in a bell, on a line of its own after a character of two bytes. -/
def ownLine : List Char := "<node>é\n<node></node></node>".toList

theorem ownLine_located : ∃ d, Xml.Document.parse ownLine = .ok d ∧
    tooDeepAt? 1 ownLine = some 8 ∧
    parseChars { maxNesting := 1 } ownLine = .error (.tooDeep ⟨2, 1⟩ 1) ∧
    ∃ head : Element, Stands (.element head) d.children ∧ head.location = ⟨2, 1⟩ := by
  have evaluated : (Xml.Document.parse ownLine).toOption.map
      (fun d => Xml.marksAmong 1 d.children) = some [(1, .element), (2, .element)] := by
    decide +kernel
  have found : tooDeepAt? 1 ownLine = some 8 := by decide +kernel
  obtain ⟨d, wellFormed, shows⟩ := of_marks_eq evaluated
  obtain ⟨place, refused, -, -, same, element⟩ :=
    @parseChars_tooDeep_located { maxNesting := 1 } _ _ wellFormed _ found
  have there : Location.start.after (ownLine.take 8) = ⟨2, 1⟩ := by decide +kernel
  have none : doctype? ownLine = none := by decide +kernel
  have uncommented {s : String} {place : Location} : ¬ Stands (.comment s place) d.children := by
    intro stands
    obtain ⟨k, shown⟩ := stands.shows
    have mem := (shows _ _).1 shown
    simp at mem
  have bare : lastLine (ownLine.take 8) = [] := by decide +kernel
  rw [bare] at same
  rw [same.2 nofun, there] at refused
  rw [there] at element
  refine ⟨d, wellFormed, found, refused, element ?_ fun s place stands => absurd stands uncommented⟩
  rw [none]
  exact nofun

/-- A bell in a bell, after a character of two bytes. -/
def sameLine : List Char := "<node>é<node></node></node>".toList

/-- The column is one more than that of the element, with which the nesting of the document itself
would be refused. -/
theorem sameLine_misplaced :
    tooDeepAt? 1 sameLine = some 7 ∧ Location.start.after (sameLine.take 7) = ⟨1, 8⟩ ∧
    (Xml.Document.parse sameLine).toOption.map (fun d => beyondAmong? 1 1 d.children) =
      some (some ⟨1, 8⟩) ∧
    parseChars { maxNesting := 1 } sameLine = .error (.tooDeep ⟨1, 9⟩ 1) := by
  have scanned : tooDeepLocation? 1 sameLine = some ⟨1, 9⟩ := by decide +kernel
  refine ⟨by decide +kernel, by decide +kernel, by decide +kernel, ?_⟩
  simp only [parseChars, scanned]

end Introspection

end ApiDrift
