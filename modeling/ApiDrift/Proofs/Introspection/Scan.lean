import ApiDrift.Proofs.Introspection.Bytewise
/-! Every run of the look at the bytes of a text. It stops between characters, where the look at
the characters stops as well, and goes on until that has its answer. -/
namespace ApiDrift.Introspection.Bytewise

open Text.Utf8

section Turns
variable {text : String} {before rest plain tail : List Char} {limit depth : Nat}

theorem turn_plain (split : text.toList = before ++ rest) (absent : '<' ∉ rest) :
    turn text limit ⟨(encode before).length, depth⟩ = .ok (.ends none) := by
  have nowhere : find (encode ['<']) (encode rest) = none :=
    find_byte_eq_none (by decide) absent
  simp only [turn, sliceFrom_eq split, bind, Except.bind, nowhere, pure, Except.pure]

theorem turn_markup (split : text.toList = before ++ plain ++ '<' :: tail) (absent : '<' ∉ plain) :
    turn text limit ⟨(encode before).length, depth⟩ =
      .ok (seen limit depth (before ++ plain) tail) := by
  have first : find (encode ['<']) (encode (plain ++ '<' :: tail)) = some (encode plain).length :=
    find_byte (by decide) absent tail
  rw [← turnAt_eq split, encode_append, List.length_append]
  rw [List.append_assoc] at split
  simp only [turn, sliceFrom_eq split, bind, Except.bind, first]

theorem tooDeepFrom_drop (limit depth passed n : Nat) (l : List Char) :
    tooDeepFrom limit depth (passed + n) (l.drop n) =
      tooDeepFrom limit depth (passed + (l.take n).length) (l.drop n) := by
  rw [List.length_take]
  rcases Nat.le_total n l.length with within | beyond
  · rw [Nat.min_eq_left within]
  · rw [List.drop_eq_nil_of_le beyond, tooDeepFrom, tooDeepFrom]

/-- A turn from behind the characters `before`, and what the look at the characters that are left
does there. -/
inductive Told (text : String) (limit depth : Nat) (before rest : List Char) : Prop
  | nothing : turn text limit ⟨(encode before).length, depth⟩ = .ok (.ends none) →
      tooDeepFrom limit depth before.length rest = none → Told text limit depth before rest
  | found {plain tail : List Char} {n : Nat} : rest = plain ++ '<' :: tail →
      markup? tail = some (n, .opens) →
      turn text limit ⟨(encode before).length, depth⟩ =
        .ok (.ends (some (encode (before ++ plain)).length)) →
      tooDeepFrom limit depth before.length rest = some (before ++ plain).length →
      Told text limit depth before rest
  | onward {used later : List Char} {depth' : Nat} : rest = used ++ later → used ≠ [] →
      turn text limit ⟨(encode before).length, depth⟩ =
        .ok (.goesOn ⟨(encode (before ++ used)).length, depth'⟩) →
      tooDeepFrom limit depth before.length rest =
        tooDeepFrom limit depth' (before ++ used).length later →
      Told text limit depth before rest

theorem told (split : text.toList = before ++ rest) (limit depth : Nat) :
    Told text limit depth before rest := by
  by_cases mem : '<' ∈ rest
  · obtain ⟨plain, tail, rfl, absent⟩ := List.eq_append_cons_of_mem mem
    rw [← List.append_assoc] at split
    have turned : turn text limit ⟨_, depth⟩ = _ := turn_markup split absent
    have looked := inert_chars absent ('<' :: tail) limit depth before.length
    rw [← List.length_append] at looked
    rw [seen] at turned
    cases markup : markup? tail with
    | none =>
        rw [markup] at turned
        exact .nothing turned (looked.trans (tooDeepFrom_endless markup _ _ _))
    | some result =>
        obtain ⟨n, effect⟩ := result
        rw [markup] at turned
        rw [tooDeepFrom_past markup] at looked
        dsimp only at turned
        by_cases deep : effect = .opens ∧ limit < depth + 1
        · rw [if_pos deep] at turned looked
          obtain ⟨rfl, -⟩ := deep
          exact .found rfl markup turned looked
        · rw [if_neg deep] at turned looked
          have whole : plain ++ '<' :: tail = plain ++ '<' :: tail.take n ++ tail.drop n := by
            rw [List.append_assoc, List.cons_append, List.take_append_drop]
          rw [List.append_assoc] at turned
          have used : plain ++ '<' :: tail.take n ≠ [] :=
            List.append_ne_nil_of_right_ne_nil plain (List.cons_ne_nil _ _)
          refine .onward whole used turned ?_
          rw [looked, tooDeepFrom_drop]
          congr 1
          simp only [List.length_append, List.length_cons]
          omega
  · refine .nothing (turn_plain split mem) ?_
    have looked := inert_chars mem [] limit depth before.length
    rwa [List.append_nil, tooDeepFrom.eq_def _ _ _ []] at looked

end Turns

section Run
variable {text : String} {limit depth : Nat} {before rest : List Char} {s next : Stop}
  {found : Option Nat}

theorem scanFrom_ends (ends : turn text limit s = .ok (.ends found)) :
    scanFrom text limit s = .ok found := by
  rw [scanFrom]
  split
  · next failed => cases ends.symm.trans failed
  · next found last =>
    cases ends.symm.trans last
    rfl
  · next onward => cases ends.symm.trans onward

theorem scanFrom_goesOn (onward : turn text limit s = .ok (.goesOn next)) :
    scanFrom text limit s = scanFrom text limit next := by
  rw [scanFrom]
  split
  · next failed => cases onward.symm.trans failed
  · next ends => cases onward.symm.trans ends
  · next further =>
    cases onward.symm.trans further
    rfl

theorem Reached.split (reached : Reached text limit s) :
    ∃ before rest depth, s = ⟨(encode before).length, depth⟩ ∧ text.toList = before ++ rest := by
  induction reached with
  | start => exact ⟨[], text.toList, 0, rfl, rfl⟩
  | step _ step ih =>
      obtain ⟨before, rest, depth, rfl, split⟩ := ih
      cases told split limit depth with
      | nothing ends _ | found _ _ ends _ => cases step.symm.trans ends
      | @onward used later depth' shape _ onward _ =>
          cases step.symm.trans onward
          refine ⟨before ++ used, later, depth', rfl, ?_⟩
          rw [split, shape, List.append_assoc]

theorem scanFrom_eq (split : text.toList = before ++ rest) :
    scanFrom text limit ⟨(encode before).length, depth⟩ =
      .ok ((tooDeepFrom limit depth before.length rest).map fun n =>
        (encode (text.toList.take n)).length) := by
  induction left : rest.length using Nat.strongRecOn generalizing before rest depth with
  | ind n ih =>
  cases told split limit depth with
  | nothing ends looked =>
      rw [scanFrom_ends ends, looked]
      rfl
  | found shape _ ends looked =>
      rw [scanFrom_ends ends, looked, Option.map_some, split, shape, ← List.append_assoc,
        List.take_left]
  | @onward used later _ shape passed onward looked =>
      have shorter : later.length < n := by
        have some := List.length_pos_of_ne_nil passed
        rw [← left, shape, List.length_append]
        omega
      have further : text.toList = before ++ used ++ later := by
        rw [split, shape, List.append_assoc]
      rw [scanFrom_goesOn onward, looked]
      exact ih _ shorter further rfl

theorem exists_reached_of_scanFrom (reached : Reached text limit s)
    (ends : scanFrom text limit s = .ok found) :
    ∃ t, Reached text limit t ∧ turn text limit t = .ok (.ends found) := by
  fun_induction scanFrom text limit s with
  | case1 s pos failed => cases ends
  | case2 s found' last =>
      cases ends
      exact ⟨s, reached, last⟩
  | case3 s next onward _ ih => exact ih (reached.step onward) ends

theorem scan_eq (text : String) (limit : Nat) :
    scan text limit = .ok ((tooDeepAt? limit text.toList).map fun n =>
      (encode (text.toList.take n)).length) :=
  @scanFrom_eq text limit 0 [] text.toList rfl

/-- Where the loop stops, the text can be cut, and so it can in the turn from there. -/
theorem turn_of_reached (reached : Reached text limit s) :
    (String.Pos.Raw.mk s.pos).IsValid text ∧ ∃ t, turn text limit s = .ok t := by
  obtain ⟨before, rest, depth, rfl, split⟩ := reached.split
  refine ⟨isValid_length_encode split, ?_⟩
  cases told split limit depth with
  | nothing ends _ | found _ _ ends _ => exact ⟨_, ends⟩
  | onward _ _ onward _ => exact ⟨_, onward⟩

example : turn "é<a><b>" 1 ⟨1, 0⟩ = .error 1 := by decide +kernel

example : turn "é<a><b>" 1 ⟨5, 1⟩ = .ok (.ends (some 5)) := by decide +kernel

theorem tag_of_scan {start : Nat} (found : scan text limit = .ok (some start)) :
    ∃ before tail n, text.toList = before ++ '<' :: tail ∧ start = (encode before).length ∧
      markup? tail = some (n, .opens) := by
  obtain ⟨s, reached, ends⟩ := exists_reached_of_scanFrom .start found
  obtain ⟨before, rest, depth, rfl, split⟩ := reached.split
  cases told split limit depth with
  | nothing nowhere _ => cases ends.symm.trans nowhere
  | onward _ _ onward _ => cases ends.symm.trans onward
  | @found plain tail n shape opens last _ =>
      cases ends.symm.trans last
      refine ⟨before ++ plain, tail, n, ?_, rfl, opens⟩
      rw [split, shape, List.append_assoc]

end Run

/-- What follows the `<` of comments, CDATA sections, processing instructions, declarations and end
tags. -/
def marks : List String := ["!--", "![CDATA[", "?", "!", "/"]

section Marks
variable {tail : List Char} {n : Nat}

theorem head?_of_opens (opens : markup? tail = some (n, .opens)) :
    tail.head? ∉ [some '?', some '/', some '!'] := by
  have other {length : Option Nat} : length.map (fun n => (n, Effect.none)) ≠ some (n, .opens) := by
    intro same
    obtain ⟨k, -, same⟩ := Option.map_eq_some_iff.1 same
    cases same
  rw [markup?] at opens
  split at opens
  · exact absurd opens other
  split at opens
  · exact absurd opens other
  split at opens
  · exact absurd opens other
  next question =>
  obtain ⟨k, -, effect⟩ := Option.map_eq_some_iff.1 opens
  split at effect
  · cases effect
  next slash =>
  split at effect
  · cases effect
  next bang =>
  simp only [List.mem_cons, List.not_mem_nil, or_false, not_or]
  exact ⟨question, slash, fun head => bang (.inl head)⟩

theorem unmarked_of_opens (opens : markup? tail = some (n, .opens)) :
    ∀ mark ∈ marks, ¬ mark.toList <+: tail := by
  have heads : ∀ mark ∈ marks, mark.toList ≠ [] ∧
      mark.toList.head? ∈ [some '?', some '/', some '!'] := by decide
  rintro mark mem ⟨rest, rfl⟩
  obtain ⟨nonempty, head⟩ := heads mark mem
  rw [← List.head?_append_of_ne_nil _ nonempty] at head
  exact head?_of_opens opens head

end Marks

/-- The loop ends inside of the text, and its answer is that of the look at the characters. -/
theorem scan_inside (text : String) (limit : Nat) :
    (∀ s next, turn text limit s = .ok (.goesOn next) → s.pos < next.pos) ∧
    (∀ s, Reached text limit s →
      s.pos ≤ text.utf8ByteSize ∧ (String.Pos.Raw.mk s.pos).IsValid text ∧
      ∃ t, turn text limit s = .ok t) ∧
    scan text limit = .ok ((tooDeepAt? limit text.toList).map fun n =>
      (encode (text.toList.take n)).length) ∧
    ∀ start, scan text limit = .ok (some start) → ∃ before after : String,
      text = before ++ "<" ++ after ∧ start = before.utf8ByteSize ∧
      ∀ mark ∈ marks, ¬ mark.toList <+: after.toList := by
  refine ⟨fun s next onward => (turn_advances onward).2, fun s reached => ?_, scan_eq text limit,
    fun start found => ?_⟩
  · obtain ⟨valid, turned⟩ := turn_of_reached reached
    exact ⟨valid.le_utf8ByteSize, valid, turned⟩
  · obtain ⟨before, tail, n, split, rfl, opens⟩ := tag_of_scan found
    refine ⟨String.ofList before, String.ofList tail, ?_, length_encode before, ?_⟩
    · apply String.toList_inj.1
      simp only [split, String.toList_append, String.toList_ofList, List.append_assoc]
      rfl
    · rw [String.toList_ofList]
      exact unmarked_of_opens opens

end ApiDrift.Introspection.Bytewise
