import ApiDrift.Proofs.Introspection.Nesting
/-! The limit on nesting only refuses. Where a smaller limit lets bytes pass, a larger one makes no
difference. -/
namespace ApiDrift.Introspection

theorem isSome_tooDeepFrom_of_le {smaller limit : Nat} (le : smaller ≤ limit)
    (depth passed : Nat) (text : List Char)
    (found : (tooDeepFrom limit depth passed text).isSome = true) :
    (tooDeepFrom smaller depth passed text).isSome = true := by
  fun_induction tooDeepFrom limit depth passed text with
  | case1 => cases found
  | case2 => cases found
  | case3 depth passed tail n look ih =>
      rw [tooDeepFrom, if_pos rfl, look]
      exact ih found
  | case4 depth passed tail n look ih =>
      rw [tooDeepFrom, if_pos rfl, look]
      exact ih found
  | case5 depth passed tail n deep look =>
      have deeper : smaller < depth + 1 := Nat.lt_of_le_of_lt le deep
      rw [tooDeepFrom, if_pos rfl, look]
      simp only [if_pos deeper, Option.isSome_some]
  | case6 depth passed tail n _ look ih =>
      rw [tooDeepFrom, if_pos rfl, look]
      dsimp only
      split
      · rfl
      · exact ih found
  | case7 depth passed c tail plain ih =>
      rw [tooDeepFrom, if_neg plain]
      exact ih found

theorem tooDeepLocation?_eq_none_of_le {smaller limit : Nat} (le : smaller ≤ limit)
    {text : List Char} (shallow : tooDeepLocation? smaller text = none) :
    tooDeepLocation? limit text = none := by
  rw [tooDeepLocation?, Option.map_eq_none_iff, ← Option.not_isSome_iff_eq_none] at *
  intro found
  exact shallow (isSome_tooDeepFrom_of_le le 0 0 text found)

theorem beyondAmong?_eq_none_of_le {smaller limit : Nat} (le : smaller ≤ limit) {level : Nat}
    {l : List Xml.Node} (shallow : beyondAmong? smaller level l = none) :
    beyondAmong? limit level l = none := by
  rw [← Option.not_isSome_iff_eq_none, isSome_beyondAmong?_iff] at *
  rintro ⟨k, deep, mem⟩
  exact shallow ⟨k, Nat.lt_of_le_of_lt le deep, mem⟩

section

variable {file : Option String} {smaller limit : Nat}

theorem parseChars_eq_of_le (le : smaller ≤ limit) {text : List Char}
    (accepted : ∀ place k,
      parseChars { file, maxNesting := smaller } text ≠ .error (.tooDeep place k)) :
    parseChars { file, maxNesting := limit } text =
      parseChars { file, maxNesting := smaller } text := by
  unfold parseChars at *
  cases shown : tooDeepLocation? smaller text with
  | some place =>
      simp only [shown] at accepted
      exact absurd rfl (accepted place smaller)
  | none =>
      simp only [shown, tooDeepLocation?_eq_none_of_le le shown] at accepted ⊢
      cases read : Xml.Document.parse text with
      | error fault => rfl
      | ok d =>
          simp only [read, parseDocument] at accepted ⊢
          cases below : beyondAmong? smaller 1 d.children with
          | some place =>
              simp only [below] at accepted
              exact absurd rfl (accepted place smaller)
          | none => simp only [beyondAmong?_eq_none_of_le le below]

/-- Bytes that a limit does not refuse for their nesting give the same under every larger limit,
be it a description or another fault. -/
theorem parseBytes_eq_of_le (le : smaller ≤ limit) {bytes : List UInt8}
    (accepted : ∀ place k,
      parseBytes { file, maxNesting := smaller } bytes ≠ .error (.tooDeep place k)) :
    parseBytes { file, maxNesting := limit } bytes =
      parseBytes { file, maxNesting := smaller } bytes := by
  unfold parseBytes at *
  cases read : Text.Utf8.decode bytes with
  | error fault => rfl
  | ok text =>
      simp only [read] at accepted ⊢
      exact parseChars_eq_of_le le accepted

end

/-- Where bytes are refused for their nesting, and the limit. -/
def exceeded? : Except ParseError Parsed → Option (Location × Nat)
  | .error (.tooDeep place limit) => some (place, limit)
  | _ => none

theorem of_exceeded? {outcome : Except ParseError Parsed} {place : Location} {k : Nat}
    (h : exceeded? outcome = some (place, k)) : outcome = .error (.tooDeep place k) := by
  unfold exceeded? at h
  split at h
  · obtain ⟨rfl, rfl⟩ := Prod.mk.inj (Option.some_inj.1 h)
    rfl
  · cases h

/-- Two bells one in the other, which an entity adds to a bell in a tower. -/
def chime : List UInt8 :=
  Text.Utf8.encode ("<!DOCTYPE node [<!ENTITY c '<node name=\"b\"><node name=\"c\"/></node>'>]>"
    ++ "<node><node name='a'>&c;</node></node>").toList

theorem chime_limited : ∃ p, parseBytes { maxNesting := 4 } chime = .ok p ∧
    parseBytes { maxNesting := 9 } chime = .ok p ∧
      ∃ place, parseBytes { maxNesting := 3 } chime = .error (.tooDeep place 3) := by
  have fits : (parseBytes { maxNesting := 4 } chime).toOption.isSome = true := by decide +kernel
  have cut : exceeded? (parseBytes { maxNesting := 3 } chime) = some (⟨1, 44⟩, 3) := by
    decide +kernel
  cases read : parseBytes { maxNesting := 4 } chime with
  | error e =>
      rw [read] at fits
      cases fits
  | ok p =>
      have accepted (place : Location) (k : Nat) :
          parseBytes { maxNesting := 4 } chime ≠ .error (.tooDeep place k) := by
        rw [read]
        intro refused
        cases refused
      have same : parseBytes { maxNesting := 9 } chime = parseBytes { maxNesting := 4 } chime :=
        parseBytes_eq_of_le (by decide) accepted
      exact ⟨p, rfl, same.trans read, ⟨1, 44⟩, of_exceeded? cut⟩

end ApiDrift.Introspection
