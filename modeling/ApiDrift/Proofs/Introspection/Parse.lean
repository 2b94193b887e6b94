import ApiDrift.Introspection.Parse
import ApiDrift.Proofs.Except
import ApiDrift.Proofs.Introspection.Describe
/-! Whatever bytes are read: a description that comes of them is sound, and nothing fatal was found
on the way. -/
namespace ApiDrift.Introspection

/-- A sound description with findings of which none is fatal. -/
structure Parsed.Trusted (p : Parsed) : Prop where
  root : p.root.Sound
  diagnostics : ∀ d ∈ p.diagnostics, d.isFatal = false

theorem isFatal_toDiagnostic (file : Option String) (f : Finding) :
    (f.toDiagnostic file).isFatal = f.isFatal := rfl

theorem sound_describeDocument {d : Xml.Document} : ∀ n ∈ (describeDocument d).value, n.Sound := by
  intro n hn
  unfold describeDocument at hn
  split at hn
  · exact nomatch hn
  · next head children before root =>
    cases found : findElement? "node" before (.element head children) with
    | none =>
        simp only [found] at hn
        split at hn <;> exact nomatch hn
    | some element =>
        simp only [found] at hn
        have described := sound_describeRoot element.1 element.2.1
          (fromComment_precedingComment element.2.2)
        split at hn
        · obtain rfl := Option.some_inj.1 hn
          exact described
        · obtain rfl := Option.some_inj.1 hn
          exact described

theorem trusted_ofLogged {file : Option String} {found : Logged (Option Node)} {p : Parsed}
    (sound : ∀ n ∈ found.value, n.Sound) (h : Parsed.ofLogged file found = .ok p) : p.Trusted := by
  unfold Parsed.ofLogged at h
  split at h
  · exact nomatch h
  · next harmless =>
    cases value : found.value with
    | none =>
        rw [value] at h
        exact nomatch h
    | some root =>
        rw [value] at h
        obtain rfl := Except.ok.inj h
        refine ⟨sound root value, fun d hd => ?_⟩
        obtain ⟨f, hf, rfl⟩ := List.mem_map.1 hd
        rw [isFatal_toDiagnostic]
        exact Bool.eq_false_iff.2 fun fatal => harmless (List.any_eq_true.2 ⟨f, hf, fatal⟩)

/-- The reading of a document that is well-formed and not too deep is its description. -/
theorem parseBytes_eq_ofLogged {options : Options} {bytes : List UInt8} {text : List Char}
    {d : Xml.Document} (decoded : Text.Utf8.decode bytes = .ok text)
    (wellFormed : Xml.Document.parse text = .ok d)
    (shallow : ∀ location limit, parseBytes options bytes ≠ .error (.tooDeep location limit)) :
    parseBytes options bytes = Parsed.ofLogged options.file (describeDocument d) := by
  unfold parseBytes parseChars parseDocument at shallow ⊢
  rw [decoded] at shallow ⊢
  dsimp only at shallow ⊢
  cases deep : tooDeepLocation? options.maxNesting text with
  | some l => exact absurd (by rw [deep]) (shallow l options.maxNesting)
  | none =>
      rw [deep, wellFormed] at shallow
      rw [wellFormed]
      dsimp only at shallow ⊢
      cases beyond : beyondAmong? options.maxNesting 1 d.children with
      | some l => exact absurd (by rw [beyond]) (shallow l options.maxNesting)
      | none => rfl

theorem trusted_of_parseChars {options : Options} {text : List Char} {p : Parsed}
    (h : parseChars options text = .ok p) : p.Trusted := by
  unfold parseChars at h
  split at h
  · exact nomatch h
  · split at h
    · exact nomatch h
    · unfold parseDocument at h
      split at h
      · exact nomatch h
      · exact trusted_ofLogged sound_describeDocument h

theorem trusted_of_parseBytes {options : Options} {bytes : List UInt8} {p : Parsed}
    (h : parseBytes options bytes = .ok p) : p.Trusted := by
  unfold parseBytes at h
  split at h
  · exact nomatch h
  · exact trusted_of_parseChars h

/-- Reading never gives a broken description, nor one of which something fatal was found. -/
theorem parseBytes_sound {options : Options} {bytes : List UInt8} {p : Parsed}
    (h : parseBytes options bytes = .ok p) :
    p.root.Sound ∧ ∀ d ∈ p.diagnostics, d.isFatal = false :=
  ⟨(trusted_of_parseBytes h).root, (trusted_of_parseBytes h).diagnostics⟩

/-- Whether a condition holds of the descriptions in two documents, if both can be read. -/
def holdsOfBoth (condition : Node → Node → Bool) (first second : List UInt8) : Option Bool := do
  let a ← (parseBytes {} first).toOption
  let b ← (parseBytes {} second).toOption
  some (condition a.root b.root)

theorem of_holdsOfBoth {condition : Node → Node → Bool} {first second : List UInt8}
    (h : holdsOfBoth condition first second = some true) :
    ∃ a b, parseBytes {} first = .ok a ∧ parseBytes {} second = .ok b ∧
      condition a.root b.root = true := by
  unfold holdsOfBoth at h
  cases readFirst : parseBytes {} first with
  | error e =>
      rw [readFirst] at h
      exact nomatch h
  | ok a =>
      cases readSecond : parseBytes {} second with
      | error e =>
          rw [readFirst, readSecond] at h
          exact nomatch h
      | ok b =>
          rw [readFirst, readSecond] at h
          exact ⟨a, b, rfl, rfl, Option.some_inj.1 h⟩

/-- A document that gives an interface one method twice. -/
def twiceRung : List UInt8 :=
  Text.Utf8.encode ("<node><interface name='o.Bell'><method name='Ring'/>"
    ++ "<method name='Ring'/></interface></node>").toList

theorem twiceRung_sound : ∃ p, parseBytes {} twiceRung = .ok p ∧ p.diagnostics.length = 1 ∧
    p.root.Sound ∧ ∀ d ∈ p.diagnostics, d.isFatal = false := by
  have findings : (parseBytes {} twiceRung).toOption.map (fun p => p.diagnostics.length) =
      some 1 := by
    decide +kernel
  obtain ⟨p, read, one⟩ := exists_of_toOption_map findings
  exact ⟨p, read, one, parseBytes_sound read⟩

end ApiDrift.Introspection
