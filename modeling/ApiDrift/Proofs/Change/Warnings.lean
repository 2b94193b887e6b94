import ApiDrift.Proofs.Change.Spelling
import ApiDrift.Proofs.Except
import ApiDrift.Proofs.Table
/-! Lists of warnings. Two lists with a comma between name what both name, and what a list comes
down to is the same however its names are written again. Whatever is named is heard by policies. -/
namespace ApiDrift

namespace WarningList

section Entries
variable {entry : String}

theorem isKnown_iff :
    isKnown entry = true ↔
      (∃ k : Category, k.text = entry) ∨ ∃ c ∈ ChangeCode.all, c.text = entry := by
  rw [isKnown, Bool.or_eq_true, Option.isSome_iff_exists, Option.isSome_iff_exists]
  refine or_congr (exists_congr fun k => ⟨Category.text_of_ofText?, ?_⟩) (exists_congr fun c => ?_)
  · rintro rfl
    cases k <;> rfl
  · exact ChangeCode.ofText?_eq_some_iff

theorem isWordChar_of_isKnown (known : isKnown entry = true) :
    ∀ c ∈ entry.toList, Text.isWordChar c = true := by
  obtain ⟨k, rfl⟩ | ⟨c, listed, rfl⟩ := isKnown_iff.1 known
  · have word : ∀ k : Category, k.text.toList.all Text.isWordChar = true := by
      intro k
      cases k <;> decide
    exact List.all_eq_true.1 (word k)
  · exact List.all_eq_true.1 (ChangeCode.isWordChar_of_mem_all c listed)

theorem ne_allEntry_of_isKnown (known : isKnown entry = true) : entry ≠ allEntry := by
  rintro rfl
  exact absurd known (by decide)

theorem entries_append (a b : String) : entries (a ++ "," ++ b) = entries a ++ entries b := by
  have parts : Text.split ',' (a ++ "," ++ b) = Text.split ',' a ++ Text.split ',' b :=
    Text.split_append ',' a b
  rw [entries, parts, List.map_append, List.filter_append, entries, entries]

theorem entries_intercalate (pieces : List String) :
    entries (",".intercalate pieces) = pieces.flatMap entries := by
  induction pieces with
  | nil => rfl
  | cons piece rest ih =>
      cases rest with
      | nil => rw [String.intercalate_singleton, List.flatMap_singleton]
      | cons next rest =>
          rw [String.intercalate_cons_cons, entries_append, ih]
          rfl

end Entries

section Sets
variable {s names : NameSet} {entry : String} {l : List String}

theorem addEntries_eq (s : NameSet) (l : List String) :
    addEntries s l = (addEntries .empty l).map s.union := by
  induction l generalizing s with
  | nil => rfl
  | cons entry rest ih =>
      rw [addEntries, addEntries]
      split
      · rw [ih, ih (NameSet.union .empty categories), NameSet.empty_union]
        cases addEntries .empty rest with
        | error e => rfl
        | ok t => exact congrArg Except.ok (NameSet.union_assoc s categories t)
      · split
        · rw [ih, ih (NameSet.add .empty entry)]
          cases addEntries .empty rest with
          | error e => rfl
          | ok t => exact congrArg Except.ok (NameSet.union_assoc s (NameSet.add .empty entry) t)
        · rfl

theorem addEntries_append (s : NameSet) (l more : List String) :
    addEntries s (l ++ more) = addEntries s l >>= fun t => addEntries t more := by
  induction l generalizing s with
  | nil => rfl
  | cons entry rest ih =>
      rw [List.cons_append, addEntries, addEntries]
      split
      · exact ih _
      · split
        · exact ih _
        · rfl

theorem parse_append (a b : String) :
    parse (a ++ "," ++ b) = (do
      let s ← parse a
      let t ← parse b
      pure (s.union t)) := by
  rw [parse, entries_append, addEntries_append]
  show parse a >>= _ = _
  cases parse a with
  | error e => rfl
  | ok s =>
      show addEntries s (entries b) = (do let t ← parse b; pure (s.union t))
      rw [addEntries_eq]
      show (parse b).map s.union = _
      cases parse b <;> rfl

theorem isKnown_of_mem_categories (h : entry ∈ categories.names) : isKnown entry = true := by
  obtain ⟨k, -, same⟩ := List.mem_map.1 (NameSet.mem_names_ofNames.1 h)
  exact isKnown_iff.2 (.inl ⟨k, same⟩)

theorem isKnown_of_mem_addEntries (known : ∀ e ∈ s.names, isKnown e = true)
    (read : addEntries s l = .ok names) : ∀ e ∈ names.names, isKnown e = true := by
  induction l generalizing s with
  | nil =>
      obtain rfl := Except.ok.inj read
      exact known
  | cons entry rest ih =>
      rw [addEntries] at read
      split at read
      · refine ih (fun e he => ?_) read
        exact (NameSet.mem_names_union.1 he).elim (known e) isKnown_of_mem_categories
      · split at read
        · next own =>
          refine ih (fun e he => ?_) read
          obtain before | rfl := NameSet.mem_names_add.1 he
          · exact known e before
          · exact own
        · cases read

theorem isKnown_of_mem_parse {text : String} (read : parse text = .ok names)
    (h : entry ∈ names.names) : isKnown entry = true :=
  isKnown_of_mem_addEntries (fun _ he => absurd he List.not_mem_nil) read entry h

theorem addEntries_of_known (known : ∀ e ∈ l, isKnown e = true) (s : NameSet) :
    addEntries s l = .ok (l.foldl NameSet.add s) := by
  induction l generalizing s with
  | nil => rfl
  | cons entry rest ih =>
      obtain ⟨own, others⟩ := List.forall_mem_cons.1 known
      rw [addEntries, if_neg (ne_allEntry_of_isKnown own), if_pos own, ih others]
      rfl

end Sets

section Written

/-- A name, or nothing, with white space around it. -/
def Pads (name piece : String) : Prop :=
  ∃ before after, Text.allBlank before = true ∧ Text.allBlank after = true ∧
    piece = before ++ name ++ after

/-- A list gives these names, in any order, with white space around them and with empty entries. -/
def Writes (text : String) (names : List String) : Prop :=
  ∃ given pieces, (∀ name, name ∈ names ↔ name ∈ given ∧ name ≠ "") ∧
    List.Forall₂ Pads given pieces ∧ text = ",".intercalate pieces

theorem entries_of_pads {name piece : String} (h : Pads name piece)
    (word : ∀ c ∈ name.toList, Text.isWordChar c = true) :
    entries piece = [name].filter (· ≠ "") := by
  obtain ⟨before, after, blankBefore, blankAfter, rfl⟩ := h
  have single : ',' ∉ (before ++ name ++ after).toList := by
    rw [String.toList_append, String.toList_append, List.mem_append, List.mem_append]
    rintro ((comma | comma) | comma)
    · exact absurd (List.all_eq_true.1 blankBefore _ comma) (by decide)
    · exact absurd (word _ comma) (by decide)
    · exact absurd (List.all_eq_true.1 blankAfter _ comma) (by decide)
  have solid : ∀ c ∈ name.toList, Text.isBlank c = false := fun c hc =>
    Text.not_isBlank_of_isWordChar (word c hc)
  rw [entries, Text.split_eq_singleton single, List.map_singleton,
    Text.trim_padded blankBefore solid blankAfter]

theorem entries_of_writes {given pieces : List String} (padded : List.Forall₂ Pads given pieces)
    (word : ∀ name ∈ given, ∀ c ∈ name.toList, Text.isWordChar c = true) :
    entries (",".intercalate pieces) = given.filter (· ≠ "") := by
  rw [entries_intercalate]
  induction padded with
  | nil => rfl
  | @cons name piece given pieces own _ ih =>
      obtain ⟨first, others⟩ := List.forall_mem_cons.1 word
      rw [List.flatMap_cons, entries_of_pads own first, ih others, ← List.filter_append,
        List.singleton_append]

theorem parse_of_writes {text other : String} {names : NameSet} (read : parse text = .ok names)
    (h : Writes other names.names) : parse other = .ok names := by
  obtain ⟨given, pieces, same, padded, rfl⟩ := h
  have known (e : String) (he : e ∈ given) (some : e ≠ "") : isKnown e = true :=
    isKnown_of_mem_parse read ((same e).2 ⟨he, some⟩)
  have listed : entries (",".intercalate pieces) = given.filter (· ≠ "") := by
    refine entries_of_writes padded fun e he c hc => isWordChar_of_isKnown (known e he ?_) c hc
    rintro rfl
    exact absurd hc List.not_mem_nil
  have all : ∀ e ∈ given.filter (· ≠ ""), isKnown e = true := fun e he =>
    known e (List.mem_filter.1 he).1 (of_decide_eq_true (List.mem_filter.1 he).2)
  rw [parse, listed, addEntries_of_known all]
  refine congrArg Except.ok (NameSet.eq_of_mem_names_iff fun name => ?_)
  rw [same, NameSet.mem_names_foldl_add, List.mem_filter, decide_eq_true_iff]
  exact or_iff_right List.not_mem_nil

end Written

end WarningList

namespace Policy

/-- A policy that enables the name alone reports the change, and one that has it among the fatal
ones fails over it. -/
structure Hears (name : String) (c : Change) : Prop where
  reports : ∀ p : Policy, name ∈ p.enabled.names → p.disabled = .empty → p.isEnabled c = true
  condemns : ∀ p : Policy, name ∈ p.fatal.names → p.isFatal c = true

theorem contains_eq_true_iff {names : NameSet} {name : String} :
    names.contains name = true ↔ name ∈ names.names := Table.mem_names_iff.symm

theorem hears_category (c : Change) : Hears c.category.text c := by
  constructor
  · intro p named free
    have nothing (name : String) : Table.contains (.empty : NameSet) name = false := rfl
    simp [isEnabled, contains_eq_true_iff.2 named, free, nothing]
  · intro p named
    simp [isFatal, contains_eq_true_iff.2 named]

theorem hears_code (c : Change) : Hears c.code.text c := by
  constructor
  · intro p named free
    have nothing (name : String) : Table.contains (.empty : NameSet) name = false := rfl
    simp [isEnabled, contains_eq_true_iff.2 named, free, nothing]
  · intro p named
    simp [isFatal, contains_eq_true_iff.2 named]

end Policy

/-- Texts of codes are canonical: just the texts of listed codes are read, each as the code whose
text it is, no two codes that are read share a text, and all that a list of warnings comes down to
is spelled as changes bear it. -/
theorem code_spellings_canonical :
    (∀ s, (ChangeCode.ofText? s).isSome = true ↔ s ∈ ChangeCode.all.map ChangeCode.text) ∧
      (∀ s, ∀ c ∈ ChangeCode.ofText? s, c.text = s) ∧
      (ChangeCode.all.map ChangeCode.text).Nodup ∧
      (∀ s t, ∀ c ∈ ChangeCode.ofText? s, ∀ d ∈ ChangeCode.ofText? t, c.text = d.text → c = d) ∧
      ∀ text names, WarningList.parse text = .ok names → ∀ name ∈ names.names,
        (∃ k : Category, Category.ofText? name = some k ∧ k.text = name) ∨
          ∃ c, ChangeCode.ofText? name = some c ∧ c.text = name := by
  refine ⟨fun s => ?_, fun s c => ChangeCode.text_of_ofText?, ChangeCode.map_text_nodup, ?_, ?_⟩
  · rw [Option.isSome_iff_exists, List.mem_map]
    exact exists_congr fun c => ChangeCode.ofText?_eq_some_iff
  · intro s t c readFirst d readSecond same
    obtain rfl := ChangeCode.text_of_ofText? readFirst
    obtain rfl := ChangeCode.text_of_ofText? readSecond
    rw [same] at readFirst
    exact Option.some_inj.1 (readFirst.symm.trans readSecond)
  · intro text names read name h
    have known := WarningList.isKnown_of_mem_parse read h
    rw [WarningList.isKnown, Bool.or_eq_true, Option.isSome_iff_exists,
      Option.isSome_iff_exists] at known
    obtain ⟨k, own⟩ | ⟨c, own⟩ := known
    · exact .inl ⟨k, own, Category.text_of_ofText? own⟩
    · exact .inr ⟨c, own, ChangeCode.text_of_ofText? own⟩

/-- A list with the entry for all categories, a code, and an empty entry. -/
def mixedList : String := " all,,deprecated"

theorem mixedList_spelled :
    ChangeCode.ofText? "deprecated" = some .deprecated ∧
      ChangeCode.text .deprecated = "deprecated" ∧
      ∃ names, WarningList.parse mixedList = .ok names ∧ names.names.length = 4 ∧
        "deprecated" ∈ names.names ∧ ∀ name ∈ names.names,
          (∃ k : Category, Category.ofText? name = some k ∧ k.text = name) ∨
            ∃ c, ChangeCode.ofText? name = some c ∧ c.text = name := by
  have own : ChangeCode.ofText? "deprecated" = some .deprecated := by decide +kernel
  have told : (WarningList.parse mixedList).toOption.map Table.names = some
      ["backwards-compatibility", "deprecated", "forwards-compatibility", "info"] := by
    decide +kernel
  obtain ⟨names, read, listed⟩ := exists_of_toOption_map told
  refine ⟨own, code_spellings_canonical.2.1 _ _ own, names, read, ?_, ?_,
    code_spellings_canonical.2.2.2.2 _ _ read⟩
  · rw [listed]
    rfl
  · rw [listed]
    decide

/-- Lists of warnings compose: two of them with a comma between fail as the first that fails, or
name what both name. What a list comes down to is read from every way of writing it, and each of its
names is heard for all changes of a category or of a code. -/
theorem warning_lists_compose :
    (∀ a b, WarningList.parse (a ++ "," ++ b) = (do
      let s ← WarningList.parse a
      let t ← WarningList.parse b
      pure (s.union t))) ∧
      (∀ (s t : NameSet) (name : String),
        name ∈ (s.union t).names ↔ name ∈ s.names ∨ name ∈ t.names) ∧
      ∀ text names, WarningList.parse text = .ok names →
        (∀ other, WarningList.Writes other names.names → WarningList.parse other = .ok names) ∧
        ∀ name ∈ names.names,
          (∃ k : Category, name = k.text ∧ ∀ c : Change, c.category = k → Policy.Hears name c) ∨
            ∃ code ∈ ChangeCode.all, name = code.text ∧
              ∀ c : Change, c.code = code → Policy.Hears name c := by
  refine ⟨WarningList.parse_append, fun _ _ _ => NameSet.mem_names_union, ?_⟩
  intro text names read
  refine ⟨fun other => WarningList.parse_of_writes read, fun name h => ?_⟩
  obtain ⟨k, rfl⟩ | ⟨code, listed, rfl⟩ :=
    WarningList.isKnown_iff.1 (WarningList.isKnown_of_mem_parse read h)
  · refine .inl ⟨k, rfl, ?_⟩
    rintro c rfl
    exact Policy.hears_category c
  · refine .inr ⟨code, listed, rfl, ?_⟩
    rintro c rfl
    exact Policy.hears_code c

/-- The names of the list in another order, with white space and empty entries of other kinds. -/
theorem mixedList_rewritten :
    ∃ names, WarningList.parse mixedList = .ok names ∧
      WarningList.Writes "info,\t,deprecated , forwards-compatibility\n,backwards-compatibility,"
        names.names ∧
      WarningList.parse "info,\t,deprecated , forwards-compatibility\n,backwards-compatibility," =
        .ok names ∧
      ∀ name ∈ names.names,
        (∃ k : Category, name = k.text ∧ ∀ c : Change, c.category = k → Policy.Hears name c) ∨
          ∃ code ∈ ChangeCode.all, name = code.text ∧
            ∀ c : Change, c.code = code → Policy.Hears name c := by
  have told : (WarningList.parse mixedList).toOption.map Table.names = some
      ["backwards-compatibility", "deprecated", "forwards-compatibility", "info"] := by
    decide +kernel
  obtain ⟨names, read, listed⟩ := exists_of_toOption_map told
  have written : WarningList.Writes
      "info,\t,deprecated , forwards-compatibility\n,backwards-compatibility," names.names := by
    refine ⟨["info", "", "deprecated", "forwards-compatibility", "backwards-compatibility", ""],
      ["info", "\t", "deprecated ", " forwards-compatibility\n", "backwards-compatibility", ""],
      fun name => ?_, ?_, rfl⟩
    · rw [listed]
      simp only [List.mem_cons, List.not_mem_nil, or_false]
      constructor
      · rintro (rfl | rfl | rfl | rfl) <;> decide
      · rintro ⟨rfl | rfl | rfl | rfl | rfl | rfl, some⟩ <;> first | exact absurd rfl some | decide
    · refine .cons ⟨"", "", rfl, rfl, rfl⟩ (.cons ⟨"\t", "", by decide, rfl, rfl⟩
        (.cons ⟨"", " ", rfl, by decide, rfl⟩ (.cons ⟨" ", "\n", by decide, by decide, rfl⟩
          (.cons ⟨"", "", rfl, rfl, rfl⟩ (.cons ⟨"", "", rfl, rfl, rfl⟩ .nil)))))
  have law := warning_lists_compose.2.2 _ _ read
  exact ⟨names, read, written, law.1 _ written, law.2⟩

end ApiDrift
