import ApiDrift.Proofs.Change.Pass
import ApiDrift.Proofs.Snapshot.Checked
import ApiDrift.Snapshot.Memory
/-! Files without a snapshot. Such a file is compared with a version that has nothing in it, and all
that there is has been added. The documentation of the root is the exception: it counts as changed
documentation, for the empty version has a root too. -/
namespace ApiDrift

/-- A change that says that the root of a version has come to be documented. -/
def Change.DocumentsRoot (c : Change) (root : Node) : Prop :=
  ∃ d, root.doc = some d ∧ c.kind = .modified ∧ c.category = .info ∧ c.code = .documentation ∧
    c.path = root.name.getD "/" ∧ c.old = none ∧ c.new = some d.text ∧ c.location = d.location

namespace Compare
variable {s : Subject} {c : Change}

theorem added_of_mem_compareMark {new : Option String} {set unset : ChangeCode}
    {whenSet whenUnset : String}
    (h : c ∈ compareMark s none new set unset whenSet whenUnset) : c.kind = .added := by
  unfold compareMark at h
  cases new with
  | none => exact absurd h List.not_mem_nil
  | some value => rw [eq_of_mem_unless h]; rfl

theorem added_of_mem_compareSymbol {new : Option String} (h : c ∈ compareSymbol s none new) :
    c.kind = .added := by
  unfold compareSymbol at h
  cases new with
  | none => exact absurd h List.not_mem_nil
  | some value => rw [eq_of_mem_unless h]; rfl

theorem added_of_mem_compareAnnotations {new : Annotations}
    (h : c ∈ compareAnnotations s {} new) : c.kind = .added := by
  simp only [compareAnnotations, List.mem_append] at h
  rcases h with (((mark | symbol) | mark) | generic) | none
  · exact added_of_mem_compareMark mark
  · exact added_of_mem_compareSymbol symbol
  · exact added_of_mem_compareMark mark
  · obtain ⟨a, -, own⟩ := List.mem_flatMap.1 generic
    rw [List.mem_singleton.1 own]
  · exact absurd none List.not_mem_nil

theorem mem_compareDoc_none {new : Option Documentation} :
    c ∈ compareDoc s none new ↔ ∃ d, new = some d ∧
      c = ⟨.modified, .info, .documentation, s.path, none, some d.text,
        "Documentation for " ++ s.named ++ " has changed.", d.location⟩ := by
  cases new with
  | none => exact ⟨fun h => absurd h List.not_mem_nil, fun ⟨_, absent, _⟩ => (nomatch absent)⟩
  | some d =>
      refine List.mem_singleton.trans ⟨fun h => ⟨d, rfl, h⟩, ?_⟩
      rintro ⟨_, same, rfl⟩
      rw [Option.some_inj.1 same]
      rfl

theorem added_of_mem_compareOwned {i : Interface} (h : c ∈ compareOwned none {} i) :
    c.kind = .added := by
  rw [List.mem_singleton.1 h]
  rfl

theorem added_of_mem_compareChild {child : Node} (h : c ∈ compareChild none {} child) :
    c.kind = .added := by
  unfold compareChild at h
  cases named : child.name with
  | none => rw [named] at h; exact absurd h List.not_mem_nil
  | some name => rw [named] at h; rw [List.mem_singleton.1 h]; rfl

end Compare

open Compare in
/-- What there is where there was nothing has been added, or it is the documentation of the root. -/
theorem added_or_documentsRoot {root : Node} {c : Change} (h : c ∈ compare {} root) :
    c.kind = .added ∨ c.DocumentsRoot root := by
  rw [compare, removedNode_eq, compareNode_eq] at h
  simp only [List.mem_append] at h
  rcases h with (((note | doc) | owned) | child) | (none | none)
  · exact .inl (added_of_mem_compareAnnotations note)
  · obtain ⟨d, documented, rfl⟩ := mem_compareDoc_none.1 doc
    exact .inr ⟨d, documented, rfl, rfl, rfl, rfl, rfl, rfl, rfl⟩
  · obtain ⟨i, -, own⟩ := List.mem_flatMap.1 owned
    exact .inl (added_of_mem_compareOwned own)
  · obtain ⟨n, -, own⟩ := List.mem_flatMap.1 child
    exact .inl (added_of_mem_compareChild own)
  · exact absurd none List.not_mem_nil
  · exact absurd none List.not_mem_nil

open Compare in
theorem mem_compare_empty_of_doc {root : Node} {c : Change}
    (h : c ∈ compareDoc ⟨.node, root.name.getD "/", root.location⟩ none root.doc) :
    c ∈ compare {} root := by
  rw [compare, compareNode_eq]
  simp only [List.mem_append]
  exact .inl (.inl (.inl (.inr h)))

theorem exists_documentsRoot {root : Node} {d : Documentation} (documented : root.doc = some d) :
    ∃ c ∈ compare {} root, c.DocumentsRoot root :=
  ⟨_, mem_compare_empty_of_doc (Compare.mem_compareDoc_none.2 ⟨d, documented, rfl⟩),
    d, documented, rfl, rfl, rfl, rfl, rfl, rfl, rfl⟩

theorem Change.DocumentsRoot.kind_ne_added {root : Node} {c : Change} (h : c.DocumentsRoot root) :
    c.kind ≠ .added := by
  obtain ⟨d, -, modified, -⟩ := h
  exact fun added => nomatch modified.symm.trans added

theorem compare_empty_added_iff (root : Node) :
    (∀ c ∈ compare {} root, c.kind = .added) ↔ root.doc = none := by
  constructor
  · intro added
    refine Option.eq_none_iff_forall_ne_some.2 fun d documented => ?_
    obtain ⟨c, hc, own⟩ := exists_documentsRoot documented
    exact own.kind_ne_added (added c hc)
  · intro undocumented c hc
    refine (added_or_documentsRoot hc).resolve_right ?_
    rintro ⟨d, documented, -⟩
    exact nomatch undocumented.symm.trans documented

theorem Policy.isEnabled_congr {p : Policy} {c c' : Change} (category : c.category = c'.category)
    (code : c.code = c'.code) : p.isEnabled c = p.isEnabled c' := by
  unfold isEnabled
  rw [category, code]

/-- Of the reported changes all are additions, unless new documentation of the root is reported. -/
theorem check_empty_added_iff (root : Node) (p : Policy) :
    (∀ c ∈ (check {} root p).changes, c.kind = .added) ↔
      ∀ c : Change, c.DocumentsRoot root → p.isEnabled c = false := by
  constructor
  · intro added c own
    obtain ⟨d, documented, -, category, code, -⟩ := own
    obtain ⟨c', hc', own'⟩ := exists_documentsRoot documented
    refine Bool.eq_false_iff.2 fun enabled => own'.kind_ne_added (added c' ?_)
    obtain ⟨_, -, -, category', code', -⟩ := own'
    have alike : p.isEnabled c' = p.isEnabled c :=
      Policy.isEnabled_congr (category'.trans category.symm) (code'.trans code.symm)
    exact List.mem_filter.2 ⟨hc', alike.trans enabled⟩
  · intro silent c hc
    obtain ⟨compared, enabled⟩ := List.mem_filter.1 hc
    exact (added_or_documentsRoot compared).resolve_right
      fun own => nomatch (silent c own).symm.trans enabled

namespace Snapshot

/-- A version that is compared with nothing has only additions, if its root is not documented, and
else the documentation of the root besides. So much and no more is reported of a file that has no
snapshot, in any repository: all is added, unless the policy reports new documentation. -/
theorem unrecorded_adds {σ : Type} [Backend σ] (config : Config) (request : Request) (s : σ) :
    (∀ root : Node, (∀ c ∈ compare {} root, c.kind = .added ∨ c.DocumentsRoot root) ∧
      ((∀ c ∈ compare {} root, c.kind = .added) ↔ root.doc = none)) ∧
    ∀ (t : σ) (report : CheckReport), (check config request).run s = (.ok report, t) →
      ∀ f ∈ report.files, f.oldMissing = true → ∀ outcome, f.result = .ok outcome →
        ∃ new root, f.newMissing = new.isNone ∧ load f.file .new new = .ok root ∧
          outcome = ApiDrift.check {} root request.policy ∧
          (∀ c ∈ outcome.changes, c.kind = .added ∨ c.DocumentsRoot root) ∧
          ((∀ c ∈ outcome.changes, c.kind = .added) ↔
            ∀ c : Change, c.DocumentsRoot root → request.policy.isEnabled c = false) := by
  refine ⟨fun root => ⟨fun c => added_or_documentsRoot, compare_empty_added_iff root⟩, ?_⟩
  intro t report run f hf missing outcome judged
  rcases check_ok run with ⟨-, none⟩ | ⟨reference, oldTarget, newTarget, checked⟩
  · rw [none] at hf
    exact absurd hf List.not_mem_nil
  · obtain ⟨old, new, own⟩ := checked.exists_contents f hf
    have newMissing : f.newMissing = new.isNone := congrArg FileReport.newMissing own
    rw [own] at missing judged
    obtain ⟨before, root, readOld, readNew, rfl⟩ := reportFile_result_eq_ok_iff.1 judged
    obtain rfl : old = none := Option.isNone_iff_eq_none.1 missing
    obtain rfl : ({} : Node) = before := Except.ok.inj readOld
    refine ⟨new, root, newMissing, readNew, rfl, ?_, check_empty_added_iff root request.policy⟩
    exact fun c hc => added_or_documentsRoot (List.mem_of_mem_filter hc)

/-- A release, and a documented bell that is not part of it. -/
def documentedBell : Memory where
  tags := Table.ofList [("v1", ⟨0, .empty⟩)]
  workTree := Table.ofList [("bell.xml",
    "<!--A bell.--><node><interface name='o.Bell'><method name='Ring'/></interface></node>")]

def unrecordedBell : Request where
  files := ["bell.xml"]

/-- What is told of the kinds of changes at each file. -/
def CheckReport.kinds (r : CheckReport) : List (Bool × Option (List ChangeKind)) :=
  r.files.map fun f => (f.oldMissing, f.result.toOption.map fun o => o.changes.map Change.kind)

theorem documentedBell_kinds :
    ∃ report n f outcome, (check {} unrecordedBell).run documentedBell = (.ok report, n) ∧
      f ∈ report.files ∧ f.oldMissing = true ∧ f.result = .ok outcome ∧
      outcome.changes.map Change.kind = [.modified, .added] := by
  have told : ((check {} unrecordedBell).run documentedBell).1.toOption.map CheckReport.kinds =
      some [(true, some [.modified, .added])] := by decide +kernel
  rcases run : (check {} unrecordedBell).run documentedBell with ⟨result, n⟩
  rw [run] at told
  obtain ⟨report, rfl, compared⟩ := exists_of_toOption_map told
  obtain ⟨f, files, own⟩ := List.map_eq_singleton_iff.1 compared
  obtain ⟨missing, judged⟩ := Prod.mk.inj own
  obtain ⟨outcome, found, kinds⟩ := exists_of_toOption_map judged
  exact ⟨report, n, f, outcome, rfl, files ▸ List.mem_cons_self, missing, found, kinds⟩

/-- The bell's interface has been added, and the root has come to be documented. -/
theorem documentedBell_adds :
    ∃ report n f outcome root, (check {} unrecordedBell).run documentedBell = (.ok report, n) ∧
      f ∈ report.files ∧ f.oldMissing = true ∧ f.result = .ok outcome ∧
      outcome = ApiDrift.check {} root unrecordedBell.policy ∧
      (∃ c ∈ outcome.changes, c.DocumentsRoot root) ∧ ∃ c ∈ outcome.changes, c.kind = .added := by
  obtain ⟨report, n, f, outcome, run, hf, missing, judged, kinds⟩ := documentedBell_kinds
  obtain ⟨_, root, -, -, compared, each, -⟩ :=
    (unrecorded_adds {} unrecordedBell documentedBell).2 _ _ run f hf missing outcome judged
  have has (kind : ChangeKind) (told : kind ∈ outcome.changes.map Change.kind) :
      ∃ c ∈ outcome.changes, c.kind = kind := List.mem_map.1 told
  refine ⟨report, n, f, outcome, root, run, hf, missing, judged, compared, ?_, ?_⟩
  · obtain ⟨c, hc, modified⟩ := has .modified (by rw [kinds]; decide)
    exact ⟨c, hc, (each c hc).resolve_left fun added => nomatch modified.symm.trans added⟩
  · exact has .added (by rw [kinds]; decide)

/-- Not everything is reported as added, neither where versions are compared nor where files are
checked. -/
theorem documented_root_not_added :
    (∃ p, Introspection.parseText {} "<!--A bell.--><node/>" = .ok p ∧
      ∃ c ∈ compare {} p.root, c.kind ≠ .added) ∧
    ∃ report n, (check {} unrecordedBell).run documentedBell = (.ok report, n) ∧
      ∃ f ∈ report.files, f.oldMissing = true ∧ ∃ outcome, f.result = .ok outcome ∧
        ∃ c ∈ outcome.changes, c.kind ≠ .added := by
  constructor
  · have told : (Introspection.parseText {} "<!--A bell.--><node/>").toOption.map
        (fun p => (compare {} p.root).map Change.kind) = some [.modified] := by decide +kernel
    obtain ⟨p, read, kinds⟩ := exists_of_toOption_map told
    obtain ⟨c, changes, kind⟩ := List.map_eq_singleton_iff.1 kinds
    exact ⟨p, read, c, changes ▸ List.mem_cons_self, fun added => nomatch kind.symm.trans added⟩
  · obtain ⟨report, n, f, outcome, run, hf, missing, judged, kinds⟩ := documentedBell_kinds
    have told : ChangeKind.modified ∈ outcome.changes.map Change.kind := by rw [kinds]; decide
    obtain ⟨c, hc, modified⟩ := List.mem_map.1 told
    exact ⟨report, n, run, f, hf, missing, outcome, judged, c, hc,
      fun added => nomatch modified.symm.trans added⟩

end Snapshot

end ApiDrift
