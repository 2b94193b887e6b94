import ApiDrift.Text.Affix
import Mathlib.Data.List.DropRight
/-! What follows a heading, and the last components of paths. Base names end at slashes of either
kind, components at forward ones only; the two agree where there are no others. -/
namespace ApiDrift.Text

theorem after?_eq_some_iff {heading s rest : String} :
    after? heading s = some rest ↔ s = heading ++ rest := by
  rw [after?, Option.map_eq_some_iff]
  constructor
  · rintro ⟨l, found, rfl⟩
    apply String.ext
    rw [afterChars?_eq_some.1 found, String.toList_append, String.toList_ofList]
  · rintro rfl
    refine ⟨rest.toList, ?_, String.ofList_toList⟩
    rw [afterChars?_eq_some, String.toList_append]

theorem after?_eq_none_iff {heading s : String} :
    after? heading s = none ↔ ∀ rest, s ≠ heading ++ rest := by
  simp only [Option.eq_none_iff_forall_ne_some, ne_eq, after?_eq_some_iff]

theorem after?_append (heading rest : String) : after? heading (heading ++ rest) = some rest :=
  after?_eq_some_iff.2 rfl

/-- What stands after the last forward slash, or the whole path if there is none. -/
def lastComponent (path : String) : String :=
  String.ofList (path.toList.rtakeWhile fun c => c != '/')

theorem not_slash_of_mem_basename {path : String} {c : Char} (h : c ∈ (basename path).toList) :
    c ≠ '/' ∧ c ≠ '\\' := by
  rw [basename, String.toList_ofList] at h
  simpa only [bne_iff_ne, Bool.and_eq_true] using List.mem_rtakeWhile_imp h

theorem basename_eq_self {s : String} (h : ∀ c ∈ s.toList, c ≠ '/' ∧ c ≠ '\\') :
    basename s = s := by
  apply String.ext
  rw [basename, String.toList_ofList]
  apply List.rtakeWhile_eq_self_iff.2
  intro c hc
  simpa only [bne_iff_ne, Bool.and_eq_true] using h c hc

theorem basename_basename (path : String) : basename (basename path) = basename path :=
  basename_eq_self fun _ => not_slash_of_mem_basename

theorem takeWhile_congr {α : Type} {p q : α → Bool} {l : List α} (h : ∀ a ∈ l, p a = q a) :
    l.takeWhile p = l.takeWhile q := by
  induction l with
  | nil => rfl
  | cons a rest ih =>
      have ⟨first, others⟩ := List.forall_mem_cons.1 h
      rw [List.takeWhile_cons, List.takeWhile_cons, first, ih others]

theorem basename_eq_lastComponent {path : String} (h : '\\' ∉ path.toList) :
    basename path = lastComponent path := by
  have same : path.toList.reverse.takeWhile (fun c => c != '/' && c != '\\') =
      path.toList.reverse.takeWhile fun c => c != '/' := by
    apply takeWhile_congr
    intro c hc
    have other : c ≠ '\\' := fun e => h (e ▸ List.mem_reverse.1 hc)
    rw [bne_iff_ne.2 other, Bool.and_true]
  rw [basename, lastComponent, List.rtakeWhile, same]

/-- A path has a last component if it is nothing else, or if a slash and nothing more comes
before it. -/
theorem lastComponent_eq_iff {path base : String} (h : '/' ∉ base.toList) :
    lastComponent path = base ↔ path = base ∨ ('/' :: base.toList) <:+ path.toList := by
  have whole : ∀ c ∈ base.toList, (c != '/') = true := fun c hc =>
    bne_iff_ne.2 fun e => h (e ▸ hc)
  constructor
  · intro same
    obtain ⟨front, cut, last⟩ : ∃ front, front ++ base.toList = path.toList ∧
        ∀ some : front ≠ [], front.getLast some = '/' := by
      refine ⟨path.toList.rdropWhile (· != '/'), ?_, fun some => ?_⟩
      · rw [← same, lastComponent, String.toList_ofList]
        exact List.rdropWhile_append_rtakeWhile ..
      · simpa using List.rdropWhile_last_not (· != '/') path.toList some
    by_cases none : front = []
    · left
      rw [none, List.nil_append] at cut
      exact (String.ext cut).symm
    · right
      refine ⟨front.dropLast, ?_⟩
      rw [List.append_cons, ← last none, List.dropLast_append_getLast, cut]
  · intro ends
    apply String.ext
    rw [lastComponent, String.toList_ofList]
    rcases ends with rfl | ⟨front, cut⟩
    · exact List.rtakeWhile_eq_self_iff.2 whole
    · have back : ∀ c ∈ base.toList.reverse, (c != '/') = true := fun c hc =>
        whole c (List.mem_reverse.1 hc)
      rw [← cut, List.rtakeWhile, List.reverse_append, List.reverse_cons, List.append_assoc,
        List.takeWhile_append_of_pos back, List.singleton_append, List.takeWhile_cons_of_neg,
        List.append_nil, List.reverse_reverse]
      exact Bool.false_ne_true

end ApiDrift.Text
