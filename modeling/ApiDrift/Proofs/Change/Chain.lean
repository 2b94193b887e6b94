import ApiDrift.Proofs.Change.Compatibility
/-! Releases in a row. If each one can take the place of the one before it, the last one can take
the place of the first, so it is enough to check every release against its predecessor. -/
namespace ApiDrift

theorem Callable.MethodKept.trans {a b c : Callable} (first : a.MethodKept b)
    (second : b.MethodKept c) : a.MethodKept c := by
  obtain ⟨further, last⟩ := second.args
  have shorter : a.args.length ≤ b.args.length := by
    simpa only [List.length_map] using first.args.length_le
  refine ⟨first.args.trans second.args, fun x hx => ?_⟩
  have split : (c.args.drop a.args.length).map Argument.passing =
      (b.args.drop a.args.length).map Argument.passing ++
        (c.args.drop b.args.length).map Argument.passing := by
    rw [List.map_drop, List.map_drop, List.map_drop, ← last,
      List.drop_append_of_le_length (by simpa using shorter)]
    congr 1
    simp
  have passed := List.mem_map_of_mem (f := Argument.passing) hx
  rw [split, List.mem_append, List.mem_map, List.mem_map] at passed
  have direction {y : Argument} (same : y.passing = x.passing) : y.direction = x.direction :=
    congrArg Prod.snd same
  rcases passed with ⟨y, hy, same⟩ | ⟨y, hy, same⟩
  · rw [← direction same]
    exact first.extra y hy
  · rw [← direction same]
    exact second.extra y hy

theorem Callable.SignalKept.trans {a b c : Callable} (first : a.SignalKept b)
    (second : b.SignalKept c) : a.SignalKept c := List.IsPrefix.trans first second

theorem Property.Kept.trans {a b c : Property} (first : a.Kept b) (second : b.Kept c) :
    a.Kept c := by
  refine ⟨first.type_eq.trans second.type_eq, ?_⟩
  rcases second.access with same | widened
  · rw [← same]
    exact first.access
  · exact .inr widened

/-- Where every element has a kept counterpart one version later, it has one two versions later. -/
theorem kept_trans {α : Type} {name : α → String} {kept : α → α → Prop} {l m n : List α}
    (trans : ∀ {x y z}, kept x y → kept y z → kept x z)
    (first : ∀ x ∈ l, ∃ y ∈ m, name y = name x ∧ kept x y)
    (second : ∀ y ∈ m, ∃ z ∈ n, name z = name y ∧ kept y z) :
    ∀ x ∈ l, ∃ z ∈ n, name z = name x ∧ kept x z := by
  intro x hx
  obtain ⟨y, hy, sameY, keptY⟩ := first x hx
  obtain ⟨z, hz, sameZ, keptZ⟩ := second y hy
  exact ⟨z, hz, sameZ.trans sameY, trans keptY keptZ⟩

theorem Interface.OfferedBy.trans {a b c : Interface} (first : a.OfferedBy b)
    (second : b.OfferedBy c) : a.OfferedBy c where
  methods := kept_trans Callable.MethodKept.trans first.methods second.methods
  signals := kept_trans Callable.SignalKept.trans first.signals second.signals
  properties := kept_trans Property.Kept.trans first.properties second.properties

theorem Node.OfferedBy.trans {a b c : Node} (first : a.OfferedBy b) (second : b.OfferedBy c) :
    a.OfferedBy c := by
  induction a using Node.induction generalizing b c with
  | step a ih =>
      cases first with
      | intro interfaces children below =>
          cases second with
          | intro laterInterfaces laterChildren laterBelow =>
              refine .intro ?_ ?_ ?_
              · exact kept_trans Interface.OfferedBy.trans interfaces laterInterfaces
              · intro x hx
                obtain ⟨y, hy, sameY⟩ := children x hx
                obtain ⟨z, hz, sameZ⟩ := laterChildren y hy
                exact ⟨z, hz, sameZ.trans sameY⟩
              · intro x hx z hz same
                obtain ⟨y, hy, sameY⟩ := children x hx
                have lower := below x hx y hy sameY
                exact ih x hx lower (laterBelow y hy z hz (same.trans sameY.symm))

/-- If the default policy passes each of two steps, it passes both taken at once. -/
theorem check_passed_trans {a b c : Node} (aNamed : a.WellNamed) (bNamed : b.WellNamed)
    (cNamed : c.WellNamed) (aDirected : a.WellDirected) (bDirected : b.WellDirected)
    (cDirected : c.WellDirected) (first : (check a b {}).passed = true)
    (second : (check b c {}).passed = true) : (check a c {}).passed = true := by
  rw [check, Policy.default_judge_passed] at first second ⊢
  have offered := (Compare.harmless_betweenNodes_iff aNamed bNamed aDirected bDirected).1 first
  have again := (Compare.harmless_betweenNodes_iff bNamed cNamed bDirected cDirected).1 second
  exact (Compare.harmless_betweenNodes_iff aNamed cNamed aDirected cDirected).2
    (offered.trans again)

/-- A lamp that can be switched on, and dimmed as far as `access` allows. -/
def lampWith (arguments : List Argument) (access : Access) : Node where
  interfaces := [
    { name := "org.example.Lamp"
      methods := [{ kind := .method, name := "Light", args := arguments }]
      properties := [{ name := "Level", type := .ofText "d", access := access }] }]

def plainLamp : Node :=
  lampWith [{ name := some "seconds", type := .ofText "u", direction := some .input }] .read

/-- A lamp that can be lit faintly from the start. -/
def faintLamp : Node :=
  lampWith [{ name := some "seconds", type := .ofText "u", direction := some .input },
    { name := some "level", type := .ofText "d", direction := some .input }] .read

/-- The same lamp without names for what the method takes, and with a switch for its level. -/
def dimmedLamp : Node :=
  lampWith [{ type := .ofText "u", direction := some .input },
    { type := .ofText "d", direction := some .input }] .readWrite

theorem lamps_pass :
    ((plainLamp.WellNamed ∧ faintLamp.WellNamed ∧ dimmedLamp.WellNamed) ∧
      (plainLamp.WellDirected ∧ faintLamp.WellDirected ∧ dimmedLamp.WellDirected) ∧
      (check plainLamp faintLamp {}).passed = true ∧
      (check faintLamp dimmedLamp {}).passed = true) ∧
    (check plainLamp dimmedLamp {}).passed = true := by
  have plainNamed : plainLamp.WellNamed := by decide
  have faintNamed : faintLamp.WellNamed := by decide
  have dimmedNamed : dimmedLamp.WellNamed := by decide
  have plainDirected : plainLamp.WellDirected := by decide
  have faintDirected : faintLamp.WellDirected := by decide
  have dimmedDirected : dimmedLamp.WellDirected := by decide
  have first : (check plainLamp faintLamp {}).passed = true := by cbv
  have second : (check faintLamp dimmedLamp {}).passed = true := by cbv
  refine ⟨⟨⟨plainNamed, faintNamed, dimmedNamed⟩, ⟨plainDirected, faintDirected, dimmedDirected⟩,
    first, second⟩, ?_⟩
  exact check_passed_trans plainNamed faintNamed dimmedNamed plainDirected faintDirected
    dimmedDirected first second

end ApiDrift
