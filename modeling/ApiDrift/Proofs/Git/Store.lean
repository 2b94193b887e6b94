import ApiDrift.Git.Object
import Mathlib.Data.List.Nodup
/-! Stores that grow. Objects are put after all others, and nothing that is stored refers to what
comes later. So whatever is read from an object stays as it is. -/
namespace ApiDrift.Git

/-- The objects that an object refers to. -/
def Object.links : Object → List ObjectId
  | .blob _ => []
  | .tree files => files.map Prod.snd
  | .commit c => c.tree :: c.parent.toList
  | .tag _ target _ => [target]

namespace Store
variable {s t u : Store} {o : Object} {id : ObjectId}

/-- Every object is stored once, after all that it refers to. -/
structure Sound (s : Store) : Prop where
  once : s.objects.Nodup
  older : ∀ id o, s.find? id = some o → ∀ link ∈ o.links, link < id

theorem sound_iff : s.Sound ↔
    s.objects.Nodup ∧ ∀ p ∈ s.objects.zipIdx, ∀ link ∈ p.1.links, link < p.2 := by
  constructor
  · intro sound
    exact ⟨sound.once, fun p h => sound.older p.2 p.1 (List.mem_zipIdx_iff_getElem?.1 h)⟩
  · rintro ⟨once, older⟩
    exact ⟨once, fun id o found => older (o, id) (List.mem_zipIdx_iff_getElem?.2 found)⟩

instance (s : Store) : Decidable s.Sound := decidable_of_iff _ sound_iff.symm

def Has (s : Store) (id : ObjectId) : Prop := id < s.objects.length

instance (s : Store) (id : ObjectId) : Decidable (s.Has id) := Nat.decLt id s.objects.length

/-- All of a store is in another one, at the same places. -/
def Extends (s t : Store) : Prop := s.objects <+: t.objects

theorem Extends.refl (s : Store) : s.Extends s := List.prefix_refl _

theorem Extends.trans (first : s.Extends t) (second : t.Extends u) : s.Extends u :=
  List.IsPrefix.trans first second

theorem has_of_find? (found : s.find? id = some o) : s.Has id :=
  (List.getElem?_eq_some_iff.1 found).1

theorem mem_of_find? (found : s.find? id = some o) : o ∈ s.objects := List.mem_of_getElem? found

theorem find?_extends (more : s.Extends t) (known : s.Has id) : t.find? id = s.find? id := by
  obtain ⟨rest, whole⟩ := more
  rw [find?, find?, ← whole, List.getElem?_append_left known]

theorem Has.extends (known : s.Has id) (more : s.Extends t) : t.Has id :=
  Nat.lt_of_lt_of_le known more.length_le

section Numbers

theorem idOf?_eq_some_iff (once : s.objects.Nodup) : s.idOf? o = some id ↔ s.find? id = some o := by
  rw [idOf?, List.findIdx?_eq_some_iff_getElem, find?, List.getElem?_eq_some_iff]
  constructor
  · rintro ⟨known, same, -⟩
    exact ⟨known, eq_of_beq same⟩
  · rintro ⟨known, same⟩
    refine ⟨known, beq_iff_eq.2 same, fun other before found => ?_⟩
    have equal := (eq_of_beq found).trans same.symm
    exact Nat.ne_of_lt before ((once.getElem_inj_iff).1 equal)

theorem idOf?_eq_none_iff : s.idOf? o = none ↔ o ∉ s.objects := by
  rw [idOf?, List.findIdx?_eq_none_iff]
  constructor
  · intro differ stored
    exact absurd (differ o stored) (by rw [beq_self_eq_true]; exact Bool.noConfusion)
  · intro absent other stored
    exact beq_eq_false_iff_ne.2 fun same => absent (same ▸ stored)

/-- The number of an object is the same in a store with more objects, if it is not among those. -/
theorem idOf?_extends (more : s.Extends t) (once : t.objects.Nodup)
    (old : o ∈ t.objects → o ∈ s.objects) : t.idOf? o = s.idOf? o := by
  have first : s.objects.Nodup := once.sublist more.sublist
  cases found : s.idOf? o with
  | none => exact idOf?_eq_none_iff.2 fun stored => idOf?_eq_none_iff.1 found (old stored)
  | some id =>
      have known := (idOf?_eq_some_iff first).1 found
      rw [idOf?_eq_some_iff once, find?_extends more (has_of_find? known)]
      exact known

end Numbers

theorem intern_of_none (absent : s.idOf? o = none) :
    s.intern o = (s.objects.length, ⟨s.objects ++ [o]⟩) := by
  rw [intern, absent]

theorem intern_of_find? (once : s.objects.Nodup) (found : s.find? id = some o) :
    s.intern o = (id, s) := by
  rw [intern, (idOf?_eq_some_iff once).2 found]

theorem extends_intern (s : Store) (o : Object) : s.Extends (s.intern o).2 := by
  cases known : s.idOf? o with
  | none =>
      rw [intern_of_none known]
      exact List.prefix_append _ _
  | some id =>
      rw [intern, known]
      exact .refl s

theorem mem_intern {p : Object} (stored : p ∈ (s.intern o).2.objects) : p ∈ s.objects ∨ p = o := by
  cases known : s.idOf? o with
  | none =>
      rw [intern_of_none known] at stored
      exact (List.mem_append.1 stored).imp_right List.mem_singleton.1
  | some id =>
      rw [intern, known] at stored
      exact .inl stored

theorem find?_intern (once : s.objects.Nodup) (o : Object) :
    (s.intern o).2.find? (s.intern o).1 = some o := by
  cases known : s.idOf? o with
  | none =>
      rw [intern_of_none known]
      exact List.getElem?_concat_length
  | some id =>
      rw [intern, known]
      exact (idOf?_eq_some_iff once).1 known

theorem Sound.intern (sound : s.Sound) (closed : ∀ link ∈ o.links, s.Has link) :
    (s.intern o).2.Sound := by
  cases known : s.idOf? o with
  | some id =>
      rw [Store.intern, known]
      exact sound
  | none =>
      rw [intern_of_none known]
      refine ⟨?_, fun id p found => ?_⟩
      · have absent : o ∉ s.objects := idOf?_eq_none_iff.1 known
        exact List.nodup_append.2 ⟨sound.once, List.nodup_singleton o, fun p stored q last same =>
          absent (List.mem_singleton.1 last ▸ same ▸ stored)⟩
      · by_cases old : s.Has id
        · have more : s.Extends ⟨s.objects ++ [o]⟩ := List.prefix_append _ _
          exact sound.older id p (find?_extends more old ▸ found)
        · have place : s.objects.length ≤ id := Nat.le_of_not_lt old
          have last : p = o := by
            rw [find?, List.getElem?_append_right place] at found
            exact List.mem_singleton.1 (List.mem_of_getElem? found)
          rw [last]
          exact fun link h => Nat.lt_of_lt_of_le (closed link h) place

section Reading
variable (more : s.Extends t)
include more

theorem commit?_extends (known : s.Has id) : t.commit? id = s.commit? id := by
  rw [commit?, commit?, find?_extends more known]

theorem treeFiles?_extends (known : s.Has id) : t.treeFiles? id = s.treeFiles? id := by
  rw [treeFiles?, treeFiles?, find?_extends more known]

theorem content?_extends (known : s.Has id) : t.content? id = s.content? id := by
  rw [content?, content?, find?_extends more known]

theorem isTag_extends (known : s.Has id) : t.isTag id = s.isTag id := by
  rw [isTag, isTag, find?_extends more known]

theorem peelFault_extends (known : s.Has id) (kind : String) (number : Nat) :
    t.peelFault id kind number = s.peelFault id kind number := by
  delta peelFault
  rw [isTag_extends more known]

end Reading

section Sound
variable (sound : s.Sound)
include sound

theorem Sound.links_stored (found : s.find? id = some o) : ∀ link ∈ o.links, s.Has link :=
  fun link h => Nat.lt_trans (sound.older id o found link h) (has_of_find? found)

theorem Sound.has_tree {c : Commit} (found : s.commit? id = some c) : s.Has c.tree := by
  unfold commit? at found
  split at found
  · next stored =>
    obtain rfl := Option.some_inj.1 found
    exact sound.links_stored stored _ List.mem_cons_self
  · exact nomatch found

theorem Sound.has_file {files : Listing} {f : String × ObjectId}
    (found : s.treeFiles? id = some files) (listed : f ∈ files) : s.Has f.2 := by
  unfold treeFiles? at found
  split at found
  · next stored =>
    obtain rfl := Option.some_inj.1 found
    exact sound.links_stored stored f.2 (List.mem_map_of_mem listed)
  · exact nomatch found

theorem Sound.has_files {files : Listing} {f : String × ObjectId}
    (found : s.files? id = some files) (listed : f ∈ files) : s.Has f.2 := by
  unfold files? at found
  split at found
  · exact sound.has_file found listed
  · exact sound.has_file found listed

theorem Sound.has_untagWithin (n : Nat) (known : s.Has id) : s.Has (s.untagWithin n id) := by
  induction n generalizing id with
  | zero => exact known
  | succ n ih =>
      rw [untagWithin]
      split
      · next found => exact ih (sound.links_stored found _ List.mem_cons_self)
      · exact known

theorem Sound.has_untag (known : s.Has id) : s.Has (s.untag id) := sound.has_untagWithin id known

variable (more : s.Extends t)
include more

theorem Sound.untagWithin_extends (n : Nat) (known : s.Has id) :
    t.untagWithin n id = s.untagWithin n id := by
  induction n generalizing id with
  | zero => rfl
  | succ n ih =>
      rw [untagWithin, untagWithin, find?_extends more known]
      split
      · next found => exact ih (sound.links_stored found _ List.mem_cons_self)
      · rfl

theorem Sound.files?_extends (known : s.Has id) : t.files? id = s.files? id := by
  have same : t.untag id = s.untag id := sound.untagWithin_extends more id known
  have own := sound.has_untag known
  rw [files?, files?, same, commit?_extends more own]
  split
  · next c found => rw [treeFiles?_extends more (sound.has_tree found)]
  · rw [treeFiles?_extends more own]

end Sound

end Store

end ApiDrift.Git
