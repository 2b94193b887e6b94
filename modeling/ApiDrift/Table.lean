/-! Tables keyed by names. Entries stand in the order of their names, character by
character, which is also the order of the names' UTF-8 bytes; no name stands twice. -/
namespace ApiDrift

structure Table (α : Type) where
  entries : List (String × α)
  sorted : entries.Pairwise fun a b => a.1 < b.1

namespace Table

variable {α : Type}

protected def empty : Table α := ⟨[], .nil⟩

instance : Inhabited (Table α) := ⟨.empty⟩

/-- Puts a value at its place, over the one that the name had. -/
def insertInto (name : String) (value : α) : List (String × α) → List (String × α)
  | [] => [(name, value)]
  | e :: rest =>
    if name = e.1 then (name, value) :: rest
    else if name < e.1 then (name, value) :: e :: rest
    else e :: insertInto name value rest

theorem mem_insertInto {name : String} {value : α} {l : List (String × α)} {e : String × α}
    (h : e ∈ insertInto name value l) : e = (name, value) ∨ e ∈ l := by
  induction l with
  | nil => simpa [insertInto] using h
  | cons x rest ih =>
    unfold insertInto at h
    split at h
    · rcases List.mem_cons.1 h with h | h
      · exact .inl h
      · exact .inr (List.mem_cons_of_mem _ h)
    · split at h
      · rcases List.mem_cons.1 h with h | h
        · exact .inl h
        · exact .inr h
      · rcases List.mem_cons.1 h with h | h
        · exact .inr (h ▸ List.mem_cons_self)
        · exact (ih h).imp id (List.mem_cons_of_mem _)

theorem sorted_insertInto (name : String) (value : α) {l : List (String × α)}
    (h : l.Pairwise fun a b => a.1 < b.1) :
    (insertInto name value l).Pairwise fun a b => a.1 < b.1 := by
  induction l with
  | nil => simp [insertInto]
  | cons x rest ih =>
    obtain ⟨hx, hrest⟩ := List.pairwise_cons.1 h
    unfold insertInto
    split
    · next heq => exact List.pairwise_cons.2 ⟨fun e he => heq ▸ hx e he, hrest⟩
    · next hne =>
      split
      · next hlt =>
        refine List.pairwise_cons.2 ⟨fun e he => ?_, h⟩
        rcases List.mem_cons.1 he with rfl | he
        · exact hlt
        · exact String.lt_trans hlt (hx e he)
      · next hnlt =>
        refine List.pairwise_cons.2 ⟨fun e he => ?_, ih hrest⟩
        rcases mem_insertInto he with rfl | he
        · exact ((Std.lt_trichotomy x.1 name).resolve_right fun h =>
            h.elim (fun h => hne h.symm) hnlt)
        · exact hx e he

def insert (t : Table α) (name : String) (value : α) : Table α :=
  ⟨insertInto name value t.entries, sorted_insertInto name value t.sorted⟩

def erase (t : Table α) (name : String) : Table α :=
  ⟨t.entries.filter fun e => e.1 != name, t.sorted.filter _⟩

def get? (t : Table α) (name : String) : Option α := t.entries.lookup name

@[simp] theorem get?_empty (name : String) : (Table.empty : Table α).get? name = none := rfl

theorem lookup_entry (e : String × α) (rest : List (String × α)) (name : String) :
    (e :: rest).lookup name = if name = e.1 then some e.2 else rest.lookup name := by
  obtain ⟨key, value⟩ := e
  by_cases h : name = key
  · simp [h]
  · rw [List.lookup_cons, beq_eq_false_iff_ne.2 h, if_neg h]

theorem get?_insert (t : Table α) (name other : String) (value : α) :
    (t.insert name value).get? other = if other = name then some value else t.get? other := by
  show (insertInto name value t.entries).lookup other = _
  unfold get?
  induction t.entries with
  | nil => exact lookup_entry (name, value) [] other
  | cons e rest ih =>
    unfold insertInto
    split
    · next he =>
      rw [lookup_entry, lookup_entry]
      by_cases h : other = name
      · simp [h]
      · simp [h, he ▸ h]
    · next he =>
      split
      · exact lookup_entry (name, value) (e :: rest) other
      · rw [lookup_entry, lookup_entry, ih]
        by_cases h : other = e.1
        · simp [h, Ne.symm he]
        · simp [h]

def contains (t : Table α) (name : String) : Bool := (t.get? name).isSome

def names (t : Table α) : List String := t.entries.map Prod.fst

def values (t : Table α) : List α := t.entries.map Prod.snd

def size (t : Table α) : Nat := t.entries.length

def isEmpty (t : Table α) : Bool := t.entries.isEmpty

/-- The table of these entries, where the last one for a name counts. -/
def ofList (l : List (String × α)) : Table α :=
  l.foldl (fun t e => t.insert e.1 e.2) .empty

end Table

abbrev NameSet := Table Unit

namespace NameSet

def add (s : NameSet) (name : String) : NameSet := s.insert name ()

def ofNames (l : List String) : NameSet := l.foldl add .empty

def union (s t : NameSet) : NameSet := t.names.foldl add s

end NameSet

end ApiDrift
