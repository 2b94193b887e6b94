import ApiDrift.Name
import ApiDrift.Proofs.Text.Split
/-! The grammar of names on the bus, told by what names are joined from. The checks, which cut a
name at its separators, accept exactly that. -/
namespace ApiDrift.Name

/-- One of `A-Z`, `a-z` and `_`. -/
def Letter (c : Char) : Prop := 'A' ≤ c ∧ c ≤ 'Z' ∨ 'a' ≤ c ∧ c ≤ 'z' ∨ c = '_'

/-- One of `A-Z`, `a-z`, `0-9` and `_`. -/
def LetterOrDigit (c : Char) : Prop := Letter c ∨ '0' ≤ c ∧ c ≤ '9'

/-- What stands between two dots: `[A-Za-z_][A-Za-z0-9_]*`. -/
def Element (s : String) : Prop :=
  ∃ first rest, s.toList = first :: rest ∧ Letter first ∧ ∀ c ∈ rest, LetterOrDigit c

/-- What stands between two slashes: `[A-Za-z0-9_]+`. -/
def PathElement (s : String) : Prop := s ≠ "" ∧ ∀ c ∈ s.toList, LetterOrDigit c

/-- Texts made up of at least `least` parts of one kind, with a separator between two. -/
def JoinOf (sep : Char) (least : Nat) (Part : String → Prop) (s : String) : Prop :=
  ∃ parts : List String, least ≤ parts.length ∧ (∀ part ∈ parts, Part part) ∧
    s = sep.toString.intercalate parts

def InterfaceName (s : String) : Prop := s.utf8ByteSize ≤ 255 ∧ JoinOf '.' 2 Element s

def MemberName (s : String) : Prop := s.utf8ByteSize ≤ 255 ∧ Element s

def RelativePath (s : String) : Prop := JoinOf '/' 1 PathElement s

def AbsolutePath (s : String) : Prop := s = "/" ∨ ∃ rest, s = "/" ++ rest ∧ RelativePath rest

section Characters
variable {c : Char}

theorem isUpper_iff : c.isUpper = true ↔ 'A' ≤ c ∧ c ≤ 'Z' := decide_eq_true_iff

theorem isLower_iff : c.isLower = true ↔ 'a' ≤ c ∧ c ≤ 'z' :=
  (Bool.and_eq_true_iff).trans (and_congr decide_eq_true_iff decide_eq_true_iff)

theorem isDigit_iff : c.isDigit = true ↔ '0' ≤ c ∧ c ≤ '9' :=
  (Bool.and_eq_true_iff).trans (and_congr decide_eq_true_iff decide_eq_true_iff)

theorem isLetter_iff : isLetter c = true ↔ Letter c := by
  have shape : isLetter c = (c.isUpper || c.isLower || c == '_') := rfl
  rw [shape, Bool.or_eq_true, Bool.or_eq_true, isUpper_iff, isLower_iff, beq_iff_eq, or_assoc,
    Letter]

theorem isLetterOrDigit_iff : isLetterOrDigit c = true ↔ LetterOrDigit c := by
  have letter : isLetter c = (c.isAlpha || c == '_') := rfl
  have shape : isLetterOrDigit c = (c.isAlpha || c.isDigit || c == '_') := rfl
  rw [LetterOrDigit, ← isLetter_iff, letter, shape, Bool.or_eq_true, Bool.or_eq_true,
    Bool.or_eq_true, isDigit_iff, or_right_comm]

theorem Letter.ne_dot (letter : Letter c) : c ≠ '.' := by
  rintro rfl
  exact absurd (isLetter_iff.2 letter) (by decide)

theorem LetterOrDigit.ne_dot (allowed : LetterOrDigit c) : c ≠ '.' := by
  rintro rfl
  exact absurd (isLetterOrDigit_iff.2 allowed) (by decide)

theorem LetterOrDigit.ne_slash (allowed : LetterOrDigit c) : c ≠ '/' := by
  rintro rfl
  exact absurd (isLetterOrDigit_iff.2 allowed) (by decide)

end Characters

section Parts
variable {s : String}

theorem isElement_iff : isElement s.toList = true ↔ Element s := by
  unfold Element
  cases s.toList with
  | nil => exact iff_of_false Bool.false_ne_true (by rintro ⟨_, _, shape, -⟩; cases shape)
  | cons first rest =>
      simp only [isElement, Bool.and_eq_true, List.all_eq_true, isLetter_iff, isLetterOrDigit_iff]
      constructor
      · intro checked
        exact ⟨first, rest, rfl, checked⟩
      · rintro ⟨_, _, shape, letter, others⟩
        obtain ⟨rfl, rfl⟩ := List.cons.inj shape
        exact ⟨letter, others⟩

theorem isPathElement_iff : isPathElement s.toList = true ↔ PathElement s := by
  simp [isPathElement, PathElement, isLetterOrDigit_iff]

theorem Element.no_dot (element : Element s) : '.' ∉ s.toList := by
  obtain ⟨first, rest, shape, letter, others⟩ := element
  rw [shape, List.mem_cons, not_or]
  exact ⟨letter.ne_dot.symm, fun dot => (others _ dot).ne_dot rfl⟩

theorem PathElement.no_slash (element : PathElement s) : '/' ∉ s.toList :=
  fun slash => (element.2 _ slash).ne_slash rfl

end Parts

section Joins
variable {sep : Char} {least : Nat} {Part : String → Prop} {s t : String}

theorem joinOf_iff_split (some : 0 < least) (single : ∀ part, Part part → sep ∉ part.toList) :
    JoinOf sep least Part s ↔
      least ≤ (Text.split sep s).length ∧ ∀ part ∈ Text.split sep s, Part part := by
  constructor
  · rintro ⟨parts, enough, all, rfl⟩
    have nonempty : parts ≠ [] := List.ne_nil_of_length_pos (by omega)
    rw [Text.split_intercalate nonempty fun part mem => single part (all part mem)]
    exact ⟨enough, all⟩
  · rintro ⟨enough, all⟩
    exact ⟨Text.split sep s, enough, all, (Text.intercalate_split sep s).symm⟩

theorem joinOf_iff_splitChars {check : List Char → Bool} (some : 0 < least)
    (single : ∀ part, Part part → sep ∉ part.toList)
    (checks : ∀ part : String, check part.toList = true ↔ Part part) :
    JoinOf sep least Part s ↔ least ≤ (Text.splitChars sep s.toList).length ∧
      (Text.splitChars sep s.toList).all check = true := by
  have part (l : List Char) : Part (String.ofList l) ↔ check l = true := by
    rw [← checks, String.toList_ofList]
  rw [joinOf_iff_split some single]
  simp only [Text.split, List.length_map, List.forall_mem_map, part, List.all_eq_true]

theorem JoinOf.concat (some : 0 < least) (joined : JoinOf sep least Part s) (last : Part t) :
    JoinOf sep least Part (s ++ sep.toString ++ t) := by
  obtain ⟨parts, enough, all, rfl⟩ := joined
  have nonempty : parts ≠ [] := List.ne_nil_of_length_pos (by omega)
  refine ⟨parts ++ [t], ?_, List.forall_mem_append.2 ⟨all, List.forall_mem_singleton.2 last⟩, ?_⟩
  · rw [List.length_append]
    omega
  · rw [String.intercalate_append_of_ne_nil nonempty (List.cons_ne_nil t []),
      String.intercalate_singleton]

end Joins

section Names
variable {s m rest : String}

theorem isInterface_iff : isInterface s = true ↔ InterfaceName s := by
  rw [InterfaceName,
    joinOf_iff_splitChars Nat.two_pos (fun _ => Element.no_dot) fun _ => isElement_iff]
  simp only [isInterface, Bool.and_eq_true, decide_eq_true_iff, and_assoc]
  rfl

theorem isMember_iff : isMember s = true ↔ MemberName s := by
  rw [isMember, Bool.and_eq_true, decide_eq_true_iff, isElement_iff]
  rfl

theorem isRelativePath_iff : isRelativePath s = true ↔ RelativePath s := by
  rw [RelativePath,
    joinOf_iff_splitChars Nat.one_pos (fun _ => PathElement.no_slash) fun _ => isPathElement_iff]
  have some : 1 ≤ (Text.splitChars '/' s.toList).length :=
    List.length_pos_of_ne_nil (Text.splitChars_ne_nil '/' s.toList)
  exact (and_iff_right some).symm

theorem absolutePath_slash_append : AbsolutePath ("/" ++ rest) ↔ rest = "" ∨ RelativePath rest := by
  unfold AbsolutePath
  refine or_congr ?_ ⟨?_, fun relative => ⟨rest, rfl, relative⟩⟩
  · exact ⟨fun root => by simpa using root, fun none => by rw [none]; rfl⟩
  · rintro ⟨tail, same, relative⟩
    rwa [(String.append_right_inj "/").1 same]

theorem isAbsolutePath_iff : isAbsolutePath s = true ↔ AbsolutePath s := by
  unfold isAbsolutePath
  split
  · next root =>
    exact iff_of_true rfl (.inl (String.ext root))
  · next rest more slash =>
    obtain rfl : s = "/" ++ String.ofList rest := String.ext (by simp [slash])
    have some : String.ofList rest ≠ "" := by
      intro none
      exact more (by simpa using none)
    rw [absolutePath_slash_append, or_iff_right some, ← isRelativePath_iff, isRelativePath,
      String.toList_ofList]
  · next slashless =>
    refine iff_of_false Bool.false_ne_true ?_
    rintro (rfl | ⟨rest, rfl, -⟩)
    · exact slashless [] rfl
    · exact slashless rest.toList (by simp)

theorem MemberName.not_interface (member : MemberName s) : ¬ InterfaceName s := by
  rintro ⟨-, joined⟩
  rw [joinOf_iff_split Nat.two_pos fun _ => Element.no_dot,
    Text.split_eq_singleton member.2.no_dot] at joined
  exact absurd joined.1 (Nat.not_succ_le_self 1)

theorem InterfaceName.concat (own : InterfaceName s) (member : MemberName m)
    (short : (s ++ "." ++ m).utf8ByteSize ≤ 255) : InterfaceName (s ++ "." ++ m) :=
  ⟨short, own.2.concat Nat.two_pos member.2⟩

/-- The checks of names accept exactly the names of the grammar. No name is both one of a member and
one of an interface, and a member's name behind that of an interface makes one of an interface as
long as it is short enough. -/
theorem names_checked (s m : String) :
    (isInterface s = true ↔ s.utf8ByteSize ≤ 255 ∧ JoinOf '.' 2 Element s) ∧
    (isMember s = true ↔ s.utf8ByteSize ≤ 255 ∧ Element s) ∧
    (isRelativePath s = true ↔ JoinOf '/' 1 PathElement s) ∧
    (isAbsolutePath s = true ↔
      s = "/" ∨ ∃ rest, s = "/" ++ rest ∧ isRelativePath rest = true) ∧
    ¬ (isMember s = true ∧ isInterface s = true) ∧
    (isInterface s = true → isMember m = true → (s ++ "." ++ m).utf8ByteSize ≤ 255 →
      isInterface (s ++ "." ++ m) = true) := by
  simp only [isInterface_iff, isMember_iff, isRelativePath_iff, isAbsolutePath_iff]
  refine ⟨Iff.rfl, Iff.rfl, Iff.rfl, Iff.rfl, ?_, ?_⟩
  · rintro ⟨member, interface⟩
    exact member.not_interface interface
  · exact InterfaceName.concat

/-- A separator at either end leaves an empty part, a digit may begin the element of a path only,
and letters of other alphabets are none here. -/
example : (["org.bus", "org.bus.", ".org", "org..bus", "org.1", "org.é"].map isInterface,
    ["a/1", "a/", "/a", "a//b", "é"].map isRelativePath) =
      ([true, false, false, false, false, false], [true, false, false, false, false]) := by
  decide

end Names

end ApiDrift.Name
