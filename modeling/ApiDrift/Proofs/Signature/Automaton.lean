import ApiDrift.Signature.Parser
/-! Reading a signature as a scan. An automaton goes over the text once, with a stack of the
containers that are open, and stops at the first error. It builds no types and never looks back;
the reader, whose open containers are calls that have not returned, comes to the same end. -/
namespace ApiDrift.Signature

/-- A container that has not ended yet. An entry counts the members that it has so far. -/
inductive Unfinished where
  | array
  | struct
  | entry (members : Nat)
deriving DecidableEq, Repr

namespace Unfinished

/-- The container that a character begins. -/
def ofCode? : Char → Option Unfinished
  | 'a' => some array
  | '(' => some struct
  | '\x7b' => some (entry 0)
  | _ => none

/-- What is wrong with a text that ends inside the container. -/
def cutOff : Unfinished → SignatureError
  | array => .incompleteArray
  | struct => .incompleteStruct
  | entry _ => .incompleteDict

end Unfinished

/-- The character that would end the innermost container, unless that is an array. -/
def closer? : List Unfinished → Option Char
  | .struct :: _ => some ')'
  | .entry _ :: _ => some '\x7d'
  | _ => none

/-- What is open once a type has ended, the innermost container first: arrays end with their
element, and an entry has one more member. -/
def afterType : List Unfinished → List Unfinished
  | .array :: outer => afterType outer
  | .entry n :: outer => .entry (n + 1) :: outer
  | stack => stack

def closeStruct : List Unfinished → Except SignatureError (List Unfinished)
  | .struct :: outer => .ok (afterType outer)
  | _ => .error (.unbalancedClose ')')

def closeEntry : List Unfinished → Except SignatureError (List Unfinished)
  | .entry n :: outer => if n = 2 then .ok (afterType outer) else .error .invalidDict
  | _ => .error (.unbalancedClose '\x7d')

/-- What is open after one more character. -/
def scanChar (limit : Nat) (stack : List Unfinished) (c : Char) :
    Except SignatureError (List Unfinished) :=
  match BasicType.ofCode? c, Unfinished.ofCode? c with
  | some _, _ => .ok (afterType stack)
  | none, some u => if limit ≤ stack.length then .error (.tooDeep limit) else .ok (u :: stack)
  | none, none =>
    if c = ')' then closeStruct stack
    else if c = '\x7d' then closeEntry stack
    else if c ∈ reservedCodes then .error (.reservedType c)
    else .error (.unknownType c)

/-- At the end of the text nothing may be open. -/
def scanEnd : List Unfinished → Except SignatureError Unit
  | [] => .ok ()
  | u :: _ => .error u.cutOff

/-- The scan of a text, or of what is left of it. -/
def scan (limit : Nat) (stack : List Unfinished) (s : List Char) : Except SignatureError Unit :=
  (s.foldlM (scanChar limit) stack).bind scanEnd

theorem closer?_nil_ne (c : Char) : closer? [] ≠ some c := (Option.some_ne_none c).symm

theorem closer?_array_ne (outer : List Unfinished) (c : Char) :
    closer? (.array :: outer) ≠ some c := (Option.some_ne_none c).symm

variable {limit : Nat} {stack outer : List Unfinished} {c : Char} {s : List Char}

theorem scan_cons : scan limit stack (c :: s) =
    (scanChar limit stack c).bind (scan limit · s) := by
  rw [scan, List.foldlM_cons]
  cases scanChar limit stack c with
  | error e => rfl
  | ok next => rfl

theorem scan_basic {b : BasicType} (known : BasicType.ofCode? c = some b) :
    scan limit stack (c :: s) = scan limit (afterType stack) s := by
  rw [scan_cons, scanChar, known]
  rfl

theorem scan_open {u : Unfinished} (begins : Unfinished.ofCode? c = some u)
    (unknown : BasicType.ofCode? c = none) (room : ¬limit ≤ stack.length) :
    scan limit stack (c :: s) = scan limit (u :: stack) s := by
  rw [scan_cons, scanChar, unknown, begins]
  dsimp only
  rw [if_neg room]
  rfl

theorem scan_open_deep (unknown : BasicType.ofCode? c = none)
    (container : c = 'a' ∨ c = '(' ∨ c = '\x7b') (deep : limit ≤ stack.length) :
    scan limit stack (c :: s) = .error (.tooDeep limit) := by
  have begins : ∃ u, Unfinished.ofCode? c = some u := by
    rcases container with rfl | rfl | rfl
    · exact ⟨_, rfl⟩
    · exact ⟨_, rfl⟩
    · exact ⟨_, rfl⟩
  obtain ⟨u, begins⟩ := begins
  rw [scan_cons, scanChar, unknown, begins]
  dsimp only
  rw [if_pos deep]
  rfl

theorem scan_close_struct :
    scan limit (.struct :: outer) (')' :: s) = scan limit (afterType outer) s := scan_cons

theorem scan_close_entry (n : Nat) : scan limit (.entry n :: outer) ('\x7d' :: s) =
    if n = 2 then scan limit (afterType outer) s else .error .invalidDict := by
  rw [scan_cons]
  show Except.bind (if n = 2 then _ else _) _ = _
  split
  · rfl
  · rfl

theorem closeStruct_unbalanced (goesOn : closer? stack ≠ some ')') :
    closeStruct stack = .error (.unbalancedClose ')') := by
  unfold closeStruct
  split
  · exact absurd rfl goesOn
  · rfl

theorem closeEntry_unbalanced (goesOn : closer? stack ≠ some '\x7d') :
    closeEntry stack = .error (.unbalancedClose '\x7d') := by
  unfold closeEntry
  split
  · exact absurd rfl goesOn
  · rfl

/-- A character that neither is a type nor begins one, and does not end what is open. -/
theorem scan_other (unknown : BasicType.ofCode? c = none)
    (other : ¬(c = 'a' ∨ c = '(' ∨ c = '\x7b'))
    (goesOn : closer? stack ≠ some c) : scan limit stack (c :: s) =
      if c = ')' ∨ c = '\x7d' then .error (.unbalancedClose c)
      else if c ∈ reservedCodes then .error (.reservedType c)
      else .error (.unknownType c) := by
  obtain ⟨notArray, notStruct, notEntry⟩ := by simpa only [not_or] using other
  have begins : Unfinished.ofCode? c = none := by
    unfold Unfinished.ofCode?
    split
    · exact absurd rfl notArray
    · exact absurd rfl notStruct
    · exact absurd rfl notEntry
    · rfl
  rw [scan_cons, scanChar, unknown, begins]
  dsimp only
  by_cases closing : c = ')' ∨ c = '\x7d'
  · rw [if_pos closing]
    rcases closing with rfl | rfl
    · rw [if_pos rfl, closeStruct_unbalanced goesOn]
      rfl
    · rw [if_neg (by decide), if_pos rfl, closeEntry_unbalanced goesOn]
      rfl
  · rw [if_neg closing, if_neg fun h => closing (.inl h), if_neg fun h => closing (.inr h)]
    split
    · rfl
    · rfl

/-- Scanning goes on where the type that `c` begins has been read, or stops as reading it does. -/
def ScannedAsRead (limit : Nat) (stack : List Unfinished) (c : Char) (s : List Char) : Prop :=
  scan limit stack (c :: s) =
    (readType limit stack.length c s).bind fun r => scan limit (afterType stack) r.2.1

section
variable {n : Nat} (shorter : ∀ {stack : List Unfinished} {c : Char} {s : List Char},
  closer? stack ≠ some c → s.length < n → ScannedAsRead limit stack c s)
include shorter

/-- Members are scanned as they are read, up to the character that closes their container. -/
theorem scan_members {m : Nat} (container : Nat → Unfinished) (outer : List Unfinished)
    (close : Char) (unclosed : SignatureError)
    (counts : ∀ k, afterType (container k :: outer) = container (k + 1) :: outer)
    (closes : ∀ k, closer? (container k :: outer) = some close)
    (ends : ∀ k, (container k).cutOff = unclosed) (read : List ValueType) {whole : List Char}
    (hw : s.length ≤ whole.length) (hs : s.length ≤ m) (hm : m ≤ n) :
    scan limit (container read.length :: outer) s =
      (readMembers limit (outer.length + 1) close unclosed read s whole hw).bind fun r =>
        scan limit (container r.1.length :: outer) (close :: r.2.1) := by
  -- Not by induction on the text: what the next member is read from is only known to be shorter.
  induction m generalizing s read with
  | zero =>
      obtain rfl := List.eq_nil_of_length_eq_zero (Nat.le_zero.1 hs)
      rw [readMembers, ← ends read.length]
      rfl
  | succ m ih =>
      cases s with
      | nil =>
          rw [readMembers, ← ends read.length]
          rfl
      | cons c s' =>
          have hs' : s'.length ≤ m := Nat.le_of_succ_le_succ hs
          rw [readMembers]
          dsimp only
          split
          · next closed =>
            subst closed
            show _ = scan limit (container read.reverse.length :: outer) (c :: s')
            rw [List.length_reverse]
          · next another =>
            have goesOn : closer? (container read.length :: outer) ≠ some c :=
              fun same => another (Option.some_inj.1 ((closes _).symm.trans same)).symm
            refine (shorter goesOn (Nat.lt_of_le_of_lt hs' hm)).trans ?_
            rw [List.length_cons]
            split
            · next err failed =>
              rw [failed]
              rfl
            · next t r first =>
              rw [first]
              show scan limit (afterType (container read.length :: outer)) r.1 = _
              rw [counts]
              exact ih (t :: read) _ (Nat.le_trans r.2 hs') (Nat.le_of_succ_le hm)

theorem scannedAsRead_array (room : ¬limit ≤ stack.length) (hs : s.length ≤ n) :
    ScannedAsRead limit stack 'a' s := by
  rw [ScannedAsRead, scan_open rfl rfl room, readType.eq_def]
  dsimp only [BasicType.ofCode?]
  rw [if_pos (.inl rfl), if_neg room, if_pos rfl]
  cases s with
  | nil => rfl
  | cons e s' =>
      refine (shorter (closer?_array_ne stack e) hs).trans ?_
      dsimp only [List.length_cons]
      cases readType limit (stack.length + 1) e s' with
      | error err => rfl
      | ok read => rfl

theorem scannedAsRead_struct (room : ¬limit ≤ stack.length) (hs : s.length ≤ n) :
    ScannedAsRead limit stack '(' s := by
  have members := scan_members shorter (fun _ => .struct) stack ')' .incompleteStruct
    (fun _ => rfl) (fun _ => rfl) (fun _ => rfl) [] (Nat.le_refl s.length) hs (Nat.le_refl n)
  rw [ScannedAsRead, scan_open rfl rfl room, members, readType.eq_def]
  dsimp only [BasicType.ofCode?]
  rw [if_pos (.inr (.inl rfl)), if_neg room, if_neg (by decide), if_pos rfl]
  cases readMembers limit (stack.length + 1) ')' .incompleteStruct [] s s _ with
  | error err => rfl
  | ok read => exact scan_close_struct

theorem scannedAsRead_entry (room : ¬limit ≤ stack.length) (hs : s.length ≤ n) :
    ScannedAsRead limit stack '\x7b' s := by
  have members := scan_members shorter .entry stack '\x7d' .incompleteDict
    (fun _ => rfl) (fun _ => rfl) (fun _ => rfl) [] (Nat.le_refl s.length) hs (Nat.le_refl n)
  rw [ScannedAsRead, scan_open rfl rfl room, readType.eq_def]
  dsimp only [BasicType.ofCode?]
  rw [if_pos (.inr (.inr rfl)), if_neg room, if_neg (by decide), if_neg (by decide)]
  refine members.trans ?_
  cases readMembers limit (stack.length + 1) '\x7d' .incompleteDict [] s s _ with
  | error err => rfl
  | ok read =>
      obtain ⟨ts, r⟩ := read
      refine (scan_close_entry ts.length).trans ?_
      match ts with
      | [] => rfl
      | [_] => rfl
      | [_, _] => rfl
      | _ :: _ :: _ :: _ => rfl

end

theorem scannedAsRead {n : Nat} (goesOn : closer? stack ≠ some c) (hs : s.length < n) :
    ScannedAsRead limit stack c s := by
  induction n generalizing stack c s with
  | zero => exact absurd hs (Nat.not_lt_zero _)
  | succ n ih =>
      have hs : s.length ≤ n := Nat.le_of_lt_succ hs
      cases known : BasicType.ofCode? c with
      | some b =>
          rw [ScannedAsRead, scan_basic known, readType.eq_def, known]
          rfl
      | none =>
          by_cases container : c = 'a' ∨ c = '(' ∨ c = '\x7b'
          · by_cases deep : limit ≤ stack.length
            · rw [ScannedAsRead, scan_open_deep known container deep, readType.eq_def, known]
              dsimp only
              rw [if_pos container, if_pos deep]
              rfl
            · rcases container with rfl | rfl | rfl
              · exact scannedAsRead_array ih deep hs
              · exact scannedAsRead_struct ih deep hs
              · exact scannedAsRead_entry ih deep hs
          · rw [ScannedAsRead, scan_other known container goesOn, readType.eq_def, known]
            dsimp only
            rw [if_neg container]
            split
            · rfl
            · split
              · rfl
              · rfl

theorem scan_all {read : List ValueType} :
    scan limit [] s = (readAll limit read s).bind fun _ => .ok () := by
  induction read, s using readAll.induct limit with
  | case1 read =>
      rw [readAll]
      rfl
  | case2 read c s err failed =>
      refine (scannedAsRead (closer?_nil_ne c) (Nat.lt_succ_self _)).trans ?_
      rw [readAll, List.length_nil, failed]
      rfl
  | case3 read c s t r first ih =>
      refine (scannedAsRead (closer?_nil_ne c) (Nat.lt_succ_self _)).trans ?_
      rw [readAll, List.length_nil, first]
      exact ih

/-- A text is a signature within a limit just if the scan of it with that limit finds no error, and
if it is none, then for the reason that the scan finds first. -/
theorem parseWithin_scanned (limit : Nat) (s : String) :
    ((∃ signature, parseWithin limit s = .ok signature) ↔ scan limit [] s.toList = .ok ()) ∧
    ∀ e, parseWithin limit s = .error e ↔ scan limit [] s.toList = .error e := by
  rw [parseWithin, scan_all]
  cases readAll limit [] s.toList with
  | error err =>
      have same {α : Type} (e : SignatureError) :
          (.error err : Except SignatureError α) = .error e ↔ err = e :=
        ⟨Except.error.inj, congrArg Except.error⟩
      exact ⟨⟨nofun, nofun⟩, fun e => (same e).trans (same e).symm⟩
  | ok ts => exact ⟨⟨fun _ => rfl, fun _ => ⟨_, rfl⟩⟩, fun e => ⟨nofun, nofun⟩⟩

/-- An entry that is never closed may have any number of members. -/
example : scan 2 [] "a\x7byyy(".toList = .error (.tooDeep 2) ∧
    scan 3 [] "a\x7byyy(".toList = .error .incompleteStruct := ⟨rfl, rfl⟩

end ApiDrift.Signature
