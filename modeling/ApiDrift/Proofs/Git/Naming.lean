import ApiDrift.Proofs.Git.Notes
import ApiDrift.Proofs.Git.RefName
import ApiDrift.Proofs.Text.Affix
import Mathlib.Data.List.Find
/-! What the names of releases stand for, and the files in them. Both stay as they are when refs
are moved that no such name may be short for. -/
namespace ApiDrift.Git

open Snapshot (Failure Blob)

namespace Revision

theorem eval?_of_splitName {s : Store} {r : Repository} {name : String}
    (whole : splitName name.toList = (name.toList, [])) :
    eval? s r name = if name = "@" then (r.target? headName).bind s.find? else named? s r name := by
  unfold eval?
  split
  · rfl
  · rw [whole]
    dsimp only
    split
    · next same => exact nomatch same
    · next same => exact nomatch same
    · rw [String.ofList_toList]
      cases named? s r name <;> rfl

theorem named?_eq {s : Store} {r : Repository} {name : String} (some : name ≠ "") :
    named? s r name = if name.toLower = emptyTreeId then .some (.tree [])
      else ((ref? r name).bind r.target?).bind s.find? := by
  have filled : ¬name.isEmpty = true := by simpa using some
  rw [named?, if_neg filled]
  split
  · rfl
  · cases ref? r name <;> rfl

theorem of_eval?_eq_some {s : Store} {r : Repository} {name : String} {o : Object}
    (whole : splitName name.toList = (name.toList, [])) (some : name ≠ "")
    (found : eval? s r name = .some o) : o = .tree [] ∨ ∃ id, s.find? id = .some o := by
  have stored {id? : Option ObjectId} (h : id?.bind s.find? = .some o) : ∃ id, s.find? id = .some o :=
    (Option.bind_eq_some_iff.1 h).imp fun _ => And.right
  rw [eval?_of_splitName whole, named?_eq some] at found
  split at found
  · exact .inr (stored found)
  · split at found
    · exact .inl (Option.some_inj.1 found).symm
    · exact .inr (stored found)

end Revision

namespace Checkout
variable {c v : Checkout} {moved : String → Prop} {tag path : String}

theorem tags_nodup (c : Checkout) : c.tags.Nodup := by
  refine List.Nodup.filter _ (c.repository.refs.names_nodup.filterMap fun r r' name h h' => ?_)
  rw [Text.after?_eq_some_iff.1 h, Text.after?_eq_some_iff.1 h']

theorem isSome_tag? (known : tag ∈ c.tags) : (c.tag? tag).isSome := (List.mem_filter.1 known).2

theorem Closed.has_target (closed : c.Closed) {name : String} {id : ObjectId}
    (found : c.repository.target? name = some id) : c.store.Has id := by
  unfold Repository.target? at found
  split at found
  · exact closed.refs _ id found
  · split at found
    · exact closed.fetchHead id found
    · exact closed.refs name id found

theorem Closed.has_target_of_tag? (closed : c.Closed) {t : Tag} (found : c.tag? tag = some t) :
    c.store.Has t.target := by
  obtain ⟨id, -, found⟩ := Option.bind_eq_some_iff.1 found
  unfold Store.tag? at found
  split at found
  · next stored =>
    obtain rfl := Option.some_inj.1 found
    exact closed.store.links_stored stored _ List.mem_cons_self
  · exact nomatch found

theorem tagBlob_of_tag? {t : Tag} (known : c.tag? tag = some t) :
    c.tagBlob tag path = match c.store.files? t.target, pathFault? path with
      | none, _ => .error (.git (c.store.peelFault t.target "tree" 2))
      | some _, some m => .error (.git m)
      | some files, none => .ok (c.listed? files path) := by
  rw [tagBlob, known]
  dsimp only
  cases c.store.files? t.target with
  | none => rfl
  | some files =>
      dsimp only
      rw [blobAt]
      cases pathFault? path with
      | some m => rfl
      | none => exact congrArg Except.ok (listed?_eq c files path).symm

section Grows
variable (closed : c.Closed) (grows : c.Grows moved v)
include grows

theorem target?_grows {name : String} (branchStill : ¬moved branch) (still : ¬moved name) :
    v.repository.target? name = c.repository.target? name := by
  rw [Repository.target?, Repository.target?, grows.refs name still,
    grows.refs branch branchStill, grows.fetchHead]

theorem ref?_grows (branchStill : ¬moved branch)
    (still : ∀ name ∈ Revision.fullNames tag, ¬moved name) (some : tag ≠ "") :
    Revision.ref? v.repository tag = Revision.ref? c.repository tag := by
  have filled : ¬tag.isEmpty = true := by simpa using some
  rw [Revision.ref?, Revision.ref?, if_neg filled]
  refine List.find?_congr fun name h => ?_
  rw [target?_grows grows branchStill (still name h)]

include closed

theorem resolve_grows (branchStill : ¬moved branch)
    (still : ∀ name ∈ Revision.fullNames tag, ¬moved name)
    (valid : RefName.isValid (tagsHeading ++ tag)) : v.resolve tag = c.resolve tag := by
  rw [show tagsHeading = "refs/tags" ++ "/" from rfl] at valid
  obtain ⟨whole, some⟩ := RefName.splitName_of_isValid valid
  have stored (name : String) (same : v.repository.target? name = c.repository.target? name) :
      (v.repository.target? name).bind v.store.find? =
        (c.repository.target? name).bind c.store.find? := by
    rw [same]
    exact Option.bind_congr fun id found => Store.find?_extends grows.store (closed.has_target found)
  have headStill : v.repository.target? headName = c.repository.target? headName := by
    rw [Repository.target?, Repository.target?, if_pos rfl, if_pos rfl, grows.refs branch branchStill]
  have same : Revision.eval? v.store v.repository tag = Revision.eval? c.store c.repository tag := by
    rw [Revision.eval?_of_splitName whole, Revision.eval?_of_splitName whole, stored _ headStill,
      Revision.named?_eq some, Revision.named?_eq some,
      ref?_grows grows branchStill still some, Option.bind_assoc, Option.bind_assoc]
    refine congrArg (ite _ _) (congrArg (ite _ _) (Option.bind_congr fun name found => ?_))
    rw [Revision.ref?, if_neg (by simpa using some)] at found
    exact stored name (target?_grows grows branchStill (still name (List.mem_of_find?_eq_some found)))
  rw [resolve, resolve, same]
  refine Option.map_congr fun o found => ?_
  have old : o ∈ v.store.objects → o ∈ c.store.objects := by
    rcases Revision.of_eval?_eq_some whole some found with rfl | ⟨id, stored⟩
    · exact grows.filled
    · exact fun _ => Store.mem_of_find? stored
  rw [Store.idOf?_extends grows.store grows.closed.store.once old]

theorem tag?_grows (still : ¬moved (tagsHeading ++ tag)) : v.tag? tag = c.tag? tag := by
  rw [tag?, tag?, grows.refs _ still]
  refine Option.bind_congr fun id found => ?_
  rw [Store.tag?, Store.tag?, Store.find?_extends grows.store (closed.refs _ id found)]

theorem tagBlob_grows (still : ¬moved (tagsHeading ++ tag)) :
    v.tagBlob tag path = c.tagBlob tag path := by
  have same := tag?_grows closed grows still
  cases found : c.tag? tag with
  | none => rw [tagBlob, tagBlob, same, found]
  | some t =>
      have known : c.store.Has t.target := closed.has_target_of_tag? found
      rw [tagBlob_of_tag? found, tagBlob_of_tag? (same.trans found),
        closed.store.files?_extends grows.store known]
      cases files : c.store.files? t.target with
      | none =>
          dsimp only
          rw [Store.peelFault_extends grows.store known]
      | some l =>
          cases pathFault? path with
          | some m => rfl
          | none =>
              exact congrArg Except.ok
                (listed?_extends grows.store (fun f => closed.store.has_files files) path)

end Grows

end Checkout

end ApiDrift.Git
