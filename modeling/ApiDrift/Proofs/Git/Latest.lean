import ApiDrift.Git.Setup
import ApiDrift.Proofs.Git.Naming
import ApiDrift.Proofs.Snapshot.Newest
/-! The latest release of a git repository, and the one that is listed first. The latest one is
found by the time of its commit before anything else, and lists go by the time of the tag alone. So
the two are one release just where the greatest in the one order is the greatest in the other. -/
namespace ApiDrift.Git.Checkout

open Snapshot (Config DatedTag ListEntry Backend)

/-- When the commit that a release is about was made. -/
def committed? (c : Checkout) (name : String) : Option Int :=
  (c.tag? name).bind fun tag => c.store.commitTime? tag.target

/-- When a release was tagged, if its tag says so. -/
def tagged? (c : Checkout) (name : String) : Option Int := (c.tag? name).bind Tag.time

namespace Rank
variable {a b : Rank}

/-- A rank by the time of the commit, then by that of the tag, then by the name. -/
def key (r : Rank) : Int ×ₗ Int ×ₗ String := toLex (r.committed, toLex (r.tagged, r.name))

theorem key_lt_iff : a.key < b.key ↔ a.committed < b.committed ∨ a.committed = b.committed ∧
    (a.tagged < b.tagged ∨ a.tagged = b.tagged ∧ a.name < b.name) := by
  rw [key, key, Prod.Lex.toLex_lt_toLex, Prod.Lex.toLex_lt_toLex]

theorem less_iff : a.less b = true ↔ a.key < b.key := by
  simp [less, key_lt_iff]

theorem key_injective : Function.Injective key := by
  intro a b same
  cases a
  cases b
  simpa [key] using same

end Rank

variable {c : Checkout} {name : String}

theorem rank?_eq (c : Checkout) (name : String) :
    c.rank? name = (c.committed? name).map fun t => ⟨t, (c.tagged? name).getD 0, name⟩ := by
  rw [rank?, committed?, tagged?]
  cases c.tag? name with
  | none => rfl
  | some tag =>
      rw [Option.bind_some, Option.bind_some]
      show (c.store.commitTime? tag.target).bind _ = _
      cases c.store.commitTime? tag.target with
      | none => rfl
      | some t => rfl

theorem rank?_of_committed? {t : Int} (made : c.committed? name = some t) :
    c.rank? name = some ⟨t, (c.tagged? name).getD 0, name⟩ := by
  rw [rank?_eq, made]
  rfl

theorem name_of_rank? {r : Rank} (h : c.rank? name = some r) : r.name = name := by
  rw [rank?_eq] at h
  obtain ⟨t, -, rfl⟩ := Option.map_eq_some_iff.1 h
  rfl

theorem latestTag_eq_some_iff : c.latestTag = some name ↔ name ∈ c.tags ∧
    ∃ r, c.rank? name = some r ∧ ∀ other ∈ c.tags, ∀ r' ∈ c.rank? other, r'.key ≤ r.key := by
  have mem_iff {r : Rank} : r ∈ c.tags.filterMap c.rank? ↔ ∃ n ∈ c.tags, c.rank? n = some r :=
    List.mem_filterMap
  rw [latestTag]
  cases ranks : c.tags.filterMap c.rank? with
  | nil =>
      refine iff_of_false nofun ?_
      rintro ⟨known, r, rank, -⟩
      exact List.not_mem_nil (ranks ▸ mem_iff.2 ⟨name, known, rank⟩)
  | cons first rest =>
      have later_eq (a b : Rank) :
          (if a.less b then b else a) = if a.key < b.key then b else a :=
        if_congr Rank.less_iff rfl rfl
      obtain ⟨found, greatest⟩ := Snapshot.foldl_greatest later_eq first rest
      dsimp only
      generalize rest.foldl (fun best r => if best.less r then r else best) first = top
        at found greatest ⊢
      rw [← ranks] at found greatest
      obtain ⟨n, known, rank⟩ := mem_iff.1 found
      have above (other : String) (h : other ∈ c.tags) (r : Rank) (own : c.rank? other = some r) :
          r.key ≤ top.key := greatest r (mem_iff.2 ⟨other, h, own⟩)
      rw [Option.some_inj, name_of_rank? rank]
      constructor
      · rintro rfl
        exact ⟨known, top, rank, above⟩
      · rintro ⟨h, r, own, below⟩
        have same : top = r :=
          Rank.key_injective (le_antisymm (below n known top rank) (above name h r own))
        rw [← name_of_rank? rank, same, name_of_rank? own]

theorem tagTime_of_tagged? {t : Int} (tagged : c.tagged? name = some t) :
    c.tagTime name = .ok (dated? t) := by
  obtain ⟨tag, found, time⟩ := Option.bind_eq_some_iff.1 tagged
  obtain ⟨target, time'⟩ := tag
  obtain rfl : time' = some t := time
  rw [tagTime, found]

theorem tagTime_of_untagged {t : Int} (made : c.committed? name = some t)
    (untagged : c.tagged? name = none) : c.tagTime name = .ok (dated? t) := by
  obtain ⟨⟨target, time⟩, found, commit⟩ := Option.bind_eq_some_iff.1 made
  rw [tagged?, found] at untagged
  obtain rfl : time = none := untagged
  rw [tagTime, found]
  dsimp only at commit ⊢
  rw [commit]

variable {config : Config} {files : List String} {e : ListEntry} {rest : List ListEntry}

/-- A release comes before another one where the latest one is looked for: by the time of the
commit, then by that of the tagger, or 0 where there is none, and then by the name. -/
def RanksBelow (c : Checkout) (other name : String) : Prop :=
  ∃ s t, c.committed? other = some s ∧ c.committed? name = some t ∧ (s < t ∨ s = t ∧
    ((c.tagged? other).getD 0 < (c.tagged? name).getD 0 ∨
      (c.tagged? other).getD 0 = (c.tagged? name).getD 0 ∧ other < name))

/-- A release comes after another one where they are listed: by the time of the tag, where times
without a date are the earliest, and then by the name. -/
def ListsBelow (c : Checkout) (other name : String) : Prop :=
  ∃ s t, c.tagTime other = .ok s ∧ c.tagTime name = .ok t ∧
    (Snapshot.earlier s t = true ∨ s = t ∧ other < name)

theorem ranksBelow_iff {other : String} {s t : Int} (made : c.committed? name = some t)
    (made' : c.committed? other = some s) : c.RanksBelow other name ↔ s < t ∨ s = t ∧
      ((c.tagged? other).getD 0 < (c.tagged? name).getD 0 ∨
        (c.tagged? other).getD 0 = (c.tagged? name).getD 0 ∧ other < name) := by
  constructor
  · rintro ⟨s', t', made₁, made₂, order⟩
    obtain rfl := Option.some_inj.1 (made'.symm.trans made₁)
    obtain rfl := Option.some_inj.1 (made.symm.trans made₂)
    exact order
  · exact fun order => ⟨s, t, made', made, order⟩

theorem listsBelow_iff {other : String} {s t : Option Int} (time : c.tagTime name = .ok t)
    (time' : c.tagTime other = .ok s) :
    c.ListsBelow other name ↔ DatedTag.key ⟨s, other⟩ < DatedTag.key ⟨t, name⟩ := by
  rw [DatedTag.key_lt_iff, ← Snapshot.earlier_iff]
  constructor
  · rintro ⟨s', t', time₁, time₂, order⟩
    obtain rfl := Except.ok.inj (time'.symm.trans time₁)
    obtain rfl := Except.ok.inj (time.symm.trans time₂)
    exact order
  · exact fun order => ⟨s, t, time', time, order⟩

theorem latestTag_iff_ranksBelow (known : name ∈ c.tags)
    (ofCommits : ∀ name ∈ c.tags, (c.committed? name).isSome) :
    c.latestTag = some name ↔ ∀ other ∈ c.tags, other ≠ name → c.RanksBelow other name := by
  obtain ⟨t, made⟩ := Option.isSome_iff_exists.1 (ofCommits name known)
  have rank := rank?_of_committed? made
  rw [latestTag_eq_some_iff]
  constructor
  · rintro ⟨-, r, own, above⟩ other h differ
    obtain rfl := Option.some_inj.1 (rank.symm.trans own)
    obtain ⟨s, made'⟩ := Option.isSome_iff_exists.1 (ofCommits other h)
    have below := above other h _ (rank?_of_committed? made')
    refine (ranksBelow_iff made made').2 (Rank.key_lt_iff.1 (below.lt_of_ne fun same => differ ?_))
    exact congrArg Rank.name (Rank.key_injective same)
  · intro below
    refine ⟨known, _, rank, fun other h r' rank' => ?_⟩
    by_cases same : other = name
    · subst same
      exact (Option.some_inj.1 (rank'.symm.trans rank)).symm ▸ le_rfl
    · obtain ⟨s, made'⟩ := Option.isSome_iff_exists.1 (ofCommits other h)
      obtain rfl := Option.some_inj.1 ((rank?_of_committed? made').symm.trans rank')
      exact (Rank.key_lt_iff.2 ((ranksBelow_iff made made').1 (below other h same))).le

theorem exists_latestTag (known : name ∈ c.tags)
    (ofCommits : ∀ name ∈ c.tags, (c.committed? name).isSome) :
    ∃ latest ∈ c.tags, c.latestTag = some latest := by
  obtain ⟨t, made⟩ := Option.isSome_iff_exists.1 (ofCommits name known)
  obtain ⟨latest, top⟩ : ∃ latest, c.latestTag = some latest := by
    unfold latestTag
    cases ranks : c.tags.filterMap c.rank? with
    | nil => exact absurd (rank?_of_committed? made) (Option.eq_none_iff_forall_ne_some.1
        (List.filterMap_eq_nil_iff.1 ranks name known) _)
    | cons first rest => exact ⟨_, rfl⟩
  exact ⟨latest, (latestTag_eq_some_iff.1 top).1, top⟩

/-- No release was tagged after the first one of a list, or at the same time with a greater name. -/
theorem newest_of_list (run : Snapshot.list config files c = .ok (e :: rest)) :
    e.tag ∈ c.tags ∧ c.tagTime e.tag = .ok e.date ∧ ∀ other ∈ c.tags,
      ∃ date, c.tagTime other = .ok date ∧
        DatedTag.key ⟨date, other⟩ ≤ DatedTag.key ⟨e.date, e.tag⟩ := by
  obtain ⟨tags, later, dates, newest⟩ := Snapshot.newestFirst_of_list run
  have dated : ∀ t ∈ tags, c.tagTime t.tag = .ok t.date := by
    intro t ht
    obtain ⟨name, -, made⟩ := exists_of_mem_mapM_ok dates t ht
    obtain ⟨date, time, made⟩ := except_bind_eq_ok.1 made
    obtain rfl := Except.ok.inj made
    exact time
  have names : tags.map DatedTag.tag = c.tags := by
    refine (map_of_mapM_ok (fun name t made => ?_) dates).trans (List.map_id _)
    obtain ⟨date, -, made⟩ := except_bind_eq_ok.1 made
    obtain rfl := Except.ok.inj made
    rfl
  obtain ⟨known, greatest⟩ := Snapshot.newestFirst_eq_cons newest
  refine ⟨names ▸ List.mem_map_of_mem known, dated _ known, fun other h => ?_⟩
  obtain ⟨t, ht, rfl⟩ := List.mem_map.1 (names.symm ▸ h)
  exact ⟨t.date, dated t ht, greatest t ht⟩

/-- When a release was tagged, if there is a date for that. -/
def dateTagged? (c : Checkout) (name : String) : Option Int := (c.tagged? name).bind dated?

theorem tagTime_of_dateTagged? {t : Int} (known : c.dateTagged? name = some t) :
    c.tagged? name = some t ∧ c.tagTime name = .ok (some t) := by
  obtain ⟨t', tagged, date⟩ := Option.bind_eq_some_iff.1 known
  have same : t' = t := by
    unfold dated? at date
    split at date
    · exact Option.some_inj.1 date
    · exact nomatch date
  subst same
  exact ⟨tagged, date ▸ tagTime_of_tagged? tagged⟩

/-- Who tagged them says when for both, or for neither. -/
def DatedAlike (c : Checkout) (other name : String) : Prop :=
  (c.dateTagged? other).isSome ∧ (c.dateTagged? name).isSome ∨
    c.tagged? other = none ∧ c.tagged? name = none

/-- Of two releases of commits of one time that are dated alike, the one that is listed first is the
later one. -/
theorem ranksBelow_iff_listsBelow {other : String} {t : Int} (made : c.committed? name = some t)
    (made' : c.committed? other = some t) (alike : c.DatedAlike other name) :
    c.RanksBelow other name ↔ c.ListsBelow other name := by
  rw [ranksBelow_iff made made', or_iff_right (lt_irrefl t), and_iff_right rfl]
  rcases alike with ⟨dated', dated⟩ | ⟨untagged', untagged⟩
  · obtain ⟨s, dated⟩ := Option.isSome_iff_exists.1 dated
    obtain ⟨s', dated'⟩ := Option.isSome_iff_exists.1 dated'
    obtain ⟨tagged, time⟩ := tagTime_of_dateTagged? dated
    obtain ⟨tagged', time'⟩ := tagTime_of_dateTagged? dated'
    rw [listsBelow_iff time time', DatedTag.key_lt_iff_of_dated rfl rfl, tagged, tagged']
    rfl
  · rw [listsBelow_iff (tagTime_of_untagged made untagged) (tagTime_of_untagged made' untagged'),
      DatedTag.key_lt_iff, untagged, untagged', or_iff_right (lt_irrefl _),
      or_iff_right (lt_irrefl _)]
    exact (and_iff_right rfl).trans (and_iff_right rfl).symm

/-- Where all releases are of commits, there is a latest one. All others are listed below the one
that is listed first, and this is the latest one just if they all rank below it too. Those of
commits of the same time do where both are dated alike. -/
theorem first_listed_latest (ofCommits : ∀ name ∈ c.tags, (c.committed? name).isSome)
    (run : Snapshot.list config files c = .ok (e :: rest)) :
    (∀ other ∈ c.tags, other ≠ e.tag → c.ListsBelow other e.tag) ∧
    ∃ latest ∈ c.tags, c.latestTag = some latest ∧
      (latest = e.tag ↔ ∀ other ∈ c.tags, other ≠ e.tag → c.RanksBelow other e.tag) ∧
      ∀ other ∈ c.tags, other ≠ e.tag → c.committed? other = c.committed? e.tag →
        c.DatedAlike other e.tag → c.RanksBelow other e.tag := by
  obtain ⟨known, time, newest⟩ := newest_of_list run
  have listed : ∀ other ∈ c.tags, other ≠ e.tag → c.ListsBelow other e.tag := by
    intro other h differ
    obtain ⟨date, time', below⟩ := newest other h
    refine (listsBelow_iff time time').2 (below.lt_of_ne fun same => differ ?_)
    exact congrArg DatedTag.tag (DatedTag.key_injective same)
  obtain ⟨latest, isTag, top⟩ := exists_latestTag known ofCommits
  refine ⟨listed, latest, isTag, top, ?_, fun other h differ same alike => ?_⟩
  · rw [← latestTag_iff_ranksBelow known ofCommits, top, Option.some_inj]
  · obtain ⟨t, made⟩ := Option.isSome_iff_exists.1 (ofCommits e.tag known)
    exact (ranksBelow_iff_listsBelow made (same.trans made) alike).2 (listed other h differ)

/-- Two releases of a file, the second of them of a later commit and tagged at 300. -/
def twoReleases (time : Int) : Checkout where
  workspace :=
    let w := ({} : Workspace).init [] false none
    let w := (w.stage [] "bell.xml" (.text "1")).commit [] 100
    let w := w.annotatedTag [] "v1" "HEAD" (some time)
    let w := (w.stage [] "bell.xml" (.text "2")).commit [] 200
    w.annotatedTag [] "v2" "HEAD" (some 300)
  gitDir := [".git"]
  workTree := some []

theorem twoReleases_in_order :
    (∀ name ∈ (twoReleases 150).tags, ((twoReleases 150).committed? name).isSome) ∧
    Snapshot.list {} ["bell.xml"] (twoReleases 150) =
      .ok [⟨"v2", some 300, "bell.xml", none⟩, ⟨"v1", some 150, "bell.xml", none⟩] ∧
    (twoReleases 150).latestTag = some "v2" := by
  have names : (twoReleases 150).tags = ["v1", "v2"] := by decide +kernel
  have first : (twoReleases 150).committed? "v1" = some 100 := by decide +kernel
  have second : (twoReleases 150).committed? "v2" = some 200 := by decide +kernel
  have ofCommits : ∀ name ∈ (twoReleases 150).tags, ((twoReleases 150).committed? name).isSome := by
    rw [names]
    simp [first, second]
  have run : Snapshot.list {} ["bell.xml"] (twoReleases 150) =
      .ok [⟨"v2", some 300, "bell.xml", none⟩, ⟨"v1", some 150, "bell.xml", none⟩] := by
    decide +kernel
  obtain ⟨-, latest, -, top, newest, -⟩ := first_listed_latest ofCommits run
  refine ⟨ofCommits, run, top.trans (congrArg some (newest.2 ?_))⟩
  rw [names]
  simp [RanksBelow, first, second]

/-- Where a release is tagged after one of a later commit, it is listed first, but is not the latest
one. -/
theorem twoReleases_out_of_order :
    (∀ name ∈ (twoReleases 400).tags, ((twoReleases 400).committed? name).isSome) ∧
    Snapshot.list {} ["bell.xml"] (twoReleases 400) =
      .ok [⟨"v1", some 400, "bell.xml", none⟩, ⟨"v2", some 300, "bell.xml", none⟩] ∧
    (twoReleases 400).latestTag = some "v2" := by
  decide +kernel

end ApiDrift.Git.Checkout
