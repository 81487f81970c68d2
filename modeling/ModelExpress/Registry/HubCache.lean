/-
  ModelExpress server — eviction on the Hugging Face cache (`evict_model` of `cache.rs`,
  `delete_model_revision` of `providers/huggingface.rs`).

  The cache keeps one repository directory per model, in the partition of its tenant, with
  snapshots, refs and blobs.  Paths are lists of names under the cache directory; all records
  are Hugging Face's.
-/
import ModelExpress.Registry.Eviction

namespace ModelExpress.Registry

open Run List AList

/-! ## Names -/

def flatten (name : List Char) : List Char := name.flatMap fun c => if c = '/' then ['-', '-'] else [c]

/-- The directory of a model: `models--{org}--{name}`. -/
def repoFolder (modelName : String) : String := "models--" ++ String.ofList (flatten modelName.toList)

def partition : Option Tenant → List String
  | some tenant => [".modelexpress", "tenants", tenant.name]
  | none => []

def repoRoot (tenant : Option Tenant) (modelName : String) : List String := partition tenant ++ [repoFolder modelName]

/-- An id of the Hub: a `-` is not followed by another one, nor does it end a part. -/
def HubId (modelName : String) : Prop := modelName.toList.IsChain fun a b => ¬ (a = '-' ∧ (b = '-' ∨ b = '/'))

instance (modelName : String) : Decidable (HubId modelName) := inferInstanceAs (Decidable (List.IsChain _ _))

abbrev Spread (name : List Char) : Prop := name.IsChain fun a b => ¬ (a = '-' ∧ (b = '-' ∨ b = '/'))

theorem flatten_cons (c : Char) (name : List Char) :
    flatten (c :: name) = (if c = '/' then ['-', '-'] else [c]) ++ flatten name := by
  simp [flatten]

variable {x y : List Char}

theorem flatten_ne_dash (hx : Spread ('-' :: x)) : flatten x ≠ '-' :: y := by
  cases x with
  | nil => simp [flatten]
  | cons c x =>
    have hc : ¬ (c = '-' ∨ c = '/') := fun hc => (isChain_cons_cons.1 hx).1 ⟨rfl, hc⟩
    rw [flatten_cons, if_neg fun hslash => hc (.inr hslash)]
    intro h
    exact hc (.inl (cons.inj h).1)

theorem flatten_inj (hx : Spread x) (hy : Spread y) (h : flatten x = flatten y) : x = y := by
  induction x generalizing y with
  | nil =>
    cases y with
    | nil => rfl
    | cons b y => by_cases hb : b = '/' <;> simp [flatten, hb] at h
  | cons a x ih =>
    cases y with
    | nil => by_cases ha : a = '/' <;> simp [flatten, ha] at h
    | cons b y =>
      have htail : flatten x = flatten y → x = y := ih hx.tail hy.tail
      rw [flatten_cons, flatten_cons] at h
      split_ifs at h with ha hb hb
      · rw [ha, hb, htail (by simpa using h)]
      · -- the `/` of one against a `-` of the other
        obtain ⟨rfl, hrest⟩ := cons.inj h
        exact absurd hrest.symm (flatten_ne_dash hy)
      · obtain ⟨rfl, hrest⟩ := cons.inj h
        exact absurd hrest (flatten_ne_dash hx)
      · obtain ⟨rfl, hrest⟩ := cons.inj h
        rw [htail hrest]

theorem repoFolder_inj {name name' : String} (h : HubId name) (h' : HubId name')
    (heq : repoFolder name = repoFolder name') : name = name' := by
  have hlist := congrArg String.toList heq
  simp only [repoFolder, String.toList_append, String.toList_ofList, append_cancel_left_eq] at hlist
  exact String.toList_inj.1 (flatten_inj h h' hlist)

variable {tenant tenant' : Option Tenant}

theorem partition_inj {rest rest' : List String} (hlen : rest.length = rest'.length)
    (h : partition tenant ++ rest = partition tenant' ++ rest') : tenant = tenant' ∧ rest = rest' := by
  obtain ⟨hpart, hrest⟩ := append_inj' h hlen
  refine ⟨?_, hrest⟩
  rcases tenant with _ | ⟨name, _⟩ <;> rcases tenant' with _ | ⟨_, _⟩
  · rfl
  · cases hpart
  · cases hpart
  · simp only [partition, cons.injEq, and_true, true_and] at hpart
    subst hpart
    rfl

theorem repoRoot_inj {name name' : String} (h : HubId name) (h' : HubId name')
    (heq : repoRoot tenant name = repoRoot tenant' name') : tenant = tenant' ∧ name = name' := by
  have hlen : [repoFolder name].length = [repoFolder name'].length := rfl
  obtain ⟨htenant, hfolder⟩ := partition_inj hlen heq
  exact ⟨htenant, repoFolder_inj h h' (singleton_inj.1 hfolder)⟩

def validateRevision (revision : String) : Bool :=
  let forbidden (c : Char) : Bool :=
    c.toNat < 32 || c.toNat = 127 || [' ', '~', '^', ':', '?', '*', '[', '\\'].contains c
  revision ≠ "@" && revision.toList.getLast? ≠ some '.' && !decide (['.', '.'] <:+: revision.toList) &&
    !decide (['@', '\x7b'] <:+: revision.toList) && !revision.toList.any forbidden &&
    (Text.split '/' revision).all fun component =>
      component ≠ "" && component.toList.head? ≠ some '.' && !decide (".lock".toList <:+ component.toList)

def CommitId (revision : String) : Prop :=
  revision.length = 40 ∧ revision.toList.all fun c => c.isDigit || ['a', 'b', 'c', 'd', 'e', 'f'].contains c

instance (revision : String) : Decidable (CommitId revision) := inferInstanceAs (Decidable (_ ∧ _))

theorem CommitId.notMem {revision : String} (h : CommitId revision) {c : Char}
    (hc : (c.isDigit || ['a', 'b', 'c', 'd', 'e', 'f'].contains c) = false) : c ∉ revision.toList := by
  intro hmem
  rw [all_eq_true.1 h.2 c hmem] at hc
  cases hc

theorem CommitId.revision {revision : String} (h : CommitId revision) : EntryKey.Revision revision := by
  refine ⟨?_, h.notMem rfl⟩
  rintro rfl
  exact absurd h.1 (by decide)

theorem CommitId.validateRevision {revision : String} (h : CommitId revision) : validateRevision revision = true := by
  have hdot : '.' ∉ revision.toList := h.notMem rfl
  have hat : '@' ∉ revision.toList := h.notMem rfl
  have hk : 'k' ∉ revision.toList := h.notMem rfl
  have hne : revision ≠ "@" := by
    rintro rfl
    exact absurd h.1 (by decide)
  have hlast : revision.toList.getLast? ≠ some '.' := fun hlast => hdot (mem_of_getLast? hlast)
  have hdots : ¬ ['.', '.'] <:+: revision.toList := fun hpart => hdot (hpart.subset (by simp))
  have hbrace : ¬ ['@', '\x7b'] <:+: revision.toList := fun hpart => hat (hpart.subset (by simp))
  have hhead : revision.toList.head? ≠ some '.' := fun hhead => hdot (mem_of_head? hhead)
  have hlock : ¬ ".lock".toList <:+ revision.toList := fun hsuffix => hk (hsuffix.subset (by decide))
  have hsplit : Text.split '/' revision = [revision] := by
    have hback := Text.split_join (c := '/') (cons_ne_nil revision [])
      (fun p hp => mem_singleton.1 hp ▸ h.notMem rfl)
    simpa [Text.join] using hback
  have hforbidden : (revision.toList.any fun c =>
      c.toNat < 32 || c.toNat = 127 || [' ', '~', '^', ':', '?', '*', '[', '\\'].contains c) = false := by
    rw [any_eq_false]
    intro c hc
    simp only [Bool.or_eq_true, decide_eq_true_eq, contains_iff_mem]
    rintro (hcontrol | hmem)
    · rcases Bool.or_eq_true _ _ ▸ all_eq_true.1 h.2 c hc with hdigit | hletter
      · have hrange : 48 ≤ c.toNat ∧ c.toNat ≤ 57 := by simpa [Char.isDigit, UInt32.le_iff_toNat_le] using hdigit
        omega
      · simp only [contains_iff_mem, mem_cons, not_mem_nil, or_false] at hletter
        rcases hletter with rfl | rfl | rfl | rfl | rfl | rfl <;> exact absurd hcontrol (by decide)
    · have hnone : [' ', '~', '^', ':', '?', '*', '[', '\\'].all (fun c =>
          !(c.isDigit || ['a', 'b', 'c', 'd', 'e', 'f'].contains c)) = true := by decide
      exact h.notMem (by simpa using all_eq_true.1 hnone c hmem) hc
  rw [Registry.validateRevision, hsplit, hforbidden]
  simp only [hne, hlast, hdots, hbrace, h.revision.1, hhead, hlock, all_cons, all_nil, ne_eq, not_false_eq_true,
    decide_true, decide_false, Bool.not_false, Bool.and_self]

/-! ## The cache -/

structure Snapshot where
  commit : String
  /-- The files by their paths, each with the blob it links to, unless it is a regular file. -/
  files : List (String × Option String)
  deriving DecidableEq

namespace Snapshot

def links (snapshot : Snapshot) : List String := snapshot.files.filterMap Prod.snd

/-- The links in the directory itself. -/
def topLinks (snapshot : Snapshot) : List String :=
  (snapshot.files.filter fun file => '/' ∉ file.1.toList).filterMap Prod.snd

end Snapshot

/-- A repository directory; each of its directories may be missing. -/
structure Repo where
  snapshots : Option (List Snapshot)
  refs : Option (List (String × String))
  blobs : Option (List String)
  deriving DecidableEq

abbrev Disk := AList fun _ : List String => Repo

namespace Repo

/-- The snapshot is removed, and so are the refs that name it; those in subdirectories of `refs` stay. -/
def dropSnapshot (repo : Repo) (commit : String) : Repo :=
  { repo with
    snapshots := repo.snapshots.map fun snapshots => snapshots.filter (·.commit ≠ commit)
    refs := repo.refs.map fun refs => refs.filter fun ref => '/' ∈ ref.1.toList ∨ ref.2 ≠ commit }

/-- Subdirectories of the snapshots are not read. -/
def reclaimUnreferencedBlobs (repo : Repo) : Repo :=
  match repo.snapshots with
  | some snapshots =>
    { repo with blobs := repo.blobs.map fun blobs => blobs.filter fun blob => snapshots.any fun s => blob ∈ s.topLinks }
  | none => repo

end Repo

def readRef (repo : Option Repo) (revision : String) : Except String (Option String) :=
  if validateRevision revision then
    match (repo.bind Repo.refs).bind fun refs => refs.lookup revision with
    | none => .ok none
    | some commit =>
      if commit = "" then .ok none
      else if validateRevision commit then .ok (some commit)
      else .error s!"Invalid revision '{commit}'"
  else .error s!"Invalid revision '{revision}'"

def localCommitForRevision (repo : Option Repo) (revision : String) : Except String String :=
  (readRef repo revision).map (·.getD revision)

/-- The snapshot of a commit is deleted; a repository without snapshots goes as a whole. -/
def deleteSnapshot (disk : Disk) (root : List String) (commit : String) : Disk :=
  match disk.lookup root with
  | none => disk
  | some repo =>
    if (repo.dropSnapshot commit).snapshots = some [] then disk.erase root
    else disk.insert root (repo.dropSnapshot commit).reclaimUnreferencedBlobs

/-- `delete_model_revision`; without a revision, `clear_model`. -/
def deleteModelRevision (disk : Disk) (root : List String) : Option String → Except String Disk
  | none => .ok (disk.erase root)
  | some revision => (localCommitForRevision (disk.lookup root) revision).map (deleteSnapshot disk root)

structure CacheState where
  records : List ModelRecord
  disk : Disk
  manifests : List (List String)

section
variable (digest : String → String)

def manifestPath (tenant : Option Tenant) (entryKey : String) : List String :=
  partition tenant ++ [".modelexpress", "downloads", digest entryKey ++ ".json"]

def evictModel (s : CacheState) (entryKey : String) : Except String CacheState :=
  match s.records.find? (·.modelName = entryKey) with
  | none => .error s!"model '{entryKey}' not found in registry"
  | some _ => do
    let key := EntryKey.parse entryKey
    let siblings := s.records.insertionSort fun a b => a.lastUsedAt ≤ b.lastUsedAt
    let disk ←
      match deleteRevision entryKey siblings with
      | some revision =>
        (deleteModelRevision s.disk (repoRoot key.tenant key.modelName) revision).mapError fun e =>
          s!"failed to delete model files for '{entryKey}': {e}"
      | none => .ok s.disk
    .ok {
      records := s.records.filter (·.modelName ≠ entryKey)
      disk
      manifests := s.manifests.filter (· ≠ manifestPath digest key.tenant entryKey) }

/-- One call after the other; one that fails changes nothing. -/
def evictStep (s : CacheState) (entryKey : String) : CacheState := (evictModel digest s entryKey).toOption.getD s

end

/-! ## What a deletion leaves -/

namespace Disk

/-- No ref is named like a commit. -/
def PlainRefs (disk : Disk) : Prop :=
  ∀ root, ∀ repo ∈ disk.lookup root, ∀ refs ∈ repo.refs, ∀ ref ∈ refs, ¬ CommitId ref.1

/-- A snapshot that lies in the repository still does, and so do the blobs that its directory links to. -/
def Keeps (disk disk' : Disk) (root : List String) (snapshot : Snapshot) : Prop :=
  ∀ repo ∈ disk.lookup root, snapshot ∈ repo.snapshots.getD [] →
    ∃ repo' ∈ disk'.lookup root, snapshot ∈ repo'.snapshots.getD [] ∧
      ∀ blob ∈ snapshot.topLinks, blob ∈ repo.blobs.getD [] → blob ∈ repo'.blobs.getD []

variable {disk disk' : Disk} {root root' : List String} {commit : String} {snapshot : Snapshot}

theorem Keeps.of_eq (h : disk'.lookup root = disk.lookup root) : Keeps disk disk' root snapshot :=
  fun repo hrepo hmem => ⟨repo, h ▸ hrepo, hmem, fun _ _ hblob => hblob⟩

end Disk

section
variable {disk disk' : Disk} {root root' : List String} {commit revision : String} {snapshot : Snapshot}

theorem localCommitForRevision_commit (hrefs : disk.PlainRefs) (h : CommitId revision) :
    localCommitForRevision (disk.lookup root) revision = .ok revision := by
  have hlookup : (((disk.lookup root).bind Repo.refs).bind fun refs => refs.lookup revision) = none := by
    cases hrepo : disk.lookup root with
    | none => rfl
    | some repo =>
      cases hr : repo.refs with
      | none => simp [hr]
      | some refs =>
        simp only [Option.bind_some, hr]
        refine lookup_eq_none_iff.2 fun ref href => ?_
        have hne : revision ≠ ref.1 := by
          rintro rfl
          exact hrefs root repo hrepo refs hr ref href h
        simpa using hne
  rw [localCommitForRevision, readRef, if_pos h.validateRevision, hlookup]
  rfl

theorem deleteSnapshot_lookup_of_ne (hne : root' ≠ root) :
    (deleteSnapshot disk root commit).lookup root' = disk.lookup root' := by
  unfold deleteSnapshot
  split
  · rfl
  · split_ifs
    · exact lookup_erase_ne hne
    · exact lookup_insert_ne hne

theorem deleteSnapshot_lookup_self : (deleteSnapshot disk root commit).lookup root = (disk.lookup root).bind fun repo =>
    if (repo.dropSnapshot commit).snapshots = some [] then none
    else some (repo.dropSnapshot commit).reclaimUnreferencedBlobs := by
  unfold deleteSnapshot
  cases hrepo : disk.lookup root with
  | none => exact hrepo
  | some =>
    simp only [Option.bind_some]
    split_ifs
    · exact lookup_erase ..
    · exact lookup_insert _

theorem deleteSnapshot_plainRefs (h : disk.PlainRefs) : (deleteSnapshot disk root commit).PlainRefs := by
  intro root' repo' hrepo' refs' hrefs' ref href
  by_cases hne : root' = root
  · subst hne
    obtain ⟨repo, hrepo, hleft⟩ := Option.bind_eq_some_iff.1 (deleteSnapshot_lookup_self.symm.trans hrepo')
    split_ifs at hleft
    cases hleft
    have hsame : (repo.dropSnapshot commit).reclaimUnreferencedBlobs.refs = (repo.dropSnapshot commit).refs := by
      unfold Repo.reclaimUnreferencedBlobs
      split <;> rfl
    rw [hsame] at hrefs'
    obtain ⟨refs, hrefs, rfl⟩ := Option.map_eq_some_iff.1 hrefs'
    exact h root' repo hrepo refs hrefs ref (mem_of_mem_filter href)
  · rw [deleteSnapshot_lookup_of_ne hne] at hrepo'
    exact h root' repo' hrepo' refs' hrefs' ref href

theorem mem_filter_getD {α : Type} {l : Option (List α)} {q : α → Bool} {a : α} :
    a ∈ (l.map fun l => l.filter q).getD [] ↔ a ∈ l.getD [] ∧ q a = true := by
  cases l <;> simp

theorem deleteSnapshot_lookup {repo : Repo} (hrepo : disk.lookup root = some repo) {s : Snapshot}
    (hs : s ∈ repo.snapshots.getD []) (commit : String) :
    let others := (repo.snapshots.getD []).filter (·.commit ≠ commit)
    (deleteSnapshot disk root commit).lookup root = if others = [] then none else some ⟨some others,
      repo.refs.map fun refs => refs.filter fun ref => '/' ∈ ref.1.toList ∨ ref.2 ≠ commit,
      repo.blobs.map fun blobs => blobs.filter fun blob => others.any fun s => blob ∈ s.topLinks⟩ := by
  intro others
  have hothers : (repo.dropSnapshot commit).snapshots = some others := by
    cases hsnapshots : repo.snapshots with
    | none => simp [hsnapshots] at hs
    | some => simp [Repo.dropSnapshot, others, hsnapshots]
  rw [deleteSnapshot_lookup_self, hrepo]
  simp only [Option.bind_some, hothers, Option.some.injEq, Repo.reclaimUnreferencedBlobs]
  rfl

theorem deleteSnapshot_keeps (h : snapshot.commit ≠ commit) :
    Disk.Keeps disk (deleteSnapshot disk root commit) root snapshot := by
  intro repo hrepo hmem
  have hkept : snapshot ∈ (repo.snapshots.getD []).filter (·.commit ≠ commit) := mem_filter.2 ⟨hmem, by simpa using h⟩
  rw [deleteSnapshot_lookup hrepo hmem, if_neg (ne_nil_of_mem hkept)]
  refine ⟨_, rfl, hkept, fun blob hlink hblob => mem_filter_getD.2 ⟨hblob, any_eq_true.2 ⟨snapshot, hkept, ?_⟩⟩⟩
  exact decide_eq_true hlink

end

/-! ## One revision among others -/

/-- The commit is gone and everything else is as it was, except for the blobs that nothing links to. -/
structure Repo.Without (repo : Repo) (commit : String) (repo' : Option Repo) : Prop where
  files : ∀ s ∈ repo.snapshots.getD [], s.commit ≠ commit → ∃ after ∈ repo', s ∈ after.snapshots.getD [] ∧
    ∀ blob ∈ s.links, blob ∈ repo.blobs.getD [] → blob ∈ after.blobs.getD []
  gone : ∀ after ∈ repo', ∀ s ∈ after.snapshots.getD [], s.commit ≠ commit
  refs : ∀ ref, ref ∈ (repo'.bind Repo.refs).getD [] ↔ ref ∈ repo.refs.getD [] ∧ ref.2 ≠ commit
  blobs : ∀ after ∈ repo', ∀ blob ∈ after.blobs.getD [], ∃ s ∈ after.snapshots.getD [], blob ∈ s.links

theorem Snapshot.links_of_topLinks {s : Snapshot} {blob : String} (h : blob ∈ s.topLinks) : blob ∈ s.links :=
  (filter_sublist.filterMap _).subset h

/-- **Deleting a revision leaves the others whole exactly if** their blobs are all linked to from the directories of
    snapshots themselves, no ref to the commit lies in a subdirectory and, if the commit is the last, nothing else
    has a ref. -/
theorem deletion_leaves_others_iff {disk : Disk} {root : List String} {repo : Repo} {revision commit : String}
    (hrepo : disk.lookup root = some repo) (hcommit : localCommitForRevision (some repo) revision = .ok commit)
    (hcached : ∃ s ∈ repo.snapshots.getD [], s.commit = commit) :
    let others := (repo.snapshots.getD []).filter (·.commit ≠ commit)
    ∃ disk', deleteModelRevision disk root (some revision) = .ok disk' ∧
      (repo.Without commit (disk'.lookup root) ↔
        (∀ s ∈ others, ∀ blob ∈ s.links, blob ∈ repo.blobs.getD [] → ∃ s ∈ others, blob ∈ s.topLinks) ∧
        ∀ ref ∈ repo.refs.getD [], if others = [] then ref.2 = commit else '/' ∈ ref.1.toList → ref.2 ≠ commit) := by
  obtain ⟨s, hs, -⟩ := hcached
  have hlookup := deleteSnapshot_lookup hrepo hs commit
  dsimp only at hlookup ⊢
  have hmem : ∀ s, s ∈ (repo.snapshots.getD []).filter (·.commit ≠ commit) ↔
      s ∈ repo.snapshots.getD [] ∧ s.commit ≠ commit := by simp
  generalize (repo.snapshots.getD []).filter (·.commit ≠ commit) = others at hlookup hmem ⊢
  refine ⟨deleteSnapshot disk root commit, ?_, ?_⟩
  · rw [deleteModelRevision, hrepo, hcommit]
    rfl
  rw [hlookup]
  by_cases hnil : others = []
  · simp only [if_pos hnil]
    constructor
    · intro h
      refine ⟨by simp [hnil], fun ref href => ?_⟩
      have hout := h.refs ref
      simpa [href] using hout
    · rintro ⟨-, hrefs⟩
      refine ⟨fun s hs hne => ?_, by simp, fun ref => ?_, by simp⟩
      · exact absurd ((hmem s).2 ⟨hs, hne⟩) (by simp [hnil])
      · simpa using hrefs ref
  · simp only [if_neg hnil]
    constructor
    · intro h
      refine ⟨fun s hs blob hlink hblob => ?_, fun ref href hnested => ?_⟩
      · obtain ⟨_, ⟨⟩, -, hkept⟩ := h.files s ((hmem s).1 hs).1 ((hmem s).1 hs).2
        simpa using (mem_filter_getD.1 (hkept blob hlink hblob)).2
      · exact ((h.refs ref).1 (mem_filter_getD.2 ⟨href, by simp [hnested]⟩)).2
    · rintro ⟨hlinks, hrefs⟩
      refine ⟨fun s hs hne => ?_, ?_, fun ref => ?_, ?_⟩
      · have hs := (hmem s).2 ⟨hs, hne⟩
        exact ⟨_, rfl, hs, fun blob hlink hblob => mem_filter_getD.2 ⟨hblob, by simpa using hlinks s hs blob hlink hblob⟩⟩
      · rintro _ ⟨⟩ s hs
        exact ((hmem s).1 hs).2
      · refine mem_filter_getD.trans (and_congr_right fun href => ?_)
        simpa using hrefs ref href
      · rintro _ ⟨⟩ blob hblob
        obtain ⟨s, hs, hlink⟩ := any_eq_true.1 (mem_filter_getD.1 hblob).2
        exact ⟨s, hs, s.links_of_topLinks (of_decide_eq_true hlink)⟩

def repoWith (file : String) : Repo :=
  ⟨some [⟨"a", []⟩, ⟨"b", [(file, some "blob")]⟩], some [("main", "a"), ("v2", "b")], some ["blob", "old"]⟩

def withoutMain (repo : Repo) : Option Repo :=
  (deleteModelRevision (AList.insert [] repo ∅) [] (some "main")).toOption.bind (AList.lookup [])

theorem deletion_leaves_others_top : (repoWith "f").Without "a" (withoutMain (repoWith "f")) := by
  obtain ⟨_, hdelete, hiff⟩ := @deletion_leaves_others_iff (AList.insert [] (repoWith "f") ∅) [] (repoWith "f") "main" "a"
    (lookup_insert _) (by decide +kernel) (by decide)
  rw [withoutMain, hdelete]
  exact hiff.2 (by decide)

/-- A file in a subdirectory of a snapshot loses its blob. -/
theorem nested_blob_lost : ¬ (repoWith "d/f").Without "a" (withoutMain (repoWith "d/f")) := by
  intro h
  have hleft : withoutMain (repoWith "d/f") = some ⟨some [⟨"b", [("d/f", some "blob")]⟩], some [("v2", "b")], some []⟩ := by
    decide +kernel
  obtain ⟨_, hafter, -, hkept⟩ := h.files ⟨"b", [("d/f", some "blob")]⟩ (by decide) (by decide)
  cases hleft.symm.trans hafter
  exact absurd (hkept "blob" (by decide) (by decide)) (by decide)

/-! ## Eviction -/

def EntryKey.RefersTo (k : EntryKey) (snapshot : Snapshot) : Prop := ∀ revision ∈ k.revision, revision = snapshot.commit

/-- An entry of the Hub: its revision is a commit. -/
structure EntryKey.OnHub (k : EntryKey) : Prop where
  modelName : HubId k.modelName
  revision : ∀ revision ∈ k.revision, CommitId revision

theorem EntryKey.OnHub.parse_fmt {k : EntryKey} (h : k.OnHub) : EntryKey.parse k.fmt = k :=
  EntryKey.parse_fmt fun revision hr => (h.revision revision hr).revision

namespace CacheState

/-- The entries are those of the Hub, and no ref is named like a commit. -/
structure Sound (s : CacheState) : Prop where
  entries : ∀ r ∈ s.records, ∃ k : EntryKey, r.modelName = k.fmt ∧ k.OnHub
  refs : s.disk.PlainRefs

def Has (s : CacheState) (k : EntryKey) : Prop := ∃ r ∈ s.records, r.modelName = k.fmt

variable {s : CacheState} {k other : EntryKey}

variable {digest : String → String} {entryKey : String}

abbrev siblings (s : CacheState) : List ModelRecord := s.records.insertionSort fun a b => a.lastUsedAt ≤ b.lastUsedAt

structure Sibling (s : CacheState) (k other : EntryKey) : Prop where
  onHub : other.OnHub
  has : s.Has other
  ne : other.fmt ≠ k.fmt
  belongs : other.BelongsTo k.tenant k.modelName

theorem mem_survivors_iff (h : s.Sound) (hk : k.OnHub) :
    other ∈ survivors k.fmt s.siblings ↔ s.Sibling k other := by
  simp only [survivors, mem_filter, mem_map, decide_eq_true_eq, hk.parse_fmt]
  constructor
  · rintro ⟨⟨r, ⟨hr, hne⟩, rfl⟩, hbelongs⟩
    have hmem := (mem_insertionSort _).1 hr
    obtain ⟨k', hname, hk'⟩ := h.entries r hmem
    rw [hname, hk'.parse_fmt] at hbelongs ⊢
    exact ⟨hk', ⟨r, hmem, hname⟩, hname ▸ hne, hbelongs.symm⟩
  · rintro ⟨hother, ⟨r, hr, hname⟩, hne, hbelongs⟩
    exact ⟨⟨r, ⟨(mem_insertionSort _).2 hr, hname ▸ hne⟩, by rw [hname, hother.parse_fmt]⟩, hbelongs.symm⟩

/-- What becomes of the disk when the entry `k` is evicted. -/
inductive Deletes (s : CacheState) (k : EntryKey) : Disk → Prop
  /-- It was the last entry of its model. -/
  | repository : (∀ other, ¬ s.Sibling k other) → Deletes s k (s.disk.erase (repoRoot k.tenant k.modelName))
  /-- Another entry of the model may refer to the same files. -/
  | nothing {other : EntryKey} : s.Sibling k other → Deletes s k s.disk
  /-- The other entries of the model refer to other commits. -/
  | snapshot {revision : String} {other : EntryKey} : k.revision = some revision → s.Sibling k other →
      (∀ other, s.Sibling k other → ∃ revision', other.revision = some revision' ∧ revision' ≠ revision) →
      Deletes s k (deleteSnapshot s.disk (repoRoot k.tenant k.modelName) revision)

theorem Deletes.of_deleteRevision (h : s.Sound) (hk : k.OnHub) {describe : String → String} :
    ∃ disk, s.Deletes k disk ∧
      (match deleteRevision k.fmt s.siblings with
      | some revision => (deleteModelRevision s.disk (repoRoot k.tenant k.modelName) revision).mapError describe
      | none => .ok s.disk) = .ok disk := by
  have hsibling : ∀ {other}, other ∈ survivors k.fmt s.siblings ↔ s.Sibling k other := mem_survivors_iff h hk
  unfold deleteRevision
  generalize survivors k.fmt s.siblings = left at hsibling ⊢
  by_cases hnone : left = []
  · rw [if_pos hnone]
    exact ⟨_, .repository fun other hother => by simpa [hnone] using hsibling.2 hother, rfl⟩
  · obtain ⟨first, hfirst⟩ := exists_mem_of_ne_nil _ hnone
    rw [if_neg hnone, hk.parse_fmt]
    by_cases hreferenced : snapshotStillReferenced k left = true
    · rw [if_pos hreferenced]
      exact ⟨_, .nothing (hsibling.1 hfirst), rfl⟩
    · rw [if_neg hreferenced]
      have hfree : ∀ other ∈ left, other.revision ≠ k.revision ∧ other.revision ≠ none ∧ k.revision ≠ none := by
        intro other hother
        have hany := any_eq_false.1 (Bool.eq_false_iff.2 hreferenced) other hother
        simpa [and_assoc] using hany
      obtain ⟨revision, hrevision⟩ := Option.ne_none_iff_exists'.1 (hfree first hfirst).2.2
      dsimp only
      rw [hrevision, deleteModelRevision, localCommitForRevision_commit h.refs (hk.revision revision hrevision)]
      refine ⟨_, .snapshot hrevision (hsibling.1 hfirst) fun other hother => ?_, rfl⟩
      obtain ⟨hne, hsome, -⟩ := hfree other (hsibling.2 hother)
      obtain ⟨revision', hrevision'⟩ := Option.ne_none_iff_exists'.1 hsome
      exact ⟨revision', hrevision', fun heq => hne (by rw [hrevision', hrevision, heq])⟩

variable (digest entryKey) in
theorem evictStep_cases (h : s.Sound) :
    evictStep digest s entryKey = s ∨
      ∃ k disk, k.OnHub ∧ entryKey = k.fmt ∧ s.Has k ∧ s.Deletes k disk ∧
        evictStep digest s entryKey =
          ⟨s.records.filter (·.modelName ≠ entryKey), disk,
            s.manifests.filter (· ≠ manifestPath digest k.tenant entryKey)⟩ := by
  cases hfind : s.records.find? (·.modelName = entryKey) with
  | none =>
    left
    simp only [evictStep, evictModel, hfind]
    rfl
  | some r =>
    right
    have hr := mem_of_find?_eq_some hfind
    have hfound := find?_some hfind
    obtain rfl : r.modelName = entryKey := by simpa using hfound
    obtain ⟨k, hname, hk⟩ := h.entries r hr
    obtain ⟨disk, hdeletes, hdisk⟩ := Deletes.of_deleteRevision h hk
    refine ⟨k, disk, hk, hname, ⟨r, hr, hname⟩, hdeletes, ?_⟩
    simp only [evictStep, evictModel, hfind]
    rw [hname, hk.parse_fmt]
    revert hdisk
    cases deleteRevision k.fmt s.siblings with
    | none =>
      rintro ⟨⟩
      rfl
    | some =>
      intro hdisk
      dsimp only at hdisk ⊢
      rw [hdisk]
      rfl

/-- What an eviction must not do: delete a snapshot that an entry which stays refers to, or anything of another model
    or another tenant. -/
structure Spares (digest : String → String) (s : CacheState) (entryKey : String) : Prop where
  referenced : ∀ k : EntryKey, k.OnHub → (evictStep digest s entryKey).Has k → ∀ snapshot, k.RefersTo snapshot →
    Disk.Keeps s.disk (evictStep digest s entryKey).disk (repoRoot k.tenant k.modelName) snapshot
  others : ∀ tenant modelName, HubId modelName → ¬ (EntryKey.parse entryKey).BelongsTo tenant modelName →
    (evictStep digest s entryKey).disk.lookup (repoRoot tenant modelName) = s.disk.lookup (repoRoot tenant modelName)
  manifests : ∀ k : EntryKey, k.OnHub → ¬ (EntryKey.parse entryKey).BelongsTo k.tenant k.modelName →
    manifestPath digest k.tenant k.fmt ∈ s.manifests →
      manifestPath digest k.tenant k.fmt ∈ (evictStep digest s entryKey).manifests

variable {disk : Disk} {root : List String}

theorem Deletes.lookup_of_ne (h : s.Deletes k disk) (hne : root ≠ repoRoot k.tenant k.modelName) :
    disk.lookup root = s.disk.lookup root := by
  cases h with
  | repository => exact lookup_erase_ne hne
  | nothing => rfl
  | snapshot => exact deleteSnapshot_lookup_of_ne hne

theorem Deletes.plainRefs (h : s.Deletes k disk) (hs : s.disk.PlainRefs) : disk.PlainRefs := by
  cases h with
  | repository =>
    intro root repo hrepo
    by_cases hroot : root = repoRoot k.tenant k.modelName
    · rw [hroot, lookup_erase] at hrepo
      cases hrepo
    · rw [lookup_erase_ne hroot] at hrepo
      exact hs root repo hrepo
  | nothing => exact hs
  | snapshot => exact deleteSnapshot_plainRefs hs

theorem Deletes.keeps (h : s.Deletes k disk) (hother : s.Sibling k other) {snapshot : Snapshot}
    (hrefers : other.RefersTo snapshot) : Disk.Keeps s.disk disk (repoRoot k.tenant k.modelName) snapshot := by
  cases h with
  | repository halone => exact absurd hother (halone other)
  | nothing => exact .of_eq rfl
  | snapshot _ _ hothers =>
    obtain ⟨revision', hrevision', hne⟩ := hothers other hother
    exact deleteSnapshot_keeps (hrefers revision' hrevision' ▸ hne)

theorem Sound.step (h : s.Sound) : (evictStep digest s entryKey).Sound := by
  rcases evictStep_cases digest entryKey h with hstep | ⟨k, disk, hk, rfl, hhas, hdeletes, hstep⟩
  · rw [hstep]
    exact h
  · rw [hstep]
    exact ⟨fun r hr => h.entries r (mem_of_mem_filter hr), hdeletes.plainRefs h.refs⟩

theorem manifestPath_inj (hdigest : Function.Injective digest) {key key' : String}
    (h : manifestPath digest tenant key = manifestPath digest tenant' key') : tenant = tenant' ∧ key = key' := by
  have hlen : [".modelexpress", "downloads", digest key ++ ".json"].length =
      [".modelexpress", "downloads", digest key' ++ ".json"].length := rfl
  obtain ⟨htenant, hrest⟩ := partition_inj hlen h
  simp only [cons.injEq, and_true, true_and] at hrest
  have hlist := congrArg String.toList hrest
  simp only [String.toList_append] at hlist
  exact ⟨htenant, hdigest (String.toList_inj.1 (append_cancel_right hlist))⟩

theorem Sound.spares (hdigest : Function.Injective digest) (h : s.Sound) (entryKey : String) : Spares digest s entryKey := by
  rcases evictStep_cases digest entryKey h with hstep | ⟨k, disk, hk, rfl, hhas, hdeletes, hstep⟩
  · refine ⟨fun _ _ _ _ _ => ?_, fun _ _ _ _ => ?_, fun _ _ _ hmem => ?_⟩
    all_goals rw [hstep]
    · exact .of_eq rfl
    · exact hmem
  · refine ⟨fun k' hk' hhas' _ hrefers => ?_, fun _ _ hname hnot => ?_, fun k' hk' hnot hmem => ?_⟩
    all_goals rw [hstep]
    · rw [hstep] at hhas'
      obtain ⟨r, hr, hname⟩ := hhas'
      obtain ⟨hmem, hne⟩ := mem_filter.1 hr
      by_cases hroot : repoRoot k'.tenant k'.modelName = repoRoot k.tenant k.modelName
      · obtain ⟨htenant, hmodel⟩ := repoRoot_inj hk'.modelName hk.modelName hroot
        have hsibling : s.Sibling k k' :=
          ⟨hk', ⟨r, hmem, hname⟩, fun heq => of_decide_eq_true hne (hname.trans heq), htenant, hmodel⟩
        rw [hroot]
        exact hdeletes.keeps hsibling hrefers
      · exact .of_eq (hdeletes.lookup_of_ne hroot)
    · rw [hk.parse_fmt] at hnot
      refine hdeletes.lookup_of_ne fun hroot => hnot ?_
      obtain ⟨htenant, hmodel⟩ := repoRoot_inj hname hk.modelName hroot
      exact ⟨htenant.symm, hmodel.symm⟩
    · rw [hk.parse_fmt] at hnot
      refine mem_filter.2 ⟨hmem, decide_eq_true fun hpath => hnot ?_⟩
      obtain ⟨htenant, hkey⟩ := manifestPath_inj hdigest hpath
      have hsame : k' = k := by rw [← hk'.parse_fmt, hkey, hk.parse_fmt]
      exact ⟨htenant.symm, hsame ▸ rfl⟩

theorem Sibling.has_filter (h : s.Sibling k other) (disk : Disk) (manifests : List (List String)) :
    Has ⟨s.records.filter (·.modelName ≠ k.fmt), disk, manifests⟩ other := by
  obtain ⟨r, hr, hname⟩ := h.has
  exact ⟨r, mem_filter.2 ⟨hr, decide_eq_true (hname ▸ h.ne)⟩, hname⟩

theorem Deletes.lookup_none (h : s.Deletes k disk) (hnone : s.disk.lookup root = none) :
    disk.lookup root = none := by
  by_cases hroot : root = repoRoot k.tenant k.modelName
  · subst hroot
    cases h with
    | repository => exact lookup_erase ..
    | nothing => exact hnone
    | snapshot => rw [deleteSnapshot_lookup_self, hnone, Option.bind_none]
  · rw [h.lookup_of_ne hroot, hnone]

def Listed (s : CacheState) (tenant : Option Tenant) (modelName : String) : Prop :=
  ∃ k : EntryKey, k.OnHub ∧ s.Has k ∧ k.BelongsTo tenant modelName

theorem gone_step (h : s.Sound) {modelName : String}
    (hgone : s.Listed tenant modelName ∨ s.disk.lookup (repoRoot tenant modelName) = none) :
    (evictStep digest s entryKey).Listed tenant modelName ∨
      (evictStep digest s entryKey).disk.lookup (repoRoot tenant modelName) = none := by
  rcases evictStep_cases digest entryKey h with hstep | ⟨k, disk, hk, rfl, hhas, hdeletes, hstep⟩
  · rw [hstep]
    exact hgone
  · rw [hstep]
    rcases hgone with ⟨k', hk', hhas', hbelongs'⟩ | hnone
    · by_cases hsame : k'.fmt = k.fmt
      · obtain rfl : k' = k := by rw [← hk'.parse_fmt, hsame, hk.parse_fmt]
        obtain ⟨rfl, rfl⟩ := hbelongs'
        cases hdeletes with
        | repository => exact .inr (lookup_erase ..)
        | nothing hsibling | snapshot _ hsibling _ =>
          exact .inl ⟨_, hsibling.onHub, hsibling.has_filter _ _, hsibling.belongs⟩
      · obtain ⟨r, hr, hname⟩ := hhas'
        exact .inl ⟨k', hk', ⟨r, mem_filter.2 ⟨hr, decide_eq_true (hname ▸ hsame)⟩, hname⟩, hbelongs'⟩
    · exact .inr (hdeletes.lookup_none hnone)

/-- **Eviction keeps what is referenced**: the snapshots of the entries that stay, and everything of other
    models and tenants; with its last entry the directory of a model goes. -/
theorem eviction_keeps_referenced (hdigest : Function.Injective digest) (h : s.Sound) (keys : List String) :
    Along (evictStep digest) s (Spares digest) keys ∧
    ∀ tenant modelName, s.Listed tenant modelName → ¬ (run (evictStep digest) s keys).Listed tenant modelName →
      (run (evictStep digest) s keys).disk.lookup (repoRoot tenant modelName) = none := by
  have hsound : ∀ keys, (run (evictStep digest) s keys).Sound := invariant h fun _ _ hs => hs.step
  refine ⟨fun pre entryKey _ => (hsound pre).spares hdigest entryKey, fun tenant modelName hlisted hnot => ?_⟩
  have hgone : (run (evictStep digest) s keys).Listed tenant modelName ∨
      (run (evictStep digest) s keys).disk.lookup (repoRoot tenant modelName) = none :=
    history (P := fun _ (s : CacheState) => s.Listed tenant modelName ∨ s.disk.lookup (repoRoot tenant modelName) = none)
      (.inl hlisted) (fun es _ hes => gone_step (hsound es) hes) keys
  exact hgone.resolve_left hnot

def record (k : EntryKey) : ModelRecord := ⟨k.fmt, .huggingFace, .downloaded, 0, 0, none⟩

def commit (c : Char) : String := String.ofList (List.replicate 40 c)

def twoEntries : List EntryKey :=
  [⟨none, "org/model", some (commit 'a'), false⟩, ⟨none, "org/model", some (commit 'b'), true⟩]

def twoRevisions : CacheState where
  records := twoEntries.map record
  disk := AList.insert (repoRoot none "org/model") ⟨some [⟨commit 'a', [("f", some "blob")]⟩,
    ⟨commit 'b', [("f", some "blob")]⟩], none, some ["blob"]⟩ ∅
  manifests := []

theorem plainRefs_insert_none {snapshots : Option (List Snapshot)} {blobs : Option (List String)} :
    Disk.PlainRefs (AList.insert root ⟨snapshots, none, blobs⟩ ∅) := by
  intro root' repo hrepo refs hrefs
  by_cases hroot : root' = root
  · rw [hroot, lookup_insert] at hrepo
    cases hrepo
    cases hrefs
  · rw [lookup_insert_ne hroot] at hrepo
    cases hrepo

theorem twoRevisions_evicted :
    (twoRevisions.disk.lookup (repoRoot none "org/model")).isSome ∧
      (run (evictStep id) twoRevisions (twoEntries.map EntryKey.fmt)).disk.lookup (repoRoot none "org/model") = none := by
  have hhub : ∀ k ∈ twoEntries, k.OnHub := by
    intro k hk
    have hboth : HubId k.modelName ∧ ∀ revision ∈ k.revision, CommitId revision := by
      revert k
      decide +kernel
    exact ⟨hboth.1, hboth.2⟩
  have hsound : twoRevisions.Sound := by
    refine ⟨fun r hr => ?_, plainRefs_insert_none⟩
    obtain ⟨k, hk, rfl⟩ := mem_map.1 hr
    exact ⟨k, rfl, hhub k hk⟩
  have hlisted : twoRevisions.Listed none "org/model" :=
    ⟨_, hhub _ (mem_cons_self ..), ⟨_, mem_cons_self .., rfl⟩, rfl, rfl⟩
  have hempty : (run (evictStep id) twoRevisions (twoEntries.map EntryKey.fmt)).records = [] := by decide +kernel
  refine ⟨by decide +kernel, (eviction_keeps_referenced Function.injective_id hsound _).2 none _ hlisted ?_⟩
  rintro ⟨k, -, ⟨r, hr, -⟩, -⟩
  rw [hempty] at hr
  cases hr

def dashEntries : List EntryKey := [⟨none, "a-/b", none, false⟩, ⟨none, "a/-b", some (commit 'a'), false⟩]

def sharedFolder : CacheState where
  records := dashEntries.map record
  disk := AList.insert (repoRoot none "a/-b") ⟨some [⟨commit 'a', []⟩], none, none⟩ ∅
  manifests := []

/-- The eviction of one deletes the snapshot of the other. -/
theorem sharedFolder_deleted :
    (∀ k ∈ dashEntries, ¬ ['-', '-'] <:+: k.modelName.toList ∧ ∀ revision ∈ k.revision, CommitId revision) ∧
    (evictStep id sharedFolder "a-/b").records = [record ⟨none, "a/-b", some (commit 'a'), false⟩] ∧
    sharedFolder.disk.lookup (repoRoot none "a/-b") = some ⟨some [⟨commit 'a', []⟩], none, none⟩ ∧
    (evictStep id sharedFolder "a-/b").disk.lookup (repoRoot none "a/-b") = none := by
  decide +kernel

end CacheState

end ModelExpress.Registry
