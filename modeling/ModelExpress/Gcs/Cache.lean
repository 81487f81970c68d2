/-
  ModelExpress server — models cached from GCS (`providers/gcs.rs`, `providers/gcs/`).

  Paths are lists of names under the directory of the provider, and only files are kept; of
  their contents only those of manifests.  Lock and part files are left out.
-/
import Mathlib.Data.List.AList
import ModelExpress.Lib.Checks
import ModelExpress.Lib.Run

namespace ModelExpress.Gcs

open Checks List AList Option

abbrev Path := List String

structure ModelName where
  bucket : String
  objectPrefix : Path
  nonempty : objectPrefix ≠ []

def ModelName.dir (m : ModelName) : Path := m.bucket :: m.objectPrefix

inductive File where
  | manifest (model : Path) (files : List Path)
  | data
  deriving DecidableEq

abbrev Cache := AList fun _ : Path => File

def manifestFile : Path := [".mx", "manifest.json"]

def Holds (s : Cache) (d : Path) : Prop := d ++ manifestFile ∈ s

instance (s : Cache) (d : Path) : Decidable (Holds s d) := inferInstanceAs (Decidable (_ ∈ s))

def onDisk (path : Path) : Path := path.filter (· ≠ ".")

/-- `is_safe_relative` and not `is_internal_artifact`. -/
def Allowed (path : Path) : Prop := "" ∉ path ∧ ".." ∉ path ∧ path.head? ≠ some "." ∧ path.head? ≠ some ".mx"

instance (path : Path) : Decidable (Allowed path) := inferInstanceAs (Decidable (_ ∧ _))

def loadManifest (s : Cache) (d : Path) : Option (List Path) :=
  match s.lookup (d ++ manifestFile) with
  | some (.manifest model files) =>
    if model = d ∧ files ≠ [] ∧ files.Nodup ∧ ∀ path ∈ files, Allowed path then some files else none
  | _ => none

/-- The directories above a model, the nearest first, and then those below it that hold a
    manifest. -/
def findOverlap (s : Cache) (d : Path) : Option Path :=
  ((d.inits.filter fun above => above ≠ [] ∧ above ≠ d).reverse ++
    (s.keys.map fun path => path.dropLast.dropLast).filter fun below => d <+: below ∧ below ≠ d).find? (Holds s ·)

inductive Refused where
  | overlaps (other : Path)
  | clients
  | listing
  | writing
  | noFiles
  | task
  | incomplete
  deriving DecidableEq

/-- A remote object: its name behind that of the model, split at the slashes, and whether it has
    a size and a CRC32C. -/
structure Object where
  relative : Path
  checked : Bool

/-- What happens outside during a download: which files of the manifest arrive, among others. -/
structure Attempt where
  clients : Bool
  listing : Option (List Object)
  writes : Bool
  arrives : Path → Bool

section
variable (downloadable weight : Path → Bool)

def cacheSatisfiesRequest (s : Cache) (d : Path) (ignoreWeights : Bool) : Bool :=
  match loadManifest s d with
  | none => false
  | some files =>
    let asked := files.filter fun path => !(ignoreWeights && weight path)
    decide (asked ≠ []) && asked.all fun path => d ++ onDisk path ∈ s

/-- `manifest_entry_if_downloadable`. -/
def manifestEntry (o : Object) : Except Refused (Option Path) := do
  if o.relative.getLast? = some "" then return none
  ensure (Allowed o.relative) .listing
  if downloadable o.relative = false then return none
  ensure (o.checked = true) .listing
  return some o.relative

def ensureManifest (a : Attempt) (s : Cache) (d : Path) : Except Refused (Cache × List Path) :=
  match loadManifest s d with
  | some files => .ok (s, files)
  | none => do
    let objects ← found a.listing .listing
    let files := (← objects.mapM (manifestEntry downloadable)).filterMap id
    ensure (a.writes = true) .writing
    return (s.insert (d ++ manifestFile) (.manifest d files), files)

/-- `download_tasks_in_parallel`, up to the first failure. -/
def downloadTasks (a : Attempt) (d : Path) (tasks : List Path) (s : Cache) : Cache :=
  tasks.foldl (fun s path =>
    if a.arrives path = true ∧ d ++ onDisk path ∉ s then s.insert (d ++ onDisk path) .data else s) s

def downloadModel (a : Attempt) (m : ModelName) (ignoreWeights : Bool) (s : Cache) : Cache × Except Refused Unit :=
  if cacheSatisfiesRequest weight s m.dir ignoreWeights = true then (s, .ok ())
  else match findOverlap s m.dir with
    | some other => (s, .error (.overlaps other))
    | none =>
      if a.clients = false then (s, .error .clients)
      else match ensureManifest downloadable a s m.dir with
        | .error e => (s, .error e)
        | .ok (s₁, files) =>
          let tasks := files.filter fun path => !(ignoreWeights && weight path)
          if cacheSatisfiesRequest weight s₁ m.dir ignoreWeights = true then (s₁, .ok ())
          else if tasks = [] then (s₁, .error .noFiles)
          else
            let s₂ := downloadTasks a m.dir tasks s₁
            (s₂, if tasks.all a.arrives = false then .error .task
              else if cacheSatisfiesRequest weight s₂ m.dir ignoreWeights = true then .ok ()
              else .error .incomplete)

/-- `is_removable`; an overlap with the bucket itself is an error in the source. -/
def Removable (s : Cache) (d : Path) : Prop := Holds s d ∨ (∃ path ∈ s.keys, d <+: path) ∧ findOverlap s d = none

instance (s : Cache) (d : Path) : Decidable (Removable s d) := inferInstanceAs (Decidable (_ ∨ _))

def deleteModel (m : ModelName) (s : Cache) : Cache :=
  if Removable s m.dir then
    ⟨s.entries.filter (¬ m.dir <+: ·.1), s.nodupKeys.sublist List.filter_sublist⟩
  else s

inductive Event where
  | download (m : ModelName) (ignoreWeights : Bool) (a : Attempt)
  | delete (m : ModelName)

def step (s : Cache) : Event → Cache
  | .download m ignoreWeights a => (downloadModel downloadable weight a m ignoreWeights s).1
  | .delete m => deleteModel m s

end

/-! ## Directories with manifests -/

/-- The file of a model is not at the place of a manifest. -/
def Plain (d path : Path) : Prop := ¬ manifestFile <:+ d ++ onDisk path

/-- Of the directories with manifests none is below another, and all that they list is plain. -/
structure Apart (s : Cache) : Prop where
  nonempty : ¬ Holds s []
  apart : ∀ d d', Holds s d → Holds s d' → d <+: d' → d = d'
  listed : ∀ d files, s.lookup (d ++ manifestFile) = some (.manifest d files) → ∀ path ∈ files, Plain d path

variable {downloadable weight : Path → Bool} {s s' : Cache} {d d' path : Path} {m : ModelName} {a : Attempt}
  {files : List Path} {ignoreWeights : Bool} {file : File}

theorem findOverlap_eq_none :
    findOverlap s d = none ↔ ∀ d', Holds s d' → d' ≠ [] → d' ≠ d → ¬ d' <+: d ∧ ¬ d <+: d' := by
  simp only [findOverlap, find?_eq_none, mem_append, mem_reverse, mem_filter, mem_inits, List.mem_map,
    decide_eq_true_eq]
  refine ⟨fun h d' hholds hnil hne => ⟨fun hle => ?_, fun hle => ?_⟩, fun h d' hd' hholds => ?_⟩
  · exact h d' (.inl ⟨hle, hnil, hne⟩) hholds
  · exact h d' (.inr ⟨⟨_, hholds, by simp [manifestFile]⟩, hle, hne⟩) hholds
  · rcases hd' with ⟨hle, hnil, hne⟩ | ⟨-, hle, hne⟩
    · exact (h d' hholds hnil hne).1 hle
    · refine (h d' hholds ?_ hne).2 hle
      rintro rfl
      exact hne (prefix_nil.1 hle).symm

theorem holds_iff : Holds s d ↔ (s.lookup (d ++ manifestFile)).isSome := lookup_isSome.symm

theorem Apart.congr (h : Apart s) (hs : ∀ d, s'.lookup (d ++ manifestFile) = s.lookup (d ++ manifestFile)) : Apart s' := by
  have hholds : ∀ d, Holds s' d ↔ Holds s d := fun d => by rw [holds_iff, holds_iff, hs]
  exact ⟨(hholds []).not.2 h.nonempty, fun d d' hd hd' => h.apart d d' ((hholds d).1 hd) ((hholds d').1 hd'),
    fun d files hlookup => h.listed d files (hs d ▸ hlookup)⟩

theorem holds_insert : Holds (s.insert (d ++ manifestFile) file) d' ↔ d' = d ∨ Holds s d' := by
  simp [Holds]

theorem Apart.insert (h : Apart s) (hfree : findOverlap s d = none) (hd : d ≠ []) (hplain : ∀ path ∈ files, Plain d path) :
    Apart (s.insert (d ++ manifestFile) (.manifest d files)) := by
  have hother : ∀ d', Holds s d' → d' ≠ d → ¬ d' <+: d ∧ ¬ d <+: d' := fun d' hd' =>
    findOverlap_eq_none.1 hfree d' hd' fun hnil => h.nonempty (hnil ▸ hd')
  refine ⟨fun hnil => ?_, fun d₁ d₂ h₁ h₂ hle => ?_, fun d₁ files₁ hlookup => ?_⟩
  · rcases holds_insert.1 hnil with heq | hnil
    · exact hd heq.symm
    · exact h.nonempty hnil
  · by_contra hne
    rcases holds_insert.1 h₁ with heq₁ | h₁ <;> rcases holds_insert.1 h₂ with heq₂ | h₂
    · exact hne (heq₁.trans heq₂.symm)
    · exact (hother d₂ h₂ (heq₁ ▸ Ne.symm hne)).2 (heq₁ ▸ hle)
    · exact (hother d₁ h₁ (heq₂ ▸ hne)).1 (heq₂ ▸ hle)
    · exact hne (h.apart d₁ d₂ h₁ h₂ hle)
  · by_cases heq : d₁ = d
    · subst heq
      rw [lookup_insert] at hlookup
      cases hlookup
      exact hplain
    · rw [lookup_insert_ne (by simpa using heq)] at hlookup
      exact h.listed d₁ files₁ hlookup

/-! ## Downloads -/

theorem lookup_downloadTasks {tasks : List Path} (hplain : ∀ path ∈ tasks, Plain d path) :
    (downloadTasks a d tasks s).lookup (d' ++ manifestFile) = s.lookup (d' ++ manifestFile) := by
  induction tasks generalizing s with
  | nil => rfl
  | cons _ _ ih =>
    rw [forall_mem_cons] at hplain
    refine (ih hplain.2).trans ?_
    dsimp only
    split_ifs
    · exact lookup_insert_ne fun heq => hplain.1 ⟨d', heq⟩
    · rfl

def Attempt.Plain (a : Attempt) (d : Path) : Prop := ∀ objects ∈ a.listing, ∀ o ∈ objects, Gcs.Plain d o.relative

theorem relative_of_entry {o : Object} (h : manifestEntry downloadable o = .ok (some path)) : path = o.relative := by
  unfold manifestEntry at h
  split_ifs at h <;>
    simp only [bind_eq_ok, ensure_eq_ok, exists_const, pure_eq_ok, reduceCtorEq, and_false, some.injEq] at h
  exact h.2.2.symm

theorem ensureManifest_spec (h : Apart s) (hfree : findOverlap s d = none) (hd : d ≠ []) (ha : a.Plain d)
    (hok : ensureManifest downloadable a s d = .ok (s', files)) :
    Apart s' ∧ Holds s' d ∧ (∀ d', Holds s d' → Holds s' d') ∧ ∀ path ∈ files, Plain d path := by
  unfold ensureManifest loadManifest at hok
  split at hok
  · next files' hload =>
    cases hok
    split at hload
    · next model files' hlookup =>
      split_ifs at hload with hvalid
      cases hload
      obtain rfl := hvalid.1
      exact ⟨h, holds_iff.2 (by simp [hlookup]), fun _ hd => hd, h.listed _ _ hlookup⟩
    · cases hload
  · simp only [bind_eq_ok, found_eq_ok, ensure_eq_ok, exists_const, pure_eq_ok] at hok
    obtain ⟨objects, hlisting, entries, hentries, -, heq⟩ := hok
    cases heq
    have hplain : ∀ path ∈ entries.filterMap id, Plain d path := by
      intro path hpath
      obtain ⟨o, ho, hentry⟩ := (mem_of_mapM hentries).1 (by simpa using hpath)
      exact relative_of_entry hentry ▸ ha objects hlisting o ho
    exact ⟨h.insert hfree hd hplain, holds_insert.2 (.inl rfl), fun _ hd => holds_insert.2 (.inr hd), hplain⟩

structure Downloaded (s : Cache) (d : Path) (r : Cache × Except Refused Unit) : Prop where
  apart : Apart r.1
  keeps : ∀ d', Holds s d' → Holds r.1 d'
  holds : r.2 = .ok () → Holds r.1 d

theorem holds_of_satisfies (h : cacheSatisfiesRequest weight s d ignoreWeights = true) : Holds s d := by
  unfold cacheSatisfiesRequest loadManifest at h
  cases hlookup : s.lookup (d ++ manifestFile) with
  | none => simp [hlookup] at h
  | some => exact holds_iff.2 (by simp [hlookup])

theorem downloadModel_spec (h : Apart s) (ha : a.Plain m.dir) :
    Downloaded s m.dir (downloadModel downloadable weight a m ignoreWeights s) := by
  fun_cases downloadModel downloadable weight a m ignoreWeights s
  case case1 hsatisfies => exact ⟨h, fun _ hd => hd, fun _ => holds_of_satisfies hsatisfies⟩
  case case5 hfree _ s₁ files hmanifest _ =>
    obtain ⟨h₁, hholds, hkeeps, -⟩ := ensureManifest_spec h hfree (cons_ne_nil _ _) ha hmanifest
    exact ⟨h₁, hkeeps, fun _ => hholds⟩
  case case6 hfree _ s₁ files hmanifest _ _ _ =>
    obtain ⟨h₁, hholds, hkeeps, -⟩ := ensureManifest_spec h hfree (cons_ne_nil _ _) ha hmanifest
    exact ⟨h₁, hkeeps, by simp⟩
  case case7 hfree _ s₁ files hmanifest tasks _ _ _ =>
    obtain ⟨h₁, hholds, hkeeps, hplain⟩ := ensureManifest_spec h hfree (cons_ne_nil _ _) ha hmanifest
    have htasks : ∀ {d'}, (downloadTasks a m.dir tasks s₁).lookup (d' ++ manifestFile) = s₁.lookup (d' ++ manifestFile) :=
      lookup_downloadTasks fun path hpath => hplain path (mem_of_mem_filter hpath)
    refine ⟨h₁.congr fun _ => htasks, fun d' hd' => ?_, fun _ => ?_⟩
    · rw [holds_iff, htasks, ← holds_iff]
      exact hkeeps d' hd'
    · rw [holds_iff, htasks, ← holds_iff]
      exact hholds
  all_goals exact ⟨h, fun _ hd => hd, by simp⟩

/-! ## Deletion -/

theorem lookup_deleteModel (hpath : ¬ m.dir <+: path) : (deleteModel m s).lookup path = s.lookup path := by
  unfold deleteModel
  split_ifs
  · refine ext fun file => ?_
    rw [← mem_def, ← mem_def, mem_lookup_iff, mem_lookup_iff]
    simp [hpath]
  · rfl

theorem mem_of_deleteModel (h : (deleteModel m s).lookup path = some file) : s.lookup path = some file := by
  unfold deleteModel at h
  split_ifs at h
  · exact mem_lookup_iff.2 (mem_of_mem_filter (mem_lookup_iff.1 h))
  · exact h

theorem Apart.delete (h : Apart s) : Apart (deleteModel m s) := by
  have hholds : ∀ {d}, Holds (deleteModel m s) d → Holds s d := by
    intro d hd
    obtain ⟨file, hfile⟩ := isSome_iff_exists.1 (holds_iff.1 hd)
    exact holds_iff.2 (by simp [mem_of_deleteModel hfile])
  exact ⟨fun hnil => h.nonempty (hholds hnil), fun d d' hd hd' => h.apart d d' (hholds hd) (hholds hd'),
    fun d files hlookup => h.listed d files (mem_of_deleteModel hlookup)⟩

theorem Apart.deleted (h : Apart s) (hd : Holds s d) (hne : d ≠ m.dir) (hpath : d <+: path) :
    (deleteModel m s).lookup path = s.lookup path := by
  by_cases hremovable : Removable s m.dir
  · refine lookup_deleteModel fun hle => ?_
    have hcomparable := prefix_or_prefix_of_prefix hpath hle
    rcases hremovable with hholds | ⟨-, hfree⟩
    · rcases hcomparable with hle | hle
      · exact hne (h.apart _ _ hd hholds hle)
      · exact hne (h.apart _ _ hholds hd hle).symm
    · obtain ⟨habove, hbelow⟩ := findOverlap_eq_none.1 hfree d hd (fun hnil => h.nonempty (hnil ▸ hd)) hne
      exact hcomparable.elim habove hbelow
  · rw [deleteModel, if_neg hremovable]

/-! ## Whole runs -/

theorem Apart.available (h : Apart s) (hd : Holds s d) : findOverlap s d = none :=
  findOverlap_eq_none.2 fun d' hd' _ hne => ⟨fun hle => hne (h.apart d' d hd' hd hle),
    fun hle => hne (h.apart d d' hd hd' hle).symm⟩

def Event.Plain : Event → Prop
  | .download m _ a => a.Plain m.dir
  | .delete _ => True

def Event.Deletes (d : Path) : Event → Prop
  | .download .. => False
  | .delete m => m.dir = d

theorem Apart.step (h : Apart s) {e : Event} (he : e.Plain) : Apart (step downloadable weight s e) ∧
    ∀ d, ¬ e.Deletes d → Holds s d → Holds (Gcs.step downloadable weight s e) d := by
  cases e with
  | download m ignoreWeights a =>
    have hspec : Downloaded s m.dir (downloadModel downloadable weight a m ignoreWeights s) := downloadModel_spec h he
    exact ⟨hspec.apart, fun d _ hd => hspec.keeps d hd⟩
  | delete m =>
    refine ⟨h.delete, fun d hne hd => ?_⟩
    have hsame : (deleteModel m s).lookup (d ++ manifestFile) = s.lookup (d ++ manifestFile) :=
      h.deleted hd (fun heq => hne heq.symm) (prefix_append ..)
    exact holds_iff.2 (hsame ▸ holds_iff.1 hd)

/-- No directory above or below that of a cached model holds a manifest, and no deletion removes
    a file of another cached model. -/
structure Disjoint (s : Cache) : Prop where
  apart : ∀ d d', Holds s d → Holds s d' → d <+: d' → d = d'
  deleted : ∀ m d path, Holds s d → d ≠ ModelName.dir m → d <+: path → (deleteModel m s).lookup path = s.lookup path

theorem apart_run {es : List Event} (hes : ∀ e ∈ es, e.Plain) : Apart (Run.run (step downloadable weight) ∅ es) := by
  have hempty : Apart ∅ := ⟨notMem_empty _, fun d _ hd => absurd hd (notMem_empty _), fun d _ h => by simp at h⟩
  exact Run.history_of_mem (Q := fun _ => Apart) hempty (fun _ e he h => (h.step he).1) hes

theorem holds_run (h : Apart s) (hd : Holds s d) {es : List Event} (hes : ∀ e ∈ es, e.Plain ∧ ¬ e.Deletes d) :
    Holds (Run.run (step downloadable weight) s es) d := by
  refine (Run.history_of_mem (Q := fun _ s => Apart s ∧ Holds s d) ⟨h, hd⟩ (fun _ e he h => ?_) hes).2
  exact ⟨(h.1.step he.1).1, (h.1.step he.1).2 d he.2 h.2⟩

/-- **Cached models do not overlap**, if no object would lie at the place of a manifest; and a
    model that was downloaded is not refused for an overlap until it is deleted. -/
theorem cached_models_disjoint (es : List Event) (hes : ∀ e ∈ es, e.Plain) :
    Disjoint (Run.run (step downloadable weight) ∅ es) ∧
      ∀ es₁ m ignoreWeights a es₂, es = es₁ ++ .download m ignoreWeights a :: es₂ →
        (downloadModel downloadable weight a m ignoreWeights (Run.run (step downloadable weight) ∅ es₁)).2 = .ok () →
        (∀ e ∈ es₂, ¬ e.Deletes m.dir) → findOverlap (Run.run (step downloadable weight) ∅ es) m.dir = none := by
  have hapart : Apart (Run.run (step downloadable weight) ∅ es) := apart_run hes
  refine ⟨⟨hapart.apart, fun m d path hd hne hpath => hapart.deleted hd hne hpath⟩, ?_⟩
  rintro es₁ m _ a _ rfl hok hkept
  rw [forall_mem_append, forall_mem_cons] at hes
  have h₁ : Apart (Run.run (step downloadable weight) ∅ es₁) := apart_run hes.1
  refine hapart.available ?_
  rw [Run.run_append]
  exact holds_run (h₁.step hes.2.1).1 ((downloadModel_spec h₁ hes.2.1).holds hok) fun e he => ⟨hes.2.2 e he, hkept e he⟩

def org : ModelName := ⟨"bucket", ["org"], by decide⟩

def offered (relative : Path) : Attempt where
  clients := true
  listing := some [⟨["config.json"], true⟩, ⟨["w.bin"], true⟩, ⟨relative, true⟩]
  writes := true
  arrives _ := true

def isBin (path : Path) : Bool := path = ["w.bin"]

theorem cached_models_disjoint_org : findOverlap (Run.run (step (fun _ => true) isBin) ∅
    [.download org true (offered ["vocab.txt"]), .delete ⟨"bucket", ["other"], by decide⟩]) org.dir = none := by
  refine (cached_models_disjoint _ ?_).2 [] org true _ _ rfl (by decide) (by simp [Event.Deletes, org, ModelName.dir])
  simp only [forall_mem_cons, not_mem_nil, Event.Plain, Attempt.Plain, offered, mem_some, forall_eq', Plain,
    false_imp_iff, implies_true, and_true]
  decide

/-- An object `sub/.mx/manifest.json` makes the model overlap with itself. -/
theorem nested_manifest_overlaps :
    (downloadModel (fun _ => true) isBin (offered ["sub", ".mx", "manifest.json"]) org true ∅).2 = .ok () ∧
      (downloadModel (fun _ => true) isBin (offered ["sub", ".mx", "manifest.json"]) org false
        (downloadModel (fun _ => true) isBin (offered ["sub", ".mx", "manifest.json"]) org true ∅).1).2 =
          .error (.overlaps ["bucket", "org", "sub"]) := by
  decide

end ModelExpress.Gcs
