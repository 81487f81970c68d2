/-
  ModelExpress server — the identity of a registry entry (`registry/entry_key.rs`).

  A record's name is the text of an `EntryKey`: a bare model name, or
  `mx1:<revision>:<flags>:<model_name>`, or `mxt1:<tenant>:<revision>:<flags>:<model_name>` for
  an entry in a tenant's partition.
-/
import ModelExpress.Lib.Text

namespace ModelExpress.Registry

open Text Option

/-- `matches_dns1123_label`: `[a-z0-9]([-a-z0-9]*[a-z0-9])?`. -/
def matchesDns1123Label (s : String) : Bool :=
  s.toList.all (fun c => c.isLower || c.isDigit || c == '-') && s.toList.head?.any Char.isAlphanum &&
    s.toList.getLast?.any Char.isAlphanum

def isDns1123Label (s : String) : Bool := s.utf8ByteSize ≤ 63 && matchesDns1123Label s

structure Tenant where
  name : String
  label : isDns1123Label name = true
  deriving DecidableEq

def Tenant.new (name : String) : Option Tenant := if h : isDns1123Label name = true then some ⟨name, h⟩ else none

@[simp] theorem Tenant.new_name (t : Tenant) : Tenant.new t.name = some t := dif_pos t.label

theorem Tenant.not_mem_name {c : Char} (t : Tenant) (h : (c.isLower || c.isDigit || c == '-') = false) :
    c ∉ t.name.toList := by
  intro hc
  have hlabel := t.label
  simp only [isDns1123Label, matchesDns1123Label, Bool.and_eq_true, List.all_eq_true] at hlabel
  rw [hlabel.2.1.1 c hc] at h
  cases h

structure EntryKey where
  tenant : Option Tenant
  modelName : String
  revision : Option String
  metadataOnly : Bool
  deriving DecidableEq

namespace EntryKey

def structuredPrefix : List Char := ['m', 'x', '1', ':']

def tenantPrefix : List Char := ['m', 'x', 't', '1', ':']

def flag (metadataOnly : Bool) : Char := if metadataOnly then 'm' else '-'

def needsStructuredForm (k : EntryKey) : Bool :=
  k.revision.isSome || k.metadataOnly || structuredPrefix.isPrefixOf k.modelName.toList ||
    tenantPrefix.isPrefixOf k.modelName.toList

def fields (k : EntryKey) : List Char :=
  (k.revision.getD "").toList ++ ':' :: [flag k.metadataOnly] ++ ':' :: k.modelName.toList

def fmt (k : EntryKey) : String :=
  match k.tenant with
  | some tenant => String.ofList (tenantPrefix ++ (tenant.name.toList ++ ':' :: k.fields))
  | none => if k.needsStructuredForm then String.ofList (structuredPrefix ++ k.fields) else k.modelName

def plain (modelName : String) : EntryKey := ⟨none, modelName, none, false⟩

def parseFields (tenant : Option Tenant) (text : List Char) : Option EntryKey := do
  let (revision, text) ← Text.field? ':' text
  let (flags, name) ← Text.field? ':' text
  return {
    tenant
    modelName := String.ofList name
    revision := if revision = [] then none else some (String.ofList revision)
    metadataOnly := flags = ['m'] }

def parse (key : String) : EntryKey :=
  match Text.after? tenantPrefix key.toList with
  | some text =>
    (do
      let (tenant, text) ← Text.field? ':' text
      let tenant ← Tenant.new (String.ofList tenant)
      parseFields (some tenant) text).getD (plain key)
  | none =>
    match Text.after? structuredPrefix key.toList with
    | some text => (parseFields none text).getD (plain key)
    | none => plain key

def BelongsTo (tenant : Option Tenant) (modelName : String) (k : EntryKey) : Prop :=
  k.tenant = tenant ∧ k.modelName = modelName

/-- A revision that is a commit id: not empty, and without `:`. -/
def Revision (revision : String) : Prop := revision ≠ "" ∧ ':' ∉ revision.toList

instance (revision : String) : Decidable (Revision revision) := inferInstanceAs (Decidable (_ ∧ _))

variable {k : EntryKey}

theorem parseFields_fields (h : ∀ r ∈ k.revision, Revision r) : parseFields k.tenant k.fields = some k := by
  have hrevision : ':' ∉ (k.revision.getD "").toList := by
    cases hr : k.revision with
    | none => simp
    | some r => exact (h r hr).2
  have hflag : ':' ∉ [flag k.metadataOnly] := by
    cases k.metadataOnly <;> simp [flag]
  have hfields : k.fields = (k.revision.getD "").toList ++ ':' :: ([flag k.metadataOnly] ++ ':' :: k.modelName.toList) := by
    simp [fields]
  have hback : (if (k.revision.getD "").toList = [] then none else some (String.ofList (k.revision.getD "").toList)) =
      k.revision := by
    cases hr : k.revision with
    | none => rfl
    | some r =>
      have hne : r.toList ≠ [] := fun hnil => (h r hr).1 (String.toList_inj.1 hnil)
      rw [getD_some, if_neg hne, String.ofList_toList]
  have hmode : decide ([flag k.metadataOnly] = ['m']) = k.metadataOnly := by
    cases k.metadataOnly <;> rfl
  rw [parseFields, hfields, field?_append hrevision]
  dsimp only [bind_eq_bind, bind_some]
  rw [field?_append hflag]
  dsimp only [bind_some]
  rw [hback, hmode, String.ofList_toList]
  rfl

theorem parse_fmt (h : ∀ r ∈ k.revision, Revision r) : parse k.fmt = k := by
  have hparse := parseFields_fields h
  unfold parse fmt
  cases htenant : k.tenant with
  | some tenant =>
    rw [htenant] at hparse
    simp only [String.toList_ofList, after?_append]
    rw [field?_append (tenant.not_mem_name (by decide))]
    simp [hparse]
  | none =>
    rw [htenant] at hparse
    have hnot : ¬ tenantPrefix <+: structuredPrefix ++ k.fields := by simp [tenantPrefix, structuredPrefix]
    by_cases hneeds : k.needsStructuredForm = true
    · simp [hneeds, after?_eq_none hnot, hparse]
    · -- the text is the bare name, which looks like no other form
      have hplain : k = plain k.modelName ∧ ¬ structuredPrefix <+: k.modelName.toList ∧
          ¬ tenantPrefix <+: k.modelName.toList := by
        obtain ⟨_, name, _, _⟩ := k
        simp_all [needsStructuredForm, plain]
      obtain ⟨hk, hstructured, htenanted⟩ := hplain
      simp only [hneeds, Bool.false_eq_true, if_false, after?_eq_none htenanted, after?_eq_none hstructured]
      exact hk.symm

/-- **Entry keys are faithful**: a key is read back from its text, two keys have the same text only if they are equal, and
    an entry belongs to the tenant and the model it was written for, whatever the model's name looks like. -/
theorem entry_key_faithful {k k' : EntryKey} (h : ∀ r ∈ k.revision, Revision r) (h' : ∀ r ∈ k'.revision, Revision r) :
    parse k.fmt = k ∧ (k.fmt = k'.fmt ↔ k = k') ∧
      ∀ tenant name, (parse k.fmt).BelongsTo tenant name ↔ k.tenant = tenant ∧ k.modelName = name := by
  refine ⟨parse_fmt h, ⟨?_, congrArg fmt⟩, ?_⟩
  · intro heq
    rw [← parse_fmt h, ← parse_fmt h', heq]
  · intro _ name
    rw [parse_fmt h, BelongsTo]

/-- A name that looks like a key of the tenant `a`, and a key of that tenant. -/
theorem imitation_faithful : (⟨none, "mxt1:a:main:m:b", none, false⟩ : EntryKey).fmt = "mx1::-:mxt1:a:main:m:b" ∧
    (⟨some ⟨"a", by decide⟩, "b", some "main", true⟩ : EntryKey).fmt = "mxt1:a:main:m:b" ∧
    parse "mx1::-:mxt1:a:main:m:b" = ⟨none, "mxt1:a:main:m:b", none, false⟩ := by
  have hfmt : (⟨none, "mxt1:a:main:m:b", none, false⟩ : EntryKey).fmt = "mx1::-:mxt1:a:main:m:b" := by decide
  have hfaithful := @entry_key_faithful ⟨none, "mxt1:a:main:m:b", none, false⟩
    ⟨some ⟨"a", by decide⟩, "b", some "main", true⟩ (by simp) (by simp [Revision])
  refine ⟨hfmt, by decide, ?_⟩
  rw [← hfmt]
  exact hfaithful.1

end EntryKey

end ModelExpress.Registry
