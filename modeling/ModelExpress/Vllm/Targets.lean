/-
  ModelExpress vLLM installer — what the targets and the schedule of an engine plan are.
-/
import ModelExpress.Lib.Assoc
import ModelExpress.Vllm.Replay

namespace ModelExpress.Vllm

open Checks List Function InstallTargets

/-! ## Targets -/

structure Sound (targets : InstallTargets) : Prop where
  names : ((targets.owners.flatMap (·.parameters)).map (·.name)).Nodup
  nonempty : ∀ owner ∈ targets.owners, owner.parameters ≠ []
  canonical : ∀ q ∈ targets.owners.flatMap (·.parameters), ∃ q' ∈ targets.owners.flatMap (·.parameters),
    q'.name = q.canonical ∧ q'.canonical = q.canonical

variable {seen : List Parameter} {names : List String}

section
variable (bufferNames : List String)

/-- The first names are names of slots that were seen. -/
def Known (canonical : ℕ → Option String) (seen : List Parameter) : Prop :=
  ∀ id name, canonical id = some name → ∃ q ∈ seen, q.name = name ∧ q.canonical = name

theorem bindSlots_names (canonical : ℕ → Option String) (slots : List InputSlot) :
    ((bindSlots bufferNames canonical slots).1.map (·.name)).Sublist (slots.map (·.name)) := by
  induction slots generalizing canonical with
  | nil => exact List.Sublist.refl _
  | cons _ _ ih =>
    rw [bindSlots]
    split_ifs
    · exact (ih canonical).cons _
    · exact (ih _).cons_cons _

variable {canonical : ℕ → Option String}

theorem bindSlots_canonical (h : Known canonical seen) (slots : List InputSlot) :
    (∀ q ∈ (bindSlots bufferNames canonical slots).1, ∃ q' ∈ seen ++ (bindSlots bufferNames canonical slots).1,
      q'.name = q.canonical ∧ q'.canonical = q.canonical) ∧
    Known (bindSlots bufferNames canonical slots).2 (seen ++ (bindSlots bufferNames canonical slots).1) := by
  induction slots generalizing canonical seen with
  | nil => exact ⟨fun q hq => (by cases hq), by simpa [bindSlots] using h⟩
  | cons slot slots ih =>
    rw [bindSlots]
    split_ifs with hskip
    · exact ih h
    · -- the slot is the first of its tensor, or another one is
      have hself : ∃ q' ∈ seen ++ [⟨slot.name, slot.leaf, (canonical slot.identity).getD slot.name⟩],
          q'.name = (canonical slot.identity).getD slot.name ∧ q'.canonical = (canonical slot.identity).getD slot.name := by
        cases hid : canonical slot.identity with
        | none => exact ⟨_, mem_append_right _ (mem_singleton_self _), rfl, rfl⟩
        | some first =>
          obtain ⟨q', hq', heq⟩ := h slot.identity first hid
          exact ⟨q', mem_append_left _ hq', heq⟩
      have hknown : Known (update canonical slot.identity (some ((canonical slot.identity).getD slot.name)))
          (seen ++ [⟨slot.name, slot.leaf, (canonical slot.identity).getD slot.name⟩]) := by
        intro id name hname
        by_cases hid : id = slot.identity
        · subst hid
          rw [update_self] at hname
          obtain rfl := Option.some.inj hname
          exact hself
        · rw [update_of_ne hid] at hname
          obtain ⟨q', hq', heq⟩ := h id name hname
          exact ⟨q', mem_append_left _ hq', heq⟩
      obtain ⟨hrest, hlast⟩ := ih hknown
      rw [append_assoc, singleton_append] at hrest hlast
      refine ⟨fun q hq => ?_, hlast⟩
      rcases mem_cons.1 hq with rfl | hq
      · obtain ⟨q', hq', heq⟩ := hself
        refine ⟨q', ?_, heq⟩
        rcases mem_append.1 hq' with hq' | hq'
        · exact mem_append_left _ hq'
        · obtain rfl := mem_singleton.1 hq'
          exact mem_append_right _ (mem_cons_self ..)
      · exact hrest q hq

theorem bindOwners_spec (h : Known canonical seen) (inputs : List InputOwner) :
    (((bindOwners bufferNames canonical inputs).flatMap (·.parameters)).map (·.name)).Sublist
      ((inputs.flatMap (·.slots)).map (·.name)) ∧
    (∀ owner ∈ bindOwners bufferNames canonical inputs, owner.parameters ≠ []) ∧
    ∀ q ∈ (bindOwners bufferNames canonical inputs).flatMap (·.parameters),
      ∃ q' ∈ seen ++ (bindOwners bufferNames canonical inputs).flatMap (·.parameters),
        q'.name = q.canonical ∧ q'.canonical = q.canonical := by
  induction inputs generalizing canonical seen with
  | nil => exact ⟨List.Sublist.refl _, fun _ ho => (by cases ho), fun _ hq => (by cases hq)⟩
  | cons input _ ih =>
    have hsub := bindSlots_names bufferNames canonical input.slots
    obtain ⟨hown, hknown⟩ := bindSlots_canonical bufferNames h input.slots
    rw [bindOwners]
    obtain ⟨hnames, hne, hcanonical⟩ := ih hknown
    split_ifs with hempty
    · rw [hempty, append_nil] at hcanonical
      refine ⟨?_, hne, hcanonical⟩
      rw [flatMap_cons, map_append]
      exact hnames.trans (sublist_append_right ..)
    · refine ⟨?_, ?_, ?_⟩
      · rw [flatMap_cons, flatMap_cons, map_append, map_append]
        exact hsub.append hnames
      · intro owner howner
        rcases mem_cons.1 howner with rfl | howner
        · exact hempty
        · exact hne owner howner
      · intro q hq
        rw [flatMap_cons] at hq ⊢
        rw [append_assoc] at hcanonical
        rcases mem_append.1 hq with hq | hq
        · obtain ⟨q', hq', heq⟩ := hown q hq
          rw [← append_assoc]
          exact ⟨q', mem_append_left _ hq', heq⟩
        · exact hcanonical q hq

end

theorem sound_bindTargets (plan : EngineInstallPlan) (bufferNames : List String) : Sound (plan.bindTargets bufferNames) := by
  have hknown : Known (fun _ => none) [] := fun _ _ h => by cases h
  obtain ⟨hnames, hne, hcanonical⟩ := bindOwners_spec bufferNames hknown plan.inputs
  exact ⟨plan.names.sublist hnames, hne, hcanonical⟩

section
variable {targets : InstallTargets} {owner : LayerInstallPlan} {name : String}

theorem Sound.nodup_names (h : Sound targets) :
    (targets.owners.flatMap fun owner => owner.parameters.map (·.name)).Nodup := by
  rw [← map_flatMap]
  exact h.names

theorem Sound.nodup_owners (h : Sound targets) : targets.owners.Nodup := by
  refine (nodup_flatMap.1 h.nodup_names).2.imp_of_mem fun {a b} ha _ hdisjoint hab => ?_
  subst hab
  obtain ⟨q, hq⟩ := exists_mem_of_ne_nil _ (h.nonempty a ha)
  exact hdisjoint (mem_map_of_mem hq) (mem_map_of_mem hq)

theorem Sound.ownerOf_iff (h : Sound targets) :
    targets.ownerOf name = some owner ↔ owner ∈ targets.owners ∧ ∃ q ∈ owner.parameters, q.name = name := by
  have hkeys : ((targets.owners.flatMap fun owner => owner.parameters.map fun q => (q.name, owner)).map Prod.fst).Nodup := by
    rw [map_flatMap]
    simpa [comp_def] using h.nodup_names
  rw [ownerOf, Assoc.reverse_lookup_iff_mem hkeys]
  simp only [mem_flatMap, mem_map, Prod.mk.injEq]
  constructor
  · rintro ⟨o, ho, q, hq, hname, rfl⟩
    exact ⟨ho, q, hq, hname⟩
  · rintro ⟨ho, q, hq, hname⟩
    exact ⟨owner, ho, q, hq, hname, rfl⟩

theorem mem_entries {item : String × LayerInstallPlan} : item ∈ targets.entries ↔
    item.2 ∈ targets.owners ∧ ∃ q ∈ item.2.parameters, q.name = item.1 ∧ q.canonical = item.1 := by
  simp only [entries, mem_flatMap, mem_map, mem_filter, decide_eq_true_eq]
  constructor
  · rintro ⟨o, ho, q, ⟨hq, heq⟩, rfl⟩
    exact ⟨ho, q, hq, rfl, heq.symm⟩
  · rintro ⟨ho, q, hq, hname, hcanonical⟩
    exact ⟨item.2, ho, q, ⟨hq, hname.trans hcanonical.symm⟩, by rw [hname]⟩

theorem Sound.byName_iff (h : Sound targets) :
    targets.byName name = some owner ↔ owner ∈ targets.owners ∧ ∃ q ∈ owner.parameters, q.name = name ∧ q.canonical = name := by
  have hsub : (targets.entries.map Prod.fst).Sublist (targets.owners.flatMap fun owner => owner.parameters.map (·.name)) := by
    rw [entries, map_flatMap]
    generalize targets.owners = owners
    induction owners with
    | nil => exact List.Sublist.refl _
    | cons _ _ ih =>
      rw [flatMap_cons, flatMap_cons, map_map]
      exact (filter_sublist.map _).append ih
  rw [byName, Assoc.reverse_lookup_iff_mem (h.nodup_names.sublist hsub), mem_entries]

theorem mem_keys : name ∈ targets.keys ↔ ∃ owner ∈ targets.owners, ∃ q ∈ owner.parameters, q.name = name ∧ q.canonical = name := by
  rw [InstallTargets.keys, mem_map]
  constructor
  · rintro ⟨⟨_, owner⟩, hmem, rfl⟩
    exact ⟨owner, mem_entries.1 hmem⟩
  · rintro ⟨owner, howner⟩
    exact ⟨(name, owner), mem_entries.2 howner, rfl⟩

end

/-! ## Last writes -/

theorem lookup_lastWrites_append (copies : List String) (c name : String) :
    (lastWrites (copies ++ [c])).lookup name = if name = c then some copies.length else (lastWrites copies).lookup name := by
  rw [lastWrites, zipIdx_append, foldl_append]
  simp only [zipIdx_singleton, foldl_cons, foldl_nil, Nat.zero_add]
  split_ifs with hname
  · subst hname
    exact AList.lookup_insert _
  · exact AList.lookup_insert_ne hname

theorem lookup_lastWrites {copies : List String} {name : String} {i : ℕ} :
    (lastWrites copies).lookup name = some i ↔ copies[i]? = some name ∧ ∀ j, copies[j]? = some name → j ≤ i := by
  induction copies using reverseRecOn with
  | nil => simp [lastWrites]
  | append_singleton copies c ih =>
    rw [lookup_lastWrites_append]
    by_cases hname : name = c
    · subst hname
      rw [if_pos rfl, Option.some.injEq]
      constructor
      · rintro rfl
        refine ⟨by simp, fun j hj => ?_⟩
        have hlt := (List.getElem?_eq_some_iff.1 hj).1
        rw [length_append, length_singleton] at hlt
        omega
      · rintro ⟨hi, hlast⟩
        have hle := hlast copies.length (by simp)
        have hlt := (List.getElem?_eq_some_iff.1 hi).1
        rw [length_append, length_singleton] at hlt
        omega
    · rw [if_neg hname, ih]
      have hiff : ∀ j : ℕ, (copies ++ [c])[j]? = some name ↔ copies[j]? = some name := by
        intro j
        rw [getElem?_append]
        split_ifs with hj
        · rfl
        · rw [getElem?_eq_none (Nat.le_of_not_lt hj), getElem?_singleton]
          split_ifs <;> simp [Ne.symm hname]
      simp only [hiff]

/-! ## The end of a group -/

theorem le_foldl_max {l : List ℕ} {x acc : ℕ} (h : x ∈ l ∨ x ≤ acc) : x ≤ l.foldl max acc := by
  induction l generalizing acc with
  | nil => exact h.resolve_left not_mem_nil
  | cons y l ih =>
    rw [foldl_cons]
    refine ih ?_
    rcases h with h | h
    · rcases mem_cons.1 h with rfl | h
      · exact .inr (Nat.le_max_right ..)
      · exact .inl h
    · exact .inr (Nat.le_trans h (Nat.le_max_left ..))

theorem foldl_max_mem (l : List ℕ) (acc : ℕ) : l.foldl max acc ∈ l ∨ l.foldl max acc = acc := by
  induction l generalizing acc with
  | nil => exact .inr rfl
  | cons y l ih =>
    rw [foldl_cons]
    rcases ih (max acc y) with h | h
    · exact .inl (mem_cons_of_mem _ h)
    · rw [h]
      rcases Nat.le_total acc y with hle | hle
      · rw [Nat.max_eq_right hle]
        exact .inl (mem_cons_self ..)
      · exact .inr (Nat.max_eq_left hle)

theorem foldl_max_mapM {ι : Type} {f : ι → Except ReplayError ℕ} {l : List ι} {ws : List ℕ} (h : l.mapM f = .ok ws)
    (hne : l ≠ []) : (∃ a ∈ l, f a = .ok (ws.foldl max 0)) ∧ ∀ a ∈ l, ∃ w ≤ ws.foldl max 0, f a = .ok w := by
  refine ⟨?_, fun a ha => ?_⟩
  · obtain ⟨a, l, rfl⟩ := exists_cons_of_ne_nil hne
    have hmem : ws.foldl max 0 ∈ ws := by
      rcases foldl_max_mem ws 0 with hmem | hzero
      · exact hmem
      · obtain ⟨w, hw, -⟩ := exists_mem_of_mapM h (mem_cons_self ..)
        have hle : w ≤ ws.foldl max 0 := le_foldl_max (.inl hw)
        rw [hzero] at hle ⊢
        exact Nat.le_zero.1 hle ▸ hw
    exact (mem_of_mapM h).1 hmem
  · obtain ⟨w, hw, hfa⟩ := exists_mem_of_mapM h ha
    exact ⟨w, le_foldl_max (.inl hw), hfa⟩

section
variable {table : LastWrites} {owner : LayerInstallPlan} {group : List LayerInstallPlan} {e : ℕ}

theorem lastOf_spec (h : lastOf table owner = .ok e) (hne : owner.parameters ≠ []) :
    (∃ q ∈ owner.parameters, table.lookup q.canonical = some e) ∧
      ∀ q ∈ owner.parameters, ∃ w ≤ e, table.lookup q.canonical = some w := by
  simp only [lastOf, bind_eq_ok, pure_eq_ok] at h
  obtain ⟨ws, hws, rfl⟩ := h
  simpa only [found_eq_ok] using foldl_max_mapM hws hne

theorem groupEnd_spec (h : groupEnd table group = .ok e) (hne : group ≠ [])
    (hparams : ∀ owner ∈ group, owner.parameters ≠ []) :
    (∃ owner ∈ group, ∃ q ∈ owner.parameters, table.lookup q.canonical = some e) ∧
      ∀ owner ∈ group, ∀ q ∈ owner.parameters, ∃ w ≤ e, table.lookup q.canonical = some w := by
  simp only [groupEnd, bind_eq_ok, pure_eq_ok] at h
  obtain ⟨ws, hws, rfl⟩ := h
  obtain ⟨⟨owner, howner, hlast⟩, hall⟩ := foldl_max_mapM hws hne
  refine ⟨⟨owner, howner, (lastOf_spec hlast (hparams owner howner)).1⟩, fun o ho q hq => ?_⟩
  obtain ⟨w, hw, hlast⟩ := hall o ho
  obtain ⟨w', hw', hq⟩ := (lastOf_spec hlast (hparams o ho)).2 q hq
  exact ⟨w', Nat.le_trans hw' hw, hq⟩

theorem exists_lastOf (h : ∀ q ∈ owner.parameters, q.canonical ∈ table) : ∃ e, lastOf table owner = .ok e := by
  have hall : ∀ q ∈ owner.parameters, ∃ w, found (table.lookup q.canonical) (ReplayError.keyError q.canonical) = .ok w := by
    intro q hq
    obtain ⟨w, hw⟩ := Assoc.mem_iff_lookup.1 (h q hq)
    exact ⟨w, found_eq_ok.2 hw⟩
  obtain ⟨ws, hws⟩ := exists_mapM hall
  exact ⟨ws.foldl max 0, by simp only [lastOf, bind_eq_ok]; exact ⟨ws, hws, rfl⟩⟩

theorem exists_groupEnd (h : ∀ owner ∈ group, ∀ q ∈ owner.parameters, q.canonical ∈ table) :
    ∃ e, groupEnd table group = .ok e := by
  obtain ⟨ws, hws⟩ := exists_mapM fun owner howner => exists_lastOf (h owner howner)
  exact ⟨ws.foldl max 0, by simp only [groupEnd, bind_eq_ok]; exact ⟨ws, hws, rfl⟩⟩

end

/-! ## The schedule -/

/-- Two layers share a tensor, or the storage of their parameters overlaps. -/
def Linked (targets : InstallTargets) (overlapGroups : List (List String)) (a b : LayerInstallPlan) : Prop :=
  a ∈ targets.owners ∧ b ∈ targets.owners ∧ ∃ q ∈ a.parameters, ∃ q' ∈ b.parameters,
    q.canonical = q'.canonical ∨ ∃ names ∈ overlapGroups, q.name ∈ names ∧ q'.name ∈ names

/-- Two layers are connected through ties or overlaps. -/
def Joined (targets : InstallTargets) (overlapGroups : List (List String)) : LayerInstallPlan → LayerInstallPlan → Prop :=
  Relation.EqvGen (Linked targets overlapGroups)

section
variable {targets : InstallTargets} {overlapGroups : List (List String)}

theorem Sound.mem_link (h : Sound targets) {a : LayerInstallPlan} :
    a ∈ names.filterMap targets.ownerOf ↔ a ∈ targets.owners ∧ ∃ q ∈ a.parameters, q.name ∈ names := by
  simp only [mem_filterMap, h.ownerOf_iff]
  constructor
  · rintro ⟨name, hname, ha, q, hq, rfl⟩
    exact ⟨ha, q, hq, hname⟩
  · rintro ⟨ha, q, hq, hname⟩
    exact ⟨q.name, hname, ha, q, hq, rfl⟩

theorem mem_canonicalSlots : names ∈ targets.canonicalSlots.map Prod.snd ↔
    ∃ c ∈ (targets.owners.flatMap (·.parameters)).map (·.canonical),
      names = ((targets.owners.flatMap (·.parameters)).filter (·.canonical = c)).map (·.name) := by
  rw [canonicalSlots, Buckets.foldl_push, map_map, mem_map]
  simp only [Buckets.mem_distinct, comp_apply, eq_comm]

theorem Sound.links_iff (h : Sound targets) {a b : LayerInstallPlan} :
    (∃ link ∈ targets.links overlapGroups, (a ∈ link ∧ a ∈ targets.owners) ∧ b ∈ link ∧ b ∈ targets.owners) ↔
      Linked targets overlapGroups a b := by
  simp only [links, map_append, mem_append, mem_map]
  constructor
  · rintro ⟨_, ⟨names, hnames, rfl⟩ | ⟨names, hnames, rfl⟩, ⟨ha, -⟩, hb, -⟩
    · obtain ⟨ha, q, hq, hqn⟩ := h.mem_link.1 ha
      obtain ⟨hb, q', hq', hqn'⟩ := h.mem_link.1 hb
      exact ⟨ha, hb, q, hq, q', hq', .inr ⟨names, hnames, hqn, hqn'⟩⟩
    · obtain ⟨c, -, rfl⟩ := mem_canonicalSlots.1 (mem_map.2 hnames)
      -- a parameter whose name is among the slots of `c` has the canonical name `c`
      have hcanonical : ∀ {o q}, o ∈ targets.owners → q ∈ o.parameters →
          q.name ∈ ((targets.owners.flatMap (·.parameters)).filter (·.canonical = c)).map (·.name) → q.canonical = c := by
        intro o q ho hq hmem
        obtain ⟨q', hq', hname⟩ := mem_map.1 hmem
        obtain ⟨hq', hc⟩ := mem_filter.1 hq'
        rw [← inj_on_of_nodup_map h.names hq' (mem_flatMap.2 ⟨o, ho, hq⟩) hname]
        exact of_decide_eq_true hc
      obtain ⟨ha, q, hq, hqn⟩ := h.mem_link.1 ha
      obtain ⟨hb, q', hq', hqn'⟩ := h.mem_link.1 hb
      exact ⟨ha, hb, q, hq, q', hq', .inl ((hcanonical ha hq hqn).trans (hcanonical hb hq' hqn').symm)⟩
  · rintro ⟨ha, hb, q, hq, q', hq', hc | ⟨names, hnames, hqn, hqn'⟩⟩
    · have hmem : ∀ {o p}, o ∈ targets.owners → p ∈ o.parameters → p.canonical = q.canonical →
          p.name ∈ ((targets.owners.flatMap (·.parameters)).filter (·.canonical = q.canonical)).map (·.name) := by
        intro o p ho hp hpc
        exact mem_map_of_mem (mem_filter.2 ⟨mem_flatMap.2 ⟨o, ho, hp⟩, by simpa using hpc⟩)
      have hnames := mem_canonicalSlots.2 ⟨q.canonical, mem_map_of_mem (mem_flatMap.2 ⟨a, ha, hq⟩), rfl⟩
      exact ⟨_, .inr ⟨_, mem_map.1 hnames, rfl⟩, ⟨h.mem_link.2 ⟨ha, q, hq, hmem ha hq rfl⟩, ha⟩,
        h.mem_link.2 ⟨hb, q', hq', hmem hb hq' hc.symm⟩, hb⟩
    · exact ⟨_, .inl ⟨names, hnames, rfl⟩, ⟨h.mem_link.2 ⟨ha, q, hq, hqn⟩, ha⟩, h.mem_link.2 ⟨hb, q', hq', hqn'⟩, hb⟩

end

end ModelExpress.Vllm
