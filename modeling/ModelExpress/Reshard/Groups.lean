/-
  ModelExpress refit — groups of linked owners (`_connected_groups`, `refit/reshard/types.py`).

  A loop has so much fuel, and is `none` without; the functions of `UnionFind` are what the loops compute.
-/
import ModelExpress.Lib.UnionFind

namespace ModelExpress.Reshard

open UnionFind Buckets List

variable {α : Type} [DecidableEq α] {nodes : List α} {parent : α → α} {fuel : ℕ}

/-- `root`, with the parents that it leaves. -/
def root : ℕ → (α → α) → α → Option (α × (α → α))
  | 0, _, _ => none
  | fuel + 1, parent, node =>
    if parent node = node then some (node, parent) else root fuel (halve parent node) (halve parent node node)

def joinMembers (fuel : ℕ) (nodes : List α) (parent : α → α) (link : List α) : Option (α → α) :=
  match link.filter (· ∈ nodes) with
  | [] => some parent
  | first :: members => members.foldlM (fun parent node => do
      let target ← root fuel parent first
      let source ← root fuel target.2 node
      return Function.update source.2 source.1 target.1) parent

def connectedGroups (fuel : ℕ) (nodes : List α) (links : List (List α)) : Option (List (List α)) := do
  let keys := distinct nodes
  let parent ← links.foldlM (joinMembers fuel keys) id
  let state ← keys.foldlM (fun state node => do
    let found ← root fuel state.2 node
    return (push found.1 node state.1, found.2)) (([] : List (α × List α)), parent)
  return state.1.map Prod.snd

/-! ## The loops end -/

theorem root_eq {k n : ℕ} {a r : α} (h : Leads parent k a r) (hk : k < fuel) (hn : k ≤ n) :
    root fuel parent a = some (UnionFind.root n parent a) := by
  induction fuel generalizing parent k n a with
  | zero => omega
  | succ fuel ih =>
    cases h with
    | root hr => cases n <;> simp [root, UnionFind.root, hr]
    | @step k _ _ hne hup =>
      obtain ⟨n, rfl⟩ : ∃ m, n = m + 1 := ⟨n - 1, by omega⟩
      obtain ⟨j, hj, hnext⟩ := hup.next
      rw [root, UnionFind.root, if_neg hne, if_neg hne]
      exact ih hnext (by omega) (by omega)

theorem foldlM_eq_some {σ ι : Type} {P : σ → Prop} {f : σ → ι → Option σ} {g : σ → ι → σ} {l : List ι}
    (h : ∀ i ∈ l, ∀ s, P s → f s i = some (g s i) ∧ P (g s i)) {s : σ} (hs : P s) :
    l.foldlM f s = some (l.foldl g s) ∧ P (l.foldl g s) := by
  induction l generalizing s with
  | nil => exact ⟨rfl, hs⟩
  | cons i l ih =>
    obtain ⟨hf, hg⟩ := h i (mem_cons_self ..) s hs
    rw [foldlM_cons, hf]
    exact ih (fun j hj => h j (mem_cons_of_mem _ hj)) hg

theorem root_eq_of_forest {ρ : α → α} {a : α} (h : Forest nodes parent ρ) (hfuel : nodes.length < fuel) (ha : a ∈ nodes) :
    root fuel parent a = some (UnionFind.root nodes.length parent a) := by
  obtain ⟨k, hlead⟩ := h.roots a
  have hk := hlead.lt_length h.closed ha
  exact root_eq hlead (by omega) (by omega)

theorem connectedGroups_eq_some (hfuel : nodes.length < fuel) (hnodes : nodes.Nodup) (links : List (List α)) :
    connectedGroups fuel nodes links = some (UnionFind.connectedGroups nodes links) := by
  have hjoin : ∀ link ∈ links, ∀ parent, (∃ ρ, Forest nodes parent ρ) →
      joinMembers fuel nodes parent link = some (joinLink nodes parent link) ∧ ∃ ρ, Forest nodes (joinLink nodes parent link) ρ := by
    rintro link - parent ⟨ρ, h⟩
    refine ⟨?_, _, forest_joinLink h link⟩
    have hmem : ∀ b ∈ link.filter (· ∈ nodes), b ∈ nodes := fun b hb => of_decide_eq_true (mem_filter.1 hb).2
    rw [joinMembers, joinLink]
    cases hlink : link.filter (· ∈ nodes) with
    | nil => rfl
    | cons =>
      rw [hlink, forall_mem_cons] at hmem
      refine (foldlM_eq_some (P := fun parent => ∃ ρ, Forest nodes parent ρ) (fun node hnode _ => ?_) ⟨ρ, h⟩).1
      rintro ⟨ρ, h⟩
      refine ⟨?_, _, h.join hmem.1 (hmem.2 node hnode)⟩
      rw [root_eq_of_forest h hfuel hmem.1, Option.bind_eq_bind, Option.bind_some,
        root_eq_of_forest (h.root hmem.1).2 hfuel (hmem.2 node hnode)]
      rfl
  obtain ⟨hlinks, hforest⟩ := foldlM_eq_some hjoin ⟨id, forest_id nodes⟩
  have hcollect : ∀ node ∈ nodes, ∀ state : List (α × List α) × (α → α), (∃ ρ, Forest nodes state.2 ρ) →
      (do let found ← root fuel state.2 node; return (push found.1 node state.1, found.2)) =
        some (collect nodes state node) ∧ ∃ ρ, Forest nodes (collect nodes state node).2 ρ := by
    rintro node hnode _ ⟨ρ, h⟩
    rw [root_eq_of_forest h hfuel hnode]
    exact ⟨rfl, ρ, (h.root hnode).2⟩
  rw [connectedGroups, UnionFind.connectedGroups, distinct_of_nodup hnodes, hlinks, Option.bind_eq_bind,
    Option.bind_some, (foldlM_eq_some hcollect hforest).1]
  rfl

/-! ## What they return -/

theorem heads_sublist (ρ : α → α) (nodes : List α) :
    (((distinct (nodes.map ρ)).map fun r => nodes.filter (ρ · = r)).filterMap head?).Sublist nodes := by
  induction nodes using reverseRecOn with
  | nil => exact nil_sublist _
  | append_singleton nodes a ih =>
    have hold : ((distinct (nodes.map ρ)).map fun r => (nodes ++ [a]).filter (ρ · = r)).filterMap head? =
        ((distinct (nodes.map ρ)).map fun r => nodes.filter (ρ · = r)).filterMap head? := by
      rw [filterMap_map, filterMap_map]
      refine filterMap_congr fun r hr => ?_
      obtain ⟨b, hb, rfl⟩ := mem_map.1 (mem_distinct.1 hr)
      have hne : nodes.filter (ρ · = ρ b) ≠ [] := ne_nil_of_mem (mem_filter.2 ⟨hb, by simp⟩)
      simp only [Function.comp_apply, filter_append, head?_append_of_ne_nil _ hne]
    rw [map_append, map_singleton, distinct_append_singleton, mark]
    split_ifs with hmem
    · rw [hold]
      exact ih.trans (sublist_append_left ..)
    · have hnone : nodes.filter (ρ · = ρ a) = [] := filter_eq_nil_iff.2 fun b hb heq =>
        hmem (mem_distinct.2 (mem_map.2 ⟨b, hb, by simpa using heq⟩))
      rw [map_append, filterMap_append, hold]
      exact ih.append (by simp [filter_append, hnone])

/-- **Linked nodes are grouped**: the groups are a partition of the nodes into connected components, ordered by their first
    members, and the members in the order of the nodes. -/
theorem connected_groups_partition (hnodes : nodes.Nodup) (links : List (List α)) (hfuel : nodes.length < fuel) :
    ∃ groups, connectedGroups fuel nodes links = some groups ∧ groups.flatten.Perm nodes ∧
      (groups.filterMap head?).Sublist nodes ∧ ∀ group ∈ groups, group ≠ [] ∧ group.Sublist nodes ∧
        ∀ a ∈ group, ∀ b ∈ nodes, b ∈ group ↔ Connected nodes links a b := by
  obtain ⟨ρ, hρ, hgroups⟩ := connectedGroups_eq nodes links
  rw [distinct_of_nodup hnodes] at hgroups
  refine ⟨_, connectedGroups_eq_some hfuel hnodes links, ?_, ?_, ?_⟩
  · have hperm := perm_foldl_push ρ id nodes
    rw [foldl_push, flatMap_map, map_id] at hperm
    rw [hgroups]
    simpa [flatMap_def] using hperm
  · rw [hgroups]
    exact heads_sublist ρ nodes
  · rw [hgroups]
    refine forall_mem_map.2 fun r hr => ⟨?_, filter_sublist, fun a ha b hb => ?_⟩
    · obtain ⟨a, ha, rfl⟩ := mem_map.1 (mem_distinct.1 hr)
      exact ne_nil_of_mem (mem_filter.2 ⟨ha, by simp⟩)
    · have har : ρ a = r := by simpa using (mem_filter.1 ha).2
      rw [← hρ, har, mem_filter]
      simp [hb, eq_comm]

theorem connected_groups_partition_four :
    ∃ groups, connectedGroups 5 [0, 1, 2, 3] [[2, 0], [], [3, 3]] = some groups ∧ groups.flatten.Perm [0, 1, 2, 3] :=
  (connected_groups_partition (by decide) _ (by decide)).imp fun _ h => ⟨h.1, h.2.1⟩

end ModelExpress.Reshard
