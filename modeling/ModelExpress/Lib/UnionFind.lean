/-
  Connected components by a forest of parents, of which only the root of every element matters (`Roots
  parent ρ`).
-/
import Mathlib.Data.List.Perm.Subperm
import ModelExpress.Lib.Buckets

namespace UnionFind

open List Function Buckets

variable {α : Type*} {link : List α}

/-! ## Forests -/

/-- From `a` it is `k` steps to the root `r`. -/
inductive Leads (parent : α → α) : ℕ → α → α → Prop where
  | root {r : α} (h : parent r = r) : Leads parent 0 r r
  | step {k : ℕ} {a r : α} (h : parent a ≠ a) (hup : Leads parent k (parent a) r) : Leads parent (k + 1) a r

/-- Every element leads to its root. -/
def Roots (parent : α → α) (ρ : α → α) : Prop := ∀ a, ∃ k, Leads parent k a (ρ a)

section
variable {parent : α → α} {k l : ℕ} {a b r s : α}

theorem Leads.isRoot (h : Leads parent k a r) : parent r = r := by
  induction h with
  | root h => exact h
  | step _ _ ih => exact ih

theorem Leads.unique (h : Leads parent k a r) (h' : Leads parent l a s) : k = l ∧ r = s := by
  induction h generalizing l with
  | root hr =>
    cases h' with
    | root => exact ⟨rfl, rfl⟩
    | step hs => exact absurd hr hs
  | step ha _ ih =>
    cases h' with
    | root hr => exact absurd hr ha
    | step _ hup =>
      obtain ⟨rfl, rfl⟩ := ih hup
      exact ⟨rfl, rfl⟩

theorem Leads.exists_chain {S : α → Prop} (hS : ∀ x, S x → S (parent x)) (h : Leads parent k a r) (ha : S a) :
    ∃ chain : List α, chain.Nodup ∧ chain.length = k + 1 ∧ ∀ x ∈ chain, S x ∧ ∃ j ≤ k, Leads parent j x r := by
  induction h with
  | @root r hr =>
    refine ⟨[r], nodup_singleton r, rfl, fun x hx => ?_⟩
    obtain rfl := mem_singleton.1 hx
    exact ⟨ha, 0, Nat.le_refl 0, .root hr⟩
  | @step k a r hne hup ih =>
    obtain ⟨chain, hnodup, hlength, hchain⟩ := ih (hS a ha)
    refine ⟨a :: chain, nodup_cons.2 ⟨fun hmem => ?_, hnodup⟩, by rw [length_cons, hlength], ?_⟩
    · obtain ⟨-, j, hj, hlead⟩ := hchain a hmem
      have := (hlead.unique (.step hne hup)).1
      omega
    · intro x hx
      rcases mem_cons.1 hx with rfl | hx
      · exact ⟨ha, k + 1, Nat.le_refl _, .step hne hup⟩
      · obtain ⟨hSx, j, hj, hlead⟩ := hchain x hx
        exact ⟨hSx, j, Nat.le_succ_of_le hj, hlead⟩

theorem Leads.lt_length {nodes : List α} (hclosed : ∀ x ∈ nodes, parent x ∈ nodes) (h : Leads parent k a r)
    (ha : a ∈ nodes) : k < nodes.length := by
  obtain ⟨_, hnodup, _, hchain⟩ := h.exists_chain (S := (· ∈ nodes)) hclosed ha
  have hle := (subperm_of_subset hnodup fun x hx => (hchain x hx).1).length_le
  omega

end

/-! ## Path halving -/

section
variable [DecidableEq α] {parent : α → α} {k : ℕ} {a b r : α}

def halve (parent : α → α) (a : α) : α → α := Function.update parent a (parent (parent a))

theorem Leads.halve (h : Leads parent k b r) (a : α) : ∃ l ≤ k, Leads (halve parent a) l b r := by
  induction k using Nat.strongRecOn generalizing b with
  | ind k ih =>
    cases h with
    | root hr =>
      refine ⟨0, Nat.le_refl 0, .root ?_⟩
      by_cases hra : r = a
      · subst hra
        rw [UnionFind.halve, update_self, hr, hr]
      · rwa [UnionFind.halve, update_of_ne hra]
    | @step k _ _ hne hup =>
      by_cases hba : b = a
      · subst hba
        have hself : UnionFind.halve parent b b = parent (parent b) := update_self ..
        cases hup with
        | root hr =>
          have hroot : UnionFind.halve parent b (parent b) = parent b := by
            rw [UnionFind.halve, update_of_ne hne, hr]
          refine ⟨1, Nat.le_add_left .., .step ?_ ?_⟩
          · rw [hself, hr]
            exact hne
          · rw [hself, hr]
            exact .root hroot
        | @step k _ _ hne' hup' =>
          obtain ⟨l, hl, hlead⟩ := ih k (by omega) hup'
          refine ⟨l + 1, by omega, .step ?_ ?_⟩
          · -- two steps up is not where it started
            rw [hself]
            intro hcycle
            rw [hcycle] at hup'
            have := (hup'.unique (.step hne (.step hne' (hcycle.symm ▸ hup')))).1
            omega
          · rw [hself]
            exact hlead
      · obtain ⟨l, hl, hlead⟩ := ih k (Nat.lt_succ_self k) hup
        have hsame : UnionFind.halve parent a b = parent b := update_of_ne hba ..
        refine ⟨l + 1, by omega, .step ?_ ?_⟩
        · rw [hsame]
          exact hne
        · rw [hsame]
          exact hlead

/-- A step of the walk comes nearer to the root. -/
theorem Leads.next (h : Leads parent k (parent a) r) :
    ∃ j ≤ k, Leads (UnionFind.halve parent a) j (UnionFind.halve parent a a) r := by
  have hself : UnionFind.halve parent a a = parent (parent a) := update_self ..
  rw [hself]
  cases h with
  | root hr =>
    obtain ⟨l, hl, hlead⟩ := (Leads.root hr).halve a
    exact ⟨l, hl, by rwa [hr]⟩
  | step _ hup =>
    obtain ⟨l, hl, hlead⟩ := hup.halve a
    exact ⟨l, by omega, hlead⟩

/-- The root of `a` and the forest after the walk. -/
def root : ℕ → (α → α) → α → α × (α → α)
  | 0, parent, a => (a, parent)
  | fuel + 1, parent, a =>
    if parent a = a then (a, parent) else root fuel (halve parent a) (halve parent a a)

theorem root_spec {fuel : ℕ} (h : Leads parent k a r) (hk : k ≤ fuel) :
    (root fuel parent a).1 = r ∧
      ∀ {l b s}, Leads parent l b s → ∃ l' ≤ l, Leads (root fuel parent a).2 l' b s := by
  induction fuel generalizing parent a k with
  | zero =>
    obtain rfl : k = 0 := Nat.le_zero.1 hk
    cases h with
    | root => exact ⟨rfl, fun hlead => ⟨_, Nat.le_refl _, hlead⟩⟩
  | succ fuel ih =>
    rw [root]
    split_ifs with hroot
    · obtain ⟨-, rfl⟩ := h.unique (.root hroot)
      exact ⟨rfl, fun hlead => ⟨_, Nat.le_refl _, hlead⟩⟩
    · cases h with
      | root hr => exact absurd hr hroot
      | @step k _ _ _ hup =>
        obtain ⟨j, hj, hlead⟩ := hup.next
        obtain ⟨hfst, hrest⟩ := ih hlead (by omega)
        refine ⟨hfst, fun hb => ?_⟩
        obtain ⟨l₁, hl₁, hb₁⟩ := hb.halve a
        obtain ⟨l₂, hl₂, hb₂⟩ := hrest hb₁
        exact ⟨l₂, Nat.le_trans hl₂ hl₁, hb₂⟩

end

/-! ## Joining trees -/

section
variable [DecidableEq α] {parent : α → α} {nodes : List α} {ρ : α → α} {a b : α}

/-- A forest on some nodes, with the root of every element. -/
structure Forest (nodes : List α) (parent : α → α) (ρ : α → α) : Prop where
  roots : Roots parent ρ
  closed : ∀ x ∈ nodes, parent x ∈ nodes

omit [DecidableEq α] in
theorem forest_id (nodes : List α) : Forest nodes id id := ⟨fun _ => ⟨0, .root rfl⟩, fun _ hx => hx⟩

theorem root_closed (hclosed : ∀ x ∈ nodes, parent x ∈ nodes) (fuel : ℕ) (a : α) :
    ∀ x ∈ nodes, (root fuel parent a).2 x ∈ nodes := by
  induction fuel generalizing parent a with
  | zero => exact hclosed
  | succ fuel ih =>
    rw [root]
    split_ifs with hroot
    · exact hclosed
    · refine ih (fun x hx => ?_) _
      by_cases hxa : x = a
      · subst hxa
        rw [halve, update_self]
        exact hclosed _ (hclosed _ hx)
      · rw [halve, update_of_ne hxa]
        exact hclosed x hx

theorem Forest.root (h : Forest nodes parent ρ) (ha : a ∈ nodes) :
    (root nodes.length parent a).1 = ρ a ∧ Forest nodes (root nodes.length parent a).2 ρ := by
  obtain ⟨k, hlead⟩ := h.roots a
  have hk : k ≤ nodes.length := Nat.le_of_lt (hlead.lt_length h.closed ha)
  obtain ⟨hfst, hrest⟩ := root_spec hlead hk
  refine ⟨hfst, fun x => ?_, root_closed h.closed _ a⟩
  obtain ⟨l, hx⟩ := h.roots x
  obtain ⟨l', -, hx'⟩ := hrest hx
  exact ⟨l', hx'⟩

omit [DecidableEq α] in
theorem Forest.root_mem (h : Forest nodes parent ρ) (ha : a ∈ nodes) : ρ a ∈ nodes := by
  obtain ⟨k, hlead⟩ := h.roots a
  generalize ρ a = r at hlead
  induction hlead with
  | root => exact ha
  | step _ _ ih => exact ih (h.closed _ ha)

def join (fuel : ℕ) (parent : α → α) (a b : α) : α → α :=
  let first := UnionFind.root fuel parent a
  let second := UnionFind.root fuel first.2 b
  Function.update second.2 second.1 first.1

def merge (ρ : α → α) (a b : α) : α → α := fun x => if ρ x = ρ b then ρ a else ρ x

theorem Leads.hang {k : ℕ} {x s ra rb : α} (h : Leads parent k x s) (ha : parent ra = ra)
    (hb : parent rb = rb) (hne : ra ≠ rb) :
    ∃ l, Leads (Function.update parent rb ra) l x (if s = rb then ra else s) := by
  have hra : Leads (update parent rb ra) 0 ra ra := .root (by rw [update_of_ne hne, ha])
  induction h with
  | @root s hs =>
    split_ifs with hsb
    · subst hsb
      have hself : update parent s ra s = ra := update_self ..
      exact ⟨1, .step (by rw [hself]; exact hne) (by rw [hself]; exact hra)⟩
    · exact ⟨0, .root (by rw [update_of_ne hsb, hs])⟩
  | @step k x s hx _ ih =>
    obtain ⟨l, hl⟩ := ih
    have hxb : x ≠ rb := fun h => hx (h ▸ hb)
    have hsame : update parent rb ra x = parent x := update_of_ne hxb ..
    exact ⟨l + 1, .step (by rw [hsame]; exact hx) (by rw [hsame]; exact hl)⟩

omit [DecidableEq α] in
theorem Roots.isRoot (h : Roots parent ρ) (a : α) : parent (ρ a) = ρ a := by
  obtain ⟨k, hlead⟩ := h a
  exact hlead.isRoot

theorem Forest.join (h : Forest nodes parent ρ) (ha : a ∈ nodes) (hb : b ∈ nodes) :
    Forest nodes (join nodes.length parent a b) (merge ρ a b) := by
  obtain ⟨hra, h₁⟩ := h.root ha
  obtain ⟨hrb, h₂⟩ := h₁.root hb
  rw [UnionFind.join, hra, hrb]
  generalize (UnionFind.root nodes.length (UnionFind.root nodes.length parent a).2 b).2 = parent₂ at h₂
  refine ⟨fun x => ?_, fun x hx => ?_⟩
  · by_cases hne : ρ a = ρ b
    · have hmerge : merge ρ a b x = ρ x := by
        rw [merge]
        split_ifs with hx
        exacts [hne.trans hx.symm, rfl]
      have hsame : update parent₂ (ρ b) (ρ a) = parent₂ := by
        rw [hne, update_eq_self_iff, h₂.roots.isRoot]
      rw [hmerge, hsame]
      exact h₂.roots x
    · obtain ⟨k, hx⟩ := h₂.roots x
      exact hx.hang (h₂.roots.isRoot a) (h₂.roots.isRoot b) hne
  · by_cases hxb : x = ρ b
    · rw [hxb, update_self]
      exact h₂.root_mem ha
    · rw [update_of_ne hxb]
      exact h₂.closed x hx

omit [DecidableEq α] in
theorem eqvGen_of {R S : α → α → Prop} {x y : α} (h : Relation.EqvGen R x y) (hR : ∀ u v, R u v → Relation.EqvGen S u v) :
    Relation.EqvGen S x y := by
  induction h with
  | rel _ _ h => exact hR _ _ h
  | refl => exact .refl _
  | symm _ _ _ ih => exact .symm _ _ ih
  | trans _ _ _ _ _ ih₁ ih₂ => exact .trans _ _ _ ih₁ ih₂

theorem foldl_merge (ρ : α → α) (pairs : List (α × α)) (x y : α) :
    pairs.foldl (fun ρ p => merge ρ p.1 p.2) ρ x = pairs.foldl (fun ρ p => merge ρ p.1 p.2) ρ y ↔
      Relation.EqvGen (fun u v => ρ u = ρ v ∨ (u, v) ∈ pairs) x y := by
  induction pairs generalizing ρ with
  | nil =>
    simp only [foldl_nil, not_mem_nil, or_false]
    constructor
    · exact fun h => .rel _ _ h
    · intro h
      induction h with
      | rel _ _ h => exact h
      | refl => rfl
      | symm _ _ _ ih => exact ih.symm
      | trans _ _ _ _ _ ih₁ ih₂ => exact ih₁.trans ih₂
  | cons p pairs ih =>
    rw [foldl_cons, ih]
    constructor
    · refine fun h => eqvGen_of h fun u v huv => ?_
      have hρ : ∀ {u v}, ρ u = ρ v → Relation.EqvGen (fun u v => ρ u = ρ v ∨ (u, v) ∈ p :: pairs) u v :=
        fun h => .rel _ _ (.inl h)
      have hp : Relation.EqvGen (fun u v => ρ u = ρ v ∨ (u, v) ∈ p :: pairs) p.1 p.2 :=
        .rel _ _ (.inr (mem_cons_self ..))
      rcases huv with hmerge | hmem
      · rw [merge, merge] at hmerge
        split_ifs at hmerge with hu hv hv
        · exact hρ (hu.trans hv.symm)
        · exact .trans _ _ _ (hρ hu) (.trans _ _ _ (.symm _ _ hp) (hρ hmerge))
        · exact .trans _ _ _ (hρ hmerge) (.trans _ _ _ hp (hρ hv.symm))
        · exact hρ hmerge
      · exact .rel _ _ (.inr (mem_cons_of_mem _ hmem))
    · refine fun h => eqvGen_of h fun u v huv => ?_
      rcases huv with hρ | hmem
      · exact .rel _ _ (.inl (by rw [merge, merge, hρ]))
      · rcases mem_cons.1 hmem with rfl | hmem
        · refine .rel _ _ (.inl ?_)
          rw [merge, merge, if_pos rfl]
          split_ifs <;> rfl
        · exact .rel _ _ (.inr hmem)

/-! ## Connected groups -/

/-- Join the trees of the members of a link to that of the first. -/
def joinLink (nodes : List α) (parent : α → α) (link : List α) : α → α :=
  match link.filter (· ∈ nodes) with
  | [] => parent
  | first :: rest => rest.foldl (fun parent node => UnionFind.join nodes.length parent first node) parent

def collect (nodes : List α) (state : List (α × List α) × (α → α)) (node : α) : List (α × List α) × (α → α) :=
  let found := UnionFind.root nodes.length state.2 node
  (Buckets.push found.1 node state.1, found.2)

/-- The nodes that are linked, in groups, in the order of the nodes. -/
def connectedGroups (nodes : List α) (links : List (List α)) : List (List α) :=
  let keys := Buckets.distinct nodes
  (keys.foldl (collect keys) ([], links.foldl (joinLink keys) id)).1.map Prod.snd

/-- Two nodes are connected through links. -/
def Connected (nodes : List α) (links : List (List α)) : α → α → Prop :=
  Relation.EqvGen fun a b => ∃ link ∈ links, (a ∈ link ∧ a ∈ nodes) ∧ b ∈ link ∧ b ∈ nodes

def linkPairs (nodes : List α) (link : List α) : List (α × α) :=
  match link.filter (· ∈ nodes) with
  | [] => []
  | first :: rest => rest.map (Prod.mk first)

section
variable (h : Forest nodes parent ρ)
include h

theorem forest_foldl_join (ha : a ∈ nodes) {rest : List α} (hrest : ∀ b ∈ rest, b ∈ nodes) :
    Forest nodes (rest.foldl (fun parent node => UnionFind.join nodes.length parent a node) parent)
      ((rest.map (Prod.mk a)).foldl (fun ρ p => merge ρ p.1 p.2) ρ) := by
  induction rest generalizing parent ρ with
  | nil => exact h
  | cons b rest ih =>
    exact ih (h.join ha (hrest b (mem_cons_self ..))) fun c hc => hrest c (mem_cons_of_mem _ hc)

theorem forest_joinLink (link : List α) :
    Forest nodes (joinLink nodes parent link) ((linkPairs nodes link).foldl (fun ρ p => merge ρ p.1 p.2) ρ) := by
  have hmem : ∀ b ∈ link.filter (· ∈ nodes), b ∈ nodes := fun b hb => of_decide_eq_true (mem_filter.1 hb).2
  rw [joinLink, linkPairs]
  cases hlink : link.filter (· ∈ nodes) with
  | nil => exact h
  | cons first =>
    rw [hlink] at hmem
    exact forest_foldl_join h (hmem first (mem_cons_self ..)) fun b hb => hmem b (mem_cons_of_mem _ hb)

theorem forest_links (links : List (List α)) : Forest nodes (links.foldl (joinLink nodes) parent)
      ((links.flatMap (linkPairs nodes)).foldl (fun ρ p => merge ρ p.1 p.2) ρ) := by
  induction links generalizing parent ρ with
  | nil => exact h
  | cons link links ih =>
    rw [flatMap_cons, foldl_append]
    exact ih (forest_joinLink h link)

theorem foldl_collect {l : List α} (hl : ∀ a ∈ l, a ∈ nodes) (groups : List (α × List α)) :
    (l.foldl (collect nodes) (groups, parent)).1 = l.foldl (fun groups a => Buckets.push (ρ a) a groups) groups := by
  induction l generalizing parent groups with
  | nil => rfl
  | cons a l ih =>
    obtain ⟨hroot, hforest⟩ := h.root (hl a (mem_cons_self ..))
    rw [foldl_cons, foldl_cons, ← hroot]
    exact ih hforest (fun b hb => hl b (mem_cons_of_mem _ hb)) _

end

theorem mem_linkPairs {p : α × α} (h : p ∈ linkPairs nodes link) :
    (p.1 ∈ link ∧ p.1 ∈ nodes) ∧ p.2 ∈ link ∧ p.2 ∈ nodes := by
  have hmem : ∀ b ∈ link.filter (· ∈ nodes), b ∈ link ∧ b ∈ nodes := fun b hb => by simpa using hb
  rw [linkPairs] at h
  cases hlink : link.filter (· ∈ nodes) with
  | nil =>
    rw [hlink] at h
    cases h
  | cons first =>
    rw [hlink] at h hmem
    obtain ⟨b, hb, rfl⟩ := mem_map.1 h
    exact ⟨hmem first (mem_cons_self ..), hmem b (mem_cons_of_mem _ hb)⟩

theorem linkPairs_connect (ha : a ∈ link ∧ a ∈ nodes) (hb : b ∈ link ∧ b ∈ nodes) :
    Relation.EqvGen (fun u v => (u, v) ∈ linkPairs nodes link) a b := by
  have ha : a ∈ link.filter (· ∈ nodes) := by simpa using ha
  have hb : b ∈ link.filter (· ∈ nodes) := by simpa using hb
  rw [linkPairs]
  cases hlink : link.filter (· ∈ nodes) with
  | nil =>
    rw [hlink] at ha
    cases ha
  | cons first rest =>
    have hfirst : ∀ c ∈ first :: rest, Relation.EqvGen (fun u v => (u, v) ∈ rest.map (Prod.mk first)) first c := by
      intro c hc
      rcases mem_cons.1 hc with rfl | hc
      · exact .refl _
      · exact .rel _ _ (mem_map_of_mem hc)
    rw [hlink] at ha hb
    exact .trans _ _ _ (.symm _ _ (hfirst a ha)) (hfirst b hb)

/-- **The groups are the connected components**: two nodes have one root `ρ` iff they are
connected, and the groups are the nodes by their roots. -/
theorem connectedGroups_eq (nodes : List α) (links : List (List α)) : ∃ ρ : α → α,
    (∀ a b, ρ a = ρ b ↔ Connected nodes links a b) ∧
      connectedGroups nodes links = (Buckets.distinct ((Buckets.distinct nodes).map ρ)).map fun r =>
        (Buckets.distinct nodes).filter (ρ · = r) := by
  have hforest := forest_links (forest_id (distinct nodes)) links
  refine ⟨(links.flatMap (linkPairs (distinct nodes))).foldl (fun ρ p => merge ρ p.1 p.2) id, fun a b => ?_, ?_⟩
  · rw [foldl_merge]
    constructor
    · refine fun h => eqvGen_of h fun u v huv => ?_
      rcases huv with heq | hmem
      · exact (show u = v from heq) ▸ .refl _
      · obtain ⟨link, hlink, hmem⟩ := mem_flatMap.1 hmem
        exact .rel _ _ ⟨link, hlink, by simpa using mem_linkPairs hmem⟩
    · refine fun h => eqvGen_of h fun u v huv => ?_
      obtain ⟨link, hlink, hu, hv⟩ := huv
      have hu : u ∈ link ∧ u ∈ distinct nodes := by simpa using hu
      have hpairs := linkPairs_connect hu (by simpa using hv)
      exact eqvGen_of hpairs fun x y hxy => .rel _ _ (.inr (mem_flatMap.2 ⟨link, hlink, hxy⟩))
  · rw [connectedGroups, foldl_collect hforest (fun _ ha => ha), foldl_push _ (fun a => a), map_map]
    exact map_congr_left fun r _ => map_id' _

end

end UnionFind
