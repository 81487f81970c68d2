/-
  ModelExpress reshard receiver — streaming the batches of a bounded transfer (`iter_bounded` of
  `nixl_staged_transfer.py`). Any operation may raise, and the consumer may raise or close the generator at
  a yield.
-/
import Mathlib.Data.List.Range
import ModelExpress.Lib.Effects

namespace ModelExpress.Reshard.Streaming

open Effects List

/-! ## Events -/

/-- What the generator does to its arenas, the transport, the device and the consumer. -/
inductive Op where
  | carve (arena batch : ℕ)
  | zero (arena : ℕ)
  | synchronize
  | post (arena batch : ℕ)
  | await (batch : ℕ)
  | complete (batch : ℕ)
  | yield (batch : ℕ)
  deriving DecidableEq

structure Event where
  op : Op
  ok : Bool
  deriving DecidableEq

inductive Reply where
  | resume
  | raise
  | close
  deriving DecidableEq

/-- The outside: whether an operation succeeds and what the consumer does, after the events so far. -/
structure Environment where
  succeeds : List Event → Op → Bool
  consumer : List Event → Reply

/-! ## The generator -/

inductive Raised where
  | error
  | generatorExit
  | undrained
  deriving DecidableEq

structure State where
  trace : List Event := []
  /-- the batch whose reads were posted and not yet taken -/
  pending : Option ℕ := none
  unwinding : Bool := false
  completed : Bool := false
  /-- the cached transfer has not been invalidated -/
  cached : Bool := true

abbrev Generator := EStateM Raised State

def State.log (s : State) (op : Op) (ok : Bool) : State := { s with trace := s.trace ++ [⟨op, ok⟩] }

section
variable (env : Environment)

def perform (op : Op) : Generator Unit := do
  let ok := env.succeeds (← get).trace op
  modify (·.log op ok)
  if ok then pure () else throw .error

def yieldBatch (batch : ℕ) : Generator Unit := do
  match env.consumer (← get).trace with
  | .resume => modify (·.log (.yield batch) true)
  | .raise =>
    modify (·.log (.yield batch) false)
    throw .error
  | .close =>
    modify (·.log (.yield batch) false)
    throw .generatorExit

variable (onDevice : Bool) (arenas : ℕ)

def postBounded (index : ℕ) : Generator Unit := do
  perform env (.carve (index % arenas) index)
  perform env (.zero (index % arenas))
  if onDevice then perform env .synchronize
  perform env (.post (index % arenas) index)
  modify ({ · with pending := some index })

def postWhen (c : Prop) [Decidable c] (index : ℕ) : Generator Unit :=
  if c then postBounded env onDevice arenas index else pure ()

def completeStage (batch : ℕ) : Generator Unit := do
  perform env (.await batch)
  perform env (.complete batch)

variable (batches : ℕ)

/-- The loop of `iter_bounded` from the batch `index` on, with `rest` batches to go. -/
def iterFrom (index : ℕ) : ℕ → Generator Unit
  | 0 => pure ()
  | rest + 1 => do
    match (← get).pending with
    | none => throw .error
    | some batch =>
      modify ({ · with pending := none })
      completeStage env batch
      -- the previous batch of the other arena was committed one iteration ago
      postWhen env onDevice arenas (1 < arenas ∧ index + 1 < batches) (index + 1)
      yieldBatch env batch
      -- all reads of the installation are complete before the arena is used again
      perform env .synchronize
      postWhen env onDevice arenas (arenas = 1 ∧ index + 1 < batches) (index + 1)
      iterFrom (index + 1) rest

def invalidate : Generator Unit := modify ({ · with cached := false })

/-- The `finally` of `iter_bounded`: a read that the caller will never consume is drained. -/
def drain : Generator Unit := do
  unless (← get).completed do invalidate
  match (← get).pending with
  | none => pure ()
  | some batch =>
    try perform env (.await batch)
    catch _ =>
      invalidate
      unless (← get).unwinding do throw .undrained

def iterBounded (active : Bool) : Generator Unit := do
  if ¬ active then throw .error
  if arenas = 0 then throw .error
  -- `prepared.batches[0]`
  if batches = 0 then throw .error
  try
    postBounded env onDevice arenas 0
    iterFrom env onDevice arenas batches 0 batches
    modify ({ · with completed := true })
  catch e =>
    if e ≠ .generatorExit then
      modify ({ · with unwinding := true })
      invalidate
    throw e
  finally
    drain env

def runTrace (active : Bool) : List Event := (final (iterBounded env onDevice arenas batches active) {}).trace

end

/-! ## What a trace shows -/

def posts (t : List Event) : List ℕ :=
  t.filterMap fun e => match e with
    | ⟨.post _ b, true⟩ => some b
    | _ => none

def awaits (t : List Event) : List ℕ :=
  t.filterMap fun e => match e with
    | ⟨.await b, _⟩ => some b
    | _ => none

def yields (t : List Event) : List ℕ :=
  t.filterMap fun e => match e with
    | ⟨.yield b, _⟩ => some b
    | _ => none

def Op.Fills (arena : ℕ) : Op → Prop
  | .zero a | .post a _ => a = arena
  | _ => False

/-- Every read posted into the arena has been awaited. -/
def Idle (t : List Event) (arena : ℕ) : Prop :=
  ∀ b, ⟨.post arena b, true⟩ ∈ t → ∃ ok, ⟨.await b, ok⟩ ∈ t

/-- After every yield of a batch staged in the arena the device has been synchronized. -/
def Committed (t : List Event) (arena : ℕ) : Prop :=
  ∀ before after b ok, t = before ++ ⟨.yield b, ok⟩ :: after → ⟨.post arena b, true⟩ ∈ before →
    ⟨.synchronize, true⟩ ∈ after

structure Allowed (t : List Event) (e : Event) : Prop where
  fills : ∀ arena, e.op.Fills arena → Idle t arena ∧ Committed t arena
  awaits : ∀ b, e.op = .await b → ∃ arena, ⟨.post arena b, true⟩ ∈ t
  yields : ∀ b, e.op = .yield b → ⟨.await b, true⟩ ∈ t

/-! ## Every run -/

variable {b y' : ℕ} {op : Op}

section
variable {t : List Event} {e : Event} {p a y : ℕ}

theorem mem_posts : b ∈ posts t ↔ ∃ arena, ⟨.post arena b, true⟩ ∈ t := by
  simp only [posts, mem_filterMap]
  constructor
  · rintro ⟨⟨op, ok⟩, hmem, heq⟩
    split at heq
    · next arena b' hsame =>
      cases hsame
      cases heq
      exact ⟨_, hmem⟩
    · cases heq
  · rintro ⟨_, hmem⟩
    exact ⟨_, hmem, rfl⟩

theorem mem_awaits : b ∈ awaits t ↔ ∃ ok, ⟨.await b, ok⟩ ∈ t := by
  simp only [awaits, mem_filterMap]
  constructor
  · rintro ⟨⟨op, ok⟩, hmem, heq⟩
    split at heq
    · next b' ok' hsame =>
      cases hsame
      cases heq
      exact ⟨_, hmem⟩
    · cases heq
  · rintro ⟨ok, hmem⟩
    exact ⟨_, hmem, rfl⟩

def Synced (t : List Event) : Prop :=
  ∀ before after b ok, t = before ++ ⟨.yield b, ok⟩ :: after → ⟨.synchronize, true⟩ ∈ after

theorem Synced.nil : Synced [] := by
  intro _ _ b ok h
  simp at h

theorem Synced.snoc (h : Synced t ∨ e = ⟨.synchronize, true⟩) (he : ∀ b, e.op ≠ .yield b) :
    Synced (t ++ [e]) := by
  intro before after b ok heq
  rcases eq_nil_or_concat after with rfl | ⟨after, e', rfl⟩
  · obtain ⟨-, hlast⟩ := append_inj' heq rfl
    cases hlast
    exact absurd rfl (he b)
  · rw [concat_eq_append, ← cons_append, ← append_assoc] at heq
    obtain ⟨hinit, hlast⟩ := append_inj' heq rfl
    cases hlast
    rcases h with h | rfl
    · simp [h before after b ok hinit]
    · simp

/-- The batches are posted, awaited and yielded in order, this many of them each. -/
structure Tracks (t : List Event) (posted awaited yielded : ℕ) : Prop where
  posts_eq : posts t = List.range posted
  awaits_eq : awaits t = List.range awaited
  yields_eq : yields t = List.range yielded
  allowed : Throughout Allowed t

theorem Tracks.nil : Tracks [] 0 0 0 := ⟨rfl, rfl, rfl, throughout_nil⟩

theorem Tracks.snoc {p' a' : ℕ} (h : Tracks t p a y) (hok : Allowed t e)
    (hp : List.range p ++ posts [e] = List.range p') (ha : List.range a ++ awaits [e] = List.range a')
    (hy : List.range y ++ yields [e] = List.range y') : Tracks (t ++ [e]) p' a' y' where
  posts_eq := by rw [← hp, ← h.posts_eq, posts, filterMap_append]; rfl
  awaits_eq := by rw [← ha, ← h.awaits_eq, awaits, filterMap_append]; rfl
  yields_eq := by rw [← hy, ← h.yields_eq, yields, filterMap_append]; rfl
  allowed := throughout_snoc.2 ⟨h.allowed, hok⟩

theorem Tracks.allowed_fill (h : Tracks t p p y) (hs : Synced t) (ha : ∀ b, e.op ≠ .await b)
    (he : ∀ b, e.op ≠ .yield b) : Allowed t e := by
  refine ⟨fun arena _ => ⟨fun b hb => ?_, fun before after b ok heq _ => hs before after b ok heq⟩,
    fun b hb => absurd hb (ha b), fun b hb => absurd hb (he b)⟩
  rw [← mem_awaits, h.awaits_eq, ← h.posts_eq, mem_posts]
  exact ⟨arena, hb⟩

theorem Tracks.await (h : Tracks t (a + 1) a y) (ok : Bool) :
    Tracks (t ++ [⟨.await a, ok⟩]) (a + 1) (a + 1) y := by
  refine h.snoc ⟨fun _ hfill => hfill.elim, fun b hb => ?_, by simp⟩ (append_nil _)
    range_succ.symm (append_nil _)
  cases hb
  rw [← mem_posts, h.posts_eq]
  exact self_mem_range_succ

end

section
variable (env : Environment) (onDevice : Bool) (arenas batches : ℕ) {s : State}
  {Q : Unit → State → Prop} {E : Raised → State → Prop}

@[simp] theorem log_trace (op : Op) (ok : Bool) : (s.log op ok).trace = s.trace ++ [⟨op, ok⟩] := rfl

@[simp] theorem log_pending (op : Op) (ok : Bool) : (s.log op ok).pending = s.pending := rfl

@[simp] theorem wp_perform (op : Op) : wp (perform env op) Q E s ↔
    (env.succeeds s.trace op = true → Q () (s.log op true)) ∧
      (env.succeeds s.trace op = false → E .error (s.log op false)) := by
  cases h : env.succeeds s.trace op <;> simp [perform, h]

/-- No reads are in flight and everything yielded is committed. -/
structure Clear (n y : ℕ) (s : State) : Prop where
  tracks : Tracks s.trace n n y
  synced : Synced s.trace
  pending : s.pending = none

/-- The reads of the batch `n` are in flight, and everything yielded is committed. -/
structure Posted (n y : ℕ) (s : State) : Prop where
  tracks : Tracks s.trace (n + 1) n y
  synced : Synced s.trace
  pending : s.pending = some n

/-- Everything posted was awaited, except for the batch that is still pending. -/
def Accounted (n y : ℕ) (s : State) : Prop :=
  (s.pending = none ∧ Tracks s.trace n n y) ∨ (s.pending = some n ∧ Tracks s.trace (n + 1) n y)

structure Abandoned (s : State) : Prop where
  accounted : ∃ n, ∃ y ≤ batches, Accounted n y s
  failed : ∃ e ∈ s.trace, e.ok = false

variable {n y : ℕ} {batches}

theorem Clear.accounted (h : Clear n y s) : Accounted n y s := .inl ⟨h.pending, h.tracks⟩

theorem Posted.accounted (h : Posted n y s) : Accounted n y s := .inr ⟨h.pending, h.tracks⟩

def Op.Neutral : Op → Prop
  | .carve _ _ | .zero _ | .synchronize | .complete _ => True
  | .post _ _ | .await _ | .yield _ => False

theorem Clear.neutral (h : Clear n y s) (hop : op.Neutral) (ok : Bool) : Clear n y (s.log op ok) where
  tracks := by
    refine h.tracks.snoc (h.tracks.allowed_fill h.synced ?_ ?_) ?_ ?_ ?_
    · rintro b rfl
      exact hop
    · rintro b rfl
      exact hop
    all_goals cases op <;> first | exact append_nil _ | exact hop.elim
  synced := by
    refine .snoc (Or.inl h.synced) ?_
    rintro b rfl
    exact hop
  pending := h.pending

theorem failed_log (op : Op) : ∃ e ∈ (s.log op false).trace, e.ok = false :=
  ⟨⟨op, false⟩, by simp, rfl⟩

theorem perform_neutral (op : Op) (hy : y ≤ batches) (h : Clear n y s) (hop : op.Neutral) :
    wp (perform env op) (fun _ s' => Clear n y s' ∧ s.trace <+: s'.trace) (fun _ s' => Abandoned batches s') s := by
  rw [wp_perform]
  exact ⟨fun _ => ⟨h.neutral hop true, prefix_append _ _⟩,
    fun _ => ⟨⟨n, y, hy, (h.neutral hop false).accounted⟩, failed_log op⟩⟩

theorem postBounded_spec (hy : y ≤ batches) (h : Clear n y s) :
    wp (postBounded env onDevice arenas n) (fun _ s' => Posted n y s' ∧ s.trace <+: s'.trace)
      (fun _ s' => Abandoned batches s') s := by
  have hpost : ∀ s', Clear n y s' → s.trace <+: s'.trace →
      wp (do perform env (.post (n % arenas) n); modify ({ · with pending := some n }))
        (fun _ s' => Posted n y s' ∧ s.trace <+: s'.trace) (fun _ s' => Abandoned batches s') s' := by
    intro s' h' hsub
    have hok : ∀ ok, Allowed s'.trace ⟨.post (n % arenas) n, ok⟩ :=
      fun ok => h'.tracks.allowed_fill h'.synced (by simp) (by simp)
    rw [wp_bind, wp_perform]
    constructor
    · intro _
      refine ⟨⟨?_, .snoc (Or.inl h'.synced) (by simp), rfl⟩, hsub.trans (prefix_append _ _)⟩
      exact h'.tracks.snoc (hok true) range_succ.symm (append_nil _) (append_nil _)
    · intro _
      refine ⟨⟨n, y, hy, .inl ⟨h'.pending, ?_⟩⟩, failed_log _⟩
      exact h'.tracks.snoc (hok false) (append_nil _) (append_nil _) (append_nil _)
  unfold postBounded
  refine wp_bind.2 ((perform_neutral env (.carve (n % arenas) n) hy h trivial).mono ?_ (fun _ _ => id))
  rintro - s₁ ⟨h₁, hsub₁⟩
  refine wp_bind.2 ((perform_neutral env (.zero (n % arenas)) hy h₁ trivial).mono ?_ (fun _ _ => id))
  rintro - s₂ ⟨h₂, hsub₂⟩
  refine wp_ite.2 ⟨fun _ => wp_bind.2 ((perform_neutral env .synchronize hy h₂ trivial).mono ?_ (fun _ _ => id)), fun _ => ?_⟩
  · rintro - s₃ ⟨h₃, hsub₃⟩
    exact hpost s₃ h₃ ((hsub₁.trans hsub₂).trans hsub₃)
  · exact hpost s₂ h₂ (hsub₁.trans hsub₂)

theorem postWhen_spec (c : Prop) [Decidable c] (hy : y ≤ batches) (h : Clear n y s) :
    wp (postWhen env onDevice arenas c n)
      (fun _ s' => (if c then Posted n y s' else Clear n y s') ∧ s.trace <+: s'.trace)
      (fun _ s' => Abandoned batches s') s := by
  unfold postWhen
  split_ifs with hc
  · exact postBounded_spec env onDevice arenas hy h
  · exact ⟨h, prefix_refl _⟩

theorem completeStage_spec (hn : n ≤ batches) (h : Tracks s.trace (n + 1) n n) (hs : Synced s.trace)
    (hp : s.pending = none) :
    wp (completeStage env n) (fun _ s' => Clear (n + 1) n s' ∧ ⟨.await n, true⟩ ∈ s'.trace)
      (fun _ s' => Abandoned batches s') s := by
  have hawait : ∀ ok, Clear (n + 1) n (s.log (.await n) ok) := fun ok => {
    tracks := h.await ok
    synced := .snoc (Or.inl hs) (by simp)
    pending := hp }
  rw [completeStage, wp_bind, wp_perform]
  refine ⟨fun _ => ?_, fun _ => ⟨⟨n + 1, n, hn, (hawait false).accounted⟩, failed_log _⟩⟩
  refine (perform_neutral env (.complete n) hn (hawait true) trivial).mono ?_ (fun _ _ => id)
  rintro - s' ⟨h', hsub⟩
  exact ⟨h', hsub.subset (by simp)⟩

theorem Accounted.snoc {ok : Bool} (h : Accounted n y s) (hok : Allowed s.trace ⟨op, ok⟩)
    (hp : posts [⟨op, ok⟩] = []) (ha : awaits [⟨op, ok⟩] = [])
    (hy : List.range y ++ yields [⟨op, ok⟩] = List.range y') : Accounted n y' (s.log op ok) := by
  have happ : ∀ l : List ℕ, l ++ [] = l := append_nil
  obtain ⟨hpend, ht⟩ | ⟨hpend, ht⟩ := h
  · exact .inl ⟨hpend, ht.snoc hok (by rw [hp, happ]) (by rw [ha, happ]) hy⟩
  · exact .inr ⟨hpend, ht.snoc hok (by rw [hp, happ]) (by rw [ha, happ]) hy⟩

theorem yieldBatch_spec (hb : b < batches) (h : Accounted n b s) (hmem : ⟨.await b, true⟩ ∈ s.trace) :
    wp (yieldBatch env b) (fun _ s' => Accounted n (b + 1) s' ∧ s'.pending = s.pending)
      (fun _ s' => Abandoned batches s') s := by
  have hlog : ∀ ok, Accounted n (b + 1) (s.log (.yield b) ok) := by
    intro ok
    refine h.snoc ⟨fun _ hfill => hfill.elim, fun b' hsame => (by cases hsame), fun b' hsame => ?_⟩ rfl rfl
      range_succ.symm
    cases hsame
    exact hmem
  have hfail : Abandoned batches (s.log (.yield b) false) := ⟨⟨n, b + 1, hb, hlog false⟩, failed_log _⟩
  simp only [yieldBatch, wp_bind, wp_get]
  cases env.consumer s.trace with
  | resume => exact ⟨hlog true, rfl⟩
  | raise | close => exact hfail

theorem synchronize_spec (hy : y ≤ batches) (h : Accounted n y s) :
    wp (perform env .synchronize) (fun _ s' => Accounted n y s' ∧ Synced s'.trace ∧ s'.pending = s.pending)
      (fun _ s' => Abandoned batches s') s := by
  have hlog : ∀ ok, Accounted n y (s.log .synchronize ok) := fun ok =>
    h.snoc ⟨fun _ hfill => hfill.elim, by simp, by simp⟩ rfl rfl (append_nil _)
  rw [wp_perform]
  exact ⟨fun _ => ⟨hlog true, .snoc (Or.inr rfl) (by simp), rfl⟩, fun _ => ⟨⟨n, y, hy, hlog false⟩, failed_log _⟩⟩

theorem Accounted.posted (h : Accounted n y s) (hs : Synced s.trace) (hp : s.pending = some n) : Posted n y s := by
  obtain ⟨hnone, -⟩ | ⟨-, ht⟩ := h
  · simp [hp] at hnone
  · exact ⟨ht, hs, hp⟩

theorem Accounted.clear (h : Accounted n y s) (hs : Synced s.trace) (hp : s.pending = none) : Clear n y s := by
  obtain ⟨-, ht⟩ | ⟨hsome, -⟩ := h
  · exact ⟨ht, hs, hp⟩
  · simp [hp] at hsome

/-- The state in which the loop comes to a batch: its reads are in flight, or it is behind the last one. -/
def Turn (batches index : ℕ) (s : State) : Prop :=
  if index < batches then Posted index index s else Clear index index s

theorem iterFrom_spec (ha : arenas ≠ 0) (rest : ℕ) : ∀ {index s}, index + rest = batches → Turn batches index s →
    wp (iterFrom env onDevice arenas batches index rest) (fun _ s' => Clear batches batches s')
      (fun _ s' => Abandoned batches s') s := by
  induction rest with
  | zero =>
    intro index s hrest h
    obtain rfl : index = batches := hrest
    rwa [Turn, if_neg (lt_irrefl _)] at h
  | succ rest ih =>
    intro index s _ h
    have hlt : index < batches := by omega
    rw [Turn, if_pos hlt] at h
    simp only [iterFrom, wp_bind, wp_get, h.pending, wp_modify]
    refine (completeStage_spec (s := { s with pending := none }) env hlt.le h.tracks h.synced rfl).mono ?_
      (fun _ _ => id)
    rintro - s₁ ⟨h₁, hawait⟩
    refine (postWhen_spec env onDevice arenas (1 < arenas ∧ index + 1 < batches) hlt.le h₁).mono ?_ (fun _ _ => id)
    rintro - s₂ ⟨h₂, hpre⟩
    have hacc : Accounted (index + 1) index s₂ := by
      split_ifs at h₂
      · exact h₂.accounted
      · exact h₂.accounted
    refine (yieldBatch_spec env hlt hacc (hpre.subset hawait)).mono ?_ (fun _ _ => id)
    rintro - s₃ ⟨h₃, hp₃⟩
    refine (synchronize_spec env hlt h₃).mono ?_ (fun _ _ => id)
    rintro - s₄ ⟨h₄, hs₄, hp₄⟩
    -- with several arenas the next batch is in flight already; with one it is posted now
    by_cases hnext : 1 < arenas ∧ index + 1 < batches
    · rw [if_pos hnext] at h₂
      have h' := h₄.posted hs₄ (by rw [hp₄, hp₃, h₂.pending])
      have hone : ¬ (arenas = 1 ∧ index + 1 < batches) := by omega
      rw [postWhen, if_neg hone, wp_pure]
      refine ih (by omega) ?_
      rwa [Turn, if_pos hnext.2]
    · rw [if_neg hnext] at h₂
      have h' := h₄.clear hs₄ (by rw [hp₄, hp₃, h₂.pending])
      refine (postWhen_spec env onDevice arenas (arenas = 1 ∧ index + 1 < batches) hlt h').mono ?_ (fun _ _ => id)
      rintro - s₅ ⟨h₅, -⟩
      refine ih (by omega) ?_
      have hiff : (arenas = 1 ∧ index + 1 < batches) ↔ index + 1 < batches := by omega
      simpa only [Turn, hiff] using h₅

/-- What a run leaves: every read posted was awaited, and every batch was yielded unless something failed. -/
def Ended (batches : ℕ) (t : List Event) : Prop :=
  ∃ n, ∃ y ≤ batches, Tracks t n n y ∧ ((∀ e ∈ t, e.ok = true) → y = batches)

theorem drain_spec (hy : y ≤ batches) (h : Accounted n y s) (hf : (∀ e ∈ s.trace, e.ok = true) → y = batches) :
    ends (drain env) (fun s' => Ended batches s'.trace) s := by
  obtain ⟨hp, ht⟩ | ⟨hp, ht⟩ := h
  · have hend : Ended batches s.trace := ⟨n, y, hy, ht, hf⟩
    simp only [drain, invalidate, wp_bind, wp_get, wp_ite, wp_modify, hp, wp_pure]
    exact ⟨fun _ => hend, fun _ => hend⟩
  · have hend : ∀ ok, Ended batches (s.log (.await n) ok).trace := by
      intro ok
      refine ⟨n + 1, y, hy, ht.await ok, fun hall => hf fun e he => hall e ?_⟩
      exact mem_append_left _ he
    have hcatch : ∀ c : Prop, (c → Ended batches (s.log (.await n) false).trace) ∧
        (¬ c → Ended batches (s.log (.await n) false).trace) := fun c => ⟨fun _ => hend false, fun _ => hend false⟩
    simp only [drain, invalidate, wp_bind, wp_get, wp_ite, wp_modify, hp, wp_tryCatch, wp_perform, wp_pure, wp_throw]
    exact ⟨fun _ => ⟨fun _ => hend true, fun _ => hcatch _⟩, fun _ => ⟨fun _ => hend true, fun _ => hcatch _⟩⟩

theorem Abandoned.drained (h : Abandoned batches s) :
    ends (drain env) (fun s' => Ended batches s'.trace) s := by
  obtain ⟨⟨n, y, hy, hacc⟩, e, he, hfail⟩ := h
  refine drain_spec env hy hacc fun hall => ?_
  simp [hall e he] at hfail

theorem iterBounded_spec {active : Bool} (ha : active = true) (hn : arenas ≠ 0) (hb : batches ≠ 0) :
    ends (iterBounded env onDevice arenas batches active) (fun s' => Ended batches s'.trace) {} := by
  have hinit : Clear 0 0 {} := ⟨.nil, .nil, rfl⟩
  simp only [iterBounded, ha, hn, hb, not_true_eq_false, if_false, wp_tryFinally, wp_tryCatch, wp_bind, invalidate,
    wp_ite, wp_modify, wp_throw]
  have hcatch : ∀ (e : Raised) (s : State), Abandoned batches s →
      (e ≠ .generatorExit → ends (drain env) (fun s' => Ended batches s'.trace)
        { s with unwinding := true, cached := false }) ∧
      (¬ e ≠ .generatorExit →
        ends (drain env) (fun s' => Ended batches s'.trace) s) :=
    fun e s h => ⟨fun _ => Abandoned.drained env ⟨h.accounted, h.failed⟩, fun _ => h.drained env⟩
  refine (postBounded_spec env onDevice arenas (Nat.zero_le batches) hinit).mono ?_ hcatch
  rintro - s₁ ⟨h₁, -⟩
  have hturn : Turn batches 0 s₁ := by rwa [Turn, if_pos (Nat.pos_of_ne_zero hb)]
  refine (iterFrom_spec env onDevice arenas hn batches (Nat.zero_add _) hturn).mono ?_ hcatch
  intro _ s₂ h₂
  exact drain_spec env le_rfl (.inl ⟨h₂.pending, h₂.tracks⟩) fun _ => rfl

/-- An arena is filled only when its reads have been awaited and its batches committed; the batches are
    yielded in order, each after its reads; at the end every read has been awaited, once. -/
theorem arenas_reused_safely (active : Bool) (batches : ℕ) :
    Throughout Allowed (runTrace env onDevice arenas batches active) ∧
      (∃ y ≤ batches, yields (runTrace env onDevice arenas batches active) = List.range y) ∧
      awaits (runTrace env onDevice arenas batches active) = posts (runTrace env onDevice arenas batches active) ∧
      (posts (runTrace env onDevice arenas batches active)).Nodup ∧
      (active = true → arenas ≠ 0 → (∀ e ∈ runTrace env onDevice arenas batches active, e.ok = true) →
        yields (runTrace env onDevice arenas batches active) = List.range batches) := by
  generalize ht : runTrace env onDevice arenas batches active = t
  rw [runTrace] at ht
  by_cases hrun : active = true ∧ arenas ≠ 0 ∧ batches ≠ 0
  · obtain ⟨ha, hn, hb⟩ := hrun
    obtain ⟨n, y, hy, ht, hall⟩ := ht ▸ (iterBounded_spec env onDevice arenas ha hn hb).final
    refine ⟨ht.allowed, ⟨y, hy, ht.yields_eq⟩, ht.awaits_eq.trans ht.posts_eq.symm, ?_, fun _ _ hok => ?_⟩
    · rw [ht.posts_eq]
      exact nodup_range
    · rw [ht.yields_eq, hall hok]
  · -- the generator raises before it does anything
    have hraise : ends (iterBounded env onDevice arenas batches active) (fun s' => s'.trace = []) {} := by
      simp only [iterBounded, wp_ite, wp_bind, wp_throw, implies_true, true_and, not_not]
      intro ha hn hb
      exact absurd ⟨ha, hn, hb⟩ hrun
    have hnil : t = [] := ht ▸ hraise.final
    rw [hnil]
    refine ⟨throughout_nil, ⟨0, Nat.zero_le _, rfl⟩, rfl, nodup_nil, fun ha hn _ => ?_⟩
    obtain rfl : batches = 0 := by
      by_contra hb
      exact hrun ⟨ha, hn, hb⟩
    rfl

end

end ModelExpress.Reshard.Streaming
