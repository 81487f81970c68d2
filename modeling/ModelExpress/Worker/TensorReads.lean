/-
  ModelExpress client — leases on the tensors that peers read (`metadata/worker_server.py`).

  A section that holds the condition's lock is one step; a `drain` that waits has left it and
  goes on at its next wake-up.
-/
import ModelExpress.Lib.Run

namespace ModelExpress.Worker

open Run List

inductive Drain where
  | called (deadline : ℤ)
  | waiting (deadline : ℤ)
  | returned
  | timedOut
  deriving DecidableEq

/-- `_TensorReadLeases`, and the calls of `drain`. -/
structure TensorReadLeases where
  accepting : Bool
  leases : List (String × ℤ)
  drains : List Drain
  deriving DecidableEq

/-- A step; `now` is the clock that `_drop_expired_locked` reads, `now'` the next reading. -/
inductive Event where
  | prepare (timeoutSeconds : ℤ) (leaseId : String) (now now' : ℤ)
  | release (leaseId : String) (now : ℤ)
  | callDrain (timeout now : ℤ)
  /-- The `i`th drain takes the lock, for the first time or after a wait. -/
  | goOn (i : ℕ) (now now' : ℤ)
  deriving DecidableEq

namespace TensorReadLeases

def init : TensorReadLeases := ⟨true, [], []⟩

variable (s : TensorReadLeases)

def dropExpired (now : ℤ) : TensorReadLeases := { s with leases := s.leases.filter (now < ·.2) }

/-- `prepare` and the lease it returns; `none` if it raises. -/
def prepare (timeoutSeconds : ℤ) (leaseId : String) (now now' : ℤ) : TensorReadLeases × Option String :=
  if timeoutSeconds ≤ 0 then (s, none)
  else
    let s := s.dropExpired now
    if s.accepting = false then (s, none)
    else ({ s with leases := s.leases.filter (·.1 ≠ leaseId) ++ [(leaseId, now' + timeoutSeconds)] }, some leaseId)

/-- The loop of `drain` up to its next wait or its end. -/
def loop (i : ℕ) (deadline now now' : ℤ) : TensorReadLeases :=
  if s.leases = [] then { s with drains := s.drains.set i .returned }
  else
    let s := s.dropExpired now
    if s.leases = [] then { s with drains := s.drains.set i .returned }
    else if deadline - now' ≤ 0 then { s with accepting := true, drains := s.drains.set i .timedOut }
    else { s with drains := s.drains.set i (.waiting deadline) }

def step : Event → TensorReadLeases
  | .prepare timeoutSeconds leaseId now now' => (s.prepare timeoutSeconds leaseId now now').1
  | .release leaseId now => { s with leases := (s.dropExpired now).leases.filter (·.1 ≠ leaseId) }
  | .callDrain timeout now => if timeout < 0 then s else { s with drains := s.drains ++ [.called (now + timeout)] }
  | .goOn i now now' =>
    match s.drains[i]? with
    | some (.called deadline) => { s with accepting := false }.loop i deadline now now'
    | some (.waiting deadline) => s.loop i deadline now now'
    | _ => s

/-- A drain that times out is the only one that waits. -/
def LoneTimeout (e : Event) : Prop :=
  ∀ i : ℕ, s.drains[i]? ≠ some .timedOut → (s.step e).drains[i]? = some .timedOut →
    ∀ (j : ℕ) deadline, s.drains[j]? = some (.waiting deadline) → j = i

/-- While a drain waits the object refuses leases, and once one has returned there are none. -/
structure Draining (s : TensorReadLeases) : Prop where
  waiting : ∀ (i : ℕ) deadline, s.drains[i]? = some (.waiting deadline) → s.accepting = false
  returned : ∀ i : ℕ, s.drains[i]? = some .returned → s.accepting = false ∧ s.leases = []

variable {s : TensorReadLeases} {e : Event} {i : ℕ}

theorem getElem?_set_cases {drains : List Drain} {j : ℕ} {d d' : Drain} (h : (drains.set i d)[j]? = some d') :
    d' = d ∨ j ≠ i ∧ drains[j]? = some d' := by
  rw [getElem?_set] at h
  split_ifs at h with heq hlt
  · exact .inl (Option.some.inj h).symm
  · exact .inr ⟨Ne.symm heq, h⟩

theorem Draining.leases (h : Draining s) {leases : List (String × ℤ)}
    (hleases : s.accepting = false → s.leases = [] → leases = []) : Draining { s with leases } where
  waiting := h.waiting
  returned i hi := ⟨(h.returned i hi).1, hleases (h.returned i hi).1 (h.returned i hi).2⟩

theorem Draining.prepare (h : Draining s) (timeoutSeconds : ℤ) (leaseId : String) (now now' : ℤ) :
    Draining (s.prepare timeoutSeconds leaseId now now').1 := by
  unfold TensorReadLeases.prepare dropExpired
  dsimp only
  split_ifs with htimeout haccepting
  · exact h
  · exact h.leases fun _ hnone => by rw [hnone, filter_nil]
  · exact h.leases fun hrefuses => absurd hrefuses haccepting

theorem Draining.loop {deadline now now' : ℤ} (h : Draining s) (haccepting : s.accepting = false)
    (hi : i < s.drains.length)
    (hlone : (s.loop i deadline now now').drains[i]? = some .timedOut →
      ∀ (j : ℕ) deadline, s.drains[j]? = some (.waiting deadline) → j = i) : Draining (s.loop i deadline now now') := by
  unfold TensorReadLeases.loop dropExpired at hlone ⊢
  dsimp only at hlone ⊢
  split_ifs at hlone ⊢ with hnone hnone' htime
  · exact ⟨fun _ _ _ => haccepting, fun _ _ => ⟨haccepting, hnone⟩⟩
  · exact ⟨fun _ _ _ => haccepting, fun _ _ => ⟨haccepting, hnone'⟩⟩
  · -- leases are left, so that no drain has returned; and no other one waits
    replace hlone := hlone (by simp [hi])
    refine ⟨fun j dl hj => ?_, fun j hj => ?_⟩
    · rcases getElem?_set_cases hj with heq | ⟨hne, hj⟩
      · cases heq
      · exact absurd (hlone j dl hj) hne
    · rcases getElem?_set_cases hj with heq | ⟨-, hj⟩
      · cases heq
      · exact absurd (h.returned j hj).2 hnone
  · refine ⟨fun _ _ _ => haccepting, fun j hj => ?_⟩
    rcases getElem?_set_cases hj with heq | ⟨-, hj⟩
    · cases heq
    · exact absurd (h.returned j hj).2 hnone

theorem Draining.step (h : Draining s) (hlone : LoneTimeout s e) : Draining (s.step e) := by
  cases e with
  | prepare timeoutSeconds leaseId now now' => exact h.prepare timeoutSeconds leaseId now now'
  | release => exact h.leases fun _ hnone => by simp [dropExpired, hnone]
  | callDrain timeout now =>
    dsimp only [TensorReadLeases.step]
    split_ifs
    · exact h
    · -- the new drain neither waits nor has it returned
      have hold : ∀ {j : ℕ} {d : Drain}, (s.drains ++ [.called (now + timeout)])[j]? = some d →
          d = .called (now + timeout) ∨ s.drains[j]? = some d := by
        intro j d hj
        rw [getElem?_append] at hj
        split_ifs at hj
        · exact .inr hj
        · exact .inl (mem_singleton.1 (mem_of_getElem? hj))
      refine ⟨fun j deadline hj => ?_, fun j hj => ?_⟩
      · exact h.waiting j deadline ((hold hj).resolve_left (by simp))
      · exact h.returned j ((hold hj).resolve_left (by simp))
  | goOn i now now' =>
    unfold LoneTimeout at hlone
    dsimp only [TensorReadLeases.step] at hlone ⊢
    split at hlone
    · rename_i deadline hi
      have hclosed : Draining { s with accepting := false } := ⟨fun _ _ _ => rfl, fun j hj => ⟨rfl, (h.returned j hj).2⟩⟩
      exact hclosed.loop rfl (List.getElem?_eq_some_iff.1 hi).1 (hlone i (by simp [hi]))
    · rename_i deadline hi
      exact h.loop (h.waiting i deadline hi) (List.getElem?_eq_some_iff.1 hi).1 (hlone i (by simp [hi]))
    · exact h

theorem returned_step (h : s.drains[i]? = some .returned) : (s.step e).drains[i]? = some .returned := by
  have hset : ∀ {j : ℕ} {d d' : Drain}, s.drains[j]? = some d' → d' ≠ .returned →
      (s.drains.set j d)[i]? = some .returned := by
    intro j d d' hj hd'
    rw [getElem?_set_ne, h]
    rintro rfl
    exact hd' (Option.mem_unique hj h)
  fun_cases TensorReadLeases.step s e
  case case1 =>
    dsimp only [TensorReadLeases.prepare]
    split_ifs <;> exact h
  case case4 => exact List.getElem?_append_left (List.getElem?_eq_some_iff.1 h).1 ▸ h
  case case5 hj | case6 hj =>
    unfold TensorReadLeases.loop dropExpired
    dsimp only
    split_ifs <;> exact hset hj (by simp)
  all_goals exact h

/-- **A drain that returns has stopped the readers**, from then on, if no drain has timed out while another one
    was waiting: there is no lease, and none can be had. -/
theorem lone_drain_holds {es pre later : List Event} (h : Along step init LoneTimeout es) {i : ℕ}
    (hreturned : (run step init pre).drains[i]? = some .returned) (hpre : pre <+: later) (hlater : later <+: es) :
    (run step init later).leases = [] ∧ (run step init later).accepting = false ∧
      ∀ timeoutSeconds leaseId now now', ((run step init later).prepare timeoutSeconds leaseId now now').2 = none := by
  have hinv : Draining (run step init later) :=
    invariant_along ⟨by simp [init], by simp [init]⟩ (fun s e hlone hs => hs.step hlone) (h.restrict hlater)
  have hstays : (run step init later).drains[i]? = some .returned :=
    stable (P := fun s : TensorReadLeases => s.drains[i]? = some .returned) (fun _ _ => returned_step) hpre hreturned
  obtain ⟨hrefuses, hnone⟩ := hinv.returned i hstays
  refine ⟨hnone, hrefuses, fun _ _ now now' => ?_⟩
  simp only [prepare, dropExpired, hrefuses, if_true]
  split_ifs <;> rfl

def oneDrain : List Event :=
  [.prepare 100 "reader" 0 0, .callDrain 50 1, .goOn 0 1 1, .release "reader" 9, .goOn 0 10 10]

theorem oneDrain_drained : (run step init oneDrain).accepting = false :=
  have hlone : Along step init LoneTimeout oneDrain :=
    along_of_check (fun s e => !(s.step e).drains.contains .timedOut)
      (fun s e h i _ hi => by simp_all [mem_of_getElem? hi]) (by decide)
  (lone_drain_holds hlone (i := 0) (by decide) (prefix_refl oneDrain) (prefix_refl _)).2.1

def twoDrains : List Event :=
  [.prepare 100 "reader" 0 0, .callDrain 50 1, .goOn 0 1 1, .callDrain 5 2, .goOn 1 2 2, .goOn 1 8 8, .release "reader" 9,
   .goOn 0 10 10]

/-- The first drain returns, and the next reader gets a lease. -/
theorem twoDrains_accepting :
    (run step init twoDrains).drains[0]? = some .returned ∧
      ((run step init twoDrains).prepare 100 "late" 11 11).2 = some "late" := by decide

end TensorReadLeases

end ModelExpress.Worker
