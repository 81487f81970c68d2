/-
  ModelExpress generator — the client of one rank (`inference/client.py`). While a handle is applied, the
  runtime tensors are unpublished.
-/
import ModelExpress.Generator.Session
import ModelExpress.Lib.Run

namespace ModelExpress.Generator

open Effects

section
variable {W : Type} (world : World W) (config : Config)

def unpublish : Updating W Unit :=
  if config.publishes then
    callWith world .unpublish fun ok s => if ok ∨ world.takes s.trace then { s with published := none } else s
  else pure ()

def publish (version : String) : Updating W Unit :=
  if config.publishes then
    callWith world (.publish version) fun ok s =>
      if ok ∨ world.takes s.trace then { s with published := some version } else s
  else pure ()

/-- An installer of which it is known only that the engine holds the target when it returns. -/
def installTarget (update : SessionUpdate) : Updating W Unit :=
  callWith world (.install update.version) fun ok s =>
    { s with engine := if ok then world.weights update.version else world.junk s.trace }

variable (s : State W)

def State.installationFailed (handle : StagedWeightHandle) : Bool :=
  (handle.update.bind (s.updates[·]?)).any fun update => update.installationStarted && !update.applied

def State.isReleased (handle : StagedWeightHandle) : Bool :=
  (handle.update.bind (s.updates[·]?)).all (·.released)

/-- `_release_staged`, of the active handle: its slot is freed once the update is released. -/
def releaseStaged (handle : StagedWeightHandle) : Updating W Unit :=
  tryFinally
    (match handle.update with
      | some i => releaseUpdate world i
      | none => pure ())
    (modify fun s : State W => if s.isReleased handle then { s with activeHandle := none } else s)

def addHandle (versionId : String) (update : Option ℕ) : Updating W Unit :=
  modify fun s => { s with activeHandle := some ⟨s.handles, versionId, update⟩, handles := s.handles + 1 }

/-- `stage_weight` with no active handle. -/
def stageFresh (version : String) : Updating W Unit := do
  let s ← get
  call world (.getWeightVersion version)
  if config.hasInitial ∧ s.servingVersionId = some version ∧ s.ready then
    addHandle version none
  else
    let i ← stage world config version config.sourceOrder
    addHandle version (some i)

def stageWeight (version : String) : Updating W Unit := do
  let s ← get
  match s.activeHandle with
  | none => stageFresh world config version
  | some handle =>
    if s.installationFailed handle then
      releaseStaged world handle
      stageFresh world config version
    else if handle.versionId = version then return
    else throw .runtime

/-- The version served before, in `s`, is published again; an exception of it is swallowed. -/
def restore : Updating W Unit :=
  match s.servingVersionId with
  | some restored =>
    if s.ready then tryCatch (publish world config restored) fun _ => return
    else pure ()
  | none => pure ()

/-- The installation of a handle's update that has not been applied, with the tensors unpublished around it. -/
def applyFresh (handle : StagedWeightHandle) (i : ℕ) : Updating W Unit := do
  let s ← get
  unpublish world config
  tryCatch (applyUpdate world (installTarget world) i) fun e => do
    if (← get).installationFailed handle then modify fun s : State W => { s with ready := false }
    else restore world config s
    throw e
  modify fun s : State W => { s with servingVersionId := some handle.versionId, ready := true }
  tryCatch (publish world config handle.versionId) fun _ => return

def applyWeight (id : ℕ) : Updating W Unit := do
  match (← get).activeHandle with
  | none => throw .runtime
  | some handle =>
    if handle.id ≠ id then throw .runtime
    match handle.update with
    | none => return
    | some i =>
      let update ← theUpdate i
      if update.released then throw .runtime
      if update.installationStarted ∧ ¬ update.applied then throw .runtime
      if update.applied then
        -- the session hands back what it kept
        modify fun s : State W => { s with servingVersionId := some handle.versionId, ready := true }
      else applyFresh world config handle i

def release (id : ℕ) : Updating W Unit := do
  match (← get).activeHandle with
  | none => return
  | some handle => if handle.id = id then releaseStaged world handle

inductive Call where
  | stage (version : String)
  | apply (id : ℕ)
  | release (id : ℕ)
  deriving DecidableEq

def Call.perform : Call → Updating W Unit
  | .stage version => stageWeight world config version
  | .apply id => applyWeight world config id
  | .release id => Generator.release world id

def afterCall (c : Call) : State W := final (c.perform world config) s

end

end ModelExpress.Generator
