/-
  ModelExpress refit control plane — what a create request finds under its idempotency key.

  Both keys are made of the model name and the request's key with a colon between them, so
  two pairs share a key when the colon can be read at another place.
-/
import ModelExpress.Refit.Readiness

namespace ModelExpress.Refit

open List

/-- The pair a create request is known by: of a mesh or of a version, for a model, under a key. -/
structure Scope where
  mesh : Bool
  modelName : String
  requestKey : String
  deriving DecidableEq

def Scope.key (scope : Scope) : String :=
  if scope.mesh then meshIdempotencyKey scope.modelName scope.requestKey
  else idempotencyKey scope.modelName scope.requestKey

def Event.scope : Event → Option Scope
  | .createTrainerMesh request .. => some ⟨true, request.modelName, request.idempotencyKey⟩
  | .createWeightVersion request .. => some ⟨false, request.modelName, request.idempotencyKey⟩
  | _ => none

def Store.found (s : Store) (scope : Scope) : Option String :=
  if scope.mesh then s.meshRequests scope.key else s.versionRequests scope.key

section
variable {sha256 : List UInt8 → List UInt8}

theorem Change.found {s s' : Store} {e : Event} {reply : Reply} (hc : Change sha256 s e reply s') (scope : Scope) :
    s'.found scope = s.found scope ∨ ∃ scope', e.scope = some scope' ∧ scope'.mesh = scope.mesh ∧
      scope'.key = scope.key := by
  cases hc with
  | @meshCreated _ _ _ _ _ request =>
    by_cases hkey : scope.mesh = true ∧ meshIdempotencyKey request.modelName request.idempotencyKey = scope.key
    · exact .inr ⟨_, rfl, hkey.1.symm, hkey.2⟩
    · refine .inl ?_
      unfold Store.found
      cases hmesh : scope.mesh with
      | true => exact Function.update_of_ne (fun h => hkey ⟨hmesh, h.symm⟩) ..
      | false => rfl
  | @versionCreated _ _ _ request =>
    by_cases hkey : scope.mesh = false ∧ idempotencyKey request.modelName request.idempotencyKey = scope.key
    · exact .inr ⟨_, rfl, hkey.1.symm, hkey.2⟩
    · refine .inl ?_
      unfold Store.found
      cases hmesh : scope.mesh with
      | true => rfl
      | false => exact Function.update_of_ne (fun h => hkey ⟨hmesh, h.symm⟩) ..
  | _ => exact .inl rfl

end

end ModelExpress.Refit
