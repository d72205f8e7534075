import SwiftRpc.Api.Basic
import SwiftRpc.Dictionary

/-!
# The registry of an API

Models, enumerations and services, each kind in the order in which it was added. A name is taken
once per kind; adding a second one is refused and changes nothing. A model is known by its position,
which never changes.

Models and enumerations are found through an index from their names to their positions, which grows
with them. Services are few and are searched.
-/

namespace SwiftRpc.Api

structure Registry where
  models : List Model := []
  modelIndex : Dictionary Nat := {}
  enums : List Enumeration := []
  enumIndex : Dictionary Nat := {}
  services : List Service := []
deriving DecidableEq

inductive RegistryError where
  | duplicateModel (name : String)
  | duplicateEnum (name : String)
  | duplicateService (fullName : String)
deriving DecidableEq

def RegistryError.message : RegistryError → String
  | duplicateModel name => "duplicate model: " ++ name
  | duplicateEnum name => "duplicate enum: " ++ name
  | duplicateService name => "duplicate service: " ++ name

namespace Registry

def empty : Registry := {}

def modelCount (r : Registry) : Nat := r.models.length

def modelNames (r : Registry) : List String := r.models.map (·.name)

def enumNames (r : Registry) : List String := r.enums.map (·.name)

def serviceNames (r : Registry) : List String := r.services.map (·.fullName)

def modelId? (r : Registry) (name : String) : Option Nat := r.modelIndex.get? name

def model? (r : Registry) (name : String) : Option Model := do
  let id ← r.modelId? name
  r.models[id]?

def enumeration? (r : Registry) (name : String) : Option Enumeration := do
  let id ← r.enumIndex.get? name
  r.enums[id]?

def service? (r : Registry) (fullName : String) : Option Service :=
  r.services.find? (·.fullName = fullName)

def pushModel (r : Registry) (m : Model) : Registry :=
  { r with
    models := r.models ++ [m]
    modelIndex := r.modelIndex.insert m.name r.modelCount }

def pushEnum (r : Registry) (e : Enumeration) : Registry :=
  { r with
    enums := r.enums ++ [e]
    enumIndex := r.enumIndex.insert e.name r.enums.length }

def pushService (r : Registry) (s : Service) : Registry :=
  { r with services := r.services ++ [s] }

/-- Answers the new model's position as well. -/
def addModel (r : Registry) (m : Model) : Except RegistryError (Nat × Registry) :=
  if (r.modelId? m.name).isSome then .error (.duplicateModel m.name)
  else .ok (r.modelCount, r.pushModel m)

def addEnum (r : Registry) (e : Enumeration) : Except RegistryError Registry :=
  if (r.enumIndex.get? e.name).isSome then .error (.duplicateEnum e.name)
  else .ok (r.pushEnum e)

def addService (r : Registry) (s : Service) : Except RegistryError Registry :=
  if r.services.any (·.fullName = s.fullName) then .error (.duplicateService s.fullName)
  else .ok (r.pushService s)

end Registry

end SwiftRpc.Api
