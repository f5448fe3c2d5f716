/-
  VeiledLedger.Registry.Failure — why a registration, a look-up or a conversion fails.
-/

import VeiledLedger.Component

namespace VeiledLedger

inductive RegistryError where
  | duplicateType (name : String) (existing : TypeId)
  | duplicateId (id : TypeId) (name existing : String)
  | reservedId (id : TypeId)
  | duplicateMember (family name : String)
  | duplicateFamily (family : String)
  | idOverflow (family : String) (firstId : TypeId)
  | unknownType (name : String)
  | unknownId (id : TypeId)
  | missingChainStart (family : String)
  | unreachableVersion (family member start : String)
  | cyclicUpgrade (family member : String)
  | unknownPredecessor (family member source : String)
  | branchingUpgrade (family source : String)
  | noUpgradePath (source target : String)
  | truncated (expected actual : Nat)
  /-- The length of a serialized value of the type runs over a 64-bit word while it is counted. The
      reader breaks down before it looks at a byte, so this is no answer about the bytes. -/
  | lengthOverflow (name : String)
  | layout (cause : LayoutError)
  deriving DecidableEq, Repr

namespace RegistryError

def idText (id : TypeId) : String := toString id.toNat

def message : RegistryError → String
  | duplicateType name existing => "type " ++ name ++ " is already registered with id " ++ idText existing
  | duplicateId id name existing =>
    "id " ++ idText id ++ " is already registered for " ++ existing ++ " (while registering " ++ name ++ ")"
  | reservedId id => "id " ++ idText id ++ " is reserved for builtin components"
  | duplicateMember family name => "version family " ++ family ++ " declares " ++ name ++ " more than once"
  | duplicateFamily family => "version family " ++ family ++ " is already registered"
  | idOverflow family first =>
    "version family " ++ family ++ " does not fit in the id space after " ++ idText first
  | unknownType name => "type " ++ name ++ " is not registered"
  | unknownId id => "no serializer registered for id " ++ idText id
  | missingChainStart family => "version family " ++ family ++ " has no initial version"
  | unreachableVersion family member start =>
    "version family " ++ family ++ ": " ++ member ++ " is not reachable from initial version " ++ start
  | cyclicUpgrade family member =>
    "version family " ++ family ++ ": upgrade relation contains a cycle through " ++ member
  | unknownPredecessor family member source =>
    "version family " ++ family ++ ": " ++ member ++ " upgrades from " ++ source ++ ", which is not a member"
  | branchingUpgrade family source =>
    "version family " ++ family ++ ": more than one version upgrades from " ++ source
  | noUpgradePath source target => source ++ " cannot be upgraded to " ++ target
  | truncated expected actual =>
    "serialized component has " ++ toString actual ++ " bytes, expected at least " ++ toString expected
  | lengthOverflow name => "serialized length of " ++ name ++ " overflows"
  | layout cause => cause.message

def breaksDown : RegistryError → Bool
  | lengthOverflow _ => true
  | layout cause => cause.breaksDown
  | _ => false

end RegistryError

end VeiledLedger
