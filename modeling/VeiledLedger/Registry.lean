/-
  VeiledLedger.Registry — registered types, found by name and by id.

  A registry starts with the builtin components. Types and version families are added to it;
  each addition checks all its names and ids before anything is kept, so a failed addition
  leaves no trace and nothing is ever overwritten.
-/

import VeiledLedger.Registry.Family

namespace VeiledLedger

structure Registration where
  name : String
  id : TypeId
  layout : Layout
  /-- Marker of the family and place in its upgrade order. -/
  version : Option (String × Nat)

namespace Registration

/-- The length of a serialized value, its id included, if it fits a 64-bit word. -/
def wireSize? (r : Registration) : Option Nat := do word? (4 + (← r.layout.size?))

end Registration

structure Registry where
  /-- In the order of their registration. -/
  types : List Registration
  /-- For each version but the first: its name, the version before it and the conversion. -/
  conversions : List (String × String × Conversion)
  /-- Each marker with the names of its versions in upgrade order. -/
  families : List (String × List String)
  commands : List UpgradeCommand

namespace Registry

def builtinType (α : Type) [Component α] : Registration :=
  ⟨Component.typeName α, Component.id α, Component.layout α, none⟩

/-- The registry of the builtin components. -/
def builtin : Registry where
  types := [builtinType StatePointer, builtinType Digest, builtinType Party, builtinType TimeWindow,
    builtinType Signer]
  conversions := []
  families := []
  commands := []

def findName? (r : Registry) (name : String) : Option Registration := r.types.find? (·.name = name)

def findId? (r : Registry) (id : TypeId) : Option Registration := r.types.find? (·.id = id)

/-- Adds one registration under a new name and a new id. -/
def insert (types : List Registration) (new : Registration) : Except RegistryError (List Registration) :=
  match types.find? (·.name = new.name) with
  | some old => .error (.duplicateType new.name old.id)
  | none =>
    match types.find? (·.id = new.id) with
    | some old => .error (.duplicateId new.id new.name old.name)
    | none => .ok (types ++ [new])

/-- Adds the registrations one after another; the first that collides refuses them all. -/
def insertAll (types : List Registration) : List Registration → Except RegistryError (List Registration)
  | [] => .ok types
  | new :: news => do insertAll (← insert types new) news

/-- Registers one type. -/
def register (r : Registry) (name : String) (id : TypeId) (layout : Layout) : Except RegistryError Registry :=
  if id ≤ reservedIds then .error (.reservedId id)
  else do return { r with types := ← insertAll r.types [⟨name, id, layout, none⟩] }

/-- The registrations of `chain`, whose first member stands at place `k` of the family and has
    the id `first + k`. -/
def versionTypes (marker : String) (first : TypeId) (k : Nat) :
    List VersionedType → Except RegistryError (List Registration)
  | [] => .ok []
  | m :: ms =>
    if 2 ^ 32 ≤ first.toNat + k then .error (.idOverflow marker first)
    else
      let id := UInt32.ofNat (first.toNat + k)
      if id ≤ reservedIds then .error (.reservedId id)
      else do return ⟨m.name, id, m.layout, some (marker, k)⟩ :: (← versionTypes marker first (k + 1) ms)

/-- The commands between neighbours of a chain, three for each pair. -/
def chainCommands [Hasher] : List VersionedType → List UpgradeCommand
  | a :: b :: rest =>
    UpgradeVisibility.all.map (UpgradeCommand.make a.name b.name) ++ chainCommands (b :: rest)
  | _ => []

/-- A command carries nothing but its id. -/
def commandType (c : UpgradeCommand) : Registration := ⟨c.name, c.id, .struct [], none⟩

/-- Registers all versions of a family under ids that count up from `first` in upgrade order,
    and the upgrade commands between them. -/
def registerFamily [Hasher] (r : Registry) (family : VersionFamily) (first : TypeId) :
    Except RegistryError Registry :=
  if (r.families.map (·.1)).contains family.marker then .error (.duplicateFamily family.marker)
  else do
    let chain ← family.ordered
    let versions ← versionTypes family.marker first 0 chain
    let commands := chainCommands chain
    let types ← insertAll r.types (versions ++ commands.map commandType)
    return {
      types
      conversions := r.conversions ++ chain.filterMap (fun m => m.upgradesFrom.map (fun u => (m.name, u)))
      families := r.families ++ [(family.marker, chain.map (·.name))]
      commands := r.commands ++ commands }

/-! ## Looking up -/

def lookup (r : Registry) (id : TypeId) : Except RegistryError Registration :=
  match r.findId? id with
  | some t => .ok t
  | none => .error (.unknownId id)

def identify (r : Registry) (name : String) : Except RegistryError TypeId :=
  match r.findName? name with
  | some t => .ok t.id
  | none => .error (.unknownType name)

def lookupName (r : Registry) (name : String) : Except RegistryError Registration := do
  r.lookup (← r.identify name)

/-- The versions of a family in upgrade order. -/
def family? (r : Registry) (marker : String) : Option (List String) :=
  (r.families.find? (·.1 = marker)).map (·.2)

/-! ## The registry as messages show it -/

def renderGrowing (r : Registry) : String :=
  "RegistryBuilder \x7b registered: " ++ toString r.types.length ++ ", .. \x7d"

/-- Families are named in the order of their markers. -/
def render (r : Registry) : String :=
  let markers := (r.families.map (·.1)).mergeSort (fun a b => !(b < a))
  "SerializerRegistry \x7b types: " ++ toString r.types.length ++ ", families: [" ++
    String.intercalate ", " (markers.map Text.Quoted.string) ++ "] \x7d"

end Registry

end VeiledLedger
