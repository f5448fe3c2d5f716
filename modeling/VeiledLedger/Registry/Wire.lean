/-
  VeiledLedger.Registry.Wire — serialized values, and conversion between versions.

  A serialized value is the id of its type in four bytes and the value in the layout of that
  type, so a reader needs nothing beyond the registry. A value of a version family is
  converted forward one version at a time, and each converted value has to fit the layout of
  its version.
-/

import VeiledLedger.Layout.Decode
import VeiledLedger.Layout.Encode
import VeiledLedger.Registry
import VeiledLedger.Transaction

namespace VeiledLedger.Registry

def liftLayout {α : Type} (x : Except LayoutError α) : Except RegistryError α := x.mapError .layout

/-- The bytes of `v`; a value that does not fit is reported at `path`. -/
def serializeAt (r : Registry) (path : String) (v : TypedValue) : Except RegistryError Bytes := do
  let t ← r.lookup v.typeId
  let payload ← liftLayout (t.layout.encodeAt path v.value)
  return Bytes.ofNat 4 t.id.toNat ++ payload

def serialize (r : Registry) (v : TypedValue) : Except RegistryError Bytes := r.serializeAt "" v

def serializeComponent {α : Type} [Component α] (r : Registry) (path : String) (c : α) :
    Except RegistryError Bytes :=
  r.serializeAt path ⟨Component.id α, Component.toValue c⟩

/-- The value at the front of `b` and the number of bytes it takes. -/
def deserializePrefix (r : Registry) (b : Bytes) : Except RegistryError (TypedValue × Nat) :=
  if b.length < 4 then .error (.truncated 4 b.length)
  else do
    let t ← r.lookup (UInt32.ofNat (Bytes.toNat (b.take 4)))
    match t.wireSize? with
    | none => .error (.lengthOverflow t.name)
    | some n =>
      if b.length < n then .error (.truncated n b.length)
      else do
        let v ← liftLayout (t.layout.decode ((b.take n).drop 4))
        return (⟨t.id, v⟩, n)

/-- The value that all of `b` holds. -/
def deserialize (r : Registry) (b : Bytes) : Except RegistryError TypedValue := do
  let (v, n) ← r.deserializePrefix b
  if n = b.length then return v else .error (.layout (.misfit "" (.otherSize n b.length)))

/-- The component at the front of `b`. -/
def deserializeComponent (α : Type) [Component α] (r : Registry) (b : Bytes) : Except RegistryError α := do
  let (v, _) ← r.deserializePrefix b
  if v.typeId = Component.id α then liftLayout (Component.ofValue α v.value)
  else .error (.layout (.misfit "" (.otherType (Component.typeName α))))

/-! ## Conversion between versions -/

/-- Converts `v` to each of the named versions in turn. -/
def convertThrough (r : Registry) (noPath : RegistryError) : List String → Value → Except RegistryError Value
  | [], v => .ok v
  | name :: names, v =>
    match r.conversions.find? (·.1 = name) with
    | none => .error noPath
    | some (_, _, convert) => do
      let v ← liftLayout (convert v)
      let t ← r.lookupName name
      let _ ← liftLayout (t.layout.encodeAt name v)
      convertThrough r noPath names v

/-- Converts `v` forward to the version called `target`. -/
def upgrade (r : Registry) (v : TypedValue) (target : String) : Except RegistryError TypedValue := do
  let current ← r.lookup v.typeId
  let goal ← r.lookupName target
  let noPath := RegistryError.noUpgradePath current.name target
  match current.version, goal.version with
  | some (family, i), some (goalFamily, j) =>
    if family ≠ goalFamily ∨ j < i then .error noPath
    else
      match r.family? family with
      | none => .error noPath
      | some chain => do
        let value ← convertThrough r noPath ((chain.take (j + 1)).drop (i + 1)) v.value
        return ⟨goal.id, value⟩
  | _, _ => .error noPath

end VeiledLedger.Registry
