/-
  VeiledLedger.Registry.Family — the versions of one type and the order they upgrade in.

  A family lists its members in any order; each member but one names the member it upgrades
  from and how a value of that one is converted. The members are put in the order of the
  upgrades: the first has no predecessor and each later one upgrades from the one before it.
  A family that cannot be put in such an order is refused with the defect that was found
  first.
-/

import VeiledLedger.Registry.Failure

namespace VeiledLedger

/-- A conversion of a value of one version to the next; it may fail. -/
abbrev Conversion := Value → Except LayoutError Value

/-- Where a field of the next version comes from. -/
inductive FieldSource where
  /-- Field `i` of the value before. -/
  | copied (i : Nat)
  | constant (v : Value)

def FieldSource.value? (old : List Value) : FieldSource → Option Value
  | copied i => old[i]?
  | constant v => some v

/-- Puts the next version together field by field. A value that has not got these fields is not
    of the type `name`. -/
def Conversion.ofFields (name : String) (sources : List FieldSource) : Conversion := fun v =>
  let fields := match v with
    | .struct old => sources.mapM (·.value? old)
    | _ => none
  match fields with
  | some fields => .ok (.struct fields)
  | none => .error (.misfit "" (.otherType name))

structure VersionedType where
  name : String
  layout : Layout
  /-- The version this one is converted from, and how. -/
  upgradesFrom : Option (String × Conversion)

namespace VersionedType

def predecessor (m : VersionedType) : Option String := m.upgradesFrom.map (·.1)

end VersionedType

structure VersionFamily where
  marker : String
  members : List VersionedType

namespace VersionFamily

def find? (f : VersionFamily) (name : String) : Option VersionedType :=
  f.members.find? (fun m => m.name = name)

/-- The first member whose name an earlier member has. -/
def firstRepeated? : (earlier : List String) → List VersionedType → Option String
  | _, [] => none
  | earlier, m :: ms => if m.name ∈ earlier then some m.name else firstRepeated? (m.name :: earlier) ms

/-- Checks, member by member, that predecessors are members and that no two members share one. -/
def checkPredecessors (f : VersionFamily) : (taken : List String) → List VersionedType → Except RegistryError Unit
  | _, [] => .ok ()
  | taken, m :: ms =>
    match m.predecessor with
    | none => checkPredecessors f taken ms
    | some source =>
      if (f.find? source).isNone then .error (.unknownPredecessor f.marker m.name source)
      else if source ∈ taken then .error (.branchingUpgrade f.marker source)
      else checkPredecessors f (source :: taken) ms

/-- The members met by following upgrades from `m`, at most `fuel` of them. -/
def followUpgrades (f : VersionFamily) : (fuel : Nat) → VersionedType → List VersionedType
  | 0, _ => []
  | fuel + 1, m =>
    match f.members.find? (fun next => next.predecessor = some m.name) with
    | none => []
    | some next => next :: followUpgrades f fuel next

/-- Whether following predecessors from `m` comes back to `start`, or goes on for more than
    `fuel` steps. -/
def returnsTo (f : VersionFamily) (start : String) : (fuel : Nat) → VersionedType → Bool
  | fuel, m =>
    match m.predecessor.bind f.find? with
    | none => false
    | some before =>
      if before.name = start then true
      else match fuel with
        | 0 => true
        | fuel + 1 => returnsTo f start fuel before

/-- The members in upgrade order. -/
def ordered (f : VersionFamily) : Except RegistryError (List VersionedType) :=
  match firstRepeated? [] f.members with
  | some name => .error (.duplicateMember f.marker name)
  | none =>
    match checkPredecessors f [] f.members with
    | .error e => .error e
    | .ok () =>
      match f.members.find? (fun m => m.predecessor.isNone) with
      | none =>
        -- Every member upgrades from a member, so following them never ends.
        let first := (f.members.head?.map (·.name)).getD ""
        if first = "" then .error (.missingChainStart f.marker) else .error (.cyclicUpgrade f.marker first)
      | some start =>
        let chain := start :: followUpgrades f f.members.length start
        match f.members.find? (fun m => m.name ∉ chain.map (·.name)) with
        | none => .ok chain
        | some stray =>
          if returnsTo f stray.name f.members.length stray then .error (.cyclicUpgrade f.marker stray.name)
          else .error (.unreachableVersion f.marker stray.name start.name)

end VersionFamily

/-- Which side of an upgrade is public. -/
inductive UpgradeVisibility where
  | publicOnly
  | privateOnly
  /-- Public input, private output. -/
  | mixed
  deriving DecidableEq, Repr

namespace UpgradeVisibility

def all : List UpgradeVisibility := [publicOnly, privateOnly, mixed]

def name : UpgradeVisibility → String
  | publicOnly => "public"
  | privateOnly => "private"
  | mixed => "mixed"

/-- The words for the input and the output in the name of a command. -/
def sides : UpgradeVisibility → String × String
  | publicOnly => ("Public", "Public")
  | privateOnly => ("Private", "Private")
  | mixed => ("Public", "Private")

end UpgradeVisibility

/-- The generated command that upgrades a state from one version to the next. -/
structure UpgradeCommand where
  name : String
  id : TypeId
  source : String
  target : String
  visibility : UpgradeVisibility
  deriving DecidableEq, Repr

namespace TypeName

/-- A qualified name cut at its last double colon: what stands before it, if there is one, and
    what stands after it. `tail` holds the characters already passed, which hold none. -/
def splitReversed (tail : List Char) : List Char → Option (List Char) × List Char
  | ':' :: ':' :: rest => (some rest.reverse, tail)
  | c :: rest => splitReversed (c :: tail) rest
  | [] => (none, tail)

def split (name : String) : Option String × String :=
  let (front, back) := splitReversed [] name.toList.reverse
  (front.map String.ofList, String.ofList back)

/-- The type id derived from a qualified name: the first four bytes of its hash. -/
def stableId [Hasher] (name : String) : TypeId :=
  UInt32.ofNat (Bytes.toNat ((digest (Text.Utf8.encode name)).toBytes.take 4))

end TypeName

namespace UpgradeCommand

/-- The command stands beside the version it upgrades from, and its id is derived from its name. -/
def make [Hasher] (source target : String) (visibility : UpgradeVisibility) : UpgradeCommand :=
  let (input, output) := visibility.sides
  let (package, from_) := TypeName.split source
  let simple := "Upgrade" ++ input ++ from_ ++ "To" ++ output ++ (TypeName.split target).2
  let name := match package with
    | none => simple
    | some p => if p = "" then simple else p ++ "::" ++ simple
  ⟨name, TypeName.stableId name, source, target, visibility⟩

end UpgradeCommand

end VeiledLedger
