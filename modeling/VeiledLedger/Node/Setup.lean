/-
  VeiledLedger.Node.Setup — what a node is started with.
-/

import VeiledLedger.Interchange
import VeiledLedger.Node.Failure

namespace VeiledLedger.Node

/-- The configuration of a node that was given a file, whose content may be unreadable, or no
    file at all. -/
def loadConfig : (file : Option (Option String)) → Except ApiError Config
  | none => .ok .standard
  | some content =>
    match Config.ofFile content with
    | .ok c => .ok c
    | .error _ => .error .internal

/-- Nodes without a seed of their own share this one; it is for development only. -/
def developmentSeed [Hasher] : Digest := digest (Text.Utf8.encode "verifier-node development setup")

/-- The setup seed of a node, given in hexadecimal digits. -/
def setupSeed [Hasher] : Option String → Except ApiError Digest
  | none => .ok developmentSeed
  | some text =>
    match Digest.ofHex? text with
    | some seed => .ok seed
    | none => .error .internal

end VeiledLedger.Node
