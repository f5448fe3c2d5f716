/-
  VeiledLedger.Envelope — the outer frame of witnesses and public inputs.

  A payload leaves the ledger behind a four-byte scheme id, which names the hash function
  and the nonce width. A reader with other settings meets another id and stops before it
  interprets any byte of the payload.

  Main statement: `unwrap_eq_ok` (exactly the wrapped payloads are opened).
-/

import VeiledLedger.Bytes
import VeiledLedger.Text.Hex

namespace VeiledLedger.Envelope

/-- SHA-256 (1) with nonces of 32 bytes, under the mark `ZK`. -/
def schemeId : Nat := 0x5A4B0120

inductive Fault where
  | truncated (size : Nat)
  | otherScheme (expected found : Nat)
  deriving DecidableEq, Repr

namespace Fault

def hexWord (n : Nat) : String := "0x" ++ Text.Hex.encode (Bytes.ofNat 4 n)

def message : Fault → String
  | truncated n => "envelope too short (" ++ toString n ++ " bytes)"
  | otherScheme e f => "scheme id mismatch: expected " ++ hexWord e ++ ", found " ++ hexWord f

end Fault

def wrap (payload : Bytes) : Bytes := Bytes.ofNat 4 schemeId ++ payload

/-- The payload of a wrapped byte string. -/
def unwrap (b : Bytes) : Except Fault Bytes :=
  if b.length < 4 then .error (.truncated b.length)
  else
    let found := Bytes.toNat (b.take 4)
    if found = schemeId then .ok (b.drop 4) else .error (.otherScheme schemeId found)

theorem unwrap_wrap (payload : Bytes) : unwrap (wrap payload) = .ok payload := by
  simp [unwrap, wrap, Bytes.toNat_ofNat, schemeId]

theorem unwrap_eq_ok {b payload : Bytes} : unwrap b = .ok payload ↔ b = wrap payload := by
  constructor
  · intro h
    unfold unwrap at h
    split at h
    · cases h
    · rename_i hlen
      simp only at h
      split at h
      · rename_i hid
        simp only [Except.ok.injEq] at h
        have htake : (b.take 4).length = 4 := by simp; omega
        have := Bytes.ofNat_toNat (b.take 4)
        rw [htake, hid] at this
        rw [wrap, this, ← h, List.take_append_drop]
      · cases h
  · rintro rfl; exact unwrap_wrap payload

end VeiledLedger.Envelope
