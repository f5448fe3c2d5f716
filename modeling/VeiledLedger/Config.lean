/-
  VeiledLedger.Config — the settings of a ledger's members.
-/

import VeiledLedger.Padding
import VeiledLedger.Text.Span

namespace VeiledLedger

structure Config where
  padding : Padding
  /-- The longest time for one call of the backend, in milliseconds. -/
  timeout : Nat
  deriving DecidableEq, Repr

inductive ConfigError where
  /-- The file cannot be read. -/
  | unreadable
  /-- The text is not that of a configuration. -/
  | badJson
  | invalid (reason : String)
  deriving DecidableEq, Repr

def ConfigError.message : ConfigError → String
  | unreadable => "io error"
  | badJson => "invalid config json"
  | invalid reason => "invalid config: " ++ reason

/-- A padding that cannot be used is an error of its configuration. -/
def ConfigError.ofDefect (d : Padding.Defect) : ConfigError := .invalid d.message

namespace Config

def standard : Config := ⟨.standard, 30000⟩

/-- The timeout in nanoseconds. -/
def timeoutSpan (c : Config) : Nat := c.timeout * 1000000

end Config

end VeiledLedger
