/-
The state of a ledger, and what it does on a site.
-/
import TradeLedger.Engine
import TradeLedger.Index
import TradeLedger.Metrics
import TradeLedger.Settings

namespace TradeLedger

/-- A ledger: everything it knows that is not in the store. -/
structure Ledger where
  settings : Settings
  sink : Sink
  engine : Engine
  index : Index
  metrics : Metrics
  /-- Set by the first broken chain, and never cleared. -/
  locked : Bool
  deriving DecidableEq

namespace Ledger

/-- A ledger over tables without rows. -/
def fresh (settings : Settings) (sink : Sink) : Ledger where
  settings
  sink
  engine := .fresh settings.chain.lockTimeout
  index := .empty
  metrics := .empty
  locked := false

end Ledger

/-- A ledger at work on a site. -/
structure Running (σ : Type) where
  ledger : Ledger
  site : Site σ

namespace Running

variable {σ : Type}

def note (w : Running σ) (n : Notice) : Running σ := { w with site := w.site.note n }

def raise (w : Running σ) (a : Alert) : Running σ := { w with site := w.site.raise w.ledger.sink a }

def count (w : Running σ) (f : Metrics → Metrics) : Running σ :=
  { w with ledger.metrics := f w.ledger.metrics }

end Running

/-- Something a ledger does, which may fail. What it changed before it failed stays changed. -/
abbrev Work (σ α : Type) := ExceptT Failure (StateM (Running σ)) α

namespace Work

variable {σ α : Type}

def note (n : Notice) : Work σ Unit := modify (·.note n)

/-- Does something that concerns the site alone. -/
def onSite (act : Act σ α) : Work σ α := fun w =>
  let (r, site) := act w.site
  (r, { w with site })

/-- Does something that concerns the site alone, and goes on if it fails. -/
def outcome (act : Act σ α) : Work σ (Except Failure α) := fun w =>
  let (r, site) := act w.site
  (.ok r, { w with site })

def ask (f : σ → Except Failure α × σ) : Work σ α := onSite (Act.ask f)

end Work

end TradeLedger
