/-
What ledgers work on and share: a store of rows, a clock, a log, and a receiver of alerts.
-/
import TradeLedger.Notice
import TradeLedger.Store

namespace TradeLedger

/-- Where ledgers work. -/
structure Site (σ : Type) where
  store : σ
  /-- What the clock shows. -/
  now : Instant
  /-- The log, the oldest notice first. -/
  journal : List Notice
  /-- The alerts that reached the receiver, the oldest first. -/
  alerts : List Alert

namespace Site

variable {σ α : Type}

/-- Writes a line into the log. -/
def note (s : Site σ) (n : Notice) : Site σ := { s with journal := s.journal ++ [n] }

/-- Sends an alert where a sink leads to. It is logged in any case. -/
def raise (s : Site σ) (sink : Sink) (a : Alert) : Site σ :=
  let s := s.note (.alert a)
  match sink with
  | .channel => { s with alerts := s.alerts ++ [a] }
  | .dropped => s.note .receiverGone
  | .log => s

/-- Lets the store do something. -/
def ask (s : Site σ) (f : σ → Except Failure α × σ) : Except Failure α × Site σ :=
  let (r, store) := f s.store
  (r, { s with store })

/-- Appends a row to the store. A row that it took is logged as it was stored. -/
def put [Store σ] (s : Site σ) (permit : Table) (r : Row) : Except Failure Unit × Site σ :=
  match s.ask (Store.append permit r) with
  | (.ok stored, s) => (.ok (), s.note (.stored stored))
  | (.error f, s) => (.error f, s)

end Site

/-- Something done at a site, which may fail. What it changed before it failed stays changed. -/
abbrev Act (σ α : Type) := ExceptT Failure (StateM (Site σ)) α

namespace Act

variable {σ α : Type}

def note (n : Notice) : Act σ Unit := modify (·.note n)

def ask (f : σ → Except Failure α × σ) : Act σ α := fun s => s.ask f

end Act

end TradeLedger
