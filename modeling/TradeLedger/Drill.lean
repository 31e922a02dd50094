/-
Drills: ledgers and bare engines, one after the other, on one site with a store whose faults are
chosen. A drill draws its identifiers by the place a row is to have, and can hold an append where
its row is about to be stored.
-/
import TradeLedger.Drill.Bench
import TradeLedger.Ledger.Append
import TradeLedger.Ledger.Opening
import TradeLedger.Ledger.Read

namespace TradeLedger

/-- A drill under way. The last ledger and the last engine are in use; those before them only finish
what they began. -/
structure Drill where
  site : Site Drill.Bench
  ledgers : List Ledger
  engines : List Engine

namespace Drill

variable {α : Type}

/-- What the clock shows at the start. -/
def dawn : Instant := 1714555800000000

def start : Drill := ⟨⟨.empty, dawn, [], []⟩, [], []⟩

/-! ## Ledgers and engines -/

/-- Lets a ledger do something. -/
def atLedger (d : Drill) (i : Nat) (f : Running Bench → α × Running Bench) :
    Option (α × Drill) := do
  let ledger ← d.ledgers[i]?
  let (a, w) := f { ledger, site := d.site }
  return (a, { d with ledgers := d.ledgers.set i w.ledger, site := w.site })

/-- Lets the ledger in use do something. -/
def work (d : Drill) (f : Work Bench α) : Option (Except Failure α × Drill) :=
  d.atLedger (d.ledgers.length - 1) f

/-- Does something at the site, without a ledger. -/
def atSite (d : Drill) (f : Act Bench α) : Except Failure α × Drill :=
  let (r, site) := f d.site
  (r, { d with site })

/-- Opens a ledger and uses it from now on. One that does not open changes nothing. -/
def openLedger (d : Drill) (settings : Settings) (sink : Sink) : Except Failure Ledger × Drill :=
  match Ledger.opened settings sink d.site with
  | (.ok ledger, site) => (.ok ledger, { d with site, ledgers := d.ledgers ++ [ledger] })
  | (.error f, site) => (.error f, { d with site })

def newEngine (d : Drill) (lockTimeout : Duration) : Drill :=
  { d with engines := d.engines ++ [.fresh lockTimeout] }

def recoverEngine (d : Drill) (lockTimeout : Duration) : Except Failure Unit × Drill :=
  match Engine.recover lockTimeout d.site with
  | (.ok engine, site) => (.ok (), { d with site, engines := d.engines ++ [engine] })
  | (.error f, site) => (.error f, { d with site })

/-! ## Writing -/

/-- Something to be appended, by the ledger in use or by the engine in use. -/
inductive Writing where
  | request (caller : Caller) (r : Request)
  | body (recordId : Uuid) (b : Body)

/-- Whether there is a ledger, or an engine, to append by. -/
def canWrite (d : Drill) : Writing → Bool
  | .request .. => !d.ledgers.isEmpty
  | .body .. => !d.engines.isEmpty

/-- The identifiers of a row tell its table and its place. The second draw for a signal is for one
whose place another signal is about to take. -/
def draws (l : Ledger) (t : Table) : Draws :=
  let place (t : Table) := (l.engine.tails.get t).position + 1
  { record := Uuid.made (0xa0 + UInt8.ofNat t.index) (place t)
    correlations := [Uuid.made 0xc0 (place .signals), Uuid.made 0xc1 (place .signals)] }

/-- An append that is held, by the ledger or the engine it belongs to. -/
inductive Holding where
  | flight (ledger : Nat) (f : Flight)
  | stamp (engine : Nat) (s : Stamp)

/-- How an append that is to be held starts. -/
inductive Start where
  | failed (f : Failure)
  | landed (r : Receipt)
  | held (h : Holding)

/-- Appends, up to the point where the row goes to the store. -/
def hold (d : Drill) : Writing → Option (Start × Drill)
  | .request caller r => do
    let i := d.ledgers.length - 1
    let (launch, d) ← d.atLedger i fun w => w.launch caller (draws w.ledger r.table) r
    return match launch with
      | .landed (.ok receipt) => (.landed receipt, d)
      | .landed (.error f) => (.failed f, d)
      | .flying f => (.held (.flight i f), d)
  | .body recordId b => do
    let i := d.engines.length - 1
    let engine ← d.engines[i]?
    return match engine.stamp d.site.now recordId b with
      | .ok (s, engine) => (.held (.stamp i s), { d with engines := d.engines.set i engine })
      | .error f => (.failed f, d)

/-- Goes on with an append that was held. -/
def resume (d : Drill) : Holding → Option (Except Failure Receipt × Drill)
  | .flight i f => d.atLedger i fun w => w.land f
  | .stamp i s => do
    let engine ← d.engines[i]?
    let (r, engine, site) := engine.complete s d.site
    return (r, { d with engines := d.engines.set i engine, site })

/-- Appends. -/
def write (d : Drill) (writing : Writing) : Option (Except Failure Receipt × Drill) := do
  match ← d.hold writing with
  | (.failed f, d) => return (.error f, d)
  | (.landed receipt, d) => return (.ok receipt, d)
  | (.held h, d) => d.resume h

end Drill

end TradeLedger
