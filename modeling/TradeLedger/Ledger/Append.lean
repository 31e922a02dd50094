/-
Appending to a ledger. A request is checked and becomes an errand: a body, with a reservation if it
is a signal. The errand is run by the engine. A signal has one attempt, since whoever sent it waits;
every other errand is repeated while it fails in a way that may pass.

An errand may also be held where its row is stamped and not yet stored. Everything else the ledger
does in between sees the table held and the reservation made.
-/
import TradeLedger.Ledger
import TradeLedger.Request

namespace TradeLedger

/-! ## Errands -/

/-- A request to append. -/
inductive Request where
  | signal (r : SignalRequest)
  | deliberation (r : DeliberationRequest)
  | execution (r : ExecutionRequest)
  | event (r : EventRequest)

/-- A request that passed every check of its own. What it refers to is still to be checked, and a
signal has no identifier yet. -/
inductive Entry where
  | signal (dedupeKey : String) (signal : Uuid → Signal)
  | deliberation (d : Deliberation)
  | execution (e : Execution)
  | event (e : OrderEvent)

namespace Request

/-- The table a request appends to. -/
def table : Request → Table
  | .signal _ => .signals
  | .deliberation _ => .deliberations
  | .execution _ => .orderExecutions
  | .event _ => .orderEvents

/-- What is asked for, if every field passes its check. -/
def entry : Request → Except Refusal Entry
  | .signal r => do return .signal r.dedupeKey (← r.signal)
  | .deliberation r => do return .deliberation (← r.deliberation)
  | .execution r => do return .execution (← r.execution)
  | .event r => do return .event (← r.event)

end Request

/-- Identifiers drawn for one append. -/
structure Draws where
  record : Uuid
  /-- A signal takes the first that is free. -/
  correlations : List Uuid

/-- A request that passed every check. -/
structure Errand where
  recordId : Uuid
  body : Body
  /-- What a signal has reserved. -/
  reservation : Option Reservation
  deriving DecidableEq

/-- An errand whose row is stamped and not yet stored. -/
structure Flight where
  errand : Errand
  stamp : Stamp
  deriving DecidableEq

/-- How an append starts: it fails at once, or its row is under way. -/
inductive Launch where
  | landed (r : Except Failure Receipt)
  | flying (f : Flight)

namespace Work

variable {σ α : Type}

/-- A check of a request. What is to be said about a refusal is logged. -/
def check (r : Except Refusal α) : Work σ α :=
  match r with
  | .ok a => return a
  | .error refusal => do
    refusal.notices.forM note
    throw refusal.failure

/-- Only a role with the grant appends to a table. -/
def authorize (caller : Caller) (t : Table) : Work σ Unit :=
  if caller.role.mayAppend t then return ()
  else do
    note (.withoutGrant caller t)
    throw (.unauthorized caller.principal s!"append to {t.name}")

def requireCorrelation (id : Uuid) : Work σ Unit := do
  match (← get).ledger.index.requireCorrelation id with
  | .ok () => return ()
  | .error f => do
    note (.unknownReference .correlation id)
    throw f

def requireExecution (id : Uuid) : Work σ Unit := do
  match (← get).ledger.index.requireExecution id with
  | .ok () => return ()
  | .error f => do
    note (.unknownReference .execution id)
    throw f

/-- Reserves what a signal needs. -/
def reserve (dedupeKey : String) (draws : List Uuid) : Work σ Reservation := do
  match (← get).ledger.index.reserveSignal dedupeKey draws with
  | .ok (r, index) => do
    modify fun w => { w with ledger.index := index }
    return r
  | .error f => do
    note (.duplicateSignal dedupeKey)
    throw f

/-- Checks who asks, and what is said. -/
def vet (caller : Caller) (request : Request) : Work σ Entry := do
  authorize caller request.table
  check request.entry

/-- Checks what is referred to, and reserves what a signal needs. -/
def engage (draws : Draws) : Entry → Work σ Errand
  | .signal dedupeKey signal => do
    let reservation ← reserve dedupeKey draws.correlations
    return ⟨draws.record, .signal (signal reservation.correlationId), some reservation⟩
  | .deliberation d => do
    requireCorrelation d.correlationId
    return ⟨draws.record, .deliberation d, none⟩
  | .execution e => do
    requireCorrelation e.correlationId
    return ⟨draws.record, .execution e, none⟩
  | .event e => do
    requireExecution e.executionId
    return ⟨draws.record, .event e, none⟩

/-- Checks a request: who asks, what it says, and what it refers to. -/
def prepare (caller : Caller) (draws : Draws) (request : Request) : Work σ Errand := do
  engage draws (← vet caller request)

end Work

/-! ## Running errands -/

namespace Running

variable {σ : Type} [Store σ]

/-- One attempt of the engine. -/
def attempt (w : Running σ) (e : Errand) : Except Failure Receipt × Running σ :=
  let (r, engine, site) := w.ledger.engine.append e.recordId e.body w.site
  (r, { w with ledger.engine := engine, site })

/-- The attempt whose row is stamped. -/
def complete (w : Running σ) (s : Stamp) : Except Failure Receipt × Running σ :=
  let (r, engine, site) := w.ledger.engine.complete s w.site
  (r, { w with ledger.engine := engine, site })

/-- After the only attempt at a signal: it becomes known, or what it reserved is free again. -/
def settleSignal (w : Running σ) (res : Reservation) (r : Except Failure Receipt) : Running σ :=
  match r with
  | .ok receipt =>
    { w with ledger.index := w.ledger.index.commit res }.note
      (.signalCommitted receipt.position res.correlationId)
  | .error f =>
    let w := (w.note (.signalFailed res.correlationId f)).raise
      (.hotPathPersistence .signals f.message)
    { w with ledger.index := w.ledger.index.release res }

/-- Between attempt number `attempts` at an errand, which failed, and the next. -/
def again (w : Running σ) (t : Table) (attempts : Nat) (f : Failure) : Running σ :=
  let w := if f.isContention then w.count (·.contended t) else w
  let w := w.count (·.retry t)
  w.note (.retrying t attempts (w.ledger.settings.retry.backoff attempts) f)

/-- After the last of so many attempts at an errand. -/
def rest (w : Running σ) (t : Table) (attempts : Nat) (r : Except Failure Receipt) : Running σ :=
  match r with
  | .ok receipt => if 1 < attempts then w.note (.retried t attempts receipt.position) else w
  | .error f => if f.retryable then w.raise (.retriesExhausted t attempts f.message) else w

/-- After attempt number `attempts` at an errand, with `left` more allowed: repeats it while it
fails in a way that may pass. -/
def retry (e : Errand) :
    (left attempts : Nat) → Except Failure Receipt → Running σ → Except Failure Receipt × Running σ
  | left + 1, attempts, .error f, w =>
    if f.retryable then
      let (r, w) := (w.again e.body.table attempts f).attempt e
      retry e left (attempts + 1) r w
    else (.error f, w)
  | _, attempts, r, w => (r, w.rest e.body.table attempts r)

/-- An execution that was stored becomes known. -/
def register (w : Running σ) (body : Body) (r : Except Failure Receipt) : Running σ :=
  match r, body with
  | .ok receipt, .execution _ =>
    { w with ledger.index := w.ledger.index.registerExecution receipt.recordId }
  | _, _ => w

/-- Everything that follows the first attempt at an errand. -/
def conclude (w : Running σ) (e : Errand) (r : Except Failure Receipt) :
    Except Failure Receipt × Running σ :=
  match e.reservation with
  | some res => (r, w.settleSignal res r)
  | none =>
    let (r, w) := retry e (w.ledger.settings.retry.maxAttempts - 1) 1 r w
    (r, w.register e.body r)

/-- Counts what became of an append. -/
def observe (w : Running σ) (t : Table) (r : Except Failure Receipt) : Running σ :=
  match r with
  | .ok _ => w.count (·.append t)
  | .error f =>
    let w := if f.isContention then w.count (·.contended t) else w
    w.count (·.rejection f.label)

/-! ## Appending -/

/-- Starts to append, up to the point where the row goes to the store. -/
def launch (w : Running σ) (caller : Caller) (draws : Draws) (request : Request) :
    Launch × Running σ :=
  match Work.prepare caller draws request w with
  | (.error f, w) => (.landed (.error f), w.observe request.table (.error f))
  | (.ok e, w) =>
    match w.ledger.engine.stamp w.site.now e.recordId e.body with
    | .ok (s, engine) => (.flying ⟨e, s⟩, { w with ledger.engine := engine })
    | .error f =>
      let (r, w) := w.conclude e (.error f)
      (.landed r, w.observe e.body.table r)

/-- Goes on with a row under way. -/
def land (w : Running σ) (f : Flight) : Except Failure Receipt × Running σ :=
  let (r, w) := w.complete f.stamp
  let (r, w) := w.conclude f.errand r
  (r, w.observe f.errand.body.table r)

/-- Appends what is asked for. -/
def append (w : Running σ) (caller : Caller) (draws : Draws) (request : Request) :
    Except Failure Receipt × Running σ :=
  match w.launch caller draws request with
  | (.landed r, w) => (r, w)
  | (.flying f, w) => w.land f

end Running

end TradeLedger
