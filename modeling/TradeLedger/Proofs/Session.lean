/-
Many calls to one ledger. Each is taken apart into the steps between which others may act: it is
vetted, engaged, and attempted; an attempt stamps a row and holds its table, and then stores the row
and lets go; what follows is another attempt or the end of the call. A session is the ledger with
its site and every call so far, and each event lets one of them take one step, moves the clock,
reads, or opens the ledger again.

The steps are made of what a call does when nobody interferes. That one call, taken step by step
until it is done, is such a call is shown where the session is put together again.
-/
import TradeLedger.Ledger.Opening
import TradeLedger.Ledger.Read
import TradeLedger.Proofs.Request

namespace TradeLedger

/-! ## Calls -/

/-- What a call asks for. Its texts exist, so they fit in memory. -/
structure Submission where
  caller : Caller
  draws : Draws
  request : Request
  fits : request.Fits

/-- How far a call has come. -/
inductive Phase where
  | asked
  /-- Every check that needs only the request is passed. -/
  | vetted (entry : Entry)
  /-- To be attempted, with `left` more attempts allowed after this one. -/
  | ready (e : Errand) (left attempts : Nat)
  /-- The row is stamped, and holds its table. -/
  | flying (e : Errand) (s : Stamp) (left attempts : Nat)
  /-- The engine has answered, and nothing has followed yet. -/
  | tried (e : Errand) (r : Except Failure Receipt) (left attempts : Nat)
  | done (r : Except Failure Receipt)

/-- A call, as far as it has come. -/
structure Call where
  submission : Submission
  phase : Phase

namespace Phase

variable {σ : Type} [Store σ]

/-- What follows an attempt: the next one, or the end of the call. -/
def conclude (e : Errand) (r : Except Failure Receipt) (left attempts : Nat) (w : Running σ) : Phase × Running σ :=
  match e.reservation with
  | some res => (.done r, (w.settleSignal res r).observe e.body.table r)
  | none =>
    match left, r with
    | left + 1, .error f =>
      if f.retryable then (.ready e left (attempts + 1), w.again e.body.table attempts f)
      else (.done (.error f), w.observe e.body.table (.error f))
    | _, r => (.done r, ((w.rest e.body.table attempts r).register e.body r).observe e.body.table r)

/-- The next step of a call. -/
def advance (c : Submission) : Phase → Running σ → Phase × Running σ
  | .asked, w =>
    match Work.vet c.caller c.request w with
    | (.ok entry, w) => (.vetted entry, w)
    | (.error f, w) => (.done (.error f), w.observe c.request.table (.error f))
  | .vetted entry, w =>
    match Work.engage c.draws entry w with
    | (.ok e, w) => (.ready e (w.ledger.settings.retry.maxAttempts - 1) 1, w)
    | (.error f, w) => (.done (.error f), w.observe c.request.table (.error f))
  | .ready e left attempts, w =>
    match w.ledger.engine.stamp w.site.now e.recordId e.body with
    | .ok (s, engine) => (.flying e s left attempts, { w with ledger.engine := engine })
    | .error f => (.tried e (.error f) left attempts, w)
  | .flying e s left attempts, w =>
    let (r, w) := w.complete s
    (.tried e r left attempts, w)
  | .tried e r left attempts, w => conclude e r left attempts w
  | .done r, w => (.done r, w)

/-- Whether the row of the call holds this table. -/
def holds (t : Table) : Phase → Bool
  | .flying e _ _ _ => e.body.table = t
  | _ => false

def isDone : Phase → Bool
  | .done _ => true
  | _ => false

end Phase

/-! ## Events -/

/-- Something asked of a ledger that appends nothing. -/
inductive Query where
  | verifyChain (t : Table)
  | verifyAll
  | byCorrelation (id : Uuid)
  | byDedupeKey (dedupeKey : String)
  | eventsOf (executionId : Uuid)
  | records (t : Table)
  | mutate (m : Mutation)

/-- What happens next in a session. -/
inductive Event where
  /-- A call is made. -/
  | call (c : Submission)
  /-- A call takes its next step. -/
  | advance (i : Nat)
  /-- A call is made, and nothing else happens until it is done. -/
  | append (c : Submission)
  | query (q : Query)
  /-- The clock shows another time, earlier or later. -/
  | clock (now : Instant)
  /-- Somebody else holds a table, so that attempts at it time out. -/
  | hold (t : Table)
  /-- Lets go of a table, unless a row of a call holds it. -/
  | free (t : Table)
  /-- The ledger is closed and opened again on its site, if no call is under way. -/
  | reopen (settings : Settings) (sink : Sink)

namespace Query

variable {σ : Type} [Store σ]

def ask : Query → Running σ → Running σ
  | .verifyChain t, w => (Work.verifyChain t w).2
  | .verifyAll, w => (Work.verifyAll w).2
  | .byCorrelation id, w => (Work.byCorrelation id w).2
  | .byDedupeKey dedupeKey, w => (Work.byDedupeKey dedupeKey w).2
  | .eventsOf executionId, w => (Work.eventsOf executionId w).2
  | .records t, w => (Work.records t w).2
  | .mutate m, w => (Work.mutate m w).2

end Query

/-! ## Sessions -/

/-- A ledger at work, and the calls that were made, in their order. -/
structure Session (σ : Type) where
  running : Running σ
  calls : List Call

namespace Session

variable {σ : Type} [Store σ]

def call (s : Session σ) (c : Submission) : Session σ := { s with calls := s.calls ++ [⟨c, .asked⟩] }

def advance (i : Nat) (s : Session σ) : Session σ :=
  match s.calls[i]? with
  | none => s
  | some c =>
    let (phase, running) := c.phase.advance c.submission s.running
    { running, calls := s.calls.set i { c with phase } }

def append (s : Session σ) (c : Submission) : Session σ :=
  let (r, running) := s.running.append c.caller c.draws c.request
  { running, calls := s.calls ++ [⟨c, .done r⟩] }

/-- Whether a row on its way to the store holds a table. -/
def inFlight (s : Session σ) (t : Table) : Bool := s.calls.any (·.phase.holds t)

/-- Whether every call is done. -/
def quiet (s : Session σ) : Bool := s.calls.all (·.phase.isDone)

def setHeld (s : Session σ) (t : Table) (held : Bool) : Session σ :=
  { s with running.ledger.engine.held := s.running.ledger.engine.held.set t held }

def reopen (s : Session σ) (settings : Settings) (sink : Sink) : Session σ :=
  match Ledger.opened settings sink s.running.site with
  | (.ok ledger, site) => { s with running := { ledger, site } }
  | (.error _, site) => { s with running.site := site }

/-- One event. -/
def step (s : Session σ) : Event → Session σ
  | .call c => s.call c
  | .advance i => s.advance i
  | .append c => s.append c
  | .query q => { s with running := q.ask s.running }
  | .clock now => { s with running.site.now := now }
  | .hold t => s.setHeld t true
  | .free t => if s.inFlight t then s else s.setHeld t false
  | .reopen settings sink => if s.quiet then s.reopen settings sink else s

/-- Event after event. -/
def run (s : Session σ) (events : List Event) : Session σ := events.foldl step s

end Session

end TradeLedger
