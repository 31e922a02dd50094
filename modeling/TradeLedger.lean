import TradeLedger.Alert
import TradeLedger.Assoc
import TradeLedger.Binary64
import TradeLedger.Binary64.Shortest
import TradeLedger.Body
import TradeLedger.Bytes
import TradeLedger.Caller
import TradeLedger.Chain
import TradeLedger.Chain.Verification
import TradeLedger.Codec
import TradeLedger.Codec.Damage
import TradeLedger.Decimal
import TradeLedger.Decimal.Gateway
import TradeLedger.Decimal.Reader
import TradeLedger.Digest
import TradeLedger.Digest.Sha256
import TradeLedger.Drill
import TradeLedger.Drill.Bench
import TradeLedger.Duration
import TradeLedger.Engine
import TradeLedger.Envelope
import TradeLedger.Failure
import TradeLedger.Hex
import TradeLedger.Index
import TradeLedger.Instant
import TradeLedger.Json
import TradeLedger.Json.Canonical
import TradeLedger.Json.Reader
import TradeLedger.Ledger
import TradeLedger.Ledger.Append
import TradeLedger.Ledger.Opening
import TradeLedger.Ledger.Read
import TradeLedger.Ledger.Verify
import TradeLedger.Main
import TradeLedger.Metrics
import TradeLedger.Notice
import TradeLedger.Proofs.Binary64
import TradeLedger.Proofs.Chain.Binding
import TradeLedger.Proofs.Chain.FirstBreak
import TradeLedger.Proofs.Chain.Linked
import TradeLedger.Proofs.Chain.Localised
import TradeLedger.Proofs.Codec.Envelope
import TradeLedger.Proofs.Codec.Spelling
import TradeLedger.Proofs.Decimal.Canonical
import TradeLedger.Proofs.Decimal.Exactness
import TradeLedger.Proofs.Decimal.Plain
import TradeLedger.Proofs.Decimal.Text
import TradeLedger.Proofs.Decimal.Value
import TradeLedger.Proofs.Decimal.Vanishing
import TradeLedger.Proofs.Fleet
import TradeLedger.Proofs.Json
import TradeLedger.Proofs.Json.Canonical
import TradeLedger.Proofs.Json.Draft
import TradeLedger.Proofs.Json.Text
import TradeLedger.Proofs.Ledger.Commuting
import TradeLedger.Proofs.Ledger.Damaged
import TradeLedger.Proofs.Ledger.Opening
import TradeLedger.Proofs.Ledger.Reckoning
import TradeLedger.Proofs.Objections
import TradeLedger.Proofs.Request
import TradeLedger.Proofs.Reservations
import TradeLedger.Proofs.Session
import TradeLedger.Proofs.Session.Acceptance
import TradeLedger.Proofs.Session.Accounts
import TradeLedger.Proofs.Session.Chains
import TradeLedger.Proofs.Session.Idempotency
import TradeLedger.Proofs.Session.Reads
import TradeLedger.Proofs.Session.Recovery
import TradeLedger.Proofs.Session.References
import TradeLedger.Proofs.Session.Registry
import TradeLedger.Proofs.Session.Rejection
import TradeLedger.Proofs.Session.Reopening
import TradeLedger.Proofs.Session.Reserved
import TradeLedger.Proofs.Session.Retries
import TradeLedger.Proofs.Session.Step
import TradeLedger.Proofs.Session.Tampering
import TradeLedger.Proofs.Session.Times
import TradeLedger.Proofs.Session.WellFormed
import TradeLedger.Proofs.Session.Whole
import TradeLedger.Proofs.Store.AppendOnly
import TradeLedger.Proofs.Store.Flaky
import TradeLedger.Proofs.Store.Links
import TradeLedger.Report
import TradeLedger.Request
import TradeLedger.Rounding
import TradeLedger.Row
import TradeLedger.Settings
import TradeLedger.Settings.Reader
import TradeLedger.Site
import TradeLedger.Store
import TradeLedger.Store.Memory
import TradeLedger.Table
import TradeLedger.Text.Blank
import TradeLedger.Text.Numeral
import TradeLedger.Text.Printable
import TradeLedger.Text.Quoted
import TradeLedger.Text.Utf8
import TradeLedger.Toml
import TradeLedger.Toml.Reader
import TradeLedger.Toml.Scalar
import TradeLedger.Uuid
import TradeLedger.View
