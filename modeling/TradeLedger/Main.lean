/-
The command line: verifies every chain of a ledger and reports on each. Its only argument is a file
of settings; without one they are the defaults and the environment's.
-/
import TradeLedger.Report

namespace TradeLedger.Main

/-- What the environment says under the names that settings know. -/
def environment : IO Settings.Environment := do
  let names := ["AUDIT_LEDGER_DATA_DIR", "AUDIT_LEDGER_BACKEND", "AUDIT_LEDGER_LOCK_TIMEOUT_MS",
    "AUDIT_LEDGER_RETRY_MAX_ATTEMPTS"]
  let values ← names.mapM fun name => do return (name, ← IO.getEnv name)
  return fun name => (values.find? (·.1 = name)).bind (·.2)

def file (path : String) : IO Settings.File := do
  try
    let content ← IO.FS.readBinFile path
    return .found content.data.toList
  catch
    | .noFileOrDirectory .. => return .missing
    | e => return .unreadable (toString e)

end TradeLedger.Main

def main (args : List String) : IO UInt32 := do
  let file ← args.head?.mapM TradeLedger.Main.file
  let report := TradeLedger.Report.ofSettings file (← TradeLedger.Main.environment)
  report.lines.forM IO.println
  report.complaint.forM IO.eprintln
  return UInt32.ofNat report.exitCode
