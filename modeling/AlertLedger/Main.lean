import AlertLedger.CommandLine
import AlertLedger.StoreOpening
import AlertLedger.Worker
import Std.Time.DateTime.Timestamp

namespace AlertLedger

def environmentOfSettings : IO (String → Option String) := do
  let found ← Setting.all.filterMapM fun s => do
    return (← IO.getEnv s.environmentName).map (s.environmentName, ·)
  return fun name => found.lookup name

def clockNow : IO Binary64 := do
  return unixTimestamp (← Std.Time.Timestamp.now).toNanosecondsSinceUnixEpoch.val

/-- Handles each line of the input as a message, and writes the heartbeats to the output. -/
partial def serve (w : Worker) (input output : IO.FS.Stream) (s : Stores) : IO UInt32 := do
  let line ← input.getLine
  if line.isEmpty then return 0
  let body := Utf8.encode (line.toList.filter (· ≠ '\n'))
  let d : Delivery := ⟨body, fun _ _ => false, none, .confirmed, ← clockNow, fun _ => false⟩
  let work := w.handle d s
  for e in work.events do
    match e with
    | .published payload => output.putStrLn payload
    | _ => pure ()
  output.flush
  match work.result with
  | .error e =>
    IO.eprintln ("Alert consumer failed: " ++ e.message)
    return 1
  | .ok _ => serve w input output work.stores

/-- The program with its settings. No servers are in reach, so only stores in memory open. -/
def start (o : Options) : IO UInt32 := do
  match o.checkMetrics with
  | .error e =>
    IO.eprintln ("Invalid metric key configuration: " ++ e.message)
    return 1
  | .ok () =>
    match OpenStores.ofEngine .empty o.remote o.engine with
    | .error e =>
      IO.eprintln ("Failed to open alert storage: " ++ e.message)
      return 1
    | .ok _ => serve ⟨o.component, o.pageCapacity⟩ (← IO.getStdin) (← IO.getStdout) .empty

end AlertLedger

open AlertLedger in
def main (arguments : List String) : IO UInt32 := do
  match Options.ofCommandLine arguments (← environmentOfSettings) with
  | .ok o => start o
  | .error .help =>
    IO.println helpText
    return 0
  | .error .version =>
    IO.println versionLine
    return 0
  | .error e =>
    IO.eprint ("error: " ++ e.message)
    return 2
