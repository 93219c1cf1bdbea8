import Std.Time.DateTime.Timestamp
import MeteredLedger.Cli.Command

/-!
# The command line

Runs the interaction of a command line on the files of the machine.
-/

namespace MeteredLedger.Cli

/-- The number of a system error, which some operations give negated. -/
def errorNumber (code : UInt32) : UInt32 :=
  if code < 0x80000000 then code else -code

/-- The cause of a failed file operation. -/
def FileError.ofError (e : IO.Error) : FileError :=
  match e with
  | .noFileOrDirectory _ _ _ => .notFound
  | .inappropriateType _ code _ =>
    match errorNumber code with
    | 20 => .notDirectory
    | 21 => .isDirectory
    | _ => .other (toString e)
  | _ => .other (toString e)

/-- Runs a file operation and keeps its failure as a value. -/
def attempt (operation : IO α) : IO (Except FileError α) := do
  match ← operation.toBaseIO with
  | .ok a => return .ok a
  | .error e => return .error (.ofError e)

/-- Runs an interaction on the files of the machine. -/
def Interaction.perform : Interaction → IO Reply
  | done reply => return reply
  | read path next => do
    let content ← attempt (IO.FS.readBinFile path)
    (next (content.bind decodeText)).perform
  | write path text next => do
    let result ← attempt (IO.FS.writeFile path text)
    (next result).perform

/-- The time of the clock in milliseconds, unless it stands before the epoch. -/
def clock : IO (Option Int64) := do
  let now ← Std.Time.Timestamp.now
  let milliseconds := now.toMillisecondsSinceUnixEpoch.val
  return if 0 ≤ milliseconds then some (Int64.ofInt milliseconds) else none

end MeteredLedger.Cli

/-- Carries out the command line and exits with the code of its reply. -/
def main (words : List String) : IO UInt32 := do
  let reply ← (MeteredLedger.Cli.interaction (← MeteredLedger.Cli.clock) words).perform
  (← IO.getStderr).putStr reply.stderr
  (← IO.getStdout).putStr reply.stdout
  return reply.exitCode
