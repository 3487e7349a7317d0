import Lox.Command.Run
import Std.Time.DateTime.Timestamp

/-!
# The executable

Reads arguments, environment, script and input, and writes what the program leaves behind. Without a
script, each line of the input is run as soon as it is read. Whenever a run asks for the time, it is
told the time of that moment; by `Session.answered_enter` it is a run under a clock that shows these
times.
-/
namespace Lox.Main

/-- The seconds since 1970. -/
def now : IO Float := do
  let time ← Std.Time.Timestamp.now
  return Float.ofInt time.toNanosecondsSinceUnixEpoch.val / 1000000000.0

/-- Goes on to the end. Questions are answered with the time. -/
def answer {R : Type} : Bounce R → IO R
  | .done r => return r
  | .more next => answer (next ())
  | .ask _ next => do answer (next (← now))

/-- What a run is given. Its clock is never looked at, since questions are answered with the time. -/
def config (limit : Nat) : Config := ⟨limit, fun _ => 0⟩

def readScript (path : String) : IO (Except Command.ReadFailure ByteArray) := do
  try
    return .ok (← IO.FS.readBinFile path)
  catch e =>
    match e with
    | .noFileOrDirectory .. => return .error .notFound
    | .inappropriateType .. => return .error .isDirectory
    | e => return .error (.other (toString e))

def deliver (o : Command.Output) : IO UInt32 := do
  IO.print o.out
  IO.eprint o.err
  return o.exitCode.toUInt32

/-- The next line of the input, if there is one. `line` holds the bytes read so far, last one first. -/
partial def readLine (input : IO.FS.Stream) (line : List UInt8) : IO (Option (List UInt8)) := do
  match (← input.read 1).toList with
  | [] => return if line.isEmpty then none else some line.reverse
  | b :: _ => if b = 10 then return some (Command.endLine line) else readLine input (b :: line)

partial def prompt (limit : Nat) (session : Session) : IO UInt32 := do
  match ← readLine (← IO.getStdin) [] with
  | none => return 0
  | some line =>
    match ← answer (Command.enterLine (config limit) ampleFuel line session) with
    | none =>
      IO.eprint Command.notTextReport
      return 1
    | some (err, next) =>
      IO.print (Command.lines (next.printed.toList.drop session.printed.size))
      IO.eprint err
      prompt limit next

end Lox.Main

open Lox in
def main (args : List String) : IO UInt32 := do
  let limit ← IO.getEnv Command.limitVariable
  match Command.plan (fun name => if name = Command.limitVariable then limit else none) args with
  | .finished o => Main.deliver o
  | .script limit path =>
    let content ← Main.readScript path
    Main.deliver (← Main.answer (Command.enterScript (Main.config limit) ampleFuel path content))
  | .prompt limit => Main.prompt limit .initial
