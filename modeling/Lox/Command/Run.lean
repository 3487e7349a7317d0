import Lox.Command.Help
import Lox.Command.LogFilter
import Lox.Session
import Lox.Text.Blank

/-!
# The program as a whole

With a script, the script is one run of a session. Without one, each line of the input is a run of
the same session, except blank lines. Printed lines go to the first output, errors to the second.
-/
namespace Lox.Command

/-- Why a script cannot be read. -/
inductive ReadFailure where
  | notFound
  | isDirectory
  | notText
  | other (reason : String)
  deriving DecidableEq, Repr

def ReadFailure.message : ReadFailure → String
  | notFound => "No such file or directory (os error 2)"
  | isDirectory => "Is a directory (os error 21)"
  | notText => "stream did not contain valid UTF-8"
  | other reason => reason

/-- What the program finds around it. -/
structure Host where
  getEnv : String → Option String
  readFile : String → Except ReadFailure ByteArray
  input : ByteArray
  clock : Nat → Float

/-- What the program leaves behind. -/
structure Output where
  exitCode : Nat
  out : String
  err : String

/-- What is written about the end of a run (`ConsoleReporter`). -/
def report : Outcome → String
  | .completed => ""
  | .rejected errors => lines (errors.map (·.render))
  | .failed f => lines [f.message, "[line " ++ toString f.line ++ "]"]
  | .outOfFuel => lines ["Out of fuel."]

/-- Runs a script once (`run_file`). -/
def enterScript (cfg : Config) (fuel : Nat) (path : String) (content : Except ReadFailure ByteArray) :
    Bounce Output :=
  let source := do
    let bytes ← content
    match String.fromUTF8? bytes with
    | some s => .ok s
    | none => .error ReadFailure.notText
  match source with
  | .error failure => .done ⟨66, "", lines ["Could not read " ++ path ++ ": " ++ failure.message]⟩
  | .ok source => Session.initial.enter cfg fuel source fun outcome session =>
    ⟨outcome.exitCode, lines session.printed.toList, report outcome⟩

/-- A line that a line feed ends, without a carriage return before it. Its bytes come last one
first. -/
def endLine : List UInt8 → List UInt8
  | 13 :: before => before.reverse
  | line => line.reverse

/-- The lines of an input. `line` holds the bytes of the current line and `done` the lines before
it, both last one first. -/
def splitLines (done : List (List UInt8)) (line : List UInt8) : List UInt8 → List (List UInt8)
  | [] => (if line.isEmpty then done else line.reverse :: done).reverse
  | b :: rest =>
    if b = 10 then splitLines (endLine line :: done) [] rest
    else splitLines done (b :: line) rest

/-- Runs one line of the prompt and gives what is written about it, unless it is no text (the body of
the loop of `run_prompt`). -/
def enterLine (cfg : Config) (fuel : Nat) (line : List UInt8) (session : Session) :
    Bounce (Option (String × Session)) :=
  match String.fromUTF8? ⟨line.toArray⟩ with
  | none => .done none
  | some source =>
    if Text.isBlank source then .done (some ("", session))
    else session.enter cfg fuel source fun outcome session => some (report outcome, session)

/-- What is written about a line that is no text. -/
def notTextReport : String := lines ["Error: " ++ ReadFailure.notText.message]

/-- Runs lines in one session (`run_prompt`). A line that is no text ends the program. -/
def runLines (cfg : Config) (fuel : Nat) (err : String) (session : Session) : List (List UInt8) → Output
  | [] => ⟨0, lines session.printed.toList, err⟩
  | line :: rest =>
    match (enterLine cfg fuel line session).run with
    | none => ⟨1, lines session.printed.toList, err ++ notTextReport⟩
    | some (more, session) => runLines cfg fuel (err ++ more) session rest

/-- The limit on nested calls: the option, else the environment, else the default. -/
def limitOf (getEnv : String → Option String) (o : Options) : Except UsageError Nat :=
  match o.maxCallDepth, getEnv limitVariable with
  | some n, _ => .ok n
  | none, some text => readLimit text
  | none, none => .ok Config.defaultMaxCallDepth

/-- What arguments and environment settle before a script or an input is looked at. -/
inductive Plan where
  | finished (o : Output)
  | script (limit : Nat) (path : String)
  | prompt (limit : Nat)

def usage (e : UsageError) : Output := ⟨64, "", lines ["error: " ++ e.message]⟩

def planRun (getEnv : String → Option String) (o : Options) : Plan :=
  match limitOf getEnv o with
  | .error e => .finished (usage e)
  | .ok limit =>
    match LogFilter.check (o.logFilter.getD "") with
    | .error trouble => .finished ⟨trouble.exitCode, "", lines ["Error: invalid --log filter"]⟩
    | .ok () =>
      match o.script with
      | some path => .script limit path
      | none => .prompt limit

def plan (getEnv : String → Option String) (args : List String) : Plan :=
  match readArgs .none args with
  | .error e => .finished (usage e)
  | .ok .version => .finished ⟨0, versionText, ""⟩
  | .ok .help => .finished ⟨0, helpText (getEnv limitVariable), ""⟩
  | .ok .briefHelp => .finished ⟨0, briefHelpText (getEnv limitVariable), ""⟩
  | .ok (.run o) => planRun getEnv o

/-- Runs the program with arguments in a host (`main`). -/
def run (host : Host) (fuel : Nat) (args : List String) : Output :=
  match plan host.getEnv args with
  | .finished o => o
  | .script limit path => (enterScript ⟨limit, host.clock⟩ fuel path (host.readFile path)).run
  | .prompt limit => runLines ⟨limit, host.clock⟩ fuel "" .initial (splitLines [] [] host.input.toList)

end Lox.Command
