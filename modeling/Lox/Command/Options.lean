/-!
# The arguments of the program

    [SCRIPT] [--max-call-depth N] [--log FILTER]

Arguments are taken from left to right. The first one that is wrong settles the matter, and so does
the first that asks for help or for the version. The value of an option follows an equal sign or is
the next argument, which must not look like an option itself. Behind `--` nothing is an option.
-/
namespace Lox.Command

/-- What the arguments ask for (`Cli`). -/
structure Options where
  script : Option String
  maxCallDepth : Option Nat
  logFilter : Option String

def Options.none : Options := ⟨.none, .none, .none⟩

/-- The options that take a value. -/
inductive Setting where
  | maxCallDepth
  | log
  deriving DecidableEq, Repr

inductive UsageError where
  | unknownOption (text : String)
  | repeatedOption (setting : Setting)
  | missingValue (setting : Setting)
  | invalidLimit (text : String)
  | unexpectedValue (option : String)
  | emptyScript
  | secondScript (path : String)
  deriving DecidableEq, Repr

inductive Request where
  | run (options : Options)
  | version
  | help
  | briefHelp

/-- An unsigned 64-bit number in decimal, with an optional plus sign. -/
def readLimit (text : String) : Except UsageError Nat :=
  let digits := match text.toList with
    | '+' :: ds => ds
    | ds => ds
  let n := digits.foldl (fun n c => 10 * n + (c.toNat - '0'.toNat)) 0
  if !digits.isEmpty && digits.all Char.isDigit && n < Nat.pow 2 64 then .ok n else .error (.invalidLimit text)

def Setting.ofName? : String → Option Setting
  | "max-call-depth" => some .maxCallDepth
  | "log" => some .log
  | _ => none

namespace Options

/-- Gives an option its value. -/
def set (o : Options) (setting : Setting) (value : String) : Except UsageError Options :=
  match setting with
  | .maxCallDepth =>
    match o.maxCallDepth with
    | some _ => .error (.repeatedOption setting)
    | .none => do return { o with maxCallDepth := some (← readLimit value) }
  | .log =>
    match o.logFilter with
    | some _ => .error (.repeatedOption setting)
    | .none => .ok { o with logFilter := some value }

/-- Takes an argument that is no option. -/
def setScript (o : Options) (path : String) : Except UsageError Options :=
  match o.script with
  | some _ => .error (.secondScript path)
  | .none => if path.isEmpty then .error .emptyScript else .ok { o with script := some path }

/-- Arguments behind `--`. -/
def setScripts (o : Options) : List String → Except UsageError Request
  | [] => .ok (.run o)
  | path :: rest => do
    let o ← o.setScript path
    o.setScripts rest

end Options

/-- How an argument looks. -/
inductive Shape where
  | endOfOptions
  | long (name : String) (value : Option String)
  | short (flags : List Char)
  | plain

def shapeOf (arg : String) : Shape :=
  match arg.toList with
  | ['-', '-'] => .endOfOptions
  | '-' :: '-' :: cs =>
    let name := String.ofList (cs.takeWhile (· != '='))
    match cs.dropWhile (· != '=') with
    | [] => .long name none
    | _ :: value => .long name (some (String.ofList value))
  | '-' :: c :: cs => .short (c :: cs)
  | _ => .plain

/-- Reads arguments into options. -/
def readArgs (o : Options) : List String → Except UsageError Request
  | [] => .ok (.run o)
  | arg :: rest =>
    match shapeOf arg with
    | .endOfOptions => o.setScripts rest
    | .plain => do
      let o ← o.setScript arg
      readArgs o rest
    | .short flags =>
      match flags with
      | 'h' :: _ => .ok .briefHelp
      | 'V' :: _ => .ok .version
      | _ => .error (.unknownOption arg)
    | .long name value =>
      match Setting.ofName? name, value, rest with
      | some setting, some value, rest => do
        let o ← o.set setting value
        readArgs o rest
      | some setting, none, value :: rest =>
        match shapeOf value with
        | .plain => do
          let o ← o.set setting value
          readArgs o rest
        | _ => .error (.missingValue setting)
      | some setting, none, [] => .error (.missingValue setting)
      | none, none, _ =>
        if name = "help" then .ok .help
        else if name = "version" then .ok .version
        else .error (.unknownOption arg)
      | none, some _, _ =>
        if name = "help" || name = "version" then .error (.unexpectedValue name)
        else .error (.unknownOption arg)

end Lox.Command
