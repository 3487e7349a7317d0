import Lox.Command.Options
import Lox.Eval.Machine
import Lox.Text.Plain

/-!
# Help, version and usage texts
-/
namespace Lox.Command

/-- The environment variable for the limit on nested calls. -/
def limitVariable : String := "TREELOX_MAX_CALL_DEPTH"

def versionText : String := "treelox 0.1.0\n"

def lines (ls : List String) : String := ls.foldl (fun out l => out ++ l ++ "\n") ""

/-- Where the environment gives the limit, and what it gives. Further lines of a value are indented
like the first. -/
def limitSource (limit : Option String) : String :=
  "[env: " ++ limitVariable ++ "=" ++ (limit.getD "").replace "\n" "\n          " ++ "]"

/-- The full help, which shows the current value of the environment variable. -/
def helpText (limit : Option String) : String :=
  Text.plain <| lines [
    "A tree-walking interpreter for Lox.",
    "",
    "Runs SCRIPT if given, otherwise starts an interactive prompt where each line is run in the same global environment.",
    "",
    "Usage: treelox [OPTIONS] [SCRIPT]",
    "",
    "Arguments:",
    "  [SCRIPT]",
    "          Script to run",
    "",
    "Options:",
    "      --max-call-depth <MAX_CALL_DEPTH>",
    "          Deepest allowed nesting of function calls",
    "          ",
    "          " ++ limitSource limit,
    "          [default: " ++ toString Config.defaultMaxCallDepth ++ "]",
    "",
    "      --log <LOG>",
    "          Log filter directives, e.g. `treelox_interpreter=trace` (defaults to RUST_LOG)",
    "",
    "  -h, --help",
    "          Print help (see a summary with '-h')",
    "",
    "  -V, --version",
    "          Print version"]

/-- The help without blank lines between options. -/
def briefHelpText (limit : Option String) : String :=
  Text.plain <| lines [
    "A tree-walking interpreter for Lox",
    "",
    "Usage: treelox [OPTIONS] [SCRIPT]",
    "",
    "Arguments:",
    "  [SCRIPT]  Script to run",
    "",
    "Options:",
    "      --max-call-depth <MAX_CALL_DEPTH>",
    "          Deepest allowed nesting of function calls " ++ limitSource limit ++ " [default: " ++
      toString Config.defaultMaxCallDepth ++ "]",
    "      --log <LOG>",
    "          Log filter directives, e.g. `treelox_interpreter=trace` (defaults to RUST_LOG)",
    "  -h, --help",
    "          Print help (see more with '--help')",
    "  -V, --version",
    "          Print version"]

def Setting.text : Setting → String
  | maxCallDepth => "--max-call-depth <MAX_CALL_DEPTH>"
  | log => "--log <LOG>"

def UsageError.message : UsageError → String
  | unknownOption text => "unexpected argument '" ++ text ++ "' found"
  | repeatedOption setting => "the argument '" ++ setting.text ++ "' cannot be used multiple times"
  | missingValue setting => "a value is required for '" ++ setting.text ++ "' but none was supplied"
  | invalidLimit text => "invalid value '" ++ text ++ "' for '" ++ Setting.maxCallDepth.text ++ "'"
  | unexpectedValue option => "unexpected value for '--" ++ option ++ "' found; no more were expected"
  | emptyScript => "a value is required for '[SCRIPT]' but none was supplied"
  | secondScript path => "unexpected argument '" ++ path ++ "' found"

end Lox.Command
