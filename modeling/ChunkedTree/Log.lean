/-
  Lines of the log.
-/
import ChunkedTree.Log.ControlSequence

namespace ChunkedTree

inductive LogLevel where
  | trace
  | debug
  | info
  | warn
  | error
deriving DecidableEq, Repr

def LogLevel.name : LogLevel → String
  | .trace => "TRACE"
  | .debug => "DEBUG"
  | .info => "INFO"
  | .warn => "WARN"
  | .error => "ERROR"

/-- Whether the program shows lines of this level. -/
def LogLevel.isShown : LogLevel → Bool
  | .trace | .debug => false
  | .info | .warn | .error => true

structure LogLine where
  level : LogLevel
  text : String
deriving DecidableEq, Repr

/-- The line as it is shown, with the line break that ends it: further lines of the text are
    indented, and control sequences are left out. A sequence that the text does not finish takes
    the line break with it where it would take any other character. -/
def LogLine.shown (line : LogLine) : String :=
  let indented := line.text.toList.flatMap fun c => if c == '\n' then "\n    ".toList else [c]
  ControlSequence.shown (String.ofList (indented ++ ['\n']))

end ChunkedTree
