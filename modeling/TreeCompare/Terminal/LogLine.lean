import TreeCompare.Environment
import TreeCompare.Log
import TreeCompare.Terminal.Escape
import TreeCompare.Text.Numeral

/-!
# Log lines

An event is one line on the console: its severity, where it comes from and its
message. The characters of a message that a terminal would take for commands are
written as escapes; other control characters, line feeds among them, stay.
-/
namespace TreeCompare.LogLine

def painted (env : Environment) : Bool := ((env.text? "NO_COLOR").getD "").isEmpty

/-- The characters below U+0080 that begin or are commands of a terminal. -/
def commands : List Char := ['\x07', '\x08', '\x0c', '\x1b', '\x7f']

def writeChar (c : Char) : List Char :=
  if c ∈ commands then '\\' :: 'x' :: Numeral.hexDigits 2 c.toNat
  else if 0x80 ≤ c.toNat ∧ c.toNat ≤ 0x9f then
    ['\\', 'u', '\x7b'] ++ (Numeral.shortHex c.toNat).toList ++ ['\x7d']
  else [c]

def writeMessage (message : String) : String :=
  String.ofList (message.toList.flatMap writeChar)

def setting : Log.Severity → String
  | .error => "31"
  | .warn => "33"
  | .info => "32"
  | .debug => "34"
  | .trace => "35"

/-- The line for an event. -/
def write (paint : Bool) (e : Log.Event) : String :=
  let severity := Numeral.padLeft 5 e.severity.name
  let place :=
    if paint then
      Terminal.paint (setting e.severity) severity ++ " " ++ Terminal.paint "1" e.target
        ++ Terminal.paint "2" ":"
    else severity ++ " " ++ e.target ++ ":"
  place ++ " " ++ writeMessage e.message ++ "\n"

end TreeCompare.LogLine
