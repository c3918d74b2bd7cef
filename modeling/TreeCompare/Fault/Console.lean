import TreeCompare.Text.Numeral
import TreeCompare.Text.Printable

/-!
# Errors on the console

An error is shown with its causes, outermost first. A message often ends with
the message of its cause; then that end, the white space before it and the
colons before that are taken away, the line is marked, and a note says so. A
message of which nothing is left is not shown. The last message is shown as it
is.
-/
namespace TreeCompare.Console

/-- Takes `tail` away from the end of a text, at most `budget` times. -/
def stripTail (tail : List Char) : (budget : Nat) → List Char → List Char
  | 0, text => text
  | budget + 1, text =>
      if !tail.isEmpty && tail.isSuffixOf text then
        stripTail tail budget (text.take (text.length - tail.length))
      else text

/-- Takes characters away from the end of a text as long as they belong to a class. -/
def stripEnd (drop : Char → Bool) (text : List Char) : List Char :=
  (text.reverse.dropWhile drop).reverse

/-- A message without what its cause repeats. -/
def clean (message cause : List Char) : List Char :=
  stripEnd (· == ':') (stripEnd Printable.whiteSpace.contains
    (stripTail cause message.length message))

/-- The messages of a chain after the cleaning, with whether each has changed. -/
def cleanAll : List (List Char) → List (List Char × Bool)
  | [] => []
  | [last] => [(last, false)]
  | message :: cause :: rest =>
      let cleaned := clean message cause
      (cleaned, cleaned.length != message.length) :: cleanAll (cause :: rest)

def causeLine (index : Nat) (message : String) : String :=
  Numeral.padLeft 3 (Numeral.decimal index) ++ ": " ++ message ++ "\n"

def causeLines (first : Nat) : List String → String
  | [] => ""
  | message :: rest => causeLine first message ++ causeLines (first + 1) rest

/-- The messages that are shown, the first of them on a line of its own. -/
def body : List String → String
  | [] => ""
  | [message] => message ++ "\n"
  | [message, cause] => message ++ "\n\nCaused by this error:\n" ++ causeLine 1 cause
  | message :: causes =>
      message ++ "\n\nCaused by these errors (recent errors listed first):\n" ++ causeLines 1 causes

/-- The note under a chain from which something was taken away. -/
def note (marked : Bool) : String :=
  "\nNOTE: Some redundant information has been removed"
    ++ (if marked then " from the lines marked with *" else "")
    ++ ". Set SNAFU_RAW_ERROR_MESSAGES=1 to disable this behavior.\n"

/-- A message as it is shown, unless nothing is left of it. -/
def shown? (m : List Char × Bool) : Option String :=
  if m.1.isEmpty then none else some (String.ofList m.1 ++ if m.2 then " *" else "")

/-- The text of an error from its message and those of its causes. -/
def report (chain : List String) : String :=
  let cleaned := cleanAll (chain.map String.toList)
  let lines := cleaned.filterMap shown?
  let marked := cleaned.any fun m => m.2 && !m.1.isEmpty
  let removed := cleaned.any (·.1.isEmpty)
  if lines.isEmpty then "" else body lines ++ if marked || removed then note marked else ""

def rawReport (chain : List String) : String := body chain

end TreeCompare.Console
