/-!
# Test listings

A listing has one test to a line, its name followed by `: test`, and ends at
the first empty line. A line ends with a line feed, and one carriage return
before that belongs to the end; the last line may be unended. Lines without the
suffix are taken as names as they are.
-/
namespace TreeCompare.Listing

def lines : List Char → List (List Char)
  | [] => []
  | '\n' :: rest => [] :: lines rest
  | '\r' :: '\n' :: rest => [] :: lines rest
  | c :: rest =>
      match lines rest with
      | [] => [[c]]
      | line :: more => (c :: line) :: more

def suffix : List Char := [':', ' ', 't', 'e', 's', 't']

/-- The name on a line: the line without one suffix. -/
def nameOf (line : List Char) : List Char :=
  if suffix.isSuffixOf line then line.take (line.length - suffix.length) else line

def parseChars (text : List Char) : List (List Char) :=
  ((lines text).takeWhile (!·.isEmpty)).map nameOf

/-- The names of the tests in a listing, in order and with repetitions. -/
def parse (text : String) : List String := (parseChars text.toList).map String.ofList

/-- How a line can end. -/
inductive Ending
  | lineFeed
  | carriageReturn
deriving DecidableEq, Repr

def Ending.chars : Ending → List Char
  | .lineFeed => ['\n']
  | .carriageReturn => ['\r', '\n']

/-- The lines of a listing for names with the ends of their lines. -/
def render (tests : List (List Char × Ending)) : List Char :=
  tests.flatMap fun t => t.1 ++ suffix ++ t.2.chars

end TreeCompare.Listing
