import TreeCompare.Command.Tool
import TreeCompare.Text.Similarity

/-!
# Usage errors

What can be wrong with a command line, and the text that says so together with
a hint and the usage.
-/
namespace TreeCompare

inductive UsageError
  /-- A flag of this long name is not known; `levelGiven` and `positionalGiven`
  say what had been given before it. -/
  | unknownLong (name : String) (levelGiven positionalGiven escaped : Bool)
  | unknownShort (flag : String)
  | surplus (argument : String)
  | badLevel (value : String)
  | missingLevel
  | emptyPositional (shown : String)
  | repeatedLevel
  | flagWithValue (name value : String) (levelGiven positionalGiven : Bool)
  | missingPositionals (shown : List String) (levelGiven : Bool)
deriving DecidableEq, Repr

namespace UsageError

def requiredText (what : String) : String :=
  "a value is required for '" ++ what ++ "' but none was supplied"

def possibleText : String := "\n  [possible values: " ++ Tool.levelWords ++ "]"

def similarText (what good : String) : String :=
  "\n\n  tip: a similar " ++ what ++ " exists: '" ++ good ++ "'"

def escapeText (argument : String) : String :=
  "\n\n  tip: to pass '" ++ argument ++ "' as a value, use '-- " ++ argument ++ "'"

def usageText (t : Tool) (levelGiven positionalGiven : Bool) (suggested : Option String) :
    String :=
  let level := if levelGiven then [Tool.levelShown] else []
  let extra := match suggested with
    | none => []
    | some name =>
        if name = Tool.levelOption then if levelGiven then [] else [Tool.levelShown]
        else ["--" ++ name]
  "\n\n" ++ if levelGiven || positionalGiven || suggested.isSome then t.usage (level ++ extra)
    else t.fullUsage

def body (t : Tool) : UsageError → String
  | .unknownLong name levelGiven positionalGiven escaped =>
      let suggested := Similarity.nearest? name Tool.longNames
      "unexpected argument '--" ++ name ++ "' found"
        ++ (match suggested with
          | some good => similarText "argument" ("--" ++ good)
          | none => if escaped || t.positionals.isEmpty then "" else escapeText ("--" ++ name))
        ++ usageText t levelGiven positionalGiven suggested
  | .unknownShort flag =>
      "unexpected argument '" ++ flag ++ "' found"
        ++ (if t.positionals.isEmpty then "" else escapeText flag)
        ++ "\n\n" ++ t.fullUsage
  | .surplus argument => "unexpected argument '" ++ argument ++ "' found\n\n" ++ t.fullUsage
  | .badLevel value =>
      if value = "" then requiredText Tool.levelShown ++ possibleText
      else
        "invalid value '" ++ value ++ "' for '" ++ Tool.levelShown ++ "'" ++ possibleText
          ++ match Similarity.nearest? value (Log.Verbosity.all.map Log.Verbosity.word) with
            | some good => similarText "value" good
            | none => ""
  | .missingLevel => requiredText Tool.levelShown ++ possibleText
  | .emptyPositional shown => requiredText shown
  | .repeatedLevel =>
      "the argument '" ++ Tool.levelShown ++ "' cannot be used multiple times\n\n" ++ t.fullUsage
  | .flagWithValue name value levelGiven positionalGiven =>
      "unexpected value '" ++ value ++ "' for '--" ++ name ++ "' found; no more were expected"
        ++ usageText t levelGiven positionalGiven none
  | .missingPositionals shown levelGiven =>
      "the following required arguments were not provided:"
        ++ String.join (shown.map ("\n  " ++ ·)) ++ usageText t levelGiven true none

def text (t : Tool) (e : UsageError) : String :=
  "error: " ++ e.body t ++ "\n\nFor more information, try '--help'.\n"

end UsageError

end TreeCompare
