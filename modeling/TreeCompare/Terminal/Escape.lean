/-!
# Escape sequences

A terminal is told how to set a text by a sequence in front of it, and takes the
setting back at another sequence behind it.
-/
namespace TreeCompare.Terminal

/-- The sequence that takes all settings back. -/
def reset : String := "\x1b[0m"

/-- A text between the sequence of a setting and the one that takes it back. -/
def paint (setting text : String) : String := "\x1b[" ++ setting ++ "m" ++ text ++ reset

end TreeCompare.Terminal
