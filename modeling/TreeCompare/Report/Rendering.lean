import TreeCompare.Files.IoError
import TreeCompare.Report.Basic
import TreeCompare.Terminal.Escape

/-!
# Writing a report

A report is written piece by piece to a sink, then the sink is flushed. The
plain style writes the lines as they are; the colored style puts escape
sequences around the labels, unless colors are off. A sink may have room for so
many bytes only: it takes what fits and then refuses with an error of its own.
-/
namespace TreeCompare

inductive Style
  | plain
  | colored
deriving DecidableEq, Repr

/-- How an outcome's label is set: green, bold red or yellow. -/
def Outcome.setting : Outcome → String
  | .same _ _ _ => "32"
  | .differs _ _ _ => "1;31"
  | .missing _ => "33"

/-- The label in a style; `colors` says whether the colored style may use escapes. -/
def Outcome.styledLabel (style : Style) (colors : Bool) (o : Outcome) : String :=
  if style = .colored ∧ colors then Terminal.paint o.setting o.label else o.label

/-- How many more bytes a sink takes, and the error with which it refuses others. It is not
that the writing was interrupted: then it is tried again, and nobody hears of it. -/
structure Limit where
  room : Nat
  error : IoError
  final : error ≠ .interrupted
deriving DecidableEq, Repr

/-- Where bytes are written: those taken so far, the last of them first, the limit if there
is one, and the error with which the last flush fails if it does. -/
structure Sink where
  taken : List UInt8
  limit : Option Limit
  flushError : Option IoError
deriving DecidableEq, Repr

namespace Sink

def unlimited : Sink := ⟨[], none, none⟩

/-- The bytes taken so far in the order in which they came. -/
def written (s : Sink) : List UInt8 := s.taken.reverse

/-- Takes bytes that fit. -/
def take (s : Sink) (bytes : List UInt8) (limit : Option Limit) : Sink :=
  { s with taken := bytes.reverseAux s.taken, limit := limit }

/-- Takes bytes, as many as fit. -/
def write (s : Sink) (bytes : List UInt8) : Sink × Except IoError Unit :=
  match s.limit with
  | none => (s.take bytes none, .ok ())
  | some limit =>
      if bytes.length ≤ limit.room then
        (s.take bytes (some { limit with room := limit.room - bytes.length }), .ok ())
      else
        (s.take (bytes.take limit.room) (some { limit with room := 0 }), .error limit.error)

@[simp] theorem written_take (s : Sink) (bytes : List UInt8) (limit : Option Limit) :
    (s.take bytes limit).written = s.written ++ bytes := by
  simp [take, written, List.reverseAux_eq]

def flush (s : Sink) : Except IoError Unit :=
  match s.flushError with
  | none => .ok ()
  | some e => .error e

/-- Writes pieces up to the first that is refused, then flushes. -/
def writeAll (s : Sink) : List (List UInt8) → Sink × Except IoError Unit
  | [] => (s, s.flush)
  | piece :: rest =>
      match s.write piece with
      | (s, .ok ()) => s.writeAll rest
      | (s, .error e) => (s, .error e)

end Sink

namespace Report

def outcomePieces (style : Style) (colors : Bool) (o : Outcome) : List String :=
  [o.styledLabel style colors, ": ", o.detail, "\n"]

def pieces (style : Style) (colors : Bool) (r : Report) : List String :=
  r.outcomes.flatMap (outcomePieces style colors) ++ [r.summary.text, "\n"]

def render (style : Style) (colors : Bool) (r : Report) : String :=
  String.join (r.pieces style colors)

def writeTo (r : Report) (style : Style) (colors : Bool) (sink : Sink) :
    Sink × Except IoError Unit :=
  sink.writeAll ((r.pieces style colors).map Utf8.encode)

end Report

end TreeCompare
