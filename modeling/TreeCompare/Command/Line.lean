import TreeCompare.Command.UsageError
import TreeCompare.Path.Basic

/-!
# Command lines

Arguments are taken from left to right. The value of an argument is checked
only when the next argument that means something has been met, so an unknown
flag or a surplus argument is reported before a bad value in front of it, while
help and version requests and positional arguments come after that check.
Everything after the first `--` is positional, and so is a lone `-`.
-/
namespace TreeCompare.CommandLine

/-- Why a command line does not start a run. -/
inductive Stop
  | help (long : Bool)
  | version
  | usage (error : UsageError)
deriving DecidableEq, Repr

/-- An argument whose value has not been checked yet. -/
inductive Pending
  | level (value : Option (List UInt8))
  | positional (value : List UInt8)
deriving DecidableEq, Repr

/-- What has been taken from a command line so far. -/
structure State where
  roots : List Path
  level : Option Log.Verbosity
  pending : Option Pending
deriving DecidableEq, Repr

/-- What a run is asked for. -/
structure Options where
  roots : List Path
  level : Log.Verbosity
deriving DecidableEq, Repr

namespace State

def start : State := ⟨[], none, none⟩

def positionalCount (s : State) : Nat :=
  s.roots.length + match s.pending with
    | some (.positional _) => 1
    | _ => 0

def takeLevel (s : State) (value : List UInt8) : Except UsageError State :=
  if s.level.isSome then .error .repeatedLevel
  else match (Utf8.decode? value).bind (Log.Verbosity.parse? false) with
    | some level => .ok { s with level := some level }
    | none => .error (.badLevel (Utf8.lossy value))

/-- Checks the argument that is still pending. -/
def settle (t : Tool) (s : State) : Except UsageError State :=
  let clear : State := { s with pending := none }
  match s.pending with
  | none => .ok s
  | some (.level none) => .error .missingLevel
  | some (.level (some value)) => clear.takeLevel value
  | some (.positional value) =>
      if value.isEmpty then
        .error (.emptyPositional ((t.positionals[s.roots.length]?).elim "" (·.shown)))
      else .ok { clear with roots := s.roots ++ [⟨value⟩] }

/-- Which arguments a usage error repeats: those that had been given and are good. -/
def given (t : Tool) (s : State) : Bool × Bool :=
  match s.settle t with
  | .ok s => (s.level.isSome, !s.roots.isEmpty)
  | .error _ => (s.level.isSome, !s.roots.isEmpty)

/-- Checks what is pending and then stops. -/
def stop (t : Tool) (s : State) (reason : Stop) : Stop :=
  match s.settle t with
  | .ok _ => reason
  | .error e => .usage e

def positional (t : Tool) (s : State) (argument : List UInt8) : Except Stop State :=
  if s.positionalCount < t.positionals.length then do
    let s ← (s.settle t).mapError .usage
    return { s with pending := some (.positional argument) }
  else .error (.usage (.surplus (Utf8.lossy argument)))

/-- Takes the level option, with its value if that is attached. -/
def levelOption (t : Tool) (s : State) (value : Option (List UInt8)) : Except Stop State := do
  let s ← (s.settle t).mapError .usage
  match value with
  | some value => (s.takeLevel value).mapError .usage
  | none => return { s with pending := some (.level none) }

def long (t : Tool) (s : State) (nameBytes : List UInt8) (value : Option (List UInt8)) :
    Except Stop State :=
  let name := Utf8.lossy nameBytes
  let given := s.given t
  let flag (reason : Stop) : Except Stop State :=
    match value with
    | some value => .error (.usage (.flagWithValue name (Utf8.lossy value) given.1 given.2))
    | none => .error (s.stop t reason)
  if name = Tool.levelOption then s.levelOption t value
  else if name = Tool.helpFlag then flag (.help true)
  else if name = Tool.versionFlag then flag .version
  else .error (.usage (.unknownLong name given.1 given.2 false))

/-- The value in the same argument as a short option: what follows it, less an
equals sign in front. -/
def attached (rest : List UInt8) : Option (List UInt8) :=
  match rest with
  | [] => none
  | 0x3d :: value => some value
  | value => some value

/-- Takes short flags; `-h` and `-V` end the command line, and the level option
takes the rest of the argument. -/
def short (t : Tool) (s : State) (lead : UInt8) (rest : List UInt8) : Except Stop State :=
  match Utf8.next lead rest with
  | (.char 'h', _) => .error (s.stop t (.help false))
  | (.char 'V', _) => .error (s.stop t .version)
  | (.char 'l', rest) => s.levelOption t (attached rest)
  | (.char c, _) => .error (.usage (.unknownShort (String.ofList ['-', c])))
  | (.broken _, _) => .error (.usage (.unknownShort ("-" ++ Utf8.lossy (lead :: rest))))

def argument (t : Tool) (s : State) (argument : List UInt8) : Except Stop State :=
  let plain : Except Stop State :=
    if s.pending = some (.level none) then
      .ok { s with pending := some (.level (some argument)) }
    else s.positional t argument
  match argument with
  | 0x2d :: 0x2d :: rest =>
      let name := rest.takeWhile (· ≠ 0x3d)
      s.long t name (if name.length < rest.length then some (rest.drop (name.length + 1)) else none)
  | 0x2d :: lead :: rest => s.short t lead rest
  | _ => plain

end State

/-- The argument after which all are positional. -/
def escape : List UInt8 := [0x2d, 0x2d]

def takeAll (t : Tool) : (escaped : Bool) → State → List (List UInt8) → Except Stop State
  | _, s, [] => .ok s
  | true, s, argument :: rest => do takeAll t true (← s.positional t argument) rest
  | false, s, argument :: rest =>
      if argument = escape then takeAll t true s rest
      else do takeAll t false (← s.argument t argument) rest

def parse (t : Tool) (arguments : List (List UInt8)) : Except Stop Options := do
  let s ← takeAll t false .start arguments
  let s ← (s.settle t).mapError .usage
  let missing := (t.positionals.drop s.roots.length).map (·.shown)
  if missing.isEmpty then return ⟨s.roots, s.level.getD .standard⟩
  else .error (.usage (.missingPositionals missing s.level.isSome))

end TreeCompare.CommandLine
