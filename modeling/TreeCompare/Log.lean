/-!
# Log events

What the library reports about its own work: events with a severity, the part
of the program they come from, and a message. A computation carries its events
in order, also those before the error that ends it. A verbosity says which
events are wanted.
-/
namespace TreeCompare

namespace Log

/-- How much an event matters, the gravest first. -/
inductive Severity
  | error
  | warn
  | info
  | debug
  | trace
deriving DecidableEq, Repr

/-- The rank of a severity; graver events rank lower. -/
def Severity.rank : Severity → Nat
  | .error => 0
  | .warn => 1
  | .info => 2
  | .debug => 3
  | .trace => 4

def Severity.name : Severity → String
  | .error => "ERROR"
  | .warn => "WARN"
  | .info => "INFO"
  | .debug => "DEBUG"
  | .trace => "TRACE"

structure Event where
  severity : Severity
  target : String
  message : String
deriving DecidableEq, Repr

/-- What a user can ask for; `silent` asks for no events at all. -/
inductive Verbosity
  | trace
  | debug
  | info
  | warn
  | error
  | silent
deriving DecidableEq, Repr

namespace Verbosity

/-- All verbosities in the order in which they are offered. -/
def all : List Verbosity := [.trace, .debug, .info, .warn, .error, .silent]

/-- The verbosity of a run that asks for none. -/
def standard : Verbosity := .warn

/-- The word that asks for a verbosity. -/
def word : Verbosity → String
  | .trace => "trace"
  | .debug => "debug"
  | .info => "info"
  | .warn => "warn"
  | .error => "error"
  | .silent => "silent"

/-- The name of a verbosity where a whole configuration is logged. -/
def label : Verbosity → String
  | .trace => "Trace"
  | .debug => "Debug"
  | .info => "Info"
  | .warn => "Warn"
  | .error => "Error"
  | .silent => "Silent"

/-- The least grave events that are wanted, if any are. -/
def threshold? : Verbosity → Option Severity
  | .trace => some .trace
  | .debug => some .debug
  | .info => some .info
  | .warn => some .warn
  | .error => some .error
  | .silent => none

/-- The verbosity that a word asks for; ASCII case may be ignored. -/
def parse? (ignoreCase : Bool) (text : String) : Option Verbosity :=
  let fold (s : String) : String := if ignoreCase then s.map Char.toLower else s
  all.find? fun v => fold v.word == fold text

def wants (v : Verbosity) (e : Event) : Bool :=
  match v.threshold? with
  | none => false
  | some threshold => e.severity.rank ≤ threshold.rank

end Verbosity

end Log

/-- A computation that has logged events and has a value or has failed. -/
structure Logged (ε α : Type) where
  events : List Log.Event
  result : Except ε α

namespace Logged

variable {ε ε' α β : Type}

def bind (x : Logged ε α) (f : α → Logged ε β) : Logged ε β :=
  match x.result with
  | .error e => ⟨x.events, .error e⟩
  | .ok a =>
      let y := f a
      ⟨x.events ++ y.events, y.result⟩

instance : Monad (Logged ε) where
  pure a := ⟨[], .ok a⟩
  bind := bind

def log (severity : Log.Severity) (target message : String) : Logged ε Unit :=
  ⟨[⟨severity, target, message⟩], .ok ()⟩

/-- A result that logs nothing. -/
def quiet (result : Except ε α) : Logged ε α := ⟨[], result⟩

/-- Names the error of a computation in the terms of its caller. -/
def mapError (f : ε → ε') (x : Logged ε α) : Logged ε' α :=
  ⟨x.events, x.result.mapError f⟩

@[simp] theorem pure_eq (a : α) : (pure a : Logged ε α) = ⟨[], .ok a⟩ := rfl

@[simp] theorem bind_ok (events : List Log.Event) (a : α) (f : α → Logged ε β) :
    (⟨events, .ok a⟩ : Logged ε α) >>= f = ⟨events ++ (f a).events, (f a).result⟩ := rfl

@[simp] theorem bind_error (events : List Log.Event) (e : ε) (f : α → Logged ε β) :
    (⟨events, .error e⟩ : Logged ε α) >>= f = ⟨events, .error e⟩ := rfl

instance : LawfulMonad (Logged ε) :=
  LawfulMonad.mk' (Logged ε)
    (by rintro α ⟨events, _ | a⟩ <;> simp [Functor.map, Logged.bind])
    (by intros; simp)
    (by
      rintro α β γ ⟨events, _ | a⟩ f g
      · simp
      · rcases hf : f a with ⟨more, _ | b⟩ <;> simp [hf])

@[simp] theorem result_bind (x : Logged ε α) (f : α → Logged ε β) :
    (x >>= f).result = x.result >>= fun a => (f a).result := by
  rcases x with ⟨events, _ | a⟩ <;> rfl

theorem bind_eq_ok {x : Logged ε α} {f : α → Logged ε β} {events : List Log.Event} {b : β}
    (h : x >>= f = ⟨events, .ok b⟩) :
    ∃ before a after, x = ⟨before, .ok a⟩ ∧ f a = ⟨after, .ok b⟩ ∧ events = before ++ after := by
  rcases x with ⟨before, _ | a⟩
  · cases h
  · rcases hf : f a with ⟨after, result⟩
    simp only [bind_ok, hf, mk.injEq] at h
    exact ⟨before, a, after, rfl, by rw [hf, h.2], h.1.symm⟩

@[simp] theorem result_log (severity : Log.Severity) (target message : String) :
    (log severity target message : Logged ε Unit).result = .ok () := rfl

@[simp] theorem result_quiet (result : Except ε α) : (quiet result).result = result := rfl

end Logged

/-- What an action on a state leaves behind, whether it fails or not. -/
structure Effect (σ ε α : Type) where
  events : List Log.Event
  state : σ
  result : Except ε α

/-- The state and the result of an effect, whatever its events. -/
theorem Effect.of_exists {σ ε α : Type} {x : Effect σ ε α} {t : σ} {result : Except ε α}
    (h : ∃ events, x = ⟨events, t, result⟩) : x.state = t ∧ x.result = result := by
  obtain ⟨events, rfl⟩ := h
  exact ⟨rfl, rfl⟩

/-- A computation that logs, changes a state and may fail. -/
def Action (σ ε α : Type) : Type := σ → Effect σ ε α

namespace Action

variable {σ ε ε' α β : Type}

def bind (x : Action σ ε α) (f : α → Action σ ε β) : Action σ ε β := fun s =>
  let before := x s
  match before.result with
  | .error e => ⟨before.events, before.state, .error e⟩
  | .ok a =>
      let after := f a before.state
      ⟨before.events ++ after.events, after.state, after.result⟩

instance : Monad (Action σ ε) where
  pure a := fun s => ⟨[], s, .ok a⟩
  bind := bind

def log (severity : Log.Severity) (target message : String) : Action σ ε Unit := fun s =>
  ⟨[⟨severity, target, message⟩], s, .ok ()⟩

/-- A computation that does not touch the state. -/
def ofLogged (x : Logged ε α) : Action σ ε α := fun s => ⟨x.events, s, x.result⟩

/-- A change of the state that logs nothing. -/
def ofStep (step : σ → σ × Except ε α) : Action σ ε α := fun s =>
  let after := step s
  ⟨[], after.1, after.2⟩

/-- Names the error of an action in the terms of its caller. -/
def mapError (f : ε → ε') (x : Action σ ε α) : Action σ ε' α := fun s =>
  let after := x s
  ⟨after.events, after.state, after.result.mapError f⟩

theorem bind_of_ok {x : Action σ ε α} {f : α → Action σ ε β} {s t u : σ} {a : α}
    {before after : List Log.Event} {result : Except ε β} (h : x s = ⟨before, t, .ok a⟩)
    (h' : f a t = ⟨after, u, result⟩) : (x >>= f) s = ⟨before ++ after, u, result⟩ := by
  change bind x f s = _
  simp [bind, h, h']

theorem bind_of_error {x : Action σ ε α} {f : α → Action σ ε β} {s t : σ} {e : ε}
    {events : List Log.Event} (h : x s = ⟨events, t, .error e⟩) :
    (x >>= f) s = ⟨events, t, .error e⟩ := by
  change bind x f s = _
  simp [bind, h]

theorem log_bind {f : Unit → Action σ ε β} {s t : σ} {events : List Log.Event}
    {result : Except ε β} (h : f () s = ⟨events, t, result⟩) (severity : Log.Severity)
    (target message : String) :
    (log severity target message >>= f) s = ⟨⟨severity, target, message⟩ :: events, t, result⟩ := by
  have hlog : (log severity target message : Action σ ε Unit) s =
    ⟨[⟨severity, target, message⟩], s, .ok ()⟩ := rfl
  exact bind_of_ok hlog h

theorem mapError_of {x : Action σ ε α} {s t : σ} {events : List Log.Event}
    {result : Except ε α} (h : x s = ⟨events, t, result⟩) (f : ε → ε') :
    x.mapError f s = ⟨events, t, result.mapError f⟩ := by
  rw [mapError, h]

theorem result_bind_of_ok {x : Action σ ε α} {f : α → Action σ ε β} {s : σ} {a : α}
    (h : (x s).result = .ok a) : ((x >>= f) s).result = (f a (x s).state).result := by
  change (bind x f s).result = _
  simp [bind, h]

theorem result_bind_of_error {x : Action σ ε α} {f : α → Action σ ε β} {s : σ} {e : ε}
    (h : (x s).result = .error e) : ((x >>= f) s).result = .error e := by
  change (bind x f s).result = _
  simp [bind, h]

end Action

end TreeCompare
