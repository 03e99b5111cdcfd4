import PulseNoise.Error

/-!
# Steps of a run

A run threads a state through its steps (the state of the samplers, of a type that the library
leaves open), stops at the first failure and writes down events on the way. An `Action` is one
such step. After a failure the state and the events are kept as they were left: a sampler that has
drawn before the failure has drawn. `Action.within` runs a step on a part of a larger state.
-/

namespace PulseNoise

/-- How much an event matters. -/
inductive Level
  | warning
  | debug
  | trace
  deriving DecidableEq, Repr

/-- What a run writes down while it goes on. -/
structure Event where
  level : Level
  text : String
  deriving DecidableEq, Repr

/-- What a step leaves behind: its result, the state after it, and the events of the step. -/
structure Reply (σ α : Type) where
  result : Except Error α
  state : σ
  events : List Event

/-- A part of a state that can be read and replaced. -/
structure Cell (σ τ : Type) where
  get : σ → τ
  set : τ → σ → σ

/-- A step of a run: from the state before it to what it leaves behind. -/
def Action (σ α : Type) : Type := σ → Reply σ α

namespace Action

variable {σ τ α β : Type}

/-- The step that does nothing and has a result. -/
protected def pure (a : α) : Action σ α := fun s => ⟨.ok a, s, []⟩

/-- A step and then, unless it failed, the one made from its result. -/
protected def bind (x : Action σ α) (f : α → Action σ β) : Action σ β := fun s =>
  match x s with
  | ⟨.error e, s', events⟩ => ⟨.error e, s', events⟩
  | ⟨.ok a, s', events⟩ =>
    let reply := f a s'
    ⟨reply.result, reply.state, events ++ reply.events⟩

instance : Monad (Action σ) where
  pure := Action.pure
  bind := Action.bind

/-- A computation as a step that neither reads nor changes the state. -/
def ofExcept (x : Except Error α) : Action σ α := fun s => ⟨x, s, []⟩

instance : MonadLift (Except Error) (Action σ) := ⟨ofExcept⟩

def fail (e : Error) : Action σ α := fun s => ⟨.error e, s, []⟩

def record (level : Level) (text : String) : Action σ Unit :=
  fun s => ⟨.ok (), s, [⟨level, text⟩]⟩

/-- A step on a part of the state; the rest of the state stays as it is. -/
def within (cell : Cell σ τ) (x : Action τ α) : Action σ α := fun s =>
  let reply := x (cell.get s)
  ⟨reply.result, cell.set reply.state s, reply.events⟩

@[simp]
theorem run_pure (a : α) (s : σ) : (pure a : Action σ α) s = ⟨.ok a, s, []⟩ := rfl

@[simp]
theorem run_ofExcept (x : Except Error α) (s : σ) : ofExcept x s = ⟨x, s, []⟩ := rfl

@[simp]
theorem run_fail (e : Error) (s : σ) : (fail e : Action σ α) s = ⟨.error e, s, []⟩ := rfl

@[simp]
theorem run_record (level : Level) (text : String) (s : σ) :
    record level text s = ⟨.ok (), s, [⟨level, text⟩]⟩ := rfl

/-- A step that failed is all that happens. -/
theorem run_bind_of_error {x : Action σ α} {f : α → Action σ β} {s s' : σ} {e : Error}
    {events : List Event} (h : x s = ⟨.error e, s', events⟩) :
    (x >>= f) s = ⟨.error e, s', events⟩ := by
  show Action.bind x f s = _
  simp [Action.bind, h]

/-- After a step that succeeded the next one goes on from its state. -/
theorem run_bind_of_ok {x : Action σ α} {f : α → Action σ β} {s s' : σ} {a : α}
    {events : List Event} (h : x s = ⟨.ok a, s', events⟩) :
    (x >>= f) s = ⟨(f a s').result, (f a s').state, events ++ (f a s').events⟩ := by
  show Action.bind x f s = _
  simp [Action.bind, h]

instance : LawfulMonad (Action σ) :=
  LawfulMonad.mk' (Action σ)
    (by
      intro α x
      funext s
      show Action.bind x (fun a => Action.pure a) s = x s
      rcases h : x s with ⟨result, s', events⟩
      cases result <;> simp [Action.bind, Action.pure, h])
    (by
      intro α β a f
      funext s
      show Action.bind (Action.pure a) f s = f a s
      simp [Action.bind, Action.pure])
    (by
      intro α β γ x f g
      funext s
      show Action.bind (Action.bind x f) g s = Action.bind x (fun a => Action.bind (f a) g) s
      rcases h : x s with ⟨result, s', events⟩
      cases result with
      | error e => simp [Action.bind, h]
      | ok a =>
        rcases h' : f a s' with ⟨result', s'', events'⟩
        cases result' <;> simp [Action.bind, h, h'])

end Action

end PulseNoise
