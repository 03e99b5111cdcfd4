import PulseNoise.Proofs.Stage

/-!
# Sources with the same effect

What a run takes from an answer is the workpiece that it makes of it. An answer that says nothing
about the accumulator means the one that was given, and in a run that one has no ideal term, so
that an answer is refused or taken in for its effect alone. Sources whose answers always have the
same effect can stand in for each other anywhere in a run.

* `Source.absorb_congr` says that an answer is taken in for its effect.
* `process_congr_of_sameEffect` puts sources with the same effect in the place of others.
* `process_rewordedAs` is the case of sources that say in another way that nothing changes.
-/

namespace PulseNoise

variable {σ α β : Type}

namespace Action

theorem run_map (f : α → β) (x : Action σ α) (s : σ) :
    (f <$> x) s = ⟨f <$> (x s).result, (x s).state, (x s).events⟩ := by
  rw [← bind_pure_comp]
  rcases h : x s with ⟨result, s', events⟩
  cases result with
  | error e => exact run_bind_of_error h
  | ok a =>
    rw [run_bind_of_ok h]
    exact congrArg (Reply.mk _ _) (List.append_nil events)

theorem bind_congr_of_ok {x : Action σ α} {f g : α → Action σ β} {s : σ}
    (h : ∀ a s', x.yield s = .ok (a, s') → f a s' = g a s') : (x >>= f) s = (x >>= g) s := by
  rcases hx : x s with ⟨result, s', events⟩
  cases result with
  | error e => rw [run_bind_of_error hx, run_bind_of_error hx]
  | ok a =>
    have hyield : x.yield s = .ok (a, s') := by
      rw [yield_eq_ok_iff, hx]
      exact ⟨rfl, rfl⟩
    rw [run_bind_of_ok hx, run_bind_of_ok hx, h a s' hyield]

end Action

/-! ## Effects of answers -/

namespace Source

/-- An answer is as faulty as the one that spells out its pulses and its accumulator. -/
theorem fault?_eq_of_onto (source : Source σ) {work : Workpiece}
    (hideal : work.accumulator.ideal = none) (outcome : Outcome) :
    source.fault? work.pulses.length outcome = source.fault? work.pulses.length
      (.pulsesAndAccumulator (outcome.onto work).pulses (outcome.onto work).accumulator) := by
  cases outcome with
  | unchanged => simp only [fault?, Outcome.onto, if_true, hideal]
  | pulses noisy => simp only [fault?, Outcome.onto, if_true, hideal]
  | pulsesAndAccumulator noisy accumulator => rfl

theorem absorb_congr (source : Source σ) {work : Workpiece}
    (hideal : work.accumulator.ideal = none) {left right : Outcome}
    (h : left.onto work = right.onto work) :
    source.absorb work left = source.absorb work right := by
  rw [absorb_eq, absorb_eq, source.fault?_eq_of_onto hideal left,
    source.fault?_eq_of_onto hideal right, h]

theorem absorb_of_name_eq {left right : Source σ} (h : left.name = right.name)
    (work : Workpiece) (outcome : Outcome) :
    left.absorb work outcome = right.absorb work outcome := by
  -- the name is there for the error of a faulty answer
  cases outcome <;> simp only [absorb, checkCount, checkAccumulator, h]

/-- Two sources of the same name and flag whose answers have the same effect, also on the state,
in the events and when they fail. -/
structure SameEffect (left right : Source σ) : Prop where
  name_eq : left.name = right.name
  isDevice_eq : left.isDevice = right.isDevice
  answer_eq : ∀ dims work, work.accumulator.ideal = none →
    (·.onto work) <$> left.noisyPulses dims work.pulses work.accumulator =
      (·.onto work) <$> right.noisyPulses dims work.pulses work.accumulator

namespace SameEffect

theorem refl (source : Source σ) : source.SameEffect source := ⟨rfl, rfl, fun _ _ _ => rfl⟩

variable {left right : Source σ}

theorem apply_eq (h : left.SameEffect right) (dims : List Nat) {work : Workpiece}
    (hideal : work.accumulator.ideal = none) : left.apply dims work = right.apply dims work := by
  funext s
  -- the two answers leave the same behind, outcomes with the same effect apart
  have hanswer := congrFun (h.answer_eq dims work hideal) s
  rw [Action.run_map, Action.run_map] at hanswer
  obtain ⟨hresult, hstate, hevents⟩ := Reply.mk.inj hanswer
  unfold apply
  rcases hl : left.noisyPulses dims work.pulses work.accumulator s with ⟨result, s', events⟩
  rcases hr : right.noisyPulses dims work.pulses work.accumulator s with ⟨result', s'', events'⟩
  rw [hl, hr] at hresult hstate hevents
  obtain rfl : s' = s'' := hstate
  obtain rfl : events = events' := hevents
  cases result with
  | error e =>
    cases result' with
    | error e' =>
      obtain rfl : e = e' := Except.error.inj hresult
      rw [Action.run_bind_of_error hl, Action.run_bind_of_error hr]
    | ok outcome => cases hresult
  | ok outcome =>
    cases result' with
    | error e' => cases hresult
    | ok outcome' =>
      have honto : outcome.onto work = outcome'.onto work := Except.ok.inj hresult
      have habsorb : left.absorb work outcome = right.absorb work outcome' :=
        (left.absorb_congr hideal honto).trans (absorb_of_name_eq h.name_eq work outcome')
      rw [Action.run_bind_of_ok hl, Action.run_bind_of_ok hr, habsorb]

theorem runSource_eq (h : left.SameEffect right) (deviceNoise : Bool) (dims : List Nat)
    {work : Workpiece} (hideal : work.accumulator.ideal = none) :
    runSource deviceNoise dims work left = runSource deviceNoise dims work right := by
  unfold runSource isSkipped
  rw [h.name_eq, h.isDevice_eq, h.apply_eq dims hideal]

end SameEffect

end Source

/-! ## Runs -/

theorem runSources_congr {lefts rights : List (Source σ)}
    (h : List.Forall₂ Source.SameEffect lefts rights) (deviceNoise : Bool) (dims : List Nat)
    {work : Workpiece} (hideal : work.accumulator.ideal = none) :
    runSources deviceNoise dims lefts work = runSources deviceNoise dims rights work := by
  -- the sources in front are the same in effect, so both runs reach the same accumulators
  induction h generalizing work with
  | nil => rfl
  | cons hhead _ ih =>
    unfold runSources at ih ⊢
    rw [List.foldlM_cons, List.foldlM_cons, hhead.runSource_eq deviceNoise dims hideal]
    funext s
    exact Action.bind_congr_of_ok fun work' s' hstep =>
      congrFun (ih (runSource_keeps_ideal hideal hstep)) s'

/-- Sources that stand in for others of the same effect do not change a run: neither its result,
nor the state that it leaves, nor its events. -/
theorem process_congr_of_sameEffect {lefts rights : List (Source σ)}
    (h : List.Forall₂ Source.SameEffect lefts rights) (pulses : List Pulse) (options : Options) :
    process pulses lefts options = process pulses rights options := by
  have hall : List.Forall₂ Source.SameEffect (allSources lefts options)
      (allSources rights options) :=
    List.rel_append h (List.forall₂_same.2 fun source _ => .refl source)
  have hruns (dims : List Nat) :
      runSources options.deviceNoise dims (allSources lefts options)
          ⟨pulses, Pulse.systematic options.interpolation⟩ =
        runSources options.deviceNoise dims (allSources rights options)
          ⟨pulses, Pulse.systematic options.interpolation⟩ :=
    runSources_congr hall options.deviceNoise dims rfl
  simp only [process, hruns]

/-! ## Ways of saying that nothing changes -/

/-- The three ways in which a source can answer that nothing changes. -/
inductive NoChange
  | unchanged
  | pulses
  | pulsesAndAccumulator
  deriving DecidableEq

/-- The answer that nothing changes, with copies of what was given where the form has any. -/
def NoChange.outcome (pulses : List Pulse) (accumulator : Pulse) : NoChange → Outcome
  | .unchanged => .unchanged
  | .pulses => .pulses pulses
  | .pulsesAndAccumulator => .pulsesAndAccumulator pulses accumulator

/-- An answer with `unchanged` put in another form. -/
def Outcome.reworded (form : NoChange) (pulses : List Pulse) (accumulator : Pulse) :
    Outcome → Outcome
  | .unchanged => form.outcome pulses accumulator
  | outcome => outcome

theorem Outcome.onto_reworded (form : NoChange) (work : Workpiece) (outcome : Outcome) :
    (outcome.reworded form work.pulses work.accumulator).onto work = outcome.onto work := by
  cases outcome with
  | unchanged => cases form <;> rfl
  | pulses _ | pulsesAndAccumulator _ _ => rfl

namespace Source

/-- The source that answers in another form wherever the given one answers `unchanged`, and as the
given one everywhere else. -/
def rewordedAs (source : Source σ) (form : NoChange) : Source σ :=
  { source with
    noisyPulses := fun dims pulses accumulator =>
      Outcome.reworded form pulses accumulator <$> source.noisyPulses dims pulses accumulator }

theorem rewordedAs_sameEffect (source : Source σ) (form : NoChange) :
    (source.rewordedAs form).SameEffect source where
  name_eq := rfl
  isDevice_eq := rfl
  answer_eq dims work _ := by
    change (·.onto work) <$> (Outcome.reworded form work.pulses work.accumulator <$> _) = _
    simp only [Functor.map_map, Outcome.onto_reworded]

end Source

/-- **The ways of saying that nothing changes are interchangeable.** Let a source in any place
answer with copies of the pulses, or of the pulses and the accumulator, wherever it answers that
nothing changes: the run is the same, whatever the other sources are and do. -/
theorem process_rewordedAs (form : NoChange) (pulses : List Pulse) (before after : List (Source σ))
    (source : Source σ) (options : Options) :
    process pulses (before ++ source.rewordedAs form :: after) options =
      process pulses (before ++ source :: after) options := by
  have hsame (sources : List (Source σ)) : List.Forall₂ Source.SameEffect sources sources :=
    List.forall₂_same.2 fun source _ => .refl source
  exact process_congr_of_sameEffect
    (List.rel_append (hsame before) (.cons (source.rewordedAs_sameEffect form) (hsame after)))
    pulses options

end PulseNoise
