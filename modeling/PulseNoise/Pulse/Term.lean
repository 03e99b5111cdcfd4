import PulseNoise.System

/-!
# Terms of a pulse

A term is an operator placed on targets with an optional dependence on time. The ideal control of
a pulse, its coherent noise and its Lindblad noise are all terms.

* `Term.make?` is the only way in which the library makes a term: the targets are as many as the
  operator's subsystems, the grid is finite, and samples come with a grid of their length.
* `Term.WellFormed` states these three conditions.
* `Term.make?_eq_ok_iff` says that the constructor accepts exactly the well-formed terms.
-/

namespace PulseNoise

/-- The time dependence of a term. -/
inductive Coefficient
  /-- No dependence on time. -/
  | constant
  /-- One sample for each point of the term's time grid. -/
  | samples (values : List Float)
  deriving BEq, DecidableEq, Repr

namespace Coefficient

def isConstant : Coefficient → Bool
  | constant => true
  | samples _ => false

instance : ToString Coefficient :=
  ⟨fun
    | constant => "constant"
    | samples values => s!"{values.length} samples"⟩

end Coefficient

/-- How a solver interpolates between samples. -/
inductive Interpolation
  /-- Constant between grid points. -/
  | stepFunction
  /-- A cubic spline through the samples. -/
  | cubic
  deriving BEq, DecidableEq, Repr

namespace Interpolation

instance : Inhabited Interpolation := ⟨stepFunction⟩

instance : ToString Interpolation :=
  ⟨fun
    | stepFunction => "step_func"
    | cubic => "cubic"⟩

end Interpolation

/-- An operator with its targets and its time dependence. -/
structure Term where
  operator : Operator
  targets : List Nat
  /-- The time grid; static terms have none. -/
  grid : Option (List Float)
  coefficient : Coefficient
  deriving BEq, DecidableEq

namespace Term

/-- The samples of a coefficient need a grid of their length. -/
def checkSamples (grid : Option (List Float)) : Coefficient → Except Error Unit
  | .constant => .ok ()
  | .samples values =>
    match grid with
    | none => .error (.missingTimeGrid (.samplesWithoutGrid values.length))
    | some points =>
      if points.length = values.length then .ok ()
      else .error (.coefficientLength values.length points.length)

/-- Grid points have to be finite; the first one that is not is reported. -/
def checkGrid (grid : Option (List Float)) : Except Error Unit :=
  match (grid.getD []).find? (!·.isFinite) with
  | some t => .error (.invalidArgument (.gridPoint t))
  | none => .ok ()

/-- A term, if its parts fit together. -/
def make? (operator : Operator) (targets : List Nat) (grid : Option (List Float))
    (coefficient : Coefficient) : Except Error Term := do
  if operator.subsystems ≠ targets.length then
    throw (.targetMismatch operator.subsystems targets.length)
  checkGrid grid
  checkSamples grid coefficient
  return ⟨operator, targets, grid, coefficient⟩

def constant? (operator : Operator) (targets : List Nat) : Except Error Term :=
  make? operator targets none .constant

/-- The conditions on a term: as many targets as subsystems, a finite grid, and samples only with
a grid of their length. -/
structure WellFormed (t : Term) : Prop where
  targets_length : t.operator.subsystems = t.targets.length
  grid_finite : ∀ points, t.grid = some points → ∀ x ∈ points, x.isFinite
  samples_aligned : ∀ values, t.coefficient = .samples values →
    ∃ points, t.grid = some points ∧ points.length = values.length

def isConstant (t : Term) : Bool := t.coefficient.isConstant

/-- The least and the greatest point of a grid, found by going through it once. -/
def hull (points : List Float) : Float × Float :=
  points.foldl (fun (lo, hi) t => (Number.lesser lo t, Number.greater hi t))
    (1.0 / 0.0, -1.0 / 0.0)

/-- The first and the last moment of a term that has grid points. -/
def span (t : Term) : Option (Float × Float) :=
  match t.grid with
  | none | some [] => none
  | some points => some (hull points)

instance : ToString Term :=
  ⟨fun t => s!"{t.operator} on {Text.naturals t.targets} ({t.coefficient})"⟩

theorem checkGrid_eq_ok_iff (grid : Option (List Float)) :
    checkGrid grid = .ok () ↔ ∀ points, grid = some points → ∀ x ∈ points, x.isFinite := by
  unfold checkGrid
  cases grid with
  | none => simp
  | some points =>
    simp only [Option.getD_some, Option.some.injEq, forall_eq']
    cases h : points.find? (!·.isFinite) with
    | none => simpa [List.find?_eq_none] using h
    | some t =>
      have hmem := List.mem_of_find?_eq_some h
      have hbad := List.find?_some h
      simp only [reduceCtorEq, false_iff]
      intro hall
      have := hall t hmem
      simp_all

theorem checkSamples_eq_ok_iff (grid : Option (List Float)) (coefficient : Coefficient) :
    checkSamples grid coefficient = .ok () ↔ ∀ values, coefficient = .samples values →
      ∃ points, grid = some points ∧ points.length = values.length := by
  cases coefficient with
  | constant => simp [checkSamples]
  | samples values => cases grid <;> simp [checkSamples]

/-- The constructor accepts exactly the parts of a well-formed term. -/
theorem make?_eq_ok_iff (operator : Operator) (targets : List Nat) (grid : Option (List Float))
    (coefficient : Coefficient) (t : Term) :
    make? operator targets grid coefficient = .ok t ↔
      t = ⟨operator, targets, grid, coefficient⟩ ∧ t.WellFormed := by
  have hgrid := checkGrid_eq_ok_iff grid
  have hsamples := checkSamples_eq_ok_iff grid coefficient
  constructor
  · intro h
    unfold make? at h
    by_cases htargets : operator.subsystems = targets.length
    · cases hg : checkGrid grid with
      | error e => simp [htargets, hg, bind, Except.bind] at h
      | ok _ =>
        cases hs : checkSamples grid coefficient with
        | error e => simp [htargets, hg, hs, bind, Except.bind] at h
        | ok _ =>
          simp [htargets, hg, hs, bind, Except.bind, pure, Except.pure] at h
          subst h
          exact ⟨rfl, htargets, hgrid.1 hg, hsamples.1 hs⟩
    · simp [htargets, bind, Except.bind, throw, throwThe, MonadExceptOf.throw] at h
  · rintro ⟨rfl, htargets, hg, hs⟩
    simp only at htargets hg hs
    simp [make?, htargets, hgrid.2 hg, hsamples.2 hs, bind, Except.bind, pure, Except.pure]

end Term

end PulseNoise
