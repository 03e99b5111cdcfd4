import PulseNoise.Proofs.Yield
import PulseNoise.Source.BuiltIn

/-!
# What sources contribute to an accumulator

Decoherence, relaxation and crosstalk work on an accumulator term by term. None of them reads what
is there already: the terms that a source adds, and whether it fails, are known from the source
and the dimensions alone. For each of the three, `terms` lists these terms, and `accumulate` is
shown to append them.

* `Decoherence.accumulate_eq`, `Relaxation.accumulate_eq` and `Crosstalk.computes_accumulate` say
  so of the whole loops.
* `BuiltIn.contribution` is what a source of the library adds, pulse-writing ones nothing.
-/

namespace PulseNoise

namespace Pulse

def appendCoherent (pulse : Pulse) (terms : List Term) : Pulse :=
  { pulse with coherent := pulse.coherent ++ terms }

def appendLindblad (pulse : Pulse) (terms : List Term) : Pulse :=
  { pulse with lindblad := pulse.lindblad ++ terms }

theorem appendCoherent_nil (pulse : Pulse) : pulse.appendCoherent [] = pulse := by
  simp [appendCoherent]

theorem appendLindblad_nil (pulse : Pulse) : pulse.appendLindblad [] = pulse := by
  simp [appendLindblad]

theorem appendCoherent_append (pulse : Pulse) (xs ys : List Term) :
    (pulse.appendCoherent xs).appendCoherent ys = pulse.appendCoherent (xs ++ ys) := by
  simp [appendCoherent]

theorem appendLindblad_append (pulse : Pulse) (xs ys : List Term) :
    (pulse.appendLindblad xs).appendLindblad ys = pulse.appendLindblad (xs ++ ys) := by
  simp [appendLindblad]

theorem addCoherent_eq (pulse : Pulse) (operator : Operator) (targets : List Nat)
    (grid : Option (List Float)) (coefficient : Coefficient) :
    pulse.addCoherent operator targets grid coefficient =
      pulse.appendCoherent <$> (([·]) <$> Term.make? operator targets grid coefficient) := by
  unfold addCoherent
  cases Term.make? operator targets grid coefficient <;> rfl

theorem addLindblad_eq (pulse : Pulse) (operator : Operator) (targets : List Nat)
    (grid : Option (List Float)) (coefficient : Coefficient) :
    pulse.addLindblad operator targets grid coefficient =
      pulse.appendLindblad <$> (([·]) <$> Term.make? operator targets grid coefficient) := by
  unfold addLindblad
  cases Term.make? operator targets grid coefficient <;> rfl

end Pulse

/-! ## Loops that append -/

/-- A loop whose steps append what they compute, without a look at what is there, appends what
they compute together. -/
theorem foldlM_append {α β τ : Type} {append : β → List τ → β} {f : β → α → Except Error β}
    {g : α → Except Error (List τ)} (hnil : ∀ b, append b [] = b)
    (happend : ∀ b xs ys, append (append b xs) ys = append b (xs ++ ys))
    (hf : ∀ b x, f b x = append b <$> g x) (xs : List α) (b : β) :
    xs.foldlM f b = append b <$> (List.flatten <$> xs.mapM g) := by
  induction xs generalizing b with
  | nil => exact congrArg Except.ok (hnil b).symm
  | cons x xs ih =>
    rw [List.foldlM_cons, List.mapM_cons, hf]
    cases hx : g x with
    | error e => rfl
    | ok ts =>
      change xs.foldlM f (append b ts) = _
      rw [ih]
      cases hxs : xs.mapM g with
      | error e => rfl
      | ok tss => exact congrArg Except.ok (happend b ts tss.flatten)

theorem flatten_mapM_singleton {α τ : Type} (g : α → Except Error τ) (xs : List α) :
    List.flatten <$> xs.mapM (fun x => ([·]) <$> g x) = xs.mapM g := by
  induction xs with
  | nil => rfl
  | cons x xs ih =>
    rw [List.mapM_cons, List.mapM_cons, ← ih]
    cases hx : g x with
    | error e => rfl
    | ok t => cases xs.mapM fun x => ([·]) <$> g x <;> rfl

/-- A list of lists is mapped like the list that it makes up. -/
theorem flatten_mapM_mapM {α β γ : Type} (f : α → List β) (g : β → Except Error γ) (xs : List α) :
    List.flatten <$> xs.mapM (fun x => (f x).mapM g) = (xs.flatMap f).mapM g := by
  induction xs with
  | nil => rfl
  | cons x xs ih =>
    rw [List.flatMap_cons, List.mapM_append, List.mapM_cons, ← ih]
    cases (f x).mapM g with
    | error e => rfl
    | ok ys => cases xs.mapM fun x => (f x).mapM g <;> rfl

/-! ## Decoherence -/

namespace Decoherence

/-- The term of one operator on one place. -/
def term (noise : Decoherence) (dims : List Nat) (operator : Operator) (targets : List Nat) :
    Except Error Term := do
  checkPlacement operator targets dims
  Term.make? operator targets noise.grid noise.coefficient

/-- The terms of one operator on all of its places. -/
def operatorTerms (noise : Decoherence) (dims : List Nat) (operator : Operator) :
    Except Error (List Term) :=
  (noise.places dims.length).mapM (noise.term dims operator)

/-- The terms of decoherence, operator by operator. -/
def terms (noise : Decoherence) (dims : List Nat) : Except Error (List Term) :=
  List.flatten <$> noise.collapse.mapM (noise.operatorTerms dims)

theorem place_eq (noise : Decoherence) (dims : List Nat) (acc : Pulse) (operator : Operator)
    (targets : List Nat) :
    noise.place dims acc operator targets =
      acc.appendLindblad <$> (([·]) <$> noise.term dims operator targets) := by
  unfold place term
  cases checkPlacement operator targets dims with
  | error e => rfl
  | ok _ => exact acc.addLindblad_eq operator targets noise.grid noise.coefficient

theorem accumulate_eq (noise : Decoherence) (dims : List Nat) (acc : Pulse) :
    noise.accumulate dims acc = acc.appendLindblad <$> noise.terms dims := by
  refine foldlM_append Pulse.appendLindblad_nil Pulse.appendLindblad_append ?_ _ _
  intro acc operator
  rw [operatorTerms, ← flatten_mapM_singleton]
  exact foldlM_append Pulse.appendLindblad_nil Pulse.appendLindblad_append
    (fun acc targets => noise.place_eq dims acc operator targets) _ acc

end Decoherence

/-! ## Relaxation -/

namespace Relaxation

def qubitTerms (dims : List Nat) (t1s t2s : List (Option Float)) (q : Nat) :
    Except Error (List Term) := do
  let operators ← collapseOperators (← entry dims q) (← entry t1s q) (← entry t2s q)
  operators.mapM fun operator => Term.constant? operator [q]

/-- The terms of relaxation, qubit by qubit. -/
def terms (noise : Relaxation) (dims : List Nat) : Except Error (List Term) := do
  let t1s ← RelaxationTime.broadcast noise.t1 "t1" dims.length
  let t2s ← RelaxationTime.broadcast noise.t2 "t2" dims.length
  let targets := noise.targets.getD (List.range dims.length)
  checkTargets targets dims.length
  List.flatten <$> targets.mapM (qubitTerms dims t1s t2s)

theorem relaxQubit_eq (dims : List Nat) (t1s t2s : List (Option Float)) (acc : Pulse) (q : Nat) :
    relaxQubit dims t1s t2s acc q = acc.appendLindblad <$> qubitTerms dims t1s t2s q := by
  have hloop (operators : List Operator) :
      operators.foldlM (fun acc operator => acc.addLindblad operator [q] none .constant) acc =
        acc.appendLindblad <$> operators.mapM (Term.constant? · [q]) := by
    rw [← flatten_mapM_singleton]
    exact foldlM_append Pulse.appendLindblad_nil Pulse.appendLindblad_append
      (fun acc operator => acc.addLindblad_eq operator [q] none .constant) operators acc
  simp only [relaxQubit, qubitTerms, map_bind, hloop]

theorem accumulate_eq (noise : Relaxation) (dims : List Nat) (acc : Pulse) :
    noise.accumulate dims acc = acc.appendLindblad <$> noise.terms dims := by
  have hloop (t1s t2s : List (Option Float)) (targets : List Nat) :
      targets.foldlM (relaxQubit dims t1s t2s) acc =
        acc.appendLindblad <$> (List.flatten <$> targets.mapM (qubitTerms dims t1s t2s)) :=
    foldlM_append Pulse.appendLindblad_nil Pulse.appendLindblad_append
      (relaxQubit_eq dims t1s t2s) targets acc
  simp only [accumulate, terms, map_bind, hloop]

end Relaxation

/-! ## Crosstalk -/

namespace Crosstalk

variable {σ : Type}

/-- The term of qubits `i` and `i + 1`. -/
def pairTerm (noise : Crosstalk) (dims : List Nat) (i : Nat) : Except Error Term := do
  let left ← entry dims i
  let right ← entry dims (i + 1)
  let zLeft ← populationDifference left
  let zRight ← populationDifference right
  let coefficient ← noise.parameters.coefficient i
  let operator := (zLeft.tensor zRight).scale (coefficient / 2.0)
  checkPlacement operator [i, i + 1] dims
  Term.constant? operator [i, i + 1]

/-- The terms of crosstalk, pair by pair. -/
def terms (noise : Crosstalk) (dims : List Nat) : Except Error (List Term) := do
  if dims.length < 2 then return []
  noise.parameters.check dims.length
  (List.range (dims.length - 1)).mapM (noise.pairTerm dims)

theorem computes_couple (noise : Crosstalk) (dims : List Nat) (acc : Pulse) (i : Nat) :
    Action.Computes (noise.couple dims acc i : Action σ Pulse)
      (acc.appendCoherent <$> (([·]) <$> noise.pairTerm dims i)) := by
  have hpair (left right : Nat) : Action.Computes (σ := σ) (do
      if left ≠ right then Action.record .warning (unequalDims i left right)
      noise.couplePair dims acc i left right) (noise.couplePair dims acc i left right) := by
    split
    · exact Action.computes_bind (Action.computes_record _ _) fun _ => Action.computes_ofExcept _
    · exact Action.computes_ofExcept _
  have hterm : (do
      let left ← entry dims i
      let right ← entry dims (i + 1)
      noise.couplePair dims acc i left right) =
        acc.appendCoherent <$> (([·]) <$> noise.pairTerm dims i) := by
    simp only [couplePair, pairTerm, Pulse.addCoherent_eq, Term.constant?, map_bind]
  rw [← hterm]
  exact Action.computes_bind (Action.computes_ofExcept _) fun left =>
    Action.computes_bind (Action.computes_ofExcept _) (hpair left)

theorem computes_accumulate (noise : Crosstalk) (dims : List Nat) (acc : Pulse) :
    Action.Computes (noise.accumulate dims acc : Action σ Pulse)
      (acc.appendCoherent <$> (List.range (dims.length - 1)).mapM (noise.pairTerm dims)) := by
  rw [← flatten_mapM_singleton, ← foldlM_append Pulse.appendCoherent_nil
    Pulse.appendCoherent_append (fun _ _ => rfl)]
  exact Action.computes_foldlM (noise.computes_couple dims) _ acc

end Crosstalk

/-! ## The sources of the library -/

/-- Terms that are added to an accumulator. -/
structure Contribution where
  coherent : List Term
  lindblad : List Term

namespace Contribution

def none : Contribution := ⟨[], []⟩

def ofCoherent (terms : List Term) : Contribution := ⟨terms, []⟩

def ofLindblad (terms : List Term) : Contribution := ⟨[], terms⟩

def total (contributions : List Contribution) : Contribution :=
  ⟨contributions.flatMap (·.coherent), contributions.flatMap (·.lindblad)⟩

end Contribution

namespace Pulse

/-- The pulse with the terms of a contribution at the end. -/
def extend (pulse : Pulse) (c : Contribution) : Pulse :=
  (pulse.appendCoherent c.coherent).appendLindblad c.lindblad

theorem extend_none (pulse : Pulse) : pulse.extend .none = pulse := by
  simp [extend, Contribution.none, appendCoherent, appendLindblad]

theorem extend_ofCoherent (pulse : Pulse) (terms : List Term) :
    pulse.extend (.ofCoherent terms) = pulse.appendCoherent terms := by
  simp [extend, Contribution.ofCoherent, appendLindblad_nil]

theorem extend_ofLindblad (pulse : Pulse) (terms : List Term) :
    pulse.extend (.ofLindblad terms) = pulse.appendLindblad terms := by
  simp [extend, Contribution.ofLindblad, appendCoherent_nil]

theorem extend_total_nil (pulse : Pulse) : pulse.extend (.total []) = pulse := by
  simp [extend, Contribution.total, appendCoherent, appendLindblad]

theorem extend_extend (pulse : Pulse) (c : Contribution) (cs : List Contribution) :
    (pulse.extend c).extend (.total cs) = pulse.extend (.total (c :: cs)) := by
  simp [extend, Contribution.total, appendCoherent, appendLindblad]

end Pulse

namespace BuiltIn

variable {σ : Type}

/-- What a source adds to an accumulator; pulse-writing sources add nothing. -/
def contribution (dims : List Nat) : BuiltIn σ → Except Error Contribution
  | decoherence noise => Contribution.ofLindblad <$> noise.terms dims
  | relaxation noise => Contribution.ofLindblad <$> noise.terms dims
  | crosstalk noise => Contribution.ofCoherent <$> noise.terms dims
  | amplitude _ | random _ => .ok .none

end BuiltIn

end PulseNoise
