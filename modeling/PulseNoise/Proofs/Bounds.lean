import PulseNoise.Proofs.Interface

/-!
# No access out of bounds

The lists of a run are read with `entry`, which fails where there is no entry. Matrices and
differences of numbers are total in the definitions: a matrix has zeros outside its shape and a
difference stops at zero. Here the run is written once more with operations that fail there too.
It is the same run, so that none of its accesses fails.

* `difference` and `DenseMatrix.write` fail below zero and outside the shape.
* `Operator.destroyByEntry`, `numByEntry` and `projectorByEntry` fill a matrix entry by entry, and
  `Operator.conforming` combines matrices of one shape only.
* `processByEntry_eq` says that the run over these operations is `process`.
* `processByEntry_in_bounds` says that no access of such a run fails but in a sampler.
-/

namespace PulseNoise

/-- The difference of two numbers, which fails below zero. -/
def difference (a b : Nat) : Except Error Nat :=
  if b ≤ a then .ok (a - b) else .error (.noEntry b a)

theorem difference_of_le {a b : Nat} (h : b ≤ a) : difference a b = .ok (a - b) := if_pos h

/-- Two computations agree when they go on in the same way after the same step. -/
theorem bind_congr_of_ok {α β : Type} {x : Except Error α} {f g : α → Except Error β}
    (h : ∀ a, x = .ok a → f a = g a) : x >>= f = x >>= g := by
  cases x with
  | error e => rfl
  | ok a => exact h a rfl

/-! ## Matrices filled entry by entry -/

namespace DenseMatrix

def zeros (rows cols : Nat) : DenseMatrix := ofFn rows cols fun _ _ => 0

/-- The matrix with another entry in a row and a column, which have to exist. -/
def write (a : DenseMatrix) (i j : Nat) (x : Scalar) : Except Error DenseMatrix :=
  if a.rows ≤ i then .error (.noEntry i a.rows)
  else if a.cols ≤ j then .error (.noEntry j a.cols)
  else .ok (ofFn a.rows a.cols fun r c => if (r, c) = (i, j) then x else a.get r c)

theorem ofFn_congr {rows cols : Nat} {f g : Nat → Nat → Scalar}
    (h : ∀ i j, i < rows → j < cols → f i j = g i j) : ofFn rows cols f = ofFn rows cols g := by
  refine ext_get rfl rfl fun i j hi hj => ?_
  have hi : i < rows := hi
  have hj : j < cols := hj
  rw [get_ofFn f hi hj, get_ofFn g hi hj]
  exact h i j hi hj

/-- A write inside the shape, of a value that is known for every place. -/
theorem write_ofFn {rows cols i j : Nat} (f value : Nat → Nat → Scalar) (hi : i < rows)
    (hj : j < cols) :
    (ofFn rows cols f).write i j (value i j) =
      .ok (ofFn rows cols fun r c => if (r, c) = (i, j) then value r c else f r c) := by
  unfold write
  rw [rows_ofFn, cols_ofFn, if_neg (by omega), if_neg (by omega)]
  refine congrArg Except.ok (ofFn_congr fun r c hr hc => ?_)
  rw [get_ofFn f hr hc]
  by_cases hplace : (r, c) = (i, j)
  · cases hplace
    rfl
  · rw [if_neg hplace, if_neg hplace]

/-- A loop that writes one entry at each step writes all of them, when what is written depends on
the place alone. -/
theorem foldlM_write {α : Type} {rows cols : Nat} {xs : List α}
    {step : DenseMatrix → α → Except Error DenseMatrix} (place : α → Nat × Nat)
    (value : Nat → Nat → Scalar)
    (hstep : ∀ x ∈ xs, ∀ f, step (ofFn rows cols f) x =
      .ok (ofFn rows cols fun r c => if (r, c) = place x then value r c else f r c))
    (f : Nat → Nat → Scalar) :
    xs.foldlM step (ofFn rows cols f) =
      .ok (ofFn rows cols fun r c => if (r, c) ∈ xs.map place then value r c else f r c) := by
  induction xs generalizing f with
  | nil => simp [pure, Except.pure]
  | cons x xs ih =>
    obtain ⟨hx, hxs⟩ := List.forall_mem_cons.1 hstep
    rw [List.foldlM_cons, hx f]
    refine (ih hxs _).trans (congrArg Except.ok (ofFn_congr fun r c _ _ => ?_))
    by_cases hplace : (r, c) = place x
    · simp [hplace]
    · simp [hplace]

end DenseMatrix

/-! ## Operators filled entry by entry -/

namespace Operator

/-- An operator with `d` levels from its entries, written one by one to a matrix of zeros. -/
def fillEntries (d : Nat) (step : DenseMatrix → Nat → Except Error DenseMatrix) (ns : List Nat) :
    Except Error Operator := do
  let matrix ← ns.foldlM step (.zeros d d)
  return ⟨matrix, [d]⟩

/-- The weight of a level, in the row above its own. -/
def writeWeight (a : DenseMatrix) (n : Nat) : Except Error DenseMatrix := do
  let row ← difference n 1
  a.write row n (.ofReal (Number.ofCount n).sqrt)

/-- The number of a level, on the diagonal. -/
def writeNumber (a : DenseMatrix) (n : Nat) : Except Error DenseMatrix :=
  a.write n n (.ofReal (Number.ofCount n))

/-- One on the diagonal, at a level that is checked before. -/
def writeLevel (d : Nat) (a : DenseMatrix) (level : Nat) : Except Error DenseMatrix :=
  if d ≤ level then .error (.dimensionMismatch (.noLevel level d))
  else a.write level level 1

def destroyByEntry (d : Nat) : Except Error Operator :=
  fillEntries d writeWeight (List.range d).tail

def numByEntry (d : Nat) : Except Error Operator := fillEntries d writeNumber (List.range d)

def projectorByEntry (d : Nat) (levels : List Nat) : Except Error Operator :=
  fillEntries d (writeLevel d) levels

/-- An operation on the matrices of two operators, which have to be of one shape. -/
def conforming (f : Operator → Operator → Except Error Operator) (a b : Operator) :
    Except Error Operator :=
  if a.matrix.rows ≠ b.matrix.rows then .error (.noEntry b.matrix.rows a.matrix.rows)
  else if a.matrix.cols ≠ b.matrix.cols then .error (.noEntry b.matrix.cols a.matrix.cols)
  else f a b

theorem conforming_eq {a b : Operator} (hrows : a.matrix.rows = b.matrix.rows)
    (hcols : a.matrix.cols = b.matrix.cols) (f : Operator → Operator → Except Error Operator) :
    conforming f a b = f a b := by
  rw [conforming, if_neg (not_not.2 hrows), if_neg (not_not.2 hcols)]

theorem matrix_of_combine {verb : String} {f : DenseMatrix → DenseMatrix → DenseMatrix}
    {a b c : Operator} (h : combine verb f a b = .ok c) : c.matrix = f a.matrix b.matrix := by
  unfold combine at h
  split at h
  · cases h
    rfl
  · cases h

theorem matrix_of_projector {d : Nat} {levels : List Nat} {a : Operator}
    (h : projector d levels = .ok a) :
    a.matrix = .diagonal d fun n => if n ∈ levels then 1 else 0 := by
  unfold projector at h
  split at h
  · cases h
  · cases h
    rfl

theorem mem_tail_range {d n : Nat} : n ∈ (List.range d).tail ↔ 1 ≤ n ∧ n < d := by
  cases d with
  | zero => simp
  | succ d =>
    rw [List.range_succ_eq_map, List.tail_cons, List.mem_map]
    constructor
    · rintro ⟨m, hm, rfl⟩
      have := List.mem_range.1 hm
      omega
    · rintro ⟨hpos, hlt⟩
      exact ⟨n - 1, List.mem_range.2 (by omega), by omega⟩

theorem mem_map_diagonal {ns : List Nat} {r c : Nat} :
    (r, c) ∈ ns.map (fun n => (n, n)) ↔ r = c ∧ r ∈ ns := by
  simp only [List.mem_map, Prod.mk.injEq]
  constructor
  · rintro ⟨n, hn, rfl, rfl⟩
    exact ⟨rfl, hn⟩
  · rintro ⟨rfl, hr⟩
    exact ⟨r, hr, rfl, rfl⟩

/-- Entries written inside the matrix make the operator with these entries. -/
theorem fillEntries_eq {d : Nat} {step : DenseMatrix → Nat → Except Error DenseMatrix}
    {ns : List Nat} {entries : Nat → Nat → Scalar} (place : Nat → Nat × Nat)
    (value : Nat → Nat → Scalar)
    (hstep : ∀ n ∈ ns, ∀ f, step (.ofFn d d f) n =
      .ok (.ofFn d d fun r c => if (r, c) = place n then value r c else f r c))
    (hentries : ∀ r c, r < d → c < d →
      (if (r, c) ∈ ns.map place then value r c else 0) = entries r c) :
    fillEntries d step ns = .ok ⟨.ofFn d d entries, [d]⟩ := by
  have hloop := DenseMatrix.foldlM_write place value hstep fun _ _ => 0
  unfold fillEntries DenseMatrix.zeros
  rw [hloop, DenseMatrix.ofFn_congr hentries]
  rfl

/-- Every weight lies in the matrix: the levels that have one above them start at one. -/
theorem destroyByEntry_eq (d : Nat) : destroyByEntry d = .ok (destroy d) := by
  refine fillEntries_eq (fun n => (n - 1, n)) (fun _ n => .ofReal (Number.ofCount n).sqrt) ?_ ?_
  · intro n hn f
    obtain ⟨hpos, hlt⟩ := mem_tail_range.1 hn
    unfold writeWeight
    rw [difference_of_le hpos]
    exact DenseMatrix.write_ofFn f (fun _ n => .ofReal (Number.ofCount n).sqrt) (by omega) hlt
  · intro r c hr hc
    have hmem : (r, c) ∈ (List.range d).tail.map (fun n => (n - 1, n)) ↔ c = r + 1 := by
      simp only [List.mem_map, mem_tail_range, Prod.mk.injEq]
      constructor
      · rintro ⟨n, ⟨hpos, -⟩, hrow, rfl⟩
        omega
      · rintro rfl
        exact ⟨r + 1, by omega, by omega, rfl⟩
    simp only [hmem]

theorem numByEntry_eq (d : Nat) : numByEntry d = .ok (num d) := by
  refine fillEntries_eq (fun n => (n, n)) (fun n _ => .ofReal (Number.ofCount n)) ?_ ?_
  · intro n hn f
    have hlt := List.mem_range.1 hn
    exact DenseMatrix.write_ofFn f (fun n _ => .ofReal (Number.ofCount n)) hlt hlt
  · intro r c hr hc
    simp only [mem_map_diagonal, List.mem_range, hr, and_true]

theorem writeLevel_ofFn {d level : Nat} (h : level < d) (f : Nat → Nat → Scalar) :
    writeLevel d (.ofFn d d f) level =
      .ok (.ofFn d d fun r c => if (r, c) = (level, level) then 1 else f r c) := by
  rw [writeLevel, if_neg (by omega)]
  exact DenseMatrix.write_ofFn f (fun _ _ => 1) h h

/-- The levels that exist are written; the first one that does not ends the loop before it is. -/
theorem projectorByEntry_eq (d : Nat) (levels : List Nat) :
    projectorByEntry d levels = projector d levels := by
  unfold projector
  cases hfind : levels.find? (d ≤ ·) with
  | none =>
    have hlt := find?_le_eq_none_iff.1 hfind
    refine fillEntries_eq (fun n => (n, n)) (fun _ _ => 1)
      (fun n hn => writeLevel_ofFn (hlt n hn)) ?_
    intro r c hr hc
    by_cases hrc : r = c
    · simp only [mem_map_diagonal, hrc, true_and, if_true]
    · simp only [mem_map_diagonal, hrc, false_and, if_false]
  | some level =>
    obtain ⟨hlevel, before, after, rfl, hbefore⟩ := List.find?_eq_some_iff_append.1 hfind
    have hlevel : d ≤ level := of_decide_eq_true hlevel
    have hlt : ∀ n ∈ before, n < d := fun n hn => by simpa using hbefore n hn
    have hloop := DenseMatrix.foldlM_write (fun n => (n, n)) (fun _ _ => 1)
      (fun n hn => writeLevel_ofFn (hlt n hn)) fun _ _ => 0
    have hstop (a : DenseMatrix) : writeLevel d a level =
        .error (.dimensionMismatch (.noLevel level d)) := if_pos hlevel
    unfold projectorByEntry fillEntries DenseMatrix.zeros
    rw [List.foldlM_append, hloop]
    change ((writeLevel d _ level >>= _) >>= _) = _
    rw [hstop]
    rfl

end Operator

/-! ## Sources -/

namespace Relaxation

/-- The collapse operators of one qubit, filled entry by entry. -/
def collapseOperatorsByEntry (d : Nat) (t1 t2 : Option Float) : Except Error (List Operator) := do
  let damped ← t1.toList.mapM fun t1 => do
    return (← Operator.destroyByEntry d).scale (1.0 / t1.sqrt)
  match t2 with
  | none => return damped
  | some t2 =>
    let t2Effective ← effectiveT2 t1 t2
    return damped ++ [(← Operator.numByEntry d).scale (2.0 / (2.0 * t2Effective).sqrt)]

def relaxQubitByEntry (dims : List Nat) (t1s t2s : List (Option Float)) (accumulator : Pulse)
    (q : Nat) : Except Error Pulse := do
  let operators ← collapseOperatorsByEntry (← entry dims q) (← entry t1s q) (← entry t2s q)
  operators.foldlM (fun acc operator => acc.addLindblad operator [q] none .constant) accumulator

def accumulateByEntry (noise : Relaxation) (dims : List Nat) (accumulator : Pulse) :
    Except Error Pulse := do
  let t1s ← RelaxationTime.broadcast noise.t1 "t1" dims.length
  let t2s ← RelaxationTime.broadcast noise.t2 "t2" dims.length
  let targets := noise.targets.getD (List.range dims.length)
  checkTargets targets dims.length
  targets.foldlM (relaxQubitByEntry dims t1s t2s) accumulator

theorem collapseOperatorsByEntry_eq (d : Nat) (t1 t2 : Option Float) :
    collapseOperatorsByEntry d t1 t2 = collapseOperators d t1 t2 := by
  unfold collapseOperatorsByEntry collapseOperators
  simp only [Operator.destroyByEntry_eq, Operator.numByEntry_eq]
  cases t1 <;> cases t2 <;> rfl

theorem accumulateByEntry_eq (noise : Relaxation) (dims : List Nat) (accumulator : Pulse) :
    noise.accumulateByEntry dims accumulator = noise.accumulate dims accumulator := by
  have hqubit : relaxQubitByEntry dims = relaxQubit dims := by
    funext t1s t2s acc q
    unfold relaxQubitByEntry relaxQubit
    simp only [collapseOperatorsByEntry_eq]
  unfold accumulateByEntry accumulate
  rw [hqubit]

/-- Relaxation as a source whose operators are filled entry by entry. -/
def byEntry {σ : Type} (noise : Relaxation) : Source σ where
  name := "relaxation"
  isDevice := true
  noisyPulses dims pulses accumulator := do
    let accumulator' ← noise.accumulateByEntry dims accumulator
    return .pulsesAndAccumulator pulses accumulator'

theorem byEntry_eq {σ : Type} (noise : Relaxation) :
    (noise.byEntry : Source σ) = noise.toSource := by
  unfold byEntry toSource
  simp only [accumulateByEntry_eq]

end Relaxation

/-- Z on the two lowest levels, from operators filled entry by entry and matrices that conform. -/
def populationDifferenceByEntry (d : Nat) : Except Error Operator := do
  let projector ← Operator.projectorByEntry d [0, 1]
  let z ← Operator.conforming Operator.sub ((← Operator.numByEntry d).scale 2.0)
    (Operator.identity d)
  Operator.conforming Operator.mul (← Operator.conforming Operator.mul projector z) projector

/-- All matrices have `d` rows and columns. -/
theorem populationDifferenceByEntry_eq (d : Nat) :
    populationDifferenceByEntry d = populationDifference d := by
  unfold populationDifferenceByEntry populationDifference
  rw [Operator.projectorByEntry_eq, Operator.numByEntry_eq]
  refine bind_congr_of_ok fun projector hprojector => ?_
  have hdifference : Operator.conforming Operator.sub ((Operator.num d).scale 2.0)
      (Operator.identity d) = ((Operator.num d).scale 2.0).sub (Operator.identity d) := by
    refine Operator.conforming_eq ?_ ?_ _ <;> rfl
  change Operator.conforming _ _ _ >>= _ = _
  rw [hdifference]
  refine bind_congr_of_ok fun z hz => ?_
  have hprojector := Operator.matrix_of_projector hprojector
  have hz := Operator.matrix_of_combine hz
  rw [Operator.conforming_eq (by rw [hprojector, hz]; rfl) (by rw [hprojector, hz]; rfl)]
  refine bind_congr_of_ok fun product hproduct => ?_
  have hproduct := Operator.matrix_of_combine hproduct
  exact Operator.conforming_eq (by rw [hproduct]; rfl) (by rw [hproduct, hprojector, hz]; rfl) _

namespace Crosstalk

variable {σ : Type}

/-- The accumulator with the term of one pair, its operators filled entry by entry. -/
def couplePairByEntry (noise : Crosstalk) (dims : List Nat) (accumulator : Pulse)
    (i left right : Nat) : Except Error Pulse := do
  let zLeft ← populationDifferenceByEntry left
  let zRight ← populationDifferenceByEntry right
  let coefficient ← noise.parameters.coefficient i
  let operator := (zLeft.tensor zRight).scale (coefficient / 2.0)
  checkPlacement operator [i, i + 1] dims
  accumulator.addCoherent operator [i, i + 1] none .constant

def coupleByEntry (noise : Crosstalk) (dims : List Nat) (accumulator : Pulse) (i : Nat) :
    Action σ Pulse := do
  let left ← entry dims i
  let right ← entry dims (i + 1)
  if left ≠ right then Action.record .warning (unequalDims i left right)
  noise.couplePairByEntry dims accumulator i left right

/-- The accumulator with the terms of all pairs, as many as there are qubits before the last. -/
def accumulateByEntry (noise : Crosstalk) (dims : List Nat) (accumulator : Pulse) :
    Action σ Pulse := do
  let pairs ← difference dims.length 1
  (List.range pairs).foldlM (noise.coupleByEntry dims) accumulator

theorem accumulateByEntry_eq (noise : Crosstalk) {dims : List Nat} (h : ¬ dims.length < 2)
    (accumulator : Pulse) :
    (noise.accumulateByEntry dims accumulator : Action σ Pulse) =
      noise.accumulate dims accumulator := by
  have hcouple : (noise.coupleByEntry dims : Pulse → Nat → Action σ Pulse) =
      noise.couple dims := by
    funext acc i
    unfold coupleByEntry couple couplePairByEntry couplePair
    simp only [populationDifferenceByEntry_eq]
  unfold accumulateByEntry accumulate
  rw [difference_of_le (by omega), hcouple]
  rfl

/-- Crosstalk as a source whose operators are filled entry by entry. -/
def byEntry (noise : Crosstalk) : Source σ where
  name := "zz_crosstalk"
  noisyPulses dims pulses accumulator := do
    if dims.length < 2 then return .unchanged
    noise.parameters.check dims.length
    let accumulator' ← noise.accumulateByEntry dims accumulator
    return .pulsesAndAccumulator pulses accumulator'

theorem byEntry_eq (noise : Crosstalk) : (noise.byEntry : Source σ) = noise.toSource := by
  unfold byEntry toSource
  congr 1
  funext dims pulses accumulator
  by_cases hdims : dims.length < 2
  · simp only [if_pos hdims]
  · simp only [if_neg hdims, noise.accumulateByEntry_eq hdims]

end Crosstalk

namespace BuiltIn

variable {σ : Type}

/-- A source of the library whose operators are filled entry by entry; the operators of the others
are given. -/
def byEntry : BuiltIn σ → Source σ
  | decoherence noise => noise.toSource
  | relaxation noise => noise.byEntry
  | amplitude noise => noise.toSource
  | random noise => noise.toSource
  | crosstalk noise => noise.byEntry

theorem byEntry_eq (source : BuiltIn σ) : source.byEntry = source.toSource := by
  cases source with
  | decoherence _ | amplitude _ | random _ => rfl
  | relaxation noise => exact noise.byEntry_eq
  | crosstalk noise => exact noise.byEntry_eq

end BuiltIn

/-! ## Runs -/

section Runs

variable {σ : Type}

/-- A run over the library's own sources, with operators that are filled entry by entry. -/
def processByEntry (pulses : List Pulse) (sources : List (BuiltIn σ)) (options : Options) :
    Action σ (List Pulse) := do
  let dims ← options.system.resolve
  if options.deviceNoise then options.validate
  let implied := (options.impliedRelaxation.map BuiltIn.relaxation).toList
  let work ← runSources options.deviceNoise dims ((sources ++ implied).map BuiltIn.byEntry)
    ⟨pulses, Pulse.systematic options.interpolation⟩
  finish options.deviceNoise work

theorem processByEntry_eq (pulses : List Pulse) (sources : List (BuiltIn σ)) (options : Options) :
    processByEntry pulses sources options = process pulses (sources.map (·.toSource)) options := by
  have hsources : (sources ++ (options.impliedRelaxation.map BuiltIn.relaxation).toList).map
      BuiltIn.byEntry = allSources (sources.map (·.toSource)) options := by
    have hbyEntry : (BuiltIn.byEntry : BuiltIn σ → Source σ) = BuiltIn.toSource :=
      funext BuiltIn.byEntry_eq
    rw [hbyEntry, List.map_append, allSources]
    cases options.impliedRelaxation <;> rfl
  unfold processByEntry process
  simp only [hsources]

/-- **No access out of bounds.** A run of the library's own sources over operators that are filled
entry by entry, with differences that fail below zero, is the run. No access of it fails: if it
ends at an entry that is not there, then the sampler of a random source has failed in this way, and
no seeded sampler does. -/
theorem processByEntry_in_bounds (pulses : List Pulse) (sources : List (BuiltIn σ))
    (options : Options) (s : σ) :
    processByEntry pulses sources options s = process pulses (sources.map (·.toSource)) options s ∧
      (∀ i n, (processByEntry pulses sources options s).result = .error (.noEntry i n) →
        ∃ noise size t, .random noise ∈ sources ∧
          (noise.sampler noise.parameters size t).result = .error (.noEntry i n)) ∧
      ((∀ source ∈ sources, source.IsSeeded) → ∀ i n,
        (processByEntry pulses sources options s).result ≠ .error (.noEntry i n)) := by
  rw [processByEntry_eq]
  refine ⟨rfl, ?_, ?_⟩
  · intro i n h
    rcases failure_of_process h with hreport | ⟨noise, points, t, hmem, hfault⟩
    · cases hreport
    · cases hfault with
      | sampler hresult => exact ⟨noise, points.length, t, hmem, hresult⟩
  · intro hseeded i n h
    cases isReport_of_process hseeded h

end Runs

end PulseNoise
