import PulseNoise.Proofs.Placement

/-!
# Where decoherence fits

Decoherence puts every operator on one list of targets, or, when broadcast, on every subsystem in
turn. An operator is compared with the subsystems that it is put on before a term is made of it, so
that the term never has a wrong number of targets, and samples come with a grid only, so that a grid
is never missing. What is left to fail is listed here, in the order in which it is reported.

* `Decoherence.Built` describes how a user makes decoherence, and `Built.static_or_sampled` what
  the grid and the coefficient then are.
* `Decoherence.placements` are the operators with their places, `Fits` is what is asked of one, and
  `Fault` what is wrong with one.
* `Decoherence.succeeds_iff_fits` is about all dimensions, pulses and accumulators.
-/

namespace PulseNoise

namespace Decoherence

/-! ## How decoherence is made -/

/-- Decoherence as a user makes it: from operators, for one place or for every subsystem, with
targets and a dependence on time set afterwards in any order. -/
inductive Built : Decoherence → Prop
  | ofOperators (collapse : List Operator) : Built (ofOperators collapse)
  | single (operator : Operator) : Built (single operator)
  | broadcast {collapse : List Operator} {noise : Decoherence}
      (h : broadcast collapse = .ok noise) : Built noise
  | withTargets {noise : Decoherence} (h : Built noise) (targets : List Nat) :
      Built (noise.withTargets targets)
  | withTimeDependence {noise : Decoherence} (h : Built noise) (grid samples : List Float) :
      Built (noise.withTimeDependence grid samples)

variable {noise : Decoherence} {dims : List Nat}

/-- Broadcasting takes operators on one qubit and no others. -/
theorem broadcast_eq_ok_iff {collapse : List Operator} :
    broadcast collapse = .ok noise ↔ (∀ a ∈ collapse, a.dims = [2]) ∧
      noise = { ofOperators collapse with onEachQubit := true } := by
  have hall : collapse.find? (!·.isSingleQubit) = none ↔ ∀ a ∈ collapse, a.dims = [2] := by
    simp [List.find?_eq_none, Operator.isSingleQubit]
  unfold broadcast
  split
  · rename_i a hfind
    rw [← hall, hfind]
    exact iff_of_false nofun nofun
  · rename_i hfind
    rw [Except.ok.injEq, eq_comm, and_iff_right (hall.1 hfind)]

/-- A grid comes with samples only, and samples with a grid only. -/
theorem Built.static_or_sampled (h : noise.Built) :
    noise.grid = none ∧ noise.coefficient = .constant ∨
      ∃ points values, noise.grid = some points ∧ noise.coefficient = .samples values := by
  induction h with
  | ofOperators collapse | single operator => exact .inl ⟨rfl, rfl⟩
  | broadcast h =>
    obtain ⟨-, rfl⟩ := broadcast_eq_ok_iff.1 h
    exact .inl ⟨rfl, rfl⟩
  | withTargets h targets ih => exact ih
  | withTimeDependence h grid samples => exact .inr ⟨grid, samples, rfl, rfl⟩

/-! ## Operators on their places -/

/-- Every operator with each of its places on a system of so many subsystems, in order: all
subsystems one by one when the operators are broadcast, whatever the targets, and the targets as a
whole otherwise, which are all subsystems when none are given. -/
def placements (noise : Decoherence) (count : Nat) : List (Operator × List Nat) :=
  if noise.onEachQubit then
    noise.collapse.flatMap fun a => (List.range count).map fun q => (a, [q])
  else noise.collapse.map fun a => (a, noise.targets.getD (List.range count))

theorem placements_eq (noise : Decoherence) (count : Nat) :
    noise.placements count = noise.collapse.flatMap fun a => (noise.places count).map (a, ·) := by
  unfold placements places
  split
  · simp only [List.map_map]
    rfl
  · exact List.map_eq_flatMap

/-- The term of an operator on a place. -/
def termOn (noise : Decoherence) (p : Operator × List Nat) : Term :=
  ⟨p.1, p.2, noise.grid, noise.coefficient⟩

/-- What is asked of an operator on a place: the targets are subsystems with the dimensions of the
operator, the grid is finite, and it has the length of the samples. -/
structure Fits (noise : Decoherence) (dims : List Nat) (p : Operator × List Nat) : Prop where
  targets_lt : ∀ q ∈ p.2, q < dims.length
  dims_eq : p.1.dims = p.2.map (dims.getD · 0)
  grid_finite : ∀ points, noise.grid = some points → ∀ t ∈ points, t.isFinite = true
  aligned : ∀ points values, noise.grid = some points → noise.coefficient = .samples values →
    points.length = values.length

/-- What is wrong with an operator on a place. Each fault is reported only when there is none of
those before it. -/
inductive Fault (noise : Decoherence) (dims : List Nat) (p : Operator × List Nat) : Error → Prop
  /-- The first target that is no subsystem is reported. -/
  | target {q : Nat} (h : p.2.find? (dims.length ≤ ·) = some q) :
      Fault noise dims p (.qubitOutOfRange q dims.length)
  | misplaced (htargets : ∀ q ∈ p.2, q < dims.length) (h : p.1.dims ≠ p.2.map (dims.getD · 0)) :
      Fault noise dims p
        (.dimensionMismatch (.misplaced p.1.dims (p.2.map (dims.getD · 0)) p.2))
  /-- The first grid point that is not finite is reported. -/
  | grid {points : List Float} {t : Float} (htargets : ∀ q ∈ p.2, q < dims.length)
      (hdims : p.1.dims = p.2.map (dims.getD · 0)) (hgrid : noise.grid = some points)
      (h : points.find? (!·.isFinite) = some t) :
      Fault noise dims p (.invalidArgument (.gridPoint t))
  | length {points values : List Float} (htargets : ∀ q ∈ p.2, q < dims.length)
      (hdims : p.1.dims = p.2.map (dims.getD · 0)) (hgrid : noise.grid = some points)
      (hfinite : ∀ t ∈ points, t.isFinite = true) (hsamples : noise.coefficient = .samples values)
      (h : points.length ≠ values.length) :
      Fault noise dims p (.coefficientLength values.length points.length)

theorem terms_eq_mapM (noise : Decoherence) (dims : List Nat) :
    noise.terms dims = (noise.placements dims.length).mapM fun p => noise.term dims p.1 p.2 := by
  rw [placements_eq, ← flatten_mapM_mapM]
  simp only [List.mapM_map]
  rfl

variable {p : Operator × List Nat}

theorem Fits.term_eq (h : noise.Fits dims p) (hbuilt : noise.Built) :
    noise.term dims p.1 p.2 = .ok (noise.termOn p) := by
  have hplace := checkPlacement_eq_ok_iff.2 ⟨h.targets_lt, h.dims_eq⟩
  have hwellFormed : (noise.termOn p).WellFormed := by
    refine ⟨?_, h.grid_finite, fun values hvalues => ?_⟩
    · rw [Operator.subsystems, termOn, h.dims_eq, List.length_map]
    · rcases hbuilt.static_or_sampled with ⟨-, hconstant⟩ | ⟨points, values', hgrid, -⟩
      · cases hconstant.symm.trans hvalues
      · exact ⟨points, hgrid, h.aligned points values hgrid hvalues⟩
  unfold term
  rw [hplace]
  exact (Term.make?_eq_ok_iff _ _ _ _ _).2 ⟨rfl, hwellFormed⟩

/-- Behind an operator that is placed on its subsystems only the grid and the samples are left. -/
theorem term_eq_of_placed (htargets : ∀ q ∈ p.2, q < dims.length)
    (hdims : p.1.dims = p.2.map (dims.getD · 0)) :
    noise.term dims p.1 p.2 =
      Term.checkGrid noise.grid >>= fun _ => Term.checkSamples noise.grid noise.coefficient >>=
        fun _ => .ok (noise.termOn p) := by
  have hsubsystems : p.1.subsystems = p.2.length := by
    rw [Operator.subsystems, hdims, List.length_map]
  unfold term
  rw [checkPlacement_eq_ok_iff.2 ⟨htargets, hdims⟩, Term.make?_of_length_eq hsubsystems]
  rfl

theorem Fault.term_eq {e : Error} (h : noise.Fault dims p e) :
    noise.term dims p.1 p.2 = .error e := by
  cases h with
  | target h =>
    unfold term checkPlacement checkTargets
    rw [h]
    rfl
  | misplaced htargets h =>
    have hentries : p.2.mapM (entry dims) = .ok (p.2.map (dims.getD · 0)) := by
      rw [mapM_eq_ok_iff, List.forall₂_map_right_iff, List.forall₂_same]
      exact fun q hq => entry_eq_ok_of_lt (htargets q hq)
    unfold term checkPlacement
    rw [checkTargets_eq_ok_iff.2 htargets, hentries]
    simp only [bind, Except.bind, if_neg h]
    rfl
  | grid htargets hdims hgrid h =>
    rw [term_eq_of_placed htargets hdims, Term.checkGrid, hgrid, Option.getD_some, h]
    rfl
  | length htargets hdims hgrid hfinite hsamples h =>
    have hpoints : Term.checkGrid noise.grid = .ok () := by
      rw [Term.checkGrid_eq_ok_iff, hgrid]
      rintro _ ⟨⟩
      exact hfinite
    rw [term_eq_of_placed htargets hdims, hpoints, hgrid, hsamples]
    simp only [Term.checkSamples, if_neg h]
    rfl

/-- What does not fit has a fault. -/
theorem exists_fault (h : ¬ noise.Fits dims p) : ∃ e, noise.Fault dims p e := by
  cases htarget : p.2.find? (dims.length ≤ ·) with
  | some q => exact ⟨_, .target htarget⟩
  | none =>
    rw [find?_le_eq_none_iff] at htarget
    by_cases hdims : p.1.dims = p.2.map (dims.getD · 0)
    · cases hgrid : noise.grid with
      | none => exact absurd ⟨htarget, hdims, by simp [hgrid], by simp [hgrid]⟩ h
      | some points =>
        cases hfind : points.find? (!·.isFinite) with
        | some t => exact ⟨_, .grid htarget hdims hgrid hfind⟩
        | none =>
          have hfinite : ∀ t ∈ points, t.isFinite = true := by
            simpa [List.find?_eq_none] using hfind
          cases hcoefficient : noise.coefficient with
          | constant =>
            exact absurd ⟨htarget, hdims, by simpa [hgrid] using hfinite, by simp [hcoefficient]⟩ h
          | samples values =>
            refine ⟨_, .length htarget hdims hgrid hfinite hcoefficient fun hlength => h ?_⟩
            exact ⟨htarget, hdims, by simpa [hgrid] using hfinite,
              by simpa [hgrid, hcoefficient] using hlength⟩
    · exact ⟨_, .misplaced htarget hdims⟩

/-! ## Answers -/

/-- The answers of decoherence: the fault of the first operator and place that do not fit, or the
terms of all of them. -/
inductive Answers (noise : Decoherence) (dims : List Nat) (pulses : List Pulse) (acc : Pulse) :
    Except Error Outcome → Prop
  | rejected {before after : List (Operator × List Nat)} {p : Operator × List Nat} {e : Error}
      (hsplit : noise.placements dims.length = before ++ p :: after)
      (hbefore : ∀ p' ∈ before, noise.Fits dims p') (h : noise.Fault dims p e) :
      Answers noise dims pulses acc (.error e)
  /-- The terms follow the Lindblad terms that there are; pulses and coherent terms are kept. -/
  | placed (h : ∀ p ∈ noise.placements dims.length, noise.Fits dims p) :
      Answers noise dims pulses acc (.ok (.pulsesAndAccumulator pulses
        { acc with lindblad := acc.lindblad ++
          (noise.placements dims.length).map noise.termOn }))

theorem Answers.result_eq {σ : Type} {pulses : List Pulse} {acc : Pulse}
    {r : Except Error Outcome} (h : noise.Answers dims pulses acc r) (hbuilt : noise.Built)
    (s : σ) : (noise.toSource.noisyPulses dims pulses acc s).result = r := by
  rw [(noise.computes_noisyPulses dims pulses acc).result_eq s, terms_eq_mapM]
  cases h with
  | rejected hsplit hbefore h =>
    rw [hsplit, mapM_append_cons_eq_error
      (fun p hp => ⟨_, (hbefore p hp).term_eq hbuilt⟩) h.term_eq]
    rfl
  | placed h =>
    have hterms : (noise.placements dims.length).mapM (fun p => noise.term dims p.1 p.2) =
        .ok ((noise.placements dims.length).map noise.termOn) := by
      rw [mapM_eq_ok_iff, List.forall₂_map_right_iff, List.forall₂_same]
      exact fun p hp => (h p hp).term_eq hbuilt
    rw [hterms]
    rfl

/-- There is an answer in every case. -/
theorem exists_answers (noise : Decoherence) (dims : List Nat) (pulses : List Pulse) (acc : Pulse) :
    ∃ r, noise.Answers dims pulses acc r := by
  rcases forall_or_exists_first (noise.Fits dims) (noise.placements dims.length) with
    hfits | ⟨before, p, after, hsplit, hbefore, hp⟩
  · exact ⟨_, .placed hfits⟩
  · obtain ⟨e, he⟩ := exists_fault hp
    exact ⟨_, .rejected hsplit hbefore he⟩

/-- **Decoherence accepts the operators that fit, and those only.** It succeeds exactly when every
operator fits every place that it is put on, and its answer is the one that is listed: with a fault,
that of the first operator and place in their order, and otherwise the terms of all of them. Neither
a wrong number of targets nor a missing grid is ever reported. -/
theorem succeeds_iff_fits {σ : Type} {noise : Decoherence} (h : noise.Built)
    (dims : List Nat) (pulses : List Pulse) (acc : Pulse) (s : σ) :
    ((∃ outcome, (noise.toSource.noisyPulses dims pulses acc s).result = .ok outcome) ↔
      ∀ p ∈ noise.placements dims.length, noise.Fits dims p) ∧
    (∀ r, (noise.toSource.noisyPulses dims pulses acc s).result = r ↔
      noise.Answers dims pulses acc r) ∧
    ∀ e, (noise.toSource.noisyPulses dims pulses acc s).result = .error e →
      (∀ subsystems targets, e ≠ .targetMismatch subsystems targets) ∧
        ∀ reason, e ≠ .missingTimeGrid reason := by
  have hanswers (r : Except Error Outcome) :
      (noise.toSource.noisyPulses dims pulses acc s).result = r ↔
        noise.Answers dims pulses acc r :=
    eq_iff_of_answers (noise.exists_answers dims pulses acc) (fun _ hr => hr.result_eq h s) r
  refine ⟨?_, hanswers, fun e he => ?_⟩
  · constructor
    · rintro ⟨outcome, houtcome⟩
      cases (hanswers _).1 houtcome with
      | placed hfits => exact hfits
    · exact fun hfits => ⟨_, (hanswers _).2 (.placed hfits)⟩
  · cases (hanswers _).1 he with
    | rejected _ _ hfault => cases hfault <;> exact ⟨nofun, nofun⟩

/-- The lowering operator at a rate that depends on time, on every subsystem. -/
def sampledDecay : Decoherence :=
  { ofOperators [Operator.destroy 2] with
    onEachQubit := true, grid := some [0.0, 1.0], coefficient := .samples [0.5, 0.25] }

theorem built_sampledDecay : sampledDecay.Built := by
  have hbroadcast : broadcast [Operator.destroy 2] =
      .ok { ofOperators [Operator.destroy 2] with onEachQubit := true } := rfl
  exact (Built.broadcast hbroadcast).withTimeDependence [0.0, 1.0] [0.5, 0.25]

/-- It fits two qubits, but not a second subsystem with three levels. -/
theorem succeeds_iff_fits_sample :
    sampledDecay.Built ∧
      (∃ outcome, (sampledDecay.toSource.noisyPulses [2, 2] [] (.systematic none) ()).result =
        .ok outcome) ∧
      (sampledDecay.toSource.noisyPulses [2, 3] [] (.systematic none) ()).result =
        .error (.dimensionMismatch (.misplaced [2] [3] [1])) := by
  have hfinite : ∀ points, sampledDecay.grid = some points → ∀ t ∈ points, t.isFinite = true := by
    rintro _ ⟨⟩
    decide +kernel
  have haligned : ∀ points values, sampledDecay.grid = some points →
      sampledDecay.coefficient = .samples values → points.length = values.length := by
    intro points values hgrid hsamples
    rw [← Option.some.inj hgrid, ← Coefficient.samples.inj hsamples]
    exact (rfl : 2 = 2)
  have hplacements : sampledDecay.placements 2 =
      [(Operator.destroy 2, [0]), (Operator.destroy 2, [1])] := by
    simp [placements, sampledDecay, ofOperators, List.range_succ]
  obtain ⟨hok, -, -⟩ :=
    succeeds_iff_fits built_sampledDecay [2, 2] [] (.systematic none) ()
  obtain ⟨-, hanswers, -⟩ :=
    succeeds_iff_fits built_sampledDecay [2, 3] [] (.systematic none) ()
  refine ⟨built_sampledDecay, hok.2 ?_, (hanswers _).2 ?_⟩
  · rw [List.length_cons, List.length_singleton, hplacements, List.forall_mem_cons,
      List.forall_mem_singleton]
    exact ⟨⟨by decide, rfl, hfinite, haligned⟩, ⟨by decide, rfl, hfinite, haligned⟩⟩
  · have hsplit : sampledDecay.placements 2 =
        [(Operator.destroy 2, [0])] ++ (Operator.destroy 2, [1]) :: [] := hplacements
    refine .rejected hsplit ?_ (.misplaced (by decide) (by decide))
    exact List.forall_mem_singleton.2 ⟨by decide, rfl, hfinite, haligned⟩

end Decoherence

end PulseNoise
