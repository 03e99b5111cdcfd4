import PulseNoise.Proofs.Construction
import PulseNoise.Proofs.Hull
import PulseNoise.Proofs.WorkList

/-!
# Perturbed controls

Amplitude noise goes through its selection and gives each selected pulse a term made of its own
control. The control of a pulse and its label are as they were given when its turn comes, also when
it comes again, so that the pulses given decide what is added and what is the first fault.

* `AmplitudeNoise.addedTerm` is the term that is added for a control, and `Fault` what is wrong with
  a pulse.
* `AmplitudeNoise.added` are the pulses with the terms of a selection.
* `AmplitudeNoise.perturbs_iff_answers` says which answers amplitude noise gives to well-formed
  pulses.
-/

namespace PulseNoise.AmplitudeNoise

variable {noise : AmplitudeNoise} {pulse : Pulse} {pulses : List Pulse} {ideal : Term} {e : Error}

/-! ## One pulse -/

/-- The term that is added for a control: with a factor the control itself, sample by sample or,
when it is static, in its operator; otherwise the control with the samples that are given. It has
the grid of the noise or else that of the control. -/
def addedTerm (noise : AmplitudeNoise) (ideal : Term) : Term :=
  match noise.perturbation, ideal.coefficient with
  | .scale s, .samples values =>
    ⟨ideal.operator, ideal.targets, noise.grid <|> ideal.grid, .samples (values.map (· * s))⟩
  | .scale s, .constant =>
    ⟨ideal.operator.scale s, ideal.targets, noise.grid <|> ideal.grid, .constant⟩
  | .samples values, _ =>
    ⟨ideal.operator, ideal.targets, noise.grid <|> ideal.grid, .samples values⟩

/-- What is wrong with a pulse. Each fault is reported only when there is none of those before
it. -/
inductive Fault (noise : AmplitudeNoise) (pulse : Pulse) : Error → Prop
  | ideal (h : pulse.ideal = none) : Fault noise pulse (.missingIdealTerm pulse.label)
  /-- The first point of the grid given that is not finite is reported. -/
  | grid {ideal : Term} {points : List Float} {t : Float} (hideal : pulse.ideal = some ideal)
      (hgrid : noise.grid = some points) (h : points.find? (!·.isFinite) = some t) :
      Fault noise pulse (.invalidArgument (.gridPoint t))
  | missingGrid {ideal : Term} {values : List Float} (hideal : pulse.ideal = some ideal)
      (hsamples : noise.perturbation = .samples values) (hgrid : noise.grid = none)
      (hown : ideal.grid = none) :
      Fault noise pulse (.missingTimeGrid (.samplesWithoutGrid values.length))
  | length {ideal : Term} {points values : List Float} (hideal : pulse.ideal = some ideal)
      (hfinite : ∀ override, noise.grid = some override → ∀ t ∈ override, t.isFinite = true)
      (hgrid : (noise.grid <|> ideal.grid) = some points)
      (hcoefficient : (noise.addedTerm ideal).coefficient = .samples values)
      (h : points.length ≠ values.length) :
      Fault noise pulse (.coefficientLength values.length points.length)

/-- Nothing is wrong with a pulse. -/
def Sound (noise : AmplitudeNoise) (pulse : Pulse) : Prop := ¬ ∃ e, noise.Fault pulse e

theorem addedTerm_eq (noise : AmplitudeNoise) (ideal : Term) :
    noise.addedTerm ideal = ⟨(noise.perturbation.term ideal).1, ideal.targets,
      noise.grid <|> ideal.grid, (noise.perturbation.term ideal).2⟩ := by
  obtain ⟨perturbation, grid, indices⟩ := noise
  obtain ⟨operator, targets, own, coefficient⟩ := ideal
  cases perturbation <;> cases coefficient <;> rfl

theorem grid_addedTerm : (noise.addedTerm ideal).grid = (noise.grid <|> ideal.grid) := by
  rw [addedTerm_eq]

theorem subsystems_addedTerm (noise : AmplitudeNoise) (ideal : Term) :
    (noise.addedTerm ideal).operator.subsystems = ideal.operator.subsystems := by
  rw [addedTerm_eq]
  unfold Perturbation.term
  split <;> rfl

/-- A pulse with a control is perturbed by making the term that is added. -/
theorem perturb_eq (hideal : pulse.ideal = some ideal) (hwellFormed : ideal.WellFormed) :
    perturb noise.perturbation noise.grid pulse =
      Term.checkGrid (noise.addedTerm ideal).grid >>= fun _ =>
        Term.checkSamples (noise.addedTerm ideal).grid (noise.addedTerm ideal).coefficient >>=
          fun _ => .ok (pulse.appendCoherent [noise.addedTerm ideal]) := by
  have hsubsystems : (noise.perturbation.term ideal).1.subsystems = ideal.targets.length := by
    have hsame := subsystems_addedTerm noise ideal
    rw [addedTerm_eq] at hsame
    exact hsame.trans hwellFormed.targets_length
  unfold perturb
  rw [hideal, addedTerm_eq]
  change pulse.addCoherent (noise.perturbation.term ideal).1 ideal.targets _
    (noise.perturbation.term ideal).2 = _
  rw [Pulse.addCoherent_eq, Term.make?_of_length_eq hsubsystems]
  cases Term.checkGrid (noise.grid <|> ideal.grid) with
  | error e => rfl
  | ok _ =>
    cases Term.checkSamples (noise.grid <|> ideal.grid) (noise.perturbation.term ideal).2 <;> rfl

/-- With a factor the samples are those of the control, one by one. -/
theorem exists_samples_of_scale {factor : Float} {values : List Float}
    (hperturbation : noise.perturbation = .scale factor)
    (h : (noise.addedTerm ideal).coefficient = .samples values) :
    ∃ own, ideal.coefficient = .samples own ∧ own.length = values.length := by
  rw [addedTerm_eq, hperturbation] at h
  unfold Perturbation.term at h
  cases hown : ideal.coefficient with
  | constant =>
    rw [hown] at h
    cases h
  | samples own =>
    rw [hown] at h
    obtain rfl := Coefficient.samples.inj h
    exact ⟨own, rfl, (List.length_map _).symm⟩

/-- The grid of an added term is finite when the one that is given is. -/
theorem finite_grid_addedTerm (hwellFormed : ideal.WellFormed)
    (h : ∀ points, noise.grid = some points → ∀ t ∈ points, t.isFinite = true) :
    ∀ points, (noise.addedTerm ideal).grid = some points → ∀ t ∈ points, t.isFinite = true := by
  rw [grid_addedTerm]
  cases hgrid : noise.grid with
  | none => exact hwellFormed.grid_finite
  | some override =>
    rintro points ⟨⟩
    exact h override hgrid

/-- A factor on the grid of a control meets no fault but that there is no control. -/
theorem Fault.ideal_eq_none_of_scale {factor : Float} (h : noise.Fault pulse e)
    (hperturbation : noise.perturbation = .scale factor) (hgrid : noise.grid = none)
    (hpulse : pulse.WellFormed) : pulse.ideal = none ∧ e = .missingIdealTerm pulse.label := by
  cases h with
  | ideal h => exact ⟨h, rfl⟩
  | grid _ hsome _ => cases hgrid.symm.trans hsome
  | missingGrid _ hsamples _ _ => cases hperturbation.symm.trans hsamples
  | @length ideal points values hideal _ hpoints hcoefficient h =>
    -- the samples of the control have the length of its grid
    obtain ⟨own, hown, hlength⟩ := exists_samples_of_scale hperturbation hcoefficient
    obtain ⟨points', hpoints', hlength'⟩ := (hpulse.ideal hideal).samples_aligned own hown
    rw [hgrid] at hpoints
    obtain rfl : points' = points := Option.some.inj (hpoints'.symm.trans hpoints)
    exact absurd (hlength'.trans hlength) h

theorem Sound.wellFormed_addedTerm (h : noise.Sound pulse) (hideal : pulse.ideal = some ideal)
    (hwellFormed : ideal.WellFormed) : (noise.addedTerm ideal).WellFormed := by
  have hoverride : ∀ points, noise.grid = some points → ∀ t ∈ points, t.isFinite = true := by
    intro points hgrid
    cases hfind : points.find? (!·.isFinite) with
    | some t => exact absurd ⟨_, .grid hideal hgrid hfind⟩ h
    | none => simpa [List.find?_eq_none] using hfind
  refine ⟨?_, finite_grid_addedTerm hwellFormed hoverride, fun values hvalues => ?_⟩
  · rw [subsystems_addedTerm, hwellFormed.targets_length, addedTerm_eq]
  · rw [grid_addedTerm]
    cases hgrid : (noise.grid <|> ideal.grid) with
    | some points =>
      refine ⟨points, rfl, ?_⟩
      by_contra hlength
      exact h ⟨_, .length hideal hoverride hgrid hvalues hlength⟩
    | none =>
      obtain ⟨hnone, hown⟩ : noise.grid = none ∧ ideal.grid = none := by
        simpa using hgrid
      cases hperturbation : noise.perturbation with
      | samples given => exact absurd ⟨_, .missingGrid hideal hperturbation hnone hown⟩ h
      | scale factor =>
        obtain ⟨own, hcoefficient, -⟩ := exists_samples_of_scale hperturbation hvalues
        obtain ⟨points, hpoints, -⟩ := hwellFormed.samples_aligned own hcoefficient
        cases hown.symm.trans hpoints

/-- The term of a pulse with nothing wrong is added. -/
theorem Sound.perturb_eq (h : noise.Sound pulse) (hideal : pulse.ideal = some ideal)
    (hwellFormed : ideal.WellFormed) :
    perturb noise.perturbation noise.grid pulse =
      .ok (pulse.appendCoherent [noise.addedTerm ideal]) := by
  have hadded := h.wellFormed_addedTerm hideal hwellFormed
  rw [AmplitudeNoise.perturb_eq hideal hwellFormed,
    (Term.checkGrid_eq_ok_iff _).2 hadded.grid_finite,
    (Term.checkSamples_eq_ok_iff _ _).2 hadded.samples_aligned]
  rfl

/-- A fault is the failure of the step. -/
theorem Fault.perturb_eq (h : noise.Fault pulse e)
    (hpulse : ∀ ideal, pulse.ideal = some ideal → ideal.WellFormed) :
    perturb noise.perturbation noise.grid pulse = .error e := by
  cases h with
  | ideal h =>
    unfold perturb
    rw [h]
  | @grid ideal points t hideal hgrid h =>
    have hcheck : Term.checkGrid (noise.addedTerm ideal).grid =
        .error (.invalidArgument (.gridPoint t)) := by
      rw [grid_addedTerm, hgrid]
      change Term.checkGrid (some points) = _
      rw [Term.checkGrid, Option.getD_some, h]
    rw [AmplitudeNoise.perturb_eq hideal (hpulse _ hideal), hcheck]
    rfl
  | @missingGrid ideal values hideal hsamples hgrid hown =>
    have hadded : (noise.addedTerm ideal).grid = none ∧
        (noise.addedTerm ideal).coefficient = .samples values := by
      rw [addedTerm_eq, hsamples, hgrid, hown]
      exact ⟨rfl, rfl⟩
    rw [AmplitudeNoise.perturb_eq hideal (hpulse _ hideal), hadded.1, hadded.2]
    rfl
  | length hideal hfinite hgrid hcoefficient h =>
    have hpoints := finite_grid_addedTerm (hpulse _ hideal) hfinite
    rw [AmplitudeNoise.perturb_eq hideal (hpulse _ hideal),
      (Term.checkGrid_eq_ok_iff _).2 hpoints, grid_addedTerm, hgrid, hcoefficient]
    simp only [Term.checkSamples, if_neg h]
    rfl

/-! ## A selection -/

/-- The terms that a pulse gets from a selection: one for each time that it is selected, and all of
them the same. -/
def addedTerms (noise : AmplitudeNoise) (indices : List Nat) (i : Nat) (pulse : Pulse) :
    List Term :=
  match pulse.ideal with
  | none => []
  | some ideal => List.replicate (indices.count i) (noise.addedTerm ideal)

/-- The pulses with the terms of a selection. -/
def added (noise : AmplitudeNoise) (indices : List Nat) (pulses : List Pulse) : List Pulse :=
  pulses.mapIdx fun i pulse => pulse.appendCoherent (noise.addedTerms indices i pulse)

theorem getElem?_added (noise : AmplitudeNoise) (indices : List Nat) (pulses : List Pulse)
    (i : Nat) :
    (noise.added indices pulses)[i]? =
      pulses[i]?.map fun pulse => pulse.appendCoherent (noise.addedTerms indices i pulse) :=
  List.getElem?_mapIdx

theorem added_nil (noise : AmplitudeNoise) (pulses : List Pulse) :
    noise.added [] pulses = pulses := by
  apply List.ext_getElem?
  intro i
  rw [getElem?_added]
  have hnone (pulse : Pulse) : noise.addedTerms [] i pulse = [] := by
    unfold addedTerms
    cases pulse.ideal <;> rfl
  simp [hnone, Pulse.appendCoherent_nil]

theorem addedTerms_concat_self (indices : List Nat) (i : Nat) (hideal : pulse.ideal = some ideal) :
    noise.addedTerms (indices ++ [i]) i pulse =
      noise.addedTerms indices i pulse ++ [noise.addedTerm ideal] := by
  unfold addedTerms
  rw [hideal, List.count_append, List.count_singleton_self]
  exact List.replicate_succ'

theorem addedTerms_concat_of_ne (indices : List Nat) {i j : Nat} (hij : i ≠ j) (pulse : Pulse) :
    noise.addedTerms (indices ++ [i]) j pulse = noise.addedTerms indices j pulse := by
  unfold addedTerms
  rw [List.count_append, List.count_singleton, if_neg (by simpa using hij), Nat.add_zero]

/-- The last index of a selection adds its term behind those of the others. -/
theorem added_concat (indices : List Nat) {i : Nat} (hpulse : pulses[i]? = some pulse)
    (hideal : pulse.ideal = some ideal) :
    noise.added (indices ++ [i]) pulses = (noise.added indices pulses).set i
      ((pulse.appendCoherent (noise.addedTerms indices i pulse)).appendCoherent
        [noise.addedTerm ideal]) := by
  apply List.ext_getElem?
  intro j
  rw [getElem?_added]
  by_cases hij : i = j
  · subst hij
    have hlt : i < (noise.added indices pulses).length := by
      rw [added, List.length_mapIdx]
      exact (List.getElem?_eq_some_iff.1 hpulse).1
    rw [List.getElem?_set_self hlt, hpulse, Option.map_some, addedTerms_concat_self _ _ hideal,
      Pulse.appendCoherent_append]
  · rw [List.getElem?_set_ne hij, getElem?_added]
    simp only [addedTerms_concat_of_ne indices hij]

/-- One step of a selection, on pulses that have terms of earlier steps. The step sees the control
and the label only, which are as they were. -/
theorem perturbAt_added {indices : List Nat} {i : Nat} (hpulse : pulses[i]? = some pulse) :
    perturbAt noise.perturbation noise.grid (noise.added indices pulses) i =
      (perturb noise.perturbation noise.grid
        (pulse.appendCoherent (noise.addedTerms indices i pulse)) >>= fun perturbed =>
          .ok ((noise.added indices pulses).set i perturbed)) := by
  have hentry := getElem?_added noise indices pulses i
  rw [hpulse, Option.map_some] at hentry
  unfold perturbAt
  rw [entry_eq_ok_iff.2 hentry]
  rfl

theorem Fault.congr {other : Pulse} (h : noise.Fault pulse e) (hideal : other.ideal = pulse.ideal)
    (hlabel : other.label = pulse.label) : noise.Fault other e := by
  cases h with
  | ideal h => exact hlabel ▸ .ideal (hideal.trans h)
  | grid hsome hgrid h => exact .grid (hideal.trans hsome) hgrid h
  | missingGrid hsome hsamples hgrid hown =>
    exact .missingGrid (hideal.trans hsome) hsamples hgrid hown
  | length hsome hfinite hgrid hcoefficient h =>
    exact .length (hideal.trans hsome) hfinite hgrid hcoefficient h

/-- Pulses with nothing wrong get their terms, one index after the other. -/
theorem foldlM_perturbAt (hpulses : ∀ p ∈ pulses, p.WellFormed) {indices : List Nat}
    (h : ∀ i ∈ indices, ∃ p, pulses[i]? = some p ∧ noise.Sound p) :
    indices.foldlM (perturbAt noise.perturbation noise.grid) pulses =
      .ok (noise.added indices pulses) := by
  induction indices using List.reverseRecOn with
  | nil => exact congrArg Except.ok (noise.added_nil pulses).symm
  | append_singleton indices i ih =>
    rw [List.forall_mem_append, List.forall_mem_singleton] at h
    obtain ⟨hindices, pulse, hpulse, hsound⟩ := h
    obtain ⟨ideal, hideal⟩ : ∃ ideal, pulse.ideal = some ideal :=
      Option.ne_none_iff_exists'.1 fun hnone => hsound ⟨_, .ideal hnone⟩
    have hwellFormed := (hpulses pulse (List.mem_of_getElem? hpulse)).ideal hideal
    have hsound' : noise.Sound (pulse.appendCoherent (noise.addedTerms indices i pulse)) :=
      fun ⟨e, he⟩ => hsound ⟨e, he.congr rfl rfl⟩
    have hideal' : (pulse.appendCoherent (noise.addedTerms indices i pulse)).ideal = some ideal :=
      hideal
    have hstep := hsound'.perturb_eq hideal' hwellFormed
    rw [List.foldlM_append, ih hindices, added_concat indices hpulse hideal]
    change [i].foldlM (perturbAt noise.perturbation noise.grid) (noise.added indices pulses) = _
    rw [List.foldlM_cons, perturbAt_added hpulse, hstep]
    rfl

/-- The first pulse with a fault ends the selection. -/
theorem foldlM_perturbAt_of_fault (hpulses : ∀ p ∈ pulses, p.WellFormed) {before : List Nat}
    {i : Nat} (h : ∀ i ∈ before, ∃ p, pulses[i]? = some p ∧ noise.Sound p)
    (hpulse : pulses[i]? = some pulse) (hfault : noise.Fault pulse e) (after : List Nat) :
    (before ++ i :: after).foldlM (perturbAt noise.perturbation noise.grid) pulses = .error e := by
  have hwellFormed (ideal : Term) (hideal : pulse.ideal = some ideal) : ideal.WellFormed :=
    (hpulses pulse (List.mem_of_getElem? hpulse)).ideal hideal
  have hfault' : noise.Fault (pulse.appendCoherent (noise.addedTerms before i pulse)) e :=
    hfault.congr rfl rfl
  rw [List.foldlM_append, foldlM_perturbAt hpulses h]
  change (i :: after).foldlM (perturbAt noise.perturbation noise.grid)
    (noise.added before pulses) = _
  rw [List.foldlM_cons, perturbAt_added hpulse, hfault'.perturb_eq hwellFormed]
  rfl

/-! ## Answers -/

/-- The answers of amplitude noise: the first index that is out of range, else the fault of the
first selected pulse that has one, else the pulses with the terms of the selection. -/
inductive Answers (noise : AmplitudeNoise) (pulses : List Pulse) : Except Error Outcome → Prop
  | outOfRange {i : Nat}
      (h : (selection noise.indices pulses.length).find? (pulses.length ≤ ·) = some i) :
      Answers noise pulses (.error (.pulseIndexOutOfRange i pulses.length))
  | faulty {before after : List Nat} {i : Nat} {pulse : Pulse} {e : Error}
      (hrange : ∀ i ∈ selection noise.indices pulses.length, i < pulses.length)
      (hsplit : selection noise.indices pulses.length = before ++ i :: after)
      (hbefore : ∀ j ∈ before, ∀ p, pulses[j]? = some p → noise.Sound p)
      (hpulse : pulses[i]? = some pulse) (h : noise.Fault pulse e) :
      Answers noise pulses (.error e)
  | added (hrange : ∀ i ∈ selection noise.indices pulses.length, i < pulses.length)
      (h : ∀ j ∈ selection noise.indices pulses.length, ∀ p, pulses[j]? = some p → noise.Sound p) :
      Answers noise pulses
        (.ok (.pulses (noise.added (selection noise.indices pulses.length) pulses)))

theorem perturbed_eq_of_range
    (hrange : ∀ i ∈ selection noise.indices pulses.length, i < pulses.length) :
    noise.perturbed pulses = (selection noise.indices pulses.length).foldlM
      (perturbAt noise.perturbation noise.grid) pulses := by
  unfold perturbed
  rw [selectIndices_of_lt hrange]
  rfl

theorem Answers.result_eq {σ : Type} {r : Except Error Outcome} (h : noise.Answers pulses r)
    (hpulses : ∀ p ∈ pulses, p.WellFormed) (dims : List Nat) (acc : Pulse) (s : σ) :
    (noise.toSource.noisyPulses dims pulses acc s).result = r := by
  rw [(noise.computes_noisyPulses dims pulses acc).result_eq s]
  -- what is known of every pulse at an index is known of the pulse that there is
  have hsound {indices : List Nat} (hrange : ∀ i ∈ indices, i < pulses.length)
      (h : ∀ j ∈ indices, ∀ p, pulses[j]? = some p → noise.Sound p) :
      ∀ i ∈ indices, ∃ p, pulses[i]? = some p ∧ noise.Sound p := by
    intro i hi
    have hpulse := List.getElem?_eq_getElem (hrange i hi)
    exact ⟨_, hpulse, h i hi _ hpulse⟩
  cases h with
  | outOfRange h =>
    unfold perturbed
    rw [selectIndices_of_find? h]
    rfl
  | faulty hrange hsplit hbefore hpulse h =>
    rw [perturbed_eq_of_range hrange]
    rw [hsplit] at hrange ⊢
    rw [foldlM_perturbAt_of_fault hpulses
      (hsound (fun j hj => hrange j (List.mem_append_left _ hj)) hbefore) hpulse h]
    rfl
  | added hrange h =>
    rw [perturbed_eq_of_range hrange, foldlM_perturbAt hpulses (hsound hrange h)]
    rfl

/-- There is an answer in every case. -/
theorem exists_answers (noise : AmplitudeNoise) (pulses : List Pulse) :
    ∃ r, noise.Answers pulses r := by
  cases hfind : (selection noise.indices pulses.length).find? (pulses.length ≤ ·) with
  | some i => exact ⟨_, .outOfRange hfind⟩
  | none =>
    have hrange := find?_le_eq_none_iff.1 hfind
    rcases forall_or_exists_first (fun j => ∀ p, pulses[j]? = some p → noise.Sound p)
        (selection noise.indices pulses.length) with hall | ⟨before, i, after, hsplit, hbefore, hi⟩
    · exact ⟨_, .added hrange hall⟩
    · obtain ⟨pulse, hpulse, hnot⟩ : ∃ p, pulses[i]? = some p ∧ ¬ noise.Sound p := by
        simpa using hi
      obtain ⟨e, he⟩ := not_not.1 hnot
      exact ⟨_, .faulty hrange hsplit hbefore hpulse he⟩

/-- **Amplitude noise adds the perturbation of each selected control, or reports the first fault.**
To well-formed pulses it gives the answers that are listed and no others. A wrong number of targets
is never reported. A factor on the grid of the control can meet no faults but an index that is out
of range and a pulse without a control. -/
theorem perturbs_iff_answers {σ : Type} (noise : AmplitudeNoise)
    (hpulses : ∀ p ∈ pulses, p.WellFormed) (dims : List Nat) (acc : Pulse) (s : σ) :
    (∀ r, (noise.toSource.noisyPulses dims pulses acc s).result = r ↔ noise.Answers pulses r) ∧
    ∀ e, (noise.toSource.noisyPulses dims pulses acc s).result = .error e →
      (∀ subsystems targets, e ≠ .targetMismatch subsystems targets) ∧
      ∀ factor, noise.perturbation = .scale factor → noise.grid = none →
        (∃ i, e = .pulseIndexOutOfRange i pulses.length) ∨
          ∃ p ∈ pulses, p.ideal = none ∧ e = .missingIdealTerm p.label := by
  have hanswers (r : Except Error Outcome) :
      (noise.toSource.noisyPulses dims pulses acc s).result = r ↔ noise.Answers pulses r :=
    eq_iff_of_answers (noise.exists_answers pulses)
      (fun _ hr => hr.result_eq hpulses dims acc s) r
  refine ⟨hanswers, fun e he => ?_⟩
  cases (hanswers _).1 he with
  | outOfRange h => exact ⟨nofun, fun _ _ _ => .inl ⟨_, rfl⟩⟩
  | @faulty _ _ _ pulse _ _ _ _ hpulse h =>
    have hmem := List.mem_of_getElem? hpulse
    refine ⟨by cases h <;> nofun, fun factor hscale hgrid => .inr ⟨pulse, hmem, ?_⟩⟩
    exact h.ideal_eq_none_of_scale hscale hgrid (hpulses pulse hmem)

/-- A pulse that is selected twice gets two terms of the same control. -/
theorem perturbs_iff_answers_sample :
    (∀ p ∈ samplePulses, p.WellFormed) ∧
      ∃ noisy, (((scale 2.0).withIndices [1, 0, 1]).toSource.noisyPulses [2, 2] samplePulses
          (.systematic none) ()).result = .ok (.pulses noisy) ∧
        noisy.map (·.coherent.map (·.targets)) = [[[0], [0]], [[1], [1], [1]]] := by
  have hpulses : ∀ p ∈ samplePulses, p.WellFormed :=
    List.forall_mem_cons.2 ⟨(sampleControl_built "x0" 0).wellFormed,
      List.forall_mem_singleton.2 (sampleControl_built "x1" 1).wellFormed⟩
  obtain ⟨hanswers, -⟩ := perturbs_iff_answers ((scale 2.0).withIndices [1, 0, 1]) hpulses [2, 2]
    (.systematic none) ()
  have hsound : ∀ p ∈ samplePulses, ((scale 2.0).withIndices [1, 0, 1]).Sound p := by
    rintro p hp ⟨e, he⟩
    obtain ⟨hnone, -⟩ := he.ideal_eq_none_of_scale rfl rfl (hpulses p hp)
    have hcontrol : ∀ p ∈ samplePulses, p.ideal.isSome = true := by decide
    rw [← Option.not_isSome_iff_eq_none] at hnone
    exact hnone (hcontrol p hp)
  exact ⟨hpulses, _, (hanswers _).2 (.added (by decide) fun j _ p hp =>
    hsound p (List.mem_of_getElem? hp)), rfl⟩

end PulseNoise.AmplitudeNoise
