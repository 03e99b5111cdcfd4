import PulseNoise.Proofs.Construction
import PulseNoise.Proofs.Hull
import PulseNoise.Proofs.WorkList

/-!
# One draw for each selected pulse

Random noise goes through its selection with one call of the sampler for each entry. Neither the
ideal terms nor the labels change on the way, so that the pulses given decide what a draw adds and
which draw is the first to have a fault.

* `RandomNoise.drawFault?` says what is wrong with a draw for a pulse, `RandomNoise.Draws` are
  calls in a row with which nothing is wrong.
* `RandomNoise.served` are the pulses with the terms of all draws, `RandomNoise.logged` is the noise
  with a sampler that writes down its calls.
* `RandomNoise.Answers` lists the answers with the calls made for them, and
  `RandomNoise.noisyPulses_iff_answers` says that the noise answers so and in no other way.
-/

namespace PulseNoise.RandomNoise

open PulseNoise.Action Sampling

variable {σ : Type}

/-! ## Draws -/

/-- Random noise as it is made, and with the selections that it is given after that. -/
inductive Built : RandomNoise σ → Prop
  | make {dt : Float} {sampler : Sampler σ} {parameters : Parameters} {noise : RandomNoise σ}
      (h : make? dt sampler parameters = .ok noise) : Built noise
  | withIndices {noise : RandomNoise σ} (indices : List Nat) (h : Built noise) :
      Built (noise.withIndices indices)

theorem Built.contains_sizeParameter {noise : RandomNoise σ} (h : noise.Built) :
    noise.parameters.contains sizeParameter = false := by
  induction h with
  | @make dt sampler parameters noise h =>
    unfold make? at h
    split at h
    · cases h
    · rename_i hcontains
      split at h
      · cases h
      · cases h
        exact Bool.eq_false_iff.2 hcontains
  | withIndices indices h ih => exact ih

/-- One call of the sampler. -/
def call (noise : RandomNoise σ) (size : Nat) (s : σ) : Reply σ (List Float) :=
  noise.sampler noise.parameters size s

/-- What is wrong with a draw for a pulse: a failure of the sampler, the number of samples, or that
the pulse has no ideal term. A shared grid whose last point overflows comes to light last. -/
def drawFault? (points : List Float) (pulse : Pulse) : Except Error (List Float) → Option Error
  | .error e => some e
  | .ok samples =>
    if samples.length ≠ points.length then
      some (.malformedOutput sourceName (.sampleCount samples.length points.length))
    else if pulse.ideal = none then some (.missingIdealTerm pulse.label)
    else (points.find? (!·.isFinite)).map fun t => .invalidArgument (.gridPoint t)

/-- Calls in a row, one for the pulse at each index of a list, with nothing wrong: the state before
them, the indices, the samples of each call, and the state after them. -/
inductive Draws (noise : RandomNoise σ) (points : List Float) (pulses : List Pulse) :
    σ → List Nat → List (List Float) → σ → Prop
  | nil (s : σ) : Draws noise points pulses s [] [] s
  | cons {s t : σ} {i : Nat} {indices : List Nat} {pulse : Pulse} {samples : List Float}
      {draws : List (List Float)} (hpulse : pulses[i]? = some pulse)
      (hcall : (noise.call points.length s).result = .ok samples)
      (hfault : drawFault? points pulse (.ok samples) = none)
      (hrest : Draws noise points pulses (noise.call points.length s).state indices draws t) :
      Draws noise points pulses s (i :: indices) (samples :: draws) t

/-- The term of a draw: the control of a pulse with the samples on the shared grid. -/
def drawnTerm (points samples : List Float) (ideal : Term) : Term :=
  ⟨ideal.operator, ideal.targets, some points, .samples samples⟩

/-- The terms that a pulse gets from the draws for its index, in their order. -/
def drawnTerms (points : List Float) (i : Nat) (pulse : Pulse) (draws : List (Nat × List Float)) :
    List Term :=
  (draws.filter (·.1 = i)).filterMap fun draw => pulse.ideal.map (drawnTerm points draw.2)

/-- The pulses with the terms of draws for some of them. -/
def served (points : List Float) (pulses : List Pulse) (draws : List (Nat × List Float)) :
    List Pulse :=
  pulses.mapIdx fun i pulse => pulse.appendCoherent (drawnTerms points i pulse draws)

/-! ## One draw -/

section Serve

variable {points samples : List Float} {pulses : List Pulse} {pulse : Pulse} {i j : Nat}

theorem drawnTerms_cons_self (points : List Float) (i : Nat) (pulse : Pulse) (samples : List Float)
    (draws : List (Nat × List Float)) :
    drawnTerms points i pulse ((i, samples) :: draws) =
      (pulse.ideal.map (drawnTerm points samples)).toList ++ drawnTerms points i pulse draws := by
  unfold drawnTerms
  rw [List.filter_cons_of_pos (by simp), List.filterMap_cons]
  cases pulse.ideal with
  | none => rfl
  | some ideal => rfl

theorem drawnTerms_cons_of_ne (hij : i ≠ j) (points : List Float) (pulse : Pulse)
    (samples : List Float) (draws : List (Nat × List Float)) :
    drawnTerms points j pulse ((i, samples) :: draws) = drawnTerms points j pulse draws := by
  unfold drawnTerms
  rw [List.filter_cons_of_neg (by simpa using hij)]

theorem getElem?_served (points : List Float) (pulses : List Pulse)
    (draws : List (Nat × List Float)) (i : Nat) :
    (served points pulses draws)[i]? =
      pulses[i]?.map fun pulse => pulse.appendCoherent (drawnTerms points i pulse draws) :=
  List.getElem?_mapIdx

theorem served_nil (points : List Float) (pulses : List Pulse) :
    served points pulses [] = pulses := by
  apply List.ext_getElem?
  intro i
  rw [getElem?_served]
  simp [drawnTerms, Pulse.appendCoherent_nil]

/-- The first draw can be served by itself. -/
theorem served_cons (hpulse : pulses[i]? = some pulse) (samples : List Float)
    (draws : List (Nat × List Float)) :
    served points pulses ((i, samples) :: draws) =
      served points (pulses.set i
        (pulse.appendCoherent (pulse.ideal.map (drawnTerm points samples)).toList)) draws := by
  apply List.ext_getElem?
  intro j
  rw [getElem?_served, getElem?_served]
  by_cases hij : i = j
  · subst hij
    have hlt : i < pulses.length := (List.getElem?_eq_some_iff.1 hpulse).1
    rw [List.getElem?_set_self hlt, hpulse, Option.map_some, Option.map_some,
      Pulse.appendCoherent_append, drawnTerms_cons_self]
    rfl
  · rw [List.getElem?_set_ne hij]
    simp only [drawnTerms_cons_of_ne hij]

theorem extends_appendCoherent (pulse : Pulse) (terms : List Term) :
    pulse.Extends (pulse.appendCoherent terms) :=
  ⟨rfl, rfl, rfl, rfl, List.prefix_append _ _⟩

/-- A fault depends on the ideal term and the label of a pulse, which do not change. -/
theorem drawFault?_eq_of_extends {before after : Pulse} (h : before.Extends after)
    (result : Except Error (List Float)) :
    drawFault? points after result = drawFault? points before result := by
  cases result with
  | error e => rfl
  | ok samples => simp only [drawFault?, h.ideal, h.label]

/-- The pulses after a draw that has been checked. -/
def serve (points : List Float) (pulses : List Pulse) (i : Nat) (samples : List Float) :
    Except Error (List Pulse) := do
  checkDraw samples points
  perturbAt (.samples samples) (some points) pulses i

variable {noise : RandomNoise σ} {s t : σ} {e : Error}

theorem leaves_drawFor_of_draw (pulses : List Pulse) (i : Nat)
    (hcall : (noise.call points.length s).result = .ok samples) :
    (noise.drawFor points pulses i).Leaves s (serve points pulses i samples)
      (noise.call points.length s).state := by
  refine Leaves.bind_ok (t := (noise.call points.length s).state) ⟨hcall, rfl⟩ ?_
  unfold serve
  cases checkDraw samples points with
  | error e => exact ⟨rfl, rfl⟩
  | ok _ => exact ⟨rfl, rfl⟩

variable (hpulse : pulses[i]? = some pulse)
  (htargets : ∀ ideal, pulse.ideal = some ideal →
    ideal.operator.subsystems = ideal.targets.length)

include htargets

/-- Samples of the right number are served unless the pulse has no ideal term or the grid is
refused. -/
theorem perturb_drawn (hlength : samples.length = points.length) :
    perturb (.samples samples) (some points) pulse =
      (drawFault? points pulse (.ok samples)).elim
        (.ok (pulse.appendCoherent (pulse.ideal.map (drawnTerm points samples)).toList))
        .error := by
  unfold perturb
  simp only [drawFault?, if_neg (not_not.2 hlength)]
  cases hideal : pulse.ideal with
  | none => rfl
  | some ideal =>
    have hsamples : Term.checkSamples (some points) (.samples samples) = .ok () :=
      (Term.checkSamples_eq_ok_iff _ _).2 fun values hvalues =>
        ⟨points, rfl, by rw [← Coefficient.samples.inj hvalues, hlength]⟩
    change pulse.addCoherent ideal.operator ideal.targets (some points) (.samples samples) = _
    rw [Pulse.addCoherent_eq, Term.make?, if_neg (not_not.2 (htargets ideal hideal)), hsamples,
      if_neg (Option.some_ne_none ideal)]
    simp only [Term.checkGrid, Option.getD_some]
    cases points.find? (!·.isFinite) with
    | none => rfl
    | some t => rfl

include hpulse

theorem serve_eq :
    serve points pulses i samples =
      (drawFault? points pulse (.ok samples)).elim
        (.ok (pulses.set i
          (pulse.appendCoherent (pulse.ideal.map (drawnTerm points samples)).toList))) .error := by
  unfold serve checkDraw
  by_cases hlength : samples.length = points.length
  · rw [if_pos hlength, perturbAt, entry_eq_ok_iff.2 hpulse]
    change perturb _ _ pulse >>= _ = _
    rw [perturb_drawn htargets hlength]
    cases drawFault? points pulse (.ok samples) with
    | none => rfl
    | some e => rfl
  · rw [if_neg hlength]
    simp only [drawFault?, if_pos hlength]
    rfl

/-- A draw with a fault, which is the failure of the step. -/
theorem leaves_drawFor_of_fault
    (hfault : drawFault? points pulse (noise.call points.length s).result = some e) :
    (noise.drawFor points pulses i).Leaves s (.error e) (noise.call points.length s).state := by
  cases hcall : (noise.call points.length s).result with
  | error e' =>
    rw [hcall] at hfault
    obtain rfl : e' = e := Option.some.inj hfault
    exact Leaves.bind_error ⟨hcall, rfl⟩
  | ok samples =>
    rw [hcall] at hfault
    have hstep := leaves_drawFor_of_draw pulses i hcall
    rw [serve_eq hpulse htargets, hfault] at hstep
    exact hstep

/-- A draw with nothing wrong, of which the pulse gets one term. -/
theorem leaves_drawFor (hcall : (noise.call points.length s).result = .ok samples)
    (hfault : drawFault? points pulse (.ok samples) = none) :
    (noise.drawFor points pulses i).Leaves s
      (.ok (pulses.set i
        (pulse.appendCoherent (pulse.ideal.map (drawnTerm points samples)).toList)))
      (noise.call points.length s).state := by
  have hstep := leaves_drawFor_of_draw pulses i hcall
  rw [serve_eq hpulse htargets, hfault] at hstep
  exact hstep

end Serve

/-! ## Draws in a row -/

section Loop

variable {noise : RandomNoise σ} {points : List Float} {pulses current : List Pulse}
  {indices before after : List Nat} {draws : List (List Float)} {pulse perturbed : Pulse} {i : Nat}
  {s t : σ} {e : Error}

/-- The ideal term of a perturbed pulse has as many targets as it needs. -/
theorem targets_of_extends (hpulses : ∀ p ∈ pulses, p.WellFormed)
    (hpulse : pulses[i]? = some pulse) (hextends : pulse.Extends perturbed) (ideal : Term)
    (hideal : perturbed.ideal = some ideal) :
    ideal.operator.subsystems = ideal.targets.length := by
  rw [hextends.ideal] at hideal
  have hwellFormed := hpulses pulse (List.mem_of_getElem? hpulse)
  exact (hwellFormed.ideal hideal).targets_length

/-- Draws with nothing wrong are served. The pulses may have been perturbed before. -/
theorem Draws.leaves (hpulses : ∀ p ∈ pulses, p.WellFormed)
    (h : noise.Draws points pulses s indices draws t) (hcurrent : AllExtend pulses current) :
    (indices.foldlM (noise.drawFor points) current).Leaves s
      (.ok (served points current (indices.zip draws))) t := by
  induction h generalizing current with
  | nil s =>
    rw [List.zip_nil_left, served_nil]
    exact leaves_pure current s
  | @cons s t i indices pulse samples draws hpulse hcall hfault hrest ih =>
    -- a draw looks at the ideal term and the label of its pulse, which are as they were given
    obtain ⟨perturbed, hperturbed, hextends⟩ := hcurrent.getElem? hpulse
    rw [← drawFault?_eq_of_extends hextends] at hfault
    have htargets := targets_of_extends hpulses hpulse hextends
    rw [List.foldlM_cons, List.zip_cons_cons, served_cons hperturbed]
    exact (leaves_drawFor hperturbed htargets hcall hfault).bind_ok
      (ih (hcurrent.trans (AllExtend.set hperturbed (extends_appendCoherent perturbed _))))

/-- The first draw with a fault ends the loop. -/
theorem Draws.leaves_fault (hpulses : ∀ p ∈ pulses, p.WellFormed)
    (h : noise.Draws points pulses s before draws t) (hpulse : pulses[i]? = some pulse)
    (hfault : drawFault? points pulse (noise.call points.length t).result = some e) :
    ((before ++ i :: after).foldlM (noise.drawFor points) pulses).Leaves s (.error e)
      (noise.call points.length t).state := by
  have hextends := extends_appendCoherent pulse (drawnTerms points i pulse (before.zip draws))
  have hperturbed := getElem?_served points pulses (before.zip draws) i
  rw [hpulse, Option.map_some] at hperturbed
  rw [← drawFault?_eq_of_extends hextends] at hfault
  have htargets := targets_of_extends hpulses hpulse hextends
  rw [List.foldlM_append]
  refine (h.leaves hpulses (.refl pulses)).bind_ok ?_
  rw [List.foldlM_cons]
  exact (leaves_drawFor_of_fault hperturbed htargets hfault).bind_error

/-- Going through indices of pulses, either nothing is wrong or there is a first fault. -/
theorem exists_draws_or_fault (noise : RandomNoise σ) (points : List Float)
    (hrange : ∀ i ∈ indices, i < pulses.length) (s : σ) :
    (∃ draws t, noise.Draws points pulses s indices draws t) ∨
      ∃ before i after draws t pulse e, indices = before ++ i :: after ∧
        noise.Draws points pulses s before draws t ∧ pulses[i]? = some pulse ∧
        drawFault? points pulse (noise.call points.length t).result = some e := by
  induction indices generalizing s with
  | nil => exact .inl ⟨[], s, .nil s⟩
  | cons i indices ih =>
    obtain ⟨hi, hrest⟩ := List.forall_mem_cons.1 hrange
    have hpulse := List.getElem?_eq_getElem hi
    cases hfault : drawFault? points pulses[i] (noise.call points.length s).result with
    | some e => exact .inr ⟨[], i, indices, [], s, pulses[i], e, rfl, .nil s, hpulse, hfault⟩
    | none =>
      cases hcall : (noise.call points.length s).result with
      | error e =>
        rw [hcall] at hfault
        cases hfault
      | ok samples =>
        rw [hcall] at hfault
        rcases ih hrest (noise.call points.length s).state with
          ⟨draws, t, hdraws⟩ | ⟨before, j, after, draws, t, pulse, e, rfl, hdraws, hfails⟩
        · exact .inl ⟨samples :: draws, t, .cons hpulse hcall hfault hdraws⟩
        · exact .inr ⟨i :: before, j, after, samples :: draws, t, pulse, e, rfl,
            .cons hpulse hcall hfault hdraws, hfails⟩

end Loop

/-! ## Calls -/

/-- The noise with a sampler that writes down its calls, beside the state that it has. -/
def logged (noise : RandomNoise σ) : RandomNoise (σ × List (Parameters × Nat)) :=
  { dt := noise.dt
    sampler := fun parameters size s =>
      let reply := noise.sampler parameters size s.1
      ⟨reply.result, (reply.state, s.2 ++ [(parameters, size)]), reply.events⟩
    parameters := noise.parameters
    indices := noise.indices }

/-- Draws in a row, written down: each call is one for the same parameters and the same size. -/
theorem Draws.logged {noise : RandomNoise σ} {points : List Float} {pulses : List Pulse}
    {indices : List Nat} {draws : List (List Float)} {s t : σ}
    (h : noise.Draws points pulses s indices draws t) (log : List (Parameters × Nat)) :
    noise.logged.Draws points pulses (s, log) indices draws
      (t, log ++ List.replicate indices.length (noise.parameters, points.length)) := by
  induction h generalizing log with
  | nil s =>
    rw [List.length_nil, List.replicate_zero, List.append_nil]
    exact .nil _
  | cons hpulse hcall hfault hrest ih =>
    rw [List.length_cons, List.replicate_succ, List.append_cons]
    exact .cons hpulse hcall hfault (ih _)

/-! ## Answers -/

/-- A selection that asks for draws: it has entries, and they are all in range. -/
structure Selects (noise : RandomNoise σ) (pulses : Nat) : Prop where
  ne_nil : selection noise.indices pulses ≠ []
  lt : ∀ i ∈ selection noise.indices pulses, i < pulses

/-- The answers to pulses from a state, each with the calls of the sampler, by their parameters and
sizes, and with the state after it. -/
inductive Answers (noise : RandomNoise σ) (pulses : List Pulse) (s : σ) :
    List (Parameters × Nat) → Except Error Outcome → σ → Prop
  /-- Nothing is selected. -/
  | unselected (hselection : selection noise.indices pulses.length = []) :
      Answers noise pulses s [] (.ok .unchanged) s
  /-- An entry is out of range, and those before it are not. -/
  | outOfRange {before after : List Nat} {i : Nat}
      (hselection : selection noise.indices pulses.length = before ++ i :: after)
      (hbefore : ∀ j ∈ before, j < pulses.length) (hi : pulses.length ≤ i) :
      Answers noise pulses s [] (.error (.pulseIndexOutOfRange i pulses.length)) s
  /-- No ideal grid has points. -/
  | missingGrid (hselects : noise.Selects pulses.length)
      (hmoments : ∀ pulse ∈ pulses, pulse.moments = []) :
      Answers noise pulses s [] (.error (.missingTimeGrid .noSampledPulse)) s
  /-- The shared grid is refused. -/
  | refusedGrid {span : Float × Float} {e : Error} (hselects : noise.Selects pulses.length)
      (hspan : sharedSpan pulses = .ok span)
      (hgrid : SampleGrid.make? span.1 span.2 noise.dt = .error e) :
      Answers noise pulses s [] (.error e) s
  /-- A draw is the first with a fault, and it is the last one. -/
  | stopped {grid : SampleGrid} {before after : List Nat} {i : Nat} {draws : List (List Float)}
      {t : σ} {pulse : Pulse} {e : Error} (hselects : noise.Selects pulses.length)
      (hgrid : noise.gridOn pulses = .ok grid)
      (hselection : selection noise.indices pulses.length = before ++ i :: after)
      (hdraws : noise.Draws grid.points pulses s before draws t)
      (hpulse : pulses[i]? = some pulse)
      (hfault : drawFault? grid.points pulse (noise.call grid.points.length t).result = some e) :
      Answers noise pulses s
        (List.replicate (before.length + 1) (noise.parameters, grid.points.length)) (.error e)
        (noise.call grid.points.length t).state
  /-- There is one draw for each entry, and each pulse has the terms of its draws. -/
  | drawn {grid : SampleGrid} {draws : List (List Float)} {t : σ}
      (hselects : noise.Selects pulses.length) (hgrid : noise.gridOn pulses = .ok grid)
      (hdraws : noise.Draws grid.points pulses s (selection noise.indices pulses.length) draws t) :
      Answers noise pulses s
        (List.replicate (selection noise.indices pulses.length).length
          (noise.parameters, grid.points.length))
        (.ok (.pulses (served grid.points pulses
          ((selection noise.indices pulses.length).zip draws)))) t

section Answer

variable {noise : RandomNoise σ} {pulses : List Pulse} {s t : σ}
  {calls : List (Parameters × Nat)} {answer : Except Error Outcome}

theorem leaves_sharedGrid (noise : RandomNoise σ) (pulses : List Pulse) (s : σ) :
    (noise.sharedGrid pulses).Leaves s (noise.gridOn pulses) s := by
  unfold sharedGrid gridOn
  cases sharedSpan pulses with
  | error e => exact (leaves_ofExcept _ s).bind_error
  | ok span =>
    obtain ⟨start, stop⟩ := span
    refine (leaves_ofExcept _ s).bind_ok ?_
    change (ofExcept (SampleGrid.make? start stop noise.dt) >>= fun grid =>
      record .trace (gridText grid stop) >>= fun _ => pure grid).Leaves s
        (SampleGrid.make? start stop noise.dt) s
    cases SampleGrid.make? start stop noise.dt with
    | error e => exact (leaves_ofExcept _ s).bind_error
    | ok grid =>
      exact (leaves_ofExcept _ s).bind_ok ((leaves_record _ _ s).bind_ok (leaves_pure grid s))

/-- What the noise does when a selection asks for draws. -/
theorem Selects.leaves_noisyPulses (h : noise.Selects pulses.length) {r : Except Error Outcome}
    (hrest : (do
      let grid ← noise.sharedGrid pulses
      let noisy ← (selection noise.indices pulses.length).foldlM (noise.drawFor grid.points) pulses
      return .pulses noisy : Action σ Outcome).Leaves s r t) :
    (noise.noisyPulses pulses).Leaves s r t := by
  unfold noisyPulses
  rw [selectIndices_of_lt h.lt]
  refine (leaves_ofExcept _ s).bind_ok ?_
  rw [if_neg (by simpa using h.ne_nil)]
  exact hrest

theorem Answers.leaves (hpulses : ∀ p ∈ pulses, p.WellFormed)
    (h : noise.Answers pulses s calls answer t) : (noise.noisyPulses pulses).Leaves s answer t := by
  have hfinite : ∀ p ∈ pulses, ∀ t ∈ p.moments, t.isFinite = true :=
    fun p hp => (hpulses p hp).isFinite_moments
  have hgrid := noise.leaves_sharedGrid pulses s
  cases h with
  | unselected hselection =>
    have hlt : ∀ i ∈ selection noise.indices pulses.length, i < pulses.length := by
      rw [hselection]
      exact fun i hi => absurd hi List.not_mem_nil
    unfold noisyPulses
    rw [selectIndices_of_lt hlt, hselection]
    exact (leaves_ofExcept _ s).bind_ok (leaves_pure _ s)
  | @outOfRange before after i hselection hbefore hi =>
    have hfind : (selection noise.indices pulses.length).find? (pulses.length ≤ ·) = some i := by
      rw [hselection, List.find?_append, find?_le_eq_none_iff.2 hbefore,
        List.find?_cons_of_pos (by simpa using hi)]
      rfl
    unfold noisyPulses
    rw [selectIndices_of_find? hfind]
    exact (leaves_ofExcept _ s).bind_error
  | missingGrid hselects hmoments =>
    have hspan := (sharedSpan_eq_error_iff hfinite).2 ⟨rfl, hmoments⟩
    rw [gridOn, hspan] at hgrid
    exact hselects.leaves_noisyPulses hgrid.bind_error
  | refusedGrid hselects hspan hrefused =>
    rw [gridOn, hspan] at hgrid
    change Leaves _ s (SampleGrid.make? _ _ _) s at hgrid
    rw [hrefused] at hgrid
    exact hselects.leaves_noisyPulses hgrid.bind_error
  | stopped hselects hok hselection hdraws hpulse hfault =>
    rw [hok] at hgrid
    refine hselects.leaves_noisyPulses (hgrid.bind_ok (Leaves.bind_error ?_))
    rw [hselection]
    exact hdraws.leaves_fault hpulses hpulse hfault
  | drawn hselects hok hdraws =>
    rw [hok] at hgrid
    have hloop := hdraws.leaves hpulses (.refl pulses)
    exact hselects.leaves_noisyPulses (hgrid.bind_ok (hloop.bind_ok (leaves_pure _ _)))

/-- The noise with a written-down sampler answers in the same way, and writes down the calls. -/
theorem Answers.logged (h : noise.Answers pulses s calls answer t)
    (log : List (Parameters × Nat)) :
    noise.logged.Answers pulses (s, log) calls answer (t, log ++ calls) := by
  have hselects (h : noise.Selects pulses.length) : noise.logged.Selects pulses.length :=
    ⟨h.ne_nil, h.lt⟩
  cases h with
  | unselected hselection =>
    rw [List.append_nil]
    exact .unselected hselection
  | outOfRange hselection hbefore hi =>
    rw [List.append_nil]
    exact .outOfRange hselection hbefore hi
  | missingGrid h hmoments =>
    rw [List.append_nil]
    exact .missingGrid (hselects h) hmoments
  | refusedGrid h hspan hgrid =>
    rw [List.append_nil]
    exact .refusedGrid (hselects h) hspan hgrid
  | @stopped grid before after i draws t pulse e h hgrid hselection hdraws hpulse hfault =>
    let call := (noise.parameters, grid.points.length)
    have hcalls : log ++ List.replicate (before.length + 1) call =
        log ++ List.replicate before.length call ++ [call] := by
      rw [List.replicate_succ', List.append_assoc]
    rw [hcalls]
    exact .stopped (hselects h) hgrid hselection (hdraws.logged log) hpulse hfault
  | drawn h hgrid hdraws => exact .drawn (hselects h) hgrid (hdraws.logged log)

theorem exists_answers (noise : RandomNoise σ) (hpulses : ∀ p ∈ pulses, p.WellFormed) (s : σ) :
    ∃ calls answer t, noise.Answers pulses s calls answer t := by
  have hfinite : ∀ p ∈ pulses, ∀ t ∈ p.moments, t.isFinite = true :=
    fun p hp => (hpulses p hp).isFinite_moments
  cases hfind : (selection noise.indices pulses.length).find? (pulses.length ≤ ·) with
  | some i =>
    obtain ⟨hi, before, after, hselection, hbefore⟩ := List.find?_eq_some_iff_append.1 hfind
    exact ⟨_, _, _, .outOfRange hselection (fun j hj => by simpa using hbefore j hj)
      (of_decide_eq_true hi)⟩
  | none =>
    by_cases hempty : selection noise.indices pulses.length = []
    · exact ⟨_, _, _, .unselected hempty⟩
    · have hselects : noise.Selects pulses.length := ⟨hempty, find?_le_eq_none_iff.1 hfind⟩
      cases hspan : sharedSpan pulses with
      | error e =>
        obtain ⟨-, hmoments⟩ := (sharedSpan_eq_error_iff hfinite).1 hspan
        exact ⟨_, _, _, .missingGrid hselects hmoments⟩
      | ok span =>
        cases hmake : SampleGrid.make? span.1 span.2 noise.dt with
        | error e => exact ⟨_, _, _, .refusedGrid hselects hspan hmake⟩
        | ok grid =>
          have hgrid : noise.gridOn pulses = .ok grid := by
            rw [gridOn, hspan]
            exact hmake
          rcases noise.exists_draws_or_fault grid.points hselects.lt s with
            ⟨draws, t, hdraws⟩ |
            ⟨before, i, after, draws, t, pulse, e, hselection, hdraws, hpulse, hfault⟩
          · exact ⟨_, _, _, .drawn hselects hgrid hdraws⟩
          · exact ⟨_, _, _, .stopped hselects hgrid hselection hdraws hpulse hfault⟩

/-- **One draw for each selected pulse.** Random noise never has a parameter of the reserved name.
To well-formed pulses, and whatever its sampler does, it gives the answers of `Answers` and no
others, with the state and the calls that go with them: no call without a selected pulse, with an
index out of range or without a shared grid, and otherwise one for each entry in turn, always for
the number of points of the grid, up to the first fault. -/
theorem noisyPulses_iff_answers (hnoise : noise.Built) (hpulses : ∀ p ∈ pulses, p.WellFormed)
    (s : σ) :
    noise.parameters.contains sizeParameter = false ∧
      ∀ calls answer t, noise.Answers pulses s calls answer t ↔
        (noise.noisyPulses pulses).Leaves s answer t ∧
          (noise.logged.noisyPulses pulses).Leaves (s, []) answer (t, calls) := by
  have hleaves {calls : List (Parameters × Nat)} {answer : Except Error Outcome} {t : σ}
      (h : noise.Answers pulses s calls answer t) :
      (noise.noisyPulses pulses).Leaves s answer t ∧
        (noise.logged.noisyPulses pulses).Leaves (s, []) answer (t, calls) :=
    ⟨h.leaves hpulses, (h.logged []).leaves hpulses⟩
  refine ⟨hnoise.contains_sizeParameter, fun calls answer t => ⟨hleaves, ?_⟩⟩
  rintro ⟨-, hresult, hstate⟩
  -- there is an answer, and what the run leaves behind cannot be that of another one
  obtain ⟨calls', answer', t', h⟩ := noise.exists_answers hpulses s
  obtain ⟨-, hresult', hstate'⟩ := hleaves h
  obtain rfl := hresult.symm.trans hresult'
  obtain ⟨rfl, rfl⟩ := Prod.mk.inj (hstate.symm.trans hstate')
  exact h

end Answer

/-- A selection with an entry twice, for a sampler that numbers its draws. -/
def sampleSelection : RandomNoise Nat := BuiltIn.sampleRandom.withIndices [1, 0, 1]

theorem sampleSelection_built : sampleSelection.Built := by
  have hmake : make? 0.5 countingSampler .empty = .ok BuiltIn.sampleRandom := rfl
  exact .withIndices [1, 0, 1] (.make hmake)

theorem noisyPulses_iff_answers_sample :
    sampleSelection.Built ∧ (∀ p ∈ samplePulses, p.WellFormed) ∧
      ∃ noisy, (sampleSelection.noisyPulses samplePulses).Leaves 7 (.ok (.pulses noisy)) 10 ∧
        (sampleSelection.logged.noisyPulses samplePulses).Leaves (7, []) (.ok (.pulses noisy))
          (10, List.replicate 3 (.empty, 3)) := by
  have hpulses : ∀ p ∈ samplePulses, p.WellFormed :=
    List.forall_mem_cons.2 ⟨(sampleControl_built "x0" 0).wellFormed,
      List.forall_mem_singleton.2 (sampleControl_built "x1" 1).wellFormed⟩
  have hselects : sampleSelection.Selects samplePulses.length :=
    ⟨by decide, by decide⟩
  let grid : SampleGrid := ⟨0.0, 0.5, 3⟩
  have hgrid : sampleSelection.gridOn samplePulses = .ok grid := by decide +kernel
  have hdraws : sampleSelection.Draws grid.points samplePulses 7 [1, 0, 1]
      [List.replicate 3 7.0, List.replicate 3 8.0, List.replicate 3 9.0] 10 := by
    refine .cons rfl (by decide +kernel) (by decide +kernel) ?_
    refine .cons rfl (by decide +kernel) (by decide +kernel) ?_
    exact .cons rfl (by decide +kernel) (by decide +kernel) (.nil 10)
  obtain ⟨-, hanswers⟩ := noisyPulses_iff_answers sampleSelection_built hpulses 7
  exact ⟨sampleSelection_built, hpulses, _, (hanswers _ _ _).1 (.drawn hselects hgrid hdraws)⟩

/-- A grid of four points on the largest span whose last point is too large for a double. It comes
to light after the first draw. -/
example : (({ BuiltIn.sampleRandom with dt := 5.992310449541053e307 } : RandomNoise Nat).noisyPulses
    [controlOn (some [0.0, 1.7976931348623157e308])] 7).state = 8 := by
  decide +kernel

end PulseNoise.RandomNoise
