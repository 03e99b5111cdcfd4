import PulseNoise.Proofs.Placement
import PulseNoise.Proofs.Stage

/-!
# How pulses are built

Pulses come from two constructors and grow by noise, one term at a time, and every term of theirs
goes through the constructor of terms. A run asks nothing else of its sources: when each of them,
given built pulses, answers with built pulses, the pulses of the run are built.

* `Pulse.Built` are the pulses that can be built, `Pulse.built_iff` says that they are the
  well-formed ones.
* `Source.Builds` is what is asked of a source, and `BuiltIn.builds` says that the sources of the
  library keep to it.
* `process_built` is the invariant of a run.
* `wellFormed_of_built_and_process` draws the conclusions for terms.
-/

namespace PulseNoise

/-! ## Built pulses -/

/-- The pulses that the constructors and the adding of noise build, in whatever order and number.
An addition that is refused leaves its pulse as it was. -/
inductive Pulse.Built : Pulse → Prop
  | make {label : String} {operator : Operator} {targets : List Nat} {grid : Option (List Float)}
      {coefficient : Coefficient} {pulse : Pulse}
      (h : Pulse.make? label operator targets grid coefficient = .ok pulse) : Built pulse
  | systematic (interpolation : Option Interpolation) : Built (Pulse.systematic interpolation)
  | withInterpolation {pulse : Pulse} (kind : Interpolation) (hpulse : Built pulse) :
      Built (pulse.withInterpolation kind)
  | addCoherent {pulse noisy : Pulse} {operator : Operator} {targets : List Nat}
      {grid : Option (List Float)} {coefficient : Coefficient} (hpulse : Built pulse)
      (h : pulse.addCoherent operator targets grid coefficient = .ok noisy) : Built noisy
  | addLindblad {pulse noisy : Pulse} {operator : Operator} {targets : List Nat}
      {grid : Option (List Float)} {coefficient : Coefficient} (hpulse : Built pulse)
      (h : pulse.addLindblad operator targets grid coefficient = .ok noisy) : Built noisy

namespace Pulse

variable {pulse noisy : Pulse} {operator : Operator} {targets : List Nat}
  {grid : Option (List Float)} {coefficient : Coefficient}

theorem addCoherent_eq_ok_iff :
    pulse.addCoherent operator targets grid coefficient = .ok noisy ↔
      ∃ t, Term.make? operator targets grid coefficient = .ok t ∧
        pulse.appendCoherent [t] = noisy := by
  rw [addCoherent_eq]
  simp only [map_eq_ok_iff, exists_exists_and_eq_and]

theorem addLindblad_eq_ok_iff :
    pulse.addLindblad operator targets grid coefficient = .ok noisy ↔
      ∃ t, Term.make? operator targets grid coefficient = .ok t ∧
        pulse.appendLindblad [t] = noisy := by
  rw [addLindblad_eq]
  simp only [map_eq_ok_iff, exists_exists_and_eq_and]

theorem wellFormed_appendCoherent_iff {ts : List Term} :
    (pulse.appendCoherent ts).WellFormed ↔ pulse.WellFormed ∧ ∀ t ∈ ts, t.WellFormed := by
  simp only [WellFormed, terms, appendCoherent, List.forall_mem_append]
  tauto

theorem wellFormed_appendLindblad_iff {ts : List Term} :
    (pulse.appendLindblad ts).WellFormed ↔ pulse.WellFormed ∧ ∀ t ∈ ts, t.WellFormed := by
  simp only [WellFormed, terms, appendLindblad, List.forall_mem_append, and_assoc]

namespace Built

theorem wellFormed (h : pulse.Built) : pulse.WellFormed := by
  induction h with
  | make h =>
    obtain ⟨ideal, hmake, he⟩ := bind_eq_ok_iff.1 h
    cases he
    obtain ⟨-, hideal⟩ := (Term.make?_eq_ok_iff _ _ _ _ _).1 hmake
    exact List.forall_mem_singleton.2 hideal
  | systematic _ =>
    intro t ht
    cases ht
  | withInterpolation _ _ ih => exact ih
  | addCoherent _ h ih =>
    obtain ⟨t, hmake, rfl⟩ := addCoherent_eq_ok_iff.1 h
    obtain ⟨-, hterm⟩ := (Term.make?_eq_ok_iff _ _ _ _ _).1 hmake
    exact wellFormed_appendCoherent_iff.2 ⟨ih, List.forall_mem_singleton.2 hterm⟩
  | addLindblad _ h ih =>
    obtain ⟨t, hmake, rfl⟩ := addLindblad_eq_ok_iff.1 h
    obtain ⟨-, hterm⟩ := (Term.make?_eq_ok_iff _ _ _ _ _).1 hmake
    exact wellFormed_appendLindblad_iff.2 ⟨ih, List.forall_mem_singleton.2 hterm⟩

/-- A pulse without an ideal term has the label of an accumulator. -/
theorem label_eq (h : pulse.Built) (hideal : pulse.ideal = none) :
    pulse.label = systematicLabel := by
  induction h with
  | make h =>
    obtain ⟨ideal, -, he⟩ := bind_eq_ok_iff.1 h
    cases he
    cases hideal
  | systematic _ => rfl
  | withInterpolation _ _ ih => exact ih hideal
  | addCoherent _ h ih =>
    obtain ⟨t, -, rfl⟩ := addCoherent_eq_ok_iff.1 h
    exact ih hideal
  | addLindblad _ h ih =>
    obtain ⟨t, -, rfl⟩ := addLindblad_eq_ok_iff.1 h
    exact ih hideal

/-- Well-formed terms are appended one at a time. -/
theorem of_append {append : Pulse → List Term → Pulse} (hnil : ∀ p, append p [] = p)
    (happend : ∀ p xs ys, append (append p xs) ys = append p (xs ++ ys))
    (hone : ∀ p t, p.Built → t.WellFormed → (append p [t]).Built) (h : pulse.Built)
    {ts : List Term} (hts : ∀ t ∈ ts, t.WellFormed) : (append pulse ts).Built := by
  induction ts generalizing pulse with
  | nil =>
    rw [hnil]
    exact h
  | cons t ts ih =>
    rw [List.forall_mem_cons] at hts
    have hbuilt := ih (hone pulse t h hts.1) hts.2
    rw [happend] at hbuilt
    exact hbuilt

theorem appendCoherent (h : pulse.Built) {ts : List Term} (hts : ∀ t ∈ ts, t.WellFormed) :
    (pulse.appendCoherent ts).Built := by
  refine of_append appendCoherent_nil appendCoherent_append ?_ h hts
  intro p t hp ht
  have hmake := (Term.make?_eq_ok_iff _ _ _ _ t).2 ⟨rfl, ht⟩
  exact hp.addCoherent (addCoherent_eq_ok_iff.2 ⟨t, hmake, rfl⟩)

theorem appendLindblad (h : pulse.Built) {ts : List Term} (hts : ∀ t ∈ ts, t.WellFormed) :
    (pulse.appendLindblad ts).Built := by
  refine of_append appendLindblad_nil appendLindblad_append ?_ h hts
  intro p t hp ht
  have hmake := (Term.make?_eq_ok_iff _ _ _ _ t).2 ⟨rfl, ht⟩
  exact hp.addLindblad (addLindblad_eq_ok_iff.2 ⟨t, hmake, rfl⟩)

theorem extend (h : pulse.Built) {c : Contribution}
    (hc : ∀ t ∈ c.coherent ++ c.lindblad, t.WellFormed) : (pulse.extend c).Built := by
  rw [List.forall_mem_append] at hc
  exact (h.appendCoherent hc.1).appendLindblad hc.2

end Built

/-- The pulses that can be built are the well-formed ones, where those without an ideal term have
the label of an accumulator. -/
theorem built_iff :
    pulse.Built ↔ pulse.WellFormed ∧ (pulse.ideal = none → pulse.label = systematicLabel) := by
  refine ⟨fun h => ⟨h.wellFormed, h.label_eq⟩, ?_⟩
  rintro ⟨hterms, hlabel⟩
  obtain ⟨label, ideal, interpolation, coherent, lindblad⟩ := pulse
  simp only [WellFormed, terms, List.forall_mem_append] at hterms hlabel
  obtain ⟨⟨hideal, hcoherent⟩, hlindblad⟩ := hterms
  suffices hbare : Built ⟨label, ideal, interpolation, [], []⟩ from
    (hbare.appendCoherent hcoherent).appendLindblad hlindblad
  cases ideal with
  | none =>
    obtain rfl := hlabel rfl
    exact .systematic interpolation
  | some t =>
    have hmake := (Term.make?_eq_ok_iff _ _ _ _ t).2 ⟨rfl, hideal t (List.mem_singleton_self t)⟩
    have hmade : Built ⟨label, some t, none, [], []⟩ :=
      .make (bind_eq_ok_iff.2 ⟨t, hmake, rfl⟩)
    cases interpolation with
    | none => exact hmade
    | some kind => exact hmade.withInterpolation kind

end Pulse

/-! ## Built answers -/

/-- Built pulses and a built accumulator. -/
structure Workpiece.Built (work : Workpiece) : Prop where
  pulses : ∀ pulse ∈ work.pulses, pulse.Built
  accumulator : work.accumulator.Built

/-- Given built pulses and a built accumulator, the source answers with built ones, if it answers
at all. -/
def Source.Builds {σ : Type} (source : Source σ) : Prop :=
  ∀ dims work s outcome, work.Built →
    (source.noisyPulses dims work.pulses work.accumulator s).result = .ok outcome →
    (outcome.onto work).Built

theorem perturbAt_built {perturbation : Perturbation} {grid : Option (List Float)}
    {pulses noisy : List Pulse} {i : Nat} (h : perturbAt perturbation grid pulses i = .ok noisy)
    (hpulses : ∀ pulse ∈ pulses, pulse.Built) : ∀ pulse ∈ noisy, pulse.Built := by
  obtain ⟨pulse, hpulse, h⟩ := bind_eq_ok_iff.1 h
  obtain ⟨perturbed, hperturbed, he⟩ := bind_eq_ok_iff.1 h
  cases he
  have hbuilt : perturbed.Built := by
    unfold perturb at hperturbed
    split at hperturbed
    · cases hperturbed
    · exact (hpulses pulse (List.mem_of_getElem? (entry_eq_ok_iff.1 hpulse))).addCoherent hperturbed
  intro p hp
  rcases List.mem_or_eq_of_mem_set hp with hp | rfl
  · exact hpulses p hp
  · exact hbuilt

theorem alongPerturbations_built : AlongPerturbations fun before after =>
    (∀ pulse ∈ before, pulse.Built) → ∀ pulse ∈ after, pulse.Built where
  refl _ := id
  trans hbefore hafter := hafter ∘ hbefore
  perturbAt := perturbAt_built

section Process

variable {σ : Type}

/-- The sources of the library answer with built pulses. -/
theorem BuiltIn.builds (source : BuiltIn σ) : source.toSource.Builds := by
  intro dims work s outcome hwork hresult
  -- an answer amounts to what the source writes to the pulses and what it contributes
  have hanswer := source.yield_onto_noisyPulses dims work s
  rw [Action.yield_eq_ok_iff.2 ⟨hresult, rfl⟩] at hanswer
  obtain ⟨⟨noisy, t⟩, hwrite, h⟩ := bind_eq_ok_iff.1 hanswer.symm
  obtain ⟨c, hc, he⟩ := bind_eq_ok_iff.1 h
  have honto : ⟨noisy, work.accumulator.extend c⟩ = outcome.onto work :=
    (Prod.mk.inj (Except.ok.inj he)).1
  rw [← honto]
  exact ⟨write_along alongPerturbations_built hwrite hwork.pulses,
    hwork.accumulator.extend fun _ ht => (placedOn_of_contribution hc ht).1.toWellFormed⟩

/-! ## Runs -/

/-- One source keeps the pulses built, whether it is called or left out. -/
theorem runSource_built {deviceNoise : Bool} {dims : List Nat} {source : Source σ}
    {work work' : Workpiece} {s s' : σ} (hsource : source.Builds) (hwork : work.Built)
    (h : (runSource deviceNoise dims work source).yield s = .ok (work', s')) : work'.Built := by
  rcases runSource_cases h with ⟨-, rfl, -⟩ | ⟨-, outcome, hanswer, -, rfl⟩
  · exact hwork
  · exact hsource dims work s outcome hwork (Action.yield_eq_ok_iff.1 hanswer).1

theorem runSources_built {deviceNoise : Bool} {dims : List Nat} {sources : List (Source σ)}
    {work work' : Workpiece} {s s' : σ} (hsources : ∀ source ∈ sources, source.Builds)
    (hwork : work.Built)
    (h : (runSources deviceNoise dims sources work).yield s = .ok (work', s')) :
    work'.Built := by
  -- each source works on what those before it have left, so the workpiece is general
  induction sources generalizing work s with
  | nil =>
    cases h
    exact hwork
  | cons source sources ih =>
    rw [List.forall_mem_cons] at hsources
    rw [runSources, List.foldlM_cons] at h
    obtain ⟨next, t, hsource, hrest⟩ := Action.yield_bind_eq_ok_iff.1 h
    exact ih hsources.2 (runSource_built hsources.1 hwork hsource) hrest

/-- A run over sources that build returns built pulses when it is given built ones. -/
theorem process_built {pulses out : List Pulse} {sources : List (Source σ)} {options : Options}
    {s : σ} (hpulses : ∀ pulse ∈ pulses, pulse.Built)
    (hsources : ∀ source ∈ sources, source.Builds)
    (h : (process pulses sources options s).result = .ok out) : ∀ pulse ∈ out, pulse.Built := by
  have hall : ∀ source ∈ allSources sources options, source.Builds := by
    refine List.forall_mem_append.2 ⟨hsources, ?_⟩
    intro source hmem
    obtain ⟨noise, -, rfl⟩ := Option.map_eq_some_iff.1 (Option.mem_toList.1 hmem)
    exact (BuiltIn.relaxation noise).builds
  obtain ⟨dims, work, -, -, hrun, rfl⟩ :=
    yield_process_eq_ok_iff.1 (Action.yield_eq_ok_iff.2 ⟨h, rfl⟩)
  have hwork := runSources_built hall ⟨hpulses, .systematic options.interpolation⟩ hrun
  refine List.forall_mem_append.2 ⟨hwork.pulses, ?_⟩
  split
  · exact List.forall_mem_singleton.2 hwork.accumulator
  · intro pulse hmem
    cases hmem

/-- **Terms are well-formed.** The constructor of terms accepts what makes a well-formed term, and
nothing else. So the terms of every pulse that can be built are well-formed, and so are those of
every pulse that a run returns, when its pulses are built and its sources are those of the library
or others that build. -/
theorem wellFormed_of_built_and_process :
    (∀ operator targets grid coefficient,
      (∃ t, Term.make? operator targets grid coefficient = .ok t) ↔
        Term.WellFormed ⟨operator, targets, grid, coefficient⟩) ∧
    (∀ pulse : Pulse, pulse.Built → ∀ t ∈ pulse.terms, t.WellFormed) ∧
    ∀ (pulses out : List Pulse) (sources : List (Source σ)) (options : Options) (s : σ),
      (∀ pulse ∈ pulses, pulse.Built) →
      (∀ source ∈ sources, (∃ noise : BuiltIn σ, source = noise.toSource) ∨ source.Builds) →
      (process pulses sources options s).result = .ok out →
      ∀ pulse ∈ out, ∀ t ∈ pulse.terms, t.WellFormed := by
  refine ⟨?_, fun _ hbuilt => hbuilt.wellFormed, ?_⟩
  · intro operator targets grid coefficient
    simp only [Term.make?_eq_ok_iff, exists_eq_left]
  · intro pulses out sources options s hpulses hsources h pulse hpulse
    refine (process_built hpulses ?_ h pulse hpulse).wellFormed
    intro source hsource
    rcases hsources source hsource with ⟨noise, rfl⟩ | hbuilds
    · exact noise.builds
    · exact hbuilds

/-- A source from outside the library that damps the first qubit. -/
def sampleDamper : Source Nat where
  name := "damper"
  noisyPulses _ pulses accumulator := do
    let damped ← accumulator.addLindblad (.destroy 2) [0] none .constant
    return .pulsesAndAccumulator pulses damped

theorem sampleDamper_builds : sampleDamper.Builds := by
  intro dims work s outcome hwork h
  have hcomputes : Action.Computes
      (sampleDamper.noisyPulses dims work.pulses work.accumulator)
      (work.accumulator.addLindblad (.destroy 2) [0] none .constant >>= fun damped =>
        .ok (.pulsesAndAccumulator work.pulses damped)) :=
    Action.computes_bind (Action.computes_ofExcept _) fun _ => Action.computes_pure _
  rw [hcomputes.result_eq s] at h
  obtain ⟨damped, hdamped, he⟩ := bind_eq_ok_iff.1 h
  cases he
  exact ⟨hwork.pulses, hwork.accumulator.addLindblad hdamped⟩

theorem sampleControl_built (label : String) (qubit : Nat) :
    (sampleControl label qubit).Built := by
  let bare := { sampleControl label qubit with coherent := [], lindblad := [] }
  have hmake : Pulse.make? label .sigmax [qubit] (some [0.0, 1.0]) (.samples [1.0, 0.5]) =
      .ok { bare with interpolation := none } := rfl
  have hcoherent : bare.addCoherent .sigmaz [qubit] none .constant =
      .ok { sampleControl label qubit with lindblad := [] } := rfl
  have hlindblad : { sampleControl label qubit with lindblad := [] }.addLindblad
      (.destroy 2) [qubit] none .constant = .ok (sampleControl label qubit) := rfl
  have hcontrol := (Pulse.Built.make hmake).withInterpolation .cubic
  exact (hcontrol.addCoherent hcoherent).addLindblad hlindblad

theorem wellFormed_process_sample :
    (∀ pulse ∈ samplePulses, pulse.Built) ∧ sampleDamper.Builds ∧
      ∃ out, (process samplePulses (sampleSources.map (·.toSource) ++ [sampleDamper])
          sampleOptions 7).result = .ok out ∧
        ∀ pulse ∈ out, ∀ t ∈ pulse.terms, t.WellFormed := by
  have hpulses : ∀ pulse ∈ samplePulses, pulse.Built :=
    List.forall_mem_cons.2 ⟨sampleControl_built "x0" 0,
      List.forall_mem_singleton.2 (sampleControl_built "x1" 1)⟩
  have hsources : ∀ source ∈ sampleSources.map (·.toSource) ++ [sampleDamper],
      (∃ noise : BuiltIn Nat, source = noise.toSource) ∨ source.Builds := by
    refine List.forall_mem_append.2 ⟨?_, ?_⟩
    · intro source hsource
      obtain ⟨noise, -, rfl⟩ := List.mem_map.1 hsource
      exact .inl ⟨noise, rfl⟩
    · exact List.forall_mem_singleton.2 (.inr sampleDamper_builds)
  obtain ⟨out, hout⟩ := exists_eq_ok_of_isOk (x := (process samplePulses
    (sampleSources.map (·.toSource) ++ [sampleDamper]) sampleOptions 7).result) (by decide +kernel)
  obtain ⟨-, -, hprocess⟩ := wellFormed_of_built_and_process (σ := Nat)
  exact ⟨hpulses, sampleDamper_builds, out, hout, hprocess _ _ _ _ _ hpulses hsources hout⟩

end Process

end PulseNoise
