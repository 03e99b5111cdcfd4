import PulseNoise.Proofs.Answer
import PulseNoise.Proofs.Contribution
import PulseNoise.Proofs.Perturbation

/-!
# Pulses and accumulator go separate ways

In a run of the library's own sources nothing flows from the accumulator to the pulses or back:
the writing to the pulses and the contributions to the accumulator can be computed apart.

* `BuiltIn.fault?_eq_none` says that no source of the library gives a faulty answer.
* `BuiltIn.yield_onto_noisyPulses` takes one answer apart, `yield_runSources_eq_ok_iff` the fold.
* `yield_process_map_eq_ok_iff` takes a whole run apart.
-/

namespace PulseNoise

variable {σ : Type}

/-! ## What the sources answer -/

theorem Decoherence.computes_noisyPulses (noise : Decoherence) (dims : List Nat)
    (pulses : List Pulse) (acc : Pulse) :
    Action.Computes (noise.toSource.noisyPulses dims pulses acc : Action σ Outcome)
      ((fun ts => .pulsesAndAccumulator pulses (acc.appendLindblad ts)) <$> noise.terms dims) := by
  intro s
  change ((Action.ofExcept (noise.accumulate dims acc)) >>= _).yield s = _
  rw [Action.yield_bind, noise.accumulate_eq]
  cases noise.terms dims <;> rfl

theorem Relaxation.computes_noisyPulses (noise : Relaxation) (dims : List Nat)
    (pulses : List Pulse) (acc : Pulse) :
    Action.Computes (noise.toSource.noisyPulses dims pulses acc : Action σ Outcome)
      ((fun ts => .pulsesAndAccumulator pulses (acc.appendLindblad ts)) <$> noise.terms dims) := by
  intro s
  change ((Action.ofExcept (noise.accumulate dims acc)) >>= _).yield s = _
  rw [Action.yield_bind, noise.accumulate_eq]
  cases noise.terms dims <;> rfl

theorem Crosstalk.computes_noisyPulses_of_short (noise : Crosstalk) {dims : List Nat}
    (hdims : dims.length < 2) (pulses : List Pulse) (acc : Pulse) :
    Action.Computes (noise.toSource.noisyPulses dims pulses acc : Action σ Outcome)
      (.ok .unchanged) := by
  intro s
  simp only [toSource, if_pos hdims]
  rfl

theorem Crosstalk.computes_noisyPulses (noise : Crosstalk) {dims : List Nat}
    (hdims : ¬ dims.length < 2) (pulses : List Pulse) (acc : Pulse) :
    Action.Computes (noise.toSource.noisyPulses dims pulses acc : Action σ Outcome)
      ((fun ts => .pulsesAndAccumulator pulses (acc.appendCoherent ts)) <$> noise.terms dims) := by
  intro s
  simp only [toSource, terms, if_neg hdims]
  change ((Action.ofExcept _) >>= _).yield s = _
  rw [Action.yield_bind]
  cases noise.parameters.check dims.length with
  | error e => rfl
  | ok _ =>
    change (noise.accumulate dims acc >>= _).yield s = _
    rw [Action.yield_bind, noise.computes_accumulate]
    change _ = (·, s) <$> (_ <$> ((List.range (dims.length - 1)).mapM (noise.pairTerm dims)))
    cases (List.range (dims.length - 1)).mapM (noise.pairTerm dims) <;> rfl

theorem AmplitudeNoise.computes_noisyPulses (noise : AmplitudeNoise) (dims : List Nat)
    (pulses : List Pulse) (acc : Pulse) :
    Action.Computes (noise.toSource.noisyPulses dims pulses acc : Action σ Outcome)
      (.pulses <$> noise.perturbed pulses) := by
  intro s
  change ((Action.ofExcept (noise.perturbed pulses)) >>= _).yield s = _
  rw [Action.yield_bind]
  cases noise.perturbed pulses <;> rfl

/-- Random noise answers with the perturbed pulses, except that it leaves them out when none is
selected. -/
theorem RandomNoise.yield_noisyPulses (noise : RandomNoise σ) (pulses : List Pulse) (s : σ) :
    (noise.noisyPulses pulses).yield s = .ok (.unchanged, s) ∧
        (noise.perturbed pulses).yield s = .ok (pulses, s) ∨
      (noise.noisyPulses pulses).yield s =
        (fun p => (.pulses p.1, p.2)) <$> (noise.perturbed pulses).yield s := by
  unfold noisyPulses perturbed
  cases hindices : selectIndices noise.indices pulses.length with
  | error e => exact .inr rfl
  | ok indices =>
    by_cases hempty : indices.isEmpty
    · left
      simp only [Action.yield_bind]
      change (ite _ _ _ : Action σ Outcome).yield s = _ ∧
        (ite _ _ _ : Action σ (List Pulse)).yield s = _
      simp only [if_pos hempty]
      exact ⟨rfl, rfl⟩
    · right
      simp only [Action.yield_bind]
      change (ite _ _ _ : Action σ Outcome).yield s =
        _ <$> (ite _ _ _ : Action σ (List Pulse)).yield s
      simp only [if_neg hempty, Action.yield_bind, map_bind]
      rfl

namespace BuiltIn

/-- What a source does to the pulses; sources that write to the accumulator do nothing. -/
def write : BuiltIn σ → List Pulse → Action σ (List Pulse)
  | amplitude noise, pulses => noise.perturbed pulses
  | random noise, pulses => noise.perturbed pulses
  | _, pulses => return pulses

theorem write_along {R : List Pulse → List Pulse → Prop} (hR : AlongPerturbations R)
    {source : BuiltIn σ} {pulses noisy : List Pulse} {s s' : σ}
    (h : (source.write pulses).yield s = .ok (noisy, s')) : R pulses noisy := by
  cases source with
  | amplitude noise =>
    exact AmplitudeNoise.perturbed_along hR ((Action.computes_ofExcept _).yield_eq_ok_iff.1 h).1
  | random noise => exact RandomNoise.perturbed_along hR h
  | decoherence _ | relaxation _ | crosstalk _ =>
    cases h
    exact hR.refl pulses

/-- A source of the library answers without a fault. -/
theorem fault?_eq_none (source : BuiltIn σ) {dims : List Nat} {work : Workpiece} {s t : σ}
    {outcome : Outcome} (hideal : work.accumulator.ideal = none)
    (h : (source.toSource.noisyPulses dims work.pulses work.accumulator).yield s =
      .ok (outcome, t)) :
    source.toSource.fault? work.pulses.length outcome = none := by
  -- an answer with both parts has the pulses given and an accumulator with more terms
  have hboth (acc : Pulse) (hacc : acc.ideal = work.accumulator.ideal) :
      source.toSource.fault? work.pulses.length (.pulsesAndAccumulator work.pulses acc) = none := by
    simp only [Source.fault?, if_pos, hacc, hideal]
  have hpulses (noisy : List Pulse) (hnoisy : AllExtend work.pulses noisy) :
      source.toSource.fault? work.pulses.length (.pulses noisy) = none := by
    simp only [Source.fault?, if_pos hnoisy.length_eq.symm]
  cases source with
  | decoherence noise =>
    obtain ⟨hterms, -⟩ := (noise.computes_noisyPulses dims _ _).yield_eq_ok_iff.1 h
    obtain ⟨ts, -, rfl⟩ := map_eq_ok_iff.1 hterms
    exact hboth _ rfl
  | relaxation noise =>
    obtain ⟨hterms, -⟩ := (noise.computes_noisyPulses dims _ _).yield_eq_ok_iff.1 h
    obtain ⟨ts, -, rfl⟩ := map_eq_ok_iff.1 hterms
    exact hboth _ rfl
  | crosstalk noise =>
    by_cases hdims : dims.length < 2
    · obtain ⟨hunchanged, -⟩ :=
        (noise.computes_noisyPulses_of_short hdims _ _).yield_eq_ok_iff.1 h
      cases hunchanged
      rfl
    · obtain ⟨hterms, -⟩ := (noise.computes_noisyPulses hdims _ _).yield_eq_ok_iff.1 h
      obtain ⟨ts, -, rfl⟩ := map_eq_ok_iff.1 hterms
      exact hboth _ rfl
  | amplitude noise =>
    obtain ⟨hnoisy, -⟩ := (noise.computes_noisyPulses dims _ _).yield_eq_ok_iff.1 h
    obtain ⟨noisy, hperturbed, rfl⟩ := map_eq_ok_iff.1 hnoisy
    exact hpulses noisy (AmplitudeNoise.perturbed_along AllExtend.alongPerturbations hperturbed)
  | random noise =>
    rcases noise.yield_noisyPulses work.pulses s with ⟨hnone, -⟩ | hsome
    · obtain ⟨rfl, -⟩ := Prod.mk.inj (Except.ok.inj (hnone.symm.trans h))
      rfl
    · obtain ⟨⟨noisy, u⟩, hnoisy, he⟩ := map_eq_ok_iff.1 (hsome.symm.trans h)
      cases he
      exact hpulses noisy (RandomNoise.perturbed_along AllExtend.alongPerturbations hnoisy)

/-- One answer of a source of the library: what it does to the pulses depends on the pulses and the
state alone, what it adds to the accumulator on the dimensions alone. -/
theorem yield_onto_noisyPulses (source : BuiltIn σ) (dims : List Nat) (work : Workpiece) (s : σ) :
    (fun p => (p.1.onto work, p.2)) <$>
        (source.toSource.noisyPulses dims work.pulses work.accumulator).yield s = do
      let p ← (source.write work.pulses).yield s
      let c ← source.contribution dims
      return (⟨p.1, work.accumulator.extend c⟩, p.2) := by
  -- the pulses are those given, and only the shape of the accumulator's terms differs
  have hboth {terms : Except Error (List Term)} {append : List Term → Pulse}
      {contribute : List Term → Contribution}
      (happend : ∀ ts, work.accumulator.extend (contribute ts) = append ts) :
      (fun p : Outcome × σ => (p.1.onto work, p.2)) <$> ((·, s) <$>
          ((fun ts => .pulsesAndAccumulator work.pulses (append ts)) <$> terms)) = do
        let c ← contribute <$> terms
        return (⟨work.pulses, work.accumulator.extend c⟩, s) := by
    obtain rfl : (fun ts => work.accumulator.extend (contribute ts)) = append := funext happend
    cases terms <;> rfl
  -- the accumulator is the one given, with no terms added
  have hpulses (noisy : List Pulse) (t : σ) :
      Except.ok (ε := Error) (Outcome.onto work (.pulses noisy), t) =
        .ok (⟨noisy, work.accumulator.extend .none⟩, t) := by
    rw [work.accumulator.extend_none]
    rfl
  cases source with
  | decoherence noise =>
    rw [toSource, noise.computes_noisyPulses dims]
    exact hboth work.accumulator.extend_ofLindblad
  | relaxation noise =>
    rw [toSource, noise.computes_noisyPulses dims]
    exact hboth work.accumulator.extend_ofLindblad
  | crosstalk noise =>
    by_cases hdims : dims.length < 2
    · rw [toSource, noise.computes_noisyPulses_of_short hdims]
      simp only [contribution, Crosstalk.terms, if_pos hdims]
      exact hpulses work.pulses s
    · rw [toSource, noise.computes_noisyPulses hdims]
      exact hboth work.accumulator.extend_ofCoherent
  | amplitude noise =>
    rw [toSource, noise.computes_noisyPulses dims]
    simp only [contribution, write]
    cases noise.perturbed work.pulses with
    | error e => rfl
    | ok noisy => exact hpulses noisy s
  | random noise =>
    simp only [contribution, write]
    rcases noise.yield_noisyPulses work.pulses s with ⟨hnone, hsame⟩ | hsome
    · rw [hsame, toSource, RandomNoise.toSource, hnone]
      exact hpulses work.pulses s
    · rw [toSource, RandomNoise.toSource, hsome]
      cases (noise.perturbed work.pulses).yield s with
      | error e => rfl
      | ok p => exact hpulses p.1 p.2

theorem yield_apply (source : BuiltIn σ) (dims : List Nat) {work : Workpiece}
    (hideal : work.accumulator.ideal = none) (s : σ) :
    (source.toSource.apply dims work).yield s = do
      let p ← (source.write work.pulses).yield s
      let c ← source.contribution dims
      return (⟨p.1, work.accumulator.extend c⟩, p.2) := by
  rw [Source.yield_apply_of_faultless fun _ _ h => source.fault?_eq_none hideal h,
    yield_onto_noisyPulses]

/-- What a source adds to the accumulator of a run, which is nothing when it is skipped. -/
def contributionIn (deviceNoise : Bool) (dims : List Nat) (source : BuiltIn σ) :
    Except Error Contribution :=
  if isSkipped deviceNoise source.toSource then .ok .none else source.contribution dims

/-- Sources that can be skipped do not write to the pulses. -/
theorem write_eq_of_isSkipped {deviceNoise : Bool} {source : BuiltIn σ}
    (h : isSkipped deviceNoise source.toSource = true) (pulses : List Pulse) :
    source.write pulses = return pulses := by
  cases source with
  | decoherence _ | relaxation _ | crosstalk _ => rfl
  | amplitude _ | random _ => cases h

theorem yield_runSource (source : BuiltIn σ) (deviceNoise : Bool) (dims : List Nat)
    {work : Workpiece} (hideal : work.accumulator.ideal = none) (s : σ) :
    (runSource deviceNoise dims work source.toSource).yield s = do
      let p ← (source.write work.pulses).yield s
      let c ← source.contributionIn deviceNoise dims
      return (⟨p.1, work.accumulator.extend c⟩, p.2) := by
  unfold runSource contributionIn
  by_cases hskip : isSkipped deviceNoise source.toSource = true
  · rw [if_pos hskip, if_pos hskip, write_eq_of_isSkipped hskip, Action.yield_bind]
    change Except.ok (work, s) = .ok (⟨work.pulses, work.accumulator.extend .none⟩, s)
    rw [work.accumulator.extend_none]
  · rw [if_neg hskip, if_neg hskip, Action.yield_bind, ← source.yield_apply dims hideal]
    rfl

end BuiltIn

/-! ## Runs -/

/-- What the sources do to the pulses, one after the other. -/
def writeAll (sources : List (BuiltIn σ)) (pulses : List Pulse) : Action σ (List Pulse) :=
  sources.foldlM (fun pulses source => source.write pulses) pulses

theorem writeAll_extends {sources : List (BuiltIn σ)} {pulses noisy : List Pulse} {s s' : σ}
    (h : (writeAll sources pulses).yield s = .ok (noisy, s')) : AllExtend pulses noisy :=
  Action.foldlM_carries AllExtend.refl AllExtend.trans
    (BuiltIn.write_along AllExtend.alongPerturbations) h

/-- A run over the sources succeeds when its two halves do: the writing to the pulses, one source
after the other, and each contribution by itself. -/
theorem yield_runSources_eq_ok_iff {deviceNoise : Bool} {dims : List Nat}
    {sources : List (BuiltIn σ)} (work : Workpiece) {work' : Workpiece} {s s' : σ}
    (hideal : work.accumulator.ideal = none) :
    (runSources deviceNoise dims (sources.map (·.toSource)) work).yield s = .ok (work', s') ↔
      (writeAll sources work.pulses).yield s = .ok (work'.pulses, s') ∧
        ∃ cs, sources.mapM (·.contributionIn deviceNoise dims) = .ok cs ∧
          work'.accumulator = work.accumulator.extend (.total cs) := by
  induction sources generalizing work s with
  | nil =>
    constructor
    · intro h
      obtain ⟨rfl, rfl⟩ := Prod.mk.inj (Except.ok.inj h)
      exact ⟨rfl, [], rfl, work.accumulator.extend_total_nil.symm⟩
    · rintro ⟨hpulses, cs, hcs, hacc⟩
      obtain rfl : [] = cs := Except.ok.inj hcs
      rw [work.accumulator.extend_total_nil] at hacc
      obtain ⟨hnoisy, rfl⟩ := Prod.mk.inj (Except.ok.inj hpulses)
      exact congrArg (fun w => Except.ok (w, s))
        (congrArg₂ Workpiece.mk hnoisy hacc.symm)
  | cons source sources ih =>
    have hrest (noisy : List Pulse) (c : Contribution) (t : σ) :=
      ih ⟨noisy, work.accumulator.extend c⟩ (s := t) hideal
    simp only [List.map_cons, runSources, writeAll, List.foldlM_cons, Action.yield_bind,
      source.yield_runSource deviceNoise dims hideal, List.mapM_cons, bind_eq_ok_iff] at hrest ⊢
    constructor
    · rintro ⟨p, ⟨⟨noisy, t⟩, hwrite, c, hc, hp⟩, hrun⟩
      cases hp
      obtain ⟨hpulses, cs, hcs, hacc⟩ := (hrest noisy c t).1 hrun
      refine ⟨⟨(noisy, t), hwrite, hpulses⟩, c :: cs, ⟨c, hc, cs, hcs, rfl⟩, ?_⟩
      rw [hacc, Pulse.extend_extend]
    · rintro ⟨⟨⟨noisy, t⟩, hwrite, hpulses⟩, _, ⟨c, hc, cs, hcs, he⟩, hacc⟩
      cases he
      rw [← Pulse.extend_extend] at hacc
      exact ⟨(⟨noisy, work.accumulator.extend c⟩, t), ⟨(noisy, t), hwrite, c, hc, rfl⟩,
        (hrest noisy c t).2 ⟨hpulses, cs, hcs, hacc⟩⟩

/-- The sources of a run with the implied relaxation among them. -/
def withImplied (sources : List (BuiltIn σ)) (options : Options) : List (BuiltIn σ) :=
  sources ++ (options.impliedRelaxation.map BuiltIn.relaxation).toList

theorem allSources_map (sources : List (BuiltIn σ)) (options : Options) :
    allSources (sources.map (·.toSource)) options =
      (withImplied sources options).map (·.toSource) := by
  unfold allSources withImplied
  rw [List.map_append]
  cases options.impliedRelaxation <;> rfl

/-- The implied relaxation does not write to the pulses. -/
theorem writeAll_withImplied (sources : List (BuiltIn σ)) (options : Options)
    (pulses : List Pulse) :
    writeAll (withImplied sources options) pulses = writeAll sources pulses := by
  unfold writeAll withImplied
  rw [List.foldlM_append]
  cases options.impliedRelaxation <;> exact bind_pure _

/-- The pulse that a run returns after the others when device noise is on. -/
def appended (options : Options) (cs : List Contribution) : List Pulse :=
  if options.deviceNoise then [(Pulse.systematic options.interpolation).extend (.total cs)] else []

/-- **Separation.** A run of the library's own sources succeeds when the system resolves, the
options pass when they are looked at, the writing to the pulses succeeds and every contribution
does. The pulses come from the writing alone, the accumulator from the contributions alone. -/
theorem yield_process_map_eq_ok_iff {pulses out : List Pulse} {sources : List (BuiltIn σ)}
    {options : Options} {s s' : σ} :
    (process pulses (sources.map (·.toSource)) options).yield s = .ok (out, s') ↔
      ∃ dims noisy cs, options.system.resolve = .ok dims ∧
        (options.deviceNoise = true → options.validate = .ok ()) ∧
        (writeAll sources pulses).yield s = .ok (noisy, s') ∧
        (withImplied sources options).mapM (·.contributionIn options.deviceNoise dims) = .ok cs ∧
        out = noisy ++ appended options cs := by
  rw [yield_process_eq_ok_iff]
  simp only [allSources_map, writeAll_withImplied,
    yield_runSources_eq_ok_iff ⟨pulses, Pulse.systematic options.interpolation⟩ rfl]
  constructor
  · rintro ⟨dims, work, hdims, hvalid, ⟨hwrite, cs, hcs, hacc⟩, rfl⟩
    exact ⟨dims, work.pulses, cs, hdims, hvalid, hwrite, hcs, by rw [hacc, appended]⟩
  · rintro ⟨dims, noisy, cs, hdims, hvalid, hwrite, hcs, rfl⟩
    exact ⟨dims, ⟨noisy, _⟩, hdims, hvalid, ⟨hwrite, cs, hcs, rfl⟩, rfl⟩

end PulseNoise
