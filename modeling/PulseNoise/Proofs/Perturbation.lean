import PulseNoise.Proofs.Yield
import PulseNoise.Source.BuiltIn

/-!
# How pulses are perturbed

Amplitude noise and random noise write to the pulses. A perturbation appends one coherent term to
one pulse and leaves everything else as it was, whatever the selection and the sampler.

* `Pulse.Extends` says that a pulse differs from another one in added coherent noise alone.
* `AlongPerturbations` are the relations that perturbations of single pulses carry on, and
  `AllExtend.alongPerturbations` says that extending in place is one of them.
* `AmplitudeNoise.perturbed_along` and `RandomNoise.perturbed_along` carry them through a source.
-/

namespace PulseNoise

/-- A pulse that differs from the one before in coherent noise at the end alone. -/
structure Pulse.Extends (before after : Pulse) : Prop where
  label : after.label = before.label
  ideal : after.ideal = before.ideal
  interpolation : after.interpolation = before.interpolation
  lindblad : after.lindblad = before.lindblad
  coherent : before.coherent <+: after.coherent

namespace Pulse.Extends

theorem refl (pulse : Pulse) : pulse.Extends pulse :=
  ⟨rfl, rfl, rfl, rfl, List.prefix_refl _⟩

theorem trans {p q r : Pulse} (hpq : p.Extends q) (hqr : q.Extends r) : p.Extends r :=
  ⟨hqr.label.trans hpq.label, hqr.ideal.trans hpq.ideal,
    hqr.interpolation.trans hpq.interpolation, hqr.lindblad.trans hpq.lindblad,
    hpq.coherent.trans hqr.coherent⟩

end Pulse.Extends

/-! ## Lists of pulses -/

/-- Every pulse of a list extended, in place. -/
def AllExtend (before after : List Pulse) : Prop := List.Forall₂ Pulse.Extends before after

namespace AllExtend

theorem refl (pulses : List Pulse) : AllExtend pulses pulses :=
  List.forall₂_same.2 fun pulse _ => .refl pulse

theorem trans {ps qs rs : List Pulse} (hpq : AllExtend ps qs) (hqr : AllExtend qs rs) :
    AllExtend ps rs := by
  induction hpq generalizing rs with
  | nil =>
    cases hqr
    exact .nil
  | cons hhead _ ih =>
    cases hqr with
    | cons hhead' htail' => exact .cons (hhead.trans hhead') (ih htail')

theorem length_eq {before after : List Pulse} (h : AllExtend before after) :
    before.length = after.length :=
  List.Forall₂.length_eq h

theorem set {pulses : List Pulse} {i : Nat} {p q : Pulse} (hp : pulses[i]? = some p)
    (hpq : p.Extends q) : AllExtend pulses (pulses.set i q) := by
  induction pulses generalizing i with
  | nil => exact .nil
  | cons pulse pulses ih =>
    cases i with
    | zero =>
      obtain rfl : pulse = p := Option.some.inj hp
      exact .cons hpq (refl pulses)
    | succ i => exact .cons (.refl pulse) (ih hp)

theorem getElem? {before after : List Pulse} (h : AllExtend before after) {i : Nat} {p : Pulse}
    (hp : before[i]? = some p) : ∃ q, after[i]? = some q ∧ p.Extends q := by
  induction h generalizing i with
  | nil => simp at hp
  | cons hhead _ ih =>
    cases i with
    | zero =>
      obtain rfl := Option.some.inj hp
      exact ⟨_, rfl, hhead⟩
    | succ i => exact ih hp

end AllExtend

/-! ## Perturbations -/

/-- A relation between lists of pulses that the perturbation of a single pulse carries on. -/
structure AlongPerturbations (R : List Pulse → List Pulse → Prop) : Prop where
  refl : ∀ pulses, R pulses pulses
  trans : ∀ {before pulses after}, R before pulses → R pulses after → R before after
  perturbAt : ∀ {perturbation grid pulses i noisy},
    perturbAt perturbation grid pulses i = .ok noisy → R pulses noisy

theorem addCoherent_extends {pulse noisy : Pulse} {operator : Operator} {targets : List Nat}
    {grid : Option (List Float)} {coefficient : Coefficient}
    (h : pulse.addCoherent operator targets grid coefficient = .ok noisy) :
    pulse.Extends noisy := by
  obtain ⟨term, -, he⟩ := bind_eq_ok_iff.1 h
  cases he
  exact ⟨rfl, rfl, rfl, rfl, List.prefix_append _ _⟩

theorem perturb_extends {perturbation : Perturbation} {grid : Option (List Float)}
    {pulse noisy : Pulse} (h : perturb perturbation grid pulse = .ok noisy) :
    pulse.Extends noisy := by
  unfold perturb at h
  split at h
  · cases h
  · exact addCoherent_extends h

theorem perturbAt_extends {perturbation : Perturbation} {grid : Option (List Float)}
    {pulses noisy : List Pulse} {i : Nat} (h : perturbAt perturbation grid pulses i = .ok noisy) :
    AllExtend pulses noisy := by
  obtain ⟨pulse, hpulse, h⟩ := bind_eq_ok_iff.1 h
  obtain ⟨perturbed, hperturbed, he⟩ := bind_eq_ok_iff.1 h
  cases he
  exact .set (entry_eq_ok_iff.1 hpulse) (perturb_extends hperturbed)

theorem AllExtend.alongPerturbations : AlongPerturbations AllExtend where
  refl := AllExtend.refl
  trans := AllExtend.trans
  perturbAt := perturbAt_extends

/-! ## Sources that perturb -/

variable {R : List Pulse → List Pulse → Prop}

theorem AmplitudeNoise.perturbed_along (hR : AlongPerturbations R) {noise : AmplitudeNoise}
    {pulses noisy : List Pulse} (h : noise.perturbed pulses = .ok noisy) : R pulses noisy := by
  obtain ⟨indices, -, hloop⟩ := bind_eq_ok_iff.1 h
  exact foldlM_carries hR.refl hR.trans hR.perturbAt hloop

namespace RandomNoise

variable {σ : Type}

/-- The pulses with every selected one perturbed by a draw of its own. Without a selected pulse
there is neither grid nor draw. -/
def perturbed (noise : RandomNoise σ) (pulses : List Pulse) : Action σ (List Pulse) := do
  let indices ← selectIndices noise.indices pulses.length
  if indices.isEmpty then return pulses
  let grid ← noise.sharedGrid pulses
  indices.foldlM (noise.drawFor grid.points) pulses

theorem drawFor_along (hR : AlongPerturbations R) {noise : RandomNoise σ} {points : List Float}
    {pulses noisy : List Pulse} {i : Nat} {s s' : σ}
    (h : (noise.drawFor points pulses i).yield s = .ok (noisy, s')) : R pulses noisy := by
  obtain ⟨samples, t, -, h⟩ := Action.yield_bind_eq_ok_iff.1 h
  obtain ⟨_, u, -, h⟩ := Action.yield_bind_eq_ok_iff.1 h
  exact hR.perturbAt ((Action.computes_ofExcept _).yield_eq_ok_iff.1 h).1

theorem perturbed_along (hR : AlongPerturbations R) {noise : RandomNoise σ}
    {pulses noisy : List Pulse} {s s' : σ}
    (h : (noise.perturbed pulses).yield s = .ok (noisy, s')) : R pulses noisy := by
  obtain ⟨indices, t, -, h⟩ := Action.yield_bind_eq_ok_iff.1 h
  split at h
  · cases h
    exact hR.refl pulses
  · obtain ⟨grid, u, -, hloop⟩ := Action.yield_bind_eq_ok_iff.1 h
    exact Action.foldlM_carries hR.refl hR.trans (drawFor_along hR) hloop

end RandomNoise

end PulseNoise
