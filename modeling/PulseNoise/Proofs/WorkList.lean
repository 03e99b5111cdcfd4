import PulseNoise.Proofs.Frame
import PulseNoise.Proofs.Validation

/-!
# Splitting what a source works through

Four sources work through a list: amplitude noise and random noise through the selected pulses,
relaxation through its targets, decoherence through its collapse operators. Such a list can be cut
anywhere, and the two parts given to two sources in a row. The first of them changes nothing that
the second one checks or reads: neither the number of pulses, nor their ideal terms and with them
the shared grid, nor the times and dimensions of the qubits.

* `BuiltIn.yield_apply_eq_ok_iff` says what one application does to pulses and accumulator.
* `selection` are the entries that a source of the first two kinds goes through.
* `AmplitudeNoise.perturbed_append_eq_ok_iff` and `RandomNoise.yield_perturbed_append_eq_ok_iff`
  cut a selection, `Relaxation.terms_append_eq_ok_iff` and `Decoherence.terms_append_eq_ok_iff` the
  lists of the other two.
* `BuiltIn.splitsInto_append` says of all four that two parts do what the whole does.
-/

namespace PulseNoise

variable {σ : Type}

namespace BuiltIn

/-- Two sources in a row that do to a workpiece what one source does: from any state either both
ways succeed or none, and then they leave the same workpiece and the same state. -/
def SplitsInto (source first second : BuiltIn σ) (dims : List Nat) (work : Workpiece) : Prop :=
  ∀ (work' : Workpiece) (s s' : σ),
    (source.toSource.apply dims work).yield s = .ok (work', s') ↔
      (first.toSource.apply dims work >>= second.toSource.apply dims).yield s = .ok (work', s')

theorem yield_apply_eq_ok_iff (source : BuiltIn σ) (dims : List Nat) {work work' : Workpiece}
    (hideal : work.accumulator.ideal = none) {s s' : σ} :
    (source.toSource.apply dims work).yield s = .ok (work', s') ↔
      (source.write work.pulses).yield s = .ok (work'.pulses, s') ∧
        work.accumulator.extend <$> source.contribution dims = .ok work'.accumulator := by
  rw [source.yield_apply dims hideal, bind_eq_ok_iff, map_eq_ok_iff]
  constructor
  · rintro ⟨p, hwrite, h⟩
    obtain ⟨c, hc, he⟩ := bind_eq_ok_iff.1 h
    cases he
    exact ⟨hwrite, c, hc, rfl⟩
  · rintro ⟨hwrite, c, hc, hacc⟩
    refine ⟨_, hwrite, bind_eq_ok_iff.2 ⟨c, hc, ?_⟩⟩
    rw [hacc]
    rfl

theorem splitsInto_of_parts {source first second : BuiltIn σ} {dims : List Nat} {work : Workpiece}
    (hideal : work.accumulator.ideal = none)
    (hwrite : ∀ noisy s s', (source.write work.pulses).yield s = .ok (noisy, s') ↔
      (first.write work.pulses >>= second.write).yield s = .ok (noisy, s'))
    (hcontribution : ∀ acc, work.accumulator.extend <$> source.contribution dims = .ok acc ↔
      ∃ mid, work.accumulator.extend <$> first.contribution dims = .ok mid ∧
        mid.extend <$> second.contribution dims = .ok acc) :
    source.SplitsInto first second dims work := by
  intro work' s s'
  -- the accumulator that the first source leaves is one that the second source accepts
  have hmid {acc : Pulse} (h : work.accumulator.extend <$> first.contribution dims = .ok acc) :
      acc.ideal = none := by
    obtain ⟨c, -, rfl⟩ := map_eq_ok_iff.1 h
    exact hideal
  rw [source.yield_apply_eq_ok_iff dims hideal, hwrite, hcontribution,
    Action.yield_bind_eq_ok_iff, Action.yield_bind_eq_ok_iff]
  constructor
  · rintro ⟨⟨pulses, t, hfirst, hsecond⟩, acc, hacc, hacc'⟩
    have happly : (first.toSource.apply dims work).yield s = .ok (⟨pulses, acc⟩, t) :=
      (first.yield_apply_eq_ok_iff dims hideal).2 ⟨hfirst, hacc⟩
    exact ⟨_, t, happly, (second.yield_apply_eq_ok_iff dims (hmid hacc)).2 ⟨hsecond, hacc'⟩⟩
  · rintro ⟨mid, t, happly, happly'⟩
    obtain ⟨hfirst, hacc⟩ := (first.yield_apply_eq_ok_iff dims hideal).1 happly
    obtain ⟨hsecond, hacc'⟩ := (second.yield_apply_eq_ok_iff dims (hmid hacc)).1 happly'
    exact ⟨⟨_, t, hfirst, hsecond⟩, _, hacc, hacc'⟩

end BuiltIn

/-! ## Selections of pulses -/

/-- The entries that are selected among so many pulses: those given, or else all. -/
def selection (indices : Option (List Nat)) (count : Nat) : List Nat :=
  indices.getD (List.range count)

/-- All pulses are selected by default, and then every index is in range. -/
theorem selectIndices_eq (indices : Option (List Nat)) (n : Nat) :
    selectIndices indices n = ((selection indices n).find? (n ≤ ·)).elim
      (.ok (selection indices n)) fun i => .error (.pulseIndexOutOfRange i n) := by
  cases indices with
  | none =>
    have hrange : (selection none n).find? (n ≤ ·) = none :=
      find?_le_eq_none_iff.2 fun _ => List.mem_range.1
    rw [hrange]
    rfl
  | some indices =>
    unfold selectIndices selection
    dsimp only [Option.getD_some]
    cases indices.find? (n ≤ ·) <;> rfl

theorem selectIndices_of_lt {indices : Option (List Nat)} {n : Nat}
    (h : ∀ i ∈ selection indices n, i < n) :
    selectIndices indices n = .ok (selection indices n) := by
  rw [selectIndices_eq, find?_le_eq_none_iff.2 h]
  rfl

theorem selectIndices_of_find? {indices : Option (List Nat)} {n i : Nat}
    (h : (selection indices n).find? (n ≤ ·) = some i) :
    selectIndices indices n = .error (.pulseIndexOutOfRange i n) := by
  rw [selectIndices_eq, h]
  rfl

theorem selectIndices_eq_ok_iff {indices selected : List Nat} {n : Nat} :
    selectIndices (some indices) n = .ok selected ↔
      (∀ i ∈ indices, i < n) ∧ selected = indices := by
  rw [← find?_le_eq_none_iff]
  unfold selectIndices
  dsimp only
  cases indices.find? (n ≤ ·) with
  | none => simp [eq_comm]
  | some index => simp

theorem yield_selectIndices_bind_eq_ok_iff {α : Type} {f : List Nat → Action σ α} {x : α}
    {indices : List Nat} {n : Nat} {s s' : σ} :
    (Action.ofExcept (selectIndices (some indices) n) >>= f).yield s = .ok (x, s') ↔
      (∀ i ∈ indices, i < n) ∧ (f indices).yield s = .ok (x, s') := by
  rw [Action.yield_bind_eq_ok_iff]
  simp only [(Action.computes_ofExcept _).yield_eq_ok_iff, selectIndices_eq_ok_iff]
  constructor
  · rintro ⟨_, _, ⟨⟨hall, rfl⟩, rfl⟩, h⟩
    exact ⟨hall, h⟩
  · rintro ⟨hall, h⟩
    exact ⟨indices, s, ⟨⟨hall, rfl⟩, rfl⟩, h⟩

namespace AmplitudeNoise

variable {noise : AmplitudeNoise} {indices a b : List Nat} {pulses noisy : List Pulse}

theorem perturbed_withIndices_eq_ok_iff :
    (noise.withIndices indices).perturbed pulses = .ok noisy ↔
      (∀ i ∈ indices, i < pulses.length) ∧
        indices.foldlM (perturbAt noise.perturbation noise.grid) pulses = .ok noisy := by
  unfold perturbed
  rw [bind_eq_ok_iff]
  constructor
  · rintro ⟨selected, hselect, hloop⟩
    obtain ⟨hall, rfl⟩ := selectIndices_eq_ok_iff.1 hselect
    exact ⟨hall, hloop⟩
  · rintro ⟨hall, hloop⟩
    exact ⟨indices, selectIndices_eq_ok_iff.2 ⟨hall, rfl⟩, hloop⟩

theorem perturbed_append_eq_ok_iff :
    (noise.withIndices (a ++ b)).perturbed pulses = .ok noisy ↔
      ∃ mid, (noise.withIndices a).perturbed pulses = .ok mid ∧
        (noise.withIndices b).perturbed mid = .ok noisy := by
  -- the first part leaves as many pulses as there were, so the check of the second one is the same
  have hlength {mid : List Pulse} (h : (noise.withIndices a).perturbed pulses = .ok mid) :
      pulses.length = mid.length :=
    (perturbed_along AllExtend.alongPerturbations h).length_eq
  rw [perturbed_withIndices_eq_ok_iff, List.forall_mem_append, List.foldlM_append, bind_eq_ok_iff]
  constructor
  · rintro ⟨⟨ha, hb⟩, mid, hmid, hnoisy⟩
    have hfirst := perturbed_withIndices_eq_ok_iff.2 ⟨ha, hmid⟩
    rw [hlength hfirst] at hb
    exact ⟨mid, hfirst, perturbed_withIndices_eq_ok_iff.2 ⟨hb, hnoisy⟩⟩
  · rintro ⟨mid, hfirst, hsecond⟩
    obtain ⟨ha, hmid⟩ := perturbed_withIndices_eq_ok_iff.1 hfirst
    obtain ⟨hb, hnoisy⟩ := perturbed_withIndices_eq_ok_iff.1 hsecond
    rw [← hlength hfirst] at hb
    exact ⟨⟨ha, hb⟩, mid, hmid, hnoisy⟩

end AmplitudeNoise

/-! ## Selections with a shared grid -/

theorem Pulse.Extends.span_eq {before after : Pulse} (h : before.Extends after) :
    after.span = before.span := by
  rw [Pulse.span, Pulse.span, h.ideal]

theorem AllExtend.sharedSpan_eq {before after : List Pulse} (h : AllExtend before after) :
    sharedSpan after = sharedSpan before := by
  have hspans : after.filterMap (·.span) = before.filterMap (·.span) := by
    induction h with
    | nil => rfl
    | cons hhead _ ih => rw [List.filterMap_cons, List.filterMap_cons, hhead.span_eq, ih]
  rw [sharedSpan, sharedSpan, hspans]

namespace RandomNoise

/-- The shared grid of the pulses, as far as there is one. -/
def gridOn (noise : RandomNoise σ) (pulses : List Pulse) : Except Error Sampling.SampleGrid := do
  let span ← sharedSpan pulses
  Sampling.SampleGrid.make? span.1 span.2 noise.dt

theorem computes_sharedGrid (noise : RandomNoise σ) (pulses : List Pulse) :
    Action.Computes (noise.sharedGrid pulses) (noise.gridOn pulses) := by
  refine Action.computes_bind (Action.computes_ofExcept _) fun span => ?_
  rw [← bind_pure (Sampling.SampleGrid.make? span.1 span.2 noise.dt)]
  exact Action.computes_bind (Action.computes_ofExcept _) fun grid =>
    Action.computes_bind (Action.computes_record _ _) fun _ => Action.computes_pure grid

theorem gridOn_eq_of_allExtend (noise : RandomNoise σ) {before after : List Pulse}
    (h : AllExtend before after) : noise.gridOn after = noise.gridOn before := by
  rw [gridOn, gridOn, h.sharedSpan_eq]

variable {noise : RandomNoise σ} {indices a b : List Nat} {pulses noisy : List Pulse} {s s' : σ}

/-- The draws of a selection take the points of the shared grid. An empty selection asks for none,
so that any points do for it. -/
theorem yield_perturbed_withIndices_eq_ok_iff :
    ((noise.withIndices indices).perturbed pulses).yield s = .ok (noisy, s') ↔
      (∀ i ∈ indices, i < pulses.length) ∧
        ∃ points, (indices ≠ [] → ∃ grid, noise.gridOn pulses = .ok grid ∧ grid.points = points) ∧
          (indices.foldlM (noise.drawFor points) pulses).yield s = .ok (noisy, s') := by
  refine yield_selectIndices_bind_eq_ok_iff.trans (and_congr_right fun _ => ?_)
  cases indices with
  | nil =>
    change (pure pulses : Action σ (List Pulse)).yield s = _ ↔ _
    constructor
    · intro h
      exact ⟨[], fun hne => absurd rfl hne, h⟩
    · rintro ⟨points, -, h⟩
      exact h
  | cons i indices =>
    change (noise.sharedGrid pulses >>= fun grid =>
      (i :: indices).foldlM (noise.drawFor grid.points) pulses).yield s = _ ↔ _
    rw [Action.yield_bind_eq_ok_iff]
    simp only [(noise.computes_sharedGrid pulses).yield_eq_ok_iff]
    constructor
    · rintro ⟨grid, _, ⟨hgrid, rfl⟩, h⟩
      exact ⟨grid.points, fun _ => ⟨grid, hgrid, rfl⟩, h⟩
    · rintro ⟨_, hpoints, h⟩
      obtain ⟨grid, hgrid, rfl⟩ := hpoints (List.cons_ne_nil i indices)
      exact ⟨grid, s, ⟨hgrid, rfl⟩, h⟩

theorem yield_perturbed_append_eq_ok_iff :
    ((noise.withIndices (a ++ b)).perturbed pulses).yield s = .ok (noisy, s') ↔
      ∃ mid t, ((noise.withIndices a).perturbed pulses).yield s = .ok (mid, t) ∧
        ((noise.withIndices b).perturbed mid).yield t = .ok (noisy, s') := by
  -- the first part changes neither the number of the pulses nor their shared grid
  have hkept {mid : List Pulse} {t : σ}
      (h : ((noise.withIndices a).perturbed pulses).yield s = .ok (mid, t)) :
      mid.length = pulses.length ∧ noise.gridOn mid = noise.gridOn pulses := by
    have hextends : AllExtend pulses mid := perturbed_along AllExtend.alongPerturbations h
    exact ⟨hextends.length_eq.symm, noise.gridOn_eq_of_allExtend hextends⟩
  constructor
  · intro h
    obtain ⟨hall, points, hpoints, hloop⟩ := yield_perturbed_withIndices_eq_ok_iff.1 h
    obtain ⟨ha, hb⟩ := List.forall_mem_append.1 hall
    rw [List.foldlM_append] at hloop
    obtain ⟨mid, t, hmid, hnoisy⟩ := Action.yield_bind_eq_ok_iff.1 hloop
    have hfirst : ((noise.withIndices a).perturbed pulses).yield s = .ok (mid, t) :=
      yield_perturbed_withIndices_eq_ok_iff.2
        ⟨ha, points, fun hne => hpoints (List.append_ne_nil_of_left_ne_nil hne b), hmid⟩
    refine ⟨mid, t, hfirst, yield_perturbed_withIndices_eq_ok_iff.2 ⟨?_, points, ?_, hnoisy⟩⟩
    · rwa [(hkept hfirst).1]
    · rw [(hkept hfirst).2]
      exact fun hne => hpoints (List.append_ne_nil_of_right_ne_nil a hne)
  · rintro ⟨mid, t, hfirst, hsecond⟩
    have hkept := hkept hfirst
    obtain ⟨ha, points, hpoints, hmid⟩ := yield_perturbed_withIndices_eq_ok_iff.1 hfirst
    obtain ⟨hb, points', hpoints', hnoisy⟩ := yield_perturbed_withIndices_eq_ok_iff.1 hsecond
    rw [hkept.1] at hb
    rw [hkept.2] at hpoints'
    refine yield_perturbed_withIndices_eq_ok_iff.2 ⟨List.forall_mem_append.2 ⟨ha, hb⟩, ?_⟩
    simp only [List.foldlM_append, Action.yield_bind_eq_ok_iff]
    -- an empty part has drawn on no points, so that those of the other one will do
    by_cases hempty : a = []
    · subst hempty
      exact ⟨points', hpoints', mid, t, hmid, hnoisy⟩
    · obtain ⟨grid, hgrid, rfl⟩ := hpoints hempty
      refine ⟨grid.points, fun _ => ⟨grid, hgrid, rfl⟩, mid, t, hmid, ?_⟩
      by_cases hempty' : b = []
      · subst hempty'
        exact hnoisy
      · obtain ⟨grid', hgrid', rfl⟩ := hpoints' hempty'
        obtain rfl : grid = grid' := Except.ok.inj (hgrid.symm.trans hgrid')
        exact hnoisy

end RandomNoise

/-! ## Terms of an accumulator -/

theorem flatten_mapM_append_eq_ok_iff {α τ : Type} {g : α → Except Error (List τ)} {xs ys : List α}
    {ts : List τ} :
    List.flatten <$> (xs ++ ys).mapM g = .ok ts ↔
      ∃ ts₁ ts₂, List.flatten <$> xs.mapM g = .ok ts₁ ∧ List.flatten <$> ys.mapM g = .ok ts₂ ∧
        ts₁ ++ ts₂ = ts := by
  simp only [List.mapM_append, map_eq_ok_iff, bind_eq_ok_iff]
  constructor
  · rintro ⟨_, ⟨tss₁, h₁, tss₂, h₂, he⟩, rfl⟩
    cases he
    exact ⟨_, _, ⟨tss₁, h₁, rfl⟩, ⟨tss₂, h₂, rfl⟩, List.flatten_append.symm⟩
  · rintro ⟨_, _, ⟨tss₁, h₁, rfl⟩, ⟨tss₂, h₂, rfl⟩, rfl⟩
    exact ⟨tss₁ ++ tss₂, ⟨tss₁, h₁, tss₂, h₂, rfl⟩, List.flatten_append⟩

namespace Relaxation

variable {noise : Relaxation} {dims targets a b : List Nat} {ts : List Term}

theorem terms_withTargets_eq_ok_iff :
    (noise.withTargets targets).terms dims = .ok ts ↔
      ∃ t1s t2s, RelaxationTime.broadcast noise.t1 "t1" dims.length = .ok t1s ∧
        RelaxationTime.broadcast noise.t2 "t2" dims.length = .ok t2s ∧
        (∀ q ∈ targets, q < dims.length) ∧
        List.flatten <$> targets.mapM (qubitTerms dims t1s t2s) = .ok ts := by
  simp only [terms, bind_eq_ok_iff]
  constructor
  · rintro ⟨t1s, h1, t2s, h2, _, htargets, hterms⟩
    exact ⟨t1s, t2s, h1, h2, checkTargets_eq_ok_iff.1 htargets, hterms⟩
  · rintro ⟨t1s, t2s, h1, h2, hall, hterms⟩
    exact ⟨t1s, h1, t2s, h2, (), checkTargets_eq_ok_iff.2 hall, hterms⟩

theorem terms_append_eq_ok_iff :
    (noise.withTargets (a ++ b)).terms dims = .ok ts ↔
      ∃ ts₁ ts₂, (noise.withTargets a).terms dims = .ok ts₁ ∧
        (noise.withTargets b).terms dims = .ok ts₂ ∧ ts₁ ++ ts₂ = ts := by
  simp only [terms_withTargets_eq_ok_iff, List.forall_mem_append, flatten_mapM_append_eq_ok_iff]
  constructor
  · rintro ⟨t1s, t2s, h1, h2, ⟨ha, hb⟩, ts₁, ts₂, hts₁, hts₂, he⟩
    exact ⟨ts₁, ts₂, ⟨t1s, t2s, h1, h2, ha, hts₁⟩, ⟨t1s, t2s, h1, h2, hb, hts₂⟩, he⟩
  · rintro ⟨ts₁, ts₂, ⟨t1s, t2s, h1, h2, ha, hts₁⟩, ⟨t1s', t2s', h1', h2', hb, hts₂⟩, he⟩
    -- the times of the two parts are the same
    obtain rfl : t1s = t1s' := Except.ok.inj (h1.symm.trans h1')
    obtain rfl : t2s = t2s' := Except.ok.inj (h2.symm.trans h2')
    exact ⟨t1s, t2s, h1, h2, ⟨ha, hb⟩, ts₁, ts₂, hts₁, hts₂, he⟩

end Relaxation

theorem Decoherence.terms_append_eq_ok_iff {noise : Decoherence} {dims : List Nat}
    {a b : List Operator} {ts : List Term} :
    { noise with collapse := a ++ b }.terms dims = .ok ts ↔
      ∃ ts₁ ts₂, { noise with collapse := a }.terms dims = .ok ts₁ ∧
        { noise with collapse := b }.terms dims = .ok ts₂ ∧ ts₁ ++ ts₂ = ts :=
  flatten_mapM_append_eq_ok_iff (g := noise.operatorTerms dims)

/-! ## Sources in a row -/

namespace BuiltIn

variable {work : Workpiece}

/-- Sources that write to the pulses leave the accumulator as it is, together and in a row. -/
theorem extend_none_eq_ok_iff (acc acc' : Pulse) :
    acc.extend <$> (.ok .none : Except Error Contribution) = .ok acc' ↔
      ∃ mid, acc.extend <$> (.ok .none : Except Error Contribution) = .ok mid ∧
        mid.extend <$> (.ok .none : Except Error Contribution) = .ok acc' := by
  have hsame (acc : Pulse) : acc.extend <$> (.ok .none : Except Error Contribution) = .ok acc :=
    congrArg Except.ok acc.extend_none
  simp only [hsame]
  constructor
  · intro h
    exact ⟨acc, rfl, h⟩
  · rintro ⟨mid, h, h'⟩
    exact h.trans h'

/-- Terms in two parts extend the accumulator as all of them at once do. -/
theorem extend_ofLindblad_eq_ok_iff {terms terms₁ terms₂ : Except Error (List Term)}
    (hterms : ∀ {ts}, terms = .ok ts ↔
      ∃ ts₁ ts₂, terms₁ = .ok ts₁ ∧ terms₂ = .ok ts₂ ∧ ts₁ ++ ts₂ = ts) (acc acc' : Pulse) :
    acc.extend <$> (Contribution.ofLindblad <$> terms) = .ok acc' ↔
      ∃ mid, acc.extend <$> (Contribution.ofLindblad <$> terms₁) = .ok mid ∧
        mid.extend <$> (Contribution.ofLindblad <$> terms₂) = .ok acc' := by
  have hextend (acc : Pulse) (terms : Except Error (List Term)) {acc' : Pulse} :
      acc.extend <$> (Contribution.ofLindblad <$> terms) = .ok acc' ↔
        ∃ ts, terms = .ok ts ∧ acc.appendLindblad ts = acc' := by
    simp only [map_eq_ok_iff, exists_exists_and_eq_and, acc.extend_ofLindblad]
  simp only [hextend, hterms]
  constructor
  · rintro ⟨_, ⟨ts₁, ts₂, h₁, h₂, rfl⟩, rfl⟩
    exact ⟨_, ⟨ts₁, h₁, rfl⟩, ts₂, h₂, acc.appendLindblad_append ts₁ ts₂⟩
  · rintro ⟨_, ⟨ts₁, h₁, rfl⟩, ts₂, h₂, rfl⟩
    exact ⟨_, ⟨ts₁, ts₂, h₁, h₂, rfl⟩, (acc.appendLindblad_append ts₁ ts₂).symm⟩

theorem splitsInto_amplitude (hideal : work.accumulator.ideal = none) (dims : List Nat)
    (noise : AmplitudeNoise) (a b : List Nat) :
    (amplitude (noise.withIndices (a ++ b)) : BuiltIn σ).SplitsInto
      (amplitude (noise.withIndices a)) (amplitude (noise.withIndices b)) dims work := by
  refine splitsInto_of_parts hideal ?_ (extend_none_eq_ok_iff _)
  intro noisy s s'
  have hwrite (noise : AmplitudeNoise) (pulses noisy : List Pulse) (s s' : σ) :
      ((amplitude noise).write pulses).yield s = .ok (noisy, s') ↔
        noise.perturbed pulses = .ok noisy ∧ s = s' :=
    (Action.computes_ofExcept (noise.perturbed pulses)).yield_eq_ok_iff
  rw [Action.yield_bind_eq_ok_iff]
  simp only [hwrite, AmplitudeNoise.perturbed_append_eq_ok_iff]
  constructor
  · rintro ⟨⟨mid, hfirst, hsecond⟩, rfl⟩
    exact ⟨mid, s, ⟨hfirst, rfl⟩, hsecond, rfl⟩
  · rintro ⟨mid, _, ⟨hfirst, rfl⟩, hsecond, rfl⟩
    exact ⟨⟨mid, hfirst, hsecond⟩, rfl⟩

theorem splitsInto_random (hideal : work.accumulator.ideal = none) (dims : List Nat)
    (noise : RandomNoise σ) (a b : List Nat) :
    (random (noise.withIndices (a ++ b))).SplitsInto
      (random (noise.withIndices a)) (random (noise.withIndices b)) dims work := by
  refine splitsInto_of_parts hideal ?_ (extend_none_eq_ok_iff _)
  intro noisy s s'
  rw [Action.yield_bind_eq_ok_iff]
  exact RandomNoise.yield_perturbed_append_eq_ok_iff

theorem splitsInto_relaxation (hideal : work.accumulator.ideal = none) (dims : List Nat)
    (noise : Relaxation) (a b : List Nat) :
    (relaxation (noise.withTargets (a ++ b)) : BuiltIn σ).SplitsInto
      (relaxation (noise.withTargets a)) (relaxation (noise.withTargets b)) dims work :=
  splitsInto_of_parts hideal (fun _ _ _ => Iff.rfl)
    (extend_ofLindblad_eq_ok_iff Relaxation.terms_append_eq_ok_iff _)

theorem splitsInto_decoherence (hideal : work.accumulator.ideal = none) (dims : List Nat)
    (noise : Decoherence) (a b : List Operator) :
    (decoherence { noise with collapse := a ++ b } : BuiltIn σ).SplitsInto
      (decoherence { noise with collapse := a }) (decoherence { noise with collapse := b })
      dims work :=
  splitsInto_of_parts hideal (fun _ _ _ => Iff.rfl)
    (extend_ofLindblad_eq_ok_iff Decoherence.terms_append_eq_ok_iff _)

/-- **A work list can be cut.** On a workpiece with an accumulator, a source that works through
`a ++ b` and two sources in a row that work through `a` and then `b`, all other settings being
equal, succeed together and leave the same pulses, accumulator and samplers. Entries may repeat,
and either part may be empty. -/
theorem splitsInto_append (hideal : work.accumulator.ideal = none) (dims : List Nat) :
    (∀ (noise : AmplitudeNoise) (a b : List Nat),
      (amplitude (noise.withIndices (a ++ b)) : BuiltIn σ).SplitsInto
        (amplitude (noise.withIndices a)) (amplitude (noise.withIndices b)) dims work) ∧
    (∀ (noise : RandomNoise σ) (a b : List Nat),
      (random (noise.withIndices (a ++ b))).SplitsInto
        (random (noise.withIndices a)) (random (noise.withIndices b)) dims work) ∧
    (∀ (noise : Relaxation) (a b : List Nat),
      (relaxation (noise.withTargets (a ++ b)) : BuiltIn σ).SplitsInto
        (relaxation (noise.withTargets a)) (relaxation (noise.withTargets b)) dims work) ∧
    (∀ (noise : Decoherence) (a b : List Operator),
      (decoherence { noise with collapse := a ++ b } : BuiltIn σ).SplitsInto
        (decoherence { noise with collapse := a }) (decoherence { noise with collapse := b })
        dims work) :=
  ⟨splitsInto_amplitude hideal dims, splitsInto_random hideal dims,
    splitsInto_relaxation hideal dims, splitsInto_decoherence hideal dims⟩

def sampleWork : Workpiece :=
  ⟨samplePulses, (Pulse.systematic none).appendLindblad [⟨.destroy 2, [0], none, .constant⟩]⟩

def sampleRandom : RandomNoise Nat := ⟨0.5, countingSampler, .empty, none⟩

theorem splitsInto_append_sample :
    sampleWork.accumulator.ideal = none ∧
      (∃ work' s',
        ((random (sampleRandom.withIndices ([1, 0] ++ [1]))).toSource.apply [2, 2]
            sampleWork).yield 7 = .ok (work', s') ∧
          ((random (sampleRandom.withIndices [1, 0])).toSource.apply [2, 2] sampleWork >>=
            (random (sampleRandom.withIndices [1])).toSource.apply [2, 2]).yield 7 =
              .ok (work', s')) ∧
      ∃ work' s',
        ((relaxation ((Relaxation.uniform 4.0 8.0).withTargets ([] ++ [1, 1]))).toSource.apply
            [2, 2] sampleWork).yield 7 = .ok (work', s') ∧
          ((relaxation ((Relaxation.uniform 4.0 8.0).withTargets [])).toSource.apply [2, 2]
              sampleWork >>=
            (relaxation ((Relaxation.uniform 4.0 8.0).withTargets [1, 1])).toSource.apply
              [2, 2]).yield 7 = .ok (work', s') := by
  have hideal : sampleWork.accumulator.ideal = none := rfl
  obtain ⟨-, hrandom, hrelaxation, -⟩ := splitsInto_append (σ := Nat) hideal [2, 2]
  obtain ⟨⟨work₁, s₁⟩, h₁⟩ := exists_eq_ok_of_isOk (x :=
    ((random (sampleRandom.withIndices ([1, 0] ++ [1]))).toSource.apply [2, 2]
      sampleWork).yield 7) (by decide +kernel)
  obtain ⟨⟨work₂, s₂⟩, h₂⟩ := exists_eq_ok_of_isOk (x :=
    ((relaxation ((Relaxation.uniform 4.0 8.0).withTargets ([] ++ [1, 1]))).toSource.apply
      [2, 2] sampleWork).yield 7) (by decide +kernel)
  exact ⟨hideal, ⟨work₁, s₁, h₁, (hrandom _ _ _ _ _ _).1 h₁⟩,
    work₂, s₂, h₂, (hrelaxation _ _ _ _ _ _).1 h₂⟩

end BuiltIn

end PulseNoise
