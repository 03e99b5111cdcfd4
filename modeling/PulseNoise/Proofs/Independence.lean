import PulseNoise.Proofs.Frame
import PulseNoise.Proofs.Separation

/-!
# Sources that do not see each other

The sources of the library are of three kinds, by what they write to: the pulses, the coherent
terms of the accumulator or its Lindblad terms. Sources of different kinds have no influence on
each other, so a run can be taken apart by kinds.

* `BuiltIn.coherent_eq_nil` and `BuiltIn.lindblad_eq_nil` say what a kind does not write to.
* `process_writing_eq_take` leaves out the sources that do not write to the pulses.
* `process_congr_of_sameByKind` puts the sources of a run in another order.
-/

namespace PulseNoise

variable {σ : Type}

/-! ## Kinds of sources -/

/-- What a source writes to. -/
inductive Kind
  | writing
  | coupling
  | collapse
  deriving DecidableEq

/-- Amplitude noise and random noise are writing, crosstalk is coupling, and decoherence and
relaxation are collapse. -/
def BuiltIn.kind : BuiltIn σ → Kind
  | amplitude _ | random _ => .writing
  | crosstalk _ => .coupling
  | decoherence _ | relaxation _ => .collapse

/-- The sources of one kind in their order. -/
def ofKind (kind : Kind) (sources : List (BuiltIn σ)) : List (BuiltIn σ) :=
  sources.filter (·.kind = kind)

/-- Two lists that have the same sources of each kind in the same order. -/
def SameByKind (left right : List (BuiltIn σ)) : Prop :=
  ∀ kind, ofKind kind left = ofKind kind right

namespace SameByKind

variable {left right : List (BuiltIn σ)}

theorem symm (h : SameByKind left right) : SameByKind right left := fun kind => (h kind).symm

theorem append (h : SameByKind left right) (more : List (BuiltIn σ)) :
    SameByKind (left ++ more) (right ++ more) := by
  intro kind
  unfold ofKind
  rw [List.filter_append, List.filter_append]
  exact congrArg (· ++ more.filter (·.kind = kind)) (h kind)

theorem mem (h : SameByKind left right) {source : BuiltIn σ} (hmem : source ∈ right) :
    source ∈ left := by
  have hkind : source ∈ ofKind source.kind right :=
    List.mem_filter.2 ⟨hmem, decide_eq_true rfl⟩
  rw [← h source.kind] at hkind
  exact List.mem_of_mem_filter hkind

end SameByKind

namespace BuiltIn

variable {deviceNoise : Bool} {dims : List Nat} {source : BuiltIn σ} {c : Contribution}

theorem write_eq_pure (h : source.kind ≠ .writing) (pulses : List Pulse) :
    source.write pulses = return pulses := by
  cases source with
  | decoherence _ | relaxation _ | crosstalk _ => rfl
  | amplitude _ | random _ => exact absurd rfl h

theorem contributionIn_of_writing (h : source.kind = .writing) (deviceNoise : Bool)
    (dims : List Nat) : source.contributionIn deviceNoise dims = .ok .none := by
  unfold contributionIn
  split
  · rfl
  · cases source with
    | amplitude _ | random _ => rfl
    | decoherence _ | relaxation _ | crosstalk _ => cases h

/-- Crosstalk alone adds coherent terms. -/
theorem coherent_eq_nil (h : source.contributionIn deviceNoise dims = .ok c)
    (hkind : source.kind ≠ .coupling) : c.coherent = [] := by
  unfold contributionIn at h
  split at h
  · cases h
    rfl
  · cases source with
    | decoherence noise | relaxation noise =>
      obtain ⟨terms, -, rfl⟩ := map_eq_ok_iff.1 h
      rfl
    | amplitude _ | random _ =>
      cases h
      rfl
    | crosstalk _ => exact absurd rfl hkind

/-- Decoherence and relaxation alone add Lindblad terms. -/
theorem lindblad_eq_nil (h : source.contributionIn deviceNoise dims = .ok c)
    (hkind : source.kind ≠ .collapse) : c.lindblad = [] := by
  unfold contributionIn at h
  split at h
  · cases h
    rfl
  · cases source with
    | crosstalk noise =>
      obtain ⟨terms, -, rfl⟩ := map_eq_ok_iff.1 h
      rfl
    | amplitude _ | random _ =>
      cases h
      rfl
    | decoherence _ | relaxation _ => exact absurd rfl hkind

/-- A source that succeeds with device noise on or off succeeds with it off. -/
theorem exists_contributionIn_off (h : source.contributionIn deviceNoise dims = .ok c) :
    ∃ c', source.contributionIn false dims = .ok c' := by
  cases hskip : isSkipped false source.toSource with
  | true => exact ⟨.none, if_pos hskip⟩
  | false =>
    have hcalled : isSkipped deviceNoise source.toSource = false := by
      unfold isSkipped at hskip ⊢
      rw [Bool.not_false, Bool.and_true] at hskip
      rw [hskip, Bool.false_and]
    unfold contributionIn at h ⊢
    rw [hcalled] at h
    rw [hskip]
    exact ⟨c, h⟩

end BuiltIn

/-! ## Leaving out what does not write to the pulses -/

theorem filter_writesPulses (sources : List (BuiltIn σ)) :
    sources.filter (·.writesPulses) = ofKind .writing sources := by
  refine List.filter_congr fun source _ => ?_
  cases source <;> rfl

theorem writeAll_ofKind (sources : List (BuiltIn σ)) (pulses : List Pulse) :
    writeAll (ofKind .writing sources) pulses = writeAll sources pulses := by
  unfold writeAll ofKind
  rw [List.foldlM_filter]
  congr 1
  funext noisy source
  split
  · rfl
  · rename_i hkind
    exact (BuiltIn.write_eq_pure (by simpa using hkind) noisy).symm

/-- With device noise off a run returns what the writing makes of the pulses, as long as its
sources succeed. -/
theorem yield_process_of_off {pulses noisy : List Pulse} {sources : List (BuiltIn σ)}
    {options : Options} {dims : List Nat} {s s' : σ} (hoff : options.deviceNoise = false)
    (hdims : options.system.resolve = .ok dims)
    (hwrite : (writeAll sources pulses).yield s = .ok (noisy, s'))
    (hsources : ∀ source ∈ sources, ∃ c, source.contributionIn false dims = .ok c) :
    (process pulses (sources.map (·.toSource)) options).yield s = .ok (noisy, s') := by
  have himplied : ∀ source ∈ withImplied sources options,
      ∃ c, source.contributionIn options.deviceNoise dims = .ok c := by
    intro source hmem
    rw [hoff]
    rcases List.mem_append.1 hmem with hmem | hmem
    · exact hsources source hmem
    · obtain ⟨noise, -, rfl⟩ := Option.map_eq_some_iff.1 (Option.mem_toList.1 hmem)
      exact ⟨.none, rfl⟩
  obtain ⟨cs, hcs⟩ := exists_mapM_eq_ok_iff.2 himplied
  refine yield_process_map_eq_ok_iff.2 ⟨dims, noisy, cs, hdims, ?_, hwrite, hcs, ?_⟩
  · intro hdevice
    rw [hoff] at hdevice
    cases hdevice
  · rw [appended, hoff]
    exact (List.append_nil noisy).symm

/-- The options for the same system with device noise off and without relaxation times. -/
def Options.bare (options : Options) : Options :=
  { options with t1 := none, t2 := none, deviceNoise := false }

section Process

variable {pulses out : List Pulse} {sources : List (BuiltIn σ)} {options : Options} {s : σ}

theorem process_writing_of_ok
    (h : (process pulses (sources.map (·.toSource)) options s).result = .ok out) :
    (process pulses ((sources.filter (·.writesPulses)).map (·.toSource)) options.bare s).result =
      .ok (out.take pulses.length) := by
  obtain ⟨dims, noisy, cs, hdims, -, hwrite, -, rfl⟩ :=
    yield_process_map_eq_ok_iff.1 (Action.yield_eq_ok_iff.2 ⟨h, rfl⟩)
  have hbare : options.bare.deviceNoise = false := rfl
  have hsources : ∀ source ∈ ofKind .writing sources,
      ∃ c, source.contributionIn false dims = .ok c := by
    intro source hmem
    have hkind : source.kind = .writing := of_decide_eq_true (List.mem_filter.1 hmem).2
    exact ⟨.none, BuiltIn.contributionIn_of_writing hkind false dims⟩
  rw [(writeAll_extends hwrite).length_eq, List.take_left, filter_writesPulses]
  rw [← writeAll_ofKind] at hwrite
  exact (Action.yield_eq_ok_iff.1 (yield_process_of_off hbare hdims hwrite hsources)).1

theorem process_off_of_ok
    (h : (process pulses (sources.map (·.toSource)) options s).result = .ok out) :
    (process pulses (sources.map (·.toSource)) (options.withDeviceNoise false) s).result =
      .ok (out.take pulses.length) := by
  obtain ⟨dims, noisy, cs, hdims, -, hwrite, hcs, rfl⟩ :=
    yield_process_map_eq_ok_iff.1 (Action.yield_eq_ok_iff.2 ⟨h, rfl⟩)
  have hoff : (options.withDeviceNoise false).deviceNoise = false := rfl
  have hsources : ∀ source ∈ sources, ∃ c, source.contributionIn false dims = .ok c := by
    intro source hmem
    obtain ⟨c, hc⟩ := exists_mapM_eq_ok_iff.1 ⟨cs, hcs⟩ source (List.mem_append_left _ hmem)
    exact BuiltIn.exists_contributionIn_off hc
  rw [(writeAll_extends hwrite).length_eq, List.take_left]
  exact (Action.yield_eq_ok_iff.1 (yield_process_of_off hoff hdims hwrite hsources)).1

/-- **Only writing sources matter to the pulses.** The pulses of a successful run, without the
accumulator, are what its writing sources alone return, with device noise off and without
relaxation times; these fail only in runs that fail. The same pulses are returned with device
noise off. -/
theorem process_writing_eq_take (pulses : List Pulse) (sources : List (BuiltIn σ))
    (options : Options) (s : σ) :
    (∀ out, (process pulses (sources.map (·.toSource)) options s).result = .ok out →
      (process pulses ((sources.filter (·.writesPulses)).map (·.toSource)) options.bare s).result =
          .ok (out.take pulses.length) ∧
        (process pulses (sources.map (·.toSource)) (options.withDeviceNoise false) s).result =
          .ok (out.take pulses.length)) ∧
      ∀ e, (process pulses ((sources.filter (·.writesPulses)).map (·.toSource)) options.bare
          s).result = .error e →
        ∃ e', (process pulses (sources.map (·.toSource)) options s).result = .error e' := by
  refine ⟨fun out hout => ⟨process_writing_of_ok hout, process_off_of_ok hout⟩, ?_⟩
  intro e hfails
  cases hfull : (process pulses (sources.map (·.toSource)) options s).result with
  | error e' => exact ⟨e', rfl⟩
  | ok out =>
    rw [process_writing_of_ok hfull] at hfails
    cases hfails

end Process

/-! ## Another order -/

/-- What is collected along a list comes from those elements alone that add something. -/
theorem flatMap_eq_of_filter {α β τ : Type} {f : α → Except Error β} {g : β → List τ}
    {p : α → Bool} (hnil : ∀ x y, f x = .ok y → p x = false → g y = []) {xs : List α}
    {ys zs : List β} (hys : xs.mapM f = .ok ys) (hzs : (xs.filter p).mapM f = .ok zs) :
    ys.flatMap g = zs.flatMap g := by
  rw [mapM_eq_ok_iff] at hys hzs
  induction hys generalizing zs with
  | nil =>
    cases hzs
    rfl
  | @cons x y xs ys hy _ ih =>
    cases hp : p x with
    | false =>
      rw [List.filter_cons_of_neg (Bool.eq_false_iff.1 hp)] at hzs
      rw [List.flatMap_cons, hnil x y hy hp, List.nil_append, ih hzs]
    | true =>
      rw [List.filter_cons_of_pos hp] at hzs
      obtain ⟨z, zs', hz, hrest, rfl⟩ := List.forall₂_cons_left_iff.1 hzs
      obtain rfl : y = z := Except.ok.inj (hy.symm.trans hz)
      rw [List.flatMap_cons, List.flatMap_cons, ih hrest]

theorem total_eq_of_sameByKind {left right : List (BuiltIn σ)} (h : SameByKind left right)
    {deviceNoise : Bool} {dims : List Nat} {cs ds : List Contribution}
    (hcs : left.mapM (·.contributionIn deviceNoise dims) = .ok cs)
    (hds : right.mapM (·.contributionIn deviceNoise dims) = .ok ds) :
    Contribution.total cs = Contribution.total ds := by
  -- each part of the total is added by the sources of one kind
  have hpart (kind : Kind) (part : Contribution → List Term)
      (hnil : ∀ (source : BuiltIn σ) c, source.contributionIn deviceNoise dims = .ok c →
        source.kind ≠ kind → part c = []) : cs.flatMap part = ds.flatMap part := by
    obtain ⟨es, hes⟩ := exists_mapM_eq_ok_iff.2 fun source hmem =>
      exists_mapM_eq_ok_iff.1 ⟨cs, hcs⟩ source
        (List.mem_of_mem_filter (hmem : source ∈ ofKind kind left))
    have hother (source : BuiltIn σ) (c : Contribution)
        (hc : source.contributionIn deviceNoise dims = .ok c)
        (hkind : decide (source.kind = kind) = false) : part c = [] :=
      hnil source c hc (of_decide_eq_false hkind)
    rw [flatMap_eq_of_filter hother hcs hes]
    rw [h kind] at hes
    rw [flatMap_eq_of_filter hother hds hes]
  exact congrArg₂ Contribution.mk
    (hpart .coupling (·.coherent) fun _ _ => BuiltIn.coherent_eq_nil)
    (hpart .collapse (·.lindblad) fun _ _ => BuiltIn.lindblad_eq_nil)

theorem yield_process_of_sameByKind {left right : List (BuiltIn σ)} (h : SameByKind left right)
    {pulses out : List Pulse} {options : Options} {s s' : σ}
    (hleft : (process pulses (left.map (·.toSource)) options).yield s = .ok (out, s')) :
    (process pulses (right.map (·.toSource)) options).yield s = .ok (out, s') := by
  obtain ⟨dims, noisy, cs, hdims, hvalid, hwrite, hcs, rfl⟩ :=
    yield_process_map_eq_ok_iff.1 hleft
  have hall : SameByKind (withImplied left options) (withImplied right options) := h.append _
  obtain ⟨ds, hds⟩ := exists_mapM_eq_ok_iff.2 fun source hmem =>
    exists_mapM_eq_ok_iff.1 ⟨cs, hcs⟩ source (hall.mem hmem)
  refine yield_process_map_eq_ok_iff.2 ⟨dims, noisy, ds, hdims, hvalid, ?_, hds, ?_⟩
  · rw [← writeAll_ofKind, ← h .writing, writeAll_ofKind]
    exact hwrite
  · rw [appended, appended, total_eq_of_sameByKind hall hcs hds]

/-- **The order of sources of different kinds does not matter.** With the same sources of each
kind in the same order, one run succeeds exactly when the other does, and they return the same
pulses, the accumulator included, and leave the samplers in the same state. -/
theorem process_congr_of_sameByKind {left right : List (BuiltIn σ)} (h : SameByKind left right)
    (pulses : List Pulse) (options : Options) (s : σ) (out : List Pulse) (s' : σ) :
    (process pulses (left.map (·.toSource)) options s).result = .ok out ∧
        (process pulses (left.map (·.toSource)) options s).state = s' ↔
      (process pulses (right.map (·.toSource)) options s).result = .ok out ∧
        (process pulses (right.map (·.toSource)) options s).state = s' := by
  rw [← Action.yield_eq_ok_iff, ← Action.yield_eq_ok_iff]
  exact ⟨yield_process_of_sameByKind h, yield_process_of_sameByKind h.symm⟩

/-- The sources of `sampleSources` with those of one kind next to each other. -/
def groupedSources : List (BuiltIn Nat) :=
  [.decoherence { Decoherence.single (.destroy 2) with onEachQubit := true },
    .relaxation (.uniform 4.0 8.0),
    .crosstalk ⟨⟨[0.5], [5.0, 4.0], [0.25, 0.25]⟩⟩,
    .random ⟨0.5, countingSampler, .empty, some [1, 0, 1]⟩,
    .amplitude (.scale 2.0)]

theorem process_congr_grouped :
    SameByKind sampleSources groupedSources ∧ ∃ out,
      (process samplePulses (sampleSources.map (·.toSource)) sampleOptions 7).result =
          .ok out ∧
        (process samplePulses (groupedSources.map (·.toSource)) sampleOptions 7).result =
          .ok out := by
  have hsame : SameByKind sampleSources groupedSources := by
    intro kind
    cases kind <;> rfl
  obtain ⟨out, hout⟩ := exists_process_sample
  have hgrouped := (process_congr_of_sameByKind hsame samplePulses sampleOptions 7 out _).1
    ⟨hout, rfl⟩
  exact ⟨hsame, out, hout, hgrouped.1⟩

end PulseNoise
