import Mathlib.Algebra.GroupWithZero.Nat
import PulseNoise.Proofs.Independence
import PulseNoise.Proofs.Validation

/-!
# What the accumulator of a run holds

The accumulator that a run returns is put together from what its sources add one by one. What a
source adds is known from the source alone: it is what it makes of an accumulator without terms.
How many terms these are can be told from its parameters.

* `BuiltIn.Adds` is what a source makes of an empty accumulator, `BuiltIn.termCount` the number of
  terms that its parameters call for.
* `Decoherence.length_terms`, `Relaxation.length_terms` and `Crosstalk.length_terms` say that the
  two belong together.
* `process_accumulator_eq` is the accumulator of a run, source by source.
-/

namespace PulseNoise

/-! ## Numbers of terms -/

theorem length_flatten_of_mapM {α τ : Type} {f : α → Except Error (List τ)} {count : α → Nat}
    (hcount : ∀ x ys, f x = .ok ys → ys.length = count x) {xs : List α} {yss : List (List τ)}
    (h : xs.mapM f = .ok yss) : yss.flatten.length = (xs.map count).sum := by
  rw [mapM_eq_ok_iff] at h
  induction h with
  | nil => rfl
  | cons hhead _ ih =>
    rw [List.flatten_cons, List.length_append, List.map_cons, List.sum_cons, hcount _ _ hhead, ih]

theorem sum_map_toNat_add {α : Type} (p q : α → Bool) (xs : List α) :
    (xs.map fun x => (p x).toNat + (q x).toNat).sum = xs.countP p + xs.countP q := by
  induction xs with
  | nil => rfl
  | cons x xs ih =>
    rw [List.map_cons, List.sum_cons, ih, List.countP_cons, List.countP_cons]
    cases p x <;> cases q x <;> simp <;> omega

namespace Decoherence

/-- One term for each operator and qubit when broadcast, else one for each operator. -/
def termCount (noise : Decoherence) (subsystems : Nat) : Nat :=
  if noise.onEachQubit then noise.collapse.length * subsystems else noise.collapse.length

theorem length_places (noise : Decoherence) (subsystems : Nat) :
    (noise.places subsystems).length = if noise.onEachQubit then subsystems else 1 := by
  unfold places
  split
  · rw [List.length_map, List.length_range]
  · rfl

theorem length_terms {noise : Decoherence} {dims : List Nat} {ts : List Term}
    (h : noise.terms dims = .ok ts) : ts.length = noise.termCount dims.length := by
  obtain ⟨tss, htss, rfl⟩ := map_eq_ok_iff.1 h
  have hoperator : ∀ operator ts, noise.operatorTerms dims operator = .ok ts →
      ts.length = (noise.places dims.length).length :=
    fun _ _ hts => (mapM_eq_ok_iff.1 hts).length_eq.symm
  rw [length_flatten_of_mapM hoperator htss, List.map_const', List.sum_replicate_nat,
    length_places, termCount]
  split
  · rfl
  · exact Nat.mul_one _

end Decoherence

namespace RelaxationTime

/-- Whether a qubit has a time. -/
def isPresent (time : Option RelaxationTime) (q : Nat) : Bool :=
  match time with
  | none => false
  | some (uniform _) => true
  | some (perQubit times) => times[q]?.join.isSome

theorem isSome_of_checkEntry {name : String} {time checked : Option Float}
    (h : checkEntry name time = .ok checked) : checked.isSome = time.isSome := by
  cases time with
  | none =>
    cases h
    rfl
  | some t =>
    obtain ⟨v, -, rfl⟩ := map_eq_ok_iff.1 h
    rfl

/-- The check of the times leaves none out and adds none. -/
theorem isSome_of_broadcast {time : Option RelaxationTime} {name : String} {n : Nat}
    {ts : List (Option Float)} (h : broadcast time name n = .ok ts) {q : Nat} {t : Option Float}
    (ht : ts[q]? = some t) : t.isSome = isPresent time q := by
  match time with
  | none =>
    cases h
    rw [List.eq_of_mem_replicate (List.mem_of_getElem? ht)]
    rfl
  | some (.uniform _) =>
    obtain ⟨v, -, he⟩ := bind_eq_ok_iff.1 h
    cases he
    rw [List.eq_of_mem_replicate (List.mem_of_getElem? ht)]
    rfl
  | some (.perQubit times) =>
    change (if times.length = n then times.mapM (checkEntry name) else _) = _ at h
    split at h
    · obtain ⟨time, htime, hcheck⟩ := exists_getElem?_of_mapM h ht
      rw [isSome_of_checkEntry hcheck, isPresent, htime]
      rfl
    · cases h

end RelaxationTime

namespace Relaxation

/-- A targeted qubit adds one term for each of its times, as often as it is targeted. -/
def termCount (noise : Relaxation) (subsystems : Nat) : Nat :=
  let targets := noise.targets.getD (List.range subsystems)
  targets.countP (RelaxationTime.isPresent noise.t1)
    + targets.countP (RelaxationTime.isPresent noise.t2)

theorem length_collapseOperators {d : Nat} {t1 t2 : Option Float} {operators : List Operator}
    (h : collapseOperators d t1 t2 = .ok operators) :
    operators.length = t1.isSome.toNat + t2.isSome.toNat := by
  have hdamped : (t1.map (damping d)).toList.length = t1.isSome.toNat := by
    cases t1 <;> rfl
  unfold collapseOperators at h
  cases t2 with
  | none =>
    cases h
    exact hdamped
  | some t2 =>
    obtain ⟨t2Effective, -, he⟩ := bind_eq_ok_iff.1 h
    cases he
    rw [List.length_append, hdamped]
    rfl

theorem length_terms {noise : Relaxation} {dims : List Nat} {ts : List Term}
    (h : noise.terms dims = .ok ts) : ts.length = noise.termCount dims.length := by
  obtain ⟨t1s, h1, h⟩ := bind_eq_ok_iff.1 h
  obtain ⟨t2s, h2, h⟩ := bind_eq_ok_iff.1 h
  obtain ⟨_, -, h⟩ := bind_eq_ok_iff.1 h
  obtain ⟨tss, htss, rfl⟩ := map_eq_ok_iff.1 h
  have hqubit : ∀ q ts, qubitTerms dims t1s t2s q = .ok ts → ts.length =
      (RelaxationTime.isPresent noise.t1 q).toNat
        + (RelaxationTime.isPresent noise.t2 q).toNat := by
    intro q ts hts
    obtain ⟨d, -, hts⟩ := bind_eq_ok_iff.1 hts
    obtain ⟨t1, ht1, hts⟩ := bind_eq_ok_iff.1 hts
    obtain ⟨t2, ht2, hts⟩ := bind_eq_ok_iff.1 hts
    obtain ⟨operators, hoperators, hts⟩ := bind_eq_ok_iff.1 hts
    rw [← (mapM_eq_ok_iff.1 hts).length_eq, length_collapseOperators hoperators,
      RelaxationTime.isSome_of_broadcast h1 (entry_eq_ok_iff.1 ht1),
      RelaxationTime.isSome_of_broadcast h2 (entry_eq_ok_iff.1 ht2)]
  rw [length_flatten_of_mapM hqubit htss, sum_map_toNat_add]
  rfl

end Relaxation

/-- A chain has one pair fewer than subsystems. -/
theorem Crosstalk.length_terms {noise : Crosstalk} {dims : List Nat} {ts : List Term}
    (h : noise.terms dims = .ok ts) : ts.length = dims.length - 1 := by
  unfold terms at h
  split at h
  · cases h
    rw [List.length_nil]
    omega
  · obtain ⟨_, -, hterms⟩ := bind_eq_ok_iff.1 h
    rw [← (mapM_eq_ok_iff.1 hterms).length_eq, List.length_range]

namespace BuiltIn

variable {σ : Type} {source : BuiltIn σ} {dims : List Nat} {c : Contribution}

/-- The number of terms that a source adds on a system of so many subsystems. -/
def termCount (subsystems : Nat) : BuiltIn σ → Nat
  | decoherence noise => noise.termCount subsystems
  | relaxation noise => noise.termCount subsystems
  | crosstalk _ => subsystems - 1
  | amplitude _ | random _ => 0

/-- What a source alone makes of an accumulator without terms: one with the terms of the
contribution and nothing else, whatever the pulses and the state, which it leaves as they are. -/
def Adds (source : BuiltIn σ) (dims : List Nat) (c : Contribution) : Prop :=
  ∀ pulses interpolation s,
    (source.toSource.apply dims ⟨pulses, Pulse.systematic interpolation⟩).yield s =
      .ok (⟨pulses, { Pulse.systematic interpolation with
        coherent := c.coherent, lindblad := c.lindblad }⟩, s)

theorem contributionIn_true (source : BuiltIn σ) (dims : List Nat) :
    source.contributionIn true dims = source.contribution dims := by
  unfold contributionIn isSkipped
  rw [Bool.not_true, Bool.and_false]
  rfl

theorem adds_of_contribution (hkind : source.kind ≠ .writing)
    (h : source.contribution dims = .ok c) : source.Adds dims c := by
  intro pulses interpolation s
  rw [source.yield_apply dims rfl, write_eq_pure hkind, h]
  rfl

/-- The source adds Lindblad terms alone, as many as its parameters call for. -/
def AddsLindblad (dims : List Nat) (source : BuiltIn σ) (terms : List Term) : Prop :=
  source.Adds dims (.ofLindblad terms) ∧ terms.length = source.termCount dims.length

/-- The source adds coherent terms alone, as many as its parameters call for. -/
def AddsCoherent (dims : List Nat) (source : BuiltIn σ) (terms : List Term) : Prop :=
  source.Adds dims (.ofCoherent terms) ∧ terms.length = source.termCount dims.length

theorem addsLindblad_of_collapse (hkind : source.kind = .collapse)
    (h : source.contribution dims = .ok c) : source.AddsLindblad dims c.lindblad := by
  have hadds := adds_of_contribution (by rw [hkind]; decide) h
  cases source with
  | decoherence noise =>
    obtain ⟨ts, hts, rfl⟩ := map_eq_ok_iff.1 h
    exact ⟨hadds, Decoherence.length_terms hts⟩
  | relaxation noise =>
    obtain ⟨ts, hts, rfl⟩ := map_eq_ok_iff.1 h
    exact ⟨hadds, Relaxation.length_terms hts⟩
  | crosstalk _ | amplitude _ | random _ => cases hkind

theorem addsCoherent_of_coupling (hkind : source.kind = .coupling)
    (h : source.contribution dims = .ok c) : source.AddsCoherent dims c.coherent := by
  have hadds := adds_of_contribution (by rw [hkind]; decide) h
  cases source with
  | crosstalk noise =>
    obtain ⟨ts, hts, rfl⟩ := map_eq_ok_iff.1 h
    exact ⟨hadds, Crosstalk.length_terms hts⟩
  | decoherence _ | relaxation _ | amplitude _ | random _ => cases hkind

end BuiltIn

/-! ## The accumulator of a run -/

section Process

variable {σ : Type}

/-- The collapse sources of a run in their order, the implied relaxation last. -/
theorem ofKind_collapse_withImplied (sources : List (BuiltIn σ)) (options : Options) :
    ofKind .collapse (withImplied sources options) =
      ofKind .collapse sources ++ (options.impliedRelaxation.map BuiltIn.relaxation).toList := by
  unfold ofKind withImplied
  rw [List.filter_append]
  cases options.impliedRelaxation <;> rfl

theorem ofKind_coupling_withImplied (sources : List (BuiltIn σ)) (options : Options) :
    ofKind .coupling (withImplied sources options) = ofKind .coupling sources := by
  unfold ofKind withImplied
  rw [List.filter_append]
  cases options.impliedRelaxation <;> exact List.append_nil _

/-- What the sources of a list add to one part of the accumulator is what the sources of one kind
add to it, one after the other. -/
theorem exists_parts {dims : List Nat} {sources : List (BuiltIn σ)} {cs : List Contribution}
    (hcs : sources.mapM (·.contributionIn true dims) = .ok cs) {kind : Kind}
    {part : Contribution → List Term} {P : BuiltIn σ → List Term → Prop}
    (hother : ∀ (source : BuiltIn σ) c, source.contributionIn true dims = .ok c →
      source.kind ≠ kind → part c = [])
    (hkind : ∀ (source : BuiltIn σ) c, source.kind = kind → source.contribution dims = .ok c →
      P source (part c)) :
    ∃ parts, List.Forall₂ P (ofKind kind sources) parts ∧ cs.flatMap part = parts.flatten := by
  obtain ⟨es, hes⟩ := exists_mapM_eq_ok_iff.2 fun source hmem =>
    exists_mapM_eq_ok_iff.1 ⟨cs, hcs⟩ source
      (List.mem_of_mem_filter (hmem : source ∈ ofKind kind sources))
  refine ⟨es.map part, ?_, ?_⟩
  · have hmem : ∀ source ∈ ofKind kind sources, source.kind = kind :=
      fun source hsource => of_decide_eq_true (List.mem_filter.1 hsource).2
    have hboth := (List.forall₂_and_left _ _).2 ⟨hmem, mapM_eq_ok_iff.1 hes⟩
    rw [List.forall₂_map_right_iff]
    refine hboth.imp ?_
    rintro source c ⟨hsource, hc⟩
    rw [BuiltIn.contributionIn_true] at hc
    exact hkind source c hsource hc
  · rw [← List.flatMap_def]
    exact flatMap_eq_of_filter
      (fun source c hc hne => hother source c hc (of_decide_eq_false hne)) hcs hes

/-- The last pulse of a run with device noise on is an empty accumulator with all contributions. -/
theorem exists_accumulator {pulses out : List Pulse} {sources : List (BuiltIn σ)}
    {options : Options} {s : σ} (hdevice : options.deviceNoise = true)
    (h : (process pulses (sources.map (·.toSource)) options s).result = .ok out) :
    ∃ dims cs, options.system.resolve = .ok dims ∧
      (withImplied sources options).mapM (·.contributionIn true dims) = .ok cs ∧
      out.getLast? = some ((Pulse.systematic options.interpolation).extend (.total cs)) := by
  obtain ⟨dims, noisy, cs, hdims, -, -, hcs, rfl⟩ :=
    yield_process_map_eq_ok_iff.1 (Action.yield_eq_ok_iff.2 ⟨h, rfl⟩)
  rw [hdevice] at hcs
  refine ⟨dims, cs, hdims, hcs, ?_⟩
  rw [appended, if_pos hdevice, List.getLast?_concat]

/-- **The accumulator is what its sources add.** With device noise on, the last pulse of a
successful run has the Lindblad terms that the collapse sources add to an empty accumulator, each
by itself, one source after the other and the implied relaxation last, and the coherent terms that
the crosstalk sources add in this way. Every source adds as many as its parameters call for. -/
theorem process_accumulator_eq {pulses out : List Pulse} {sources : List (BuiltIn σ)}
    {options : Options} {s : σ} (hdevice : options.deviceNoise = true)
    (h : (process pulses (sources.map (·.toSource)) options s).result = .ok out) :
    ∃ (dims : List Nat) (acc : Pulse) (lindblad coherent : List (List Term)),
      options.system.resolve = .ok dims ∧ out.getLast? = some acc ∧
      acc.lindblad = lindblad.flatten ∧ acc.coherent = coherent.flatten ∧
      List.Forall₂ (BuiltIn.AddsLindblad dims)
        (ofKind .collapse sources ++ (options.impliedRelaxation.map BuiltIn.relaxation).toList)
        lindblad ∧
      List.Forall₂ (BuiltIn.AddsCoherent dims) (ofKind .coupling sources) coherent := by
  obtain ⟨dims, cs, hdims, hcs, hlast⟩ := exists_accumulator hdevice h
  obtain ⟨lindblad, hlindblad, hlindbladEq⟩ := exists_parts hcs (fun _ _ => BuiltIn.lindblad_eq_nil)
    fun _ _ => BuiltIn.addsLindblad_of_collapse
  obtain ⟨coherent, hcoherent, hcoherentEq⟩ := exists_parts hcs (fun _ _ => BuiltIn.coherent_eq_nil)
    fun _ _ => BuiltIn.addsCoherent_of_coupling
  rw [ofKind_collapse_withImplied] at hlindblad
  rw [ofKind_coupling_withImplied] at hcoherent
  exact ⟨dims, (Pulse.systematic options.interpolation).extend (.total cs), lindblad, coherent,
    hdims, hlast, hlindbladEq, hcoherentEq, hlindblad, hcoherent⟩

theorem process_accumulator_sample :
    sampleOptions.deviceNoise = true ∧ ∃ (out : List Pulse) (acc : Pulse)
      (lindblad coherent : List (List Term)),
      (process samplePulses (sampleSources.map (·.toSource)) sampleOptions 7).result = .ok out ∧
      out.getLast? = some acc ∧ acc.lindblad = lindblad.flatten ∧
      acc.coherent = coherent.flatten ∧ lindblad.map (·.length) = [2, 4, 2] ∧
      coherent.map (·.length) = [1] := by
  obtain ⟨out, hout⟩ := exists_process_sample
  obtain ⟨dims, acc, lindblad, coherent, hdims, hacc, hlindblad, hcoherent, hcollapse, hcoupling⟩ :=
    process_accumulator_eq rfl hout
  obtain rfl : [2, 2] = dims := Except.ok.inj hdims
  have hsources : ofKind .collapse sampleSources ++
      (sampleOptions.impliedRelaxation.map BuiltIn.relaxation).toList =
        [.decoherence { Decoherence.single (.destroy 2) with onEachQubit := true },
          .relaxation (.uniform 4.0 8.0),
          .relaxation (.ofTimes (some (.uniform 4.0)) none)] := rfl
  rw [hsources] at hcollapse
  rcases hcollapse with _ | ⟨hbroadcast, _ | ⟨hrelaxed, _ | ⟨himplied, _ | _⟩⟩⟩
  rcases hcoupling with _ | ⟨hcoupled, _ | _⟩
  refine ⟨rfl, out, acc, _, _, hout, hacc, hlindblad, hcoherent, ?_, ?_⟩
  · rw [List.map_cons, hbroadcast.2, List.map_cons, hrelaxed.2, List.map_cons, himplied.2]
    rfl
  · rw [List.map_cons, hcoupled.2]
    rfl

end Process

end PulseNoise
