import PulseNoise.Proofs.Fitting
import PulseNoise.Proofs.Replacement

/-!
# Broadcast decoherence spelled out

Broadcast decoherence is short for a list of sources, each with one operator on one target. The
list is run source by source, with an event for each, where the broadcast is one source; but what
comes out of the run is the same, in any surroundings and also when an operator does not fit.

* `Action.AgreeAt` compares two steps by what they leave behind, events apart, and
  `process_agreeAt` puts sources in the place of others in a run.
* `leaves_runSources_decoherence` is a run over decoherences alone.
* `process_spelledOut` compares a broadcast with its list.
-/

namespace PulseNoise

variable {σ α β : Type}

/-! ## Steps that agree, events apart -/

namespace Action

/-- Two steps have the same result from a state, and leave the same state behind. -/
def AgreeAt (x y : Action σ α) (s : σ) : Prop :=
  (x s).result = (y s).result ∧ (x s).state = (y s).state

theorem AgreeAt.refl (x : Action σ α) (s : σ) : x.AgreeAt x s := ⟨rfl, rfl⟩

theorem Leaves.agreeAt {x y : Action σ α} {s s' : σ} {r : Except Error α} (hx : x.Leaves s r s')
    (hy : y.Leaves s r s') : x.AgreeAt y s := ⟨hx.1.trans hy.1.symm, hx.2.trans hy.2.symm⟩

theorem AgreeAt.bind {x y : Action σ α} {f g : α → Action σ β} {s : σ} (h : x.AgreeAt y s)
    (hfg : ∀ a s', x.yield s = .ok (a, s') → (f a).AgreeAt (g a) s') :
    (x >>= f).AgreeAt (y >>= g) s := by
  obtain ⟨hresult, hstate⟩ := h
  rcases hx : x s with ⟨result, s', events⟩
  rcases hy : y s with ⟨result', s'', events'⟩
  rw [hx, hy] at hresult hstate
  obtain rfl : result = result' := hresult
  obtain rfl : s' = s'' := hstate
  unfold AgreeAt
  cases result with
  | error e =>
    rw [run_bind_of_error hx, run_bind_of_error hy]
    exact ⟨rfl, rfl⟩
  | ok a =>
    have hyield : x.yield s = .ok (a, s') := by
      rw [yield_eq_ok_iff, hx]
      exact ⟨rfl, rfl⟩
    rw [run_bind_of_ok hx, run_bind_of_ok hy]
    exact hfg a s' hyield

end Action

theorem runSources_append (deviceNoise : Bool) (dims : List Nat) (before after : List (Source σ))
    (work : Workpiece) :
    runSources deviceNoise dims (before ++ after) work =
      runSources deviceNoise dims before work >>= runSources deviceNoise dims after :=
  List.foldlM_append

theorem runSources_singleton (deviceNoise : Bool) (dims : List Nat) (source : Source σ)
    (work : Workpiece) :
    runSources deviceNoise dims [source] work = runSource deviceNoise dims work source :=
  runSources_concat deviceNoise dims [] source work

/-- Sources in a run can be put in the place of others with which the fold agrees, from every
workpiece whose accumulator has no ideal term. -/
theorem process_agreeAt {lefts rights : List (Source σ)} {options : Options}
    (h : ∀ dims, options.system.resolve = .ok dims →
      ∀ work : Workpiece, work.accumulator.ideal = none → ∀ s,
        (runSources options.deviceNoise dims lefts work).AgreeAt
          (runSources options.deviceNoise dims rights work) s)
    (pulses : List Pulse) (before after : List (Source σ)) (s : σ) :
    (process pulses (before ++ lefts ++ after) options).AgreeAt
      (process pulses (before ++ rights ++ after) options) s := by
  have hruns {dims : List Nat} (hdims : options.system.resolve = .ok dims) (s : σ) :
      (runSources options.deviceNoise dims (allSources (before ++ lefts ++ after) options)
          ⟨pulses, Pulse.systematic options.interpolation⟩).AgreeAt
        (runSources options.deviceNoise dims (allSources (before ++ rights ++ after) options)
          ⟨pulses, Pulse.systematic options.interpolation⟩) s := by
    simp only [allSources, List.append_assoc, runSources_append]
    refine (Action.AgreeAt.refl _ s).bind fun work s' hwork => ?_
    rw [runSources_append, runSources_append]
    exact (h dims hdims work (runSources_keeps_ideal rfl hwork) s').bind
      fun _ _ _ => .refl _ _
  cases hdims : options.system.resolve with
  | error e =>
    unfold Action.AgreeAt
    rw [process_of_unresolved hdims, process_of_unresolved hdims]
    exact ⟨rfl, rfl⟩
  | ok dims =>
    by_cases hvalid : options.deviceNoise = true → options.validate = .ok ()
    · rw [process_of_accepted hdims hvalid, process_of_accepted hdims hvalid]
      exact (hruns hdims s).bind fun _ _ _ => .refl _ _
    · obtain ⟨hdevice, hrefused⟩ := Classical.not_imp.1 hvalid
      cases hcheck : options.validate with
      | ok _ => exact absurd hcheck hrefused
      | error e =>
        unfold Action.AgreeAt
        rw [process_of_refused hdims hdevice hcheck, process_of_refused hdims hdevice hcheck]
        exact ⟨rfl, rfl⟩

/-! ## Runs over decoherences -/

/-- The workpiece with more Lindblad terms in its accumulator. -/
def Workpiece.appendLindblad (work : Workpiece) (ts : List Term) : Workpiece :=
  { work with accumulator := work.accumulator.appendLindblad ts }

theorem Workpiece.appendLindblad_nil (work : Workpiece) : work.appendLindblad [] = work :=
  congrArg (Workpiece.mk work.pulses) work.accumulator.appendLindblad_nil

theorem Workpiece.appendLindblad_append (work : Workpiece) (xs ys : List Term) :
    (work.appendLindblad xs).appendLindblad ys = work.appendLindblad (xs ++ ys) :=
  congrArg (Workpiece.mk work.pulses) (work.accumulator.appendLindblad_append xs ys)

namespace Decoherence

/-- The terms that decoherence adds in a run: none when device noise is off. -/
def termsIn (deviceNoise : Bool) (dims : List Nat) (noise : Decoherence) :
    Except Error (List Term) :=
  if deviceNoise then noise.terms dims else .ok []

/-- One decoherence in a run appends its terms or fails, and leaves the state alone. -/
theorem leaves_runSource (noise : Decoherence) (deviceNoise : Bool) (dims : List Nat)
    {work : Workpiece} (hideal : work.accumulator.ideal = none) (s : σ) :
    (runSource deviceNoise dims work noise.toSource).Leaves s
      (work.appendLindblad <$> noise.termsIn deviceNoise dims) s := by
  cases deviceNoise with
  | false => exact ⟨congrArg Except.ok work.appendLindblad_nil.symm, rfl⟩
  | true =>
    have haccumulate : (Action.ofExcept (noise.accumulate dims work.accumulator)).Leaves s
        (work.accumulator.appendLindblad <$> noise.terms dims) s :=
      ⟨noise.accumulate_eq dims work.accumulator, rfl⟩
    refine (Action.leaves_record _ _ s).bind_ok ?_
    change Action.Leaves _ s (work.appendLindblad <$> noise.terms dims) s
    cases hterms : noise.terms dims with
    | error e =>
      rw [hterms] at haccumulate
      exact haccumulate.bind_error.bind_error
    | ok ts =>
      rw [hterms] at haccumulate
      have habsorb : (noise.toSource : Source σ).absorb work
          (.pulsesAndAccumulator work.pulses (work.accumulator.appendLindblad ts)) =
            .ok (work.appendLindblad ts) := by
        have hideal' : (work.accumulator.appendLindblad ts).ideal = none := hideal
        rw [Source.absorb_eq, Source.fault?, if_pos rfl, if_pos hideal']
        rfl
      have hanswer : (noise.toSource.noisyPulses dims work.pulses work.accumulator).Leaves s
          (.ok (.pulsesAndAccumulator work.pulses (work.accumulator.appendLindblad ts))) s :=
        haccumulate.bind_ok (Action.leaves_pure _ s)
      exact hanswer.bind_ok ⟨habsorb, rfl⟩

/-- A run over decoherences appends their terms together, or fails as the first of them does. -/
theorem leaves_runSources (noises : List Decoherence) (deviceNoise : Bool) (dims : List Nat)
    {work : Workpiece} (hideal : work.accumulator.ideal = none) (s : σ) :
    (runSources deviceNoise dims (noises.map (·.toSource)) work).Leaves s
      (work.appendLindblad <$> (List.flatten <$> noises.mapM (·.termsIn deviceNoise dims))) s := by
  induction noises generalizing work with
  | nil => exact ⟨congrArg Except.ok work.appendLindblad_nil.symm, rfl⟩
  | cons noise noises ih =>
    have hstep := noise.leaves_runSource deviceNoise dims hideal s
    unfold runSources at ih ⊢
    rw [List.map_cons, List.foldlM_cons, List.mapM_cons]
    cases hterms : noise.termsIn deviceNoise dims with
    | error e =>
      rw [hterms] at hstep
      exact hstep.bind_error
    | ok ts =>
      rw [hterms] at hstep
      have hideal' : (work.appendLindblad ts).accumulator.ideal = none := hideal
      have hrest := ih hideal'
      have hresult : (work.appendLindblad ts).appendLindblad <$>
          (List.flatten <$> noises.mapM (·.termsIn deviceNoise dims)) =
          work.appendLindblad <$> (List.flatten <$> (Except.ok ts >>= fun ts' =>
            noises.mapM (·.termsIn deviceNoise dims) >>= fun tss => pure (ts' :: tss))) := by
        cases noises.mapM (·.termsIn deviceNoise dims) with
        | error e => rfl
        | ok tss => exact congrArg Except.ok (work.appendLindblad_append ts tss.flatten)
      rw [← hresult]
      exact hstep.bind_ok hrest

/-! ## The list of a broadcast -/

/-- Decoherence with the dependence on time that is given, if any: a grid and samples. -/
def withTime (noise : Decoherence) : Option (List Float × List Float) → Decoherence
  | none => noise
  | some (grid, samples) => noise.withTimeDependence grid samples

/-- The list that a broadcast on so many subsystems is short for: operator by operator, and for each
operator one decoherence on every subsystem. -/
def spelledOut (collapse : List Operator) (time : Option (List Float × List Float)) (count : Nat) :
    List Decoherence :=
  collapse.flatMap fun a =>
    (List.range count).map fun q => ((single a).withTargets [q]).withTime time

theorem terms_spelledOut {collapse : List Operator} {noise : Decoherence}
    (h : broadcast collapse = .ok noise) (time : Option (List Float × List Float))
    (dims : List Nat) :
    List.flatten <$> (spelledOut collapse time dims.length).mapM (·.terms dims) =
      (noise.withTime time).terms dims := by
  obtain ⟨-, rfl⟩ := broadcast_eq_ok_iff.1 h
  let whole : Decoherence := { ofOperators collapse with onEachQubit := true }
  -- each decoherence of the list has one operator on one place
  let part (p : Operator × List Nat) : Decoherence := ((single p.1).withTargets p.2).withTime time
  have hlist : spelledOut collapse time dims.length =
      ((whole.withTime time).placements dims.length).map part := by
    cases time <;>
      simp only [spelledOut, placements, withTime, withTimeDependence, whole, ofOperators, if_true,
        List.map_flatMap, List.map_map] <;> rfl
  have hpart (p : Operator × List Nat) :
      (part p).terms dims = ([·]) <$> (whole.withTime time).term dims p.1 p.2 := by
    have hterm : (part p).term dims p.1 p.2 = (whole.withTime time).term dims p.1 p.2 := by
      cases time <;> rfl
    have hplacements : (part p).placements dims.length = [p] := by
      cases time <;> rfl
    rw [terms_eq_mapM, hplacements, ← hterm, List.mapM_cons, List.mapM_nil]
    cases (part p).term dims p.1 p.2 <;> rfl
  rw [hlist, List.mapM_map, terms_eq_mapM]
  simp only [Function.comp_def, hpart]
  exact flatten_mapM_singleton _ _

theorem termsIn_spelledOut {collapse : List Operator} {noise : Decoherence}
    (h : broadcast collapse = .ok noise) (time : Option (List Float × List Float))
    (deviceNoise : Bool) (dims : List Nat) :
    List.flatten <$> (spelledOut collapse time dims.length).mapM (·.termsIn deviceNoise dims) =
      (noise.withTime time).termsIn deviceNoise dims := by
  cases deviceNoise with
  | true => exact terms_spelledOut h time dims
  | false =>
    have hnone : (spelledOut collapse time dims.length).mapM (·.termsIn false dims) =
        .ok ((spelledOut collapse time dims.length).map fun _ => []) := by
      rw [mapM_eq_ok_iff, List.forall₂_map_right_iff, List.forall₂_same]
      exact fun _ _ => rfl
    rw [hnone, List.map_const']
    exact congrArg Except.ok List.flatten_replicate_nil

end Decoherence

theorem System.length_of_resolve {system : System} {dims : List Nat}
    (h : system.resolve = .ok dims) : dims.length = system.count := by
  unfold resolve at h
  split at h
  · cases h
  · cases system with
    | qubits n =>
      cases h
      exact List.length_replicate
    | subsystems dims' =>
      change (if 0 ∈ dims' then _ else _) = _ at h
      split at h
      · cases h
      · cases h
        rfl

open Decoherence

/-- **Broadcast decoherence is short for a list of sources.** In any place of a list, with any
dependence on time and whatever the other sources are and do, a broadcast can be replaced by one
source with one operator on one target for each operator and each subsystem of the system. The
result of the run is the same, an error included, and so is the state that the run leaves. -/
theorem process_spelledOut {collapse : List Operator} {noise : Decoherence}
    (h : broadcast collapse = .ok noise) (time : Option (List Float × List Float))
    (pulses : List Pulse) (before after : List (Source σ)) (options : Options) (s : σ) :
    (process pulses (before ++ (noise.withTime time).toSource :: after) options).AgreeAt
      (process pulses
        (before ++ (spelledOut collapse time options.system.count).map (·.toSource) ++ after)
        options) s := by
  rw [List.append_cons]
  refine process_agreeAt (fun dims hdims work hideal s => ?_) pulses before after s
  rw [← System.length_of_resolve hdims]
  have hspelled := leaves_runSources (spelledOut collapse time dims.length) options.deviceNoise
    dims hideal s
  rw [termsIn_spelledOut h] at hspelled
  have hwhole := (noise.withTime time).leaves_runSource options.deviceNoise dims hideal s
  rw [← runSources_singleton] at hwhole
  exact hwhole.agreeAt hspelled

/-- The lowering operator at a rate that depends on time, on a qubit and a subsystem with three
levels: the second source of the list does not fit, and the broadcast fails as it does. -/
theorem process_spelledOut_sample :
    let noise : Decoherence := { ofOperators [Operator.destroy 2] with onEachQubit := true }
    let options := (Options.ofSystem (.subsystems [2, 3])).withDeviceNoise true
    broadcast [Operator.destroy 2] = .ok noise ∧
      (process [] [(noise.withTime (some ([0.0, 1.0], [0.5, 0.25]))).toSource] options ()).result =
        .error (.dimensionMismatch (.misplaced [2] [3] [1])) := by
  intro noise options
  have hbroadcast : broadcast [Operator.destroy 2] = .ok noise := rfl
  refine ⟨hbroadcast, ?_⟩
  have hagree := process_spelledOut hbroadcast (some ([0.0, 1.0], [0.5, 0.25])) [] [] [] options ()
  refine hagree.1.trans ?_
  decide +kernel

end PulseNoise
