import PulseNoise.Proofs.Placement

/-!
# The collapse operators of relaxation

Relaxation gets its times in three shapes and its targets in any order, with repetitions. It looks
at all times before it looks at a target, and at all targets before it compares the two times of
any qubit. What it adds is then added qubit by qubit: damping where there is a T1, dephasing where
there is a T2.

* `RelaxationTime.Fault` says what is wrong with a time, `RelaxationTime.ofQubit` is the time of one
  qubit. `RelaxationTime.broadcast` finds the one or gives the other.
* `Relaxation.Collapses` are the terms of a qubit.
* `Relaxation.Answers` lists the answers of relaxation, in the order of precedence, and
  `Relaxation.noisyPulses_eq_iff_answers` says that they are what the source answers.
-/

namespace PulseNoise

/-! ## Times -/

namespace RelaxationTime

/-- The time of one qubit. -/
def ofQubit (time : Option RelaxationTime) (q : Nat) : Option Float :=
  match time with
  | none => none
  | some (uniform t) => some t
  | some (perQubit times) => times.getD q none

/-- What is wrong with a time on so many qubits. An entry that is no positive number, which a NaN is
not either, is a fault at every qubit, be it a target or not. -/
inductive Fault (name : String) (qubits : Nat) : Option RelaxationTime → Error → Prop
  | uniform {t : Float} (h : ¬ 0.0 < t) :
      Fault name qubits (some (.uniform t)) (.invalidRelaxationTime name t)
  | length {times : List (Option Float)} (h : times.length ≠ qubits) :
      Fault name qubits (some (.perQubit times)) (.relaxationLength name times.length qubits)
  /-- The first entry that is no positive number is reported. -/
  | entry {times : List (Option Float)} {t : Float} (hlength : times.length = qubits)
      (h : times.find? (·.any fun t => ¬ 0.0 < t) = some (some t)) :
      Fault name qubits (some (.perQubit times)) (.invalidRelaxationTime name t)

/-- Nothing is wrong with a time on so many qubits. -/
def Sound (name : String) (qubits : Nat) (time : Option RelaxationTime) : Prop :=
  ¬ ∃ e, Fault name qubits time e

variable {time : Option RelaxationTime} {name : String} {qubits : Nat} {e : Error}

theorem checkEntry_of_any {x : Option Float} (h : (x.any fun t => ¬ 0.0 < t) = false) :
    checkEntry name x = .ok x := by
  cases x with
  | none => rfl
  | some t =>
    have ht : 0.0 < t := by simpa using h
    simp only [checkEntry, check, if_pos ht]
    rfl

theorem Fault.broadcast_eq (h : Fault name qubits time e) :
    broadcast time name qubits = .error e := by
  cases h with
  | uniform h => simp only [broadcast, check, if_neg h, bind, Except.bind]
  | length h => simp only [broadcast, if_neg h]
  | @entry times t hlength h =>
    have ht : ¬ 0.0 < t := by simpa using List.find?_some h
    simp only [broadcast, if_pos hlength]
    refine mapM_eq_error_of_find? h (fun x _ hx => ⟨x, checkEntry_of_any hx⟩) ?_
    simp only [checkEntry, check, if_neg ht]
    rfl

/-- Without a fault every qubit gets its time. -/
theorem broadcast_eq_ok (h : Sound name qubits time) :
    broadcast time name qubits = .ok ((List.range qubits).map (ofQubit time)) := by
  have hreplicate (x : Option Float) :
      List.replicate qubits x = (List.range qubits).map fun _ => x := by
    rw [List.map_const', List.length_range]
  match time with
  | none => exact congrArg Except.ok (hreplicate none)
  | some (.uniform t) =>
    have ht : 0.0 < t := by
      by_contra ht
      exact h ⟨_, .uniform ht⟩
    simp only [broadcast, check, if_pos ht]
    exact congrArg Except.ok (hreplicate (some t))
  | some (.perQubit times) =>
    have hlength : times.length = qubits := by
      by_contra hlength
      exact h ⟨_, .length hlength⟩
    have hentries : ∀ x ∈ times, (x.any fun t => ¬ 0.0 < t) = false := by
      intro x hx
      cases hfind : times.find? (·.any fun t => ¬ 0.0 < t) with
      | none => simpa using List.find?_eq_none.1 hfind x hx
      | some y =>
        have hy := List.find?_some hfind
        cases y with
        | none => cases hy
        | some t => exact absurd ⟨_, .entry hlength hfind⟩ h
    have hmap : times.mapM (checkEntry name) = .ok times := by
      rw [mapM_eq_ok_iff, List.forall₂_same]
      exact fun x hx => checkEntry_of_any (hentries x hx)
    have htimes : times = (List.range qubits).map (ofQubit (some (.perQubit times))) := by
      refine List.ext_getElem (by simp [hlength]) fun i hi _ => ?_
      simp [ofQubit, List.getElem?_eq_getElem hi]
    simp only [broadcast, if_pos hlength, hmap]
    exact congrArg Except.ok htimes

end RelaxationTime

/-! ## Qubits -/

namespace Relaxation

open RelaxationTime

variable {noise : Relaxation} {dims : List Nat} {q : Nat}

/-- A constant term on one qubit. -/
def onQubit (operator : Operator) (q : Nat) : Term := ⟨operator, [q], none, .constant⟩

/-- The targets on a system of so many qubits; all of them when none are given. -/
def targetsOf (noise : Relaxation) (qubits : Nat) : List Nat :=
  noise.targets.getD (List.range qubits)

/-- The terms of a qubit with `d` levels: damping where it has a T1, then dephasing where it has a
T2. -/
inductive Collapses (noise : Relaxation) (d q : Nat) : List Term → Prop
  | none (h1 : ofQubit noise.t1 q = none) (h2 : ofQubit noise.t2 q = none) :
      Collapses noise d q []
  | damping {t1 : Float} (h1 : ofQubit noise.t1 q = some t1) (h2 : ofQubit noise.t2 q = none) :
      Collapses noise d q [onQubit ((Operator.destroy d).scale (1.0 / t1.sqrt)) q]
  | dephasing {t2 t2Effective : Float} (h1 : ofQubit noise.t1 q = none)
      (h2 : ofQubit noise.t2 q = some t2) (h : effectiveT2 none t2 = .ok t2Effective) :
      Collapses noise d q
        [onQubit ((Operator.num d).scale (2.0 / (2.0 * t2Effective).sqrt)) q]
  | both {t1 t2 t2Effective : Float} (h1 : ofQubit noise.t1 q = some t1)
      (h2 : ofQubit noise.t2 q = some t2) (h : effectiveT2 (some t1) t2 = .ok t2Effective) :
      Collapses noise d q [onQubit ((Operator.destroy d).scale (1.0 / t1.sqrt)) q,
        onQubit ((Operator.num d).scale (2.0 / (2.0 * t2Effective).sqrt)) q]

/-- The two times of a qubit contradict each other: T2 is longer than twice T1. -/
def contradicts (noise : Relaxation) (q : Nat) : Bool :=
  match ofQubit noise.t1 q, ofQubit noise.t2 q with
  | some t1, some t2 => 2.0 * t1 < t2
  | _, _ => false

theorem contradicts_iff : noise.contradicts q = true ↔ ∃ t1 t2, ofQubit noise.t1 q = some t1 ∧
    ofQubit noise.t2 q = some t2 ∧ 2.0 * t1 < t2 := by
  unfold contradicts
  cases ofQubit noise.t1 q <;> cases ofQubit noise.t2 q <;> simp

/-- A qubit without a contradiction has its terms. -/
theorem exists_collapses (d : Nat) (h : noise.contradicts q = false) :
    ∃ ts, noise.Collapses d q ts := by
  cases h1 : ofQubit noise.t1 q with
  | none =>
    cases h2 : ofQubit noise.t2 q with
    | none => exact ⟨_, .none h1 h2⟩
    | some t2 => exact ⟨_, .dephasing h1 h2 rfl⟩
  | some t1 =>
    cases h2 : ofQubit noise.t2 q with
    | none => exact ⟨_, .damping h1 h2⟩
    | some t2 =>
      have hle : ¬ 2.0 * t1 < t2 := by
        intro hlt
        rw [contradicts_iff.2 ⟨t1, t2, h1, h2, hlt⟩] at h
        cases h
      exact ⟨_, .both h1 h2 (if_neg hle)⟩

/-- The terms that are computed for a qubit from the times of all qubits. -/
theorem qubitTerms_eq_collapseOperators (hq : q < dims.length) :
    qubitTerms dims ((List.range dims.length).map (ofQubit noise.t1))
        ((List.range dims.length).map (ofQubit noise.t2)) q =
      (·.map (onQubit · q)) <$>
        collapseOperators (dims.getD q 0) (ofQubit noise.t1 q) (ofQubit noise.t2 q) := by
  have htime (time : Option RelaxationTime) :
      ((List.range dims.length).map (ofQubit time))[q]? = some (ofQubit time q) := by
    rw [List.getElem?_map, List.getElem?_range hq]
    rfl
  have hd := entry_eq_ok_iff.1 (entry_eq_ok_of_lt hq)
  exact qubitTerms_eq hd (htime noise.t1) (htime noise.t2)

theorem qubitTerms_of_collapses (hq : q < dims.length) {ts : List Term}
    (h : noise.Collapses (dims.getD q 0) q ts) :
    qubitTerms dims ((List.range dims.length).map (ofQubit noise.t1))
      ((List.range dims.length).map (ofQubit noise.t2)) q = .ok ts := by
  rw [qubitTerms_eq_collapseOperators hq]
  cases h with
  | none h1 h2 | damping h1 h2 =>
    rw [h1, h2]
    rfl
  | dephasing h1 h2 h | both h1 h2 h =>
    rw [h1, h2]
    simp only [collapseOperators, h]
    rfl

theorem qubitTerms_of_contradiction (hq : q < dims.length) {t1 t2 : Float}
    (h1 : ofQubit noise.t1 q = some t1) (h2 : ofQubit noise.t2 q = some t2)
    (h : 2.0 * t1 < t2) :
    qubitTerms dims ((List.range dims.length).map (ofQubit noise.t1))
      ((List.range dims.length).map (ofQubit noise.t2)) q = .error (.invalidT2 t1 t2) := by
  rw [qubitTerms_eq_collapseOperators hq, h1, h2]
  simp only [collapseOperators, effectiveT2, if_pos h]
  rfl

/-! ## Answers -/

/-- The answers of relaxation. Each fault is reported only when there is none of those before it. -/
inductive Answers (noise : Relaxation) (dims : List Nat) (pulses : List Pulse) (acc : Pulse) :
    Except Error Outcome → Prop
  | t1 {e : Error} (h : Fault "t1" dims.length noise.t1 e) :
      Answers noise dims pulses acc (.error e)
  | t2 {e : Error} (ht1 : Sound "t1" dims.length noise.t1)
      (h : Fault "t2" dims.length noise.t2 e) : Answers noise dims pulses acc (.error e)
  /-- The first target that is no qubit is reported. -/
  | target {q : Nat} (ht1 : Sound "t1" dims.length noise.t1)
      (ht2 : Sound "t2" dims.length noise.t2)
      (h : (noise.targetsOf dims.length).find? (dims.length ≤ ·) = some q) :
      Answers noise dims pulses acc (.error (.qubitOutOfRange q dims.length))
  /-- The times of the first target with a contradiction are reported. -/
  | contradiction {q : Nat} {t1 t2 : Float} (ht1 : Sound "t1" dims.length noise.t1)
      (ht2 : Sound "t2" dims.length noise.t2)
      (htargets : ∀ p ∈ noise.targetsOf dims.length, p < dims.length)
      (h : (noise.targetsOf dims.length).find? noise.contradicts = some q)
      (h1 : ofQubit noise.t1 q = some t1) (h2 : ofQubit noise.t2 q = some t2) :
      Answers noise dims pulses acc (.error (.invalidT2 t1 t2))
  /-- The terms of all targets, in their order, behind the Lindblad terms that there are. -/
  | relaxed {tss : List (List Term)} (ht1 : Sound "t1" dims.length noise.t1)
      (ht2 : Sound "t2" dims.length noise.t2)
      (htargets : ∀ p ∈ noise.targetsOf dims.length, p < dims.length)
      (h : List.Forall₂ (fun q ts => noise.Collapses (dims.getD q 0) q ts)
        (noise.targetsOf dims.length) tss) :
      Answers noise dims pulses acc
        (.ok (.pulsesAndAccumulator pulses (acc.appendLindblad tss.flatten)))

/-- The terms, when no time has a fault. -/
theorem terms_of_sound (ht1 : Sound "t1" dims.length noise.t1)
    (ht2 : Sound "t2" dims.length noise.t2) :
    noise.terms dims = checkTargets (noise.targetsOf dims.length) dims.length >>= fun _ =>
      List.flatten <$> (noise.targetsOf dims.length).mapM
        (qubitTerms dims ((List.range dims.length).map (ofQubit noise.t1))
          ((List.range dims.length).map (ofQubit noise.t2))) := by
  unfold terms
  rw [broadcast_eq_ok ht1, broadcast_eq_ok ht2]
  rfl

theorem Answers.result_eq {σ : Type} {pulses : List Pulse} {acc : Pulse}
    {r : Except Error Outcome} (h : noise.Answers dims pulses acc r) (s : σ) :
    (noise.toSource.noisyPulses dims pulses acc s).result = r := by
  rw [(noise.computes_noisyPulses dims pulses acc).result_eq s]
  cases h with
  | t1 h =>
    unfold terms
    rw [h.broadcast_eq]
    rfl
  | t2 ht1 h =>
    unfold terms
    rw [broadcast_eq_ok ht1, h.broadcast_eq]
    rfl
  | target ht1 ht2 h =>
    rw [terms_of_sound ht1 ht2, checkTargets, h]
    rfl
  | @contradiction q t1 t2 ht1 ht2 htargets h h1 h2 =>
    have hq := htargets q (List.mem_of_find?_eq_some h)
    have hlt : 2.0 * t1 < t2 := by
      obtain ⟨u1, u2, hu1, hu2, hlt⟩ := contradicts_iff.1 (List.find?_some h)
      obtain rfl := Option.some.inj (h1.symm.trans hu1)
      obtain rfl := Option.some.inj (h2.symm.trans hu2)
      exact hlt
    have hloop := mapM_eq_error_of_find? h (fun p hp hsound => by
      obtain ⟨ts, hts⟩ := exists_collapses (dims.getD p 0) hsound
      exact ⟨ts, qubitTerms_of_collapses (htargets p hp) hts⟩)
      (qubitTerms_of_contradiction hq h1 h2 hlt)
    rw [terms_of_sound ht1 ht2, checkTargets_eq_ok_iff.2 htargets, hloop]
    rfl
  | @relaxed tss ht1 ht2 htargets h =>
    have hloop : (noise.targetsOf dims.length).mapM
        (qubitTerms dims ((List.range dims.length).map (ofQubit noise.t1))
          ((List.range dims.length).map (ofQubit noise.t2))) = .ok tss := by
      rw [mapM_eq_ok_iff]
      exact ((List.forall₂_and_left _ _).2 ⟨htargets, h⟩).imp
        fun _ _ hcollapses => qubitTerms_of_collapses hcollapses.1 hcollapses.2
    rw [terms_of_sound ht1 ht2, checkTargets_eq_ok_iff.2 htargets, hloop]
    rfl

/-- There is an answer in every case. -/
theorem exists_answers (noise : Relaxation) (dims : List Nat) (pulses : List Pulse) (acc : Pulse) :
    ∃ r, noise.Answers dims pulses acc r := by
  by_cases ht1 : ∃ e, Fault "t1" dims.length noise.t1 e
  · obtain ⟨e, h⟩ := ht1
    exact ⟨_, .t1 h⟩
  by_cases ht2 : ∃ e, Fault "t2" dims.length noise.t2 e
  · obtain ⟨e, h⟩ := ht2
    exact ⟨_, .t2 ht1 h⟩
  cases htargets : (noise.targetsOf dims.length).find? (dims.length ≤ ·) with
  | some q => exact ⟨_, .target ht1 ht2 htargets⟩
  | none =>
    rw [find?_le_eq_none_iff] at htargets
    cases hfind : (noise.targetsOf dims.length).find? noise.contradicts with
    | some q =>
      obtain ⟨t1, t2, h1, h2, -⟩ := contradicts_iff.1 (List.find?_some hfind)
      exact ⟨_, .contradiction ht1 ht2 htargets hfind h1 h2⟩
    | none =>
      have hcollapses : ∀ q, ∃ ts, q ∈ noise.targetsOf dims.length →
          noise.Collapses (dims.getD q 0) q ts := by
        intro q
        by_cases hq : q ∈ noise.targetsOf dims.length
        · have hsound := List.find?_eq_none.1 hfind q hq
          obtain ⟨ts, hts⟩ := exists_collapses (dims.getD q 0) (Bool.not_eq_true _ ▸ hsound)
          exact ⟨ts, fun _ => hts⟩
        · exact ⟨[], fun hmem => absurd hmem hq⟩
      choose ts hts using hcollapses
      have hall : List.Forall₂ (fun q ts => noise.Collapses (dims.getD q 0) q ts)
          (noise.targetsOf dims.length) ((noise.targetsOf dims.length).map ts) := by
        rw [List.forall₂_map_right_iff, List.forall₂_same]
        exact hts
      exact ⟨_, .relaxed ht1 ht2 htargets hall⟩

/-- **Relaxation adds the collapse operators of its targets, or reports the first fault.** The
answers that are listed are those of the source, for all dimensions, times, targets, pulses and
accumulators. -/
theorem noisyPulses_eq_iff_answers {σ : Type} (noise : Relaxation) (dims : List Nat)
    (pulses : List Pulse) (acc : Pulse) (s : σ) (r : Except Error Outcome) :
    (noise.toSource.noisyPulses dims pulses acc s).result = r ↔
      noise.Answers dims pulses acc r := by
  constructor
  · rintro rfl
    obtain ⟨r, hr⟩ := noise.exists_answers dims pulses acc
    rw [hr.result_eq s]
    exact hr
  · exact fun h => h.result_eq s

end Relaxation

end PulseNoise
