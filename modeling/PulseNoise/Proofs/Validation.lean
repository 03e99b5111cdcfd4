import PulseNoise.Options
import PulseNoise.Proofs.Separation

/-!
# The check of the relaxation times

The times of a run are looked at twice: by the options before anything runs, and by the relaxation
that they imply when it makes its operators. The two loops are written differently, one over
pairs of times and one over qubits, and they find the same fault.

* `Relaxation.qubitTerms_eq` is what relaxation adds for one qubit.
* `Options.validate_eq` says that the check of the options is the relaxation of the resolved
  system with its terms thrown away.
* `validate_iff_answer` says the same of the answer of the source, its failures included.
-/

namespace PulseNoise

/-! ## Loops that are checks -/

theorem map_mapM_eq_forM {α β : Type} {f : α → Except Error β} {g : α → Except Error Unit}
    {xs : List α} (h : ∀ x ∈ xs, (fun _ => ()) <$> f x = g x) :
    (fun _ => ()) <$> xs.mapM f = forM xs g := by
  induction xs with
  | nil => rfl
  | cons x xs ih =>
    rw [List.mapM_cons, List.forM_cons, ← h x List.mem_cons_self,
      ← ih fun y hy => h y (List.mem_cons_of_mem x hy)]
    cases f x with
    | error e => rfl
    | ok y => cases xs.mapM f <;> rfl

/-- A list of pairs is gone through by its indices. -/
theorem zip_eq_map_range {α β : Type} (a₀ : α) (b₀ : β) {as : List α} {bs : List β} {n : Nat}
    (ha : as.length = n) (hb : bs.length = n) :
    as.zip bs = (List.range n).map fun i => (as.getD i a₀, bs.getD i b₀) := by
  subst ha
  refine List.ext_getElem (by simp [hb]) ?_
  intro i h₁ h₂
  have hi : i < as.length := by simpa using h₂
  simp [List.getElem?_eq_getElem hi, List.getElem?_eq_getElem (hb ▸ hi)]

/-! ## Terms of one qubit -/

namespace Relaxation

/-- The collapse operators of a qubit are dampings and dephasings. -/
theorem forall_mem_collapseOperators {P : Operator → Prop} {d : Nat} {t1 t2 : Option Float}
    {operators : List Operator} (hdamping : ∀ t, P (damping d t))
    (hdephasing : ∀ t, P (dephasing d t)) (h : collapseOperators d t1 t2 = .ok operators) :
    ∀ operator ∈ operators, P operator := by
  have hdamped : ∀ operator ∈ (t1.map (damping d)).toList, P operator := by
    intro operator hmem
    obtain ⟨t, -, rfl⟩ := Option.map_eq_some_iff.1 (Option.mem_toList.1 hmem)
    exact hdamping t
  unfold collapseOperators at h
  cases t2 with
  | none =>
    cases h
    exact hdamped
  | some t2 =>
    obtain ⟨t2Effective, -, he⟩ := bind_eq_ok_iff.1 h
    cases he
    intro operator hmem
    rcases List.mem_append.1 hmem with hmem | hmem
    · exact hdamped operator hmem
    · rw [List.mem_singleton.1 hmem]
      exact hdephasing t2Effective

/-- Every collapse operator of a qubit acts on that qubit's levels alone. -/
theorem dims_of_mem_collapseOperators {d : Nat} {t1 t2 : Option Float} {operators : List Operator}
    (h : collapseOperators d t1 t2 = .ok operators) :
    ∀ operator ∈ operators, operator.dims = [d] :=
  forall_mem_collapseOperators (fun _ => rfl) (fun _ => rfl) h

theorem constant?_of_single {operator : Operator} {d q : Nat} (h : operator.dims = [d]) :
    Term.constant? operator [q] = .ok ⟨operator, [q], none, .constant⟩ := by
  have hsubsystems : operator.subsystems = 1 := by rw [Operator.subsystems, h]; rfl
  refine (Term.make?_eq_ok_iff _ _ _ _ _).2 ⟨rfl, hsubsystems, ?_, ?_⟩
  · intro points hpoints
    cases hpoints
  · intro values hvalues
    cases hvalues

theorem mapM_constant? {operators : List Operator} {d q : Nat}
    (h : ∀ operator ∈ operators, operator.dims = [d]) :
    operators.mapM (Term.constant? · [q]) = .ok (operators.map (⟨·, [q], none, .constant⟩)) := by
  induction operators with
  | nil => rfl
  | cons operator operators ih =>
    rw [List.mapM_cons, constant?_of_single (h operator List.mem_cons_self),
      ih fun o ho => h o (List.mem_cons_of_mem operator ho)]
    rfl

/-- The terms of a qubit are its collapse operators, each on that qubit and constant. -/
theorem qubitTerms_eq {dims : List Nat} {t1s t2s : List (Option Float)} {q d : Nat}
    {t1 t2 : Option Float} (hd : dims[q]? = some d) (h1 : t1s[q]? = some t1)
    (h2 : t2s[q]? = some t2) :
    qubitTerms dims t1s t2s q =
      (·.map (⟨·, [q], none, .constant⟩)) <$> collapseOperators d t1 t2 := by
  unfold qubitTerms
  rw [entry_eq_ok_iff.2 hd, entry_eq_ok_iff.2 h1, entry_eq_ok_iff.2 h2]
  change (collapseOperators d t1 t2 >>= fun operators => operators.mapM (Term.constant? · [q])) = _
  cases hoperators : collapseOperators d t1 t2 with
  | error e => rfl
  | ok operators => exact mapM_constant? (dims_of_mem_collapseOperators hoperators)

/-- Making the operators of a qubit finds the fault that the check of its times finds. -/
theorem map_collapseOperators (d : Nat) (t1 t2 : Option Float) :
    (fun _ => ()) <$> collapseOperators d t1 t2 = Options.checkTimes (t1, t2) := by
  unfold collapseOperators Options.checkTimes
  cases t2 with
  | none => rfl
  | some t2 =>
    change (fun _ => ()) <$> (effectiveT2 t1 t2 >>= _) = effectiveT2 t1 t2 >>= _
    cases effectiveT2 t1 t2 <;> rfl

end Relaxation

/-! ## The two checks -/

namespace RelaxationTime

theorem length_broadcast {time : Option RelaxationTime} {name : String} {n : Nat}
    {ts : List (Option Float)} (h : broadcast time name n = .ok ts) : ts.length = n := by
  match time with
  | none =>
    cases h
    exact List.length_replicate
  | some (.uniform t) =>
    obtain ⟨v, -, he⟩ := bind_eq_ok_iff.1 h
    cases he
    exact List.length_replicate
  | some (.perQubit times) =>
    change (if times.length = n then times.mapM (checkEntry name) else _) = _ at h
    split at h
    · rename_i hlength
      rw [← (mapM_eq_ok_iff.1 h).length_eq, hlength]
    · cases h

end RelaxationTime

theorem find?_le_eq_none_iff {xs : List Nat} {n : Nat} :
    xs.find? (n ≤ ·) = none ↔ ∀ x ∈ xs, x < n := by
  simp [List.find?_eq_none]

theorem checkTargets_eq_ok_iff {targets : List Nat} {n : Nat} :
    checkTargets targets n = .ok () ↔ ∀ q ∈ targets, q < n := by
  rw [← find?_le_eq_none_iff, checkTargets]
  cases targets.find? (n ≤ ·) with
  | none => simp
  | some target => simp

theorem checkTargets_range (n : Nat) : checkTargets (List.range n) n = .ok () :=
  checkTargets_eq_ok_iff.2 fun _ hq => List.mem_range.1 hq

/-- The check of the options fails exactly when the terms of the relaxation of the resolved system
do, and with the same error. -/
theorem Options.validate_eq (options : Options) :
    options.validate = options.system.resolve >>= fun dims =>
      (fun _ => ()) <$> (Relaxation.ofTimes options.t1 options.t2).terms dims := by
  have hloop {dims : List Nat} {t1s t2s : List (Option Float)} (h1 : t1s.length = dims.length)
      (h2 : t2s.length = dims.length) :
      forM (t1s.zip t2s) checkTimes = (fun _ => ()) <$>
        (List.flatten <$> (List.range dims.length).mapM (Relaxation.qubitTerms dims t1s t2s)) := by
    rw [zip_eq_map_range none none h1 h2, List.forM_map, Functor.map_map]
    refine (map_mapM_eq_forM ?_).symm
    intro q hq
    have hlt : q < dims.length := List.mem_range.1 hq
    have hentry {α : Type} {xs : List α} (h : xs.length = dims.length) : ∃ x, xs[q]? = some x :=
      ⟨_, List.getElem?_eq_getElem (h ▸ hlt)⟩
    obtain ⟨d, hd⟩ := hentry (rfl : dims.length = dims.length)
    obtain ⟨t1, ht1⟩ := hentry h1
    obtain ⟨t2, ht2⟩ := hentry h2
    rw [Relaxation.qubitTerms_eq hd ht1 ht2, Functor.map_map, List.getD_eq_getElem?_getD,
      List.getD_eq_getElem?_getD, ht1, ht2]
    exact Relaxation.map_collapseOperators d t1 t2
  unfold validate Relaxation.terms
  cases options.system.resolve with
  | error e => rfl
  | ok dims =>
    change (RelaxationTime.broadcast options.t1 "t1" dims.length >>= _) =
      (fun _ => ()) <$> (RelaxationTime.broadcast options.t1 "t1" dims.length >>= _)
    cases h1 : RelaxationTime.broadcast options.t1 "t1" dims.length with
    | error e => rfl
    | ok t1s =>
      change (RelaxationTime.broadcast options.t2 "t2" dims.length >>= _) =
        (fun _ => ()) <$> (RelaxationTime.broadcast options.t2 "t2" dims.length >>= _)
      cases h2 : RelaxationTime.broadcast options.t2 "t2" dims.length with
      | error e => rfl
      | ok t2s =>
        change forM (t1s.zip t2s) checkTimes =
          (fun _ => ()) <$> (checkTargets (List.range dims.length) dims.length >>= _)
        rw [checkTargets_range]
        exact hloop (RelaxationTime.length_broadcast h1) (RelaxationTime.length_broadcast h2)

/-- The check of the options is what the relaxation of the resolved system answers, with the
answer thrown away. Neither the pulses nor the accumulator have a part in it. -/
theorem Options.validate_eq_answer {σ : Type} (options : Options) (pulses : List Pulse)
    (accumulator : Pulse) (s : σ) :
    options.validate = options.system.resolve >>= fun dims =>
      (fun _ => ()) <$> ((Relaxation.ofTimes options.t1 options.t2).toSource.noisyPulses dims pulses
        accumulator s).result := by
  rw [Options.validate_eq]
  congr 1
  funext dims
  rw [(Relaxation.computes_noisyPulses _ dims pulses accumulator).result_eq s, Functor.map_map]

/-- **The two checks agree.** The options pass exactly when their system resolves and the
relaxation that their times stand for answers on it, whatever the pulses and the accumulator. When
they fail, then with the error of the system or else with the one of that source. -/
theorem validate_iff_answer {σ : Type} (options : Options) (pulses : List Pulse)
    (accumulator : Pulse) (s : σ) :
    (options.validate = .ok () ↔ ∃ dims outcome, options.system.resolve = .ok dims ∧
        ((Relaxation.ofTimes options.t1 options.t2).toSource.noisyPulses dims pulses accumulator
          s).result = .ok outcome) ∧
      ∀ e, options.validate = .error e ↔ options.system.resolve = .error e ∨
        ∃ dims, options.system.resolve = .ok dims ∧
          ((Relaxation.ofTimes options.t1 options.t2).toSource.noisyPulses dims pulses accumulator
            s).result = .error e := by
  rw [options.validate_eq_answer pulses accumulator s]
  cases hdims : options.system.resolve with
  | error e => simp [bind, Except.bind]
  | ok dims =>
    cases hanswer : ((Relaxation.ofTimes options.t1 options.t2).toSource.noisyPulses dims pulses
        accumulator s).result with
    | error e => simp [bind, Except.bind, hanswer, Functor.map, Except.map]
    | ok outcome => simp [bind, Except.bind, hanswer, Functor.map, Except.map]

end PulseNoise
