import PulseNoise.Proofs.Contribution

/-!
# Adding terms to a pulse

Noise is put on a pulse by calls that add one term each. A call first makes the term from its
parts, which is refused when they do not fit together, and only then touches the pulse. After a
refusal the caller may go on with the same pulse: nothing is left of the refused call.

* `Term.Fault` lists the ways in which parts do not fit together, in the order in which they are
  looked for, and `Term.make?_eq_error_iff` says that there are no others.
* `Addition.perform` is one call, in place; `Addition.perform_eq` says that it does what
  `Pulse.addCoherent` and `Pulse.addLindblad` do.
* `Addition.performAll` goes on after refusals, and `Addition.performAll_state` is the pulse that
  it leaves behind.
* `Addition.performAll_accepted` draws the conclusions for all lists of calls.
-/

namespace PulseNoise

/-! ## Parts that do not fit together -/

namespace Term

/-- Why a term cannot be made of its parts. The number of targets is looked at first, then the
points of the grid, and the samples last. -/
inductive Fault (parts : Term) : Error → Prop
  | targets (h : parts.operator.subsystems ≠ parts.targets.length) :
    Fault parts (.targetMismatch parts.operator.subsystems parts.targets.length)
  | gridPoint {before after : List Float} {t : Float}
    (htargets : parts.operator.subsystems = parts.targets.length)
    (hgrid : parts.grid = some (before ++ t :: after))
    (hbefore : ∀ x ∈ before, x.isFinite = true) (h : ¬ t.isFinite = true) :
    Fault parts (.invalidArgument (.gridPoint t))
  | noGrid {values : List Float}
    (htargets : parts.operator.subsystems = parts.targets.length)
    (hgrid : parts.grid = none) (hsamples : parts.coefficient = .samples values) :
    Fault parts (.missingTimeGrid (.samplesWithoutGrid values.length))
  | misaligned {points values : List Float}
    (htargets : parts.operator.subsystems = parts.targets.length)
    (hgrid : parts.grid = some points) (hfinite : ∀ x ∈ points, x.isFinite = true)
    (hsamples : parts.coefficient = .samples values) (h : points.length ≠ values.length) :
    Fault parts (.coefficientLength values.length points.length)

variable {operator : Operator} {targets : List Nat} {grid : Option (List Float)}
  {coefficient : Coefficient} {parts : Term} {e : Error}

theorem checkGrid_eq_error {before after : List Float} {t : Float}
    (hbefore : ∀ x ∈ before, x.isFinite = true) (h : ¬ t.isFinite = true) :
    checkGrid (some (before ++ t :: after)) = .error (.invalidArgument (.gridPoint t)) := by
  have hfind : (before ++ t :: after).find? (!·.isFinite) = some t := by
    rw [List.find?_append, List.find?_eq_none.2 (by simpa using hbefore), Option.none_or,
      List.find?_cons_of_pos (by simpa using h)]
  unfold checkGrid
  rw [Option.getD_some, hfind]

theorem Fault.make?_eq (h : parts.Fault e) :
    make? parts.operator parts.targets parts.grid parts.coefficient = .error e := by
  unfold make?
  cases h with
  | targets h =>
    rw [if_pos h]
    rfl
  | gridPoint htargets hgrid hbefore h =>
    rw [if_neg (not_not_intro htargets), hgrid, checkGrid_eq_error hbefore h]
    rfl
  | noGrid htargets hgrid hsamples =>
    rw [if_neg (not_not_intro htargets), hgrid, hsamples]
    rfl
  | @misaligned points values htargets hgrid hfinite hsamples h =>
    have hsome : checkGrid (some points) = .ok () :=
      (checkGrid_eq_ok_iff _).2 fun _ hpoints => Option.some.inj hpoints ▸ hfinite
    rw [if_neg (not_not_intro htargets), hgrid, hsamples, hsome]
    simp [checkSamples, h, bind, Except.bind]

/-- Parts either make a well-formed term or have a fault. -/
theorem wellFormed_or_fault (parts : Term) : parts.WellFormed ∨ ∃ e, parts.Fault e := by
  by_cases htargets : parts.operator.subsystems = parts.targets.length
  swap
  · exact .inr ⟨_, .targets htargets⟩
  cases hgrid : parts.grid with
  | none =>
    cases hsamples : parts.coefficient with
    | constant => exact .inl ⟨htargets, by simp [hgrid], by simp [hsamples]⟩
    | samples values => exact .inr ⟨_, .noGrid htargets hgrid hsamples⟩
  | some points =>
    rcases forall_or_exists_first (·.isFinite = true) points with
      hfinite | ⟨before, t, after, rfl, hbefore, ht⟩
    swap
    · exact .inr ⟨_, .gridPoint htargets hgrid hbefore ht⟩
    have hall : ∀ points', parts.grid = some points' → ∀ x ∈ points', x.isFinite = true := by
      intro points' hpoints
      obtain rfl := Option.some.inj (hgrid.symm.trans hpoints)
      exact hfinite
    cases hsamples : parts.coefficient with
    | constant => exact .inl ⟨htargets, hall, by simp [hsamples]⟩
    | samples values =>
      by_cases hlength : points.length = values.length
      · refine .inl ⟨htargets, hall, fun values' hvalues => ⟨points, hgrid, ?_⟩⟩
        obtain rfl := Coefficient.samples.inj (hsamples.symm.trans hvalues)
        exact hlength
      · exact .inr ⟨_, .misaligned htargets hgrid hfinite hsamples hlength⟩

/-- The constructor refuses parts for their fault, and for nothing else. -/
theorem make?_eq_error_iff :
    make? operator targets grid coefficient = .error e ↔
      Fault ⟨operator, targets, grid, coefficient⟩ e := by
  refine ⟨fun h => ?_, Fault.make?_eq⟩
  rcases wellFormed_or_fault ⟨operator, targets, grid, coefficient⟩ with hwell | ⟨e', hfault⟩
  · cases h.symm.trans ((make?_eq_ok_iff _ _ _ _ _).2 ⟨rfl, hwell⟩)
  · obtain rfl := Except.error.inj (h.symm.trans hfault.make?_eq)
    exact hfault

/-- Every fault is reported as invalid input, but for samples without a grid. -/
theorem Fault.isInvalidInput_iff (h : parts.Fault e) :
    e.isInvalidInput = true ↔ ∀ n, e ≠ .missingTimeGrid (.samplesWithoutGrid n) := by
  cases h with
  | targets | gridPoint | misaligned => exact iff_of_true rfl nofun
  | noGrid => exact iff_of_false nofun fun h => h _ rfl

end Term

/-! ## One call -/

/-- A step that replaces the state. -/
def Action.update {σ : Type} (f : σ → σ) : Action σ Unit := fun s => ⟨.ok (), f s, []⟩

/-- The noise of a pulse that a term is added to. -/
inductive Channel
  | coherent
  | lindblad
  deriving DecidableEq

namespace Channel

/-- The pulse with one more term. -/
def push (term : Term) : Channel → Pulse → Pulse
  | coherent, pulse => pulse.appendCoherent [term]
  | lindblad, pulse => pulse.appendLindblad [term]

end Channel

/-- A call that adds a term: where to, and the parts of the term, which may not fit together. -/
structure Addition where
  channel : Channel
  parts : Term

namespace Addition

variable {a : Addition} {calls : List Addition} {pulse : Pulse} {e : Error} {t : Term}

/-- The term of a call, if its parts fit together. -/
def term? (a : Addition) : Except Error Term :=
  Term.make? a.parts.operator a.parts.targets a.parts.grid a.parts.coefficient

/-- The pulse with the term of a call. -/
def add (a : Addition) (pulse : Pulse) : Except Error Pulse :=
  match a.channel with
  | .coherent =>
    pulse.addCoherent a.parts.operator a.parts.targets a.parts.grid a.parts.coefficient
  | .lindblad =>
    pulse.addLindblad a.parts.operator a.parts.targets a.parts.grid a.parts.coefficient

/-- The call on a pulse in place: the term is made first, then it is added. -/
def perform (a : Addition) : Action Pulse Unit := do
  let term ← a.term?
  Action.update (a.channel.push term)

/-- The answer of a call, which does not depend on the pulse. -/
def answer (a : Addition) : Except Error Unit := (fun _ => ()) <$> a.term?

def isAccepted (a : Addition) : Bool := a.term?.isOk

/-- The pulse after a call. -/
def after (a : Addition) (pulse : Pulse) : Pulse :=
  if a.isAccepted then a.channel.push a.parts pulse else pulse

theorem term?_eq_ok_iff : a.term? = .ok t ↔ t = a.parts ∧ a.parts.WellFormed := by
  unfold term?
  rw [Term.make?_eq_ok_iff]
  exact and_congr_right fun h => h ▸ Iff.rfl

theorem term?_eq_error_iff : a.term? = .error e ↔ a.parts.Fault e := Term.make?_eq_error_iff

theorem isAccepted_iff : a.isAccepted = true ↔ a.parts.WellFormed := by
  unfold isAccepted
  cases h : a.term? with
  | ok t => exact iff_of_true rfl (term?_eq_ok_iff.1 h).2
  | error e =>
    refine iff_of_false nofun fun hwell => ?_
    cases h.symm.trans (term?_eq_ok_iff.2 ⟨rfl, hwell⟩)

theorem perform_of_ok (h : a.term? = .ok t) (pulse : Pulse) :
    a.perform.Leaves pulse (.ok ()) (a.channel.push t pulse) := by
  unfold perform
  rw [h]
  exact ⟨rfl, rfl⟩

/-- A refused call leaves the pulse as it was. -/
theorem perform_of_error (h : a.term? = .error e) (pulse : Pulse) :
    a.perform.Leaves pulse (.error e) pulse := by
  unfold perform
  rw [h]
  exact ⟨rfl, rfl⟩

theorem add_eq (a : Addition) (pulse : Pulse) :
    a.add pulse = (a.channel.push · pulse) <$> a.term? := by
  unfold add
  cases a.channel with
  | coherent =>
    refine (pulse.addCoherent_eq _ _ _ _).trans ?_
    change Pulse.appendCoherent pulse <$> (([·]) <$> a.term?) = _
    cases a.term? <;> rfl
  | lindblad =>
    refine (pulse.addLindblad_eq _ _ _ _).trans ?_
    change Pulse.appendLindblad pulse <$> (([·]) <$> a.term?) = _
    cases a.term? <;> rfl

/-- In place, a call leaves the new pulse, or the old one when it is refused. -/
theorem perform_eq (a : Addition) (pulse : Pulse) :
    (∀ pulse', a.add pulse = .ok pulse' → a.perform.Leaves pulse (.ok ()) pulse') ∧
      ∀ e, a.add pulse = .error e → a.perform.Leaves pulse (.error e) pulse := by
  rw [add_eq]
  constructor
  · intro pulse' h
    obtain ⟨t, ht, rfl⟩ := map_eq_ok_iff.1 h
    exact perform_of_ok ht pulse
  · intro e h
    exact perform_of_error (map_eq_error_iff.1 h) pulse

/-! ## Calls one after another -/

/-- The answers of calls on one pulse, and the pulse after them. A refusal does not end the run. -/
def performAll (calls : List Addition) : Pulse → List (Except Error Unit) × Pulse :=
  Action.inTurn (calls.map perform)

/-- The terms that accepted calls add, by the noise that they are added to. -/
def contribution (calls : List Addition) : Contribution where
  coherent := ((calls.filter (·.isAccepted)).filter (·.channel = .coherent)).map (·.parts)
  lindblad := ((calls.filter (·.isAccepted)).filter (·.channel = .lindblad)).map (·.parts)

theorem perform_leaves (a : Addition) (pulse : Pulse) :
    a.perform.Leaves pulse a.answer (a.after pulse) := by
  unfold answer after isAccepted
  cases h : a.term? with
  | ok t =>
    obtain ⟨rfl, -⟩ := term?_eq_ok_iff.1 h
    exact perform_of_ok h pulse
  | error e => exact perform_of_error h pulse

theorem performAll_cons (a : Addition) (calls : List Addition) (pulse : Pulse) :
    performAll (a :: calls) pulse =
      (a.answer :: (performAll calls (a.after pulse)).1, (performAll calls (a.after pulse)).2) :=
  Action.inTurn_cons (a.perform_leaves pulse) _

theorem performAll_answers (calls : List Addition) (pulse : Pulse) :
    (performAll calls pulse).1 = calls.map answer := by
  induction calls generalizing pulse with
  | nil => rfl
  | cons a calls ih =>
    rw [performAll_cons, ih]
    rfl

theorem performAll_append (xs ys : List Addition) (pulse : Pulse) :
    (performAll (xs ++ ys) pulse).2 = (performAll ys (performAll xs pulse).2).2 := by
  unfold performAll
  rw [List.map_append, Action.inTurn_append]

/-- By induction on the calls: each step extends the pulse by its own term or not at all. -/
theorem performAll_state (calls : List Addition) (pulse : Pulse) :
    (performAll calls pulse).2 = pulse.extend (contribution calls) := by
  induction calls generalizing pulse with
  | nil => exact pulse.extend_none.symm
  | cons a calls ih =>
    rw [performAll_cons, ih]
    unfold after contribution
    cases h : a.isAccepted with
    | false => simp [h]
    | true =>
      cases hchannel : a.channel with
      | coherent =>
        simp [h, hchannel, Channel.push, Pulse.extend, Pulse.appendCoherent, Pulse.appendLindblad]
      | lindblad =>
        simp [h, hchannel, Channel.push, Pulse.extend, Pulse.appendCoherent, Pulse.appendLindblad]

theorem contribution_filter (calls : List Addition) :
    contribution (calls.filter (·.isAccepted)) = contribution calls := by
  simp [contribution]

/-- A refused call among others leaves the pulse as the calls before it left it. -/
theorem performAll_take_succ {i : Nat} (h : (performAll calls pulse).1[i]? = some (.error e)) :
    (performAll (calls.take (i + 1)) pulse).2 = (performAll (calls.take i) pulse).2 := by
  rw [performAll_answers, List.getElem?_map, Option.map_eq_some_iff] at h
  obtain ⟨a, ha, hanswer⟩ := h
  rw [List.take_add_one, ha, Option.toList_some, performAll_append]
  exact (perform_of_error (map_eq_error_iff.1 hanswer) _).2

theorem answer_of_isAccepted (h : a.isAccepted = true) : a.answer = .ok () := by
  have hterm := term?_eq_ok_iff.2 ⟨rfl, isAccepted_iff.1 h⟩
  rw [answer, hterm]
  rfl

/-- **Refused terms leave no trace.** Make any calls on a pulse, one after another, some of which
are refused. Each call does what adding a coherent or a Lindblad term does. A refused one leaves the
pulse as it was, so that the pulse after all calls is that after the accepted ones alone, all of
which are accepted then too; their terms stand at its end in the order of the calls. A call and the
constructor of pulses are refused for a fault of the parts only, and this is reported as invalid
input, unless samples come without a grid. -/
theorem performAll_accepted (calls : List Addition) (pulse : Pulse) :
    (∀ (a : Addition) (before : Pulse),
      (∀ after, a.add before = .ok after → a.perform.Leaves before (.ok ()) after) ∧
      ∀ e, a.add before = .error e → a.perform.Leaves before (.error e) before) ∧
    (∀ i e, (performAll calls pulse).1[i]? = some (.error e) →
      (performAll (calls.take (i + 1)) pulse).2 = (performAll (calls.take i) pulse).2) ∧
    (performAll calls pulse).2 = (performAll (calls.filter (·.isAccepted)) pulse).2 ∧
    (∀ r ∈ (performAll (calls.filter (·.isAccepted)) pulse).1, r = .ok ()) ∧
    (performAll calls pulse).2 = pulse.extend (contribution calls) ∧
    (∀ e, .error e ∈ (performAll calls pulse).1 → (∃ a ∈ calls, a.parts.Fault e) ∧
      (e.isInvalidInput = true ↔ ∀ n, e ≠ .missingTimeGrid (.samplesWithoutGrid n))) ∧
    ∀ label operator targets grid coefficient e,
      Pulse.make? label operator targets grid coefficient = .error e →
        Term.Fault ⟨operator, targets, grid, coefficient⟩ e ∧
        (e.isInvalidInput = true ↔ ∀ n, e ≠ .missingTimeGrid (.samplesWithoutGrid n)) := by
  refine ⟨perform_eq, fun i e => performAll_take_succ, ?_, ?_, performAll_state calls pulse, ?_, ?_⟩
  · rw [performAll_state, performAll_state, contribution_filter]
  · intro r hr
    rw [performAll_answers] at hr
    obtain ⟨a, ha, rfl⟩ := List.mem_map.1 hr
    exact answer_of_isAccepted (List.mem_filter.1 ha).2
  · intro e he
    rw [performAll_answers] at he
    obtain ⟨a, ha, hanswer⟩ := List.mem_map.1 he
    have hfault := term?_eq_error_iff.1 (map_eq_error_iff.1 hanswer)
    exact ⟨⟨a, ha, hfault⟩, hfault.isInvalidInput_iff⟩
  · intro label operator targets grid coefficient e h
    have hfault : Term.Fault ⟨operator, targets, grid, coefficient⟩ e :=
      Term.make?_eq_error_iff.1 (map_eq_error_iff.1 h)
    exact ⟨hfault, hfault.isInvalidInput_iff⟩

/-- Samples without a grid are refused, but not as invalid input. -/
theorem samples_without_grid :
    ∃ e, Pulse.make? "p" .sigmax [0] none (.samples [1.0]) = .error e ∧
      e.isInvalidInput = false := ⟨_, rfl, rfl⟩

end Addition

end PulseNoise
