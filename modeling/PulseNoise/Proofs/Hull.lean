import PulseNoise.Pulse.TimeAxis
import PulseNoise.Proofs.Value
import PulseNoise.Proofs.Yield
import Mathlib.Data.List.Forall2

/-!
# The hull of the ideal grids

The time span of several pulses is found in two folds: one through the grid of each pulse, which
starts from two infinities, and one through the spans, which starts from the first of them. Both
keep one invariant, that the bounds are themselves moments that have been seen and that the others
lie between them.

* `Pulse.moments` are the points of the ideal grid, `IsHull` says that two bounds are tight.
* `IsHull.append` is the step of both folds, `sharedSpan_cases` what comes out of them.
* `sharedSpan_hull` says that the shared span is tight, and that it depends on nothing but the
  moments, in any order.
-/

namespace PulseNoise

open Number

/-- Two points of a grid that all of its points lie between. The points are finite, so that they
are in order. -/
structure IsHull (points : List Float) (span : Float × Float) : Prop where
  finite : ∀ t ∈ points, t.isFinite = true
  lo_mem : span.1 ∈ points
  hi_mem : span.2 ∈ points
  bounds : ∀ t ∈ points, span.1 ≤ t ∧ t ≤ span.2

/-! ## The lesser and the greater of two finite doubles -/

section Finite

variable {a b : Float}

theorem isNaN_eq_false (h : a.isFinite = true) : a.isNaN = false := by
  change a.toModel.unpack.isFinite = true at h
  change a.toModel.unpack.isNaN = false
  cases hunpack : a.toModel.unpack with
  | notANumber =>
    rw [hunpack] at h
    cases h
  | zero s | finite s m e hm | infinity s => rfl

theorem lesser_eq (ha : a.isFinite = true) : lesser a b = if b < a then b else a := by
  unfold lesser
  rw [isNaN_eq_false ha]
  rfl

theorem greater_eq (ha : a.isFinite = true) : greater a b = if a < b then b else a := by
  unfold greater
  rw [isNaN_eq_false ha]
  rfl

theorem lesser_cases (ha : a.isFinite = true) (hb : b.isFinite = true) :
    (lesser a b = a ∧ value a ≤ value b) ∨ (lesser a b = b ∧ value b ≤ value a) := by
  rw [lesser_eq ha]
  split
  · rename_i hlt
    exact .inr ⟨rfl, ((lt_iff_value_lt hb ha).1 hlt).le⟩
  · rename_i hge
    exact .inl ⟨rfl, not_lt.1 fun hlt => hge ((lt_iff_value_lt hb ha).2 hlt)⟩

theorem greater_cases (ha : a.isFinite = true) (hb : b.isFinite = true) :
    (greater a b = a ∧ value b ≤ value a) ∨ (greater a b = b ∧ value a ≤ value b) := by
  rw [greater_eq ha]
  split
  · rename_i hlt
    exact .inr ⟨rfl, ((lt_iff_value_lt ha hb).1 hlt).le⟩
  · rename_i hge
    exact .inl ⟨rfl, not_lt.1 fun hlt => hge ((lt_iff_value_lt ha hb).2 hlt)⟩

end Finite

/-! ## The two folds -/

namespace IsHull

variable {xs ys : List Float} {a b : Float × Float}

theorem isFinite_lo (h : IsHull xs a) : a.1.isFinite = true := h.finite _ h.lo_mem

theorem isFinite_hi (h : IsHull xs a) : a.2.isFinite = true := h.finite _ h.hi_mem

theorem ne_nil (h : IsHull xs a) : xs ≠ [] := List.ne_nil_of_mem h.lo_mem

theorem singleton {t : Float} (h : t.isFinite = true) : IsHull [t] (t, t) where
  finite := List.forall_mem_singleton.2 h
  lo_mem := List.mem_singleton_self t
  hi_mem := List.mem_singleton_self t
  bounds := by
    have hle : t ≤ t := (le_iff_value_le h h).2 le_rfl
    exact List.forall_mem_singleton.2 ⟨hle, hle⟩

/-- The bounds in terms of the numbers that the points stand for. -/
theorem value_le (h : IsHull xs a) {t : Float} (ht : t ∈ xs) :
    value a.1 ≤ value t ∧ value t ≤ value a.2 := by
  obtain ⟨hlo, hhi⟩ := h.bounds t ht
  exact ⟨(le_iff_value_le h.isFinite_lo (h.finite t ht)).1 hlo,
    (le_iff_value_le (h.finite t ht) h.isFinite_hi).1 hhi⟩

/-- A step of the folds: the hull of two grids together. -/
theorem append (ha : IsHull xs a) (hb : IsHull ys b) : IsHull (xs ++ ys) (joinSpans a b) := by
  have hfinite : ∀ t ∈ xs ++ ys, t.isFinite = true :=
    List.forall_mem_append.2 ⟨ha.finite, hb.finite⟩
  have hlo : (joinSpans a b).1 ∈ xs ++ ys ∧
      value (joinSpans a b).1 ≤ value a.1 ∧ value (joinSpans a b).1 ≤ value b.1 := by
    rcases lesser_cases ha.isFinite_lo hb.isFinite_lo with ⟨heq, hle⟩ | ⟨heq, hle⟩
    · rw [show (joinSpans a b).1 = a.1 from heq]
      exact ⟨List.mem_append_left ys ha.lo_mem, le_rfl, hle⟩
    · rw [show (joinSpans a b).1 = b.1 from heq]
      exact ⟨List.mem_append_right xs hb.lo_mem, hle, le_rfl⟩
  have hhi : (joinSpans a b).2 ∈ xs ++ ys ∧
      value a.2 ≤ value (joinSpans a b).2 ∧ value b.2 ≤ value (joinSpans a b).2 := by
    rcases greater_cases ha.isFinite_hi hb.isFinite_hi with ⟨heq, hle⟩ | ⟨heq, hle⟩
    · rw [show (joinSpans a b).2 = a.2 from heq]
      exact ⟨List.mem_append_left ys ha.hi_mem, le_rfl, hle⟩
    · rw [show (joinSpans a b).2 = b.2 from heq]
      exact ⟨List.mem_append_right xs hb.hi_mem, hle, le_rfl⟩
  obtain ⟨hloMem, hloA, hloB⟩ := hlo
  obtain ⟨hhiMem, hhiA, hhiB⟩ := hhi
  refine ⟨hfinite, hloMem, hhiMem, ?_⟩
  intro t ht
  have hvalue : value (joinSpans a b).1 ≤ value t ∧ value t ≤ value (joinSpans a b).2 := by
    rcases List.mem_append.1 ht with ht | ht
    · exact ⟨hloA.trans (ha.value_le ht).1, (ha.value_le ht).2.trans hhiA⟩
    · exact ⟨hloB.trans (hb.value_le ht).1, (hb.value_le ht).2.trans hhiB⟩
  exact ⟨(le_iff_value_le (hfinite _ hloMem) (hfinite t ht)).2 hvalue.1,
    (le_iff_value_le (hfinite t ht) (hfinite _ hhiMem)).2 hvalue.2⟩

/-- Hulls of the same points are equal as numbers. -/
theorem beq (ha : IsHull xs a) (hb : IsHull ys b) (hperm : xs.Perm ys) :
    (a.1 == b.1) = true ∧ (a.2 == b.2) = true := by
  have hlo := (ha.value_le (hperm.mem_iff.2 hb.lo_mem)).1
  have hlo' := (hb.value_le (hperm.mem_iff.1 ha.lo_mem)).1
  have hhi := (ha.value_le (hperm.mem_iff.2 hb.hi_mem)).2
  have hhi' := (hb.value_le (hperm.mem_iff.1 ha.hi_mem)).2
  exact ⟨(beq_iff_value_eq ha.isFinite_lo hb.isFinite_lo).2 (le_antisymm hlo hlo'),
    (beq_iff_value_eq ha.isFinite_hi hb.isFinite_hi).2 (le_antisymm hhi' hhi)⟩

end IsHull

/-- Going through a grid is joining its points to the span so far. -/
theorem isHull_foldl_points {xs points : List Float} {a : Float × Float} (h : IsHull xs a)
    (hfinite : ∀ t ∈ points, t.isFinite = true) :
    IsHull (xs ++ points) (points.foldl (fun span t => joinSpans span (t, t)) a) := by
  induction points generalizing xs a with
  | nil =>
    rw [List.append_nil]
    exact h
  | cons t rest ih =>
    obtain ⟨ht, hrest⟩ := List.forall_mem_cons.1 hfinite
    rw [List.foldl_cons, List.append_cons]
    exact ih (h.append (.singleton ht)) hrest

theorem unpack_infinity : (1.0 / 0.0 : Float).toModel.unpack = .infinity .positive := by rfl

theorem unpack_neg_infinity : (-1.0 / 0.0 : Float).toModel.unpack = .infinity .negative := by rfl

/-- The first point of a grid takes the place of the two infinities. -/
theorem joinSpans_infinite {t : Float} (h : t.isFinite = true) :
    joinSpans (1.0 / 0.0, -1.0 / 0.0) (t, t) = (t, t) := by
  obtain ⟨hbelow, habove⟩ := compare_infinity h
  have hlo : t < 1.0 / 0.0 := by
    rw [lt_iff_compare, unpack_infinity]
    exact hbelow
  have hhi : -1.0 / 0.0 < t := by
    rw [lt_iff_compare, unpack_neg_infinity]
    exact habove
  change (if t < 1.0 / 0.0 then t else _, if -1.0 / 0.0 < t then t else _) = _
  rw [if_pos hlo, if_pos hhi]

theorem isHull_hull {points : List Float} (hne : points ≠ [])
    (hfinite : ∀ t ∈ points, t.isFinite = true) : IsHull points (Term.hull points) := by
  obtain ⟨t, rest, rfl⟩ := List.exists_cons_of_ne_nil hne
  obtain ⟨ht, hrest⟩ := List.forall_mem_cons.1 hfinite
  change IsHull ([t] ++ rest) ((t :: rest).foldl (fun span t => joinSpans span (t, t)) _)
  rw [List.foldl_cons, joinSpans_infinite ht]
  exact isHull_foldl_points (.singleton ht) hrest

namespace Pulse

/-- The points of the ideal grid of a pulse. -/
def moments (pulse : Pulse) : List Float := pulse.grid.getD []

theorem moments_eq_nil_iff (pulse : Pulse) :
    pulse.moments = [] ↔
      ∀ ideal, pulse.ideal = some ideal → ideal.grid = none ∨ ideal.grid = some [] := by
  unfold moments grid
  cases pulse.ideal with
  | none => simp
  | some ideal =>
    cases hgrid : ideal.grid with
    | none => simp [hgrid]
    | some points => simp [hgrid]

/-- A pulse has a span when its ideal grid has points. -/
theorem span_eq (pulse : Pulse) :
    pulse.span = if pulse.moments = [] then none else some (Term.hull pulse.moments) := by
  unfold span moments grid
  cases pulse.ideal with
  | none => rfl
  | some ideal =>
    obtain ⟨operator, targets, grid, coefficient⟩ := ideal
    cases grid with
    | none => rfl
    | some points =>
      cases points with
      | nil => rfl
      | cons t rest => rfl

theorem WellFormed.ideal {pulse : Pulse} (h : pulse.WellFormed) {ideal : Term}
    (hideal : pulse.ideal = some ideal) : ideal.WellFormed := by
  apply h
  simp [terms, hideal]

theorem WellFormed.isFinite_moments {pulse : Pulse} (h : pulse.WellFormed) :
    ∀ t ∈ pulse.moments, t.isFinite = true := by
  intro t ht
  unfold moments grid at ht
  cases hideal : pulse.ideal with
  | none =>
    rw [hideal] at ht
    cases ht
  | some ideal =>
    rw [hideal] at ht
    cases hgrid : ideal.grid with
    | none =>
      rw [Option.bind_some, hgrid] at ht
      cases ht
    | some points =>
      rw [Option.bind_some, hgrid] at ht
      exact (h.ideal hideal).grid_finite points hgrid t ht

end Pulse

/-- Going through the spans of pulses is joining their moments to the span so far. -/
theorem isHull_foldl_spans {xs : List Float} {a : Float × Float} {pulses : List Pulse}
    (h : IsHull xs a) (hfinite : ∀ p ∈ pulses, ∀ t ∈ p.moments, t.isFinite = true) :
    IsHull (xs ++ pulses.flatMap (·.moments)) ((pulses.filterMap (·.span)).foldl joinSpans a) := by
  induction pulses generalizing xs a with
  | nil =>
    rw [List.flatMap_nil, List.append_nil]
    exact h
  | cons p rest ih =>
    obtain ⟨hp, hrest⟩ := List.forall_mem_cons.1 hfinite
    rw [List.flatMap_cons]
    by_cases hnil : p.moments = []
    · have hspan : p.span = none := by rw [p.span_eq, if_pos hnil]
      rw [List.filterMap_cons_none hspan, hnil, List.nil_append]
      exact ih h hrest
    · have hspan : p.span = some (Term.hull p.moments) := by rw [p.span_eq, if_neg hnil]
      rw [List.filterMap_cons_some hspan, List.foldl_cons, ← List.append_assoc]
      exact ih (h.append (isHull_hull hnil hp)) hrest

/-- The shared span fails without moments, and is their hull otherwise. -/
theorem sharedSpan_cases {pulses : List Pulse}
    (hfinite : ∀ p ∈ pulses, ∀ t ∈ p.moments, t.isFinite = true) :
    ((∀ p ∈ pulses, p.moments = []) ∧
      sharedSpan pulses = .error (.missingTimeGrid .noSampledPulse)) ∨
    ∃ span, sharedSpan pulses = .ok span ∧ IsHull (pulses.flatMap (·.moments)) span := by
  induction pulses with
  | nil => exact .inl ⟨fun _ hp => absurd hp List.not_mem_nil, rfl⟩
  | cons p rest ih =>
    obtain ⟨hp, hrest⟩ := List.forall_mem_cons.1 hfinite
    unfold sharedSpan
    by_cases hnil : p.moments = []
    · have hspan : p.span = none := by rw [p.span_eq, if_pos hnil]
      rw [List.filterMap_cons_none hspan, List.flatMap_cons, hnil, List.nil_append]
      rcases ih hrest with ⟨hempty, herror⟩ | hok
      · exact .inl ⟨List.forall_mem_cons.2 ⟨hnil, hempty⟩, herror⟩
      · exact .inr hok
    · have hspan : p.span = some (Term.hull p.moments) := by rw [p.span_eq, if_neg hnil]
      rw [List.filterMap_cons_some hspan]
      exact .inr ⟨_, rfl, isHull_foldl_spans (isHull_hull hnil hp) hrest⟩

/-! ## The shared span -/

/-- Two answers with equal bounds, as numbers, or with the same error. -/
inductive SameSpan : Except Error (Float × Float) → Except Error (Float × Float) → Prop
  | bounds {a b : Float × Float} (lo : (a.1 == b.1) = true) (hi : (a.2 == b.2) = true) :
      SameSpan (.ok a) (.ok b)
  | failure (e : Error) : SameSpan (.error e) (.error e)

/-- The moments of pulses in another order, both that of the pulses and that of their grids. -/
theorem perm_flatMap_moments {pulses mid others : List Pulse} (hperm : pulses.Perm mid)
    (hgrids : List.Forall₂ (fun p q => p.moments.Perm q.moments) mid others) :
    (pulses.flatMap (·.moments)).Perm (others.flatMap (·.moments)) := by
  have hmid : (mid.flatMap (·.moments)).Perm (others.flatMap (·.moments)) := by
    clear hperm
    induction hgrids with
    | nil => exact .refl []
    | cons hhead _ ih =>
      rw [List.flatMap_cons, List.flatMap_cons]
      exact hhead.append ih
  exact (hperm.flatMap_right _).trans hmid

theorem sharedSpan_eq_error_iff {pulses : List Pulse} {e : Error}
    (hfinite : ∀ p ∈ pulses, ∀ t ∈ p.moments, t.isFinite = true) :
    sharedSpan pulses = .error e ↔
      e = .missingTimeGrid .noSampledPulse ∧ ∀ p ∈ pulses, p.moments = [] := by
  rcases sharedSpan_cases hfinite with ⟨hempty, herror⟩ | ⟨span, hspan, hhull⟩
  · rw [herror, Except.error.injEq, eq_comm]
    exact (and_iff_left hempty).symm
  · constructor
    · intro he
      rw [hspan] at he
      cases he
    · rintro ⟨-, hempty⟩
      exact absurd (List.flatMap_eq_nil_iff.2 hempty) hhull.ne_nil

theorem isHull_of_sharedSpan {pulses : List Pulse} {span : Float × Float}
    (hfinite : ∀ p ∈ pulses, ∀ t ∈ p.moments, t.isFinite = true)
    (h : sharedSpan pulses = .ok span) : IsHull (pulses.flatMap (·.moments)) span := by
  rcases sharedSpan_cases hfinite with ⟨-, herror⟩ | ⟨span', hspan, hhull⟩
  · rw [herror] at h
    cases h
  · obtain rfl : span' = span := Except.ok.inj (hspan.symm.trans h)
    exact hhull

/-- The shared span depends on nothing but the moments, in any order. -/
theorem sameSpan_of_perm {pulses others : List Pulse}
    (hfinite : ∀ p ∈ pulses, ∀ t ∈ p.moments, t.isFinite = true)
    (hmoments : (pulses.flatMap (·.moments)).Perm (others.flatMap (·.moments))) :
    SameSpan (sharedSpan pulses) (sharedSpan others) := by
  have hothers : ∀ q ∈ others, ∀ t ∈ q.moments, t.isFinite = true := by
    intro q hq t ht
    have hmem := hmoments.mem_iff.2 (List.mem_flatMap.2 ⟨q, hq, ht⟩)
    obtain ⟨p, hp, ht⟩ := List.mem_flatMap.1 hmem
    exact hfinite p hp t ht
  rcases sharedSpan_cases hfinite with ⟨hempty, herror⟩ | ⟨span, hspan, hhull⟩ <;>
    rcases sharedSpan_cases hothers with ⟨hempty', herror'⟩ | ⟨span', hspan', hhull'⟩
  · rw [herror, herror']
    exact .failure _
  · rw [List.flatMap_eq_nil_iff.2 hempty] at hmoments
    exact absurd (List.nil_perm.1 hmoments) hhull'.ne_nil
  · rw [List.flatMap_eq_nil_iff.2 hempty'] at hmoments
    exact absurd (List.perm_nil.1 hmoments) hhull.ne_nil
  · rw [hspan, hspan']
    obtain ⟨hlo, hhi⟩ := hhull.beq hhull' hmoments
    exact .bounds hlo hhi

/-- **The shared span.** It is missing exactly when no pulse has an ideal grid with points.
Otherwise its bounds are moments of pulses, and all moments lie between them. As numbers they
depend on nothing but the moments: not on the order of the pulses or of the points of a grid, and
not on what else the pulses carry. -/
theorem sharedSpan_hull (pulses : List Pulse) (hpulses : ∀ p ∈ pulses, p.WellFormed) :
    ((∃ e, sharedSpan pulses = .error e) ↔
      ∀ p ∈ pulses, ∀ ideal, p.ideal = some ideal → ideal.grid = none ∨ ideal.grid = some []) ∧
    (∀ e, sharedSpan pulses = .error e → e = .missingTimeGrid .noSampledPulse) ∧
    (∀ lo hi, sharedSpan pulses = .ok (lo, hi) →
      lo.isFinite = true ∧ hi.isFinite = true ∧ lo ≤ hi ∧
      (∃ p ∈ pulses, lo ∈ p.moments) ∧ (∃ p ∈ pulses, hi ∈ p.moments) ∧
      ∀ p ∈ pulses, ∀ t ∈ p.moments, lo ≤ t ∧ t ≤ hi) ∧
    ∀ mid others, pulses.Perm mid →
      List.Forall₂ (fun p q => p.moments.Perm q.moments) mid others →
      SameSpan (sharedSpan pulses) (sharedSpan others) := by
  have hfinite : ∀ p ∈ pulses, ∀ t ∈ p.moments, t.isFinite = true :=
    fun p hp => (hpulses p hp).isFinite_moments
  refine ⟨?_, ?_, ?_, ?_⟩
  · simp only [← Pulse.moments_eq_nil_iff, sharedSpan_eq_error_iff hfinite, exists_eq_left]
  · intro e he
    exact ((sharedSpan_eq_error_iff hfinite).1 he).1
  · intro lo hi hok
    have hhull := isHull_of_sharedSpan hfinite hok
    refine ⟨hhull.isFinite_lo, hhull.isFinite_hi, (hhull.bounds _ hhull.lo_mem).2,
      List.mem_flatMap.1 hhull.lo_mem, List.mem_flatMap.1 hhull.hi_mem, ?_⟩
    intro p hp t ht
    exact hhull.bounds t (List.mem_flatMap.2 ⟨p, hp, ht⟩)
  · intro mid others hperm hgrids
    exact sameSpan_of_perm hfinite (perm_flatMap_moments hperm hgrids)

/-- A control with a given time grid and a constant coefficient. -/
def controlOn (grid : Option (List Float)) : Pulse :=
  ⟨"control", some ⟨.sigmax, [0], grid, .constant⟩, none, [], []⟩

/-- Controls with and without a grid, one of them not in order, beside an accumulator. -/
def mixedControls : List Pulse :=
  [controlOn none, controlOn (some [1.0, 0.25, 0.5]), .systematic none,
    controlOn (some [0.75, 2.0]), controlOn (some [])]

theorem sharedSpan_hull_sample :
    (∀ p ∈ mixedControls, p.WellFormed) ∧
    ∃ lo hi, sharedSpan mixedControls = .ok (lo, hi) ∧ lo ≤ hi ∧
      (∀ p ∈ mixedControls, ∀ t ∈ p.moments, lo ≤ t ∧ t ≤ hi) ∧
      SameSpan (sharedSpan mixedControls) (sharedSpan mixedControls.reverse) := by
  have hterm (grid : Option (List Float))
      (h : Term.make? .sigmax [0] grid .constant = .ok ⟨.sigmax, [0], grid, .constant⟩) :
      (controlOn grid).WellFormed := by
    obtain ⟨-, hideal⟩ := (Term.make?_eq_ok_iff _ _ _ _ _).1 h
    exact List.forall_mem_singleton.2 hideal
  have hpulses : ∀ p ∈ mixedControls, p.WellFormed := by
    intro p hp
    simp only [mixedControls, List.mem_cons, List.not_mem_nil, or_false] at hp
    rcases hp with rfl | rfl | rfl | rfl | rfl
    · exact hterm _ (by decide +kernel)
    · exact hterm _ (by decide +kernel)
    · exact fun t ht => absurd ht List.not_mem_nil
    · exact hterm _ (by decide +kernel)
    · exact hterm _ (by decide +kernel)
  obtain ⟨⟨lo, hi⟩, hok⟩ := exists_eq_ok_of_isOk (x := sharedSpan mixedControls) (by decide +kernel)
  obtain ⟨-, -, hbounds, hsame⟩ := sharedSpan_hull mixedControls hpulses
  obtain ⟨-, -, hle, -, -, hall⟩ := hbounds lo hi hok
  have hreverse := hsame mixedControls.reverse mixedControls.reverse
    (List.reverse_perm _).symm (List.forall₂_same.2 fun p _ => .refl p.moments)
  exact ⟨hpulses, lo, hi, hok, hle, hall, hreverse⟩

end PulseNoise
