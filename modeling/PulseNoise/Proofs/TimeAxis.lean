import PulseNoise.Pulse.TimeAxis
import PulseNoise.Proofs.Construction
import PulseNoise.Proofs.Hull
import PulseNoise.Proofs.TotalOrder

/-!
# The time axis of a pulse

The time axis comes from two relations. The points of all grids are sorted by the total order,
which tells the two zeros apart, and then equal neighbours are merged, by an equality that does
not. On finite points that is enough: sorted points ascend as numbers, so that equal ones are
neighbours, and of each number the point that comes first in the total order is left.

* `IsAxis points axis` says what an axis is; `isAxis_mergeEqual` that sorting and merging make one.
* `IsAxis.unique` says that an axis depends on nothing but the set of the points.
* `Pulse.timeAxis_ascending_union` draws the conclusions for the pulses that can be built.
-/

namespace PulseNoise

open Number

/-- The numbers of some points, each once and in ascending order, each by its first point in the
total order. -/
structure IsAxis (points axis : List Float) : Prop where
  ascending : axis.Pairwise (· < ·)
  mem : ∀ t ∈ axis, t ∈ points
  covers : ∀ t ∈ points, ∃ u ∈ axis, (u == t) = true
  first : ∀ u ∈ axis, ∀ t ∈ points, (u == t) = true → totalLE u t = true

/-! ## Merging -/

section Merge

variable {first : Float} {points axis : List Float}

theorem IsAxis.nil : IsAxis [] [] :=
  ⟨.nil, fun _ => id, fun _ ht => absurd ht List.not_mem_nil,
    fun _ hu => absurd hu List.not_mem_nil⟩

/-- A point that is below all others stands before their axis. -/
theorem IsAxis.cons (h : IsAxis points axis) (hfirst : first.isFinite = true)
    (hpoints : ∀ t ∈ points, t.isFinite = true ∧ value first < value t) :
    IsAxis (first :: points) (first :: axis) where
  ascending := by
    refine List.pairwise_cons.2 ⟨?_, h.ascending⟩
    intro t ht
    obtain ⟨hfinite, hlt⟩ := hpoints t (h.mem t ht)
    exact (lt_iff_value_lt hfirst hfinite).2 hlt
  mem t ht := by
    rcases List.mem_cons.1 ht with rfl | ht
    · exact List.mem_cons_self
    · exact List.mem_cons_of_mem first (h.mem t ht)
  covers t ht := by
    rcases List.mem_cons.1 ht with rfl | ht
    · exact ⟨t, List.mem_cons_self, (beq_iff_value_eq hfirst hfirst).2 rfl⟩
    · obtain ⟨u, hu, hut⟩ := h.covers t ht
      exact ⟨u, List.mem_cons_of_mem first hu, hut⟩
  first u hu t ht hut := by
    rcases List.mem_cons.1 ht with rfl | ht
    · rcases List.mem_cons.1 hu with rfl | hu
      · exact totalLE_refl u
      · obtain ⟨hfinite, hlt⟩ := hpoints u (h.mem u hu)
        exact absurd ((beq_iff_value_eq hfinite hfirst).1 hut) hlt.ne'
    · rcases List.mem_cons.1 hu with hfront | hu
      · obtain ⟨hfinite, hlt⟩ := hpoints t ht
        rw [hfront]
        exact totalLE_of_value_lt hfirst hfinite hlt
      · exact h.first u hu t ht hut

/-- A point that equals an earlier one, as a number, and comes after it in the total order leaves
the axis as it is. -/
theorem IsAxis.merge (h : IsAxis (first :: points) axis) {x : Float}
    (hfinite : ∀ t ∈ first :: x :: points, t.isFinite = true) (hle : totalLE first x = true)
    (heq : value x = value first) : IsAxis (first :: x :: points) axis := by
  have hperm : (first :: x :: points).Perm (x :: first :: points) := .swap x first points
  have hfirst : first.isFinite = true := hfinite first List.mem_cons_self
  have hx : x.isFinite = true := hfinite x (hperm.mem_iff.2 List.mem_cons_self)
  refine ⟨h.ascending, ?_, ?_, ?_⟩
  · exact fun t ht => hperm.mem_iff.2 (List.mem_cons_of_mem x (h.mem t ht))
  · intro t ht
    rcases List.mem_cons.1 (hperm.mem_iff.1 ht) with rfl | ht
    · obtain ⟨u, hu, huFirst⟩ := h.covers first List.mem_cons_self
      have huFinite := hfinite u (hperm.mem_iff.2 (List.mem_cons_of_mem t (h.mem u hu)))
      refine ⟨u, hu, (beq_iff_value_eq huFinite hx).2 ?_⟩
      rw [heq]
      exact (beq_iff_value_eq huFinite hfirst).1 huFirst
    · exact h.covers t ht
  · intro u hu t ht hut
    rcases List.mem_cons.1 (hperm.mem_iff.1 ht) with rfl | ht
    · have huFinite := hfinite u (hperm.mem_iff.2 (List.mem_cons_of_mem t (h.mem u hu)))
      have huFirst : (u == first) = true := by
        rw [beq_iff_value_eq huFinite hfirst, ← heq]
        exact (beq_iff_value_eq huFinite hx).1 hut
      exact totalLE_trans (h.first u hu first List.mem_cons_self huFirst) hle
    · exact h.first u hu t ht hut

/-- The first of some sorted points and what is left after it are an axis. -/
theorem isAxis_cons_mergeAfter (hfinite : ∀ t ∈ first :: points, t.isFinite = true)
    (hsorted : (first :: points).Pairwise (totalLE · ·)) :
    IsAxis (first :: points) (first :: mergeAfter first points) := by
  induction points generalizing first with
  | nil => exact IsAxis.nil.cons (hfinite first List.mem_cons_self) nofun
  | cons x points ih =>
    obtain ⟨hfirst, hrest⟩ := List.forall_mem_cons.1 hfinite
    obtain ⟨hx, hpoints⟩ := List.forall_mem_cons.1 hrest
    obtain ⟨hbelow, hsortedRest⟩ := List.pairwise_cons.1 hsorted
    obtain ⟨hxBelow, hsortedPoints⟩ := List.pairwise_cons.1 hsortedRest
    rw [mergeAfter]
    by_cases heq : (x == first) = true
    · rw [if_pos heq]
      have haxis : IsAxis (first :: points) (first :: mergeAfter first points) := by
        refine ih (List.forall_mem_cons.2 ⟨hfirst, hpoints⟩)
          (List.pairwise_cons.2 ⟨?_, hsortedPoints⟩)
        exact fun t ht => hbelow t (List.mem_cons_of_mem x ht)
      exact haxis.merge hfinite (hbelow x List.mem_cons_self) ((beq_iff_value_eq hx hfirst).1 heq)
    · rw [if_neg heq]
      refine (ih hrest hsortedRest).cons hfirst ?_
      have hlt : value first < value x :=
        lt_of_le_of_ne (value_le_of_totalLE hfirst hx (hbelow x List.mem_cons_self))
          fun h => heq ((beq_iff_value_eq hx hfirst).2 h.symm)
      -- the points after `x` are sorted, so that they are no less than `x`
      intro t ht
      rcases List.mem_cons.1 ht with rfl | hmem
      · exact ⟨hx, hlt⟩
      · exact ⟨hpoints t hmem,
          hlt.trans_le (value_le_of_totalLE hx (hpoints t hmem) (hxBelow t hmem))⟩

theorem IsAxis.perm (h : IsAxis points axis) {others : List Float} (hperm : points.Perm others) :
    IsAxis others axis where
  ascending := h.ascending
  mem t ht := hperm.mem_iff.1 (h.mem t ht)
  covers t ht := h.covers t (hperm.mem_iff.2 ht)
  first u hu t ht := h.first u hu t (hperm.mem_iff.2 ht)

/-- Sorted by the total order and merged by numeric equality, finite points make an axis. -/
theorem isAxis_mergeEqual (hfinite : ∀ t ∈ points, t.isFinite = true) :
    IsAxis points (mergeEqual (points.mergeSort totalLE)) := by
  have hperm : (points.mergeSort totalLE).Perm points := List.mergeSort_perm points totalLE
  have hsorted : (points.mergeSort totalLE).Pairwise (totalLE · ·) :=
    @List.pairwise_mergeSort Float totalLE (fun _ _ _ => totalLE_trans) totalLE_total points
  have hsortedFinite : ∀ t ∈ points.mergeSort totalLE, t.isFinite = true :=
    fun t ht => hfinite t (hperm.mem_iff.1 ht)
  refine IsAxis.perm ?_ hperm
  generalize points.mergeSort totalLE = sorted at hsorted hsortedFinite
  cases sorted with
  | nil => exact .nil
  | cons first rest => exact isAxis_cons_mergeAfter hsortedFinite hsorted

end Merge

/-! ## Axes -/

namespace IsAxis

variable {points others axis axis' : List Float}

theorem nodup (h : IsAxis points axis) (hfinite : ∀ t ∈ points, t.isFinite = true) :
    axis.Nodup := by
  refine h.ascending.imp_of_mem ?_
  rintro t u ht - hlt rfl
  have := hfinite t (h.mem t ht)
  exact lt_irrefl _ ((lt_iff_value_lt this this).1 hlt)

/-- Of each number an axis has the first point. -/
theorem mem_iff (h : IsAxis points axis) (hfinite : ∀ t ∈ points, t.isFinite = true) {t : Float} :
    t ∈ axis ↔ t ∈ points ∧ ∀ u ∈ points, value u = value t → totalLE t u = true := by
  have hbeq {t u : Float} (ht : t ∈ points) (hu : u ∈ points) :
      (t == u) = true ↔ value t = value u := beq_iff_value_eq (hfinite t ht) (hfinite u hu)
  constructor
  · intro ht
    exact ⟨h.mem t ht, fun u hu heq => h.first t ht u hu ((hbeq (h.mem t ht) hu).2 heq.symm)⟩
  · rintro ⟨ht, hfirst⟩
    obtain ⟨u, hu, hut⟩ := h.covers t ht
    have hequal := (hbeq (h.mem u hu) ht).1 hut
    rwa [eq_of_totalLE (hfirst u (h.mem u hu) hequal) (h.first u hu t ht hut)]

/-- An axis depends on nothing but the set of the points. -/
theorem unique (h : IsAxis points axis) (h' : IsAxis others axis')
    (hfinite : ∀ t ∈ points, t.isFinite = true) (hsame : ∀ t, t ∈ others ↔ t ∈ points) :
    axis = axis' := by
  have hfinite' : ∀ t ∈ others, t.isFinite = true := fun t ht => hfinite t ((hsame t).1 ht)
  have hmem : ∀ t, t ∈ axis ↔ t ∈ axis' := by
    intro t
    rw [h.mem_iff hfinite, h'.mem_iff hfinite']
    simp only [hsame]
  refine List.Perm.eq_of_pairwise ?_ h.ascending h'.ascending
    ((List.perm_ext_iff_of_nodup (h.nodup hfinite) (h'.nodup hfinite')).2 hmem)
  intro t u ht hu htu hut
  have htFinite := hfinite t (h.mem t ht)
  have huFinite := hfinite' u (h'.mem u hu)
  have := (lt_iff_value_lt htFinite huFinite).1 htu
  exact absurd ((lt_iff_value_lt huFinite htFinite).1 hut) this.not_gt

/-- The two zeros are one point of an axis, which is `-0.0` when that occurs. -/
theorem negZero_mem (h : IsAxis points axis) (hfinite : ∀ t ∈ points, t.isFinite = true)
    (hzero : -0.0 ∈ points) : -0.0 ∈ axis ∧ 0.0 ∉ axis := by
  have hmem : -0.0 ∈ axis := by
    refine (h.mem_iff hfinite).2 ⟨hzero, fun u hu heq => totalLE_negZero (hfinite u hu) ?_⟩
    rw [heq]
    decide +kernel
  refine ⟨hmem, fun hpos => ?_⟩
  have hlt : totalLE 0.0 (-0.0) = true :=
    h.first _ hpos _ hzero (by decide +kernel)
  exact absurd hlt (by decide +kernel)

end IsAxis

/-! ## Pulses -/

namespace Pulse

/-- A point of the grid of one of the terms. -/
def HasPoint (pulse : Pulse) (t : Float) : Prop :=
  ∃ term ∈ pulse.terms, ∃ points, term.grid = some points ∧ t ∈ points

variable {pulse : Pulse}

theorem mem_gridPoints_iff {t : Float} : t ∈ pulse.gridPoints ↔ pulse.HasPoint t := by
  rw [gridPoints, List.mem_flatMap]
  refine exists_congr fun term => and_congr_right fun _ => ?_
  cases term.grid with
  | none => simp
  | some points => simp

theorem timeAxis_eq (pulse : Pulse) :
    pulse.timeAxis = if pulse.gridPoints = [] then none
      else some (mergeEqual (pulse.gridPoints.mergeSort totalLE)) := by
  unfold timeAxis
  cases pulse.gridPoints with
  | nil => rfl
  | cons t points => rfl

theorem timeAxis_eq_none_iff :
    pulse.timeAxis = none ↔
      ∀ term ∈ pulse.terms, ∀ points, term.grid = some points → points = [] := by
  have hnone : pulse.timeAxis = none ↔ pulse.gridPoints = [] := by
    rw [timeAxis_eq]
    split <;> simp_all
  rw [hnone, List.eq_nil_iff_forall_not_mem]
  simp only [mem_gridPoints_iff, HasPoint, List.eq_nil_iff_forall_not_mem]
  constructor
  · exact fun h term hterm points hgrid t ht => h t ⟨term, hterm, points, hgrid, ht⟩
  · rintro h t ⟨term, hterm, points, hgrid, ht⟩
    exact h term hterm points hgrid t ht

theorem WellFormed.isFinite_of_hasPoint (h : pulse.WellFormed) {t : Float}
    (ht : pulse.HasPoint t) : t.isFinite = true := by
  obtain ⟨term, hterm, points, hgrid, hmem⟩ := ht
  exact (h term hterm).grid_finite points hgrid t hmem

theorem isAxis_of_timeAxis (hfinite : ∀ t ∈ pulse.gridPoints, t.isFinite = true)
    {axis : List Float} (h : pulse.timeAxis = some axis) : IsAxis pulse.gridPoints axis := by
  rw [timeAxis_eq] at h
  split at h
  · cases h
  · obtain rfl := Option.some.inj h
    exact isAxis_mergeEqual hfinite

/-- Pulses with the same finite points have the same axis. -/
theorem timeAxis_eq_of_hasPoint {other : Pulse}
    (hfinite : ∀ t ∈ pulse.gridPoints, t.isFinite = true)
    (hsame : ∀ t, other.HasPoint t ↔ pulse.HasPoint t) : other.timeAxis = pulse.timeAxis := by
  have hmem : ∀ t, t ∈ other.gridPoints ↔ t ∈ pulse.gridPoints := by
    intro t
    rw [mem_gridPoints_iff, mem_gridPoints_iff, hsame]
  have hempty : other.gridPoints = [] ↔ pulse.gridPoints = [] := by
    simp only [List.eq_nil_iff_forall_not_mem, hmem]
  rw [timeAxis_eq, timeAxis_eq]
  by_cases hnil : pulse.gridPoints = []
  · rw [if_pos hnil, if_pos (hempty.2 hnil)]
  · rw [if_neg hnil, if_neg (mt hempty.1 hnil)]
    have haxis := isAxis_mergeEqual hfinite
    have hother := isAxis_mergeEqual fun t ht => hfinite t ((hmem t).1 ht)
    rw [haxis.unique hother hfinite hmem]

/-- **The time axis is the sorted union of the grids.** A pulse that can be built has an axis
exactly when a term of its has grid points. The axis ascends; its points are points of the grids,
and each of these equals one of them as a number. Where `-0.0` occurs it stands for both zeros.
The order of the terms and of their points is of no consequence: a pulse with the same points has
the same axis. -/
theorem timeAxis_ascending_union (pulse : Pulse) (hpulse : pulse.Built) :
    (pulse.timeAxis = none ↔
      ∀ term ∈ pulse.terms, ∀ points, term.grid = some points → points = []) ∧
    (∀ axis, pulse.timeAxis = some axis →
      axis.Pairwise (· < ·) ∧ (∀ t ∈ axis, pulse.HasPoint t) ∧
      (∀ t, pulse.HasPoint t → ∃ u ∈ axis, (u == t) = true) ∧
      (pulse.HasPoint (-0.0) → -0.0 ∈ axis ∧ 0.0 ∉ axis)) ∧
    ∀ other : Pulse, (∀ t, other.HasPoint t ↔ pulse.HasPoint t) →
      other.timeAxis = pulse.timeAxis := by
  have hfinite : ∀ t ∈ pulse.gridPoints, t.isFinite = true :=
    fun t ht => hpulse.wellFormed.isFinite_of_hasPoint (mem_gridPoints_iff.1 ht)
  refine ⟨timeAxis_eq_none_iff, ?_, fun other hsame => timeAxis_eq_of_hasPoint hfinite hsame⟩
  intro axis haxis
  have h := isAxis_of_timeAxis hfinite haxis
  refine ⟨h.ascending, ?_, ?_, ?_⟩
  · exact fun t ht => mem_gridPoints_iff.1 (h.mem t ht)
  · exact fun t ht => h.covers t (mem_gridPoints_iff.2 ht)
  · exact fun hzero => h.negZero_mem hfinite (mem_gridPoints_iff.2 hzero)

/-- A pulse with three grids, unsorted and with repetitions, in which both zeros occur. -/
def sampleGrids : Pulse where
  label := "x0"
  ideal := some ⟨.sigmax, [0], some [2.0, 0.0, 1.0], .constant⟩
  interpolation := none
  coherent := [⟨.sigmaz, [0], some [1.0, 1.5, 1.0], .constant⟩, ⟨.sigmaz, [0], none, .constant⟩]
  lindblad := [⟨.destroy 2, [0], some [-0.0, 2.0], .constant⟩]

theorem sampleGrids_built : sampleGrids.Built := by
  refine built_iff.2 ⟨?_, nofun⟩
  have hterms : ∀ term ∈ sampleGrids.terms, term.operator.subsystems = term.targets.length ∧
      (∀ t ∈ term.grid.getD [], t.isFinite = true) ∧ term.coefficient = .constant := by
    decide +kernel
  intro term hterm
  obtain ⟨htargets, hgrid, hconstant⟩ := hterms term hterm
  refine ⟨htargets, ?_, ?_⟩
  · rintro points hpoints
    rwa [hpoints] at hgrid
  · rw [hconstant]
    exact nofun

theorem timeAxis_sampleGrids :
    sampleGrids.Built ∧ ∃ axis, sampleGrids.timeAxis = some axis ∧
      { sampleGrids with coherent := sampleGrids.coherent.reverse }.timeAxis = some axis ∧
      axis.Pairwise (· < ·) ∧ -0.0 ∈ axis ∧ 0.0 ∉ axis ∧ ∃ t ∈ axis, (t == 1.5) = true := by
  have hzero : sampleGrids.HasPoint (-0.0) :=
    mem_gridPoints_iff.1 (by simp [gridPoints, terms, sampleGrids])
  have hmiddle : sampleGrids.HasPoint 1.5 :=
    mem_gridPoints_iff.1 (by simp [gridPoints, terms, sampleGrids])
  obtain ⟨hnone, hsome, hsame⟩ := timeAxis_ascending_union sampleGrids sampleGrids_built
  cases haxis : sampleGrids.timeAxis with
  | none =>
    obtain ⟨term, hterm, points, hgrid, hmem⟩ := hzero
    rw [hnone.1 haxis term hterm points hgrid] at hmem
    cases hmem
  | some axis =>
    obtain ⟨hsorted, -, hcovers, hnegative⟩ := hsome axis haxis
    obtain ⟨hmem, hnot⟩ := hnegative hzero
    refine ⟨sampleGrids_built, axis, rfl, ?_, hsorted, hmem, hnot, hcovers 1.5 hmiddle⟩
    rw [← haxis]
    refine hsame _ fun t => exists_congr fun term => and_congr_left fun _ => ?_
    simp only [terms, List.mem_append, List.mem_reverse]

end Pulse

end PulseNoise
