import PulseNoise.Exchange.Basic
import PulseNoise.Proofs.Readers

/-!
# Options as texts

Options are written as a text and read from it. A time that is not finite has no number in JSON: it
is written as `null`, and `null` is read as an absent time. So the options that are read back are
those that were written, without such times.

* `Options.finitePart` leaves out the times that are not finite.
* `Options.ofText_indentedText` says what written options are read back as, and when these are the
  options that were written.
* `Options.infinite_time_lost` has options that pass all checks and are not read back.
-/

namespace PulseNoise

open Json Number

/-! ## Texts of values -/

namespace Exchange

variable {α : Type} [Exchange α]

/-- A text that is well formed is read as the value that is in it. -/
theorem ofText_of_carries {k : Nat} {v : Json} {a : α} (h : Carries k read? v a)
    {text : String} (htext : parse? text = some v) : ofText text = .ok a := by
  simp only [ofText, htext, h.read_eq]

theorem ofText_compact {k : Nat} {v : Json} {a : α} (h : Carries k read? v a) :
    ofText v.compact = .ok a :=
  ofText_of_carries h (parse?_compact h.isValue)

theorem ofText_indented {k : Nat} {v : Json} {a : α} (h : Carries k read? v a) :
    ofText v.indented = .ok a :=
  ofText_of_carries h (parse?_indented h.isValue)

end Exchange

/-! ## Parts of options -/

/-- The numbers in the description of a system. -/
def System.words : System → List Nat
  | qubits n => [n]
  | subsystems dims => dims

theorem System.carries {k : Nat} (system : System) (h : ∀ n ∈ system.words, n < UInt64.size) :
    Carries (k + 1) Exchange.read? (Exchange.write system) system := by
  cases system with
  | qubits n => exact ((carries_ofNat (h n List.mem_cons_self)).map System.qubits).congr rfl
  | subsystems dims =>
    have hdims : ∀ n ∈ dims, Carries k (·.natural?) (.ofNat n) n := fun n hn =>
      carries_ofNat (h n hn)
    exact ((carries_ofList hdims).map subsystems).congr rfl

theorem Interpolation.carries {k : Nat} (kind : Interpolation) :
    Carries k Exchange.read? (Exchange.write kind) kind := by
  refine ⟨(carries_ofText (toString kind)).isValue, ?_⟩
  cases kind <;> rfl

namespace RelaxationTime

/-- The times of a setting. -/
def doubles : RelaxationTime → List Float
  | uniform t => [t]
  | perQubit ts => ts.filterMap id

/-- The setting without times that are not finite; nothing is left of a single one. -/
def finitePart : RelaxationTime → Option RelaxationTime
  | uniform t => if t.isFinite then some (uniform t) else none
  | perQubit ts => some (perQubit (ts.map fun t => t.filter (·.isFinite)))

/-- A setting of finite times is read back. -/
theorem carries {k : Nat} (time : RelaxationTime) (hfinite : ∀ t ∈ time.doubles, t.isFinite)
    (hreads : ∀ t ∈ time.doubles, ReadsBack t) :
    Carries (k + 1) Exchange.read? (Exchange.write time) time := by
  cases time with
  | uniform t =>
    have hfinite : t.isFinite := hfinite t List.mem_cons_self
    refine ((carries_ofFloat hfinite (hreads t List.mem_cons_self)).map uniform).congr ?_
    simp only [ofFloat, if_pos hfinite]
    rfl
  | perQubit ts =>
    have hentries : ∀ t ∈ ts, Carries k (·.optional? (·.float?)) (.ofOption .ofFloat t) t := by
      refine fun t ht => carries_ofOption rfl fun x hx => ?_
      have hmem : x ∈ (perQubit ts).doubles := List.mem_filterMap.2 ⟨t, ht, hx⟩
      exact carries_ofFloat (hfinite x hmem) (hreads x hmem)
    exact ((carries_ofList hentries).map perQubit).congr rfl

/-- Times that are not finite are written as absent ones. -/
theorem write_eq_ofOption_finitePart (time : RelaxationTime) :
    Exchange.write time = .ofOption Exchange.write time.finitePart := by
  cases time with
  | uniform t =>
    change ofFloat t = .ofOption Exchange.write (if t.isFinite then some (uniform t) else none)
    by_cases ht : t.isFinite
    · rw [if_pos ht]
      rfl
    · rw [if_neg ht]
      exact if_neg ht
  | perQubit ts =>
    change ofList (.ofOption .ofFloat) ts =
      ofList (.ofOption .ofFloat) (ts.map fun t => t.filter (·.isFinite))
    have hentry (t : Option Float) :
        ofOption ofFloat t = ofOption ofFloat (t.filter (·.isFinite)) := by
      cases t with
      | none => rfl
      | some x =>
        by_cases hx : x.isFinite
        · rw [Option.filter_some, if_pos hx]
        · rw [Option.filter_some, if_neg hx]
          exact if_neg hx
    rw [ofList, ofList, List.map_map]
    exact congrArg array (List.map_congr_left fun t _ => hentry t)

/-- The times that are left are finite ones of the setting. -/
theorem mem_doubles_of_finitePart {time time' : RelaxationTime} (h : time.finitePart = some time')
    {x : Float} (hx : x ∈ time'.doubles) : x ∈ time.doubles ∧ x.isFinite := by
  cases time with
  | uniform t =>
    by_cases ht : t.isFinite
    · rw [finitePart, if_pos ht] at h
      cases h
      rw [List.mem_singleton.1 hx]
      exact ⟨List.mem_cons_self, ht⟩
    · rw [finitePart, if_neg ht] at h
      cases h
  | perQubit ts =>
    cases h
    obtain ⟨t', ht', hx⟩ := List.mem_filterMap.1 hx
    obtain ⟨t, ht, rfl⟩ := List.mem_map.1 ht'
    obtain ⟨hsome, hfinite⟩ := Option.filter_eq_some_iff.1 hx
    exact ⟨List.mem_filterMap.2 ⟨t, ht, hsome⟩, hfinite⟩

theorem finitePart_eq_self_iff {time : RelaxationTime} :
    time.finitePart = some time ↔ ∀ t ∈ time.doubles, t.isFinite := by
  constructor
  · exact fun h t ht => (mem_doubles_of_finitePart h ht).2
  · intro h
    cases time with
    | uniform t => exact if_pos (h t List.mem_cons_self)
    | perQubit ts =>
      have hentry : ∀ t ∈ ts, t.filter (·.isFinite) = t := by
        rintro (_ | x) ht
        · rfl
        · rw [Option.filter_some, if_pos (h x (List.mem_filterMap.2 ⟨some x, ht, rfl⟩))]
      exact congrArg (some ∘ perQubit) ((List.map_congr_left hentry).trans (List.map_id ts))

/-- A setting is read back without its times that are not finite. -/
theorem carries_finitePart {k : Nat} (time : RelaxationTime)
    (hreads : ∀ t ∈ time.doubles, t.isFinite → ReadsBack t) :
    Carries (k + 1) (·.optional? Exchange.read?) (Exchange.write time) time.finitePart := by
  rw [write_eq_ofOption_finitePart]
  refine carries_ofOption rfl fun time' htime' => time'.carries ?_ ?_
  · exact fun x hx => (mem_doubles_of_finitePart htime' hx).2
  · intro x hx
    obtain ⟨hmem, hfinite⟩ := mem_doubles_of_finitePart htime' hx
    exact hreads x hmem hfinite

end RelaxationTime

/-! ## Options -/

namespace Options

/-- All relaxation times in options. -/
def doubles (options : Options) : List Float :=
  (options.t1.toList ++ options.t2.toList).flatMap (·.doubles)

/-- The options without times that are not finite. -/
def finitePart (options : Options) : Options :=
  { options with
    t1 := options.t1.bind (·.finitePart)
    t2 := options.t2.bind (·.finitePart) }

theorem finitePart_eq_self_iff {options : Options} :
    options.finitePart = options ↔ ∀ t ∈ options.doubles, t.isFinite := by
  have hsetting (time : Option RelaxationTime) :
      time.bind (·.finitePart) = time ↔ ∀ s ∈ time.toList, ∀ t ∈ s.doubles, t.isFinite := by
    cases time with
    | none => simp
    | some time =>
      rw [Option.toList_some, List.forall_mem_singleton]
      exact RelaxationTime.finitePart_eq_self_iff
  have hparts : options.finitePart = options ↔ options.t1.bind (·.finitePart) = options.t1 ∧
      options.t2.bind (·.finitePart) = options.t2 := by
    obtain ⟨system, t1, t2, deviceNoise, interpolation⟩ := options
    simp [finitePart]
  rw [hparts, hsetting, hsetting, ← List.forall_mem_append]
  simp only [doubles, List.mem_flatMap]
  exact ⟨fun h t ⟨s, hs, ht⟩ => h s hs t ht, fun h s hs t ht => h t ⟨s, hs, ht⟩⟩

/-- The fields of options, as they are written. -/
def entries (options : Options) : List FieldEntry :=
  [⟨⟨["dims"], false⟩, "dims", some (Exchange.write options.system)⟩,
    ⟨⟨["t1"], true⟩, "t1", options.t1.map Exchange.write⟩,
    ⟨⟨["t2"], true⟩, "t2", options.t2.map Exchange.write⟩,
    ⟨⟨["device_noise"], true⟩, "device_noise", some (.bool options.deviceNoise)⟩,
    ⟨⟨["spline_kind"], true⟩, "spline_kind", options.interpolation.map Exchange.write⟩]

theorem write_eq (options : Options) :
    Exchange.write options = .ofFields (presentFields options.entries) := by
  obtain ⟨system, t1, t2, deviceNoise, interpolation⟩ := options
  cases t1 <;> cases t2 <;> cases interpolation <;> rfl

theorem matching_entries (options : Options) : Matching options.entries := by
  constructor <;> simp [entries]

theorem record?_write (options : Options) :
    (Exchange.write options).record? fieldRules = some (options.entries.map (·.value)) := by
  rw [write_eq]
  exact record?_ofFields options.matching_entries

/-- A setting is read back without times that are not finite, and so is one that was left out. -/
theorem read_setting (time : Option RelaxationTime)
    (hreads : ∀ s ∈ time.toList, ∀ t ∈ s.doubles, t.isFinite → ReadsBack t) :
    defaulted? none (·.optional? Exchange.read?) (time.map Exchange.write) =
      some (time.bind (·.finitePart)) := by
  cases time with
  | none => rfl
  | some time =>
    exact (time.carries_finitePart (k := 0) (hreads time List.mem_cons_self)).read_eq

theorem read_interpolation (kind : Option Interpolation) :
    defaulted? none (·.optional? Exchange.read?) (kind.map Exchange.write) = some kind := by
  cases kind with
  | none => rfl
  | some kind => cases kind <;> rfl

theorem isValue_write {k : Nat} (options : Options)
    (hwords : ∀ n ∈ options.system.words, n < UInt64.size)
    (hreads : ∀ t ∈ options.doubles, t.isFinite → ReadsBack t) :
    (Exchange.write options).isValue (k + 2) := by
  have hsetting (time : Option RelaxationTime)
      (htime : ∀ s ∈ time.toList, s ∈ options.t1.toList ++ options.t2.toList) (v : Json)
      (hv : time.map Exchange.write = some v) : v.isValue (k + 1) := by
    obtain ⟨s, rfl, rfl⟩ := Option.map_eq_some_iff.1 hv
    have hs := htime s List.mem_cons_self
    exact (s.carries_finitePart fun t ht => hreads t (List.mem_flatMap.2 ⟨s, hs, ht⟩)).isValue
  have hinterpolation (v : Json) (hv : options.interpolation.map Exchange.write = some v) :
      v.isValue (k + 1) := by
    obtain ⟨kind, -, rfl⟩ := Option.map_eq_some_iff.1 hv
    exact kind.carries.isValue
  rw [write_eq]
  exact isValue_ofFields
    (.present (options.system.carries hwords).isValue
      (.cons (hsetting options.t1 fun _ => List.mem_append_left _)
        (.cons (hsetting options.t2 fun _ => List.mem_append_right _)
          (.present (carries_bool options.deviceNoise).isValue (.cons hinterpolation .nil)))))

/-- Options are read back without their times that are not finite. -/
theorem carries_finitePart {k : Nat} (options : Options)
    (hwords : ∀ n ∈ options.system.words, n < UInt64.size)
    (hreads : ∀ t ∈ options.doubles, t.isFinite → ReadsBack t) :
    Carries (k + 2) Exchange.read? (Exchange.write options) options.finitePart := by
  obtain ⟨hreads1, hreads2⟩ := List.forall_mem_append.1 fun s hs t (ht : t ∈ s.doubles) =>
    hreads t (List.mem_flatMap.2 ⟨s, hs, ht⟩)
  refine ⟨options.isValue_write hwords hreads, ?_⟩
  have hsystem : required? Exchange.read? (some (Exchange.write options.system)) =
      some options.system := (options.system.carries (k := 0) hwords).read_eq
  change ((Exchange.write options).record? fieldRules).bind _ = _
  rw [record?_write]
  change (required? Exchange.read? (some (Exchange.write options.system))).bind _ = _
  rw [hsystem]
  change (defaulted? none _ (options.t1.map Exchange.write)).bind _ = _
  rw [read_setting options.t1 hreads1]
  change (defaulted? none _ (options.t2.map Exchange.write)).bind _ = _
  rw [read_setting options.t2 hreads2]
  change (defaulted? none _ (options.interpolation.map Exchange.write)).bind _ = _
  rw [read_interpolation options.interpolation]
  rfl

/-- **Options as texts.** Options with numbers of 64 bits, whose finite times are read back, are
read back without the times that are not finite. So exactly the options whose times are all finite
are read back as they were. -/
theorem ofText_indentedText (options : Options)
    (hwords : ∀ n ∈ options.system.words, n < UInt64.size)
    (hreads : ∀ t ∈ options.doubles, t.isFinite → ReadsBack t) :
    Exchange.ofText (Exchange.indentedText options) = .ok options.finitePart ∧
      (Exchange.ofText (Exchange.indentedText options) = .ok options ↔
        ∀ t ∈ options.doubles, t.isFinite) := by
  have hread : Exchange.ofText (Exchange.indentedText options) = .ok options.finitePart :=
    Exchange.ofText_indented (options.carries_finitePart (k := 0) hwords hreads)
  refine ⟨hread, ?_⟩
  rw [hread, ← finitePart_eq_self_iff]
  exact ⟨Except.ok.inj, congrArg Except.ok⟩

/-- Options with every setting in use. -/
def sample : Options :=
  ⟨.subsystems [2, 3], some (.uniform 20.0), some (.perQubit [some 12.5, none]), true, some .cubic⟩

/-- Options with finite times are read back as they were. -/
theorem ofText_indentedText_sample :
    Exchange.ofText (Exchange.indentedText sample) = .ok sample :=
  (sample.ofText_indentedText (by decide) (by decide +kernel)).2.2 (by decide +kernel)

/-- A qubit with an infinite time, which is a positive one. -/
def lasting : Options := ⟨.qubits 1, some (.uniform (1.0 / 0.0)), none, false, none⟩

/-- Options that pass all checks and are read back as others: the infinite time is lost. -/
theorem infinite_time_lost :
    lasting.validate = .ok () ∧
      Exchange.ofText (Exchange.indentedText lasting) = .ok { lasting with t1 := none } ∧
      { lasting with t1 := none } ≠ lasting := by
  have hread : Exchange.ofText (Exchange.indentedText lasting) = .ok lasting.finitePart :=
    Exchange.ofText_indented (lasting.carries_finitePart (k := 0) (by decide)
      (by decide +kernel))
  refine ⟨by decide +kernel, hread, by decide⟩

end Options

end PulseNoise
