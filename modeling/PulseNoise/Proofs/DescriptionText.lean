import PulseNoise.Exchange.Sources
import PulseNoise.Proofs.OptionsText

/-!
# Descriptions as texts

Descriptions of sources are written as a text and read from it, as lists. The kind of a description
stands in a field of its own, perturbations and times are told apart by their form alone, and the
coupling of crosstalk has two names. All of this is undone: the list that is read back is the one
that was written, whatever name each coupling has.

* `Number.Exchangeable` holds of finite doubles that are read back.
* `split?_ofFields` finds the kind of a description and what is left of its fields.
* `Description.carries` says that one description is read back.
* `Description.ofText_written` says so of a list, in both forms and with both names.
-/

namespace PulseNoise

open Json Number Sampling

/-- A double that is written as a number and read back. -/
def Number.Exchangeable (x : Float) : Prop := x.isFinite ∧ ReadsBack x

/-! ## Parts of descriptions -/

section Parts

variable {k : Nat}

theorem carries_floats {xs : List Float} (h : ∀ x ∈ xs, Exchangeable x) :
    Carries (k + 1) (·.list? (·.float?)) (.ofList .ofFloat xs) xs :=
  carries_ofList fun x hx => carries_ofFloat (h x hx).1 (h x hx).2

theorem carries_words {ns : List Nat} (h : ∀ n ∈ ns, n < UInt64.size) :
    Carries (k + 1) (·.list? (·.natural?)) (.ofList .ofNat ns) ns :=
  carries_ofList fun n hn => carries_ofNat (h n hn)

theorem carries_optionalFloats {xs : Option (List Float)} (h : ∀ x ∈ xs.getD [], Exchangeable x) :
    Carries (k + 1) (·.optional? (·.list? (·.float?))) (.ofOption (.ofList .ofFloat) xs) xs := by
  refine carries_ofOption rfl fun ys hys => carries_floats ?_
  rw [hys] at h
  exact h

theorem carries_optionalWords {ns : Option (List Nat)} (h : ∀ n ∈ ns.getD [], n < UInt64.size) :
    Carries (k + 1) (·.optional? (·.list? (·.natural?))) (.ofOption (.ofList .ofNat) ns) ns := by
  refine carries_ofOption rfl fun ms hms => carries_words ?_
  rw [hms] at h
  exact h

/-- The numbers of a perturbation. -/
def Perturbation.doubles : Perturbation → List Float
  | scale factor => [factor]
  | samples values => values

theorem Perturbation.carries (perturbation : Perturbation)
    (h : ∀ x ∈ perturbation.doubles, Exchangeable x) :
    Carries (k + 1) Exchange.read? (Exchange.write perturbation) perturbation := by
  cases perturbation with
  | scale factor =>
    obtain ⟨hfinite, hreads⟩ := h factor List.mem_cons_self
    refine ((carries_ofFloat hfinite hreads).map scale).congr ?_
    simp only [ofFloat, if_pos hfinite]
    rfl
  | samples values => exact ((carries_floats h).map samples).congr rfl

end Parts

namespace Sampling.Parameters

/-- The values of parameters. -/
def doubles (parameters : Parameters) : List Float := parameters.entries.map (·.2)

/-- A name after all others is set at the end. -/
theorem insertEntry_eq_append {name : String} {value : Float} {entries : List (String × Float)}
    (h : ∀ e ∈ entries, e.1 < name) :
    insertEntry name value entries = entries ++ [(name, value)] := by
  induction entries with
  | nil => rfl
  | cons e entries ih =>
    obtain ⟨hlt, hentries⟩ := List.forall_mem_cons.1 h
    have hne : name ≠ e.1 := fun heq => String.lt_irrefl name (heq ▸ hlt)
    rw [insertEntry, if_neg (String.lt_asymm hlt), if_neg hne, ih hentries]
    rfl

/-- Entries in the order of their names are set one after the other. -/
theorem ofList_entries (parameters : Parameters) : ofList parameters.entries = parameters := by
  have hloop (entries : List (String × Float)) (p : Parameters)
      (h : Ascending (p.entries ++ entries)) :
      (entries.foldl (fun p e => p.insert e.1 e.2) p).entries = p.entries ++ entries := by
    induction entries generalizing p with
    | nil => rw [List.foldl_nil, List.append_nil]
    | cons e entries ih =>
      have hlast : ∀ e' ∈ p.entries, e'.1 < e.1 := fun e' he' =>
        (List.pairwise_append.1 h).2.2 e' he' e List.mem_cons_self
      have hinsert : (p.insert e.1 e.2).entries = p.entries ++ [e] := insertEntry_eq_append hlast
      rw [List.foldl_cons, ih, hinsert, List.append_assoc, List.singleton_append]
      rwa [hinsert, List.append_assoc, List.singleton_append]
  exact ext (hloop parameters.entries empty parameters.ascending)

theorem carries {k : Nat} (parameters : Parameters)
    (h : ∀ x ∈ parameters.doubles, Exchangeable x) :
    Carries (k + 1) Exchange.read? (Exchange.write parameters) parameters := by
  have hentry : ∀ e ∈ parameters.entries, Carries k (·.float?) (.ofFloat e.2) e.2 :=
    fun e he => by
      obtain ⟨hfinite, hreads⟩ := h e.2 (List.mem_map_of_mem he)
      exact carries_ofFloat hfinite hreads
  constructor
  · refine List.all_eq_true.2 fun field hfield => ?_
    obtain ⟨⟨name, v⟩, hmem, rfl⟩ := List.mem_map.1 hfield
    obtain ⟨e, he, heq⟩ := List.mem_map.1 hmem
    cases heq
    exact (hentry e he).isValue
  · have hfields : (parameters.entries.map fun e => (some e.1, ofFloat e.2)).mapM
        (fun field : Option String × Json => do return (← field.1, ← field.2.float?)) =
        some (parameters.entries.map id) :=
      mapM_map_eq_some fun e he => by simp [(hentry e he).read_eq]
    have hwritten : Exchange.write parameters =
        .object (parameters.entries.map fun e => (some e.1, ofFloat e.2)) := by
      change object (List.map _ (List.map _ _)) = _
      rw [List.map_map]
      rfl
    rw [hwritten]
    change Option.bind (List.mapM _ _) _ = _
    rw [hfields, List.map_id]
    exact congrArg some parameters.ofList_entries

end Sampling.Parameters

namespace CrosstalkParameters

/-- The numbers of crosstalk parameters. -/
def doubles (parameters : CrosstalkParameters) : List Float :=
  parameters.coupling ++ parameters.frequency ++ parameters.anharmonicity

/-- The name under which the coupling is written. -/
def couplingName (capital : Bool) : String := if capital then "J" else "j"

def entries (capital : Bool) (parameters : CrosstalkParameters) : List FieldEntry :=
  [⟨⟨["j", "J"], false⟩, couplingName capital, some (.ofList .ofFloat parameters.coupling)⟩,
    ⟨⟨["wq_dressed_cavity"], false⟩, "wq_dressed_cavity",
      some (.ofList .ofFloat parameters.frequency)⟩,
    ⟨⟨["alpha"], false⟩, "alpha", some (.ofList .ofFloat parameters.anharmonicity)⟩]

/-- The parameters with the coupling under one of its names. -/
def writeAs (capital : Bool) (parameters : CrosstalkParameters) : Json :=
  .ofFields (presentFields (parameters.entries capital))

theorem matching_entries (capital : Bool) (parameters : CrosstalkParameters) :
    Matching (parameters.entries capital) := by
  cases capital <;> constructor <;> simp [entries, couplingName]

theorem carries {k : Nat} (capital : Bool) (parameters : CrosstalkParameters)
    (h : ∀ x ∈ parameters.doubles, Exchangeable x) :
    Carries (k + 2) Exchange.read? (parameters.writeAs capital) parameters := by
  obtain ⟨hboth, hanharmonicity⟩ := List.forall_mem_append.1 h
  obtain ⟨hcoupling, hfrequency⟩ := List.forall_mem_append.1 hboth
  have hcoupling := carries_floats (k := k) hcoupling
  have hfrequency := carries_floats (k := k) hfrequency
  have hanharmonicity := carries_floats (k := k) hanharmonicity
  constructor
  · exact isValue_ofFields
      (.present hcoupling.isValue
        (.present hfrequency.isValue (.present hanharmonicity.isValue .nil)))
  · change ((parameters.writeAs capital).record? fieldRules).bind _ = _
    have hrecord : (parameters.writeAs capital).record? fieldRules =
        some ((parameters.entries capital).map (·.value)) :=
      record?_ofFields (parameters.matching_entries capital)
    rw [hrecord]
    change (list? _ (.ofList .ofFloat parameters.coupling)).bind _ = _
    rw [hcoupling.read_eq]
    change (list? _ (.ofList .ofFloat parameters.frequency)).bind _ = _
    rw [hfrequency.read_eq]
    change (list? _ (.ofList .ofFloat parameters.anharmonicity)).bind _ = _
    rw [hanharmonicity.read_eq]
    rfl

end CrosstalkParameters

/-! ## Fields of sources -/

/-- The fields of a structure can be read whole, and the structure is made of them. -/
structure FieldsCarry {α : Type} (k : Nat) (read : List (Option Json) → Option α)
    (entries : List FieldEntry) (a : α) : Prop where
  matching : Matching entries
  allValues : AllValues k entries
  read_eq : read (entries.map (·.value)) = some a

theorem FieldsCarry.record?_bind {α : Type} {k : Nat} {read : List (Option Json) → Option α}
    {entries : List FieldEntry} {a : α} (h : FieldsCarry k read entries a) :
    (record? (entries.map (·.rule)) (.ofFields (presentFields entries))).bind read = some a := by
  rw [record?_ofFields h.matching]
  exact h.read_eq

theorem FieldsCarry.map {α β : Type} {k : Nat} {read : List (Option Json) → Option α}
    {entries : List FieldEntry} {a : α} (h : FieldsCarry k read entries a) (f : α → β) :
    FieldsCarry k (fun values => f <$> read values) entries (f a) :=
  ⟨h.matching, h.allValues, by simp [h.read_eq]⟩

namespace Relaxation

/-- The numbers of relaxation. -/
def doubles (noise : Relaxation) : List Float :=
  (noise.t1.toList ++ noise.t2.toList).flatMap (·.doubles)

def words (noise : Relaxation) : List Nat := noise.targets.getD []

def entries (noise : Relaxation) : List FieldEntry :=
  [⟨⟨["t1"], true⟩, "t1", some (.ofOption Exchange.write noise.t1)⟩,
    ⟨⟨["t2"], true⟩, "t2", some (.ofOption Exchange.write noise.t2)⟩,
    ⟨⟨["targets"], true⟩, "targets", some (.ofOption (.ofList .ofNat) noise.targets)⟩]

theorem fieldsCarry {k : Nat} (noise : Relaxation) (h : ∀ x ∈ noise.doubles, Exchangeable x)
    (hwords : ∀ n ∈ noise.words, n < UInt64.size) :
    FieldsCarry (k + 1) ofFields? noise.entries noise := by
  have hsetting (time : Option RelaxationTime) (htime : ∀ s ∈ time.toList, s ∈
      noise.t1.toList ++ noise.t2.toList) : Carries (k + 1) (·.optional? Exchange.read?)
        (.ofOption Exchange.write time) time := by
    refine carries_ofOption rfl fun s hs => s.carries ?_ ?_
    · exact fun t ht => (h t (List.mem_flatMap.2 ⟨s, htime s (by simp [hs]), ht⟩)).1
    · exact fun t ht => (h t (List.mem_flatMap.2 ⟨s, htime s (by simp [hs]), ht⟩)).2
  have ht1 := hsetting noise.t1 fun s hs => List.mem_append_left _ hs
  have ht2 := hsetting noise.t2 fun s hs => List.mem_append_right _ hs
  have htargets := carries_optionalWords (k := k) hwords
  refine ⟨by constructor <;> simp [entries], ?_, ?_⟩
  · exact .present ht1.isValue (.present ht2.isValue (.present htargets.isValue .nil))
  · change (optional? _ (.ofOption Exchange.write noise.t1)).bind _ = _
    rw [ht1.read_eq]
    change (optional? _ (.ofOption Exchange.write noise.t2)).bind _ = _
    rw [ht2.read_eq]
    change (optional? _ (.ofOption (.ofList .ofNat) noise.targets)).bind _ = _
    rw [htargets.read_eq]
    rfl

end Relaxation

namespace AmplitudeNoise

/-- The numbers of amplitude noise. -/
def doubles (noise : AmplitudeNoise) : List Float :=
  noise.perturbation.doubles ++ noise.grid.getD []

def words (noise : AmplitudeNoise) : List Nat := noise.indices.getD []

def entries (noise : AmplitudeNoise) : List FieldEntry :=
  [⟨⟨["coeff"], false⟩, "coeff", some (Exchange.write noise.perturbation)⟩,
    ⟨⟨["tlist"], true⟩, "tlist", some (.ofOption (.ofList .ofFloat) noise.grid)⟩,
    ⟨⟨["indices"], true⟩, "indices", some (.ofOption (.ofList .ofNat) noise.indices)⟩]

theorem fieldsCarry {k : Nat} (noise : AmplitudeNoise)
    (h : ∀ x ∈ noise.doubles, Exchangeable x) (hwords : ∀ n ∈ noise.words, n < UInt64.size) :
    FieldsCarry (k + 1) ofFields? noise.entries noise := by
  obtain ⟨hperturbation, hgrid⟩ := List.forall_mem_append.1 h
  have hperturbation := noise.perturbation.carries (k := k) hperturbation
  have hgrid := carries_optionalFloats (k := k) hgrid
  have hindices := carries_optionalWords (k := k) hwords
  refine ⟨by constructor <;> simp [entries], ?_, ?_⟩
  · exact .present hperturbation.isValue (.present hgrid.isValue (.present hindices.isValue .nil))
  · change (Exchange.read? (Exchange.write noise.perturbation)).bind _ = _
    rw [hperturbation.read_eq]
    change (optional? _ (.ofOption (.ofList .ofFloat) noise.grid)).bind _ = _
    rw [hgrid.read_eq]
    change (optional? _ (.ofOption (.ofList .ofNat) noise.indices)).bind _ = _
    rw [hindices.read_eq]
    rfl

end AmplitudeNoise

namespace Crosstalk

def entries (capital : Bool) (noise : Crosstalk) : List FieldEntry :=
  [⟨⟨["params"], false⟩, "params", some (noise.parameters.writeAs capital)⟩]

theorem fieldsCarry {k : Nat} (capital : Bool) (noise : Crosstalk)
    (h : ∀ x ∈ noise.parameters.doubles, Exchangeable x) :
    FieldsCarry (k + 2) ofFields? (noise.entries capital) noise := by
  have hparameters := noise.parameters.carries (k := k) capital h
  refine ⟨by constructor <;> simp [entries], .present hparameters.isValue .nil, ?_⟩
  change (Exchange.read? (noise.parameters.writeAs capital)).bind _ = _
  rw [hparameters.read_eq]
  rfl

end Crosstalk

theorem Sampling.DistributionKind.read_wholeWord (kind : DistributionKind) :
    (Exchange.write kind).wholeWord?.bind DistributionKind.ofName? = some kind := by
  cases kind <;> rfl

/-! ## Descriptions -/

namespace Description

/-- The fields of a random source, its kind apart. -/
def randomEntries (dt : Float) (kind : DistributionKind) (parameters : Parameters)
    (seed : Option Nat) (indices : Option (List Nat)) : List FieldEntry :=
  [⟨⟨["dt"], false⟩, "dt", some (.ofFloat dt)⟩,
    ⟨⟨["distribution"], true⟩, "distribution", some (Exchange.write kind)⟩,
    ⟨⟨["params"], true⟩, "params", some (Exchange.write parameters)⟩,
    ⟨⟨["seed"], true⟩, "seed", some (.ofOption .ofNat seed)⟩,
    ⟨⟨["indices"], true⟩, "indices", some (.ofOption (.ofList .ofNat) indices)⟩]

theorem randomFieldsCarry {k : Nat} {dt : Float} (kind : DistributionKind)
    {parameters : Parameters} {seed : Option Nat} {indices : Option (List Nat)}
    (hdt : Exchangeable dt) (h : ∀ x ∈ parameters.doubles, Exchangeable x)
    (hseed : ∀ n ∈ seed.toList, n < UInt64.size)
    (hindices : ∀ n ∈ indices.getD [], n < UInt64.size) :
    FieldsCarry (k + 1) randomOfFields? (randomEntries dt kind parameters seed indices)
      (random dt kind parameters seed indices) := by
  have hdt := carries_ofFloat (k := k + 1) hdt.1 hdt.2
  have hparameters := parameters.carries (k := k) h
  have hseed : Carries (k + 1) (·.optional? (·.natural?)) (.ofOption .ofNat seed) seed :=
    carries_ofOption rfl fun n hn => carries_ofNat (hseed n (by simp [hn]))
  have hindices := carries_optionalWords (k := k) hindices
  refine ⟨by constructor <;> simp [randomEntries], ?_, ?_⟩
  · exact .present hdt.isValue (.present (carries_ofText (toString kind)).isValue
      (.present hparameters.isValue (.present hseed.isValue (.present hindices.isValue .nil))))
  · change (float? (.ofFloat dt)).bind _ = _
    rw [hdt.read_eq]
    change ((Exchange.write kind).wholeWord?.bind DistributionKind.ofName?).bind _ = _
    rw [kind.read_wholeWord]
    change (Exchange.read? (Exchange.write parameters)).bind _ = _
    rw [hparameters.read_eq]
    change (optional? _ (.ofOption .ofNat seed)).bind _ = _
    rw [hseed.read_eq]
    change (optional? _ (.ofOption (.ofList .ofNat) indices)).bind _ = _
    rw [hindices.read_eq]
    rfl

/-- The numbers of a description that are doubles. -/
def doubles : Description → List Float
  | relaxation noise => noise.doubles
  | amplitude noise => noise.doubles
  | random dt _ parameters _ _ => dt :: parameters.doubles
  | crosstalk noise => noise.parameters.doubles

/-- The numbers of a description that are naturals: places of qubits and pulses, and the seed. -/
def words : Description → List Nat
  | relaxation noise => noise.words
  | amplitude noise => noise.words
  | random _ _ _ seed indices => seed.toList ++ indices.getD []
  | crosstalk _ => []

/-- The name of the kind. -/
def kindName : Description → String
  | relaxation _ => "relaxation"
  | amplitude _ => "control_amp"
  | random .. => "random"
  | crosstalk _ => "zz_cross_talk"

/-- The fields of a description, its kind apart. -/
def entries (capital : Bool) : Description → List FieldEntry
  | relaxation noise => noise.entries
  | amplitude noise => noise.entries
  | random dt kind parameters seed indices => randomEntries dt kind parameters seed indices
  | crosstalk noise => noise.entries capital

/-- The JSON value of a description, with the coupling of crosstalk under one of its names. -/
def toJsonAs (capital : Bool) (description : Description) : Json :=
  .ofFields ((kindField, .ofText description.kindName) ::
    presentFields (description.entries capital))

theorem toJsonAs_false (description : Description) :
    description.toJsonAs false = description.toJson := by
  cases description <;> rfl

/-- The kind is found in its field, and the other fields are left. -/
theorem split?_ofFields (kind : String) {fields : List (String × Json)}
    (h : ∀ field ∈ fields, field.1 ≠ kindField) :
    split? (.ofFields ((kindField, .ofText kind) :: fields)) = some (kind, .ofFields fields) := by
  let others : List (Option String × Json) := fields.map fun field => (some field.1, field.2)
  have hothers : ∀ field ∈ others, field.1 ≠ some kindField := by
    intro field hfield hname
    obtain ⟨field', hmem, rfl⟩ := List.mem_map.1 hfield
    exact h field' hmem (Option.some.inj hname)
  have hkind : others.filter (·.1 = some kindField) = [] :=
    List.filter_eq_nil_iff.2 fun field hfield => by simpa using hothers field hfield
  have hrest : others.filter (·.1 ≠ some kindField) = others :=
    List.filter_eq_self.2 fun field hfield => by simpa using hothers field hfield
  change split? (.object ((some kindField, .ofText kind) :: others)) = some (kind, .object others)
  simp only [split?, List.filter_cons, decide_true, if_true, hkind, hrest]
  simp [ofText]

/-- No source has a field with the name of that for the kind. -/
theorem ne_kindField (capital : Bool) (description : Description) :
    ∀ field ∈ presentFields (description.entries capital), field.1 ≠ kindField := by
  have hentries : ∀ entry ∈ description.entries capital, entry.name ≠ kindField := by
    cases description <;>
      simp [entries, Relaxation.entries, AmplitudeNoise.entries, randomEntries, Crosstalk.entries,
        kindField]
  intro field hfield
  obtain ⟨entry, hmem, hentry⟩ := List.mem_filterMap.1 hfield
  obtain ⟨v, -, rfl⟩ := Option.map_eq_some_iff.1 hentry
  exact hentries entry hmem

/-- A description is made of its fields. -/
theorem fieldsCarry {k : Nat} (capital : Bool) {description : Description}
    (h : ∀ x ∈ description.doubles, Exchangeable x)
    (hwords : ∀ n ∈ description.words, n < UInt64.size) : ∃ read,
    FieldsCarry (k + 2) read (description.entries capital) description ∧
      ∀ value, ofKind? description.kindName value =
        (value.record? ((description.entries capital).map (·.rule))).bind read := by
  cases description with
  | relaxation noise =>
    exact ⟨_, (noise.fieldsCarry h hwords).map relaxation, fun value => rfl⟩
  | amplitude noise =>
    exact ⟨_, (noise.fieldsCarry h hwords).map amplitude, fun value => rfl⟩
  | random dt kind parameters seed indices =>
    obtain ⟨hdt, hparameters⟩ := List.forall_mem_cons.1 h
    obtain ⟨hseed, hindices⟩ := List.forall_mem_append.1 hwords
    exact ⟨_, randomFieldsCarry kind hdt hparameters hseed hindices, fun value => rfl⟩
  | crosstalk noise =>
    exact ⟨_, (noise.fieldsCarry capital h).map crosstalk, fun value => rfl⟩

/-- A description is read back, whatever name its coupling has. -/
theorem carries {k : Nat} (capital : Bool) {description : Description}
    (h : ∀ x ∈ description.doubles, Exchangeable x)
    (hwords : ∀ n ∈ description.words, n < UInt64.size) :
    Carries (k + 3) (ofJson? (k + 3)) (description.toJsonAs capital) description := by
  obtain ⟨read, hfields, hkind⟩ := description.fieldsCarry (k := k) capital h hwords
  have hvalue : (description.toJsonAs capital).isValue (k + 3) := by
    have hwritten : description.toJsonAs capital = .ofFields (presentFields
        (⟨⟨[kindField], false⟩, kindField, some (.ofText description.kindName)⟩ ::
          description.entries capital)) := rfl
    rw [hwritten]
    exact isValue_ofFields
      (.present (carries_ofText description.kindName).isValue hfields.allValues)
  refine ⟨hvalue, ?_⟩
  unfold ofJson?
  rw [if_pos hvalue, toJsonAs, split?_ofFields _ (description.ne_kindField capital)]
  change ofKind? description.kindName _ = _
  rw [hkind]
  exact hfields.record?_bind

end Description

/-- A list of descriptions is read back, whatever name each coupling has. -/
theorem carries_descriptions {ds : List (Bool × Description)}
    (h : ∀ d ∈ ds, ∀ x ∈ d.2.doubles, Exchangeable x)
    (hwords : ∀ d ∈ ds, ∀ n ∈ d.2.words, n < UInt64.size) :
    Carries Description.maxDepth Exchange.read? (.ofList (fun d => d.2.toJsonAs d.1) ds)
      (ds.map (·.2)) :=
  carries_ofList_map fun d hd => d.2.carries (k := 123) d.1 (h d hd) (hwords d hd)

/-- **Descriptions as texts.** A list of descriptions with finite doubles that are read back and
naturals of 64 bits is read from its own text, compact or indented, and from every text in which
the couplings of crosstalk have another of their names. -/
theorem Description.ofText_written (ds : List (Bool × Description))
    (hfinite : ∀ d ∈ ds, ∀ x ∈ d.2.doubles, x.isFinite)
    (hreads : ∀ d ∈ ds, ∀ x ∈ d.2.doubles, ReadsBack x)
    (hwords : ∀ d ∈ ds, ∀ n ∈ d.2.words, n < UInt64.size) :
    Exchange.ofText (Exchange.compactText (ds.map (·.2))) = .ok (ds.map (·.2)) ∧
      Exchange.ofText (Exchange.indentedText (ds.map (·.2))) = .ok (ds.map (·.2)) ∧
      Exchange.ofText (Json.ofList (fun d => d.2.toJsonAs d.1) ds).compact = .ok (ds.map (·.2)) ∧
      Exchange.ofText (Json.ofList (fun d => d.2.toJsonAs d.1) ds).indented =
        .ok (ds.map (·.2)) := by
  have h : ∀ d ∈ ds, ∀ x ∈ d.2.doubles, Exchangeable x := fun d hd x hx =>
    ⟨hfinite d hd x hx, hreads d hd x hx⟩
  have hcarries := carries_descriptions h hwords
  have hown : Carries Description.maxDepth Exchange.read? (Exchange.write (ds.map (·.2)))
      (ds.map (·.2)) := by
    let plain : List (Bool × Description) := ds.map fun d => (false, d.2)
    have hplain : ∀ d ∈ plain, (∀ x ∈ d.2.doubles, Exchangeable x) ∧
        ∀ n ∈ d.2.words, n < UInt64.size := by
      intro d hd
      obtain ⟨d', hd', rfl⟩ := List.mem_map.1 hd
      exact ⟨h d' hd', hwords d' hd'⟩
    have hwrite : Exchange.write (ds.map (·.2)) = .ofList (fun d => d.2.toJsonAs d.1) plain := by
      change ofList Description.toJson _ = _
      simp only [plain, ofList, List.map_map, Function.comp_def, Description.toJsonAs_false]
    have hvalues : plain.map (·.2) = ds.map (·.2) := List.map_map
    rw [hwrite, ← hvalues]
    exact carries_descriptions (fun d hd => (hplain d hd).1) (fun d hd => (hplain d hd).2)
  exact ⟨Exchange.ofText_compact hown, Exchange.ofText_indented hown,
    Exchange.ofText_compact hcarries, Exchange.ofText_indented hcarries⟩

/-- A description of each kind; the coupling of the last one has its other name. -/
def Description.samples : List (Bool × Description) :=
  [(false, .relaxation ⟨some (.uniform 20.0), some (.perQubit [some 12.5, none]), some [1, 1]⟩),
    (false, .amplitude ⟨.samples [], some [0.0, 0.25], none⟩),
    (false, .random 0.5 .normal (.ofList [("std", 0.01), ("a b", -1.0)]) (some 7) (some [0])),
    (true, .crosstalk ⟨⟨[0.1], [5.0, 5.5], [-0.3, -0.25]⟩⟩)]

/-- Descriptions of every kind are read from their own texts and from those with the other name. -/
theorem Description.ofText_written_samples :
    let ds := Description.samples
    Exchange.ofText (Exchange.compactText (ds.map (·.2))) = .ok (ds.map (·.2)) ∧
      Exchange.ofText (Exchange.indentedText (ds.map (·.2))) = .ok (ds.map (·.2)) ∧
      Exchange.ofText (Json.ofList (fun d => d.2.toJsonAs d.1) ds).compact = .ok (ds.map (·.2)) ∧
      Exchange.ofText (Json.ofList (fun d => d.2.toJsonAs d.1) ds).indented =
        .ok (ds.map (·.2)) :=
  Description.ofText_written Description.samples (by decide +kernel) (by decide +kernel)
    (by decide +kernel)

end PulseNoise
