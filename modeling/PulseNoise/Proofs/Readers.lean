import PulseNoise.Json.Reader
import PulseNoise.Proofs.JsonText
import PulseNoise.Proofs.WordRange

/-!
# Reading back what is written

A written value is read back by the reader of its type. The rules follow the writers: words and
doubles, lists, optional values and the fields of a structure. A double is read back when the
number that is written for it is read as that double, which is asked of each double on its own:
the reader rounds more than once and may miss a double by its last bit.

* `Number.ReadsBack` is this property of a double.
* `Carries k read v a` says that `v` can be read whole and that `read` takes it for `a`.
* `record?_ofFields` says that the fields of a structure are found, those that were left out
  included.
-/

namespace PulseNoise

/-- The number that is written for a double is read as the double. -/
def Number.ReadsBack (x : Float) : Prop := (Layout.data.numeral x).toFloat? = some x

instance (x : Float) : Decidable (Number.ReadsBack x) :=
  inferInstanceAs (Decidable (_ = _))

namespace Json

open Number

/-- A value that can be read whole, with so many containers nested at most, and that a reader takes
for `a`. -/
structure Carries {α : Type} (k : Nat) (read : Json → Option α) (v : Json) (a : α) : Prop where
  isValue : v.isValue k
  read_eq : read v = some a

variable {α β : Type} {k : Nat} {read : Json → Option α}

theorem Carries.map {v : Json} {a : α} (h : Carries k read v a) (f : α → β) :
    Carries k (fun v => f <$> read v) v (f a) :=
  ⟨h.isValue, by simp [h.read_eq]⟩

/-- Readers that agree on a value take it for the same. -/
theorem Carries.congr {v : Json} {a : α} (h : Carries k read v a) {read' : Json → Option α}
    (heq : read' v = read v) : Carries k read' v a :=
  ⟨h.isValue, heq.trans h.read_eq⟩

/-! ## Numbers and words -/

theorem carries_ofNat {n : Nat} (hn : n < UInt64.size) :
    Carries k (·.natural?) (.ofNat n) n := by
  refine ⟨?_, ?_⟩
  · cases k <;> exact isSome_toFloat?_ofNat hn
  · exact if_pos (by simp [Numeral.ofNat, hn])

theorem carries_ofFloat {x : Float} (hfinite : x.isFinite) (hreads : ReadsBack x) :
    Carries k (·.float?) (.ofFloat x) x := by
  have hwrite : ofFloat x = .number (Layout.data.numeral x) := if_pos hfinite
  rw [hwrite]
  refine ⟨?_, hreads⟩
  have hrange : (Layout.data.numeral x).toFloat?.isSome := by rw [hreads]; rfl
  cases k <;> exact hrange

theorem carries_ofText (text : String) : Carries k (·.word?) (.ofText text) text := by
  refine ⟨?_, rfl⟩
  cases k <;> rfl

theorem carries_bool (b : Bool) : Carries k (·.bool?) (.bool b) b := by
  refine ⟨?_, rfl⟩
  cases k <;> rfl

/-! ## Lists and optional values -/

theorem mapM_map_eq_some {γ : Type} {write : γ → β} {read : β → Option α} {value : γ → α}
    {xs : List γ} (h : ∀ x ∈ xs, read (write x) = some (value x)) :
    (xs.map write).mapM read = some (xs.map value) := by
  induction xs with
  | nil => rfl
  | cons x xs ih =>
    obtain ⟨hx, hxs⟩ := List.forall_mem_cons.1 h
    rw [List.map_cons, List.mapM_cons, hx, ih hxs]
    rfl

/-- A list is read back item by item. -/
theorem carries_ofList_map {write : β → Json} {value : β → α} {xs : List β}
    (h : ∀ x ∈ xs, Carries k read (write x) (value x)) :
    Carries (k + 1) (·.list? read) (.ofList write xs) (xs.map value) := by
  refine ⟨List.all_eq_true.2 fun v hv => ?_, mapM_map_eq_some fun x hx => (h x hx).read_eq⟩
  obtain ⟨x, hx, rfl⟩ := List.mem_map.1 hv
  exact (h x hx).isValue

theorem carries_ofList {write : α → Json} {xs : List α}
    (h : ∀ x ∈ xs, Carries k read (write x) x) :
    Carries (k + 1) (·.list? read) (.ofList write xs) xs := by
  have hmap : Carries (k + 1) (·.list? read) (.ofList write xs) (xs.map id) :=
    carries_ofList_map h
  rwa [List.map_id] at hmap

/-- An absent value is written as `null`, which must not be the form of a present one. -/
theorem carries_ofOption {write : α → Json} {a : Option α} (hnull : read .null = none)
    (h : ∀ x, a = some x → Carries k read (write x) x) :
    Carries k (·.optional? read) (.ofOption write a) a := by
  cases a with
  | none =>
    refine ⟨?_, rfl⟩
    cases k <;> rfl
  | some x =>
    obtain ⟨hvalue, hread⟩ := h x rfl
    refine ⟨hvalue, ?_⟩
    change (write x).optional? read = some (some x)
    unfold optional?
    split
    · rename_i heq
      rw [heq, hnull] at hread
      cases hread
    · rw [hread]
      rfl

/-! ## Fields -/

/-- The fields of a structure as they are written: under which name, for which rule, and the value,
if it is not left out. -/
structure FieldEntry where
  rule : FieldRule
  name : String
  value : Option Json

/-- The fields that are not left out. -/
def presentFields (entries : List FieldEntry) : List (String × Json) :=
  entries.filterMap fun entry => entry.value.map (entry.name, ·)

/-- Every field has a name of its own rule and of no other. -/
structure Matching (entries : List FieldEntry) : Prop where
  own : ∀ entry ∈ entries, entry.name ∈ entry.rule.names
  others : entries.Pairwise fun entry entry' =>
    entry.name ∉ entry'.rule.names ∧ entry'.name ∉ entry.rule.names

/-- The fields as they stand in the value of an object. -/
def objectFields (entries : List FieldEntry) : List (Option String × Json) :=
  (presentFields entries).map fun (name, value) => (some name, value)

theorem objectFields_append (before after : List FieldEntry) :
    objectFields (before ++ after) = objectFields before ++ objectFields after := by
  rw [objectFields, presentFields, List.filterMap_append, List.map_append]
  rfl

theorem exists_of_mem_objectFields {entries : List FieldEntry} {field : Option String × Json}
    (h : field ∈ objectFields entries) :
    ∃ entry ∈ entries, field.1 = some entry.name ∧ entry.value = some field.2 := by
  obtain ⟨⟨name, value⟩, hpresent, rfl⟩ := List.mem_map.1 h
  obtain ⟨entry, hmem, hentry⟩ := List.mem_filterMap.1 hpresent
  cases hvalue : entry.value with
  | none =>
    rw [hvalue] at hentry
    cases hentry
  | some v =>
    rw [hvalue] at hentry
    cases hentry
    exact ⟨entry, hmem, rfl, hvalue⟩

/-- The values of the fields that are not left out can be read whole. -/
def AllValues (k : Nat) (entries : List FieldEntry) : Prop :=
  ∀ entry ∈ entries, ∀ v, entry.value = some v → v.isValue k

theorem AllValues.nil : AllValues k [] := List.forall_mem_nil _

theorem AllValues.cons {entry : FieldEntry} {entries : List FieldEntry}
    (hentry : ∀ v, entry.value = some v → v.isValue k) (h : AllValues k entries) :
    AllValues k (entry :: entries) :=
  List.forall_mem_cons.2 ⟨hentry, h⟩

theorem AllValues.present {rule : FieldRule} {name : String} {v : Json} {entries : List FieldEntry}
    (hv : v.isValue k) (h : AllValues k entries) : AllValues k (⟨rule, name, some v⟩ :: entries) :=
  h.cons fun v' hv' => by
    obtain rfl : v = v' := Option.some.inj hv'
    exact hv

theorem isValue_ofFields {entries : List FieldEntry} (h : AllValues k entries) :
    isValue (k + 1) (.ofFields (presentFields entries)) := by
  refine List.all_eq_true.2 fun field hfield => ?_
  obtain ⟨entry, hmem, hname, hvalue⟩ := exists_of_mem_objectFields hfield
  rw [hname]
  exact h entry hmem field.2 hvalue

/-- Fields of other rules are passed over. -/
theorem filter_objectFields_eq_nil {entries : List FieldEntry} {rule : FieldRule}
    (h : ∀ entry ∈ entries, entry.name ∉ rule.names) :
    (objectFields entries).filter (fun field => field.1.any (rule.names.contains ·)) = [] := by
  refine List.filter_eq_nil_iff.2 fun field hfield => ?_
  obtain ⟨entry, hmem, hname, -⟩ := exists_of_mem_objectFields hfield
  simpa [hname] using h entry hmem

theorem field?_objectFields {entries : List FieldEntry} (h : Matching entries) {entry : FieldEntry}
    (hmem : entry ∈ entries) : field? (objectFields entries) entry.rule = some entry.value := by
  obtain ⟨before, after, rfl⟩ := List.append_of_mem hmem
  have hown : entry.name ∈ entry.rule.names := h.own entry hmem
  obtain ⟨-, hafter, hcross⟩ := List.pairwise_append.1 h.others
  obtain ⟨hlater, -⟩ := List.pairwise_cons.1 hafter
  have hbefore : ∀ other ∈ before, other.name ∉ entry.rule.names := fun other hother =>
    (hcross other hother entry List.mem_cons_self).1
  have hbehind : ∀ other ∈ after, other.name ∉ entry.rule.names := fun other hother =>
    (hlater other hother).2
  have hfields : objectFields (before ++ entry :: after) =
      objectFields before ++ (objectFields [entry] ++ objectFields after) := by
    rw [objectFields_append, ← objectFields_append [entry]]
    rfl
  unfold field?
  rw [hfields, List.filter_append, List.filter_append, filter_objectFields_eq_nil hbefore,
    filter_objectFields_eq_nil hbehind, List.nil_append, List.append_nil]
  cases hvalue : entry.value with
  | none => simp [objectFields, presentFields, hvalue]
  | some v => simp [objectFields, presentFields, hvalue, hown]

/-- The fields of a structure are found, in the order of the rules. -/
theorem record?_ofFields {entries : List FieldEntry} (h : Matching entries) :
    record? (entries.map (·.rule)) (.ofFields (presentFields entries)) =
      some (entries.map (·.value)) := by
  have hnamed : (objectFields entries).all (·.1.isSome) = true := by
    refine List.all_eq_true.2 fun field hfield => ?_
    obtain ⟨entry, -, hname, -⟩ := exists_of_mem_objectFields hfield
    rw [hname]
    rfl
  have hfound (part : List FieldEntry) (hsome : ∀ entry ∈ part, entry ∈ entries) :
      (part.map (·.rule)).mapM (field? (objectFields entries)) = some (part.map (·.value)) := by
    induction part with
    | nil => rfl
    | cons entry part ih =>
      obtain ⟨hentry, hsome⟩ := List.forall_mem_cons.1 hsome
      rw [List.map_cons, List.mapM_cons, field?_objectFields h hentry, ih hsome]
      rfl
  change (if (objectFields entries).all (·.1.isSome) then _ else none) = _
  rw [if_pos hnamed]
  exact hfound entries fun _ => id

end Json

end PulseNoise
