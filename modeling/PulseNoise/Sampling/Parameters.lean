/-!
# Named parameters

The parameters of a draw: a finite map from names to doubles, listed in the order of the names.
The order is part of the type, so that two maps with the same entries are equal.

* `Parameters.insert` sets one name; a name that is set again keeps its last value.
* `Parameters.get?` looks a name up.
-/

namespace PulseNoise.Sampling

/-- Whether a list of named values has its names in strictly ascending order. -/
def Ascending (entries : List (String × Float)) : Prop :=
  entries.Pairwise fun a b => a.1 < b.1

def insertEntry (name : String) (value : Float) : List (String × Float) → List (String × Float)
  | [] => [(name, value)]
  | e :: rest =>
    if name < e.1 then (name, value) :: e :: rest
    else if name = e.1 then (name, value) :: rest
    else e :: insertEntry name value rest

theorem mem_insertEntry {name : String} {value : Float} {entries : List (String × Float)}
    {e : String × Float} (h : e ∈ insertEntry name value entries) :
    e = (name, value) ∨ e ∈ entries := by
  induction entries with
  | nil => simpa [insertEntry] using h
  | cons x xs ih =>
    simp only [insertEntry] at h
    split at h
    · simpa using h
    · split at h
      · rcases List.mem_cons.1 h with h | h
        · exact .inl h
        · exact .inr (List.mem_cons_of_mem _ h)
      · rcases List.mem_cons.1 h with h | h
        · exact .inr (h ▸ List.mem_cons_self)
        · exact (ih h).imp_right (List.mem_cons_of_mem _)

theorem ascending_insertEntry (name : String) (value : Float) {entries : List (String × Float)}
    (h : Ascending entries) : Ascending (insertEntry name value entries) := by
  induction entries with
  | nil => exact List.pairwise_singleton _ _
  | cons x xs ih =>
    obtain ⟨hx, hxs⟩ := List.pairwise_cons.1 h
    simp only [insertEntry]
    split
    · rename_i hlt
      refine List.pairwise_cons.2 ⟨fun e he => ?_, h⟩
      rcases List.mem_cons.1 he with rfl | he
      · exact hlt
      · exact String.lt_trans hlt (hx e he)
    · rename_i hlt
      split
      · rename_i heq
        exact List.pairwise_cons.2 ⟨fun e he => by simpa [heq] using hx e he, hxs⟩
      · rename_i hne
        refine List.pairwise_cons.2 ⟨fun e he => ?_, ih hxs⟩
        rcases mem_insertEntry he with rfl | he
        · exact Std.lt_of_le_of_ne (String.not_lt.1 hlt) (Ne.symm hne)
        · exact hx e he

/-- Values by name, in the order of the names. -/
structure Parameters where
  entries : List (String × Float)
  ascending : Ascending entries

namespace Parameters

instance : Inhabited Parameters := ⟨⟨[], .nil⟩⟩

def empty : Parameters := ⟨[], .nil⟩

def insert (p : Parameters) (name : String) (value : Float) : Parameters :=
  ⟨insertEntry name value p.entries, ascending_insertEntry name value p.ascending⟩

def ofList (entries : List (String × Float)) : Parameters :=
  entries.foldl (fun p e => p.insert e.1 e.2) empty

def get? (p : Parameters) (name : String) : Option Float :=
  (p.entries.find? (·.1 = name)).map (·.2)

/-- The value of a name, or what stands in for it. -/
def getD (p : Parameters) (name : String) (fallback : Float) : Float := (p.get? name).getD fallback

def contains (p : Parameters) (name : String) : Bool := (p.get? name).isSome

theorem ext {p q : Parameters} (h : p.entries = q.entries) : p = q := by
  cases p
  cases q
  cases h
  rfl

end Parameters

end PulseNoise.Sampling
