import PulseNoise.Json.Parser
import PulseNoise.Proofs.TokenText

/-!
# Reading written values

The text of a JSON value, compact or indented, is read as that value. The grammar and both forms
follow the nesting of the value, so that each part of the proof is an induction over values that
can be read whole.

* `isValue_induction` is this induction.
* `readable_tokens` says that the tokens of a value can be written next to each other, and
  `value?_tokens` that they are read as the value.
* `filterMap_pieces` says that the indented form has the tokens of the value.
* `parse?_compact` and `parse?_indented` put them together.
-/

namespace PulseNoise.Json

/-! ## Induction over values -/

/-- What holds of all scalars with a text, and of a container when it holds of its parts, holds of
every value that can be read whole. -/
theorem isValue_induction {P : Json → Prop} (null : P .null) (bool : ∀ b, P (.bool b))
    (number : ∀ n, P (.number n)) (string : ∀ text, P (.string (some text)))
    (array : ∀ items, (∀ v ∈ items, P v) → P (.array items))
    (object : ∀ fields : List (Option String × Json),
      (∀ field ∈ fields, field.1 ≠ none ∧ P field.2) → P (.object fields))
    {depth : Nat} {v : Json} (h : v.isValue depth) : P v := by
  induction depth using Nat.strongRecOn generalizing v with
  | _ depth ih =>
    cases v with
    | null => exact null
    | bool b => exact bool b
    | number n => exact number n
    | string text =>
      cases text with
      | none => cases depth <;> cases h
      | some text => exact string text
    | array items =>
      cases depth with
      | zero => cases h
      | succ depth =>
        refine array items fun v hv => ih depth (Nat.lt_succ_self depth) ?_
        exact List.all_eq_true.1 h v hv
    | object fields =>
      cases depth with
      | zero => cases h
      | succ depth =>
        refine object fields fun field hfield => ?_
        obtain ⟨hname, hvalue⟩ := Bool.and_eq_true_iff.1 (List.all_eq_true.1 h field hfield)
        exact ⟨Option.isSome_iff_ne_none.1 hname, ih depth (Nat.lt_succ_self depth) hvalue⟩

/-! ## Tokens of values -/

theorem itemTokens_cons_cons (item next : Json) (items : List Json) :
    itemTokens (item :: next :: items) = item.tokens ++ .comma :: itemTokens (next :: items) := rfl

theorem fieldTokens_cons_cons (name : Option String) (value : Json)
    (next : Option String × Json) (fields : List (Option String × Json)) :
    fieldTokens ((name, value) :: next :: fields) =
      .string name :: .colon :: value.tokens ++ .comma :: fieldTokens (next :: fields) := rfl

theorem Readable.cons {t : Token} {ts : List Token} (ht : t.HasText) (hnumber : ¬ t.IsNumber)
    (h : Readable ts) : Readable (t :: ts) :=
  ⟨List.forall_mem_cons.2 ⟨ht, h.hasText⟩,
    List.isChain_cons.2 ⟨fun _ _ hn => absurd hn hnumber, h.separated⟩⟩

/-- Tokens may be followed by others that do not begin with a number. -/
theorem Readable.append {ts ts' : List Token} (h : Readable ts) (h' : Readable ts')
    (hhead : ∀ t ∈ ts'.head?, ¬ t.IsNumber) : Readable (ts ++ ts') :=
  ⟨List.forall_mem_append.2 ⟨h.hasText, h'.hasText⟩,
    List.isChain_append.2 ⟨h.separated, h'.separated, fun _ _ t ht _ => hhead t ht⟩⟩

theorem readable_singleton {t : Token} (ht : t.HasText) : Readable [t] :=
  ⟨List.forall_mem_singleton.2 ht, List.isChain_singleton t⟩

theorem readable_itemTokens {items : List Json} (h : ∀ v ∈ items, Readable v.tokens) :
    Readable (itemTokens items) := by
  induction items with
  | nil => exact ⟨List.forall_mem_nil _, .nil⟩
  | cons item items ih =>
    obtain ⟨hitem, hitems⟩ := List.forall_mem_cons.1 h
    cases items with
    | nil => exact hitem
    | cons next items =>
      rw [itemTokens_cons_cons]
      refine hitem.append ((ih hitems).cons (by simp [Token.HasText]) id) ?_
      rintro t ⟨⟩
      exact id

theorem readable_fieldTokens {fields : List (Option String × Json)}
    (h : ∀ field ∈ fields, field.1 ≠ none ∧ Readable field.2.tokens) :
    Readable (fieldTokens fields) := by
  induction fields with
  | nil => exact ⟨List.forall_mem_nil _, .nil⟩
  | cons field fields ih =>
    obtain ⟨name, value⟩ := field
    obtain ⟨⟨hname, hvalue⟩, hfields⟩ := List.forall_mem_cons.1 h
    have hname : (Token.string name).HasText := fun h => hname (Token.string.inj h)
    cases fields with
    | nil => exact (hvalue.cons (by simp [Token.HasText]) id).cons hname id
    | cons next fields =>
      rw [fieldTokens_cons_cons]
      refine ((hvalue.cons (by simp [Token.HasText]) id).cons hname id).append
        ((ih hfields).cons (by simp [Token.HasText]) id) ?_
      rintro t ⟨⟩
      exact id

/-- The tokens of a container are those of its parts between brackets. -/
theorem Readable.enclosed {ts : List Token} {first last : Token} (h : Readable ts)
    (hfirst : first.HasText) (hlast : last.HasText) (hfirst' : ¬ first.IsNumber)
    (hlast' : ¬ last.IsNumber) : Readable (first :: ts ++ [last]) := by
  refine (h.cons hfirst hfirst').append (readable_singleton hlast) ?_
  rintro t ⟨⟩
  exact hlast'

theorem readable_tokens {depth : Nat} {v : Json} (h : v.isValue depth) : Readable v.tokens := by
  refine isValue_induction (P := fun v => Readable v.tokens) ?_ ?_ ?_ ?_ ?_ ?_ h
  · exact readable_singleton (by simp [Token.HasText])
  · exact fun b => readable_singleton (by simp [Token.HasText])
  · exact fun n => readable_singleton (by simp [Token.HasText])
  · exact fun text => readable_singleton (by simp [Token.HasText])
  · intro items hitems
    exact (readable_itemTokens hitems).enclosed (by simp [Token.HasText]) (by simp [Token.HasText])
      id id
  · intro fields hfields
    exact (readable_fieldTokens hfields).enclosed (by simp [Token.HasText])
      (by simp [Token.HasText]) id id

/-! ## Reading tokens -/

/-- A value is read from its tokens, whatever follows them. -/
def ReadsTokens (v : Json) : Prop :=
  ∀ bound rest, v.tokens.length ≤ bound → value? bound (v.tokens ++ rest) = some (v, rest)

/-- No value begins with a closing bracket. -/
theorem exists_itemTokens_eq_cons (item : Json) (items : List Json) :
    ∃ t ts, itemTokens (item :: items) = t :: ts ∧ t ≠ .arrayEnd := by
  obtain ⟨t, ts, htokens, ht⟩ : ∃ t ts, item.tokens = t :: ts ∧ t ≠ .arrayEnd := by
    cases item <;> exact ⟨_, _, rfl, by simp⟩
  cases items with
  | nil => exact ⟨t, ts, htokens, ht⟩
  | cons next items =>
    rw [itemTokens_cons_cons, htokens]
    exact ⟨t, _, rfl, ht⟩

theorem exists_fieldTokens_eq_cons (field : Option String × Json)
    (fields : List (Option String × Json)) :
    ∃ name ts, fieldTokens (field :: fields) = .string name :: ts := by
  cases fields <;> exact ⟨field.1, _, rfl⟩

theorem value?_arrayStart {t : Token} (ht : t ≠ .arrayEnd) (bound : Nat) (ts : List Token) :
    value? (bound + 1) (.arrayStart :: t :: ts) =
      (items? bound (t :: ts)).map fun r => (.array r.1, r.2) := by
  have hread : value? (bound + 1) (.arrayStart :: t :: ts) =
      (items? bound (t :: ts)).bind fun r => some (.array r.1, r.2) := by
    cases t with
    | arrayEnd => exact absurd rfl ht
    | _ => rfl
  rw [hread]
  cases items? bound (t :: ts) <;> rfl

theorem items?_itemTokens {items : List Json} (h : ∀ v ∈ items, ReadsTokens v) (hne : items ≠ [])
    {bound : Nat} (hbound : (itemTokens items).length < bound) (rest : List Token) :
    items? bound (itemTokens items ++ .arrayEnd :: rest) = some (items, rest) := by
  induction items generalizing bound with
  | nil => exact absurd rfl hne
  | cons item items ih =>
    obtain ⟨hitem, hitems⟩ := List.forall_mem_cons.1 h
    cases bound with
    | zero => cases hbound
    | succ bound =>
      cases items with
      | nil =>
        have hbound : item.tokens.length ≤ bound := Nat.le_of_lt_succ hbound
        change (value? bound (item.tokens ++ .arrayEnd :: rest)).bind _ = _
        rw [hitem bound _ hbound]
        rfl
      | cons next items =>
        rw [itemTokens_cons_cons, List.length_append, List.length_cons] at hbound
        rw [itemTokens_cons_cons, List.append_assoc, List.cons_append]
        change (value? bound (item.tokens ++ _)).bind _ = _
        rw [hitem bound _ (by omega)]
        change (items? bound _).bind _ = _
        rw [ih hitems (by simp) (by omega)]
        rfl

theorem fields?_fieldTokens {fields : List (Option String × Json)}
    (h : ∀ field ∈ fields, ReadsTokens field.2) (hne : fields ≠ []) {bound : Nat}
    (hbound : (fieldTokens fields).length < bound) (rest : List Token) :
    fields? bound (fieldTokens fields ++ .objectEnd :: rest) = some (fields, rest) := by
  induction fields generalizing bound with
  | nil => exact absurd rfl hne
  | cons field fields ih =>
    obtain ⟨name, value⟩ := field
    obtain ⟨hvalue, hfields⟩ := List.forall_mem_cons.1 h
    have hvalue : ReadsTokens value := hvalue
    cases bound with
    | zero => cases hbound
    | succ bound =>
      cases fields with
      | nil =>
        have hbound : value.tokens.length + 2 ≤ bound := Nat.le_of_lt_succ hbound
        change (value? bound (value.tokens ++ .objectEnd :: rest)).bind _ = _
        rw [hvalue bound _ (by omega)]
        rfl
      | cons next fields =>
        rw [fieldTokens_cons_cons, List.length_append, List.length_cons, List.length_cons,
          List.length_cons] at hbound
        rw [fieldTokens_cons_cons, List.append_assoc, List.cons_append, List.cons_append,
          List.cons_append]
        change (value? bound (value.tokens ++ _)).bind _ = _
        rw [hvalue bound _ (by omega)]
        change (fields? bound _).bind _ = _
        rw [ih hfields (by simp) (by omega)]
        rfl

theorem value?_tokens {depth : Nat} {v : Json} (h : v.isValue depth) : ReadsTokens v := by
  have hscalar {t : Token} {v : Json} (htokens : v.tokens = [t])
      (hread : ∀ bound rest, value? (bound + 1) (t :: rest) = some (v, rest)) : ReadsTokens v := by
    intro bound rest hbound
    rw [htokens] at hbound ⊢
    cases bound with
    | zero => cases hbound
    | succ bound => exact hread bound rest
  refine isValue_induction ?_ ?_ ?_ ?_ ?_ ?_ h
  · exact hscalar rfl fun _ _ => rfl
  · exact fun b => hscalar rfl fun _ _ => rfl
  · exact fun n => hscalar rfl fun _ _ => rfl
  · exact fun text => hscalar rfl fun _ _ => rfl
  · intro items hitems bound rest hbound
    change (itemTokens items ++ [Token.arrayEnd]).length + 1 ≤ bound at hbound
    rw [List.length_append, List.length_singleton] at hbound
    cases bound with
    | zero => omega
    | succ bound =>
      change value? (bound + 1) (.arrayStart :: (itemTokens items ++ [.arrayEnd] ++ rest)) = _
      rw [List.append_assoc, List.singleton_append]
      cases items with
      | nil => rfl
      | cons item items =>
        have hread := items?_itemTokens hitems (by simp) (Nat.lt_of_succ_lt_succ hbound) rest
        obtain ⟨t, ts, htokens, ht⟩ := exists_itemTokens_eq_cons item items
        rw [htokens, List.cons_append] at hread ⊢
        rw [value?_arrayStart ht, hread]
        rfl
  · intro fields hfields bound rest hbound
    change (fieldTokens fields ++ [Token.objectEnd]).length + 1 ≤ bound at hbound
    rw [List.length_append, List.length_singleton] at hbound
    cases bound with
    | zero => omega
    | succ bound =>
      change value? (bound + 1) (.objectStart :: (fieldTokens fields ++ [.objectEnd] ++ rest)) = _
      rw [List.append_assoc, List.singleton_append]
      cases fields with
      | nil => rfl
      | cons field fields =>
        have hread := fields?_fieldTokens (fun field hfield => (hfields field hfield).2) (by simp)
          (Nat.lt_of_succ_lt_succ hbound) rest
        obtain ⟨name, ts, htokens⟩ := exists_fieldTokens_eq_cons field fields
        rw [htokens, List.cons_append] at hread ⊢
        change (fields? bound _).bind _ = _
        rw [hread]
        rfl

/-! ## Indented form -/

theorem itemPieces_cons_cons (level : Nat) (item next : Json) (items : List Json) :
    itemPieces level (item :: next :: items) =
      .line level :: pieces level item ++ .token .comma :: itemPieces level (next :: items) := rfl

theorem fieldPieces_cons_cons (level : Nat) (name : Option String) (value : Json)
    (next : Option String × Json) (fields : List (Option String × Json)) :
    fieldPieces level ((name, value) :: next :: fields) =
      .line level :: .token (.string name) :: .token .colon :: .blank :: pieces level value
        ++ .token .comma :: fieldPieces level (next :: fields) := rfl

theorem filterMap_itemPieces {items : List Json}
    (h : ∀ v ∈ items, ∀ level, (pieces level v).filterMap Piece.token? = v.tokens) (level : Nat) :
    (itemPieces level items).filterMap Piece.token? = itemTokens items := by
  induction items with
  | nil => rfl
  | cons item items ih =>
    obtain ⟨hitem, hitems⟩ := List.forall_mem_cons.1 h
    cases items with
    | nil => exact hitem level
    | cons next items =>
      rw [itemPieces_cons_cons, itemTokens_cons_cons, List.filterMap_append, ← ih hitems,
        ← hitem level]
      rfl

theorem filterMap_fieldPieces {fields : List (Option String × Json)}
    (h : ∀ field ∈ fields, ∀ level,
      (pieces level field.2).filterMap Piece.token? = field.2.tokens) (level : Nat) :
    (fieldPieces level fields).filterMap Piece.token? = fieldTokens fields := by
  induction fields with
  | nil => rfl
  | cons field fields ih =>
    obtain ⟨name, value⟩ := field
    obtain ⟨hvalue, hfields⟩ := List.forall_mem_cons.1 h
    have hvalue : (pieces level value).filterMap Piece.token? = value.tokens := hvalue level
    cases fields with
    | nil =>
      change Token.string name :: Token.colon :: (pieces level value).filterMap Piece.token? = _
      rw [hvalue]
      rfl
    | cons next fields =>
      rw [fieldPieces_cons_cons, fieldTokens_cons_cons, List.filterMap_append, ← ih hfields,
        ← hvalue]
      rfl

/-- Lines and blanks apart, the indented form has the tokens of the value. -/
theorem filterMap_pieces {depth : Nat} {v : Json} (h : v.isValue depth) (level : Nat) :
    (pieces level v).filterMap Piece.token? = v.tokens := by
  refine isValue_induction (P := fun v => ∀ level,
    (pieces level v).filterMap Piece.token? = v.tokens) ?_ ?_ ?_ ?_ ?_ ?_ h level
  · exact fun level => rfl
  · exact fun b level => rfl
  · exact fun n level => rfl
  · exact fun text level => rfl
  · intro items hitems level
    cases items with
    | nil => rfl
    | cons item items =>
      change Token.arrayStart :: (itemPieces (level + 1) (item :: items)
        ++ [Piece.line level, Piece.token .arrayEnd]).filterMap Piece.token? = _
      rw [List.filterMap_append, filterMap_itemPieces hitems]
      rfl
  · intro fields hfields level
    cases fields with
    | nil => rfl
    | cons field fields =>
      change Token.objectStart :: (fieldPieces (level + 1) (field :: fields)
        ++ [Piece.line level, Piece.token .objectEnd]).filterMap Piece.token? = _
      rw [List.filterMap_append, filterMap_fieldPieces fun field hfield => (hfields field hfield).2]
      rfl

/-! ## Texts -/

theorem ofTokens?_tokens {depth : Nat} {v : Json} (h : v.isValue depth) :
    ofTokens? v.tokens = some v := by
  have hread := value?_tokens h v.tokens.length [] (Nat.le_refl _)
  rw [List.append_nil] at hread
  rw [ofTokens?, hread]

/-- A text of pieces with the tokens of a value is read as the value. -/
theorem parse?_pieces {depth : Nat} {v : Json} (h : v.isValue depth) {ps : List Piece}
    (hps : ps.filterMap Piece.token? = v.tokens) :
    parse? (String.join (ps.map (·.text))) = some v := by
  have hlex := lex_pieces (hps ▸ readable_tokens h)
  rw [parse?, hlex, hps]
  exact ofTokens?_tokens h

/-- A value that is written in the compact form is read back. -/
theorem parse?_compact {depth : Nat} {v : Json} (h : v.isValue depth) :
    parse? v.compact = some v := by
  have hps : (v.tokens.map Piece.token).filterMap Piece.token? = v.tokens := by
    rw [List.filterMap_map]
    exact List.filterMap_some
  have hread := parse?_pieces h hps
  rwa [List.map_map] at hread

/-- A value that is written in the indented form is read back. -/
theorem parse?_indented {depth : Nat} {v : Json} (h : v.isValue depth) :
    parse? v.indented = some v :=
  parse?_pieces h (filterMap_pieces h 0)

end PulseNoise.Json
