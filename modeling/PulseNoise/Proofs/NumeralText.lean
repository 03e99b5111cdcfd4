import PulseNoise.Json.Token

/-!
# Reading written numerals

A numeral keeps its spelling, so that reading its text gives back the numeral and not only its
value. The text of a numeral does not say where it ends: what follows it must not begin with a
character that would be read as a part of it.

* `Json.EndsNumber` holds of what may follow a number.
* `Json.numeral?_text` says that a written numeral is read back, up to what follows it.
-/

namespace PulseNoise.Json

open Number

/-- What may follow a number: it does not begin with a digit, a point or the letter of a power. -/
def EndsNumber (rest : List Char) : Prop :=
  ∀ c ∈ rest.head?, digitValue? c = none ∧ c ≠ '.' ∧ c ≠ 'e' ∧ c ≠ 'E'

/-- What may follow digits. -/
def EndsDigits (rest : List Char) : Prop := ∀ c ∈ rest.head?, digitValue? c = none

theorem EndsNumber.endsDigits {rest : List Char} (h : EndsNumber rest) : EndsDigits rest :=
  fun c hc => (h c hc).1

/-- Whether a text may follow a number is seen at its first character. -/
theorem endsNumber_cons {c : Char} (cs : List Char)
    (h : digitValue? c = none ∧ c ≠ '.' ∧ c ≠ 'e' ∧ c ≠ 'E') : EndsNumber (c :: cs) := by
  intro c' hc'
  obtain rfl : c = c' := Option.some.inj hc'
  exact h

/-! ## Digits -/

theorem digitValue?_digitChar : ∀ d : Fin 10, digitValue? (Numeral.digitChar d) = some d := by
  decide

theorem natDigitChar_eq : ∀ d : Fin 10, Nat.digitChar d.val = Numeral.digitChar d := by
  decide

theorem takeDigits_append (ds : List (Fin 10)) {rest : List Char} (h : EndsDigits rest) :
    takeDigits (ds.map Numeral.digitChar ++ rest) = (ds, rest) := by
  induction ds with
  | nil =>
    cases rest with
    | nil => rfl
    | cons c rest =>
      have hc : digitValue? c = none := h c rfl
      simp [takeDigits, hc]
  | cons d ds ih =>
    rw [List.map_cons, List.cons_append]
    simp only [takeDigits, digitValue?_digitChar, ih]

theorem ofDigits_concat (ds : List (Fin 10)) (d : Fin 10) :
    ofDigits (ds ++ [d]) = 10 * ofDigits ds + d.val := by
  simp [ofDigits]

/-- The digits of a number as they are written: they count the number, there is at least one, and
the first is zero only by itself. -/
theorem exists_digits (n : Nat) : ∃ ds : List (Fin 10),
    Nat.toDigits 10 n = ds.map Numeral.digitChar ∧ ofDigits ds = n ∧ ds ≠ [] ∧
      ∀ d ds', ds ≠ 0 :: d :: ds' := by
  induction n using Nat.strongRecOn with
  | ind n ih =>
    by_cases hn : n < 10
    · refine ⟨[⟨n, hn⟩], ?_, by simp [ofDigits], by simp, by simp⟩
      rw [Nat.toDigits_of_lt_base hn, List.map_singleton, ← natDigitChar_eq]
    · obtain ⟨ds, htext, hvalue, hne, hlead⟩ := ih (n / 10) (by omega)
      refine ⟨ds ++ [Numeral.lastDigit n], ?_, ?_, by simp, ?_⟩
      · rw [Nat.toDigits_of_base_le (by decide) (by omega), htext, List.map_append,
          List.map_singleton, ← natDigitChar_eq]
        rfl
      · rw [ofDigits_concat, hvalue]
        exact Nat.div_add_mod n 10
      · intro d ds' h
        cases ds with
        | nil => exact hne rfl
        | cons first others =>
          cases others with
          | nil =>
            -- a single zero would be the number zero
            rw [List.cons_append, List.cons.injEq] at h
            rw [h.1] at hvalue
            simp only [ofDigits, List.foldl_cons, List.foldl_nil] at hvalue
            simp at hvalue
            omega
          | cons second others =>
            rw [List.cons_append, List.cons.injEq] at h
            exact hlead second others (by rw [h.1])

/-! ## Parts of a number -/

theorem whole?_toDigits (n : Nat) {rest : List Char} (h : EndsDigits rest) :
    whole? (Nat.toDigits 10 n ++ rest) = some (n, rest) := by
  obtain ⟨ds, htext, hvalue, hne, hlead⟩ := exists_digits n
  rw [whole?, htext, takeDigits_append ds h]
  split
  · rename_i heq
    exact absurd (Prod.mk.inj heq).1 hne
  · rename_i heq
    exact absurd (Prod.mk.inj heq).1 (hlead _ _)
  · rename_i heq
    obtain ⟨rfl, rfl⟩ := Prod.mk.inj heq
    rw [hvalue]

/-- The written fraction of a numeral. -/
def fractionChars (ds : List (Fin 10)) : List Char :=
  if ds.isEmpty then [] else '.' :: ds.map Numeral.digitChar

theorem fraction?_fractionChars (ds : List (Fin 10)) {rest : List Char} (h : EndsDigits rest)
    (hpoint : '.' ∉ rest.head?) : fraction? (fractionChars ds ++ rest) = some (ds, rest) := by
  cases ds with
  | nil =>
    change fraction? rest = _
    cases rest with
    | nil => rfl
    | cons c rest =>
      have hc : c ≠ '.' := fun hc => hpoint (by rw [hc]; rfl)
      unfold fraction?
      split
      · rename_i heq
        exact absurd (List.cons.inj heq).1 hc
      · rfl
  | cons d ds =>
    change fraction? ('.' :: ((d :: ds).map Numeral.digitChar ++ rest)) = _
    rw [fraction?, takeDigits_append (d :: ds) h]

theorem powerDigits?_toDigits (negative : Bool) (n : Nat) {rest : List Char}
    (h : EndsDigits rest) :
    powerDigits? negative (Nat.toDigits 10 n ++ rest) =
      some (some (if negative then -(n : Int) else n), rest) := by
  obtain ⟨ds, htext, hvalue, hne, -⟩ := exists_digits n
  rw [powerDigits?, htext, takeDigits_append ds h]
  split
  · rename_i heq
    exact absurd (Prod.mk.inj heq).1 hne
  · rename_i heq
    obtain ⟨rfl, rfl⟩ := Prod.mk.inj heq
    rw [hvalue]

/-- The written power of a numeral. -/
def powerChars (plus : Bool) : Option Int → List Char
  | none => []
  | some e => 'e' :: (Numeral.powerText plus e).toList

/-- Digits begin with a character that is no sign. -/
theorem exists_toDigits_eq_cons (n : Nat) :
    ∃ c cs, Nat.toDigits 10 n = c :: cs ∧ c ≠ '+' ∧ c ≠ '-' := by
  have hsign : ∀ d : Fin 10, Numeral.digitChar d ≠ '+' ∧ Numeral.digitChar d ≠ '-' := by decide
  obtain ⟨ds, htext, -, hne, -⟩ := exists_digits n
  cases ds with
  | nil => exact absurd rfl hne
  | cons d ds => exact ⟨_, _, htext, hsign d⟩

theorem power?_plus (cs : List Char) : power? ('e' :: '+' :: cs) = powerDigits? false cs := rfl

theorem power?_minus (cs : List Char) : power? ('e' :: '-' :: cs) = powerDigits? true cs := rfl

theorem power?_plain {c : Char} (hplus : c ≠ '+') (hminus : c ≠ '-') (cs : List Char) :
    power? ('e' :: c :: cs) = powerDigits? false (c :: cs) := by
  rw [power?, if_pos (by decide)]
  · exact fun _ heq => hplus (List.cons.inj heq).1
  · exact fun _ heq => hminus (List.cons.inj heq).1

theorem power?_powerChars (plus : Bool) (power : Option Int) {rest : List Char}
    (h : EndsNumber rest) : power? (powerChars plus power ++ rest) = some (power, rest) := by
  cases power with
  | none =>
    change power? rest = _
    cases rest with
    | nil => rfl
    | cons c rest =>
      obtain ⟨-, -, he, hE⟩ := h c rfl
      have hletter : ¬ (c = 'e' || c = 'E') = true := by simp [he, hE]
      exact if_neg hletter
  | some e =>
    change power? ('e' :: ((Numeral.powerText plus e).toList ++ rest)) = _
    have hdigits (negative : Bool) := powerDigits?_toDigits negative e.natAbs h.endsDigits
    unfold Numeral.powerText
    by_cases hneg : e < 0
    · simp only [if_pos hneg, String.toList_append, toString, Nat.toList_repr]
      change power? ('e' :: '-' :: (Nat.toDigits 10 e.natAbs ++ rest)) = _
      rw [power?_minus, hdigits true, if_pos rfl, show -(e.natAbs : Int) = e by omega]
    · have hpos : (e.natAbs : Int) = e := by omega
      have hdigits : powerDigits? false (Nat.toDigits 10 e.natAbs ++ rest) =
          some (some e, rest) := by
        rw [hdigits false, if_neg (by decide), hpos]
      simp only [if_neg hneg, String.toList_append, toString, Nat.toList_repr]
      cases plus with
      | true =>
        change power? ('e' :: '+' :: (Nat.toDigits 10 e.natAbs ++ rest)) = _
        rw [power?_plus, hdigits]
      | false =>
        obtain ⟨c, cs, htext, hplus, hminus⟩ := exists_toDigits_eq_cons e.natAbs
        simp only [Bool.false_eq_true, if_false, String.toList_empty, List.nil_append]
        rw [htext, List.cons_append] at hdigits ⊢
        rw [power?_plain hplus hminus, hdigits]

/-! ## Numbers -/

theorem toList_text (plus : Bool) (n : Numeral) :
    (n.text plus).toList = (if n.negative then ['-'] else [])
      ++ (Nat.toDigits 10 n.whole ++ (fractionChars n.fraction ++ powerChars plus n.power)) := by
  obtain ⟨negative, whole, fraction, power⟩ := n
  unfold Numeral.text fractionChars powerChars
  cases negative <;> cases fraction <;> cases power <;>
    simp [String.toList_append, toString, Nat.toList_repr]

theorem unsigned?_chars (negative plus : Bool) (whole : Nat) (fraction : List (Fin 10))
    (power : Option Int) {rest : List Char} (h : EndsNumber rest) :
    unsigned? negative (Nat.toDigits 10 whole
        ++ (fractionChars fraction ++ (powerChars plus power ++ rest))) =
      some (⟨negative, whole, fraction, power⟩, rest) := by
  have hpower : EndsDigits (powerChars plus power ++ rest) ∧
      '.' ∉ (powerChars plus power ++ rest).head? := by
    cases power with
    | none => exact ⟨h.endsDigits, fun hpoint => (h '.' hpoint).2.1 rfl⟩
    | some e =>
      refine ⟨fun c hc => ?_, fun hpoint => ?_⟩
      · obtain rfl : 'e' = c := Option.some.inj hc
        decide
      · cases hpoint
  have hfraction : EndsDigits (fractionChars fraction ++ (powerChars plus power ++ rest)) := by
    cases fraction with
    | nil => exact hpower.1
    | cons d ds =>
      intro c hc
      obtain rfl : '.' = c := Option.some.inj hc
      decide
  unfold unsigned?
  rw [whole?_toDigits whole hfraction]
  simp only [Option.bind_eq_bind, Option.bind_some,
    fraction?_fractionChars fraction hpower.1 hpower.2, power?_powerChars plus power h]
  rfl

/-- A written number is read back, with its spelling. -/
theorem numeral?_text (plus : Bool) (n : Numeral) {rest : List Char} (h : EndsNumber rest) :
    numeral? ((n.text plus).toList ++ rest) = some (n, rest) := by
  obtain ⟨negative, whole, fraction, power⟩ := n
  have hunsigned := unsigned?_chars negative plus whole fraction power h
  rw [toList_text]
  simp only [List.append_assoc]
  cases negative with
  | true => exact hunsigned
  | false =>
    obtain ⟨c, cs, htext, -, hminus⟩ := exists_toDigits_eq_cons whole
    change numeral? (Nat.toDigits 10 whole ++ _) = _
    rw [htext, List.cons_append] at hunsigned ⊢
    unfold numeral?
    split
    · rename_i heq
      exact absurd (List.cons.inj heq).1 hminus
    · exact hunsigned

end PulseNoise.Json
