import PulseNoise.Json.Printer
import PulseNoise.Proofs.NumeralText
import Mathlib.Data.List.Chain
import Mathlib.Data.List.Forall2

/-!
# Reading written tokens

A text that is written piece by piece is cut into the tokens of its pieces. Strings are undone
character by character: every escape names the character that it stands for, and no written string
names half of a surrogate pair. Numbers are the only tokens whose texts do not say where they end,
so two of them must not follow each other.

* `spell_escaped` and `combine_of_spells` say that a written string is read back.
* `Token.token?_text` says that a written token is read back, up to what follows it.
* `lex_pieces` says that pieces are cut into their tokens.
-/

namespace PulseNoise.Json

open Number

/-! ## Strings -/

/-- How a character may stand in the parts of a string: by itself, or by its number when it is a
control character. -/
def Part.Spells (p : Part) (c : Char) : Prop := p = .char c ∨ p = .unit c.toNat ∧ c.toNat < 32

theorem hexValue?_hexDigit : ∀ d : Fin 16, hexValue? (hexDigit d.val) = some d.val := by
  decide

/-- The two last digits of an escape give the number of a control character. -/
theorem unit?_control {n : Nat} (h : n < 32) :
    unit? '0' '0' (hexDigit (n / 16)) (hexDigit (n % 16)) = some n := by
  have hhigh := hexValue?_hexDigit ⟨n / 16, by omega⟩
  have hlow := hexValue?_hexDigit ⟨n % 16, by omega⟩
  have hzero : hexValue? '0' = some 0 := by decide
  simp only [unit?, hzero, hhigh, hlow, Option.bind_eq_bind, Option.bind_some]
  exact congrArg some (by omega)

theorem spell_plain {c : Char} (hquote : c ≠ '"') (hslash : c ≠ '\\') (h : ¬ c.toNat < 32)
    (rest : List Char) :
    spell (c :: rest) = (spell rest).map fun r => (.char c :: r.1, r.2) := by
  rw [spell.eq_def]
  split
  · rename_i heq
    cases heq
  · rename_i heq
    exact absurd (List.cons.inj heq).1 hquote
  · rename_i heq
    exact absurd (List.cons.inj heq).1 hslash
  · rename_i heq
    exact absurd (List.cons.inj heq).1 hslash
  · rename_i heq
    obtain ⟨rfl, rfl⟩ := List.cons.inj heq
    rw [if_neg (by simp [hslash, h])]
    cases spell rest <;> rfl

theorem spell_short {e c : Char} (he : escaped? e = some c) (rest : List Char) :
    spell ('\\' :: e :: rest) = (spell rest).map fun r => (.char c :: r.1, r.2) := by
  have hu : e ≠ 'u' := by
    rintro rfl
    cases he
  rw [spell.eq_def]
  split
  · rename_i heq
    cases heq
  · rename_i heq
    exact absurd (List.cons.inj heq).1 (by decide)
  · rename_i heq
    exact absurd (List.cons.inj (List.cons.inj heq).2).1 hu
  · rename_i heq
    obtain ⟨rfl, rfl⟩ := List.cons.inj (List.cons.inj heq).2
    rw [he]
    cases spell rest <;> rfl
  · rename_i hshort heq
    exact absurd (List.cons.inj heq).1.symm fun h => hshort e rest h (List.cons.inj heq).2.symm

/-- The three ways of writing a character: by a letter, by its number, and as it is. -/
inductive Escapes (c : Char) : List Char → Prop
  | short {e : Char} (he : escaped? e = some c) : Escapes c ['\\', e]
  | control (h : c.toNat < 32) :
      Escapes c ['\\', 'u', '0', '0', hexDigit (c.toNat / 16), hexDigit (c.toNat % 16)]
  | plain (hquote : c ≠ '"') (hslash : c ≠ '\\') (h : ¬ c.toNat < 32) : Escapes c [c]

/-- A character with a letter, before all others. -/
theorem Escapes.ite {c d e : Char} {text : List Char} (he : escaped? e = some d)
    (h : c ≠ d → Escapes c text) : Escapes c (if c = d then ['\\', e] else text) := by
  by_cases hc : c = d
  · rw [if_pos hc, hc]
    exact .short he
  · rw [if_neg hc]
    exact h hc

theorem escapes_escapeChar (c : Char) : Escapes c (escapeChar c) := by
  refine .ite rfl fun hquote => .ite rfl fun hslash => .ite rfl fun _ => .ite rfl fun _ =>
    .ite rfl fun _ => .ite rfl fun _ => .ite rfl fun _ => ?_
  by_cases hcontrol : c.toNat < 32
  · rw [if_pos hcontrol]
    exact .control hcontrol
  · rw [if_neg hcontrol]
    exact .plain hquote hslash hcontrol

/-- A written character is read as one part, which spells it. -/
theorem spell_escapeChar (c : Char) : ∃ p : Part, p.Spells c ∧ ∀ rest,
    spell (escapeChar c ++ rest) = (spell rest).map fun r => (p :: r.1, r.2) := by
  have hescapes := escapes_escapeChar c
  generalize escapeChar c = text at hescapes ⊢
  cases hescapes with
  | short he => exact ⟨_, .inl rfl, spell_short he⟩
  | control hcontrol =>
    refine ⟨_, .inr ⟨rfl, hcontrol⟩, fun rest => ?_⟩
    change spell ('\\' :: 'u' :: '0' :: '0' :: _ :: _ :: rest) = _
    rw [spell, unit?_control hcontrol]
    cases spell rest <;> rfl
  | plain hquote hslash hplain => exact ⟨_, .inl rfl, spell_plain hquote hslash hplain⟩

/-- A unit that is no half of a pair is a character of its own. -/
theorem combine_unit {u : Nat} (hhigh : isHighHalf u = false) (hlow : isLowHalf u = false)
    (ps : List Part) : combine (.unit u :: ps) = (Char.ofNat u :: ·) <$> combine ps := by
  cases ps with
  | nil => simp [combine, hhigh, hlow]
  | cons q ps =>
    cases q with
    | char d =>
      change (if isHighHalf u || isLowHalf u then none else _) = _
      rw [hhigh, hlow]
      rfl
    | unit v =>
      change (if isHighHalf u then _ else if isLowHalf u then none else _) = _
      rw [hhigh, hlow]
      rfl

/-- Parts that spell characters are combined into them; a control character is no half of a
pair. -/
theorem combine_of_spells {ps : List Part} {cs : List Char} (h : List.Forall₂ Part.Spells ps cs) :
    combine ps = some cs := by
  induction h with
  | nil => rfl
  | @cons p c ps cs hp _ ih =>
    rcases hp with rfl | ⟨rfl, hcontrol⟩
    · rw [combine, ih]
      rfl
    · have hhigh : isHighHalf c.toNat = false := by simp [isHighHalf]; omega
      have hlow : isLowHalf c.toNat = false := by simp [isLowHalf]; omega
      rw [combine_unit hhigh hlow, ih, Char.ofNat_toNat]
      rfl

/-- A written string is read up to its closing quote. -/
theorem spell_escaped (cs rest : List Char) : ∃ ps, List.Forall₂ Part.Spells ps cs ∧
    spell (cs.flatMap escapeChar ++ '"' :: rest) = some (ps, rest) := by
  induction cs with
  | nil => exact ⟨[], .nil, rfl⟩
  | cons c cs ih =>
    obtain ⟨ps, hps, hrest⟩ := ih
    obtain ⟨p, hp, hspell⟩ := spell_escapeChar c
    refine ⟨p :: ps, .cons hp hps, ?_⟩
    rw [List.flatMap_cons, List.append_assoc, hspell, hrest]
    rfl

/-! ## Tokens -/

/-- A character that a number begins with. -/
def BeginsNumber (c : Char) : Prop := c = '-' ∨ ∃ d, c = Numeral.digitChar d

theorem exists_numeral_text (plus : Bool) (n : Numeral) :
    ∃ c cs, (n.text plus).toList = c :: cs ∧ BeginsNumber c := by
  rw [toList_text]
  cases n.negative with
  | true => exact ⟨'-', _, rfl, .inl rfl⟩
  | false =>
    obtain ⟨ds, htext, -, hne, -⟩ := exists_digits n.whole
    rw [htext]
    cases ds with
    | nil => exact absurd rfl hne
    | cons d ds => exact ⟨_, _, rfl, .inr ⟨d, rfl⟩⟩

theorem BeginsNumber.isBlank_eq_false {c : Char} (h : BeginsNumber c) : isBlank c = false := by
  have hdigit : ∀ d : Fin 10, isBlank (Numeral.digitChar d) = false := by decide
  rcases h with rfl | ⟨d, rfl⟩
  · decide
  · exact hdigit d

/-- No other token begins like a number. -/
theorem BeginsNumber.token?_eq {c : Char} (h : BeginsNumber c) (cs : List Char) :
    token? (c :: cs) = (numeral? (c :: cs)).map fun r => (.number r.1, r.2) := by
  rcases h with rfl | ⟨d, rfl⟩
  · change (numeral? _).bind _ = _
    cases numeral? ('-' :: cs) <;> rfl
  · have hlast : token? (Numeral.digitChar d :: cs) =
        (numeral? (Numeral.digitChar d :: cs)).bind fun r => some (.number r.1, r.2) := by
      match d with
      | 0 | 1 | 2 | 3 | 4 | 5 | 6 | 7 | 8 | 9 => rfl
    rw [hlast]
    cases numeral? (Numeral.digitChar d :: cs) <;> rfl

theorem toList_quote (text : String) :
    (quote text).toList = '"' :: (text.toList.flatMap escapeChar ++ ['"']) := by
  simp [quote, String.toList_append]

namespace Token

/-- A token that stands for its text: a string has one. -/
def HasText (t : Token) : Prop := t ≠ .string none

def IsNumber : Token → Prop
  | number _ => True
  | _ => False

/-- The text of a token begins with a character that is no blank; unless the token is a number, a
number may stand before it. -/
theorem exists_toList_text (t : Token) : ∃ c cs, t.text.toList = c :: cs ∧ isBlank c = false ∧
    (¬ t.IsNumber → EndsNumber (c :: cs)) := by
  have hstart {c : Char} (cs : List Char) (htext : t.text.toList = c :: cs)
      (h : isBlank c = false ∧ digitValue? c = none ∧ c ≠ '.' ∧ c ≠ 'e' ∧ c ≠ 'E') :
      ∃ c cs, t.text.toList = c :: cs ∧ isBlank c = false ∧
        (¬ t.IsNumber → EndsNumber (c :: cs)) :=
    ⟨c, cs, htext, h.1, fun _ => endsNumber_cons cs h.2⟩
  cases t with
  | number n =>
    obtain ⟨c, cs, htext, hbegins⟩ := exists_numeral_text Layout.data.plus n
    exact ⟨c, cs, htext, hbegins.isBlank_eq_false, fun h => absurd trivial h⟩
  | string text => exact hstart _ (toList_quote _) (by decide)
  | bool b => cases b <;> exact hstart _ rfl (by decide)
  | _ => exact hstart _ rfl (by decide)

/-- A written token is read back. -/
theorem token?_text {t : Token} (ht : t.HasText) {rest : List Char}
    (h : t.IsNumber → EndsNumber rest) : token? (t.text.toList ++ rest) = some (t, rest) := by
  cases t with
  | number n =>
    have hread := numeral?_text Layout.data.plus n (h trivial)
    obtain ⟨c, cs, htext, hbegins⟩ := exists_numeral_text Layout.data.plus n
    change token? ((n.text Layout.data.plus).toList ++ rest) = _
    rw [htext, List.cons_append] at hread ⊢
    rw [hbegins.token?_eq, hread]
    rfl
  | string text =>
    cases text with
    | none => exact absurd rfl ht
    | some text =>
      obtain ⟨ps, hps, hspell⟩ := spell_escaped text.toList rest
      change token? ((quote text).toList ++ rest) = _
      rw [toList_quote, List.cons_append, List.append_assoc, List.singleton_append]
      change (spell (text.toList.flatMap escapeChar ++ '"' :: rest)).bind _ = _
      rw [hspell]
      simp [combine_of_spells hps]
  | bool b => cases b <;> rfl
  | _ => rfl

end Token

/-! ## Pieces -/

/-- A text is cut into tokens, whatever larger bound is given. -/
def LexesTo (cs : List Char) (ts : List Token) : Prop :=
  ∀ bound, cs.length ≤ bound → lexUpTo bound cs = some ts

namespace LexesTo

variable {cs : List Char} {ts : List Token}

theorem nil : LexesTo [] [] := by
  intro bound _
  cases bound <;> rfl

theorem blank {c : Char} (hc : isBlank c = true) (h : LexesTo cs ts) : LexesTo (c :: cs) ts := by
  intro bound hbound
  cases bound with
  | zero => simp at hbound
  | succ bound =>
    rw [lexUpTo, if_pos hc]
    exact h bound (Nat.le_of_succ_le_succ hbound)

theorem blanks {bs : List Char} (hbs : ∀ b ∈ bs, isBlank b = true) (h : LexesTo cs ts) :
    LexesTo (bs ++ cs) ts := by
  induction bs with
  | nil => exact h
  | cons b bs ih =>
    obtain ⟨hb, hbs⟩ := List.forall_mem_cons.1 hbs
    exact (ih hbs).blank hb

theorem token {t : Token} (ht : t.HasText) (hend : t.IsNumber → EndsNumber cs)
    (h : LexesTo cs ts) : LexesTo (t.text.toList ++ cs) (t :: ts) := by
  intro bound hbound
  have hread := t.token?_text ht hend
  obtain ⟨c, cs', htext, hblank, -⟩ := t.exists_toList_text
  rw [htext, List.cons_append] at hread hbound ⊢
  cases bound with
  | zero => simp at hbound
  | succ bound =>
    rw [List.length_cons, List.length_append] at hbound
    rw [lexUpTo, hblank, hread]
    simp only [Bool.false_eq_true, if_false, Option.bind_eq_bind, Option.bind_some,
      h bound (by omega)]
    rfl

end LexesTo

namespace Piece

def token? : Piece → Option Token
  | token t => some t
  | blank | line _ => none

theorem toList_text_line (level : Nat) :
    (line level).text.toList = '\n' :: List.replicate (2 * level) ' ' := by
  simp [text, String.toList_append]

end Piece

/-- The characters of a list of pieces. -/
def pieceChars (ps : List Piece) : List Char := ps.flatMap (·.text.toList)

/-- Tokens that have their texts and of which no number follows another one. -/
structure Readable (ts : List Token) : Prop where
  hasText : ∀ t ∈ ts, t.HasText
  separated : ts.IsChain fun t t' => t.IsNumber → ¬ t'.IsNumber

/-- A number ends where the next piece begins. -/
theorem endsNumber_pieceChars {ps : List Piece}
    (h : ∀ t ∈ (ps.filterMap Piece.token?).head?, ¬ t.IsNumber) : EndsNumber (pieceChars ps) := by
  cases ps with
  | nil =>
    intro c hc
    cases hc
  | cons p ps =>
    cases p with
    | token t =>
      obtain ⟨c, cs, htext, -, hend⟩ := t.exists_toList_text
      have hnumber : ¬ t.IsNumber := h t rfl
      change EndsNumber (t.text.toList ++ pieceChars ps)
      rw [htext]
      exact hend hnumber
    | blank => exact endsNumber_cons _ (by decide)
    | line level =>
      rw [pieceChars, List.flatMap_cons, Piece.toList_text_line]
      exact endsNumber_cons _ (by decide)

/-- Pieces are cut into their tokens. -/
theorem lexesTo_pieceChars {ps : List Piece} (h : Readable (ps.filterMap Piece.token?)) :
    LexesTo (pieceChars ps) (ps.filterMap Piece.token?) := by
  induction ps with
  | nil => exact .nil
  | cons p ps ih =>
    cases p with
    | token t =>
      obtain ⟨ht, hts⟩ := List.forall_mem_cons.1 h.hasText
      obtain ⟨hnext, hrest⟩ := List.isChain_cons.1 h.separated
      exact (ih ⟨hts, hrest⟩).token ht fun hnumber =>
        endsNumber_pieceChars fun t' ht' => hnext t' ht' hnumber
    | blank => exact (ih h).blank (by decide)
    | line level =>
      have hblanks : ∀ b ∈ (Piece.line level).text.toList, isBlank b = true := by
        rw [Piece.toList_text_line]
        intro b hb
        rcases List.mem_cons.1 hb with rfl | hb
        · decide
        · rw [List.eq_of_mem_replicate hb]
          decide
      exact (ih h).blanks hblanks

theorem lex_pieces {ps : List Piece} (h : Readable (ps.filterMap Piece.token?)) :
    lex (String.join (ps.map (·.text))).toList = some (ps.filterMap Piece.token?) := by
  have hchars : (String.join (ps.map (·.text))).toList = pieceChars ps := by
    rw [String.toList_join, List.flatMap_map]
    rfl
  rw [hchars]
  exact lexesTo_pieceChars h _ (Nat.le_refl _)

end PulseNoise.Json
