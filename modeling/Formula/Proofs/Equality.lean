import Formula.Compiled
import Formula.Proofs.NumeralGrammar
import Formula.Proofs.Coherence

/-!
# Which compiled formulas are equal

A compiled formula keeps its text next to the tokens that were cut from it, so two of them with
different texts differ, and with one text they have the same tokens. All that can come between is
that a token need not equal itself: a number that is not one does not. Such a number stands for a
malformed numeral (`Gives.exists_isNaN_iff`), which has no digit or a second point, and a minus in
front of the numeral does not mend it.

So compiled formulas are equal if they have the same text and the same options, and no numeral in
the text is malformed (`Compiled.equals_iff`).
-/

namespace Formula

open Binary64

/-! ## Malformed numerals -/

/-- Digits and points that are no numeral: there is no digit among them, or a second point. -/
structure Malformed (piece : List Char) : Prop where
  ne_nil : piece ≠ []
  isNumber : ∀ c ∈ piece, Piece.isNumber c
  flawed : (∀ c ∈ piece, ¬c.isDigit) ∨ 1 < piece.count '.'

/-- **The malformed numerals are the lexemes that stand for no number.** -/
theorem malformed_iff {piece : List Char} :
    Malformed piece ↔ ∃ x, Lexeme piece (some (.number x)) ∧ x.isNaN := by
  have hliteral (h : ∀ c ∈ piece, Piece.isNumber c) :
      (Number.ofLiteral (String.ofList piece)).isNaN ↔
        (∀ c ∈ piece, ¬c.isDigit) ∨ 1 < piece.count '.' := by
    simpa using Number.isNaN_ofLiteral_iff (s := String.ofList piece) (by simpa using h)
  constructor
  · rintro ⟨hne, hnumber, hflawed⟩
    exact ⟨_, .number hne hnumber, (hliteral hnumber).mpr hflawed⟩
  · rintro ⟨x, hlexeme, hnan⟩
    cases hlexeme with
    | number hne hnumber => exact ⟨hne, hnumber, (hliteral hnumber).mp hnan⟩

theorem Lexeme.malformed_iff {piece : List Char} {kind : Option TokenKind} (h : Lexeme piece kind) :
    Malformed piece ↔ ∃ x, kind = some (.number x) ∧ x.isNaN := by
  rw [Formula.malformed_iff]
  constructor
  · rintro ⟨x, hlexeme, hnan⟩
    exact ⟨x, h.kind_unique hlexeme, hnan⟩
  · rintro ⟨x, rfl, hnan⟩
    exact ⟨x, h, hnan⟩

/-- A text in which no numeral is malformed: whatever else is wrong with it, the lexemes that it is
cut into are none of these. -/
def WellNumbered (source : String) : Prop :=
  ∀ front middle back pieces, Trimmed source.toList front middle back → Cut middle pieces →
    ∀ piece ∈ pieces, ¬Malformed piece

theorem wellNumbered_iff {source : String} :
    WellNumbered source ↔ ∀ piece ∈ (piecesOf source).map Piece.text, ¬Malformed piece := by
  constructor
  · exact fun h ↦ h _ _ _ _ (trimmed_iff.mpr ⟨rfl, rfl, rfl⟩) (cut_split _)
  · intro h front middle back pieces htrimmed hcut
    rw [cut_iff.mp hcut, ← htrimmed.trim_eq]
    exact h

/-! ## Tokens that do not equal themselves -/

/-- A token with a number that is not one. -/
def Token.IsNaN (t : Token) : Prop := ∃ x, t.kind = .number x ∧ x.isNaN

theorem Token.isNaN_number_iff {x : Float} {offset : Nat} :
    Token.IsNaN ⟨.number x, offset⟩ ↔ x.isNaN :=
  ⟨fun ⟨_, hkind, hnan⟩ ↦ TokenKind.number.inj hkind ▸ hnan, fun hnan ↦ ⟨x, rfl, hnan⟩⟩

theorem Token.equals_self_iff (t : Token) : t.equals t = true ↔ ¬t.IsNaN := by
  obtain ⟨kind, offset⟩ := t
  rw [Token.equals, beq_self_eq_true, Bool.and_true]
  cases kind with
  | number x =>
    rw [Token.isNaN_number_iff]
    exact ⟨fun h hnan ↦ Bool.false_ne_true ((beq_eq_false_of_isNaN hnan).symm.trans h), beq_self⟩
  | _ => simp [TokenKind.equals, Token.IsNaN]

theorem Compiled.sameTokens_self_iff (ts : List Token) :
    sameTokens ts ts = true ↔ ∀ t ∈ ts, ¬t.IsNaN := by
  induction ts with
  | nil => simp [sameTokens]
  | cons t ts ih => rw [sameTokens, Bool.and_eq_true, t.equals_self_iff, ih, List.forall_mem_cons]

/-- **Some number among the tokens is not one exactly if some numeral among the pieces is
malformed.** -/
theorem Gives.exists_isNaN_iff {previous : Option TokenKind} {offset : Nat}
    {pieces : List (List Char)} {tokens : List Token} {strays : List Stray}
    (h : Gives previous offset pieces tokens strays) :
    (∃ t ∈ tokens, t.IsNaN) ↔ ∃ piece ∈ pieces, Malformed piece := by
  induction h with
  | done => simp [Token.IsNaN]
  | blank h _ ih =>
    rw [List.exists_mem_cons_iff, h.malformed_iff, ih]
    simp
  | stray h _ ih =>
    have hpiece : ¬Malformed [_] := fun hmalformed ↦
      let ⟨_, hlexeme, _⟩ := malformed_iff.mp hmalformed
      h _ hlexeme
    rw [List.exists_mem_cons_iff, ih]
    simp [hpiece]
  | signed h _ ih =>
    rw [List.exists_mem_cons_iff, List.exists_mem_cons_iff, List.exists_mem_cons_iff,
      h.lexeme.malformed_iff, h.numeral.malformed_iff, ih, Token.isNaN_number_iff, isNaN_neg_iff]
    simp
  | single h _ _ ih =>
    rw [List.exists_mem_cons_iff, List.exists_mem_cons_iff, h.malformed_iff, ih]
    simp [Token.IsNaN]

/-! ## Compiled formulas -/

/-- **Compiled formulas are equal if they have the same text and options and no numeral in the text
is malformed.** In particular, one is equal to itself for every text without a malformed numeral
and for no other. -/
theorem Compiled.equals_iff (s t : String) (o p : Options) :
    (((compile s).withOptions o).equals ((compile t).withOptions p) = true ↔
      s = t ∧ o = p ∧ WellNumbered s) ∧
    (((compile s).withOptions o).equals ((compile s).withOptions o) = true ↔ WellNumbered s) := by
  have htokens : sameTokens (tokenize s) (tokenize s) = true ↔ WellNumbered s := by
    have hgives := (gives_tokenize s).exists_isNaN_iff
    rw [sameTokens_self_iff, wellNumbered_iff]
    grind
  have hequals (t : String) (p : Options) :
      ((compile s).withOptions o).equals ((compile t).withOptions p) = true ↔
        s = t ∧ o = p ∧ WellNumbered s := by
    simp only [equals, withOptions, compile, Bool.and_eq_true, beq_iff_eq]
    constructor
    · rintro ⟨⟨rfl, hsame⟩, hoptions⟩
      exact ⟨rfl, hoptions, htokens.mp hsame⟩
    · rintro ⟨rfl, hoptions, hnumbered⟩
      exact ⟨⟨rfl, htokens.mpr hnumbered⟩, hoptions⟩
  exact ⟨hequals t p, (hequals s o).trans (by simp)⟩

end Formula
