import Formula.Proofs.Lexing
import Formula.Proofs.Writing

/-!
# Where tokens stand

The offset of a token is a place in the source: so many bytes are in front of it, they are whole
characters, and where the token is a name the name is written there (`Token.StandsIn`). Pieces have
a character at least, so the offsets of tokens grow and a token can be told by its offset. The last
token is the end marker, and no other one is.
-/

namespace Formula

open Formula.Tree

/-- A token stands between two characters of a text, and a name is written out there. -/
def Token.StandsIn (source : List Char) (t : Token) : Prop :=
  ∃ front back, source = front ++ back ∧ bytes front = t.offset ∧
    ∀ name, t.kind = .identifier name → name.toList <+: back

theorem bytes_pos {cs : List Char} (h : cs ≠ []) : 0 < bytes cs := by
  refine Nat.pos_of_ne_zero fun hzero ↦ h ?_
  have hempty : String.ofList cs = "" := String.utf8ByteSize_eq_zero_iff.mp hzero
  rw [← String.toList_ofList (l := cs), hempty]
  rfl

/-- A name is written as it is. -/
theorem Lexeme.eq_of_identifier {cs : List Char} {name : String}
    (h : Lexeme cs (some (.identifier name))) : cs = name.toList := by
  generalize hkind : some (TokenKind.identifier name) = kind at h
  cases h <;> cases hkind
  exact String.toList_ofList.symm

theorem Lexeme.ne_endOfInput {cs : List Char} {kind : TokenKind} (h : Lexeme cs (some kind)) :
    kind ≠ .endOfInput := by
  generalize hkind : some kind = kind' at h
  cases h <;> cases hkind <;> simp

namespace Gives

variable {previous : Option TokenKind} {offset : Nat} {pieces : List (List Char)}
  {tokens : List Token} {strays : List Stray}

/-- Tokens stand in the text that the pieces make up. -/
theorem stands (h : Gives previous offset pieces tokens strays) (back : List Char) :
    ∀ front, bytes front = offset →
      ∀ t ∈ tokens, t.StandsIn (front ++ (pieces.flatten ++ back)) := by
  have hcons : ∀ (front piece : List Char) (later : List (List Char)),
      front ++ ((piece :: later).flatten ++ back)
        = (front ++ piece) ++ (later.flatten ++ back) := fun front piece later ↦ by
    rw [List.flatten_cons, List.append_assoc, List.append_assoc]
  induction h with
  | done =>
    intro front hfront t ht
    obtain rfl := List.mem_singleton.mp ht
    exact ⟨front, _, rfl, hfront, fun name hname ↦ absurd hname (by simp)⟩
  | blank _ _ ih | stray _ _ ih =>
    intro front hfront t ht
    rw [hcons]
    exact ih _ (by rw [bytes_append, hfront]) t ht
  | signed _ _ ih =>
    intro front hfront t ht
    rcases List.mem_cons.mp ht with rfl | ht
    · exact ⟨front, _, rfl, hfront, fun name hname ↦ absurd hname (by simp)⟩
    · rw [hcons, hcons]
      exact ih _ (by rw [bytes_append, bytes_append, hfront]) t ht
  | single hpiece _ _ ih =>
    intro front hfront t ht
    rcases List.mem_cons.mp ht with rfl | ht
    · refine ⟨front, _, rfl, hfront, fun name hname ↦ ?_⟩
      obtain rfl : _ = TokenKind.identifier name := hname
      rw [hpiece.eq_of_identifier, List.flatten_cons, List.append_assoc]
      exact List.prefix_append _ _
    · rw [hcons]
      exact ih _ (by rw [bytes_append, hfront]) t ht

theorem le_offset (h : Gives previous offset pieces tokens strays) :
    ∀ t ∈ tokens, offset ≤ t.offset := by
  induction h with
  | done => simp
  | blank _ _ ih | stray _ _ ih => exact fun t ht ↦ Nat.le_trans (Nat.le_add_right _ _) (ih t ht)
  | signed _ _ ih | single _ _ _ ih =>
    refine List.forall_mem_cons.mpr ⟨Nat.le_refl _, fun t ht ↦ ?_⟩
    have hlater := ih t ht
    omega

/-- Offsets grow from token to token. -/
theorem sorted (h : Gives previous offset pieces tokens strays) :
    tokens.Pairwise fun t u ↦ t.offset < u.offset := by
  induction h with
  | done => exact List.pairwise_singleton _ _
  | blank _ _ ih | stray _ _ ih => exact ih
  | signed hsigned hlater ih =>
    refine List.pairwise_cons.mpr ⟨fun t ht ↦ ?_, ih⟩
    have hle := hlater.le_offset t ht
    have hpos := bytes_pos hsigned.lexeme.ne_nil
    dsimp only
    omega
  | single hpiece _ hlater ih =>
    refine List.pairwise_cons.mpr ⟨fun t ht ↦ ?_, ih⟩
    have hle := hlater.le_offset t ht
    have hpos := bytes_pos hpiece.ne_nil
    dsimp only
    omega

/-- The last token marks the end and no other one does. -/
theorem marked (h : Gives previous offset pieces tokens strays) :
    ∃ inner n, tokens = inner ++ [⟨.endOfInput, n⟩] ∧ Endless inner := by
  induction h with
  | done => exact ⟨[], _, rfl, endless_nil⟩
  | blank _ _ ih | stray _ _ ih => exact ih
  | signed _ _ ih =>
    obtain ⟨inner, n, rfl, hinner⟩ := ih
    exact ⟨_ :: inner, n, rfl, .cons (by simp) _ hinner⟩
  | single hpiece _ _ ih =>
    obtain ⟨inner, n, rfl, hinner⟩ := ih
    exact ⟨_ :: inner, n, rfl, .cons hpiece.ne_endOfInput _ hinner⟩

end Gives

/-! ## The tokens of a source -/

theorem stands_tokenize (source : String) : ∀ t ∈ tokenize source, t.StandsIn source.toList := by
  have htrimmed : Trimmed source.toList _ _ _ := trimmed_iff.mpr ⟨rfl, rfl, rfl⟩
  have hstands := (gives_tokenize source).stands
    (Text.blanksBehind (Text.trimFront source.toList)) (source.toList.takeWhile Text.isBlank) rfl
  rwa [piecesOf, (cut_split _).flatten_eq, ← htrimmed.whole] at hstands

/-- An offset is that of one token only. -/
theorem offset_ne_of_tokenize {source : String} {before after : List Token} {t : Token}
    (h : tokenize source = before ++ t :: after) : ∀ u ∈ before ++ after, u.offset ≠ t.offset := by
  have hsorted := (gives_tokenize source).sorted
  rw [h, List.pairwise_append, List.pairwise_cons] at hsorted
  obtain ⟨-, ⟨hafter, -⟩, hbefore⟩ := hsorted
  intro u hu
  rcases List.mem_append.mp hu with hu | hu
  · exact Nat.ne_of_lt (hbefore u hu t List.mem_cons_self)
  · exact Nat.ne_of_gt (hafter u hu)

/-- What is in front of a token is not the end. -/
theorem endless_of_tokenize {source : String} {before after : List Token} {t : Token}
    (h : tokenize source = before ++ t :: after) : Endless before := by
  obtain ⟨inner, n, htokens, hinner⟩ := (gives_tokenize source).marked
  have hdrop := congrArg List.dropLast (htokens.symm.trans h)
  rw [List.dropLast_concat, List.dropLast_append_of_ne_nil (by simp)] at hdrop
  exact fun u hu ↦ hinner u (hdrop ▸ List.mem_append_left _ hu)

end Formula
