import Formula.Tokenization

/-!
# The lexical grammar

Which texts are lexemes and what token each of them is (`Lexeme`), and how a longer text is cut into
them, always by the longest one that is in front (`Cut`). Nothing here grows a piece character by
character, as `Piece.split` does. That it cuts in the same way (`cut_iff`) is due to a property of
the lexemes: without its last character, a lexeme of more than one is a lexeme again. So a piece
that cannot take the next character cannot take more than that either.

Of a quoted text the grammar knows three forms. It can be closed, it can be left open, and it can
be left open behind a backslash that escapes nothing. The latter two are no mistake, and only at the
end of a source is there a piece of these forms, because with any character behind it there is a
longer lexeme.
-/

namespace Formula

open Piece

/-! ## Lexemes -/

/-- The content of a quoted text, as it is written and as it is meant. -/
inductive Content (quote : Char) : List Char → List Char → Prop
  | nil : Content quote [] []
  | plain {c : Char} {written meant : List Char} (hquote : c ≠ quote) (hescape : c ≠ '\\')
    (h : Content quote written meant) : Content quote (c :: written) (c :: meant)
  | escaped (c : Char) {written meant : List Char} (h : Content quote written meant) :
    Content quote ('\\' :: c :: written) (c :: meant)

def isQuote (c : Char) : Bool := c == '"' || c == '\x27'

/-- The texts that are lexemes, and the kind of token that they are; blanks are none. -/
inductive Lexeme : List Char → Option TokenKind → Prop
  | blank {cs : List Char} (hne : cs ≠ []) (h : ∀ c ∈ cs, isBlank c) : Lexeme cs none
  | number {cs : List Char} (hne : cs ≠ []) (h : ∀ c ∈ cs, isNumber c) :
    Lexeme cs (some (.number (Number.ofLiteral (String.ofList cs))))
  | boolean (b : Bool) : Lexeme (Value.boolText b).toList (some (.boolean b))
  | name {c : Char} {cs : List Char} (hc : beginsWord c) (hcs : ∀ d ∈ cs, isWord d)
    (hne : ∀ b, String.ofList (c :: cs) ≠ Value.boolText b) :
    Lexeme (c :: cs) (some (.identifier (String.ofList (c :: cs))))
  | closed {quote : Char} {written meant : List Char} (hquote : isQuote quote)
    (h : Content quote written meant) :
    Lexeme (quote :: (written ++ [quote])) (some (.text (String.ofList meant)))
  | unclosed {quote : Char} {written meant : List Char} (hquote : isQuote quote)
    (h : Content quote written meant) :
    Lexeme (quote :: written) (some (.text (String.ofList meant)))
  | brokenOff {quote : Char} {written meant : List Char} (hquote : isQuote quote)
    (h : Content quote written meant) :
    Lexeme (quote :: (written ++ ['\\'])) (some (.text (String.ofList meant)))
  | operator (op : Operator) : Lexeme op.symbol.toList (some (.operator op))
  | openParen : Lexeme ['('] (some .openParen)
  | closeParen : Lexeme [')'] (some .closeParen)
  | comma : Lexeme [','] (some .comma)

/-- The first piece of a text: the longest lexeme in front, or else one character. -/
inductive First : List Char → List Char → Prop
  | lexeme {cs piece : List Char} {kind : Option TokenKind} (h : Lexeme piece kind)
    (hfront : piece <+: cs)
    (hlongest : ∀ other kind', Lexeme other kind' → other <+: cs → other.length ≤ piece.length) :
    First cs piece
  | stray {c : Char} {cs : List Char} (h : ∀ other kind, Lexeme other kind → ¬other <+: c :: cs) :
    First (c :: cs) [c]

/-- A text cut into pieces from the left. -/
inductive Cut : List Char → List (List Char) → Prop
  | nil : Cut [] []
  | cons {piece rest : List Char} {pieces : List (List Char)} (hfirst : First (piece ++ rest) piece)
    (hrest : Cut rest pieces) : Cut (piece ++ rest) (piece :: pieces)

/-! ## Forms of texts -/

/-- What stands behind the content at a stage. -/
def QuoteStage.ending (quote : Char) : QuoteStage → List Char
  | inside => []
  | escaped => ['\\']
  | closed => [quote]

/-- The texts of a form. -/
def PieceForm.Shape : PieceForm → List Char → Prop
  | blank, cs => cs ≠ [] ∧ ∀ c ∈ cs, isBlank c
  | number, cs => cs ≠ [] ∧ ∀ c ∈ cs, isNumber c
  | word, cs => ∃ c ds, cs = c :: ds ∧ beginsWord c ∧ ∀ d ∈ ds, isWord d
  | quoted quote content stage, cs => isQuote quote ∧ ∃ written,
      Content quote written content.toList ∧ cs = quote :: (written ++ stage.ending quote)
  | operator op, cs => cs = op.symbol.toList
  | openParen, cs => cs = ['(']
  | closeParen, cs => cs = [')']
  | comma, cs => cs = [',']
  | stray, cs => ∃ c, cs = [c] ∧ formOf c = stray

/-- The form of a piece after it takes some characters. -/
def grownForms? (form : PieceForm) (cs : List Char) : Option PieceForm :=
  cs.foldlM (fun form c ↦ grownForm? c form) form

/-- The form of a text as a single piece. -/
def formOfText? : List Char → Option PieceForm
  | [] => none
  | c :: cs => grownForms? (formOf c) cs

@[simp] theorem grownForms?_nil (form : PieceForm) : grownForms? form [] = some form := rfl

theorem grownForms?_cons (form : PieceForm) (c : Char) (cs : List Char) :
    grownForms? form (c :: cs) = (grownForm? c form).bind (grownForms? · cs) := rfl

theorem grownForms?_append (form : PieceForm) (cs ds : List Char) :
    grownForms? form (cs ++ ds) = (grownForms? form cs).bind (grownForms? · ds) := by
  simp only [grownForms?, List.foldlM_append]
  rfl

theorem Content.append {quote : Char} {written meant written' meant' : List Char}
    (h : Content quote written meant) (h' : Content quote written' meant') :
    Content quote (written ++ written') (meant ++ meant') := by
  induction h with
  | nil => exact h'
  | plain hquote hescape _ ih => exact .plain hquote hescape ih
  | escaped c _ ih => exact .escaped c ih

/-! ### Every piece has the shape of its form -/

theorem formOf_of_isBlank {c : Char} (h : isBlank c) : formOf c = .blank := if_pos h

theorem formOf_of_isNumber {c : Char} (hblank : ¬isBlank c) (h : isNumber c) :
    formOf c = .number := (if_neg hblank).trans (if_pos h)

theorem formOf_of_beginsWord {c : Char} (hblank : ¬isBlank c) (hnumber : ¬isNumber c)
    (h : beginsWord c) : formOf c = .word :=
  (if_neg hblank).trans ((if_neg hnumber).trans (if_pos h))

theorem shape_formOf (c : Char) : (formOf c).Shape [c] := by
  by_cases hblank : isBlank c = true
  · rw [formOf_of_isBlank hblank]
    exact ⟨by simp, by simpa using hblank⟩
  by_cases hnumber : isNumber c = true
  · rw [formOf_of_isNumber hblank hnumber]
    exact ⟨by simp, by simpa using hnumber⟩
  by_cases hword : beginsWord c = true
  · rw [formOf_of_beginsWord hblank hnumber hword]
    exact ⟨c, [], rfl, hword, by simp⟩
  cases hform : formOf c with
  | stray => exact ⟨c, rfl, hform⟩
  | _ =>
    unfold formOf at hform
    rw [if_neg hblank, if_neg hnumber, if_neg hword] at hform
    split at hform <;> cases hform
    all_goals first | exact ⟨rfl, [], .nil, rfl⟩ | rfl

/-- The marks that `=` makes into another operator are those that are its beginning. -/
theorem symbol_followedByEquals? {op op' : Operator} (h : followedByEquals? op = some op') :
    op'.symbol.toList = op.symbol.toList ++ ['='] := by
  rcases op with (_ | _ | _ | _ | _) | (_ | _ | _ | _ | _ | _) | _ | _ <;>
    simp only [followedByEquals?, Option.some.injEq, reduceCtorEq] at h
  all_goals
    subst h
    rfl

theorem shape_of_grownForm? {form form' : PieceForm} {c : Char} {cs : List Char}
    (h : form.Shape cs) (hgrown : grownForm? c form = some form') : form'.Shape (cs ++ [c]) := by
  cases form with
  | blank =>
    obtain ⟨hc, rfl⟩ : isBlank c ∧ _ = form' := by simpa [grownForm?] using hgrown
    exact ⟨by simp, by simpa [or_imp, forall_and] using ⟨h.2, hc⟩⟩
  | number =>
    obtain ⟨hc, rfl⟩ : isNumber c ∧ _ = form' := by simpa [grownForm?] using hgrown
    exact ⟨by simp, by simpa [or_imp, forall_and] using ⟨h.2, hc⟩⟩
  | word =>
    obtain ⟨hc, rfl⟩ : isWord c ∧ _ = form' := by simpa [grownForm?] using hgrown
    obtain ⟨d, ds, rfl, hd, hds⟩ := h
    exact ⟨d, ds ++ [c], rfl, hd, by simpa [or_imp, forall_and] using ⟨hds, hc⟩⟩
  | quoted quote content stage =>
    obtain ⟨hquote, written, hcontent, rfl⟩ := h
    cases stage with
    | inside =>
      simp only [grownForm?] at hgrown
      split at hgrown
      · next hc =>
        obtain rfl := Option.some.inj hgrown
        exact ⟨hquote, written, hcontent, by simp [QuoteStage.ending, hc]⟩
      · next hc =>
        split at hgrown
        · next hescape =>
          obtain rfl := Option.some.inj hgrown
          exact ⟨hquote, written, hcontent, by simp [QuoteStage.ending, hescape]⟩
        · next hescape =>
          obtain rfl := Option.some.inj hgrown
          refine ⟨hquote, written ++ [c], ?_, by simp [QuoteStage.ending]⟩
          rw [String.toList_push]
          exact hcontent.append (.plain hc hescape .nil)
    | escaped =>
      obtain rfl := Option.some.inj hgrown
      refine ⟨hquote, written ++ ['\\', c], ?_, by simp [QuoteStage.ending]⟩
      rw [String.toList_push]
      exact hcontent.append (.escaped c .nil)
    | closed => exact absurd hgrown (by simp [grownForm?])
  | operator op =>
    simp only [grownForm?] at hgrown
    split at hgrown
    · next hc =>
      obtain ⟨op', hop, rfl⟩ := Option.map_eq_some_iff.mp hgrown
      subst hc
      obtain rfl : cs = op.symbol.toList := h
      exact (symbol_followedByEquals? hop).symm
    · exact absurd hgrown (by simp)
  | openParen | closeParen | comma | stray => exact absurd hgrown (by simp [grownForm?])

theorem shape_of_grownForms? {cs : List Char} : ∀ {form form' : PieceForm} {text : List Char},
    form.Shape text → grownForms? form cs = some form' → form'.Shape (text ++ cs) := by
  induction cs with
  | nil =>
    intro form form' text h hgrown
    obtain rfl := Option.some.inj hgrown
    simpa using h
  | cons c cs ih =>
    intro form form' text h hgrown
    rw [grownForms?_cons] at hgrown
    obtain ⟨form₁, hc, hcs⟩ := Option.bind_eq_some_iff.mp hgrown
    simpa using ih (shape_of_grownForm? h hc) hcs

/-! ### Every text of a form is a piece -/

theorem not_isNumber_of_isBlank {c : Char} (h : isBlank c) : ¬isNumber c := by
  simp only [isBlank, Bool.or_eq_true, beq_iff_eq] at h
  rcases h with (((rfl | rfl) | rfl) | rfl) | rfl <;> decide

theorem not_beginsWord_of_isBlank {c : Char} (h : isBlank c) : ¬beginsWord c := by
  simp only [isBlank, Bool.or_eq_true, beq_iff_eq] at h
  rcases h with (((rfl | rfl) | rfl) | rfl) | rfl <;> decide

/-- The letters of ASCII are behind its digits. -/
theorem not_isDigit_of_isAlpha {c : Char} (h : c.isAlpha) : ¬c.isDigit := by
  intro hdigit
  have hcase : 'A'.val ≤ c.val ∨ 'a'.val ≤ c.val := by
    rcases Bool.or_eq_true_iff.mp h with hupper | hlower
    · exact .inl (of_decide_eq_true hupper).1
    · exact .inr (of_decide_eq_true (Bool.and_eq_true_iff.mp hlower).1)
  have hle : c.val ≤ '9'.val := of_decide_eq_true (Bool.and_eq_true_iff.mp hdigit).2
  simp only [UInt32.le_iff_toNat_le, Char.reduceVal, UInt32.reduceToNat] at hcase hle
  omega

theorem not_isNumber_of_beginsWord {c : Char} (h : beginsWord c) : ¬isNumber c := by
  intro hnumber
  simp only [beginsWord, isNumber, Bool.or_eq_true, beq_iff_eq] at h hnumber
  rcases hnumber with hdigit | rfl
  · rcases h with halpha | rfl
    · exact not_isDigit_of_isAlpha halpha hdigit
    · exact absurd hdigit (by decide)
  · exact absurd h (by decide)

theorem grownForms?_of_forall {form : PieceForm} {cs : List Char}
    (h : ∀ c ∈ cs, grownForm? c form = some form) : grownForms? form cs = some form := by
  induction cs with
  | nil => rfl
  | cons c cs ih =>
    rw [grownForms?_cons, h c List.mem_cons_self]
    exact ih fun d hd ↦ h d (List.mem_cons_of_mem c hd)

theorem ne_backslash_of_isQuote {quote : Char} (h : isQuote quote) : '\\' ≠ quote := by
  rintro rfl
  exact absurd h (by decide)

/-- Inside the quotes the written content becomes the meant one. -/
theorem grownForms?_content {quote : Char} (hquote : isQuote quote) {written meant : List Char}
    (h : Content quote written meant) : ∀ content : List Char,
      grownForms? (.quoted quote (String.ofList content) .inside) written
        = some (.quoted quote (String.ofList (content ++ meant)) .inside) := by
  have hescape := ne_backslash_of_isQuote hquote
  induction h with
  | nil => exact fun content ↦ by simp
  | @plain c _ _ hc hc' _ ih =>
    intro content
    have hpush : (String.ofList content).push c = String.ofList (content ++ [c]) := by simp
    rw [grownForms?_cons, grownForm?, if_neg hc, if_neg hc', Option.bind_some, hpush, ih,
      List.append_assoc]
    rfl
  | escaped c _ ih =>
    intro content
    have hpush : (String.ofList content).push c = String.ofList (content ++ [c]) := by simp
    rw [grownForms?_cons, grownForm?, if_neg hescape, if_pos rfl, Option.bind_some,
      grownForms?_cons, grownForm?, Option.bind_some, hpush, ih, List.append_assoc]
    rfl

theorem formOfText?_of_shape {form : PieceForm} {cs : List Char} (h : form.Shape cs) :
    formOfText? cs = some form := by
  cases form with
  | blank =>
    obtain ⟨hne, hcs⟩ := h
    obtain ⟨c, ds, rfl⟩ := List.exists_cons_of_ne_nil hne
    obtain ⟨hc, hds⟩ := List.forall_mem_cons.mp hcs
    rw [formOfText?, formOf_of_isBlank hc]
    exact grownForms?_of_forall fun d hd ↦ if_pos (hds d hd)
  | number =>
    obtain ⟨hne, hcs⟩ := h
    obtain ⟨c, ds, rfl⟩ := List.exists_cons_of_ne_nil hne
    obtain ⟨hc, hds⟩ := List.forall_mem_cons.mp hcs
    rw [formOfText?, formOf_of_isNumber (fun hblank ↦ not_isNumber_of_isBlank hblank hc) hc]
    exact grownForms?_of_forall fun d hd ↦ if_pos (hds d hd)
  | word =>
    obtain ⟨c, ds, rfl, hc, hds⟩ := h
    rw [formOfText?, formOf_of_beginsWord (fun hblank ↦ not_beginsWord_of_isBlank hblank hc)
      (not_isNumber_of_beginsWord hc) hc]
    exact grownForms?_of_forall fun d hd ↦ if_pos (hds d hd)
  | quoted quote content stage =>
    obtain ⟨hquote, written, hcontent, rfl⟩ := h
    have hform : formOf quote = .quoted quote "" .inside := by
      simp only [isQuote, Bool.or_eq_true, beq_iff_eq] at hquote
      rcases hquote with rfl | rfl <;> rfl
    have hwritten : grownForms? (.quoted quote "" .inside) written
        = some (.quoted quote content .inside) := by
      simpa using grownForms?_content hquote hcontent []
    rw [formOfText?, hform, grownForms?_append, hwritten, Option.bind_some]
    cases stage with
    | inside => rfl
    | escaped =>
      rw [QuoteStage.ending, grownForms?_cons, grownForm?, if_neg (ne_backslash_of_isQuote hquote),
        if_pos rfl]
      rfl
    | closed =>
      rw [QuoteStage.ending, grownForms?_cons, grownForm?, if_pos rfl]
      rfl
  | operator op =>
    obtain rfl : cs = op.symbol.toList := h
    rcases op with (_ | _ | _ | _ | _) | (_ | _ | _ | _ | _ | _) | _ | _ <;> rfl
  | openParen | closeParen | comma =>
    obtain rfl : cs = [_] := h
    rfl
  | stray =>
    obtain ⟨c, rfl, hc⟩ := h
    rw [formOfText?, hc]
    rfl

/-- **The form of a text says what the text looks like.** -/
theorem formOfText?_eq_some_iff {form : PieceForm} {cs : List Char} :
    formOfText? cs = some form ↔ form.Shape cs := by
  refine ⟨fun h ↦ ?_, formOfText?_of_shape⟩
  cases cs with
  | nil => exact absurd h (by simp [formOfText?])
  | cons c cs => exact shape_of_grownForms? (shape_formOf c) h

/-- What is in front of the last character of a piece is a piece. -/
theorem grownForms?_of_formOfText?_append {cs ds : List Char} {form form' : PieceForm}
    (h : formOfText? cs = some form) (h' : formOfText? (cs ++ ds) = some form') :
    grownForms? form ds = some form' := by
  cases cs with
  | nil => exact absurd h (by simp [formOfText?])
  | cons c cs =>
    rw [List.cons_append, formOfText?, grownForms?_append] at h'
    rw [formOfText?] at h
    rwa [h, Option.bind_some] at h'

/-! ### Lexemes are the texts of a form -/

theorem kind?_word {cs : List Char} (hne : ∀ b, String.ofList cs ≠ Value.boolText b) :
    (⟨.word, String.ofList cs⟩ : Piece).kind? = some (.identifier (String.ofList cs)) := by
  rw [kind?]
  simp only [if_neg (show String.ofList cs ≠ "true" from hne true),
    if_neg (show String.ofList cs ≠ "false" from hne false)]

theorem exists_shape_of_lexeme {cs : List Char} {kind : Option TokenKind} (h : Lexeme cs kind) :
    ∃ form, form ≠ .stray ∧ form.Shape cs ∧
      (⟨form, String.ofList cs⟩ : Piece).kind? = kind := by
  cases h with
  | blank hne h => exact ⟨.blank, by simp, ⟨hne, h⟩, rfl⟩
  | number hne h => exact ⟨.number, by simp, ⟨hne, h⟩, rfl⟩
  | boolean b =>
    cases b with
    | true => exact ⟨.word, by simp, ⟨'t', _, rfl, rfl, List.all_eq_true.mp rfl⟩, rfl⟩
    | false => exact ⟨.word, by simp, ⟨'f', _, rfl, rfl, List.all_eq_true.mp rfl⟩, rfl⟩
  | name hc hcs hne => exact ⟨.word, by simp, ⟨_, _, rfl, hc, hcs⟩, kind?_word hne⟩
  | closed hquote h =>
    exact ⟨.quoted _ _ .closed, by simp, ⟨hquote, _, by simpa using h, rfl⟩, rfl⟩
  | unclosed hquote h =>
    exact ⟨.quoted _ _ .inside, by simp, ⟨hquote, _, by simpa using h, by simp [QuoteStage.ending]⟩,
      rfl⟩
  | brokenOff hquote h =>
    exact ⟨.quoted _ _ .escaped, by simp, ⟨hquote, _, by simpa using h, rfl⟩, rfl⟩
  | operator op => exact ⟨.operator op, by simp, rfl, rfl⟩
  | openParen => exact ⟨.openParen, by simp, rfl, rfl⟩
  | closeParen => exact ⟨.closeParen, by simp, rfl, rfl⟩
  | comma => exact ⟨.comma, by simp, rfl, rfl⟩

theorem lexeme_of_shape {form : PieceForm} {cs : List Char} (hform : form ≠ .stray)
    (h : form.Shape cs) : Lexeme cs (⟨form, String.ofList cs⟩ : Piece).kind? := by
  cases form with
  | blank => exact .blank h.1 h.2
  | number => exact .number h.1 h.2
  | word =>
    obtain ⟨c, ds, rfl, hc, hds⟩ := h
    by_cases hne : ∀ b, String.ofList (c :: ds) ≠ Value.boolText b
    · rw [kind?_word hne]
      exact .name hc hds hne
    · obtain ⟨b, hb⟩ := Classical.not_forall_not.mp hne
      rw [hb, ← String.toList_ofList (l := c :: ds), hb]
      cases b with
      | true => exact .boolean true
      | false => exact .boolean false
  | quoted quote content stage =>
    obtain ⟨hquote, written, hcontent, rfl⟩ := h
    have hmeant : content = String.ofList content.toList := by simp
    cases stage with
    | inside =>
      simp only [QuoteStage.ending, List.append_nil, kind?]
      exact hmeant ▸ .unclosed hquote hcontent
    | escaped =>
      simp only [QuoteStage.ending, kind?]
      exact hmeant ▸ .brokenOff hquote hcontent
    | closed =>
      simp only [QuoteStage.ending, kind?]
      exact hmeant ▸ .closed hquote hcontent
  | operator op =>
    obtain rfl : cs = op.symbol.toList := h
    exact .operator op
  | openParen =>
    obtain rfl : cs = ['('] := h
    exact .openParen
  | closeParen =>
    obtain rfl : cs = [')'] := h
    exact .closeParen
  | comma =>
    obtain rfl : cs = [','] := h
    exact .comma
  | stray => exact absurd rfl hform

/-- **Lexemes are the texts of a form**, and the form says what token they are. -/
theorem lexeme_iff {cs : List Char} {kind : Option TokenKind} : Lexeme cs kind ↔
    ∃ form, form ≠ .stray ∧ formOfText? cs = some form ∧
      (⟨form, String.ofList cs⟩ : Piece).kind? = kind := by
  simp only [formOfText?_eq_some_iff]
  refine ⟨exists_shape_of_lexeme, ?_⟩
  rintro ⟨form, hform, hshape, rfl⟩
  exact lexeme_of_shape hform hshape

theorem Lexeme.kind_unique {cs : List Char} {kind kind' : Option TokenKind} (h : Lexeme cs kind)
    (h' : Lexeme cs kind') : kind = kind' := by
  obtain ⟨form, -, hform, rfl⟩ := lexeme_iff.mp h
  obtain ⟨form', -, hform', rfl⟩ := lexeme_iff.mp h'
  rw [Option.some.inj (hform.symm.trans hform')]

theorem Lexeme.ne_nil {cs : List Char} {kind : Option TokenKind} (h : Lexeme cs kind) :
    cs ≠ [] := by
  rintro rfl
  obtain ⟨form, -, hform, -⟩ := lexeme_iff.mp h
  exact absurd hform (by simp [formOfText?])

/-! ## Cutting -/

theorem First.ne_nil {cs piece : List Char} (h : First cs piece) : piece ≠ [] := by
  cases h with
  | lexeme h => exact h.ne_nil
  | stray => simp

theorem First.unique {cs piece piece' : List Char} (h : First cs piece) (h' : First cs piece') :
    piece = piece' := by
  cases h with
  | lexeme h hfront hlongest =>
    cases h' with
    | lexeme h' hfront' hlongest' =>
      exact (List.prefix_of_prefix_length_le hfront hfront' (hlongest' _ _ h hfront)).eq_of_length
        (Nat.le_antisymm (hlongest' _ _ h hfront) (hlongest _ _ h' hfront'))
    | stray hnone => exact absurd hfront (hnone _ _ h)
  | stray hnone =>
    cases h' with
    | lexeme h' hfront' => exact absurd hfront' (hnone _ _ h')
    | stray => rfl

/-- Cutting loses nothing. -/
theorem Cut.flatten_eq {cs : List Char} {pieces : List (List Char)} (h : Cut cs pieces) :
    pieces.flatten = cs := by
  induction h with
  | nil => rfl
  | cons _ _ ih => rw [List.flatten_cons, ih]

theorem Cut.ne_nil {cs : List Char} {pieces : List (List Char)} (h : Cut cs pieces) :
    ∀ piece ∈ pieces, piece ≠ [] := by
  induction h with
  | nil => simp
  | cons hfirst _ ih => exact List.forall_mem_cons.mpr ⟨hfirst.ne_nil, ih⟩

theorem Cut.cons_inv {cs : List Char} {pieces : List (List Char)} (h : Cut cs pieces)
    (hcs : cs ≠ []) : ∃ piece rest later, cs = piece ++ rest ∧ pieces = piece :: later ∧
      First cs piece ∧ Cut rest later := by
  cases h with
  | nil => exact absurd rfl hcs
  | cons hfirst hrest => exact ⟨_, _, _, rfl, rfl, hfirst, hrest⟩

/-- **A text is cut in one way.** -/
theorem Cut.unique {cs : List Char} {pieces pieces' : List (List Char)} (h : Cut cs pieces)
    (h' : Cut cs pieces') : pieces = pieces' := by
  induction h generalizing pieces' with
  | nil =>
    cases pieces' with
    | nil => rfl
    | cons piece later =>
      have hflatten := h'.flatten_eq
      rw [List.flatten_cons, List.append_eq_nil_iff] at hflatten
      exact absurd hflatten.1 (h'.ne_nil piece List.mem_cons_self)
  | @cons piece rest later hfirst hrest ih =>
    obtain ⟨piece', rest', later', hcs, rfl, hfirst', hrest'⟩ :=
      h'.cons_inv (List.append_ne_nil_of_left_ne_nil hfirst.ne_nil rest)
    obtain rfl := hfirst.unique hfirst'
    obtain rfl := List.append_cancel_left hcs
    rw [ih hrest']

/-- A piece that cannot take the next character is the first one. -/
theorem first_of_grownForm?_eq_none {cs rest : List Char} {form : PieceForm}
    (hform : formOfText? cs = some form)
    (hrest : ∀ d ds, rest = d :: ds → grownForm? d form = none) : First (cs ++ rest) cs := by
  have hshape := formOfText?_eq_some_iff.mp hform
  by_cases hstray : form = .stray
  · subst hstray
    obtain ⟨c, rfl, hc⟩ := hshape
    refine .stray fun other kind hother hfront ↦ ?_
    obtain ⟨form', hform', hother', -⟩ := lexeme_iff.mp hother
    obtain ⟨d, ds, rfl⟩ := List.exists_cons_of_ne_nil hother.ne_nil
    obtain ⟨rfl, -⟩ := List.cons_prefix_cons.mp hfront
    -- nothing grows out of a stray character, so the lexeme would be stray itself
    rw [formOfText?, hc] at hother'
    cases ds with
    | nil => exact hform' (Option.some.inj hother').symm
    | cons e es => exact absurd hother' (by simp [grownForms?_cons, grownForm?])
  · refine .lexeme (lexeme_of_shape hstray hshape) (List.prefix_append cs rest)
      fun other kind hother hfront ↦ Nat.le_of_not_lt fun hlt ↦ ?_
    obtain ⟨form', -, hother', -⟩ := lexeme_iff.mp hother
    obtain ⟨more, rfl⟩ :=
      List.prefix_of_prefix_length_le (List.prefix_append cs rest) hfront (Nat.le_of_lt hlt)
    have hgrown := grownForms?_of_formOfText?_append hform hother'
    cases more with
    | nil => exact absurd hlt (by simp)
    | cons d ds =>
      obtain ⟨es, hes⟩ := (List.prefix_append_right_inj cs).mp hfront
      rw [grownForms?_cons, hrest d (ds ++ es) hes.symm] at hgrown
      exact absurd hgrown (by simp)

/-- A piece takes what it can and leaves the rest to the others. -/
theorem splitFrom_eq (cs : List Char) : ∀ p : Piece, ∃ taken rest form, cs = taken ++ rest ∧
    grownForms? p.form taken = some form ∧
    (∀ d ds, rest = d :: ds → grownForm? d form = none) ∧
    splitFrom p cs = ⟨form, p.source ++ String.ofList taken⟩ :: split rest := by
  induction cs with
  | nil => exact fun p ↦ ⟨[], [], p.form, rfl, rfl, by simp, by simp [splitFrom, split]⟩
  | cons c cs ih =>
    intro p
    cases hgrown : grownForm? c p.form with
    | none =>
      refine ⟨[], c :: cs, p.form, rfl, rfl, ?_, ?_⟩
      · rintro d ds h
        obtain ⟨rfl, -⟩ := List.cons.inj h
        exact hgrown
      · have hstays : p.grow? c = none := by rw [grow?, hgrown]; rfl
        simp [splitFrom, split, hstays]
    | some form₁ =>
      have hgrows : p.grow? c = some ⟨form₁, p.source.push c⟩ := by rw [grow?, hgrown]; rfl
      obtain ⟨taken, rest, form, rfl, htaken, hrest, hsplit⟩ := ih ⟨form₁, p.source.push c⟩
      refine ⟨c :: taken, rest, form, rfl, ?_, hrest, ?_⟩
      · rw [grownForms?_cons, hgrown]
        exact htaken
      · have hsource : p.source.push c ++ String.ofList taken
            = p.source ++ String.ofList (c :: taken) := by
          apply String.toList_inj.mp
          simp
        simp only [splitFrom, hgrows, hsplit, hsource]

/-- The first piece of a text and the others. -/
theorem split_cons (c : Char) (cs : List Char) : ∃ taken rest form, cs = taken ++ rest ∧
    formOfText? (c :: taken) = some form ∧
    (∀ d ds, rest = d :: ds → grownForm? d form = none) ∧
    split (c :: cs) = ⟨form, String.ofList (c :: taken)⟩ :: split rest := by
  obtain ⟨taken, rest, form, hcs, htaken, hrest, hsplit⟩ := splitFrom_eq cs (start c)
  refine ⟨taken, rest, form, hcs, htaken, hrest, ?_⟩
  have hsource : (start c).source ++ String.ofList taken = String.ofList (c :: taken) := by
    apply String.toList_inj.mp
    simp [start]
  rw [split, hsplit, hsource]

/-- What holds of the empty text, and of a text whenever it holds of what is behind the first piece,
holds of every text with its pieces. -/
@[elab_as_elim]
theorem split_induction {motive : List Char → List Piece → Prop} (nil : motive [] [])
    (cons : ∀ (piece rest : List Char) (form : PieceForm), formOfText? piece = some form →
      (∀ d ds, rest = d :: ds → grownForm? d form = none) → motive rest (split rest) →
      motive (piece ++ rest) (⟨form, String.ofList piece⟩ :: split rest)) (cs : List Char) :
    motive cs (split cs) := by
  -- what is behind the first piece is shorter, as that piece has a character at least
  induction hlength : cs.length using Nat.strongRecOn generalizing cs with
  | ind length ih =>
    cases cs with
    | nil => exact nil
    | cons c cs =>
      obtain ⟨taken, rest, form, rfl, htaken, hrest, hsplit⟩ := split_cons c cs
      have hshorter : rest.length < length := by
        rw [← hlength, List.length_cons, List.length_append]
        omega
      rw [hsplit, ← List.cons_append]
      exact cons _ rest form htaken hrest (ih rest.length hshorter rest rfl)

/-- The characters of a piece. -/
def Piece.text (p : Piece) : List Char := p.source.toList

/-- **Growing pieces is cutting by the longest lexeme.** -/
theorem cut_split (cs : List Char) : Cut cs ((split cs).map Piece.text) := by
  induction cs using split_induction with
  | nil => exact .nil
  | cons piece rest form hpiece hrest hlater =>
    rw [List.map_cons, Piece.text, String.toList_ofList]
    exact .cons (first_of_grownForm?_eq_none hpiece hrest) hlater

theorem cut_iff {cs : List Char} {pieces : List (List Char)} :
    Cut cs pieces ↔ pieces = (split cs).map Piece.text :=
  ⟨fun h ↦ h.unique (cut_split cs), fun h ↦ h ▸ cut_split cs⟩

/-- A piece of a text has the form of its characters. -/
theorem formOfText?_of_mem_split (cs : List Char) :
    ∀ p ∈ split cs, formOfText? p.text = some p.form := by
  induction cs using split_induction with
  | nil => exact fun p hp ↦ absurd hp List.not_mem_nil
  | cons piece rest form hpiece _ hlater =>
    refine List.forall_mem_cons.mpr ⟨?_, hlater⟩
    rw [Piece.text, String.toList_ofList]
    exact hpiece

end Formula
