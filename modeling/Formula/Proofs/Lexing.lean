import Formula.Proofs.Lexeme

/-!
# Cutting a source into tokens

What the tokens of a source are, said without an order of doing things. The blanks around the text
come off (`Trimmed`), the rest is cut into lexemes (`Cut`), and the pieces give tokens (`Gives`): a
lexeme gives one, except that blanks give none and that a minus and the numeral behind it may give
one together (`Signed`); a character of no lexeme is reported and gives none. Every token has the
offset at which its piece begins, counted in bytes of the source.

Each of the three relations has exactly one outcome, and together they are what `tokenize` and
`strays` compute (`tokenize_grammar`).
-/

namespace Formula

open Piece Tokenization

/-- The number of bytes that characters take. -/
def bytes (cs : List Char) : Nat := (String.ofList cs).utf8ByteSize

theorem bytes_append (cs ds : List Char) : bytes (cs ++ ds) = bytes cs + bytes ds := by
  rw [bytes, String.ofList_append, String.utf8ByteSize_append]
  rfl

theorem bytes_toList (s : String) : bytes s.toList = s.utf8ByteSize := by
  rw [bytes, String.ofList_toList]

/-! ## Trimming -/

/-- A text with the blanks around it set apart. If there is nothing else, they are in front. -/
structure Trimmed (cs front middle back : List Char) : Prop where
  whole : cs = front ++ (middle ++ back)
  front_blank : ∀ c ∈ front, Text.isBlank c
  back_blank : ∀ c ∈ back, Text.isBlank c
  begins : ∀ c ∈ (middle ++ back).head?, ¬Text.isBlank c
  ends : ∀ c ∈ middle.getLast?, ¬Text.isBlank c

namespace Text

/-- A text is cut at its first character that is not of a class, such as that of the blanks. -/
theorem takeWhile_dropWhile_eq {p : Char → Bool} {front rest : List Char}
    (hfront : ∀ c ∈ front, p c) (hrest : ∀ c ∈ rest.head?, ¬p c) :
    (front ++ rest).takeWhile p = front ∧ (front ++ rest).dropWhile p = rest := by
  rw [List.takeWhile_append_of_pos hfront, List.dropWhile_append_of_pos hfront]
  cases rest with
  | nil => simp
  | cons c cs =>
    have hc : p c = false := by simpa using hrest c rfl
    simp [hc]

theorem not_isBlank_of_mem_head?_dropWhile {cs : List Char} {c : Char}
    (hc : c ∈ (cs.dropWhile isBlank).head?) : ¬isBlank c := by
  have hnot := List.head?_dropWhile_not isBlank cs
  rw [hc] at hnot
  simpa using hnot

theorem isBlank_of_mem_takeWhile {cs : List Char} {c : Char} (hc : c ∈ cs.takeWhile isBlank) :
    isBlank c := List.all_eq_true.mp List.all_takeWhile c hc

/-- The blanks at the end. -/
def blanksBehind (cs : List Char) : List Char := (cs.reverse.takeWhile isBlank).reverse

theorem trimBack_append_blanksBehind (cs : List Char) : trimBack cs ++ blanksBehind cs = cs := by
  rw [trimBack, blanksBehind, ← List.reverse_append, List.takeWhile_append_dropWhile,
    List.reverse_reverse]

end Text

/-- **The blanks around a text come off in one way.** -/
theorem trimmed_iff {cs front middle back : List Char} : Trimmed cs front middle back ↔
    front = cs.takeWhile Text.isBlank ∧ middle = Text.trim cs ∧
      back = Text.blanksBehind (Text.trimFront cs) := by
  constructor
  · rintro ⟨rfl, hfront, hback, hbegins, hends⟩
    obtain ⟨htake, hdrop⟩ := Text.takeWhile_dropWhile_eq hfront hbegins
    -- the same for what is left, from the other side
    have hback' : ∀ c ∈ back.reverse, Text.isBlank c := by simpa using hback
    have hends' : ∀ c ∈ middle.reverse.head?, ¬Text.isBlank c := by simpa using hends
    obtain ⟨htake', hdrop'⟩ := Text.takeWhile_dropWhile_eq hback' hends'
    refine ⟨htake.symm, ?_, ?_⟩
    · rw [Text.trim, Text.trimFront, hdrop, Text.trimBack, List.reverse_append, hdrop',
        List.reverse_reverse]
    · rw [Text.trimFront, hdrop, Text.blanksBehind, List.reverse_append, htake',
        List.reverse_reverse]
  · rintro ⟨rfl, rfl, rfl⟩
    have hwhole := Text.trimBack_append_blanksBehind (Text.trimFront cs)
    refine ⟨?_, fun c ↦ Text.isBlank_of_mem_takeWhile, fun c hc ↦ ?_, fun c hc ↦ ?_, fun c hc ↦ ?_⟩
    · rw [Text.trim, hwhole, Text.takeWhile_append_trimFront]
    · exact Text.isBlank_of_mem_takeWhile (List.mem_reverse.mp hc)
    · rw [Text.trim, hwhole] at hc
      exact Text.not_isBlank_of_mem_head?_dropWhile hc
    · rw [Text.trim, Text.trimBack, List.getLast?_reverse] at hc
      exact Text.not_isBlank_of_mem_head?_dropWhile hc

theorem Trimmed.trim_eq {cs front middle back : List Char} (h : Trimmed cs front middle back) :
    Text.trim cs = middle := (trimmed_iff.mp h).2.1.symm

/-! ## The tokens of pieces -/

/-- Behind which tokens only a value can follow. -/
inductive BeforeValue : Option TokenKind → Prop
  | start : BeforeValue none
  | openParen : BeforeValue (some .openParen)
  | operator (op : Operator) : BeforeValue (some (.operator op))
  | comma : BeforeValue (some .comma)

/-- A minus and the numeral `digits` behind it that are one literal, behind a given token. -/
structure Signed (previous : Option TokenKind) (sign digits : List Char) (x : Float) : Prop where
  sign_eq : sign = ['-']
  beforeValue : BeforeValue previous
  digit : ∃ d ds, digits = d :: ds ∧ d.isDigit
  numeral : Lexeme digits (some (.number x))

/-- The tokens and the stray characters of pieces that begin at an offset behind a given token. -/
inductive Gives : Option TokenKind → Nat → List (List Char) → List Token → List Stray → Prop
  | done {previous : Option TokenKind} {offset : Nat} :
    Gives previous offset [] [⟨.endOfInput, offset⟩] []
  | blank {previous : Option TokenKind} {offset : Nat} {piece : List Char}
    {later : List (List Char)} {tokens : List Token} {strays : List Stray} (h : Lexeme piece none)
    (hlater : Gives previous (offset + bytes piece) later tokens strays) :
    Gives previous offset (piece :: later) tokens strays
  | stray {previous : Option TokenKind} {offset : Nat} {c : Char} {later : List (List Char)}
    {tokens : List Token} {strays : List Stray} (h : ∀ kind, ¬Lexeme [c] kind)
    (hlater : Gives previous (offset + bytes [c]) later tokens strays) :
    Gives previous offset ([c] :: later) tokens (⟨c, offset⟩ :: strays)
  | signed {previous : Option TokenKind} {offset : Nat} {sign digits : List Char} {x : Float}
    {later : List (List Char)} {tokens : List Token} {strays : List Stray}
    (h : Signed previous sign digits x)
    (hlater : Gives (some (.number (-x))) (offset + bytes sign + bytes digits) later tokens
      strays) :
    Gives previous offset (sign :: digits :: later) (⟨.number (-x), offset⟩ :: tokens) strays
  | single {previous : Option TokenKind} {offset : Nat} {piece : List Char} {kind : TokenKind}
    {later : List (List Char)} {tokens : List Token} {strays : List Stray}
    (h : Lexeme piece (some kind))
    (halone : ∀ digits x, digits ∈ later.head? → ¬Signed previous piece digits x)
    (hlater : Gives (some kind) (offset + bytes piece) later tokens strays) :
    Gives previous offset (piece :: later) (⟨kind, offset⟩ :: tokens) strays

theorem lexeme_minus : Lexeme ['-'] (some (.operator (.arithmetic .subtract))) :=
  .operator (.arithmetic .subtract)

theorem Signed.lexeme {previous : Option TokenKind} {sign digits : List Char} {x : Float}
    (h : Signed previous sign digits x) :
    Lexeme sign (some (.operator (.arithmetic .subtract))) := h.sign_eq ▸ lexeme_minus

/-- **Pieces give tokens and stray characters in one way.** -/
theorem Gives.unique {previous : Option TokenKind} {offset : Nat} {pieces : List (List Char)}
    {tokens tokens' : List Token} {strays strays' : List Stray}
    (h : Gives previous offset pieces tokens strays)
    (h' : Gives previous offset pieces tokens' strays') : tokens = tokens' ∧ strays = strays' := by
  induction h generalizing tokens' strays' with
  | done =>
    cases h'
    exact ⟨rfl, rfl⟩
  | blank h _ ih =>
    cases h' with
    | blank _ hlater' => exact ih hlater'
    | stray h' => exact absurd h (h' _)
    | signed h' => exact absurd (h.kind_unique h'.lexeme) (by simp)
    | single h' => exact absurd (h.kind_unique h') (by simp)
  | stray h _ ih =>
    cases h' with
    | blank h' => exact absurd h' (h _)
    | stray _ hlater' =>
      obtain ⟨rfl, rfl⟩ := ih hlater'
      exact ⟨rfl, rfl⟩
    | signed h' => exact absurd h'.lexeme (h _)
    | single h' => exact absurd h' (h _)
  | signed h _ ih =>
    cases h' with
    | blank h' => exact absurd (h'.kind_unique h.lexeme) (by simp)
    | stray h' => exact absurd h.lexeme (h' _)
    | signed h' hlater' =>
      obtain rfl := TokenKind.number.inj (Option.some.inj (h.numeral.kind_unique h'.numeral))
      obtain ⟨rfl, rfl⟩ := ih hlater'
      exact ⟨rfl, rfl⟩
    | single _ halone' => exact absurd h (halone' _ _ rfl)
  | single h halone _ ih =>
    cases h' with
    | blank h' => exact absurd (h.kind_unique h') (by simp)
    | stray h' => exact absurd h (h' _)
    | signed h' => exact absurd h' (halone _ _ rfl)
    | single h' _ hlater' =>
      obtain rfl := Option.some.inj (h.kind_unique h')
      obtain ⟨rfl, rfl⟩ := ih hlater'
      exact ⟨rfl, rfl⟩

/-! ## The pieces of a split -/

section Split

variable {p q : Piece}

theorem bytes_text (p : Piece) : bytes p.text = p.size := bytes_toList p.source

theorem lexeme_text_iff (hp : formOfText? p.text = some p.form) {kind : Option TokenKind} :
    Lexeme p.text kind ↔ p.form ≠ .stray ∧ p.kind? = kind := by
  have hself : (⟨p.form, String.ofList p.text⟩ : Piece) = p := by
    rw [Piece.text, String.ofList_toList]
  rw [lexeme_iff]
  constructor
  · rintro ⟨form, hform, htext, hkind⟩
    obtain rfl := Option.some.inj (hp.symm.trans htext)
    exact ⟨hform, hself ▸ hkind⟩
  · rintro ⟨hform, hkind⟩
    exact ⟨p.form, hform, hp, hself.symm ▸ hkind⟩

theorem lexeme_text_of_kind? (hp : formOfText? p.text = some p.form) {kind : TokenKind}
    (h : p.kind? = some kind) : Lexeme p.text (some kind) := by
  refine (lexeme_text_iff hp).mpr ⟨fun hform ↦ ?_, h⟩
  rw [kind?, hform] at h
  exact absurd h (by simp)

theorem text_of_stray (hp : formOfText? p.text = some p.form) (hform : p.form = .stray) :
    ∃ c, p.text = [c] := by
  have hshape := formOfText?_eq_some_iff.mp hp
  rw [hform] at hshape
  obtain ⟨c, hc, -⟩ := hshape
  exact ⟨c, hc⟩

theorem expectsValue_iff {previous : Option TokenKind} :
    expectsValue previous ↔ BeforeValue previous := by
  constructor
  · intro h
    unfold expectsValue at h
    split at h
    · exact .start
    · exact .openParen
    · exact .operator _
    · exact .comma
    · exact absurd h (by simp)
  · rintro (_ | _ | _ | _) <;> rfl

theorem kind?_eq_minus_iff (hp : formOfText? p.text = some p.form) :
    p.kind? = some (.operator (.arithmetic .subtract)) ↔ p.text = ['-'] := by
  constructor
  · intro h
    have hlexeme := lexeme_text_of_kind? hp h
    generalize p.text = text at hlexeme
    cases hlexeme
    rfl
  · intro h
    exact ((lexeme_text_iff hp).mp (h ▸ lexeme_minus)).2

/-- The number in a piece stands alone where it does not begin with a digit. -/
theorem digits?_eq_some_iff (hq : formOfText? q.text = some q.form) {x : Float} :
    q.digits? = some x ↔
      (∃ d ds, q.text = d :: ds ∧ d.isDigit) ∧ Lexeme q.text (some (.number x)) := by
  have hnumber : q.kind? = some (.number x) ↔ q.form = .number ∧ Number.ofLiteral q.source = x := by
    unfold kind?
    repeat' split
    all_goals simp_all
  rw [lexeme_text_iff hq, hnumber, digits?, Piece.text]
  cases q.source.toList with
  | nil => simp
  | cons d ds =>
    by_cases hform : q.form = .number <;> by_cases hd : d.isDigit <;> simp [hform, hd]

/-- A minus and the piece behind it become one literal exactly where they are one. -/
theorem negative?_eq_some_iff (hp : formOfText? p.text = some p.form)
    (hq : formOfText? q.text = some q.form) {previous : Option TokenKind} {kind : TokenKind}
    (hkind : p.kind? = some kind) {y : Float} :
    negative? previous kind q = some y ↔ ∃ x, y = -x ∧ Signed previous p.text q.text x := by
  have hminus : kind = .operator (.arithmetic .subtract) ↔ p.text = ['-'] := by
    rw [← kind?_eq_minus_iff hp, hkind, Option.some.injEq]
  constructor
  · intro h
    unfold negative? at h
    split at h
    · next hcondition =>
      obtain ⟨hsign, hprevious⟩ := Bool.and_eq_true_iff.mp hcondition
      obtain ⟨x, hx, rfl⟩ := Option.map_eq_some_iff.mp h
      obtain ⟨hdigit, hnumeral⟩ := (digits?_eq_some_iff hq).mp hx
      exact ⟨x, rfl, hminus.mp (of_decide_eq_true hsign), expectsValue_iff.mp hprevious, hdigit,
        hnumeral⟩
    · exact absurd h (by simp)
  · rintro ⟨x, rfl, hsign, hprevious, hdigit, hnumeral⟩
    rw [negative?, if_pos (by simp [hminus.mpr hsign, expectsValue_iff.mpr hprevious]),
      (digits?_eq_some_iff hq).mpr ⟨hdigit, hnumeral⟩]
    rfl

theorem straysFrom_of_ne {n : Nat} {ps : List Piece} (h : p.form ≠ .stray) :
    straysFrom n (p :: ps) = straysFrom (n + p.size) ps := by
  rw [straysFrom]
  split
  · next hform _ => exact absurd hform h
  · rfl

theorem straysFrom_stray {n : Nat} {ps : List Piece} {c : Char} (h : p.form = .stray)
    (hc : p.text = [c]) : straysFrom n (p :: ps) = ⟨c, n⟩ :: straysFrom (n + p.size) ps := by
  rw [Piece.text] at hc
  simp only [straysFrom, h, hc]

/-- The tokens and stray characters that are computed are those that the pieces give. -/
theorem gives_tokensFrom (previous : Option TokenKind) (n : Nat) (ps : List Piece)
    (hps : ∀ p ∈ ps, formOfText? p.text = some p.form) :
    Gives previous n (ps.map Piece.text) (tokensFrom previous n ps) (straysFrom n ps) := by
  fun_induction tokensFrom previous n ps with
  | case1 previous n => exact .done
  | case2 previous n p ps hkind ih =>
    obtain ⟨hp, hps⟩ := List.forall_mem_cons.mp hps
    have hlater := ih hps
    rw [← bytes_text] at hlater
    by_cases hform : p.form = .stray
    · obtain ⟨c, hc⟩ := text_of_stray hp hform
      rw [straysFrom_stray hform hc, List.map_cons, hc, ← bytes_text, hc]
      refine .stray (fun kind h ↦ ((lexeme_text_iff hp).mp (hc ▸ h)).1 hform) (hc ▸ hlater)
    · rw [straysFrom_of_ne hform, ← bytes_text]
      exact .blank ((lexeme_text_iff hp).mpr ⟨hform, hkind⟩) hlater
  | case3 previous n p kind hkind =>
    obtain ⟨hp, -⟩ := List.forall_mem_cons.mp hps
    have hlexeme := lexeme_text_of_kind? hp hkind
    rw [straysFrom_of_ne ((lexeme_text_iff hp).mp hlexeme).1, ← bytes_text]
    exact .single hlexeme (fun digits x h ↦ absurd h (by simp)) .done
  | case4 previous n p kind q rest hkind x hx ih =>
    obtain ⟨hp, hbehind⟩ := List.forall_mem_cons.mp hps
    obtain ⟨hq, hrest⟩ := List.forall_mem_cons.mp hbehind
    obtain ⟨y, rfl, hsigned⟩ := (negative?_eq_some_iff hp hq hkind).mp hx
    rw [straysFrom_of_ne ((lexeme_text_iff hp).mp hsigned.lexeme).1,
      straysFrom_of_ne ((lexeme_text_iff hq).mp hsigned.numeral).1, ← bytes_text, ← bytes_text]
    have hlater := ih hrest
    rw [← bytes_text, ← bytes_text] at hlater
    exact .signed hsigned hlater
  | case5 previous n p kind q rest hkind hx ih =>
    obtain ⟨hp, hbehind⟩ := List.forall_mem_cons.mp hps
    obtain ⟨hq, -⟩ := List.forall_mem_cons.mp hbehind
    have hlexeme := lexeme_text_of_kind? hp hkind
    rw [straysFrom_of_ne ((lexeme_text_iff hp).mp hlexeme).1, ← bytes_text]
    have hlater := ih hbehind
    rw [← bytes_text] at hlater
    refine .single hlexeme (fun digits x hdigits hsigned ↦ ?_) hlater
    obtain rfl := Option.some.inj hdigits
    rw [(negative?_eq_some_iff hp hq hkind).mpr ⟨x, rfl, hsigned⟩] at hx
    exact absurd hx (by simp)

end Split

theorem gives_tokenize (source : String) :
    Gives none (leadingBytes source) ((piecesOf source).map Piece.text) (tokenize source)
      (strays source) :=
  gives_tokensFrom none _ _ (formOfText?_of_mem_split _)

/-- **Tokens are what the lexical grammar says.** A source has one text between its blanks, the text
has one cut into longest lexemes, which loses nothing of it, and the pieces give one list of tokens
and one of stray characters: those that are computed. -/
theorem tokenize_grammar (source : String) : ∃ front middle back pieces,
    (∀ f m b, Trimmed source.toList f m b ↔ f = front ∧ m = middle ∧ b = back) ∧
    (∀ ps, Cut middle ps ↔ ps = pieces) ∧
    pieces.flatten = middle ∧ (∀ piece ∈ pieces, piece ≠ []) ∧
    ∀ tokens strays', Gives none (bytes front) pieces tokens strays' ↔
      tokens = tokenize source ∧ strays' = strays source := by
  have hcut := cut_split (Text.trim source.toList)
  have hgives := gives_tokenize source
  refine ⟨_, _, _, _, fun f m b ↦ trimmed_iff, fun ps ↦ cut_iff, hcut.flatten_eq, hcut.ne_nil,
    fun tokens strays' ↦ ⟨fun h ↦ h.unique hgives, ?_⟩⟩
  rintro ⟨rfl, rfl⟩
  exact hgives

end Formula
