import Formula.Proofs.Escaping
import Formula.Proofs.Numeral

/-!
# Tokens written out

A list of tokens can be written out if its identifiers are names and its numbers are finite, with
their signs set only where a value has to follow (`Writable`). Each token has a spelling
(`TokenKind.spelling`), and spellings with blanks between them are read back as the tokens they were
made from, whatever the blanks are and whichever quotes are put around a text (`tokenize_written`).

A spelling is one lexeme, except that a number with its sign set is a minus and a numeral. In front
of blanks a spelling ends, and the numeral behind blanks is never taken by a minus in front of them.
So what is to be shown of a token is shown of its spelling alone (`Spells`), and a list of tokens
adds nothing to that but what each of them stands behind.
-/

namespace Formula

open Piece

/-! ## Spellings -/

/-- Words that are names. -/
structure IsName (name : String) : Prop where
  word : ∃ c cs, name.toList = c :: cs ∧ beginsWord c ∧ ∀ d ∈ cs, isWord d
  not_boolean : ∀ b, name ≠ Value.boolText b

/-- How a token is written, a text with the given quotes. -/
def TokenKind.spelling (quote : Char) : TokenKind → String
  | number x => Number.text x
  | text s => Text.literal quote s
  | boolean b => Value.boolText b
  | identifier name => name
  | operator op => op.symbol
  | openParen => "("
  | closeParen => ")"
  | comma => ","
  | endOfInput => ""

/-- The texts that tokens are written as: their spellings, with blanks between them. -/
inductive Written : List TokenKind → List Char → Prop
  | nil : Written [] []
  | single {quote : Char} (hquote : isQuote quote) (kind : TokenKind) :
    Written [kind] (kind.spelling quote).toList
  | cons {quote : Char} (hquote : isQuote quote) (kind : TokenKind) {blanks : List Char}
    (hne : blanks ≠ []) (hblanks : ∀ c ∈ blanks, isBlank c) {next : TokenKind}
    {kinds : List TokenKind} {cs : List Char} (hlater : Written (next :: kinds) cs) :
    Written (kind :: next :: kinds) ((kind.spelling quote).toList ++ (blanks ++ cs))

/-- Which tokens have a spelling that can stand behind a given token, or in front. -/
inductive Spellable : Option TokenKind → TokenKind → Prop
  | number {previous : Option TokenKind} {x : Float} (hfinite : x.isFinite)
    (hsign : Binary64.isNegative x → BeforeValue previous) : Spellable previous (.number x)
  | text {previous : Option TokenKind} (s : String) : Spellable previous (.text s)
  | boolean {previous : Option TokenKind} (b : Bool) : Spellable previous (.boolean b)
  | identifier {previous : Option TokenKind} {name : String} (hname : IsName name) :
    Spellable previous (.identifier name)
  | operator {previous : Option TokenKind} (op : Operator) : Spellable previous (.operator op)
  | openParen {previous : Option TokenKind} : Spellable previous .openParen
  | closeParen {previous : Option TokenKind} : Spellable previous .closeParen
  | comma {previous : Option TokenKind} : Spellable previous .comma

/-- Lists of tokens that can be written behind a given token, or in front. -/
inductive Writable : Option TokenKind → List TokenKind → Prop
  | nil {previous : Option TokenKind} : Writable previous []
  | cons {previous : Option TokenKind} {kind : TokenKind} {kinds : List TokenKind}
    (h : Spellable previous kind) (hlater : Writable (some kind) kinds) :
    Writable previous (kind :: kinds)

/-! ## Spellings read back -/

/-- Pieces of one token, which blanks end and nothing is to be trimmed from. -/
structure Spells (previous : Option TokenKind) (kind : TokenKind) (pieces : List (List Char)) :
    Prop where
  cut : Cut pieces.flatten pieces
  gives : ∀ offset, Gives previous offset pieces
    [⟨kind, offset⟩, ⟨.endOfInput, offset + bytes pieces.flatten⟩] []
  ended : ∀ rest, (∀ c ∈ rest.head?, isBlank c) → Ended pieces rest
  trimmed : Trimmed pieces.flatten [] pieces.flatten []

section Spells

variable {previous : Option TokenKind} {kind : TokenKind} {cs : List Char} {quote : Char}

theorem Spells.of_lexeme (h : Lexeme cs (some kind))
    (hended : ∀ rest, (∀ c ∈ rest.head?, isBlank c) → Ended [cs] rest)
    (htrimmed : Trimmed cs [] cs []) : Spells previous kind [cs] := by
  have hflatten : [cs].flatten = cs := List.flatten_singleton
  refine ⟨?_, fun offset ↦ ?_, hended, ?_⟩
  · rw [hflatten]
    exact cut_lexeme h
  · rw [hflatten]
    exact .single h (by simp) .done
  · rwa [hflatten]

/-- A lexeme of no blanks, whose token is no text, ends in front of blanks. -/
theorem ended_lexeme (h : Lexeme cs (some kind)) (hkind : ∀ s, kind ≠ .text s) {rest : List Char}
    (hrest : ∀ c ∈ rest.head?, isBlank c) : Ended [cs] rest := by
  obtain ⟨form, -, hform, hkind'⟩ := lexeme_iff.mp h
  refine ended_of_isBlank (fun piece hpiece ↦ ?_) hrest
  obtain rfl : cs = piece := Option.some.inj hpiece
  refine ⟨form, hform, fun hopen ↦ ?_, ?_⟩
  · rcases form with _ | _ | _ | ⟨_, content, _⟩ | _ | _ | _ | _ | _
    case quoted => exact hkind content (Option.some.inj hkind').symm
    all_goals exact Bool.false_ne_true hopen
  · rintro rfl
    exact absurd hkind' (by simp [Piece.kind?])

theorem Spells.of_unquoted (h : Lexeme cs (some kind)) (hkind : ∀ s, kind ≠ .text s)
    (hblank : ∀ c ∈ cs, ¬Text.isBlank c) : Spells previous kind [cs] :=
  .of_lexeme h (fun _ ↦ ended_lexeme h hkind) (.of_forall hblank)

theorem Spells.of_text (hquote : isQuote quote) (s : String) :
    Spells previous (.text s) [(Text.literal quote s).toList] :=
  .of_lexeme (lexeme_literal hquote s) (fun rest _ ↦ ended_literal hquote s rest)
    (trimmed_literal hquote s)

theorem IsName.lexeme {name : String} (h : IsName name) :
    Lexeme name.toList (some (.identifier name)) := by
  obtain ⟨⟨c, cs, hname, hc, hcs⟩, hne⟩ := h
  have hself : String.ofList (c :: cs) = name := by rw [← hname, String.ofList_toList]
  have hlexeme := Lexeme.name hc hcs (by rwa [hself])
  rwa [hself, ← hname] at hlexeme

theorem IsName.not_isBlank {name : String} (h : IsName name) :
    ∀ c ∈ name.toList, ¬Text.isBlank c := by
  obtain ⟨⟨c, cs, hname, hc, hcs⟩, -⟩ := h
  have hword : ∀ d ∈ c :: cs, isWord d := List.forall_mem_cons.mpr ⟨by simp [isWord, hc], hcs⟩
  rw [hname]
  exact fun d hd hblank ↦ not_isWord_of_isBlank hblank (hword d hd)

theorem not_isBlank_of_mem_symbol (op : Operator) : ∀ c ∈ op.symbol.toList, ¬Text.isBlank c := by
  rcases op with (_ | _ | _ | _ | _) | (_ | _ | _ | _ | _ | _) | _ | _ <;>
    exact not_isBlank_of_any rfl

theorem not_isBlank_of_mem_boolText (b : Bool) :
    ∀ c ∈ (Value.boolText b).toList, ¬Text.isBlank c := by
  cases b <;> exact not_isBlank_of_any rfl

/-- A minus and a numeral are one token where a value has to follow. -/
theorem Spells.of_signed {digits : List Char} (hprevious : BeforeValue previous)
    (hdigit : ∃ d ds, digits = d :: ds ∧ d.isDigit) (hnumber : ∀ c ∈ digits, isNumber c) :
    Spells previous (.number (-Number.ofLiteral (String.ofList digits))) [['-'], digits] := by
  have hne : digits ≠ [] := by
    obtain ⟨d, ds, rfl, -⟩ := hdigit
    exact List.cons_ne_nil d ds
  have hnumeral := Lexeme.number hne hnumber
  have hflatten : [['-'], digits].flatten = ['-'] ++ digits := by simp
  have hminus : Ended [['-']] digits := by
    rintro _ ⟨⟩ c - hgrows
    have hsubtract : formOfText? ['-'] = some (.operator (.arithmetic .subtract)) := rfl
    obtain ⟨form, hform⟩ := (grows_iff hsubtract).mp hgrows
    exact absurd hform (by simp [grownForm?, followedByEquals?])
  refine ⟨?_, fun offset ↦ ?_, fun rest ↦ ended_lexeme hnumeral (by simp), ?_⟩
  · rw [hflatten]
    exact (cut_lexeme lexeme_minus).append (cut_lexeme hnumeral) hminus
  · rw [hflatten, bytes_append, ← Nat.add_assoc]
    exact .signed ⟨rfl, hprevious, hdigit, hnumeral⟩ .done
  · rw [hflatten]
    exact .of_forall (List.forall_mem_append.mpr
      ⟨not_isBlank_of_any rfl, fun c hc ↦ not_isBlank_of_isNumber (hnumber c hc)⟩)

theorem Spells.number {x : Float} (hfinite : x.isFinite)
    (hsign : Binary64.isNegative x → BeforeValue previous) :
    ∃ pieces, pieces.flatten = (Number.text x).toList ∧ Spells previous (.number x) pieces := by
  obtain ⟨d, hnumeral, -⟩ := Number.positional_numeral hfinite
  have hx := Number.eq_of_isFinite hfinite
  rw [Number.toList_text hfinite, Decimal.signed]
  by_cases hneg : Binary64.isNegative x
  · rw [if_pos hneg] at hx ⊢
    refine ⟨[['-'], Number.numeral x], by simp, ?_⟩
    have hspells := Spells.of_signed (hsign hneg) hnumeral.exists_digit hnumeral.isNumber
    rwa [← hx] at hspells
  · rw [if_neg hneg] at hx ⊢
    refine ⟨[Number.numeral x], by simp, ?_⟩
    have hne : Number.numeral x ≠ [] := by
      obtain ⟨c, cs, hcs, -⟩ := hnumeral.exists_digit
      exact hcs ▸ List.cons_ne_nil c cs
    have hlexeme := Lexeme.number hne hnumeral.isNumber
    rw [← hx] at hlexeme
    exact .of_unquoted hlexeme (by simp) hnumeral.not_isBlank

/-- **The spelling of a token reads back**, whatever is written around it. -/
theorem Spellable.spells (h : Spellable previous kind) (hquote : isQuote quote) :
    ∃ pieces, pieces.flatten = (kind.spelling quote).toList ∧ Spells previous kind pieces := by
  cases h with
  | number hfinite hsign => exact Spells.number hfinite hsign
  | text s => exact ⟨_, List.flatten_singleton, .of_text hquote s⟩
  | boolean b =>
    exact ⟨_, List.flatten_singleton,
      .of_unquoted (.boolean b) (by simp) (not_isBlank_of_mem_boolText b)⟩
  | identifier hname =>
    exact ⟨_, List.flatten_singleton, .of_unquoted hname.lexeme (by simp) hname.not_isBlank⟩
  | operator op =>
    exact ⟨_, List.flatten_singleton,
      .of_unquoted (.operator op) (by simp) (not_isBlank_of_mem_symbol op)⟩
  | openParen =>
    have hflatten : [['(']].flatten = "(".toList := rfl
    exact ⟨_, hflatten, .of_unquoted .openParen (by simp) (not_isBlank_of_any rfl)⟩
  | closeParen =>
    have hflatten : [[')']].flatten = ")".toList := rfl
    exact ⟨_, hflatten, .of_unquoted .closeParen (by simp) (not_isBlank_of_any rfl)⟩
  | comma =>
    have hflatten : [[',']].flatten = ",".toList := rfl
    exact ⟨_, hflatten, .of_unquoted .comma (by simp) (not_isBlank_of_any rfl)⟩

theorem Spells.ne_nil {pieces : List (List Char)} (h : Spells previous kind pieces) :
    pieces.flatten ≠ [] := by
  refine h.cut.text_ne_nil ?_
  rintro rfl
  exact absurd (h.gives 0) nofun

end Spells

/-! ## Lists of tokens -/

section Written

variable {previous : Option TokenKind} {kinds : List TokenKind} {cs : List Char}

theorem exists_written (kinds : List TokenKind) : ∃ cs, Written kinds cs := by
  have hquote : isQuote '"' := rfl
  induction kinds with
  | nil => exact ⟨_, .nil⟩
  | cons kind kinds ih =>
    obtain ⟨cs, hcs⟩ := ih
    cases kinds with
    | nil => exact ⟨_, .single hquote kind⟩
    | cons next kinds =>
      exact ⟨_, .cons hquote kind (List.cons_ne_nil ' ' []) (List.all_eq_true.mp rfl) hcs⟩

/-- What is written begins and ends with a token. -/
theorem Written.trimmed (h : Written kinds cs) (hwritable : Writable previous kinds) :
    Trimmed cs [] cs [] ∧ (kinds ≠ [] → cs ≠ []) := by
  induction h generalizing previous with
  | nil => exact ⟨.of_forall (by simp), fun h ↦ absurd rfl h⟩
  | single hquote kind =>
    obtain ⟨⟩ | ⟨hkind, -⟩ := hwritable
    obtain ⟨pieces, hpieces, hspells⟩ := hkind.spells hquote
    rw [← hpieces]
    exact ⟨hspells.trimmed, fun _ ↦ hspells.ne_nil⟩
  | @cons quote hquote kind blanks _ _ next kinds cs _ ih =>
    obtain ⟨⟩ | ⟨hkind, hlater⟩ := hwritable
    obtain ⟨pieces, hpieces, hspells⟩ := hkind.spells hquote
    obtain ⟨htrimmed, hne⟩ := ih hlater
    rw [← hpieces]
    refine ⟨.of_ends ?_ ?_, fun _ ↦ List.append_ne_nil_of_left_ne_nil hspells.ne_nil _⟩
    · rw [List.head?_append_of_ne_nil _ hspells.ne_nil]
      simpa using hspells.trimmed.begins
    · rw [← List.append_assoc, List.getLast?_append_of_ne_nil _ (hne (by simp))]
      exact htrimmed.ends

/-- **What is written has the tokens that it was made from**, behind any token that they can follow
and at any offset. -/
theorem Written.gives (h : Written kinds cs) (hwritable : Writable previous kinds) (offset : Nat) :
    ∃ pieces tokens, Cut cs pieces ∧ Gives previous offset pieces tokens [] ∧
      tokens.map Token.kind = kinds ++ [.endOfInput] := by
  induction h generalizing previous offset with
  | nil => exact ⟨[], _, .nil, .done, rfl⟩
  | single hquote kind =>
    obtain ⟨⟩ | ⟨hkind, -⟩ := hwritable
    obtain ⟨pieces, hpieces, hspells⟩ := hkind.spells hquote
    rw [← hpieces]
    exact ⟨pieces, _, hspells.cut, hspells.gives offset, rfl⟩
  | @cons quote hquote kind blanks hne hblanks next kinds cs hwritten ih =>
    obtain ⟨⟩ | ⟨hkind, hlater⟩ := hwritable
    obtain ⟨pieces, hpieces, hspells⟩ := hkind.spells hquote
    obtain ⟨later, tokens, hcut, hgives, hkinds⟩ :=
      ih hlater (offset + bytes pieces.flatten + bytes blanks)
    have hlexeme := Lexeme.blank hne hblanks
    have hbegins : ∀ c ∈ cs.head?, ¬isBlank c := fun c hc ↦
      mt isTextBlank_of_isBlank ((hwritten.trimmed hlater).1.begins c (by simpa using hc))
    rw [← hpieces]
    refine ⟨pieces ++ blanks :: later, ⟨kind, offset⟩ :: tokens, hspells.cut.append
      ((cut_lexeme hlexeme).append hcut (ended_blanks hne hblanks hbegins))
      (hspells.ended _ fun c hc ↦ ?_), ?_, by rw [List.map_cons, hkinds]; rfl⟩
    · rw [List.head?_append_of_ne_nil _ hne] at hc
      exact hblanks c (List.mem_of_mem_head? hc)
    · have hhead : Gives previous offset pieces ([⟨kind, offset⟩] ++ [_]) [] := hspells.gives offset
      exact hhead.append (.blank hlexeme hgives) (Gives.unsigned_of_lexeme hlexeme (by simp))

end Written

/-- **Every list of tokens can be written and read back.** -/
theorem tokenize_written {kinds : List TokenKind} (h : Writable none kinds) :
    (∃ source : String, Written kinds source.toList) ∧
    ∀ source : String, Written kinds source.toList →
      (tokenize source).map Token.kind = kinds ++ [.endOfInput] ∧ strays source = [] := by
  refine ⟨?_, fun source hsource ↦ ?_⟩
  · obtain ⟨cs, hcs⟩ := exists_written kinds
    exact ⟨String.ofList cs, by rwa [String.toList_ofList]⟩
  · obtain ⟨pieces, tokens, hcut, hgives, hkinds⟩ := hsource.gives h (bytes [])
    obtain ⟨htokens, hstrays⟩ := tokenize_strays_eq (hsource.trimmed h).1 hcut hgives
    rw [htokens, hstrays]
    exact ⟨hkinds, rfl⟩

/-- A text with a quote in it, the operator and the sign of a number. -/
theorem tokenize_written_difference :
    let kinds : List TokenKind := [.text "it's", .operator (.arithmetic .subtract), .number (-2.5)]
    let source := "'it\\'s' -\r\n-2.5"
    Writable none kinds ∧ Written kinds source.toList ∧
      (tokenize source).map Token.kind = kinds ++ [.endOfInput] ∧ strays source = [] := by
  intro kinds source
  have hfinite : (-2.5 : Float).isFinite := by decide +kernel
  have hwritable : Writable none kinds :=
    .cons (.text _) (.cons (.operator _) (.cons (.number hfinite fun _ ↦ .operator _) .nil))
  have hquote : isQuote '\x27' := rfl
  have hspelling : "-2.5".toList = (TokenKind.spelling '\x27' (.number (-2.5))).toList := by
    decide +kernel
  have hnumber : Written [.number (-2.5)] "-2.5".toList := by
    rw [hspelling]
    exact .single hquote _
  have hjoined := Written.cons hquote (.text "it's") (List.cons_ne_nil ' ' [])
    (List.all_eq_true.mp rfl) (.cons hquote (.operator (.arithmetic .subtract))
      (List.cons_ne_nil '\r' ['\n']) (List.all_eq_true.mp rfl) hnumber)
  have hwritten : Written kinds source.toList := by
    refine cast (congrArg (Written kinds) ?_) hjoined
    decide +kernel
  exact ⟨hwritable, hwritten, (tokenize_written hwritable).2 source hwritten⟩

end Formula
