import Formula.Proofs.Layout

/-!
# Texts written between others

Any text can be written as a literal, by a backslash before each quote and each backslash in it
(`Text.literal`). The literal is one piece, which takes no further character, and it is no piece
that the ones around it could take a part of. So it stays the same one token wherever it stands, and
the sources around it keep theirs (`tokenize_literal`).

One thing may change. A minus that begins a source is the sign of the numeral behind it. Behind a
text it is an operator (`Gives.behind_value`).
-/

namespace Formula

open Formula.Tree Piece

/-! ## Literals -/

/-- A text with a backslash before each quote and each backslash. -/
def Text.escaped (quote : Char) : List Char → List Char
  | [] => []
  | c :: cs =>
    if c = quote ∨ c = '\\' then '\\' :: c :: escaped quote cs else c :: escaped quote cs

/-- A text as a literal. -/
def Text.literal (quote : Char) (text : String) : String :=
  String.ofList (quote :: (escaped quote text.toList ++ [quote]))

/-- A source whose last text in quotes has no closing quote. -/
def LeftOpen (source : String) : Prop := ∃ p ∈ (piecesOf source).getLast?, p.form.isOpen

section Literal

variable {quote : Char}

/-- A quote continues no word, no operator and no blanks. -/
theorem apart_of_isQuote (h : isQuote quote) :
    ¬isWord quote ∧ quote ≠ '=' ∧ ¬Text.isBlank quote := by
  simp only [isQuote, Bool.or_eq_true, beq_iff_eq] at h
  rcases h with rfl | rfl <;> decide

theorem content_escaped (quote : Char) (cs : List Char) :
    Content quote (Text.escaped quote cs) cs := by
  induction cs with
  | nil => exact .nil
  | cons c cs ih =>
    rw [Text.escaped]
    split
    · exact .escaped c ih
    · next hplain =>
      obtain ⟨hquote, hescape⟩ := not_or.mp hplain
      exact .plain hquote hescape ih

theorem lexeme_literal (hquote : isQuote quote) (text : String) :
    Lexeme (Text.literal quote text).toList (some (.text text)) := by
  have hlexeme := Lexeme.closed hquote (content_escaped quote text.toList)
  rw [String.ofList_toList] at hlexeme
  rwa [Text.literal, String.toList_ofList]

/-- A literal takes no further character. -/
theorem ended_literal (hquote : isQuote quote) (text : String) (rest : List Char) :
    Ended [(Text.literal quote text).toList] rest := by
  rintro _ ⟨⟩ c - hgrows
  have hshape : (PieceForm.quoted quote text .closed).Shape (Text.literal quote text).toList :=
    ⟨hquote, _, content_escaped quote text.toList, String.toList_ofList⟩
  obtain ⟨form, hform⟩ := (grows_iff (formOfText?_of_shape hshape)).mp hgrows
  exact absurd hform (by simp [grownForm?])

/-- Blanks at the ends of a text are between the quotes. -/
theorem trimmed_literal (hquote : isQuote quote) (text : String) :
    Trimmed (Text.literal quote text).toList [] (Text.literal quote text).toList [] := by
  have hends : ¬Text.isBlank quote := (apart_of_isQuote hquote).2.2
  rw [Text.literal, String.toList_ofList]
  refine .of_ends ?_ ?_
  · rintro _ ⟨⟩
    exact hends
  · rw [← List.cons_append, List.getLast?_concat]
    rintro _ ⟨⟩
    exact hends

end Literal

/-! ## What is around a literal -/

section Around

variable {cs middle rest : List Char} {pieces : List (List Char)}

theorem Ended.append {later : List (List Char)} (h : Ended pieces rest) (h' : Ended later rest) :
    Ended (pieces ++ later) rest := by
  intro piece hpiece
  rw [List.getLast?_append] at hpiece
  cases hlast : later.getLast? with
  | none =>
    rw [hlast, Option.none_or] at hpiece
    exact h piece hpiece
  | some last =>
    rw [hlast, Option.some_or] at hpiece
    exact h' piece (hlast.trans hpiece)

/-- Blanks end before anything else. -/
theorem Ended.of_isBlank (h : Cut cs pieces) (hblank : ∀ c ∈ cs, Text.isBlank c)
    (hrest : ∀ c ∈ rest.head?, ¬isBlank c) : Ended pieces rest := by
  intro piece hpiece c hc hgrows
  obtain ⟨form, hform⟩ := h.formOfText? piece (List.mem_of_getLast? hpiece)
  obtain ⟨form', hform'⟩ := (grows_iff hform).mp hgrows
  have hshape := formOfText?_eq_some_iff.mp hform
  obtain ⟨d, ds, rfl⟩ := List.exists_cons_of_ne_nil (h.ne_nil piece (List.mem_of_getLast? hpiece))
  have hd : d ∈ cs := by
    rw [← h.flatten_eq]
    exact List.mem_flatten.mpr ⟨_, List.mem_of_getLast? hpiece, List.mem_cons_self⟩
  rcases form_of_isBlank hshape (hblank d hd) with rfl | rfl
  · exact absurd hform' (by simp [grownForm?, hrest c hc])
  · exact absurd hform' (by simp [grownForm?])

/-- No sign is among blanks. -/
theorem Gives.unsigned_of_isBlank {later : List (List Char)} (h : Cut cs pieces)
    (hblank : ∀ c ∈ cs, Text.isBlank c) : Gives.Unsigned pieces later := by
  rintro sign hsign digits - previous x hsigned
  have hminus : '-' ∈ cs := by
    rw [← h.flatten_eq]
    refine List.mem_flatten.mpr ⟨sign, List.mem_of_getLast? hsign, ?_⟩
    rw [hsigned.sign_eq]
    exact List.mem_singleton_self _
  exact absurd (hblank _ hminus) (by decide)

/-- No numeral is among blanks. -/
theorem Gives.unsigned_of_isBlank_behind {later : List (List Char)} (h : Cut cs later)
    (hblank : ∀ c ∈ cs, Text.isBlank c) : Gives.Unsigned pieces later := by
  intro sign hsign digits hdigits previous x hsigned
  obtain ⟨d, ds, rfl, hd⟩ := hsigned.digit
  have hmem : d ∈ cs := by
    rw [← h.flatten_eq]
    exact List.mem_flatten.mpr ⟨_, List.mem_of_mem_head? hdigits, List.mem_cons_self⟩
  exact not_isBlank_of_isDigit hd (hblank d hmem)

/-- Pieces whose last one is no text with open quotes end before whatever continues no word, no
blanks and no operator. -/
theorem Ended.of_closed (h : Cut cs pieces)
    (hclosed : ∀ piece ∈ pieces.getLast?, ∀ form, formOfText? piece = some form → ¬form.isOpen)
    (hrest : ∀ c ∈ rest.head?, ¬isWord c ∧ c ≠ '=' ∧
      (isBlank c → ∀ d ∈ cs.getLast?, ¬isBlank d)) : Ended pieces rest := by
  refine ended_of_closed (fun piece hpiece ↦ ?_) fun c hc ↦ ⟨(hrest c hc).1, (hrest c hc).2.1⟩
  obtain ⟨form, hform⟩ := h.formOfText? piece (List.mem_of_getLast? hpiece)
  refine ⟨form, hform, hclosed piece hpiece form hform, ?_⟩
  rintro rfl c hc hblank
  obtain ⟨hne, hall⟩ := formOfText?_eq_some_iff.mp hform
  obtain ⟨d, hd⟩ := Option.ne_none_iff_exists'.mp (mt List.getLast?_eq_none_iff.mp hne)
  obtain ⟨front, hfront⟩ := List.getLast?_eq_some_iff.mp hpiece
  refine (hrest c hc).2.2 hblank d ?_ (hall d (List.mem_of_getLast? hd))
  rw [← h.flatten_eq, hfront, List.flatten_append, List.flatten_singleton, List.getLast?_append, hd]
  rfl

/-- A text is trimmed as what is around it is, if nothing comes off the text itself. -/
theorem Trimmed.around {front before behind back : List Char} (h : Trimmed middle [] middle [])
    (hne : middle ≠ []) (hfront : ∀ c ∈ front, Text.isBlank c)
    (hback : ∀ c ∈ back, Text.isBlank c) (hbegins : ∀ c ∈ before.head?, ¬Text.isBlank c)
    (hends : ∀ c ∈ behind.getLast?, ¬Text.isBlank c) :
    Trimmed (front ++ (before ++ (middle ++ behind) ++ back)) front
      (before ++ (middle ++ behind)) back where
  whole := rfl
  front_blank := hfront
  back_blank := hback
  begins := by
    cases before with
    | nil =>
      rw [List.nil_append, List.append_assoc, List.head?_append_of_ne_nil _ hne]
      simpa using h.begins
    | cons c cs => exact hbegins
  ends := by
    cases behind with
    | nil =>
      rw [List.append_nil, List.getLast?_append_of_ne_nil _ hne]
      exact h.ends
    | cons c cs =>
      rw [← List.append_assoc, List.getLast?_append_cons]
      exact hends

variable {front back : List Char}

/-- Blanks in front of pieces go with them, and leave the kinds of their tokens. -/
theorem Trimmed.exists_text (h : Trimmed cs front pieces.flatten back)
    (hcut : Cut pieces.flatten pieces) : ∃ text blanks back', cs = text ++ back' ∧
      (∀ c ∈ back', Text.isBlank c) ∧ (∀ c ∈ text.getLast?, ¬Text.isBlank c) ∧
      Cut text (blanks ++ pieces) ∧
      ∀ {previous : Option TokenKind} {tokens : List Token} {strays : List Stray},
        Gives previous (bytes front) pieces tokens strays → ∀ k, ∃ tokens' strays',
          Gives previous k (blanks ++ pieces) tokens' strays' ∧
            tokens'.map Token.kind = tokens.map Token.kind := by
  have hmoved : ∀ (ts : List Token) (k : Nat),
      (ts.map (Token.moved (· + k))).map Token.kind = ts.map Token.kind := fun ts k ↦ by
    rw [List.map_map]
    rfl
  by_cases hpieces : pieces = []
  · subst hpieces
    refine ⟨[], [], cs, rfl, ?_, by simp, .nil, fun hgives k ↦ ?_⟩
    · rw [h.whole]
      exact List.forall_mem_append.mpr ⟨h.front_blank, h.back_blank⟩
    · cases hgives
      exact ⟨_, _, .done, rfl⟩
  have hne := hcut.text_ne_nil hpieces
  have hfront := cut_split front
  have hbegins := h.begins
  rw [List.head?_append_of_ne_nil _ hne] at hbegins
  refine ⟨front ++ pieces.flatten, _, back, ?_, h.back_blank, ?_, hfront.append hcut
    (.of_isBlank hfront h.front_blank fun c hc ↦ mt isTextBlank_of_isBlank (hbegins c hc)),
    fun hgives k ↦ ?_⟩
  · rw [h.whole, List.append_assoc]
  · rw [List.getLast?_append_of_ne_nil _ hne]
    exact h.ends
  · obtain ⟨ss, hlater⟩ := hgives.later k
    rw [Nat.add_comm] at hlater
    obtain ⟨ss', hblanks⟩ := Gives.of_blank hfront h.front_blank
    rw [← List.nil_append [_]] at hblanks
    exact ⟨_, _, hblanks.append hlater (Gives.unsigned_of_isBlank hfront h.front_blank),
      hmoved _ k⟩

/-- A source that is not left open ends with no open quotes. -/
theorem not_isOpen_of_not_leftOpen {source : String} (h : ¬LeftOpen source)
    (htrimmed : Trimmed source.toList front middle back) (hcut : Cut middle pieces) :
    ∀ piece ∈ pieces.getLast?, ∀ form, formOfText? piece = some form → ¬form.isOpen := by
  obtain ⟨-, rfl, -⟩ := trimmed_iff.mp htrimmed
  obtain rfl := cut_iff.mp hcut
  intro piece hpiece form hform hopen
  rw [List.getLast?_map] at hpiece
  obtain ⟨p, hp, rfl⟩ := Option.map_eq_some_iff.mp hpiece
  have hmem := formOfText?_of_mem_split _ p (List.mem_of_getLast? hp)
  obtain rfl := Option.some.inj (hmem.symm.trans hform)
  exact h ⟨p, hp, hopen⟩

/-- **A source that is not left open ends before any literal**, with the blanks behind it. -/
theorem exists_pieces_before {a : String} (ha : ¬LeftOpen a) :
    ∃ front text pieces ts n ss, a.toList = front ++ text ∧ (∀ c ∈ front, Text.isBlank c) ∧
      (∀ c ∈ text.head?, ¬Text.isBlank c) ∧ Cut text pieces ∧
      Gives none (bytes front) pieces (ts ++ [⟨.endOfInput, n⟩]) ss ∧
      (tokenize a).map Token.kind = ts.map Token.kind ++ [.endOfInput] ∧
      ∀ rest, (∀ c ∈ rest.head?, isQuote c) → Ended pieces rest := by
  obtain ⟨front, pieces, back, htrimmed, hcut, hgives⟩ := exists_pieces a
  obtain ⟨ts, n, htokens, -⟩ := hgives.marked
  rw [htokens] at hgives
  have hclosed := not_isOpen_of_not_leftOpen ha htrimmed hcut
  have hback := htrimmed.back_blank
  have hblanks := cut_split back
  obtain ⟨ss, hgivesBlanks⟩ := Gives.of_blank hblanks hback
  rw [← List.nil_append [_]] at hgivesBlanks
  refine ⟨front, pieces.flatten ++ back, _, ts, _, _, htrimmed.whole, htrimmed.front_blank,
    htrimmed.begins, hcut.append hblanks (.of_closed hcut hclosed fun c hc ↦ ?_),
    hgives.append hgivesBlanks (Gives.unsigned_of_isBlank_behind hblanks hback), ?_,
    fun rest hrest ↦ .append (.of_closed hcut hclosed fun c hc ↦ ?_)
      (.of_isBlank hblanks hback fun c hc ↦ ?_)⟩
  · obtain ⟨hword, hequals⟩ := apart_of_isBlank (hback c (List.mem_of_mem_head? hc))
    exact ⟨hword, hequals, fun _ d hd ↦ mt isTextBlank_of_isBlank (htrimmed.ends d hd)⟩
  · rw [htokens, List.map_append]
    rfl
  · obtain ⟨hword, hequals, hblank⟩ := apart_of_isQuote (hrest c hc)
    exact ⟨hword, hequals, fun hblank' ↦ absurd (isTextBlank_of_isBlank hblank') hblank⟩
  · exact mt isTextBlank_of_isBlank (apart_of_isQuote (hrest c hc)).2.2

end Around

/-- **A literal between two sources is one token**, whatever the sources are, as long as the one in
front leaves no quotes open. -/
theorem kinds_literal {quote : Char} (hquote : isQuote quote) (text : String) {a b : String}
    (ha : ¬LeftOpen a) {front back : List Char} {pieces : List (List Char)} {tokens : List Token}
    {ss : List Stray} (hb : Trimmed b.toList front pieces.flatten back)
    (hcut : Cut pieces.flatten pieces)
    (hgives : Gives (some (.text text)) (bytes front) pieces tokens ss) :
    (tokenize (a ++ Text.literal quote text ++ b)).map Token.kind
      = ((tokenize a).map Token.kind).dropLast ++ .text text :: tokens.map Token.kind := by
  obtain ⟨front₀, before, pieces₀, ts, n, ss₀, ha', hfront₀, hbegins, hcut₀, hgives₀, hkinds₀,
    hended⟩ := exists_pieces_before ha
  obtain ⟨behind, blanks, back', hb', hback', hends, hcut', hlater⟩ := hb.exists_text hcut
  have hlit := lexeme_literal hquote text
  obtain ⟨tokens', ss', hgives', hkinds⟩ :=
    hlater hgives (n + bytes (Text.literal quote text).toList)
  have hend : Ended pieces₀ ((Text.literal quote text).toList ++ behind) := by
    refine hended _ fun c hc ↦ ?_
    rw [Text.literal, String.toList_ofList] at hc
    exact Option.some.inj hc ▸ hquote
  have hcutWhole := hcut₀.append ((cut_lexeme hlit).append hcut' (ended_literal hquote _ _)) hend
  have hgivesWhole := hgives₀.append (.single_of_ne hlit (by simp) hgives')
    (Gives.unsigned_of_lexeme hlit (by simp))
  have htrimmed := (trimmed_literal hquote text).around hlit.ne_nil hfront₀ hback' hbegins hends
  have hwhole : front₀ ++ (before ++ ((Text.literal quote text).toList ++ behind) ++ back')
      = (a ++ Text.literal quote text ++ b).toList := by simp [ha', hb']
  rw [hwhole] at htrimmed
  rw [tokenize_eq htrimmed hcutWhole hgivesWhole, hkinds₀, List.dropLast_concat, List.map_append,
    List.map_cons, hkinds]

/-! ## Where a minus is no sign -/

/-- Pieces whose first token is a literal with a sign, and their tokens if the minus is none. -/
def Gives.Negated (offset : Nat) (pieces : List (List Char)) (tokens tokens' : List Token) : Prop :=
  ∃ front digits later x ts strays, pieces = front ++ ['-'] :: digits :: later ∧
    (∃ d ds, digits = d :: ds ∧ d.isDigit) ∧ Lexeme digits (some (.number x)) ∧
    tokens = ⟨.number (-x), offset + bytes front.flatten⟩ :: ts ∧
    tokens' = ⟨.operator (.arithmetic .subtract), offset + bytes front.flatten⟩ ::
      ⟨.number x, offset + bytes front.flatten + bytes ['-']⟩ :: ts ∧
    Gives (some (.number x)) (offset + bytes front.flatten + bytes ['-'] + bytes digits) later ts
      strays

theorem Gives.Negated.cons {offset : Nat} {piece : List Char} {pieces : List (List Char)}
    {tokens tokens' : List Token} (h : Negated (offset + bytes piece) pieces tokens tokens') :
    Negated offset (piece :: pieces) tokens tokens' := by
  obtain ⟨front, digits, later, x, ts, ss, rfl, hdigit, hnumeral, htokens, htokens', hlater⟩ := h
  rw [← Gives.add_bytes_flatten_cons] at htokens htokens' hlater
  exact ⟨piece :: front, digits, later, x, ts, ss, rfl, hdigit, hnumeral, htokens, htokens', hlater⟩

/-- **Behind a token that a value cannot follow, the first minus is an operator.** Nothing else
changes there. -/
theorem Gives.behind_value {previous previous' : Option TokenKind} {offset : Nat}
    {pieces : List (List Char)} {tokens : List Token} {strays : List Stray}
    (h : Gives previous offset pieces tokens strays) (hprevious' : ¬BeforeValue previous') :
    Gives previous' offset pieces tokens strays ∨
      ∃ tokens', Negated offset pieces tokens tokens' ∧
        Gives previous' offset pieces tokens' strays := by
  have halone : ∀ {sign digits : List Char} {x : Float}, ¬Signed previous' sign digits x :=
    fun h ↦ hprevious' h.beforeValue
  induction h with
  | done => exact .inl .done
  | blank hpiece _ ih =>
    rcases ih with h | ⟨tokens', hnegated, h⟩
    · exact .inl (.blank hpiece h)
    · exact .inr ⟨tokens', hnegated.cons, .blank hpiece h⟩
  | stray hstray _ ih =>
    rcases ih with h | ⟨tokens', hnegated, h⟩
    · exact .inl (.stray hstray h)
    · exact .inr ⟨tokens', hnegated.cons, .stray hstray h⟩
  | @signed _ _ sign digits x later ts strays hsigned hlater _ =>
    obtain rfl := hsigned.sign_eq
    -- what is behind a number is the same behind its negative
    have hnumber : Gives (some (.number x)) _ later ts strays :=
      hlater.of_previous (iff_of_false nofun nofun)
    have hoperand : Gives (some (.operator (.arithmetic .subtract))) _ (digits :: later) _ strays :=
      .single_of_ne hsigned.numeral (by simp) hnumber
    exact .inr ⟨_, ⟨[], digits, later, x, ts, strays, rfl, hsigned.digit, hsigned.numeral, rfl, rfl,
      hnumber⟩, .single lexeme_minus (fun _ _ _ ↦ halone) hoperand⟩
  | single hpiece _ hlater _ => exact .inl (.single hpiece (fun _ _ _ ↦ halone) hlater)

section Negated

theorem Lexeme.isNumber {cs : List Char} {x : Float} (h : Lexeme cs (some (.number x))) :
    ∀ c ∈ cs, isNumber c := by
  generalize hkind : some (TokenKind.number x) = kind at h
  cases h with
  | number _ hall => exact hall
  | _ => exact absurd hkind (by simp)

variable {cs front back : List Char} {pieces : List (List Char)} {tokens tokens' : List Token}

/-- What is a literal with a sign in itself is none where the minus is an operator. -/
theorem Gives.not_signedIn {previous : Option TokenKind} {ss : List Stray}
    (h : Gives previous (bytes front) pieces tokens ss) (hprevious : ¬BeforeValue previous)
    (hcs : cs = front ++ (pieces.flatten ++ back)) : ∀ t ∈ tokens.head?, ¬t.SignedIn cs := by
  rintro ⟨kind, n⟩ ht ⟨x, front', back', hkind, hsigned, hn⟩
  obtain rfl : kind = .number x := hkind
  obtain rfl : bytes front' = n := hn
  obtain ⟨ts, rfl⟩ := List.head?_eq_some_iff.mp ht
  obtain ⟨ps, piece, later, rfl, hoffset, ⟨ss', hhere⟩, -⟩ :=
    h.at_token (by simp) (List.nil_append _).symm
  have hplace : front' ++ '-' :: back'
      = (front ++ ps.flatten) ++ (piece ++ later.flatten ++ back) := by
    rw [← hsigned, hcs]
    simp
  obtain ⟨-, hminus⟩ := append_inj_of_bytes hplace (hoffset.trans (bytes_append _ _).symm)
  rcases hhere.head with ⟨digits, y, hsign, -⟩ | ⟨hnumber, -⟩
  · exact hprevious hsign.beforeValue
  · obtain ⟨c, ds, rfl⟩ := List.exists_cons_of_ne_nil hnumber.ne_nil
    obtain ⟨rfl, -⟩ := List.cons.inj hminus
    exact absurd (hnumber.isNumber _ List.mem_cons_self) (by decide)

/-- A literal begins with its sign. -/
theorem Gives.Negated.signedIn (h : Negated (bytes front) pieces tokens tokens')
    (hcs : cs = front ++ (pieces.flatten ++ back)) : ∀ t ∈ tokens.head?, t.SignedIn cs := by
  obtain ⟨ps, digits, later, x, ts, ss, rfl, -, -, rfl, -, -⟩ := h
  rintro _ ⟨⟩
  refine ⟨-x, front ++ ps.flatten, digits ++ later.flatten ++ back, rfl, ?_, bytes_append _ _⟩
  rw [hcs]
  simp

/-- The numeral of a literal, and what is behind it, are tokens also without the sign. -/
theorem Gives.Negated.tokenize_behind {behind : String}
    (h : Negated (bytes front) pieces tokens tokens')
    (htrimmed : Trimmed cs front pieces.flatten back) (hcut : Cut pieces.flatten pieces)
    {front' : List Char} (hcs : cs = front' ++ '-' :: behind.toList) {y : Float}
    (hhead : tokens.head? = some ⟨.number y, bytes front'⟩) : ∃ x ks,
      tokens.map Token.kind = .number (-x) :: ks ∧
      (tokenize behind).map Token.kind = .number x :: ks ∧
      tokens'.map Token.kind = .operator (.arithmetic .subtract) :: .number x :: ks := by
  obtain ⟨ps, digits, later, x, ts, ss, rfl, hdigit, hnumeral, rfl, rfl, hlater⟩ := h
  refine ⟨x, ts.map Token.kind, rfl, ?_, rfl⟩
  obtain ⟨-, hoffset⟩ := Token.mk.inj (Option.some.inj hhead)
  have hplace : front' ++ '-' :: behind.toList
      = (front ++ ps.flatten) ++ '-' :: ((digits :: later).flatten ++ back) := by
    rw [← hcs, htrimmed.whole]
    simp
  obtain ⟨-, hbehind⟩ := append_inj_of_bytes hplace
    (hoffset.symm.trans (bytes_append _ _).symm)
  obtain ⟨-, hbehind⟩ := List.cons.inj hbehind
  have hcut' : Cut (digits :: later).flatten (digits :: later) := by
    rw [← List.singleton_append, ← List.append_assoc] at hcut
    exact hcut.behind
  have htrimmed' : Trimmed behind.toList [] (digits :: later).flatten back := by
    obtain ⟨d, ds, rfl, hd⟩ := hdigit
    refine ⟨hbehind, by simp, htrimmed.back_blank, ?_, ?_⟩
    · rintro _ ⟨⟩
      exact not_isBlank_of_isDigit hd
    · have hends := htrimmed.ends
      rwa [← List.singleton_append, ← List.append_assoc, List.flatten_append,
        List.getLast?_append_of_ne_nil _ (by simp)] at hends
  obtain ⟨ss', hearlier⟩ := hlater.earlier
    (Nat.le_add_right (bytes front + bytes ps.flatten + bytes ['-']) (bytes digits))
  rw [Nat.add_sub_cancel_left, ← Nat.zero_add (bytes digits)] at hearlier
  have hgives : Gives none 0 (digits :: later) _ _ :=
    .single_of_ne hnumeral (by simp) hearlier
  rw [tokenize_eq htrimmed' hcut' hgives, List.map_cons, List.map_map]
  rfl

end Negated

/-- **A literal keeps whatever text it holds, and leaves the sources around it as they are.** The
source in front of it may end anyhow, if only its quotes are closed. The one behind it may begin
anyhow, but if it begins with a negative number, the minus of that is an operator now. -/
theorem tokenize_literal {quote : Char} (hquote : isQuote quote) (text : String) {a : String}
    (ha : ¬LeftOpen a) (b : String) :
    let kinds (source : String) := (tokenize source).map Token.kind
    let whole := a ++ Text.literal quote text ++ b
    ((∀ t ∈ (tokenize b).head?, ¬t.SignedIn b.toList) →
      kinds whole = (kinds a).dropLast ++ .text text :: kinds b) ∧
    ∀ (front behind : String) (y : Float), b = front ++ "-" ++ behind →
      (tokenize b).head? = some ⟨.number y, front.utf8ByteSize⟩ → ∃ x ks,
        kinds b = .number (-x) :: ks ∧ kinds behind = .number x :: ks ∧
        kinds whole = (kinds a).dropLast ++
          .text text :: .operator (.arithmetic .subtract) :: .number x :: ks := by
  intro kinds whole
  obtain ⟨front₀, pieces, back₀, htrimmed, hcut, hgives⟩ := exists_pieces b
  have hvalue : ¬BeforeValue (some (.text text)) := nofun
  rcases hgives.behind_value hvalue with hsame | ⟨tokens', hnegated, hother⟩
  · refine ⟨fun _ ↦ kinds_literal hquote text ha htrimmed hcut hsame,
      fun front behind y hb hhead ↦ ?_⟩
    refine absurd ?_ (hsame.not_signedIn hvalue htrimmed.whole _ hhead)
    exact ⟨y, front.toList, behind.toList, rfl, by simp [hb], bytes_toList front⟩
  · refine ⟨fun hunsigned ↦ ?_, fun front behind y hb hhead ↦ ?_⟩
    · obtain ⟨t, ts, htokens⟩ := List.exists_cons_of_ne_nil (tokenize_ne_nil b)
      have hhead : t ∈ (tokenize b).head? := by rw [htokens]; rfl
      exact absurd (hnegated.signedIn htrimmed.whole t hhead) (hunsigned t hhead)
    · have hcs : b.toList = front.toList ++ '-' :: behind.toList := by simp [hb]
      obtain ⟨x, ks, hkinds, hbehind, hkinds'⟩ :=
        hnegated.tokenize_behind htrimmed hcut hcs (hhead.trans (by rw [bytes_toList]))
      refine ⟨x, ks, hkinds, hbehind, ?_⟩
      rw [← hkinds']
      exact kinds_literal hquote text ha htrimmed hcut hother

/-- A quote and a backslash in a text, between a name and a negative number. -/
theorem tokenize_literal_negative :
    isQuote '"' ∧ ¬LeftOpen "x " ∧
      (tokenize ("x " ++ Text.literal '"' "\\\"é" ++ " -1")).map Token.kind
        = [.identifier "x", .text "\\\"é", .operator (.arithmetic .subtract),
          .number (Number.ofLiteral "1"), .endOfInput] := by
  have hquote : isQuote '"' := rfl
  have hclosed : ¬LeftOpen "x " := by
    rintro ⟨p, hp, hopen⟩
    obtain rfl := Option.some.inj (hp : some (⟨.word, "x"⟩ : Piece) = some p)
    exact absurd hopen (by decide)
  have hliteral := tokenize_literal hquote "\\\"é" hclosed " -1"
  obtain ⟨x, ks, -, hbehind, hwhole⟩ :=
    hliteral.2 " " "1" (-Number.ofLiteral "1") rfl rfl
  obtain ⟨hx, rfl⟩ := List.cons.inj (hbehind :
    [.number (Number.ofLiteral "1"), .endOfInput] = TokenKind.number x :: ks)
  rw [← hx] at hwhole
  exact ⟨hquote, hclosed, hwhole⟩

end Formula
