import Formula.Proofs.Displacing
import Formula.Proofs.Offsets

/-!
# Leaving out blanks behind a minus

What a piece of a source is depends on the piece and on the one character behind it (`First.next`).
So the pieces in front of a place stay the same if what is behind the place is replaced by anything
that begins with the same character (`Cut.replace`), and with them the tokens, since a token only
depends on the one before it and on the piece behind its own (`Gives.at_token`).

A minus never takes the character behind it. So what stands between a minus and a number can be left
out, and all other pieces stay (`Cut.respaced`). The tokens stay as well, at the offsets that they
then have, or else the minus is folded into the number. It is folded only where the token before it
can only be followed by a value (`tokenize_respaced`).
-/

namespace Formula

open Formula.Tree Piece

/-! ## Places in a text -/

/-- A place in a text is told by the number of bytes in front of it. -/
theorem append_inj_of_bytes {cs ds cs' ds' : List Char} (h : cs ++ ds = cs' ++ ds')
    (hbytes : bytes cs = bytes cs') : cs = cs' ∧ ds = ds' := by
  have hnil : ∀ {es fs : List Char}, bytes es = bytes (es ++ fs) → fs = [] := by
    intro es fs hes
    rw [bytes_append] at hes
    refine Classical.byContradiction fun hne ↦ ?_
    have hpos := bytes_pos hne
    omega
  rcases List.append_eq_append_iff.mp h with ⟨es, rfl, rfl⟩ | ⟨es, rfl, rfl⟩
  · obtain rfl := hnil hbytes
    exact ⟨(List.append_nil _).symm, rfl⟩
  · obtain rfl := hnil hbytes.symm
    exact ⟨List.append_nil _, rfl⟩

/-! ## Pieces -/

/-- The first piece of a text cannot take the next character. -/
theorem First.grownForm?_eq_none {piece rest : List Char} (h : First (piece ++ rest) piece) :
    ∃ form, formOfText? piece = some form ∧
      ∀ d ds, rest = d :: ds → grownForm? d form = none := by
  obtain ⟨c, cs, htext⟩ := List.exists_cons_of_ne_nil
    (List.append_ne_nil_of_left_ne_nil h.ne_nil rest)
  obtain ⟨taken, rest', form, hcs, hform, hrest, -⟩ := split_cons c cs
  have hcut : piece ++ rest = (c :: taken) ++ rest' := by rw [htext, hcs, List.cons_append]
  obtain rfl : piece = c :: taken :=
    h.unique (hcut ▸ first_of_grownForm?_eq_none hform hrest)
  obtain rfl := List.append_cancel_left hcut
  exact ⟨form, hform, hrest⟩

/-- Of what is behind it, a piece depends on the next character only. -/
theorem First.next {piece rest rest' : List Char} (h : First (piece ++ rest) piece)
    (hnext : rest'.head? = rest.head?) : First (piece ++ rest') piece := by
  obtain ⟨form, hform, hrest⟩ := h.grownForm?_eq_none
  refine first_of_grownForm?_eq_none hform fun d ds hd ↦ ?_
  rw [hd] at hnext
  obtain ⟨es, hes⟩ := List.head?_eq_some_iff.mp hnext.symm
  exact hrest d es hes

/-- The pieces behind a place are those of the text behind it. -/
theorem Cut.behind {cs : List Char} {pieces later : List (List Char)}
    (h : Cut cs (pieces ++ later)) : Cut later.flatten later := by
  induction pieces generalizing cs with
  | nil =>
    rw [List.nil_append] at h
    rw [h.flatten_eq]
    exact h
  | cons piece pieces ih =>
    cases h with
    | cons _ hrest => exact ih hrest

/-- **The pieces in front of a place only depend on the character there.** -/
theorem Cut.replace {c : Char} {cs ds ds' : List Char} {pieces later later' : List (List Char)}
    (h : Cut (cs ++ c :: ds) (pieces ++ later)) (hpieces : pieces.flatten = cs)
    (h' : Cut (c :: ds') later') : Cut (cs ++ c :: ds') (pieces ++ later') := by
  induction pieces generalizing cs with
  | nil =>
    obtain rfl : [] = cs := hpieces
    exact h'
  | cons piece pieces ih =>
    obtain rfl : piece ++ pieces.flatten = cs := hpieces
    rw [List.append_assoc] at h ⊢
    obtain ⟨piece', rest, later₁, hcs, hlater, hfirst, hrest⟩ :=
      h.cons_inv (by simp)
    obtain ⟨rfl, rfl⟩ := List.cons.inj hlater
    obtain rfl := List.append_cancel_left hcs
    refine .cons (hfirst.next ?_) (ih hrest rfl)
    cases pieces.flatten <;> rfl

/-- A minus is a piece whatever is behind it. -/
theorem first_minus (cs : List Char) : First (['-'] ++ cs) ['-'] := by
  have hform : formOfText? ['-'] = some (.operator (.arithmetic .subtract)) := rfl
  exact first_of_grownForm?_eq_none hform fun d ds _ ↦ by simp [grownForm?, followedByEquals?]

/-- **What is behind a minus can be left out of a text**, if there is more behind it. -/
theorem Cut.respaced {text : List Char} {pieces between later : List (List Char)}
    (h : Cut text (pieces ++ ['-'] :: (between ++ later))) :
    Cut (pieces ++ ['-'] :: later).flatten (pieces ++ ['-'] :: later) := by
  have hbehind : Cut text ((pieces ++ ['-'] :: between) ++ later) := by
    rw [List.append_assoc, List.cons_append]
    exact h
  have hminus : Cut (['-'] ++ later.flatten) (['-'] :: later) :=
    .cons (first_minus _) hbehind.behind
  rw [← h.flatten_eq] at h
  simp only [List.flatten_append, List.flatten_cons, List.singleton_append] at h ⊢
  exact h.replace rfl hminus

/-! ## Tokens -/

namespace Gives

variable {previous : Option TokenKind} {offset : Nat} {pieces : List (List Char)}
  {tokens : List Token} {strays : List Stray}

/-- Tokens that begin earlier, by as much as their pieces do. -/
theorem earlier (h : Gives previous offset pieces tokens strays) {k : Nat} (hk : k ≤ offset) :
    ∃ strays', Gives previous (offset - k) pieces (tokens.map (Token.moved (· - k))) strays' := by
  have hsub : ∀ {n : Nat} (m : Nat), k ≤ n → n + m - k = n - k + m := fun m hn ↦ by omega
  induction h with
  | done => exact ⟨[], .done⟩
  | blank hpiece _ ih =>
    obtain ⟨strays', hlater⟩ := ih (Nat.le_add_right_of_le hk)
    rw [hsub _ hk] at hlater
    exact ⟨strays', .blank hpiece hlater⟩
  | stray hstray _ ih =>
    obtain ⟨strays', hlater⟩ := ih (Nat.le_add_right_of_le hk)
    rw [hsub _ hk] at hlater
    exact ⟨_, .stray hstray hlater⟩
  | signed hsigned _ ih =>
    obtain ⟨strays', hlater⟩ := ih (Nat.le_add_right_of_le (Nat.le_add_right_of_le hk))
    rw [hsub _ (Nat.le_add_right_of_le hk), hsub _ hk] at hlater
    exact ⟨strays', .signed hsigned hlater⟩
  | single hpiece halone _ ih =>
    obtain ⟨strays', hlater⟩ := ih (Nat.le_add_right_of_le hk)
    rw [hsub _ hk] at hlater
    exact ⟨strays', .single hpiece halone hlater⟩

/-- The kind of the last token, or what was in front of all of them. -/
def lastKind : Option TokenKind → List Token → Option TokenKind
  | previous, [] => previous
  | _, t :: ts => lastKind (some t.kind) ts

theorem lastKind_concat (previous : Option TokenKind) (ts : List Token) (t : Token) :
    lastKind previous (ts ++ [t]) = some t.kind := by
  induction ts generalizing previous with
  | nil => rfl
  | cons u us ih => exact ih (some u.kind)

/-- **A token has a piece at which it begins**, and if other pieces follow that one, the tokens in
front of it are still the same. -/
theorem at_token (h : Gives previous offset pieces tokens strays) {after : List Token} {t : Token}
    (ht : t.kind ≠ .endOfInput) : ∀ {before : List Token}, tokens = before ++ t :: after →
      ∃ front piece later,
        pieces = front ++ piece :: later ∧ t.offset = offset + bytes front.flatten ∧
        (∃ strays', Gives (lastKind previous before) t.offset (piece :: later) (t :: after)
          strays') ∧
        ∀ later' tokens' strays',
          Gives (lastKind previous before) t.offset (piece :: later') tokens' strays' →
          ∃ strays₁, Gives previous offset (front ++ piece :: later') (before ++ tokens')
            strays₁ := by
  induction h with
  | done =>
    intro before htokens
    rcases before with _ | ⟨u, before⟩
    · obtain ⟨rfl, -⟩ := List.cons.inj htokens
      exact absurd rfl ht
    · exact absurd (List.cons.inj htokens).2 (by simp)
  | blank hpiece _ ih =>
    intro before htokens
    obtain ⟨front, piece, later, rfl, hoffset, hhere, hother⟩ := ih htokens
    refine ⟨_ :: front, piece, later, rfl, ?_, hhere, fun later' tokens' strays' h ↦ ?_⟩
    · rw [hoffset, List.flatten_cons, bytes_append, Nat.add_assoc]
    · obtain ⟨strays₁, h₁⟩ := hother later' tokens' strays' h
      exact ⟨strays₁, .blank hpiece h₁⟩
  | stray hstray _ ih =>
    intro before htokens
    obtain ⟨front, piece, later, rfl, hoffset, hhere, hother⟩ := ih htokens
    refine ⟨_ :: front, piece, later, rfl, ?_, hhere, fun later' tokens' strays' h ↦ ?_⟩
    · rw [hoffset, List.flatten_cons, bytes_append, Nat.add_assoc]
    · obtain ⟨strays₁, h₁⟩ := hother later' tokens' strays' h
      exact ⟨_, .stray hstray h₁⟩
  | signed hsigned hlater ih =>
    intro before htokens
    rcases before with _ | ⟨u, before⟩
    · obtain ⟨rfl, rfl⟩ := List.cons.inj htokens
      exact ⟨[], _, _, rfl, rfl, ⟨_, .signed hsigned hlater⟩,
        fun later' tokens' strays' h ↦ ⟨strays', h⟩⟩
    · obtain ⟨rfl, hrest⟩ := List.cons.inj htokens
      obtain ⟨front, piece, later, rfl, hoffset, hhere, hother⟩ := ih hrest
      refine ⟨_ :: _ :: front, piece, later, rfl, ?_, hhere, fun later' tokens' strays' h ↦ ?_⟩
      · rw [hoffset, List.flatten_cons, List.flatten_cons, bytes_append, bytes_append,
          Nat.add_assoc, Nat.add_assoc]
      · obtain ⟨strays₁, h₁⟩ := hother later' tokens' strays' h
        exact ⟨strays₁, .signed hsigned h₁⟩
  | single hpiece halone hlater ih =>
    intro before htokens
    rcases before with _ | ⟨u, before⟩
    · obtain ⟨rfl, rfl⟩ := List.cons.inj htokens
      exact ⟨[], _, _, rfl, rfl, ⟨_, .single hpiece halone hlater⟩,
        fun later' tokens' strays' h ↦ ⟨strays', h⟩⟩
    · obtain ⟨rfl, hrest⟩ := List.cons.inj htokens
      obtain ⟨front, piece, later, rfl, hoffset, hhere, hother⟩ := ih hrest
      refine ⟨_ :: front, piece, later, rfl, ?_, hhere, fun later' tokens' strays' h ↦ ?_⟩
      · rw [hoffset, List.flatten_cons, bytes_append, Nat.add_assoc]
      · obtain ⟨strays₁, h₁⟩ := hother later' tokens' strays' h
        -- the piece behind this one, which decides whether it stands alone, is the same
        have hhead : (front ++ piece :: later').head? = (front ++ piece :: later).head? := by
          cases front <;> rfl
        exact ⟨strays₁, .single hpiece (hhead ▸ halone) h₁⟩

/-- Of the token in front, pieces only depend on whether a value has to follow it. -/
theorem of_previous (h : Gives previous offset pieces tokens strays) {previous' : Option TokenKind}
    (hprevious : BeforeValue previous ↔ BeforeValue previous') :
    Gives previous' offset pieces tokens strays := by
  induction h generalizing previous' with
  | done => exact .done
  | blank hpiece _ ih => exact .blank hpiece (ih hprevious)
  | stray hstray _ ih => exact .stray hstray (ih hprevious)
  | signed hsigned hlater _ =>
    exact .signed { hsigned with beforeValue := hprevious.mp hsigned.beforeValue } hlater
  | single hpiece halone hlater _ =>
    exact .single hpiece (fun digits x hdigits hsigned ↦ halone digits x hdigits
      { hsigned with beforeValue := hprevious.mpr hsigned.beforeValue }) hlater

/-- A token begins with a piece of its own or with a sign. -/
theorem head {piece : List Char} {kind : TokenKind}
    (h : Gives previous offset (piece :: pieces) (⟨kind, offset⟩ :: tokens) strays) :
    (∃ digits x, Signed previous piece digits x ∧ kind = .number (-x)) ∨
      Lexeme piece (some kind) ∧ ∃ strays', Gives (some kind) (offset + bytes piece) pieces tokens
        strays' := by
  have hlate : ∀ {tokens' : List Token} {strays' : List Stray},
      Gives previous (offset + bytes piece) pieces tokens' strays' → piece ≠ [] →
      tokens' ≠ ⟨kind, offset⟩ :: tokens := by
    rintro _ _ hlater hne rfl
    have hle := hlater.le_offset _ List.mem_cons_self
    have hpos := bytes_pos hne
    dsimp only at hle
    omega
  generalize htokens : (⟨kind, offset⟩ : Token) :: tokens = tokens' at h
  cases h with
  | blank hpiece hlater => exact absurd htokens.symm (hlate hlater hpiece.ne_nil)
  | stray _ hlater => exact absurd htokens.symm (hlate hlater (by simp))
  | signed hsigned hlater =>
    obtain ⟨hkind, -⟩ := List.cons.inj htokens
    exact .inl ⟨_, _, hsigned, congrArg Token.kind hkind⟩
  | single hpiece halone hlater =>
    obtain ⟨hkind, rfl⟩ := List.cons.inj htokens
    obtain rfl : kind = _ := congrArg Token.kind hkind
    exact .inr ⟨hpiece, _, hlater⟩

/-- A minus is its own piece. -/
theorem head_minus {piece : List Char} (h : Gives previous offset (piece :: pieces)
      (⟨.operator (.arithmetic .subtract), offset⟩ :: tokens) strays) :
    piece = ['-'] ∧ ∃ strays', Gives (some (.operator (.arithmetic .subtract)))
      (offset + bytes ['-']) pieces tokens strays' := by
  rcases h.head with ⟨digits, x, -, hkind⟩ | ⟨hpiece, hlater⟩
  · exact absurd hkind (by simp)
  · obtain rfl : piece = ['-'] := by
      generalize hkind : some (TokenKind.operator (.arithmetic .subtract)) = kind at hpiece
      cases hpiece <;> cases hkind
      rfl
    exact ⟨rfl, hlater⟩

variable (previous) in
/-- **A minus before a number** is an operator, or else the sign of the number. It is the sign only
where a value has to follow. -/
theorem before_number {k : Nat} {piece : List Char} {x : Float}
    (h : Gives (some (.operator (.arithmetic .subtract))) (offset + bytes ['-'] + k)
      (piece :: pieces) (⟨.number x, offset + bytes ['-'] + k⟩ :: tokens) strays) :
    (∃ strays', Gives previous offset (['-'] :: piece :: pieces)
        (⟨.operator (.arithmetic .subtract), offset⟩ :: ⟨.number x, offset + bytes ['-']⟩ ::
          tokens.map (Token.moved (· - k))) strays') ∨
      BeforeValue previous ∧ ∃ strays', Gives previous offset (['-'] :: piece :: pieces)
        (⟨.number (-x), offset⟩ :: tokens.map (Token.moved (· - k))) strays' := by
  by_cases hsigned : ∃ y, Signed previous ['-'] piece y
  · obtain ⟨y, hsigned⟩ := hsigned
    refine .inr ⟨hsigned.beforeValue, ?_⟩
    rcases h.head with ⟨digits, z, hsign, -⟩ | ⟨hpiece, strays', hlater⟩
    · -- the piece cannot begin with a digit and be a sign itself
      obtain ⟨d, ds, rfl, hd⟩ := hsigned.digit
      obtain ⟨rfl, -⟩ := List.cons.inj hsign.sign_eq
      exact absurd hd (by decide)
    · obtain rfl := TokenKind.number.inj (Option.some.inj (hpiece.kind_unique hsigned.numeral))
      obtain ⟨strays₁, hearlier⟩ := hlater.earlier (k := k) (by omega)
      have hoffset : offset + bytes ['-'] + k + bytes piece - k
          = offset + bytes ['-'] + bytes piece := by omega
      rw [hoffset] at hearlier
      -- a number is in front in both cases
      have hprevious : BeforeValue (some (.number x)) ↔ BeforeValue (some (.number (-x))) :=
        iff_of_false (by rintro ⟨⟩) (by rintro ⟨⟩)
      exact ⟨strays₁, .signed hsigned (hearlier.of_previous hprevious)⟩
  · refine .inl ?_
    obtain ⟨strays', hearlier⟩ := h.earlier (Nat.le_add_left _ _)
    rw [List.map_cons, Token.moved, Nat.add_sub_cancel] at hearlier
    refine ⟨strays', .single lexeme_minus (fun digits y hdigits hsign ↦ hsigned ⟨y, ?_⟩) hearlier⟩
    obtain rfl := Option.some.inj hdigits
    exact hsign

end Gives

/-! ## Sources -/

/-- A source is made of pieces, and its tokens are what they give. -/
theorem exists_pieces (source : String) : ∃ front pieces back,
    Trimmed source.toList front pieces.flatten back ∧ Cut pieces.flatten pieces ∧
      Gives none (bytes front) pieces (tokenize source) (strays source) := by
  obtain ⟨front, middle, back, htrimmed⟩ : ∃ front middle back,
      Trimmed source.toList front middle back := ⟨_, _, _, trimmed_iff.mpr ⟨rfl, rfl, rfl⟩⟩
  have hgives := gives_tokenize source
  have hcut : Cut middle ((piecesOf source).map Piece.text) := by
    rw [← htrimmed.trim_eq]
    exact cut_split _
  rw [leadingBytes, ← (trimmed_iff.mp htrimmed).1] at hgives
  rw [← hcut.flatten_eq] at htrimmed hcut
  exact ⟨front, _, back, htrimmed, hcut, hgives⟩

/-- Whatever pieces a source is made of, they give its tokens and its stray characters. -/
theorem tokenize_strays_eq {source : String} {front middle back : List Char}
    {pieces : List (List Char)} {tokens : List Token} {strays' : List Stray}
    (htrimmed : Trimmed source.toList front middle back) (hcut : Cut middle pieces)
    (hgives : Gives none (bytes front) pieces tokens strays') :
    tokenize source = tokens ∧ strays source = strays' := by
  obtain ⟨rfl, rfl, rfl⟩ := trimmed_iff.mp htrimmed
  obtain rfl := cut_iff.mp hcut
  exact (gives_tokenize source).unique hgives

theorem tokenize_eq {source : String} {front middle back : List Char} {pieces : List (List Char)}
    {tokens : List Token} {strays' : List Stray}
    (htrimmed : Trimmed source.toList front middle back) (hcut : Cut middle pieces)
    (hgives : Gives none (bytes front) pieces tokens strays') : tokenize source = tokens :=
  (tokenize_strays_eq htrimmed hcut hgives).1

/-- What stands in the middle of a text is never trimmed, whatever it is. -/
theorem Trimmed.replace {text front back ds es fs : List Char} (hds : ds ≠ []) (hfs : fs ≠ [])
    (h : Trimmed text front (ds ++ (es ++ fs)) back) (es' : List Char) :
    Trimmed (front ++ (ds ++ (es' ++ fs) ++ back)) front (ds ++ (es' ++ fs)) back where
  whole := rfl
  front_blank := h.front_blank
  back_blank := h.back_blank
  begins := by
    have hbegins := h.begins
    obtain ⟨d, ds, rfl⟩ := List.exists_cons_of_ne_nil hds
    exact hbegins
  ends := by
    have hlast : ∀ gs : List Char, (gs ++ fs).getLast? = fs.getLast? := fun gs ↦ by
      rw [List.getLast?_append, List.getLast?_eq_some_getLast hfs, Option.some_or]
    have hends := h.ends
    rw [← List.append_assoc, hlast] at hends
    rwa [← List.append_assoc, hlast]

/-- If two places of a source are between pieces, what is between them can be left out behind a
minus. -/
theorem Trimmed.respaced {front between back : String} {blanks blanks' : List Char}
    {ps rs ss : List (List Char)} (h : Trimmed (front ++ "-" ++ between ++ back).toList blanks
      (ps ++ ['-'] :: (rs ++ ss)).flatten blanks')
    (hfront : front.utf8ByteSize = bytes blanks + bytes ps.flatten)
    (hbetween : between.utf8ByteSize = bytes rs.flatten) (hss : ss.flatten ≠ []) :
    Trimmed (front ++ "-" ++ back).toList blanks (ps ++ ['-'] :: ss).flatten blanks' := by
  have hwhole := h.whole
  obtain ⟨hfront', hbehind⟩ : front.toList = blanks ++ ps.flatten ∧
      '-' :: (between.toList ++ back.toList)
        = '-' :: (rs.flatten ++ (ss.flatten ++ blanks')) := by
    refine append_inj_of_bytes (by simpa using hwhole) ?_
    rw [bytes_toList, bytes_append, hfront]
  obtain ⟨-, hback⟩ : between.toList = rs.flatten ∧ back.toList = ss.flatten ++ blanks' := by
    refine append_inj_of_bytes (List.cons.inj hbehind).2 ?_
    rw [bytes_toList, hbetween]
  have hmiddle : (ps ++ ['-'] :: (rs ++ ss)).flatten
      = (ps.flatten ++ ['-']) ++ (rs.flatten ++ ss.flatten) := by simp
  have hmiddle' : (ps ++ ['-'] :: ss).flatten = (ps.flatten ++ ['-']) ++ ss.flatten := by simp
  have hnew : (front ++ "-" ++ back).toList
      = blanks ++ ((ps.flatten ++ ['-']) ++ ss.flatten ++ blanks') := by
    simp [hfront', hback]
  rw [hmiddle] at h
  rw [hmiddle', hnew]
  exact h.replace (by simp) hss []

/-- The place of a character from which `k` bytes behind `n` were left out. -/
def leftOut (n k : Nat) (m : Nat) : Nat := if m ≤ n then m else m - k

theorem map_moved_leftOut_of_le {n k : Nat} {ts : List Token} (h : ∀ t ∈ ts, t.offset ≤ n) :
    ts.map (Token.moved (leftOut n k)) = ts := by
  refine (List.map_congr_left fun t ht ↦ ?_).trans (List.map_id ts)
  rw [Token.moved, leftOut, if_pos (h t ht)]
  rfl

theorem map_moved_leftOut_of_lt {n k : Nat} {ts : List Token} (h : ∀ t ∈ ts, n < t.offset) :
    ts.map (Token.moved (leftOut n k)) = ts.map (Token.moved (· - k)) := by
  refine List.map_congr_left fun t ht ↦ ?_
  rw [Token.moved, Token.moved, leftOut, if_neg (Nat.not_le.mpr (h t ht))]

/-- **What stands between a minus and a number can be left out**, blanks or anything else that
gives no token. The tokens are the same and stand where they then do, unless the minus stands where
only a value can: then the number takes it for its sign. -/
theorem tokenize_respaced {front between back : String} {before after : List Token} {x : Float}
    (htokens : tokenize (front ++ "-" ++ between ++ back)
      = before ++ ⟨.operator (.arithmetic .subtract), front.utf8ByteSize⟩ ::
        ⟨.number x, front.utf8ByteSize + 1 + between.utf8ByteSize⟩ :: after) :
    let f := leftOut front.utf8ByteSize between.utf8ByteSize
    tokenize (front ++ "-" ++ back)
        = (tokenize (front ++ "-" ++ between ++ back)).map (Token.moved f) ∨
      BeforeValue (Gives.lastKind none before) ∧ tokenize (front ++ "-" ++ back)
        = before ++ ⟨.number (-x), front.utf8ByteSize⟩ :: after.map (Token.moved f) := by
  intro f
  obtain ⟨blanks, pieces, blanks', htrimmed, hcut, hgives⟩ :=
    exists_pieces (front ++ "-" ++ between ++ back)
  -- the pieces at which the two tokens begin
  obtain ⟨ps, piece, later, rfl, hfront, ⟨strays₁, hhere⟩, hother⟩ :=
    hgives.at_token (by simp) htokens
  obtain ⟨rfl, strays₂, hbehind⟩ := hhere.head_minus
  obtain ⟨rs, r, ss, rfl, hnumber, ⟨strays₃, hthere⟩, -⟩ :=
    hbehind.at_token (by simp) (List.nil_append _).symm
  rw [Gives.lastKind] at hthere
  have hbetween : between.utf8ByteSize = bytes rs.flatten := Nat.add_left_cancel hnumber
  have hcut' := hcut.respaced
  have htrimmed' := htrimmed.respaced hfront hbetween (by
    rw [List.flatten_cons]
    exact List.append_ne_nil_of_left_ne_nil (hcut'.ne_nil r (by simp)) _)
  have hsorted := hgives.sorted
  rw [htokens, List.pairwise_append, List.pairwise_cons] at hsorted
  obtain ⟨-, ⟨hafter, -⟩, hbefore⟩ := hsorted
  have hbefore' : before.map (Token.moved f) = before :=
    map_moved_leftOut_of_le fun t ht ↦ Nat.le_of_lt (hbefore t ht _ List.mem_cons_self)
  have hafter' : after.map (Token.moved f) = after.map (Token.moved (· - between.utf8ByteSize)) :=
    map_moved_leftOut_of_lt fun t ht ↦ hafter t (List.mem_cons_of_mem _ ht)
  rcases hthere.before_number (Gives.lastKind none before) with
    ⟨strays₄, hminus'⟩ | ⟨hvalue, strays₄, hfused⟩
  · obtain ⟨strays₅, hnew⟩ := hother _ _ _ hminus'
    have hminus_offset : f front.utf8ByteSize = front.utf8ByteSize := if_pos (Nat.le_refl _)
    have hnumber_offset : f (front.utf8ByteSize + 1 + between.utf8ByteSize)
        = front.utf8ByteSize + 1 := (if_neg (by omega)).trans (Nat.add_sub_cancel ..)
    refine .inl ((tokenize_eq htrimmed' hcut' hnew).trans ?_)
    rw [htokens, List.map_append, List.map_cons, List.map_cons, hbefore', hafter', Token.moved,
      Token.moved, hminus_offset, hnumber_offset]
    rfl
  · obtain ⟨strays₅, hnew⟩ := hother _ _ _ hfused
    exact .inr ⟨hvalue, (tokenize_eq htrimmed' hcut' hnew).trans (by rw [hafter'])⟩

end Formula
