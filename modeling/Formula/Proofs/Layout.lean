import Formula.Proofs.Joining
import Formula.Proofs.Routes

/-!
# Layout

Blanks around a source are trimmed, and blanks between two pieces are passed over, so adding some
moves tokens and changes nothing else (`tokenize_layout`). Around a source every blank will do that
trimming knows. Inside it has to be a blank between tokens, and the place has to be a seam, where
one piece ends and the next one begins. One seam is none for layout: that between a minus and the
numeral that it is the sign of.

At a seam there may be blanks already. The pieces of blanks in front of it and behind it are taken
together with the new ones to a single piece, and what is left on both sides are texts that stay as
they are (`Cut.inserted`).
-/

namespace Formula

open Formula.Tree Piece

/-! ## Places for layout -/

/-- A place of a source, in bytes, at which one piece ends and another one begins. -/
def IsSeam (source : String) (n : Nat) : Prop :=
  ∃ ps qs, piecesOf source = ps ++ qs ∧ ps ≠ [] ∧ qs ≠ [] ∧
    leadingBytes source + bytes (ps.map Piece.text).flatten = n

/-- A token is a number that is written with a sign of its own. -/
def Token.SignedIn (source : List Char) (t : Token) : Prop :=
  ∃ x front back, t.kind = .number x ∧ source = front ++ '-' :: back ∧ bytes front = t.offset

/-- The place of a character behind `k` bytes that were put in at `n`. -/
def putIn (n k : Nat) (m : Nat) : Nat := if m < n then m else m + k

/-- A source whose tokens are those of another one at other offsets, and which comes to the same
value, or to the same error at its other offset, after the same calls. -/
structure Relaid (f : Nat → Nat) (source source' : String) : Prop where
  tokens : tokenize source' = (tokenize source).map (Token.moved f)
  evaluated : ∀ (e : Engine) (given : Table Value),
    (e.evaluate source' given).result
        = (e.evaluate source given).result.mapError (fun err ↦ ⟨source', err.cause.moved f⟩) ∧
      (e.evaluate source' given).calls = (e.evaluate source given).calls
  compiled : ∀ (options : Options) (given : Table Value),
    (((compile source').withOptions options).evaluate given).result
        = (((compile source).withOptions options).evaluate given).result.mapError
            (fun err ↦ ⟨source', err.cause.moved f⟩) ∧
      (((compile source').withOptions options).evaluate given).calls
        = (((compile source).withOptions options).evaluate given).calls

/-- Answers for tokens at other offsets. -/
theorem Evaluation.Reports.moved {f : Nat → Nat} {answer answer' : Evaluation}
    {source source' : String} {tokens : List Token} {bindings : Table Value}
    {functions : Table Callable} {options : Options}
    (h : answer.Reports source (evaluateTokens tokens bindings functions options))
    (h' : answer'.Reports source'
      (evaluateTokens (tokens.map (Token.moved f)) bindings functions options))
    (hne : tokens ≠ []) :
    answer'.result = answer.result.mapError (fun err ↦ ⟨source', err.cause.moved f⟩) ∧
      answer'.calls = answer.calls := by
  have hrun := evaluateTokens_moved f hne bindings functions options
  have hresult : (evaluateTokens (tokens.map (Token.moved f)) bindings functions options).result
      = (evaluateTokens tokens bindings functions options).result.mapError (·.moved f) :=
    congrArg Run.result hrun
  refine ⟨?_, h'.calls.trans ((congrArg Run.calls hrun).trans h.calls.symm)⟩
  rw [h'.result, h.result, hresult]
  cases (evaluateTokens tokens bindings functions options).result <;> rfl

theorem tokenize_ne_nil (source : String) : tokenize source ≠ [] := by
  obtain ⟨inner, n, htokens, -⟩ := (gives_tokenize source).marked
  simp [htokens]

/-- **A source with the same tokens elsewhere comes to the same.** -/
theorem relaid_of_tokens {f : Nat → Nat} {source source' : String} (hsource : source ≠ "")
    (hsource' : source' ≠ "") (h : tokenize source' = (tokenize source).map (Token.moved f)) :
    Relaid f source source' where
  tokens := h
  evaluated e given :=
    (e.reports_evaluate hsource given).moved (h ▸ e.reports_evaluate hsource' given)
      (tokenize_ne_nil source)
  compiled options given :=
    (Compiled.reports_evaluate hsource options given).moved
      (h ▸ Compiled.reports_evaluate hsource' options given) (tokenize_ne_nil source)

/-! ## Blanks around a source -/

section Around

variable {cs front middle back blanks : List Char}

theorem Trimmed.blanks_front (h : Trimmed cs front middle back)
    (hblanks : ∀ c ∈ blanks, Text.isBlank c) :
    Trimmed (blanks ++ cs) (blanks ++ front) middle back where
  whole := by rw [h.whole, List.append_assoc]
  front_blank := List.forall_mem_append.mpr ⟨hblanks, h.front_blank⟩
  back_blank := h.back_blank
  begins := h.begins
  ends := h.ends

theorem Trimmed.blanks_back (h : Trimmed cs front middle back) (hmiddle : middle ≠ [])
    (hblanks : ∀ c ∈ blanks, Text.isBlank c) :
    Trimmed (cs ++ blanks) front middle (back ++ blanks) where
  whole := by rw [h.whole, List.append_assoc, List.append_assoc]
  front_blank := h.front_blank
  back_blank := List.forall_mem_append.mpr ⟨h.back_blank, hblanks⟩
  begins := by
    have hbegins := h.begins
    rw [List.head?_append_of_ne_nil _ hmiddle] at hbegins
    rwa [List.head?_append_of_ne_nil _ hmiddle]
  ends := h.ends

/-- A text that is not all blank has something left when it is trimmed. -/
theorem Trimmed.middle_ne_nil (h : Trimmed cs front middle back)
    (hcs : ¬∀ c ∈ cs, Text.isBlank c) : middle ≠ [] := by
  rintro rfl
  refine hcs ?_
  rw [h.whole]
  exact List.forall_mem_append.mpr ⟨h.front_blank, h.back_blank⟩

end Around

variable {source : String}

theorem tokenize_blanks_front {blanks : String} (hblanks : ∀ c ∈ blanks.toList, Text.isBlank c) :
    tokenize (blanks ++ source)
      = (tokenize source).map (Token.moved (· + blanks.utf8ByteSize)) := by
  obtain ⟨front, pieces, back, htrimmed, hcut, hgives⟩ := exists_pieces source
  obtain ⟨strays', hlater⟩ := hgives.later blanks.utf8ByteSize
  have hoffset : bytes front + blanks.utf8ByteSize = bytes (blanks.toList ++ front) := by
    rw [bytes_append, bytes_toList, Nat.add_comm]
  rw [hoffset] at hlater
  have htrimmed' := htrimmed.blanks_front hblanks
  rw [← String.toList_append] at htrimmed'
  exact tokenize_eq htrimmed' hcut hlater

theorem tokenize_blanks_back {blanks : String} (hsource : ¬∀ c ∈ source.toList, Text.isBlank c)
    (hblanks : ∀ c ∈ blanks.toList, Text.isBlank c) :
    tokenize (source ++ blanks) = tokenize source := by
  obtain ⟨front, pieces, back, htrimmed, hcut, hgives⟩ := exists_pieces source
  have htrimmed' := htrimmed.blanks_back (htrimmed.middle_ne_nil hsource) hblanks
  rw [← String.toList_append] at htrimmed'
  exact tokenize_eq htrimmed' hcut hgives

/-! ## Blanks at a seam -/

section Seam

variable {α : Type} {p : α → Prop}

/-- A list has elements of a kind at its front as far as they go. -/
theorem exists_front (p : α → Prop) (l : List α) :
    ∃ l₁ l₂, l = l₁ ++ l₂ ∧ (∀ a ∈ l₁, p a) ∧ ∀ a ∈ l₂.head?, ¬p a := by
  induction l with
  | nil => exact ⟨[], [], rfl, by simp, by simp⟩
  | cons a l ih =>
    by_cases ha : p a
    · obtain ⟨l₁, l₂, rfl, hall, hhead⟩ := ih
      exact ⟨a :: l₁, l₂, rfl, List.forall_mem_cons.mpr ⟨ha, hall⟩, hhead⟩
    · exact ⟨[], a :: l, rfl, by simp, by simpa using ha⟩

theorem exists_back (p : α → Prop) (l : List α) :
    ∃ l₁ l₂, l = l₁ ++ l₂ ∧ (∀ a ∈ l₁.getLast?, ¬p a) ∧ ∀ a ∈ l₂, p a := by
  obtain ⟨l₂, l₁, hl, hall, hhead⟩ := exists_front p l.reverse
  refine ⟨l₁.reverse, l₂.reverse, ?_, ?_, ?_⟩
  · rw [← List.reverse_append, ← hl, List.reverse_reverse]
  · rwa [List.getLast?_reverse]
  · simpa using hall

variable {piece rest blanks cs : List Char} {ps qs bs later : List (List Char)}

theorem lexeme_blank_iff {cs : List Char} :
    Lexeme cs none ↔ cs ≠ [] ∧ ∀ c ∈ cs, isBlank c := by
  refine ⟨fun h ↦ ?_, fun h ↦ .blank h.1 h.2⟩
  generalize hkind : none = kind at h
  cases h with
  | blank hne h => exact ⟨hne, h⟩
  | _ => exact absurd hkind (by simp)

theorem isBlank_of_mem_flatten (h : ∀ b ∈ bs, Lexeme b none) : ∀ c ∈ bs.flatten, isBlank c := by
  intro c hc
  obtain ⟨b, hb, hc⟩ := List.mem_flatten.mp hc
  exact (lexeme_blank_iff.mp (h b hb)).2 c hc

/-- A piece that is none of blanks does not begin with one. -/
theorem First.not_isBlank (h : First (piece ++ rest) piece) (hpiece : ¬Lexeme piece none) :
    ∀ c ∈ piece.head?, ¬isBlank c := by
  intro c hc hblank
  obtain ⟨form, hform⟩ := h.formOfText?
  have hshape := formOfText?_eq_some_iff.mp hform
  obtain ⟨cs, rfl⟩ := List.head?_eq_some_iff.mp hc
  rcases form_of_isBlank hshape (isTextBlank_of_isBlank hblank) with rfl | rfl
  · exact hpiece (lexeme_of_shape (by simp) hshape)
  · obtain ⟨d, hd, hstray⟩ := hshape
    obtain ⟨rfl, -⟩ := List.cons.inj hd
    rw [formOf_of_isBlank hblank] at hstray
    exact absurd hstray (by simp)

/-- A piece that is none of blanks ends before them, as it does before anything else. -/
theorem Ended.of_blanks {rest : List Char} (h : Ended ps rest) (hcut : Cut ps.flatten ps)
    (hrest : rest ≠ []) (hlast : ∀ piece ∈ ps.getLast?, ¬Lexeme piece none)
    (hblanks : ∀ c ∈ blanks, isBlank c) : Ended ps blanks := by
  refine ended_of_isBlank (fun piece hpiece ↦ ?_) fun c hc ↦ hblanks c (List.mem_of_mem_head? hc)
  obtain ⟨form, hform⟩ := hcut.formOfText? piece (List.mem_of_getLast? hpiece)
  refine ⟨form, hform, fun hopen ↦ ?_, ?_⟩
  · obtain ⟨d, ds, rfl⟩ := List.exists_cons_of_ne_nil hrest
    exact h piece hpiece d rfl (grows_of_isOpen hform hopen d)
  · rintro rfl
    exact hlast piece hpiece (lexeme_of_shape (by simp) (formOfText?_eq_some_iff.mp hform))

theorem ended_blanks (hne : blanks ≠ []) (hblanks : ∀ c ∈ blanks, isBlank c)
    (hrest : ∀ c ∈ rest.head?, ¬isBlank c) : Ended [blanks] rest := by
  rintro _ ⟨⟩ c hc hgrows
  have hblank : formOfText? blanks = some .blank := formOfText?_of_shape ⟨hne, hblanks⟩
  obtain ⟨form, hform⟩ := (grows_iff hblank).mp hgrows
  exact absurd hform (by simp [grownForm?, hrest c hc])

/-- **Blanks at a place between pieces are one piece**, with those that were there before. -/
theorem Cut.inserted (h : Cut cs (ps ++ (bs ++ qs))) (hne : (bs ++ qs).flatten ≠ [])
    (hps : ∀ piece ∈ ps.getLast?, ¬Lexeme piece none) (hqs : ∀ piece ∈ qs.head?, ¬Lexeme piece none)
    (hblanks : ∀ c ∈ blanks, isBlank c) (hblanks' : blanks ≠ []) :
    Cut (ps.flatten ++ (blanks ++ qs.flatten)) (ps ++ blanks :: qs) := by
  obtain ⟨hfront, hend⟩ := h.front
  have hback : Cut qs.flatten qs := by
    rw [← List.append_assoc] at h
    exact h.behind
  have hhead : ∀ c ∈ qs.flatten.head?, ¬isBlank c := by
    intro c hc
    generalize qs.flatten = text at hback hc
    cases hback with
    | nil => exact absurd hc (by simp)
    | cons hfirst _ =>
      rw [List.head?_append_of_ne_nil _ hfirst.ne_nil] at hc
      exact hfirst.not_isBlank (hqs _ rfl) c hc
  have hended : Ended ps (blanks ++ qs.flatten) := by
    intro piece hpiece c hc
    rw [List.head?_append_of_ne_nil _ hblanks'] at hc
    exact hend.of_blanks hfront hne hps hblanks piece hpiece c hc
  exact hfront.append ((cut_lexeme (.blank hblanks' hblanks)).append hback
    (ended_blanks hblanks' hblanks hhead)) hended

/-- Blanks in front of pieces make them begin later. -/
theorem Gives.behind_blanks {previous : Option TokenKind} {offset : Nat} {tokens : List Token}
    {strays : List Stray} (hbs : ∀ b ∈ bs, Lexeme b none)
    (h : Gives previous offset (bs ++ later) tokens strays) :
    Gives previous (offset + bytes bs.flatten) later tokens strays := by
  induction bs generalizing offset with
  | nil => exact h
  | cons b bs ih =>
    obtain ⟨hb, hbs⟩ := List.forall_mem_cons.mp hbs
    rw [add_bytes_flatten_cons]
    generalize hpieces : b :: bs ++ later = pieces at h
    cases h with
    | done => exact absurd hpieces (by simp)
    | blank _ hlater =>
      obtain ⟨rfl, rfl⟩ := List.cons.inj hpieces
      exact ih hbs hlater
    | stray hstray =>
      obtain ⟨rfl, -⟩ := List.cons.inj hpieces
      exact absurd hb (hstray none)
    | signed hsigned =>
      obtain ⟨rfl, -⟩ := List.cons.inj hpieces
      exact absurd (hb.kind_unique hsigned.lexeme) (by simp)
    | single hpiece =>
      obtain ⟨rfl, -⟩ := List.cons.inj hpieces
      exact absurd (hb.kind_unique hpiece) (by simp)

variable {offset : Nat} {tokens ts ts' : List Token} {strays ss : List Stray}

theorem map_moved_putIn {n k : Nat} (hts : ∀ t ∈ ts, t.offset < n)
    (hts' : ∀ t ∈ ts', n ≤ t.offset) :
    (ts ++ ts').map (Token.moved (putIn n k)) = ts ++ ts'.map (Token.moved (· + k)) := by
  rw [List.map_append]
  congr 1
  · refine (List.map_congr_left fun t ht ↦ ?_).trans (List.map_id ts)
    rw [Token.moved, putIn, if_pos (hts t ht)]
    rfl
  · refine List.map_congr_left fun t ht ↦ ?_
    rw [Token.moved, Token.moved, putIn, if_neg (Nat.not_lt.mpr (hts' t ht))]

/-- What is in front of a place begins in front of it. -/
theorem Gives.lt_of_mem {previous : Option TokenKind} {n : Nat}
    (h : Gives previous offset ps (ts ++ [⟨.endOfInput, n⟩]) strays) : ∀ t ∈ ts, t.offset < n := by
  have hsorted := h.sorted
  rw [List.pairwise_append] at hsorted
  exact fun t ht ↦ hsorted.2.2 t ht ⟨.endOfInput, n⟩ (by simp)

/-- The numeral of a literal is not a piece of blanks. -/
theorem Signed.not_blank {previous : Option TokenKind} {sign digits : List Char} {x : Float}
    (h : Signed previous sign digits x) : ¬Lexeme digits none :=
  fun hblank ↦ absurd (hblank.kind_unique h.numeral) (by simp)

/-- **Blanks at a place between pieces make what is behind it begin later**, unless the place is
inside a literal. -/
theorem Gives.inserted (h : Gives none offset (ps ++ (bs ++ qs)) tokens strays)
    (hwhole : Gives.Whole offset ps (bs ++ qs) tokens) (hbs : ∀ b ∈ bs, Lexeme b none)
    {n k : Nat} (hn : offset + bytes ps.flatten ≤ n)
    (hn' : n ≤ offset + bytes ps.flatten + bytes bs.flatten)
    (hblanks : ∀ c ∈ blanks, isBlank c) (hne : blanks ≠ [])
    (hbytes : bytes blanks = bytes bs.flatten + k) :
    ∃ strays', Gives none offset (ps ++ blanks :: qs) (tokens.map (Token.moved (putIn n k)))
      strays' := by
  obtain ⟨ts, ts', ss, ss', rfl, hfront, hback⟩ := h.parts hwhole
  have hbehind := hback.behind_blanks hbs
  obtain ⟨ss₁, hlater⟩ := hbehind.later k
  rw [Nat.add_assoc _ _ k, ← hbytes] at hlater
  have hunsigned : Gives.Unsigned ps (blanks :: qs) :=
    unsigned_of_lexeme (.blank hne hblanks) (by simp)
  rw [map_moved_putIn (fun t ht ↦ Nat.lt_of_lt_of_le (hfront.lt_of_mem t ht) hn)
    fun t ht ↦ Nat.le_trans hn' (hbehind.le_offset t ht)]
  exact ⟨_, hfront.append (.blank (.blank hne hblanks) hlater) hunsigned⟩

end Seam

/-- A seam has pieces on both sides. -/
theorem IsSeam.exists_pieces {n : Nat} (h : IsSeam source n) : ∃ front ps qs back,
    Trimmed source.toList front (ps.flatten ++ qs.flatten) back ∧
      Cut (ps.flatten ++ qs.flatten) (ps ++ qs) ∧
      Gives none (bytes front) (ps ++ qs) (tokenize source) (strays source) ∧
      ps.flatten ≠ [] ∧ qs.flatten ≠ [] ∧ bytes front + bytes ps.flatten = n := by
  obtain ⟨ps, qs, hpieces, hps, hqs, hn⟩ := h
  obtain ⟨front, middle, back, htrimmed⟩ : ∃ front middle back,
      Trimmed source.toList front middle back := ⟨_, _, _, trimmed_iff.mpr ⟨rfl, rfl, rfl⟩⟩
  obtain ⟨hfront, hmiddle, -⟩ := trimmed_iff.mp htrimmed
  have hcut : Cut middle ((ps ++ qs).map Piece.text) := by
    rw [hmiddle, ← hpieces]
    exact cut_split _
  have hgives := gives_tokenize source
  rw [hpieces, leadingBytes, ← hfront] at hgives
  rw [List.map_append] at hcut hgives
  have hflatten := hcut.flatten_eq
  rw [List.flatten_append] at hflatten
  rw [← hflatten] at htrimmed hcut
  have hne : ∀ {ps : List Piece}, ps ≠ [] →
      (∀ piece ∈ ps.map Piece.text, piece ≠ []) → (ps.map Piece.text).flatten ≠ [] := by
    intro ps hps hpieces
    obtain ⟨p, hp⟩ := List.exists_mem_of_ne_nil ps hps
    have hmem : p.text ∈ ps.map Piece.text := List.mem_map_of_mem hp
    exact List.flatten_ne_nil_iff.mpr ⟨_, hmem, hpieces _ hmem⟩
  refine ⟨front, _, _, back, htrimmed, hcut, hgives, hne hps fun piece h ↦ ?_,
    hne hqs fun piece h ↦ ?_, ?_⟩
  · exact hcut.ne_nil piece (List.mem_append_left _ h)
  · exact hcut.ne_nil piece (List.mem_append_right _ h)
  · rw [← hn, leadingBytes, hfront]
    rfl

/-- At a place with blanks around it no sign is apart from its numeral, and at one without them no
literal is cut in two. -/
theorem whole_of_signedIn {text front back : List Char} {ps bs qs : List (List Char)}
    {tokens : List Token} (htext : text = front ++ ((ps ++ (bs ++ qs)).flatten ++ back))
    (hbs : ∀ b ∈ bs, Lexeme b none) (hsigned : bs = [] → ∀ t ∈ tokens, t.SignedIn text →
      t.offset + 1 ≠ bytes front + bytes ps.flatten) :
    Gives.Whole (bytes front) ps (bs ++ qs) tokens := by
  intro sign hsign digits hdigits previous x hliteral t ht hkind hoffset
  cases bs with
  | cons b bs =>
    obtain rfl := Option.some.inj hdigits
    exact hliteral.not_blank (hbs _ List.mem_cons_self)
  | nil =>
    obtain ⟨us, rfl⟩ := List.getLast?_eq_some_iff.mp hsign
    obtain rfl := hliteral.sign_eq
    refine hsigned rfl t ht ⟨-x, front ++ us.flatten, qs.flatten ++ back, hkind, ?_, ?_⟩ hoffset
    · rw [htext]
      simp
    · rw [List.flatten_append, List.flatten_singleton, bytes_append, ← Nat.add_assoc] at hoffset
      rw [bytes_append, Nat.add_right_cancel hoffset]

theorem Token.moved_putIn_zero (n : Nat) : Token.moved (putIn n 0) = id := by
  funext t
  rw [Token.moved, putIn, Nat.add_zero, ite_self]
  rfl

/-- A seam with the blanks on both sides of it set apart. -/
theorem IsSeam.exists_blanks {n : Nat} (h : IsSeam source n) : ∃ front ps bs cs qs back,
    Trimmed source.toList front ((ps ++ bs).flatten ++ (cs ++ qs).flatten) back ∧
      Cut ((ps ++ bs).flatten ++ (cs ++ qs).flatten) (ps ++ ((bs ++ cs) ++ qs)) ∧
      Gives none (bytes front) (ps ++ ((bs ++ cs) ++ qs)) (tokenize source) (strays source) ∧
      (ps ++ bs).flatten ≠ [] ∧ (cs ++ qs).flatten ≠ [] ∧
      bytes front + bytes (ps ++ bs).flatten = n ∧ (∀ b ∈ bs, Lexeme b none) ∧
      (∀ c ∈ cs, Lexeme c none) ∧ (∀ piece ∈ ps.getLast?, ¬Lexeme piece none) ∧
      ∀ piece ∈ qs.head?, ¬Lexeme piece none := by
  obtain ⟨front, ps, qs, back, htrimmed, hcut, hgives, hps, hqs, hn⟩ := h.exists_pieces
  obtain ⟨ps, bs, rfl, hlast, hbs⟩ := exists_back (Lexeme · none) ps
  obtain ⟨cs, qs, rfl, hcs, hhead⟩ := exists_front (Lexeme · none) qs
  have hassoc : (ps ++ bs) ++ (cs ++ qs) = ps ++ ((bs ++ cs) ++ qs) := by simp
  rw [hassoc] at hcut hgives
  exact ⟨front, ps, bs, cs, qs, back, htrimmed, hcut, hgives, hps, hqs, hn, hbs, hcs, hlast, hhead⟩

/-- What is put in inside a source is not trimmed. -/
theorem Trimmed.put_in {front back : String} {front₀ before behind back₀ : List Char}
    (h : Trimmed (front ++ back).toList front₀ (before ++ behind) back₀) (hbefore : before ≠ [])
    (hbehind : behind ≠ []) (hn : bytes front₀ + bytes before = front.utf8ByteSize)
    (blanks : String) :
    Trimmed (front ++ blanks ++ back).toList front₀ (before ++ (blanks.toList ++ behind))
      back₀ := by
  obtain ⟨hfront, hback⟩ : front.toList = front₀ ++ before ∧ back.toList = behind ++ back₀ := by
    refine append_inj_of_bytes (by simpa using h.whole) ?_
    rw [bytes_toList, bytes_append, hn]
  have hmiddle : Trimmed (front ++ back).toList front₀ (before ++ ([] ++ behind)) back₀ := h
  have htext : front₀ ++ (before ++ (blanks.toList ++ behind) ++ back₀)
      = (front ++ blanks ++ back).toList := by
    simp [hfront, hback]
  rw [← htext]
  exact hmiddle.replace hbefore hbehind blanks.toList

/-- **Blanks at a seam move the tokens behind it**, and do nothing else. -/
theorem tokenize_put_in {front blanks back : String} (hblanks : ∀ c ∈ blanks.toList, isBlank c)
    (hseam : IsSeam (front ++ back) front.utf8ByteSize)
    (hsigned : ∀ t ∈ tokenize (front ++ back), t.SignedIn (front ++ back).toList →
      t.offset + 1 ≠ front.utf8ByteSize) :
    tokenize (front ++ blanks ++ back) = (tokenize (front ++ back)).map
      (Token.moved (putIn front.utf8ByteSize blanks.utf8ByteSize)) := by
  by_cases hempty : blanks = ""
  · subst hempty
    rw [String.append_empty, String.utf8ByteSize_empty, Token.moved_putIn_zero, List.map_id]
  obtain ⟨front₀, ps, bs, cs, qs, back₀, htrimmed, hcut, hgives, hbefore, hbehind, hn, hbs, hcs,
    hlast, hhead⟩ := hseam.exists_blanks
  have hall : ∀ b ∈ bs ++ cs, Lexeme b none := List.forall_mem_append.mpr ⟨hbs, hcs⟩
  have htext : (front ++ back).toList
      = front₀ ++ ((ps ++ ((bs ++ cs) ++ qs)).flatten ++ back₀) := by
    rw [htrimmed.whole]
    simp
  have hwhole : Gives.Whole (bytes front₀) ps ((bs ++ cs) ++ qs) (tokenize (front ++ back)) := by
    refine whole_of_signedIn htext hall fun hnil t ht hin ↦ ?_
    obtain ⟨rfl, rfl⟩ := List.append_eq_nil_iff.mp hnil
    rw [List.append_nil] at hn
    rw [hn]
    exact hsigned t ht hin
  -- the blanks that are there already go together with those that are put in
  have hnew : ∀ c ∈ bs.flatten ++ blanks.toList ++ cs.flatten, isBlank c := by
    simp only [List.forall_mem_append]
    exact ⟨⟨isBlank_of_mem_flatten hbs, hblanks⟩, isBlank_of_mem_flatten hcs⟩
  have hne : bs.flatten ++ blanks.toList ++ cs.flatten ≠ [] := by simp [hempty]
  have hn' : front.utf8ByteSize = bytes front₀ + bytes ps.flatten + bytes bs.flatten := by
    rw [← hn, List.flatten_append, bytes_append, Nat.add_assoc]
  have hhigh : front.utf8ByteSize ≤ bytes front₀ + bytes ps.flatten + bytes (bs ++ cs).flatten := by
    rw [hn', List.flatten_append, bytes_append]
    omega
  have hbytes : bytes (bs.flatten ++ blanks.toList ++ cs.flatten)
      = bytes (bs ++ cs).flatten + blanks.utf8ByteSize := by
    simp only [bytes_append, List.flatten_append, bytes_toList]
    omega
  obtain ⟨strays', hgives'⟩ := hgives.inserted hwhole hall (by omega) hhigh hnew hne hbytes
  have htrimmed' := htrimmed.put_in hbefore hbehind hn blanks
  have hflatten : (ps ++ bs).flatten ++ (blanks.toList ++ (cs ++ qs).flatten)
      = ps.flatten ++ ((bs.flatten ++ blanks.toList ++ cs.flatten) ++ qs.flatten) := by simp
  rw [hflatten] at htrimmed'
  have hrest : ((bs ++ cs) ++ qs).flatten ≠ [] := by
    rw [List.append_assoc, List.flatten_append]
    exact List.append_ne_nil_of_right_ne_nil _ hbehind
  exact tokenize_eq htrimmed' (hcut.inserted hrest hlast hhead hnew hne) hgives'

/-- **Layout does not matter**: blanks around a source, or at a seam of it that is not inside a
literal, move the tokens behind them, and the source comes to the same value or to the same error
at the place where it is now. Blanks behind the source move nothing. -/
theorem tokenize_layout {source : String} (hsource : ¬∀ c ∈ source.toList, Text.isBlank c) :
    (∀ blanks : String, (∀ c ∈ blanks.toList, Text.isBlank c) →
      Relaid (· + blanks.utf8ByteSize) source (blanks ++ source)) ∧
    (∀ blanks : String, (∀ c ∈ blanks.toList, Text.isBlank c) →
      tokenize (source ++ blanks) = tokenize source ∧ Relaid id source (source ++ blanks)) ∧
    ∀ front blanks back : String, source = front ++ back →
      (∀ c ∈ blanks.toList, isBlank c) → IsSeam source front.utf8ByteSize →
      (∀ t ∈ tokenize source, t.SignedIn source.toList → t.offset + 1 ≠ front.utf8ByteSize) →
      Relaid (putIn front.utf8ByteSize blanks.utf8ByteSize) source (front ++ blanks ++ back) := by
  have hne : source ≠ "" := by
    rintro rfl
    exact hsource (by simp)
  refine ⟨fun blanks hblanks ↦ ?_, fun blanks hblanks ↦ ?_,
    fun front blanks back hwhole hblanks hseam hsigned ↦ ?_⟩
  · exact relaid_of_tokens hne (by simp [hne]) (tokenize_blanks_front hblanks)
  · have htokens := tokenize_blanks_back hsource hblanks
    exact ⟨htokens, relaid_of_tokens hne (by simp [hne]) (htokens.trans (List.map_id _).symm)⟩
  · subst hwhole
    refine relaid_of_tokens hne ?_ (tokenize_put_in hblanks hseam hsigned)
    intro hempty
    rw [String.append_eq_empty_iff, String.append_eq_empty_iff] at hempty
    exact hne (by rw [hempty.1.1, hempty.2, String.append_empty])

/-- Layout in front of `a-3`, behind it, and between its minus and the numeral, which the minus
cannot be the sign of. -/
theorem tokenize_layout_difference :
    Relaid (· + 3) "a-3" ("\u2003" ++ "a-3") ∧
      tokenize ("a-3" ++ "\u00a0") = tokenize "a-3" ∧
      tokenize "a-\n\t3" = [⟨.identifier "a", 0⟩, ⟨.operator (.arithmetic .subtract), 1⟩,
        ⟨.number (Number.ofLiteral "3"), 4⟩, ⟨.endOfInput, 5⟩] ∧
      Relaid (putIn 2 2) "a-3" "a-\n\t3" := by
  have hsource : ¬∀ c ∈ "a-3".toList, Text.isBlank c := mt List.all_eq_true.mpr (by decide)
  obtain ⟨hfront, hback, hinside⟩ := tokenize_layout hsource
  have hseam : IsSeam "a-3" 2 :=
    ⟨[⟨.word, "a"⟩, ⟨.operator (.arithmetic .subtract), "-"⟩], [⟨.number, "3"⟩], by decide,
      by decide, by decide, by decide⟩
  have htokens : tokenize "a-3" = [⟨.identifier "a", 0⟩,
      ⟨.operator (.arithmetic .subtract), 1⟩, ⟨.number (Number.ofLiteral "3"), 2⟩,
      ⟨.endOfInput, 3⟩] := by rfl
  have hsigned : ∀ t ∈ tokenize "a-3", t.SignedIn "a-3".toList → t.offset + 1 ≠ 2 := by
    rw [htokens]
    rintro t ht ⟨x, -, -, hkind, -, -⟩
    simp only [List.mem_cons, List.not_mem_nil, or_false] at ht
    rcases ht with rfl | rfl | rfl | rfl
    · decide
    · exact absurd hkind (by simp)
    · decide
    · decide
  exact ⟨hfront "\u2003" (List.all_eq_true.mp rfl), (hback "\u00a0" (List.all_eq_true.mp rfl)).1,
    by rfl, hinside "a-" "\n\t" "3" rfl (List.all_eq_true.mp rfl) hseam hsigned⟩

end Formula
