import Formula.Proofs.Joining
import Formula.Proofs.Lookahead
import Formula.Proofs.Routes

/-!
# Where a sign is refused

The evaluator knows no sign. It refuses a minus wherever an operand has to begin, and leaves it to
the tokens to have taken the minus for the sign of a literal there. They do so behind everything
that only a value can follow (`BeforeValue`). But the words `and`, `or` and `not` are names to them,
and behind a name a minus is an operator.

So these are the places where the two disagree, and there are no others: a minus that is refused
although a digit is right behind it stands behind one of the three words (`evaluate_sign_refused`).
For the reading of operands this is a matter of what was read last. Only behind an argument without
a comma is there no such token, and there a sum would have gone on (`Reader.Meets`, `Asked`).
-/

namespace Formula

open Formula.Tree Piece Reader

variable {α β : Type}

/-! ## What readers meet -/

/-- On lists with the property `P`, a reader leaves lists with the property `Q` or fails with an
error of the kind `E`. -/
def Reader.Meets (P Q : List Token → Prop) (E : EvalError → Prop) (r : Reader α) : Prop :=
  ∀ ts, P ts → match r ts with
    | .ok p => Q p.rest
    | .error f => E f.error

namespace Reader

variable {P P' Q Q' R : List Token → Prop} {E : EvalError → Prop}

theorem Meets.of_ok {r : Reader α} (h : r.Meets P Q E) {ts : List Token} {p : Part α}
    (hts : P ts) (hp : r ts = .ok p) : Q p.rest := by
  have hmeets := h ts hts
  rwa [hp] at hmeets

theorem Meets.of_error {r : Reader α} (h : r.Meets P Q E) {ts : List Token} {f : Failure}
    (hts : P ts) (hf : r ts = .error f) : E f.error := by
  have hmeets := h ts hts
  rwa [hf] at hmeets

theorem Meets.imp {r : Reader α} (h : r.Meets P Q E) (hP : ∀ ts, P' ts → P ts)
    (hQ : ∀ ts, Q ts → Q' ts) : r.Meets P' Q' E := by
  intro ts hts
  have hmeets := h ts (hP ts hts)
  cases hr : r ts with
  | ok p =>
    rw [hr] at hmeets
    exact hQ _ hmeets
  | error f =>
    rw [hr] at hmeets
    exact hmeets

theorem meets_pure (a : α) : (pure a : Reader α).Meets P P E := fun _ hts ↦ hts

theorem Meets.bind {r : Reader α} {next : α → Reader β} (hr : r.Meets P Q E)
    (hnext : ∀ a, (next a).Meets Q R E) : (r >>= next).Meets P R E := by
  intro ts hts
  rw [bind_apply]
  cases hp : r ts with
  | error f => exact hr.of_error hts hp
  | ok p =>
    have hbehind := hnext p.value p.rest (hr.of_ok hts hp)
    rw [andThen_ok]
    cases hq : next p.value p.rest with
    | error f =>
      rw [hq] at hbehind
      exact hbehind
    | ok q =>
      rw [hq] at hbehind
      exact hbehind

theorem Meets.within {r : Reader α} (h : r.Meets P Q E) (frames : List Frame) :
    (within frames r).Meets P Q E := by
  intro ts hts
  have hmeets := h ts hts
  cases hr : r ts with
  | error f =>
    rw [hr] at hmeets
    rw [within_of_error frames hr]
    exact hmeets
  | ok p =>
    rw [hr] at hmeets
    rw [within_of_ok frames hr]
    exact hmeets

theorem meets_comma (h : ∀ ts, P ts → Q (afterComma ts)) : comma.Meets P Q E := h

theorem meets_rowFrom (l : Level) {operand : Reader Tree} (hoperand : operand.Meets P Q E)
    (hjoint : ∀ ts j, Q ts → Joint.atLevel? l (front ts) = some j → P ts.tail) (n : Nat) :
    ∀ left : Tree, (rowFrom l operand n left).Meets Q Q E := by
  induction n with
  | zero => exact fun left ↦ meets_pure left
  | succ n ih =>
    intro left ts hts
    cases hj : Joint.atLevel? l (front ts) with
    | none =>
      rw [rowFrom_end hj]
      exact hts
    | some j =>
      rw [rowFrom_joint hj]
      exact ((hoperand.within _).bind fun right ↦ ih _) _ (hjoint ts j hts hj)

/-- Where a row ends, none of its joints is in front. -/
theorem atLevel?_of_rowFrom (l : Level) {operand : Reader Tree} (h : operand.Keeps) (n : Nat) :
    ∀ (left : Tree) (ts : List Token) (p : Part Tree), ts.length ≤ n →
      rowFrom l operand n left ts = .ok p → Joint.atLevel? l (front p.rest) = none := by
  induction n with
  | zero =>
    intro left ts p hn hp
    obtain rfl := List.eq_nil_of_length_eq_zero (Nat.le_zero.mp hn)
    obtain rfl := Except.ok.inj hp
    exact atLevel?_of_endsArguments rfl
  | succ n ih =>
    intro left ts p hn hp
    cases hj : Joint.atLevel? l (front ts) with
    | none =>
      rw [rowFrom_end hj] at hp
      obtain rfl := Except.ok.inj hp
      exact hj
    | some j =>
      rw [rowFrom_joint hj] at hp
      obtain ⟨q, q', hq, hq', rfl⟩ := andThen_eq_ok hp
      have hlength := List.length_pos_iff.mpr (ne_nil_of_front rfl (Joint.ne_endOfInput hj))
      have hle := (h _ _ (within_eq_ok.mp hq)).length_le
      rw [List.length_tail] at hle
      exact ih _ _ q' (by omega) hq'

theorem meets_row (l : Level) {operand : Reader Tree} (hkeeps : operand.Keeps)
    (hoperand : operand.Meets P Q E)
    (hjoint : ∀ ts j, Q ts → Joint.atLevel? l (front ts) = some j → P ts.tail) :
    (row l operand).Meets P (fun ts ↦ Q ts ∧ Joint.atLevel? l (front ts) = none) E := by
  intro ts hts
  have hrow := (hoperand.bind (meets_rowFrom l hoperand hjoint ts.length)) ts hts
  rw [row]
  cases hp : (do
      let left ← operand
      rowFrom l operand ts.length left : Reader Tree) ts with
  | error f =>
    rw [hp] at hrow
    exact hrow
  | ok p =>
    rw [hp] at hrow
    obtain ⟨q, q', hq, hq', rfl⟩ := andThen_eq_ok hp
    exact ⟨hrow, atLevel?_of_rowFrom l hkeeps _ _ _ q' (hkeeps ts q hq).length_le hq'⟩

end Reader

/-! ## Where operands begin -/

/-- Behind which tokens an operand begins: those that only a value can follow, and the words that
join or negate. -/
def AsksForValue (previous : Option TokenKind) : Prop :=
  BeforeValue previous ∨ ∃ word ∈ ["and", "or", "not"], previous = some (.identifier word)

theorem Joint.asksForValue_mark (j : Joint) : AsksForValue (some j.mark) := by
  cases j with
  | or => exact .inr ⟨"or", by simp, rfl⟩
  | and => exact .inr ⟨"and", by simp, rfl⟩
  | comparison op => exact .inl (.operator _)
  | arithmetic op => exact .inl (.operator _)

/-- The end of a list where an operand begins. If no token asks for one, a sum has ended here. -/
def Asked (tokens ts : List Token) : Prop :=
  ∃ before, tokens = before ++ ts ∧
    (AsksForValue (Gives.lastKind none before) ∨ Joint.atLevel? .sum (front ts) = none)

/-- The end of a list where a sum has ended. -/
def Settled (tokens ts : List Token) : Prop :=
  ts <:+ tokens ∧ Joint.atLevel? .sum (front ts) = none

/-- A plus or a minus is refused only behind a token that asks for a value. -/
def RefusedSum (tokens : List Token) (e : EvalError) : Prop :=
  ∀ kind n, e = .unexpectedToken kind n → Joint.atLevel? .sum kind ≠ none →
    ∃ before after, tokens = before ++ ⟨kind, n⟩ :: after ∧
      AsksForValue (Gives.lastKind none before)

section Places

variable {tokens ts : List Token}

theorem Asked.suffix (h : Asked tokens ts) : ts <:+ tokens := by
  obtain ⟨before, rfl, -⟩ := h
  exact List.suffix_append before ts

theorem Settled.asked (h : Settled tokens ts) : Asked tokens ts := by
  obtain ⟨⟨before, rfl⟩, hend⟩ := h
  exact ⟨before, rfl, .inr hend⟩

/-- An operand begins behind a token that asks for one. -/
theorem asked_tail (h : ts <:+ tokens) (hts : front ts ≠ .endOfInput)
    (hasks : AsksForValue (some (front ts))) : Asked tokens ts.tail := by
  obtain ⟨before, rfl⟩ := h
  obtain ⟨t, us, rfl⟩ := List.exists_cons_of_ne_nil (ne_nil_of_front rfl hts)
  refine ⟨before ++ [t], by simp, .inl ?_⟩
  rw [Gives.lastKind_concat]
  exact hasks

theorem asked_tail_of_joint (h : ts <:+ tokens) {l : Level} {j : Joint}
    (hj : Joint.atLevel? l (front ts) = some j) : Asked tokens ts.tail := by
  refine asked_tail h (Joint.ne_endOfInput hj) ?_
  rw [(Joint.eq_of_atLevel? hj).2]
  exact j.asksForValue_mark

theorem asked_afterComma (h : Settled tokens ts) : Asked tokens (afterComma ts) := by
  unfold afterComma
  split
  · next hcomma => exact asked_tail h.1 (by simp [hcomma]) (.inl (hcomma ▸ .comma))
  · exact h.asked

end Places

namespace Grammar

variable (g : Grammar) {tokens : List Token}

theorem meets_tooDeep {Q : List Token → Prop} :
    (g.tooDeep : Reader Tree).Meets (Asked tokens) Q (RefusedSum tokens) :=
  fun _ _ _ _ h ↦ absurd h (by simp)

/-- A reader that refuses no token. -/
theorem meets_of_keeps {r : Reader Unit} (hkeeps : r.Keeps)
    (h : ∀ ts f, r ts = .error f → ∀ kind n, f.error ≠ .unexpectedToken kind n) :
    r.Meets (· <:+ tokens) (· <:+ tokens) (RefusedSum tokens) := by
  intro ts hts
  cases hr : r ts with
  | ok p => exact (hkeeps ts p hr).trans hts
  | error f => exact fun kind n herror ↦ absurd herror (h ts f hr kind n)

theorem meets_closing :
    g.closing.Meets (· <:+ tokens) (· <:+ tokens) (RefusedSum tokens) := by
  refine meets_of_keeps g.keeps_closing fun ts f hf ↦ ?_
  unfold closing at hf
  split at hf
  · exact absurd hf (by simp)
  · split at hf
    · obtain rfl := Except.error.inj hf
      simp
    · exact absurd hf (by simp)

theorem meets_ending : g.ending.Meets (· <:+ tokens) (· <:+ tokens) (RefusedSum tokens) := by
  refine meets_of_keeps g.keeps_ending fun ts f hf ↦ ?_
  unfold ending at hf
  split at hf
  · exact absurd hf (by simp)
  · split at hf
    · obtain rfl := Except.error.inj hf
      simp
    · exact absurd hf (by simp)

end Grammar

/-- What is closed off ends anywhere. -/
theorem Reader.Meets.closed {tokens : List Token} {c : Reader Unit}
    (hc : c.Meets (· <:+ tokens) (· <:+ tokens) (RefusedSum tokens)) (frames : List Frame)
    (a : α) : Meets (· <:+ tokens) (· <:+ tokens) (RefusedSum tokens) (do
      Reader.within frames c
      return a : Reader α) :=
  (hc.within frames).bind fun _ ↦ meets_pure a

namespace Grammar

variable (g : Grammar) {tokens : List Token}

theorem meets_refuse : (g.refuse : Reader Tree).Meets (Asked tokens) (· <:+ tokens)
    (RefusedSum tokens) := by
  rintro ts ⟨before, rfl, hasked⟩ kind n h hsum
  obtain ⟨hkind, rfl⟩ := EvalError.unexpectedToken.inj h
  subst hkind
  rcases ts with _ | ⟨t, ts⟩
  · exact absurd rfl hsum
  · exact ⟨before, ts, rfl, hasked.resolve_right hsum⟩

theorem meets_arguments {argument : Reader Tree}
    (hargument : argument.Meets (Asked tokens) (Settled tokens) (RefusedSum tokens)) (n : Nat) :
    (arguments argument n).Meets (Asked tokens) (· <:+ tokens) (RefusedSum tokens) := by
  induction n with
  | zero => exact fun ts hts ↦ hts.suffix
  | succ n ih =>
    intro ts hts
    by_cases hends : endsArguments (front ts)
    · rw [arguments_end hends]
      exact hts.suffix
    · rw [arguments_more hends]
      have hcomma := meets_comma (E := RefusedSum tokens)
        fun ts (h : Settled tokens ts) ↦ asked_afterComma h
      exact (hargument.bind fun first ↦ hcomma.bind fun _ ↦ (ih.within _).bind fun others ↦
        meets_pure _) ts hts

theorem meets_operand {group : Reader Tree}
    (hgroup : group.Meets (Asked tokens) (Settled tokens) (RefusedSum tokens)) :
    (g.operand group).Meets (Asked tokens) (· <:+ tokens) (RefusedSum tokens) := by
  intro ts hts
  have hsuffix := hts.suffix
  have htail := (List.tail_suffix ts).trans hsuffix
  have hgroup' : group.Meets (Asked tokens) (· <:+ tokens) (RefusedSum tokens) :=
    hgroup.imp (fun _ ↦ id) fun _ h ↦ h.1
  cases hfront : front ts with
  | number x =>
    rw [operand_literal (v := .number x) hfront]
    exact htail
  | text s =>
    rw [operand_literal (v := .text s) hfront]
    exact htail
  | boolean b =>
    rw [operand_literal (v := .boolean b) hfront]
    exact htail
  | openParen =>
    rw [operand_group hfront]
    exact (hgroup'.bind fun u ↦ g.meets_closing.closed [.after u] u) _
      (asked_tail hsuffix (by simp [hfront]) (.inl (hfront ▸ .openParen)))
  | identifier name =>
    by_cases hparen : front ts.tail = .openParen
    · rw [operand_call hfront hparen]
      exact ((meets_arguments hgroup ts.length).bind fun as ↦
        g.meets_closing.closed (as.map .after) _) _
        (asked_tail htail (by simp [hparen]) (.inl (hparen ▸ .openParen)))
    · rw [operand_named hfront hparen]
      exact htail
  | operator | closeParen | comma | endOfInput =>
    rw [operand_refuse (by rw [hfront]; rfl)]
    exact g.meets_refuse ts hts

/-- **Behind a sum there is no plus and no minus.** -/
theorem meets_sum {group : Reader Tree} (hkeeps : group.Keeps)
    (hgroup : group.Meets (Asked tokens) (Settled tokens) (RefusedSum tokens)) :
    (g.sum group).Meets (Asked tokens) (Settled tokens) (RefusedSum tokens) := by
  have hproduct := (meets_row .product (g.advances_operand hkeeps).keeps
    (g.meets_operand hgroup) fun _ _ h hj ↦ asked_tail_of_joint h hj).imp (fun _ ↦ id)
    fun _ h ↦ h.1
  exact meets_row .sum (advances_row .product (g.advances_operand hkeeps)).keeps hproduct
    fun _ _ h hj ↦ asked_tail_of_joint h hj

theorem meets_comparison {group : Reader Tree} (hkeeps : group.Keeps)
    (hgroup : group.Meets (Asked tokens) (Settled tokens) (RefusedSum tokens)) :
    (g.comparison group).Meets (Asked tokens) (Settled tokens) (RefusedSum tokens) := by
  have hsum := g.meets_sum hkeeps hgroup
  exact hsum.bind (meets_rowFrom .comparison hsum (fun _ _ h hj ↦ asked_tail_of_joint h.1 hj) 1)

theorem meets_termOver {negated group : Reader Tree}
    (hnegated : negated.Meets (Asked tokens) (Settled tokens) (RefusedSum tokens))
    (hkeeps : group.Keeps)
    (hgroup : group.Meets (Asked tokens) (Settled tokens) (RefusedSum tokens)) :
    (g.termOver negated group).Meets (Asked tokens) (Settled tokens) (RefusedSum tokens) := by
  intro ts hts
  unfold termOver
  by_cases hnot : (front ts).isKeyword "not" = true
  · rw [if_pos hnot]
    have hfront := TokenKind.eq_of_isKeyword hnot
    exact (hnegated.bind fun u ↦ meets_pure _) _
      (asked_tail hts.suffix (by simp [hfront]) (.inr ⟨"not", by simp, by rw [hfront]⟩))
  · rw [if_neg hnot]
    exact g.meets_comparison hkeeps hgroup ts hts

theorem meets_expressionOver {term : Reader Tree} (hadvances : term.Advances)
    (hterm : term.Meets (Asked tokens) (Settled tokens) (RefusedSum tokens)) :
    (expressionOver term).Meets (Asked tokens) (Settled tokens) (RefusedSum tokens) := by
  have hconjunction := (meets_row .conjunction hadvances.keeps hterm fun _ _ h hj ↦
    asked_tail_of_joint h.1 hj).imp (fun _ ↦ id) fun _ h ↦ h.1
  exact (meets_row .disjunction (advances_row .conjunction hadvances).keeps hconjunction
    fun _ _ h hj ↦ asked_tail_of_joint h.1 hj).imp (fun _ ↦ id) fun _ h ↦ h.1

theorem meets_term (depth : Nat) :
    (g.term depth).Meets (Asked tokens) (Settled tokens) (RefusedSum tokens) := by
  induction depth with
  | zero =>
    exact g.meets_termOver g.meets_tooDeep g.advances_tooDeep.keeps g.meets_tooDeep
  | succ depth ih =>
    exact g.meets_termOver ih (advances_expressionOver (g.advances_term depth)).keeps
      (meets_expressionOver (g.advances_term depth) ih)

theorem meets_expression (depth : Nat) :
    (g.expression depth).Meets (Asked tokens) (Settled tokens) (RefusedSum tokens) := by
  cases depth with
  | zero => exact g.meets_tooDeep
  | succ depth => exact meets_expressionOver (g.advances_term depth) (g.meets_term depth)

end Grammar

/-- **A plus or a minus is refused only where a value is asked for.** -/
theorem refusedSum_evaluateTokens {tokens : List Token} {bindings : Table Value}
    {functions : Table Callable} {options : Options} {e : EvalError}
    (h : (evaluateTokens tokens bindings functions options).result = .error e) :
    RefusedSum (beforeEnd tokens) e := by
  rintro kind n rfl hsum
  have hagrees := agrees_evaluateTokens tokens bindings functions options
  obtain ⟨f, hread, herror, -⟩ := hagrees.eq_error h rfl
  let g : Grammar := ⟨options.strict, options.maxDepth, endOffset tokens⟩
  have hexpression : (g.expression options.maxDepth).Meets (Asked (beforeEnd tokens))
      (· <:+ beforeEnd tokens) (RefusedSum (beforeEnd tokens)) :=
    (g.meets_expression options.maxDepth).imp (fun _ ↦ id) fun _ h ↦ h.1
  have hwhole := hexpression.bind fun t ↦ g.meets_ending.closed [.after t] t
  exact hwhole.of_error ⟨[], rfl, .inl (.inl .start)⟩ hread kind n herror hsum

/-! ## Where a minus is no sign -/

/-- What begins with a digit is a numeral. -/
theorem lexeme_of_isDigit {d : Char} {ds : List Char} {form : PieceForm} (hd : d.isDigit)
    (h : formOfText? (d :: ds) = some form) : ∃ x, Lexeme (d :: ds) (some (.number x)) := by
  have hnumber : isNumber d := by simp [isNumber, hd]
  have hblank : ¬isBlank d := fun hblank ↦ not_isNumber_of_isBlank hblank hnumber
  rw [formOfText?, formOf_of_isNumber hblank hnumber] at h
  have hall : ∀ c ∈ ds, isNumber c := by
    clear hd hnumber hblank
    induction ds with
    | nil => simp
    | cons c cs ih =>
      rw [grownForms?_cons, grownForm?] at h
      split at h
      · next hc => exact List.forall_mem_cons.mpr ⟨hc, ih h⟩
      · exact absurd h (by simp)
  exact ⟨_, .number (by simp) (List.forall_mem_cons.mpr ⟨hnumber, hall⟩)⟩

/-- A minus that is an operator is no sign. -/
theorem Gives.not_signed {previous : Option TokenKind} {offset : Nat} {sign digits : List Char}
    {pieces : List (List Char)} {op : Operator} {tokens : List Token} {strays : List Stray}
    (h : Gives previous offset (sign :: digits :: pieces) (⟨.operator op, offset⟩ :: tokens)
      strays) : ∀ x, ¬Signed previous sign digits x := by
  intro x hsigned
  cases h with
  | blank hblank => exact absurd (hblank.kind_unique hsigned.lexeme) (by simp)
  | stray hstray => exact hstray _ hsigned.lexeme
  | single _ halone => exact halone digits x rfl hsigned

/-- There is a digit at a place of a source. -/
def DigitAt (source : String) (n : Nat) : Prop :=
  ∃ front d back, source.toList = front ++ d :: back ∧ bytes front = n ∧ d.isDigit

/-- **A minus in front of a digit is an operator only where a value need not follow.** -/
theorem not_beforeValue_of_minus {source : String} {before after : List Token} {n : Nat}
    (htokens : tokenize source = before ++ ⟨.operator (.arithmetic .subtract), n⟩ :: after)
    (hdigit : DigitAt source (n + 1)) : ¬BeforeValue (Gives.lastKind none before) := by
  intro hvalue
  obtain ⟨front, d, back, hsource, hn, hd⟩ := hdigit
  obtain ⟨front₀, pieces, back₀, htrimmed, hcut, hgives⟩ := exists_pieces source
  obtain ⟨ps, piece, later, rfl, hoffset, ⟨ss, hhere⟩, -⟩ := hgives.at_token (by simp) htokens
  obtain ⟨rfl, -⟩ := hhere.head_minus
  have hplace : front ++ d :: back
      = (front₀ ++ ps.flatten ++ ['-']) ++ (later.flatten ++ back₀) := by
    rw [← hsource, htrimmed.whole]
    simp
  have hbytes : bytes front = bytes (front₀ ++ ps.flatten ++ ['-']) := by
    rw [hn, bytes_append, bytes_append, ← hoffset]
    rfl
  obtain ⟨-, hbehind⟩ := append_inj_of_bytes hplace hbytes
  have hnotBlank := not_isBlank_of_isDigit hd
  cases later with
  | nil =>
    obtain rfl : d :: back = back₀ := hbehind
    exact hnotBlank (htrimmed.back_blank d List.mem_cons_self)
  | cons digits later =>
    obtain ⟨c, cs, rfl⟩ := List.exists_cons_of_ne_nil (hcut.ne_nil digits (by simp))
    obtain ⟨rfl, -⟩ := List.cons.inj hbehind
    obtain ⟨form, hform⟩ := hcut.formOfText? (d :: cs) (by simp)
    obtain ⟨x, hnumeral⟩ := lexeme_of_isDigit hd hform
    exact hhere.not_signed x ⟨rfl, hvalue, ⟨d, cs, rfl, hd⟩, hnumeral⟩

/-! ## Where the tokens and the evaluator disagree -/

/-- A minus of a source is an operator behind a word that joins or negates. -/
def MinusBehindWord (source : String) (n : Nat) : Prop :=
  ∃ before word m after, tokenize source
    = before ++ ⟨.identifier word, m⟩ :: ⟨.operator (.arithmetic .subtract), n⟩ :: after ∧
      word ∈ ["and", "or", "not"]

theorem minusBehindWord_of_refused {source : String} {bindings : Table Value}
    {functions : Table Callable} {options : Options} {n : Nat}
    (h : (evaluateTokens (tokenize source) bindings functions options).result
      = .error (.unexpectedToken (.operator (.arithmetic .subtract)) n))
    (hdigit : DigitAt source (n + 1)) : MinusBehindWord source n := by
  obtain ⟨inner, k, htokens, hinner⟩ := (gives_tokenize source).marked
  have hrefused := refusedSum_evaluateTokens h
  rw [htokens, hinner.beforeEnd_append] at hrefused
  obtain ⟨before, after, rfl, hasks⟩ := hrefused _ n rfl (by decide)
  rw [List.append_assoc, List.cons_append] at htokens
  rcases hasks with hvalue | ⟨word, hword, hlast⟩
  · exact absurd hvalue (not_beforeValue_of_minus htokens hdigit)
  · rcases List.eq_nil_or_concat before with rfl | ⟨us, t, hconcat⟩
    · exact absurd hlast (by simp [Gives.lastKind])
    · rw [List.concat_eq_append] at hconcat
      subst hconcat
      rw [Gives.lastKind_concat] at hlast
      obtain ⟨kind, m⟩ := t
      obtain rfl := Option.some.inj hlast
      exact ⟨us, word, m, after ++ [⟨.endOfInput, k⟩], by simpa using htokens, hword⟩

/-- **A minus in front of a digit is refused only behind `and`, `or` and `not`**, whatever the
engine or the options are. Everywhere else where a value has to begin it is the sign of a
literal. -/
theorem evaluate_sign_refused {source : String} {n : Nat} (hdigit : DigitAt source (n + 1)) :
    (∀ (e : Engine) (given : Table Value) (err : FormulaError),
      (e.evaluate source given).result = .error err →
      err.cause = .unexpectedToken (.operator (.arithmetic .subtract)) n →
      MinusBehindWord source n) ∧
    ∀ (options : Options) (given : Table Value) (err : FormulaError),
      (((compile source).withOptions options).evaluate given).result = .error err →
      err.cause = .unexpectedToken (.operator (.arithmetic .subtract)) n →
      MinusBehindWord source n := by
  have hsource : source ≠ "" := by
    rintro rfl
    obtain ⟨front, d, back, hnil, -⟩ := hdigit
    exact absurd hnil (by simp)
  constructor
  · intro e given err herr hcause
    have hresult := (e.reports_evaluate hsource given).result_eq_error herr
    exact minusBehindWord_of_refused (hcause ▸ hresult) hdigit
  · intro options given err herr hcause
    have hresult := (Compiled.reports_evaluate hsource options given).result_eq_error herr
    exact minusBehindWord_of_refused (hcause ▸ hresult) hdigit

/-- The minus of `not -1` stands behind such a word. -/
theorem evaluate_sign_refused_not :
    DigitAt "not -1" 5 ∧
      (Engine.empty.evaluate "not -1" ∅).result
        = .error ⟨"not -1", .unexpectedToken (.operator (.arithmetic .subtract)) 4⟩ ∧
      MinusBehindWord "not -1" 4 := by
  have hdigit : DigitAt "not -1" (4 + 1) := ⟨['n', 'o', 't', ' ', '-'], '1', [], rfl, rfl, rfl⟩
  have hresult : (Engine.empty.evaluate "not -1" ∅).result
      = .error ⟨"not -1", .unexpectedToken (.operator (.arithmetic .subtract)) 4⟩ := by rfl
  exact ⟨hdigit, hresult, (evaluate_sign_refused hdigit).1 _ _ _ hresult rfl⟩

/-- Behind each of the words a number with a sign is refused, as the operand of the word. -/
theorem evaluate_sign_behind_words :
    (Engine.empty.evaluate "not -1" ∅).result
        = .error ⟨"not -1", .unexpectedToken (.operator (.arithmetic .subtract)) 4⟩ ∧
      (Engine.empty.evaluate "true and -1" ∅).result
        = .error ⟨"true and -1", .unexpectedToken (.operator (.arithmetic .subtract)) 9⟩ ∧
      (Engine.empty.evaluate "false or -1" ∅).result
        = .error ⟨"false or -1", .unexpectedToken (.operator (.arithmetic .subtract)) 9⟩ := by
  refine ⟨?_, ?_, ?_⟩ <;> rfl

end Formula
