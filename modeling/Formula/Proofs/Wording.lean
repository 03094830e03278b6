import Formula.Proofs.Quoting
import Formula.Proofs.Rereading
import Formula.Proofs.TwoPhases

/-!
# What is said of tokens and errors

An error keeps the token that it is about, and only its message puts the token into words. Nothing
is lost by that: different tokens are described differently (`TokenKind.display_injective`), and
different errors have different messages (`EvalError.message_injective`).

Descriptions of different kinds begin with different words, none of which begins another one. What
is behind the word has to tell the payload. Names and texts may hold any characters, apostrophes and
quotes included: a name is what is left when both ends are taken off, and a text is quoted
(`Text.quoted_injective`). The text of a number tells the double with the sign of zero
(`Number.text_injective`), and what is not a number is one double here (`Binary64.eq_nan`).

The token that an error describes is the one in front of what the evaluation left unread
(`front_unread_of_error`). So two evaluations that are refused with one description are refused at
the same token, whatever else is different about them (`TokenKind.display_unambiguous`).
-/

namespace Formula

open Reader

/-! ## Payloads -/

namespace Number

variable {x y : Float}

/-- The doubles that are not finite. -/
def unbounded : List Float :=
  [Binary64.nan, Binary64.ofMagnitude false Binary64.infinity,
    Binary64.ofMagnitude true Binary64.infinity]

theorem mem_unbounded (h : ¬x.isFinite) : x ∈ unbounded := by
  rcases Binary64.eq_of_not_isFinite h with rfl | ⟨negative, rfl⟩
  · exact List.mem_cons_self
  · cases negative <;> simp [unbounded]

/-- The words for the doubles that are not finite are no numerals. -/
theorem isSome_parse?_text_iff : (parse? (text x)).isSome ↔ x.isFinite := by
  by_cases hfinite : x.isFinite
  · rw [parse?_text hfinite]
    exact iff_of_true rfl hfinite
  · have hnone : parse? (text x) = none := (Value.rereads_numberText hfinite).2.2
    rw [hnone]
    exact iff_of_false Bool.false_ne_true hfinite

/-- **The text of a number tells the double.** -/
theorem text_injective : Function.Injective text := by
  intro x y h
  have hsame : x.isFinite ↔ y.isFinite := by
    rw [← isSome_parse?_text_iff, h, isSome_parse?_text_iff]
  by_cases hx : x.isFinite
  · have hread := parse?_text hx
    rw [h, parse?_text (hsame.mp hx)] at hread
    exact (Option.some.inj hread).symm
  · have hwords : ∀ x ∈ unbounded, ∀ y ∈ unbounded, text x = text y → x = y := by decide +kernel
    exact hwords x (mem_unbounded hx) y (mem_unbounded (mt hsame.mpr hx)) h

end Number

theorem Value.boolText_injective : Function.Injective boolText := fun b c h ↦
  Value.boolean.inj ((ofText_boolText b).symm.trans (h ▸ ofText_boolText c))

theorem Operator.symbol_injective : Function.Injective symbol := by
  intro op op' h
  have hall : ∀ a ∈ all, ∀ b ∈ all, a.symbol = b.symbol → a = b := by decide
  exact hall op op.mem_all op' op'.mem_all h

theorem toString_injective : Function.Injective (toString : Nat → String) := by
  intro m n h
  rw [Nat.toString_eq_ofList_toDigits, Nat.toString_eq_ofList_toDigits] at h
  exact Text.toDigits_injective (by decide) (by decide) (String.ofList_injective h)

/-- A colon is no digit, so it ends the number in front of it. -/
theorem eq_of_toString_append {m n : Nat} {s t : String}
    (h : toString m ++ (": " ++ s) = toString n ++ (": " ++ t)) : m = n ∧ s = t := by
  have hchars (n : Nat) (s : String) :
      (toString n ++ (": " ++ s)).toList = Nat.toDigits 10 n ++ [':'] ++ ' ' :: s.toList := by
    rw [Nat.toString_eq_ofList_toDigits, String.toList_append, String.toList_ofList]
    simp
  have hsame : Nat.toDigits 10 m ++ [':'] ++ ' ' :: s.toList
      = Nat.toDigits 10 n ++ [':'] ++ ' ' :: t.toList := by
    rw [← hchars, ← hchars, h]
  have hcolon (d : Nat) : d.digitChar ≠ ':' := Nat.digitChar_ne ':' (by decide)
  have hcode := Text.isPrefixCode_toDigits (by decide : 1 < 10) (by decide) hcolon
  obtain ⟨hnumber, hbehind⟩ := hcode.append_inj hsame
  exact ⟨hnumber, String.toList_inj.mp (List.cons.inj hbehind).2⟩

/-! ## Headings -/

/-- Things are written with headings, words of a list in which none begins another one. -/
structure HeadedBy {α : Type} (write heading : α → String) (words : List String) : Prop where
  headed : ∀ a, ∃ s, write a = heading a ++ s
  mem : ∀ a, heading a ∈ words
  apart : ∀ u ∈ words, ∀ v ∈ words, u.toList <+: v.toList → u = v

theorem HeadedBy.heading_eq {α : Type} {write heading : α → String} {words : List String}
    (h : HeadedBy write heading words) {a b : α} (heq : write a = write b) :
    heading a = heading b := by
  obtain ⟨s, hs⟩ := h.headed a
  obtain ⟨t, ht⟩ := h.headed b
  have hchars : (heading a).toList ++ s.toList = (heading b).toList ++ t.toList := by
    rw [← String.toList_append, ← hs, heq, ht, String.toList_append]
  have hcode := Text.isPrefixCode_words h.apart
  exact Subtype.mk.inj (@hcode ⟨_, h.mem a⟩ ⟨_, h.mem b⟩ _ _ hchars)

/-- What stands between two words is told by the whole. -/
theorem eq_of_between {front back s t : String} (h : front ++ s ++ back = front ++ t ++ back) :
    s = t :=
  (String.append_right_inj front).mp ((String.append_left_inj back).mp h)

/-! ## Descriptions of tokens -/

namespace TokenKind

/-- What the description of a token begins with. -/
def heading : TokenKind → String
  | number _ => "number "
  | text _ => "string "
  | boolean _ => "boolean "
  | identifier _ => "identifier '"
  | operator _ => "operator '"
  | openParen => "'('"
  | closeParen => "')'"
  | comma => "','"
  | endOfInput => "end of input"

theorem headedBy_display : HeadedBy display heading
    ["number ", "string ", "boolean ", "identifier '", "operator '", "'('", "')'", "','",
      "end of input"] where
  headed
    | number _ | text _ | boolean _ => ⟨_, rfl⟩
    | identifier _ | operator _ => ⟨_, String.append_assoc⟩
    | openParen | closeParen | comma | endOfInput => ⟨"", String.append_empty.symm⟩
  mem a := by cases a <;> simp [heading]
  apart := by decide

/-- **Different tokens are described differently.** -/
theorem display_injective : Function.Injective display := by
  intro a b h
  have hheading := headedBy_display.heading_eq h
  cases a with
  | number x =>
    cases b with
    | number y => exact congrArg number (Number.text_injective ((String.append_right_inj _).mp h))
    | _ => simp [heading] at hheading
  | text s =>
    cases b with
    | text t => exact congrArg text (Text.quoted_injective ((String.append_right_inj _).mp h))
    | _ => simp [heading] at hheading
  | boolean v =>
    cases b with
    | boolean w =>
      exact congrArg boolean (Value.boolText_injective ((String.append_right_inj _).mp h))
    | _ => simp [heading] at hheading
  | identifier name =>
    cases b with
    | identifier name' => exact congrArg identifier (eq_of_between h)
    | _ => simp [heading] at hheading
  | operator op =>
    cases b with
    | operator op' => exact congrArg operator (Operator.symbol_injective (eq_of_between h))
    | _ => simp [heading] at hheading
  | openParen | closeParen | comma | endOfInput => cases b <;> simp [heading] at hheading ⊢

end TokenKind

/-! ## Messages of errors -/

namespace EvalError

/-- What the reason of an error begins with. -/
def heading : EvalError → String
  | undefinedVariable _ _ => "Undefined variable '"
  | undefinedFunction _ _ => "Undefined function '"
  | unexpectedToken _ _ => "Unexpected token: "
  | depthExceeded _ _ => "Expression nesting exceeds the limit of "
  | unclosedParen _ => "Expected closing parenthesis ')' but none found"
  | trailingTokens _ _ => "Extra tokens after expression: "

theorem headedBy_reason : HeadedBy reason heading
    ["Undefined variable '", "Undefined function '", "Unexpected token: ",
      "Expression nesting exceeds the limit of ",
      "Expected closing parenthesis ')' but none found", "Extra tokens after expression: "] where
  headed
    | undefinedVariable _ _ | undefinedFunction _ _ => ⟨_, String.append_assoc⟩
    | unexpectedToken _ _ | depthExceeded _ _ | trailingTokens _ _ => ⟨_, rfl⟩
    | unclosedParen _ => ⟨"", String.append_empty.symm⟩
  mem e := by cases e <;> simp [heading]
  apart := by decide

/-- The reason tells all of an error but its place. -/
theorem eq_of_reason {e e' : EvalError} (h : e.reason = e'.reason)
    (hoffset : e.offset = e'.offset) : e = e' := by
  have hheading := headedBy_reason.heading_eq h
  cases e with
  | undefinedVariable name n =>
    cases e' with
    | undefinedVariable name' n' => exact congrArg₂ undefinedVariable (eq_of_between h) hoffset
    | _ => simp [heading] at hheading
  | undefinedFunction name n =>
    cases e' with
    | undefinedFunction name' n' => exact congrArg₂ undefinedFunction (eq_of_between h) hoffset
    | _ => simp [heading] at hheading
  | unexpectedToken token n =>
    cases e' with
    | unexpectedToken token' n' =>
      have htoken := TokenKind.display_injective ((String.append_right_inj _).mp h)
      exact congrArg₂ unexpectedToken htoken hoffset
    | _ => simp [heading] at hheading
  | depthExceeded limit n =>
    cases e' with
    | depthExceeded limit' n' =>
      have hlimit := toString_injective ((String.append_right_inj _).mp h)
      exact congrArg₂ depthExceeded hlimit hoffset
    | _ => simp [heading] at hheading
  | unclosedParen n =>
    cases e' with
    | unclosedParen n' => exact congrArg unclosedParen hoffset
    | _ => simp [heading] at hheading
  | trailingTokens token n =>
    cases e' with
    | trailingTokens token' n' =>
      have htoken := TokenKind.display_injective ((String.append_right_inj _).mp h)
      exact congrArg₂ trailingTokens htoken hoffset
    | _ => simp [heading] at hheading

/-- **Different errors have different messages.** -/
theorem message_injective : Function.Injective message := by
  intro e e' h
  have hplaced : "Error at offset " ++ toString e.offset ++ ": " ++ e.reason
      = "Error at offset " ++ toString e'.offset ++ ": " ++ e'.reason :=
    (String.append_left_inj ".").mp h
  rw [String.append_assoc, String.append_assoc, String.append_assoc, String.append_assoc,
    String.append_right_inj] at hplaced
  obtain ⟨hoffset, hreason⟩ := eq_of_toString_append hplaced
  exact eq_of_reason hreason hoffset

/-- The token that an error is about, if it is about one. -/
def token? : EvalError → Option TokenKind
  | unexpectedToken token _ | trailingTokens token _ => some token
  | _ => none

/-- How an error describes the token that it is about. -/
def description? (e : EvalError) : Option String := e.token?.map TokenKind.display

theorem isStructural_of_token? {e : EvalError} {k : TokenKind} (h : e.token? = some k) :
    e.isStructural := by
  cases e with
  | undefinedVariable | undefinedFunction => exact absurd h (by simp [token?])
  | unexpectedToken | depthExceeded | unclosedParen | trailingTokens => rfl

end EvalError

/-! ## Evaluations -/

theorem Grammar.Blames.eq_front {g : Grammar} {e : EvalError} {ts : List Token} {k : TokenKind}
    (h : g.Blames e ts) (hk : e.token? = some k) : k = front ts := by
  cases h with
  | unexpected | trailing => exact (Option.some.inj hk).symm
  | tooDeep | unclosed => exact absurd hk (by simp [EvalError.token?])

/-- **The token that an error is about is the one in front of what is unread.** -/
theorem front_unread_of_error {tokens : List Token} {bindings : Table Value}
    {functions : Table Callable} {options : Options} {e : EvalError} {k : TokenKind}
    (h : (evaluateTokens tokens bindings functions options).result = .error e)
    (hk : e.token? = some k) :
    (evaluateTokens tokens bindings functions options).unread <:+ beforeEnd tokens ∧
      front (evaluateTokens tokens bindings functions options).unread = k := by
  have hagrees := agrees_evaluateTokens tokens bindings functions options
  obtain ⟨f, hread, rfl, hunread⟩ := hagrees.eq_error h (EvalError.isStructural_of_token? hk)
  obtain ⟨hsuffix, hblames⟩ := Tree.blames_read hread
  rw [hunread]
  exact ⟨hsuffix, (hblames.eq_front hk).symm⟩

/-- **Descriptions are unambiguous.** Tokens are described alike only if they are the same, numbers
that are none being one token and zeros of different signs two. Errors have one message only if they
are the same. And evaluations that were refused with one description, each for an unexpected token
or for a leftover one, stopped in front of the same token, the one described. -/
theorem TokenKind.display_unambiguous :
    (∀ a b : TokenKind, a.display = b.display ↔ a = b) ∧
    (∀ e e' : EvalError, e.message = e'.message ↔ e = e') ∧
    ∀ (tokens tokens' : List Token) (bindings bindings' : Table Value)
      (functions functions' : Table Callable) (options options' : Options) (e e' : EvalError)
      (description : String),
      let report := evaluateTokens tokens bindings functions options
      let report' := evaluateTokens tokens' bindings' functions' options'
      report.result = .error e → report'.result = .error e' →
        e.description? = some description → e'.description? = some description →
          report.unread <:+ beforeEnd tokens ∧ report'.unread <:+ beforeEnd tokens' ∧
            front report.unread = front report'.unread ∧
            description = (front report.unread).display := by
  refine ⟨fun a b ↦ display_injective.eq_iff, fun e e' ↦ EvalError.message_injective.eq_iff, ?_⟩
  intro tokens tokens' bindings bindings' functions functions' options options' e e' description
    report report' h h' hdescription hdescription'
  obtain ⟨k, hk, hdisplay⟩ := Option.map_eq_some_iff.mp hdescription
  obtain ⟨k', hk', hdisplay'⟩ := Option.map_eq_some_iff.mp hdescription'
  have hsame : k = k' := display_injective (hdisplay.trans hdisplay'.symm)
  obtain ⟨hunread, hfront⟩ := front_unread_of_error h hk
  obtain ⟨hunread', hfront'⟩ := front_unread_of_error h' hk'
  refine ⟨hunread, hunread', hfront.trans (hsame.trans hfront'.symm), ?_⟩
  calc description = k.display := hdisplay.symm
    _ = (front report.unread).display := congrArg display hfront.symm

/-- A closing bracket in the place of a value, and one behind a value. -/
theorem TokenKind.display_unambiguous_bracket :
    let report := evaluateTokens [⟨.closeParen, 0⟩] ∅ ∅ {}
    let report' := evaluateTokens [⟨.number 1, 0⟩, ⟨.closeParen, 2⟩] ∅ ∅ { strict := true }
    let e : EvalError := .unexpectedToken .closeParen 0
    let e' : EvalError := .trailingTokens .closeParen 2
    report.result = .error e ∧ report'.result = .error e' ∧
      e.description? = some "')'" ∧ e'.description? = some "')'" ∧
      report.unread <:+ [⟨.closeParen, 0⟩] ∧
      report'.unread <:+ [⟨.number 1, 0⟩, ⟨.closeParen, 2⟩] ∧
      front report.unread = front report'.unread ∧ "')'" = (front report.unread).display := by
  intro report report' e e'
  have hresult : report.result = .error e := by rfl
  have hresult' : report'.result = .error e' := by rfl
  have hdescription : e.description? = some "')'" := rfl
  have hdescription' : e'.description? = some "')'" := rfl
  exact ⟨hresult, hresult', hdescription, hdescription',
    display_unambiguous.2.2 _ _ _ _ _ _ _ _ e e' _ hresult hresult' hdescription hdescription'⟩

end Formula
