import Formula.Proofs.Respacing
import Mathlib.Data.List.Basic

/-!
# Texts put together

Two texts that are put together keep their pieces if the last piece of the one leaves the first
character of the other alone (`Cut.append`), and a text comes apart between any two of its pieces
(`Cut.front`, `Cut.behind`). The tokens go along. Only one thing can happen across such a place: a
minus in front of it takes a numeral behind it (`Gives.append`, `Gives.parts`).

Few pieces can take a character that neither continues a word nor is `=`: blanks take further
blanks, and a text whose quotes are open takes anything (`Grows.form`). So stretches of blanks
keep apart what is around them, and they give no token, whether they are blanks between tokens or
blanks that only trimming knows (`Gives.of_blank`).
-/

namespace Formula

open Piece

/-! ## Pieces that can grow -/

/-- A piece can take one more character. -/
def Grows (piece : List Char) (c : Char) : Prop := (formOfText? (piece ++ [c])).isSome

/-- The last piece leaves the first character of what is behind it to others. -/
def Ended (pieces : List (List Char)) (rest : List Char) : Prop :=
  ∀ piece ∈ pieces.getLast?, ∀ c ∈ rest.head?, ¬Grows piece c

section Grows

variable {piece rest : List Char} {form : PieceForm} {c : Char}

theorem formOfText?_concat (h : formOfText? piece = some form) (c : Char) :
    formOfText? (piece ++ [c]) = grownForm? c form := by
  cases piece with
  | nil => exact absurd h (by simp [formOfText?])
  | cons d ds =>
    rw [formOfText?] at h
    rw [List.cons_append, formOfText?, grownForms?_append, h, Option.bind_some, grownForms?_cons]
    cases grownForm? c form <;> rfl

theorem grows_iff (h : formOfText? piece = some form) :
    Grows piece c ↔ ∃ form', grownForm? c form = some form' := by
  rw [Grows, formOfText?_concat h, Option.isSome_iff_exists]

theorem first_of_not_grows (h : formOfText? piece = some form)
    (hrest : ∀ c ∈ rest.head?, ¬Grows piece c) : First (piece ++ rest) piece := by
  refine first_of_grownForm?_eq_none h fun d ds hd ↦ Option.eq_none_iff_forall_ne_some.mpr ?_
  exact fun form' hgrown ↦ hrest d (by rw [hd]; rfl) ((grows_iff h).mpr ⟨form', hgrown⟩)

theorem First.not_grows (h : First (piece ++ rest) piece) : ∀ c ∈ rest.head?, ¬Grows piece c := by
  obtain ⟨form, hform, hrest⟩ := h.grownForm?_eq_none
  intro c hc hgrows
  obtain ⟨ds, hds⟩ := List.head?_eq_some_iff.mp hc
  obtain ⟨form', hform'⟩ := (grows_iff hform).mp hgrows
  exact absurd ((hrest c ds hds).symm.trans hform') (by simp)

theorem First.formOfText? (h : First (piece ++ rest) piece) :
    ∃ form, formOfText? piece = some form :=
  h.grownForm?_eq_none.imp fun _ ↦ And.left

/-- A first piece is first in front of anything that it does not take. -/
theorem First.of_not_grows {rest' : List Char} (h : First (piece ++ rest) piece)
    (hrest' : ∀ c ∈ rest'.head?, ¬Grows piece c) : First (piece ++ rest') piece := by
  obtain ⟨form, hform⟩ := h.formOfText?
  exact first_of_not_grows hform hrest'

end Grows

/-- Whether the quotes of a text are open. -/
def PieceForm.isOpen : PieceForm → Bool
  | .quoted _ _ .inside | .quoted _ _ .escaped => true
  | _ => false

/-- A character that continues no word and is not `=` continues blanks only, if it is one, and
whatever is in open quotes. -/
theorem Grows.form {piece : List Char} {form : PieceForm} {c : Char} (h : Grows piece c)
    (hform : formOfText? piece = some form) (hword : ¬isWord c) (hequals : c ≠ '=') :
    form = .blank ∧ isBlank c ∨ form.isOpen := by
  obtain ⟨form', hgrown⟩ := (grows_iff hform).mp h
  have hnumber : ¬isNumber c := fun hnumber ↦ hword (by simp [isWord, hnumber])
  cases form with
  | blank =>
    refine .inl ⟨rfl, Classical.byContradiction fun hblank ↦ ?_⟩
    exact absurd hgrown (by simp [grownForm?, hblank])
  | quoted quote content stage =>
    cases stage with
    | inside | escaped => exact .inr rfl
    | closed => exact absurd hgrown (by simp [grownForm?])
  | number | word | operator | openParen | closeParen | comma | stray =>
    exact absurd hgrown (by simp [grownForm?, hword, hnumber, hequals])

/-- Open quotes take anything. -/
theorem grows_of_isOpen {piece : List Char} {form : PieceForm}
    (hform : formOfText? piece = some form) (hopen : form.isOpen) (c : Char) : Grows piece c := by
  rw [grows_iff hform]
  rcases form with _ | _ | _ | ⟨quote, content, _ | _ | _⟩ | _ | _ | _ | _ | _ <;>
    simp only [PieceForm.isOpen, Bool.false_eq_true] at hopen
  · simp only [grownForm?]
    split
    · exact ⟨_, rfl⟩
    · split <;> exact ⟨_, rfl⟩
  · exact ⟨_, rfl⟩

/-! ## Blanks

What trimming takes for a blank is one between tokens or a character of no lexeme. -/

section Blanks

variable {c : Char} {cs piece rest : List Char} {form : PieceForm}

theorem toNat_of_isAlpha (h : c.isAlpha) : 65 ≤ c.toNat ∧ c.toNat ≤ 122 := by
  have hbounds : 'A'.val ≤ c.val ∧ c.val ≤ 'Z'.val ∨ 'a'.val ≤ c.val ∧ c.val ≤ 'z'.val := by
    rcases Bool.or_eq_true_iff.mp h with hupper | hlower
    · exact .inl (of_decide_eq_true hupper)
    · obtain ⟨hlow, hhigh⟩ := Bool.and_eq_true_iff.mp hlower
      exact .inr ⟨of_decide_eq_true hlow, of_decide_eq_true hhigh⟩
  simp only [UInt32.le_iff_toNat_le, Char.reduceVal, UInt32.reduceToNat] at hbounds
  change 65 ≤ c.val.toNat ∧ c.val.toNat ≤ 122
  omega

theorem toNat_of_isWord (h : isWord c) : 46 ≤ c.toNat ∧ c.toNat ≤ 122 := by
  simp only [isWord, beginsWord, isNumber, Bool.or_eq_true, beq_iff_eq] at h
  rcases h with (halpha | rfl) | hdigit | rfl
  · have hbounds := toNat_of_isAlpha halpha
    omega
  · decide
  · have hbounds := Char.isDigit_iff_toNat.mp hdigit
    simp only [Char.reduceToNat] at hbounds
    omega
  · decide

/-- The blanks are before or behind everything that a word is made of. -/
theorem not_isWord_of_isBlank (h : Text.isBlank c) : ¬isWord c := by
  intro hword
  have hbounds := toNat_of_isWord hword
  simp only [Text.isBlank, Bool.or_eq_true, Bool.and_eq_true, decide_eq_true_eq, beq_iff_eq] at h
  omega

theorem not_isBlank_of_isNumber (h : isNumber c) : ¬Text.isBlank c := fun hblank ↦
  not_isWord_of_isBlank hblank (by simp [isWord, h])

theorem not_isBlank_of_isDigit (h : c.isDigit) : ¬Text.isBlank c :=
  not_isBlank_of_isNumber (by simp [isNumber, h])

theorem isTextBlank_of_isBlank (h : isBlank c) : Text.isBlank c := by
  simp only [isBlank, Bool.or_eq_true, beq_iff_eq] at h
  rcases h with (((rfl | rfl) | rfl) | rfl) | rfl <;> rfl

theorem form_of_isBlank (h : form.Shape (c :: cs)) (hc : Text.isBlank c) :
    form = .blank ∨ form = .stray := by
  have hword := not_isWord_of_isBlank hc
  simp only [isWord, Bool.or_eq_true, not_or] at hword
  cases form with
  | blank => exact .inl rfl
  | stray => exact .inr rfl
  | number => exact absurd (h.2 c List.mem_cons_self) hword.2
  | word =>
    obtain ⟨d, ds, hd, hbegins, -⟩ := h
    obtain ⟨rfl, -⟩ := List.cons.inj hd
    exact absurd hbegins hword.1
  | quoted quote content stage =>
    obtain ⟨hquote, written, -, hd⟩ := h
    obtain ⟨rfl, -⟩ := List.cons.inj hd
    simp only [isQuote, Bool.or_eq_true, beq_iff_eq] at hquote
    rcases hquote with rfl | rfl <;> exact absurd hc (by decide)
  | operator op =>
    have hd : c ∈ op.symbol.toList.head? := by
      rw [← show c :: cs = op.symbol.toList from h]
      rfl
    rcases op with (_ | _ | _ | _ | _) | (_ | _ | _ | _ | _ | _) | _ | _ <;>
    · obtain rfl := Option.some.inj hd
      exact absurd hc (by decide)
  | openParen | closeParen | comma =>
    obtain ⟨rfl, -⟩ := List.cons.inj (show c :: cs = [_] from h)
    exact absurd hc (by decide)

/-- A first piece that begins with a blank is one of blanks or belongs to no lexeme. -/
theorem First.of_isBlank (h : First (piece ++ rest) piece) (hblank : ∀ c ∈ piece, Text.isBlank c) :
    Lexeme piece none ∨ ∃ c, piece = [c] ∧ ∀ kind, ¬Lexeme [c] kind := by
  obtain ⟨form, hform⟩ := h.formOfText?
  have hshape := formOfText?_eq_some_iff.mp hform
  obtain ⟨c, cs, rfl⟩ := List.exists_cons_of_ne_nil h.ne_nil
  rcases form_of_isBlank hshape (hblank c List.mem_cons_self) with rfl | rfl
  · exact .inl (lexeme_of_shape (by simp) hshape)
  · obtain ⟨d, hd, -⟩ := hshape
    refine .inr ⟨d, hd, fun kind hlexeme ↦ ?_⟩
    obtain ⟨form, hstray, hform', -⟩ := lexeme_iff.mp hlexeme
    exact hstray (Option.some.inj (hform'.symm.trans (hd ▸ hform)))

theorem apart_of_isBlank (h : Text.isBlank c) : ¬isWord c ∧ c ≠ '=' := by
  refine ⟨not_isWord_of_isBlank h, ?_⟩
  rintro rfl
  exact absurd h (by decide)

theorem not_isBlank_of_any (h : cs.any Text.isBlank = false) : ∀ c ∈ cs, ¬Text.isBlank c := by
  simpa using h

/-- Nothing comes off a text without blanks at its ends. -/
theorem Trimmed.of_ends (hbegins : ∀ c ∈ cs.head?, ¬Text.isBlank c)
    (hends : ∀ c ∈ cs.getLast?, ¬Text.isBlank c) : Trimmed cs [] cs [] :=
  ⟨by simp, by simp, by simp, by simpa using hbegins, hends⟩

theorem Trimmed.of_forall (h : ∀ c ∈ cs, ¬Text.isBlank c) : Trimmed cs [] cs [] :=
  .of_ends (fun c hc ↦ h c (List.mem_of_mem_head? hc)) fun c hc ↦ h c (List.mem_of_getLast? hc)

end Blanks

/-! ## Where pieces end -/

section Ended

variable {rest : List Char} {pieces : List (List Char)}

/-- Pieces end before what continues no word and is not `=`, if the last of them has no open quotes
and is no blanks that go on there. -/
theorem ended_of_closed (hpieces : ∀ piece ∈ pieces.getLast?, ∃ form,
      formOfText? piece = some form ∧ ¬form.isOpen ∧ (form = .blank → ∀ c ∈ rest.head?, ¬isBlank c))
    (hrest : ∀ c ∈ rest.head?, ¬isWord c ∧ c ≠ '=') : Ended pieces rest := by
  intro piece hpiece c hc hgrows
  obtain ⟨form, hform, hclosed, hblanks⟩ := hpieces piece hpiece
  obtain ⟨hword, hequals⟩ := hrest c hc
  rcases hgrows.form hform hword hequals with ⟨hblank, hc'⟩ | hopen
  · exact hblanks hblank c hc hc'
  · exact hclosed hopen

/-- Pieces end before blanks, if the last of them has no open quotes and is none of blanks. -/
theorem ended_of_isBlank (hpieces : ∀ piece ∈ pieces.getLast?, ∃ form,
      formOfText? piece = some form ∧ ¬form.isOpen ∧ form ≠ .blank)
    (hrest : ∀ c ∈ rest.head?, isBlank c) : Ended pieces rest := by
  refine ended_of_closed (fun piece hpiece ↦ ?_) fun c hc ↦
    apart_of_isBlank (isTextBlank_of_isBlank (hrest c hc))
  obtain ⟨form, hform, hclosed, hblank⟩ := hpieces piece hpiece
  exact ⟨form, hform, hclosed, fun h ↦ absurd h hblank⟩

end Ended

/-! ## Cutting -/

section Cut

variable {cs ds : List Char} {pieces later : List (List Char)}

theorem Cut.text_ne_nil (h : Cut cs pieces) (hne : pieces ≠ []) : cs ≠ [] := by
  cases h with
  | nil => exact absurd rfl hne
  | cons hfirst _ => exact List.append_ne_nil_of_left_ne_nil hfirst.ne_nil _

/-- **Texts that are put together keep their pieces**, if the last one in front ends there. -/
theorem Cut.append (h : Cut cs pieces) (h' : Cut ds later) (hend : Ended pieces ds) :
    Cut (cs ++ ds) (pieces ++ later) := by
  induction h with
  | nil => exact h'
  | @cons piece rest pieces hfirst hrest ih =>
    rw [List.append_assoc, List.cons_append]
    cases pieces with
    | nil =>
      obtain rfl : [] = rest := hrest.flatten_eq
      exact .cons (hfirst.of_not_grows (hend piece rfl)) h'
    | cons next pieces =>
      have hne : rest ≠ [] := hrest.text_ne_nil (List.cons_ne_nil next pieces)
      refine .cons (hfirst.next ?_) (ih hend)
      exact List.head?_append_of_ne_nil _ hne

theorem Cut.formOfText? (h : Cut cs pieces) :
    ∀ piece ∈ pieces, ∃ form, formOfText? piece = some form := by
  induction h with
  | nil => simp
  | cons hfirst _ ih => exact List.forall_mem_cons.mpr ⟨hfirst.formOfText?, ih⟩

/-- A lexeme is one piece. -/
theorem cut_lexeme {piece : List Char} {kind : Option TokenKind} (h : Lexeme piece kind) :
    Cut piece [piece] := by
  obtain ⟨form, -, hform, -⟩ := lexeme_iff.mp h
  have hfirst : First (piece ++ []) piece := first_of_not_grows hform (by simp)
  have hcut := Cut.cons hfirst .nil
  rwa [List.append_nil] at hcut

/-- In front of a place between pieces there are the pieces of what is in front. -/
theorem Cut.front (h : Cut cs (pieces ++ later)) :
    Cut pieces.flatten pieces ∧ Ended pieces later.flatten := by
  induction pieces generalizing cs with
  | nil => exact ⟨.nil, fun piece hpiece ↦ absurd hpiece (by simp)⟩
  | cons piece pieces ih =>
    cases h with
    | @cons _ rest _ hfirst hrest =>
      obtain ⟨hcut, hend⟩ := ih hrest
      have hflatten : pieces.flatten ++ later.flatten = rest := by
        rw [← hrest.flatten_eq]
        exact List.flatten_append.symm
      cases pieces with
      | nil =>
        obtain rfl : later.flatten = rest := hflatten
        refine ⟨.cons (hfirst.of_not_grows (by simp)) hcut, ?_⟩
        rintro _ ⟨⟩
        exact hfirst.not_grows
      | cons next pieces =>
        have hne := hcut.text_ne_nil (List.cons_ne_nil next pieces)
        refine ⟨.cons (hfirst.next ?_) hcut, hend⟩
        rw [← hflatten, List.head?_append_of_ne_nil _ hne]

end Cut

/-! ## Tokens -/

namespace Gives

variable {previous : Option TokenKind} {offset : Nat} {pieces behind : List (List Char)}
  {tokens ts ts' : List Token} {strays ss ss' : List Stray}

/-- Tokens that begin later, by as much as their pieces do. -/
theorem later (h : Gives previous offset pieces tokens strays) (k : Nat) :
    ∃ strays', Gives previous (offset + k) pieces (tokens.map (Token.moved (· + k))) strays' := by
  have hadd : ∀ n m : Nat, n + m + k = n + k + m := fun n m ↦ by omega
  induction h with
  | done => exact ⟨[], .done⟩
  | blank hpiece _ ih =>
    obtain ⟨strays', hlater⟩ := ih
    rw [hadd] at hlater
    exact ⟨strays', .blank hpiece hlater⟩
  | stray hstray _ ih =>
    obtain ⟨strays', hlater⟩ := ih
    rw [hadd] at hlater
    exact ⟨_, .stray hstray hlater⟩
  | signed hsigned _ ih =>
    obtain ⟨strays', hlater⟩ := ih
    rw [hadd, hadd] at hlater
    exact ⟨strays', .signed hsigned hlater⟩
  | single hpiece halone _ ih =>
    obtain ⟨strays', hlater⟩ := ih
    rw [hadd] at hlater
    exact ⟨strays', .single hpiece halone hlater⟩

/-- No minus in front of a place takes a numeral behind it. -/
def Unsigned (pieces behind : List (List Char)) : Prop :=
  ∀ sign ∈ pieces.getLast?, ∀ digits ∈ behind.head?, ∀ previous x, ¬Signed previous sign digits x

theorem unsigned_of_cons {piece : List Char} (h : Unsigned (piece :: pieces) behind) :
    Unsigned pieces behind := by
  cases pieces with
  | nil => exact fun sign hsign ↦ absurd hsign (by simp)
  | cons next pieces => exact h

/-- What is no numeral is taken by no minus. -/
theorem unsigned_of_lexeme {piece : List Char} {kind : Option TokenKind} (h : Lexeme piece kind)
    (hkind : ∀ x, kind ≠ some (.number x)) : Unsigned pieces (piece :: behind) := by
  rintro sign - _ ⟨⟩ previous x hsigned
  exact hkind x (h.kind_unique hsigned.numeral)

/-- What is no minus takes nothing. -/
theorem single_of_ne {piece : List Char} {kind : TokenKind} (h : Lexeme piece (some kind))
    (hkind : kind ≠ .operator (.arithmetic .subtract))
    (hlater : Gives (some kind) (offset + bytes piece) behind tokens strays) :
    Gives previous offset (piece :: behind) (⟨kind, offset⟩ :: tokens) strays :=
  .single h (fun _ _ _ hsigned ↦ hkind (Option.some.inj (h.kind_unique hsigned.lexeme))) hlater

/-- **The tokens of pieces that are put together**: those of the ones, then those of the others
behind the last of them. -/
theorem append {n : Nat} (h : Gives previous offset pieces (ts ++ [⟨.endOfInput, n⟩]) ss)
    (h' : Gives (lastKind previous ts) n behind ts' ss') (hsign : Unsigned pieces behind) :
    Gives previous offset (pieces ++ behind) (ts ++ ts') (ss ++ ss') := by
  -- a token other than the end marker is the first of `ts`
  have hcons : ∀ {t : Token} {us us' : List Token}, t.kind ≠ .endOfInput →
      us ++ [⟨TokenKind.endOfInput, n⟩] = t :: us' →
      ∃ us₁, us = t :: us₁ ∧ us₁ ++ [⟨TokenKind.endOfInput, n⟩] = us' := by
    rintro t (_ | ⟨u, us⟩) us' ht hus
    · obtain ⟨rfl, -⟩ := List.cons.inj hus
      exact absurd rfl ht
    · obtain ⟨rfl, hrest⟩ := List.cons.inj hus
      exact ⟨us, rfl, hrest⟩
  generalize htokens : ts ++ [⟨TokenKind.endOfInput, n⟩] = tokens at h
  induction h generalizing ts with
  | done =>
    obtain ⟨rfl, hend⟩ := List.append_eq_singleton_iff.mp htokens |>.resolve_right (by simp)
    obtain ⟨-, rfl⟩ := Token.mk.inj (List.cons.inj hend).1
    exact h'
  | blank hpiece _ ih => exact .blank hpiece (ih h' (unsigned_of_cons hsign) htokens)
  | stray hstray _ ih => exact .stray hstray (ih h' (unsigned_of_cons hsign) htokens)
  | signed hsigned _ ih =>
    obtain ⟨us, rfl, hus⟩ := hcons (by simp) htokens
    exact .signed hsigned (ih h' (unsigned_of_cons (unsigned_of_cons hsign)) hus)
  | @single _ _ piece _ pieces _ _ hpiece halone _ ih =>
    obtain ⟨us, rfl, hus⟩ := hcons hpiece.ne_endOfInput htokens
    refine .single hpiece ?_ (ih h' (unsigned_of_cons hsign) hus)
    cases pieces with
    | nil => exact fun digits x hdigits ↦ hsign piece rfl digits hdigits _ x
    | cons next pieces => exact halone

/-- A place between pieces that is one between tokens. -/
def Parts (previous : Option TokenKind) (offset : Nat) (pieces behind : List (List Char))
    (tokens : List Token) : Prop :=
  ∃ ts ts' ss ss', tokens = ts ++ ts' ∧
    Gives previous offset pieces (ts ++ [⟨.endOfInput, offset + bytes pieces.flatten⟩]) ss ∧
    Gives (lastKind previous ts) (offset + bytes pieces.flatten) behind ts' ss'

theorem parts_nil (h : Gives previous offset behind tokens strays) :
    Parts previous offset [] behind tokens :=
  ⟨[], tokens, [], strays, rfl, .done, h⟩

theorem add_bytes_flatten_cons (n : Nat) (piece : List Char) (pieces : List (List Char)) :
    n + bytes (piece :: pieces).flatten = n + bytes piece + bytes pieces.flatten := by
  rw [List.flatten_cons, bytes_append, Nat.add_assoc]

section Parts

variable {piece : List Char}

theorem parts_blank (hpiece : Lexeme piece none)
    (h : Parts previous (offset + bytes piece) pieces behind tokens) :
    Parts previous offset (piece :: pieces) behind tokens := by
  obtain ⟨ts, ts', ss, ss', rfl, hfront, hback⟩ := h
  rw [← add_bytes_flatten_cons] at hfront hback
  exact ⟨ts, ts', ss, ss', rfl, .blank hpiece hfront, hback⟩

theorem parts_stray {c : Char} (hstray : ∀ kind, ¬Lexeme [c] kind)
    (h : Parts previous (offset + bytes [c]) pieces behind tokens) :
    Parts previous offset ([c] :: pieces) behind tokens := by
  obtain ⟨ts, ts', ss, ss', rfl, hfront, hback⟩ := h
  rw [← add_bytes_flatten_cons] at hfront hback
  exact ⟨ts, ts', _, ss', rfl, .stray hstray hfront, hback⟩

theorem parts_signed {sign digits : List Char} {x : Float}
    (hsigned : Signed previous sign digits x)
    (h : Parts (some (.number (-x))) (offset + bytes sign + bytes digits) pieces behind tokens) :
    Parts previous offset (sign :: digits :: pieces) behind (⟨.number (-x), offset⟩ :: tokens) := by
  obtain ⟨ts, ts', ss, ss', rfl, hfront, hback⟩ := h
  rw [← add_bytes_flatten_cons, ← add_bytes_flatten_cons] at hfront hback
  exact ⟨_ :: ts, ts', ss, ss', rfl, .signed hsigned hfront, hback⟩

theorem parts_single {kind : TokenKind} (hpiece : Lexeme piece (some kind))
    (halone : ∀ digits x, digits ∈ (pieces ++ behind).head? → ¬Signed previous piece digits x)
    (h : Parts (some kind) (offset + bytes piece) pieces behind tokens) :
    Parts previous offset (piece :: pieces) behind (⟨kind, offset⟩ :: tokens) := by
  obtain ⟨ts, ts', ss, ss', rfl, hfront, hback⟩ := h
  rw [← add_bytes_flatten_cons] at hfront hback
  refine ⟨_ :: ts, ts', ss, ss', rfl, .single hpiece ?_ hfront, hback⟩
  cases pieces with
  | nil => exact fun digits x hdigits ↦ absurd hdigits (by simp)
  | cons next pieces => exact halone

end Parts

/-- No token is a literal whose sign is in front of a place and whose numeral is behind it. -/
def Whole (offset : Nat) (pieces behind : List (List Char)) (tokens : List Token) : Prop :=
  ∀ sign ∈ pieces.getLast?, ∀ digits ∈ behind.head?, ∀ previous x, Signed previous sign digits x →
    ∀ t ∈ tokens, t.kind = .number (-x) → t.offset + bytes sign ≠ offset + bytes pieces.flatten

theorem whole_of_cons {piece : List Char} (h : Whole offset (piece :: pieces) behind tokens)
    (htokens : ∀ t ∈ ts, t ∈ tokens) : Whole (offset + bytes piece) pieces behind ts := by
  intro sign hsign digits hdigits previous x hsigned t ht hkind
  rw [← add_bytes_flatten_cons]
  have hlast : sign ∈ (piece :: pieces).getLast? := by
    rw [List.getLast?_cons, Option.mem_def.mp hsign]
    rfl
  exact h sign hlast digits hdigits previous x hsigned t (htokens t ht) hkind

/-- **A place between pieces is a place between tokens**, unless a minus in front of it has taken
the numeral behind it. -/
theorem parts (h : Gives previous offset (pieces ++ behind) tokens strays)
    (hwhole : Whole offset pieces behind tokens) : Parts previous offset pieces behind tokens := by
  generalize hpieces : pieces ++ behind = all at h
  induction h generalizing pieces with
  | done =>
    obtain ⟨rfl, rfl⟩ := List.append_eq_nil_iff.mp hpieces
    exact parts_nil .done
  | blank hpiece hlater ih =>
    rcases pieces with _ | ⟨p, pieces⟩
    · obtain rfl : behind = _ := hpieces
      exact parts_nil (.blank hpiece hlater)
    · obtain ⟨rfl, hrest⟩ := List.cons.inj hpieces
      exact parts_blank hpiece (ih (whole_of_cons hwhole fun t ht ↦ ht) hrest)
  | stray hstray hlater ih =>
    rcases pieces with _ | ⟨p, pieces⟩
    · obtain rfl : behind = _ := hpieces
      exact parts_nil (.stray hstray hlater)
    · obtain ⟨rfl, hrest⟩ := List.cons.inj hpieces
      exact parts_stray hstray (ih (whole_of_cons hwhole fun t ht ↦ ht) hrest)
  | signed hsigned hlater ih =>
    rcases pieces with _ | ⟨p, _ | ⟨q, pieces⟩⟩
    · obtain rfl : behind = _ := hpieces
      exact parts_nil (.signed hsigned hlater)
    · -- the place is inside the literal
      obtain ⟨rfl, hdigits⟩ := List.cons.inj hpieces
      obtain rfl : behind = _ := hdigits
      refine absurd ?_ (hwhole p rfl _ rfl _ _ hsigned _ List.mem_cons_self rfl)
      rw [List.flatten_singleton]
    · obtain ⟨rfl, hrest⟩ := List.cons.inj hpieces
      obtain ⟨rfl, hrest'⟩ := List.cons.inj hrest
      have hwhole' := whole_of_cons (whole_of_cons hwhole fun t ht ↦ ht)
        fun t ht ↦ List.mem_cons_of_mem _ ht
      exact parts_signed hsigned (ih hwhole' hrest')
  | single hpiece halone hlater ih =>
    rcases pieces with _ | ⟨p, pieces⟩
    · obtain rfl : behind = _ := hpieces
      exact parts_nil (.single hpiece halone hlater)
    · obtain ⟨rfl, rfl⟩ := List.cons.inj hpieces
      exact parts_single hpiece halone
        (ih (whole_of_cons hwhole fun t ht ↦ List.mem_cons_of_mem _ ht) rfl)

/-- Pieces of blanks give no token. -/
theorem of_blank {cs : List Char} (h : Cut cs pieces) (hblank : ∀ c ∈ cs, Text.isBlank c) :
    ∃ strays, Gives previous offset pieces [⟨.endOfInput, offset + bytes cs⟩] strays := by
  induction h generalizing offset with
  | nil => exact ⟨[], .done⟩
  | @cons piece rest pieces hfirst hrest ih =>
    obtain ⟨hpiece, hrest⟩ := List.forall_mem_append.mp hblank
    obtain ⟨strays, hlater⟩ := @ih (offset + bytes piece) hrest
    rw [Nat.add_assoc, ← bytes_append] at hlater
    rcases hfirst.of_isBlank hpiece with hlexeme | ⟨c, rfl, hstray⟩
    · exact ⟨strays, .blank hlexeme hlater⟩
    · exact ⟨_, .stray hstray hlater⟩

end Gives

end Formula
