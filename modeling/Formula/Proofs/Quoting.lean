import Formula.Proofs.Lexing
import Formula.Text.Quoted

/-!
# Quoted texts can be told apart

Inside quotes a character takes one place or up to ten: it is shown as it is, by a shorthand behind
a backslash, or by its code point between braces. Nothing is written between two characters. What
makes a quoted text readable is that what is shown for one character never begins what is shown for
another, so that from the front it can be told which one it was, whatever is behind it
(`Text.IsPrefixCode`).

Many things in a row keep this if a mark ends the row with which none of them begins
(`Text.IsPrefixCode.flatMap_mark`). The mark is the closing quote, and for its sake a quote is never
shown as it is. Numerals do begin one another, but not if a mark that is no digit ends each of them
(`Text.isPrefixCode_toDigits`). That is what the closing brace is for.

Which characters are hidden plays no part here. The three ways to show a character never clash,
whichever is chosen for it.
-/

namespace Formula.Text

variable {α : Type} {write : α → List Char} {mark : Char}

/-! ## Prefix codes -/

/-- Different things are written so that neither is the beginning of the other: whatever is written
behind it, it can be told from the front which one it was. -/
def IsPrefixCode (write : α → List Char) : Prop :=
  ∀ ⦃a b : α⦄ ⦃xs ys : List Char⦄, write a ++ xs = write b ++ ys → a = b

/-- What is written behind is left when the first thing has been told. -/
theorem IsPrefixCode.append_inj (h : IsPrefixCode write) {a b : α} {xs ys : List Char}
    (heq : write a ++ xs = write b ++ ys) : a = b ∧ xs = ys := by
  obtain rfl := h heq
  exact ⟨rfl, List.append_cancel_left heq⟩

theorem IsPrefixCode.injective (h : IsPrefixCode write) : Function.Injective write :=
  fun a b heq ↦ @h a b [] [] (congrArg (· ++ []) heq)

/-- Words, none of which begins another one, can be told from the front. -/
theorem isPrefixCode_words {words : List String}
    (h : ∀ u ∈ words, ∀ v ∈ words, u.toList <+: v.toList → u = v) :
    IsPrefixCode fun word : {u // u ∈ words} ↦ word.val.toList := by
  rintro ⟨u, hu⟩ ⟨v, hv⟩ xs ys heq
  have hbegins : u.toList <+: v.toList ++ ys := heq ▸ List.prefix_append u.toList xs
  refine Subtype.ext ?_
  rcases List.prefix_or_prefix_of_prefix hbegins (List.prefix_append v.toList ys) with hle | hle
  · exact h u hu v hv hle
  · exact (h v hv u hu hle).symm

/-- A mark that occurs in nothing that is written ends all of it. -/
theorem isPrefixCode_mark (hwrite : Function.Injective write) (hmark : ∀ a, mark ∉ write a) :
    IsPrefixCode fun a ↦ write a ++ [mark] := by
  intro a b xs ys heq
  have hfront (a : α) (xs : List Char) :
      (write a ++ [mark] ++ xs).takeWhile (· != mark) = write a := by
    rw [List.append_assoc, List.singleton_append]
    refine (takeWhile_dropWhile_eq (fun c hc ↦ ?_) ?_).1
    · exact bne_iff_ne.mpr fun hcmark ↦ hmark a (hcmark ▸ hc)
    · simp
  apply hwrite
  rw [← hfront a xs, ← hfront b ys, heq]

/-- A mark with which nothing begins that is written ends any number of such things. -/
theorem IsPrefixCode.flatMap_mark (h : IsPrefixCode write)
    (hmark : ∀ a xs ys, write a ++ xs ≠ mark :: ys) :
    IsPrefixCode fun as : List α ↦ as.flatMap write ++ [mark] := by
  intro as bs xs ys heq
  simp only [List.append_assoc, List.singleton_append] at heq
  induction as generalizing bs with
  | nil =>
    cases bs with
    | nil => rfl
    | cons b bs =>
      rw [List.flatMap_nil, List.nil_append, List.flatMap_cons, List.append_assoc] at heq
      exact absurd heq.symm (hmark b _ _)
  | cons a as ih =>
    cases bs with
    | nil =>
      rw [List.flatMap_nil, List.nil_append, List.flatMap_cons, List.append_assoc] at heq
      exact absurd heq (hmark a _ _)
    | cons b bs =>
      simp only [List.flatMap_cons, List.append_assoc] at heq
      obtain ⟨rfl, hlater⟩ := h.append_inj heq
      rw [ih hlater]

/-! ## Numerals -/

section Numerals

variable {base m n : Nat}

theorem eq_of_digitChar_eq (hm : m < 16) (hn : n < 16) (h : m.digitChar = n.digitChar) :
    m = n := by
  have hall : ∀ m < 16, ∀ n < 16, m.digitChar = n.digitChar → m = n := by decide
  exact hall m hm n hn h

/-- Different numbers have different numerals, in any base with enough digits. -/
theorem toDigits_injective (hbase : 1 < base) (hle : base ≤ 16) :
    Function.Injective (Nat.toDigits base) := by
  intro m
  -- a numeral is the one of the quotient by the base and one digit behind it
  induction m using Nat.strongRecOn with
  | ind m ih =>
    intro n h
    rw [Nat.toDigits_eq_if hbase, Nat.toDigits_eq_if (n := n) hbase] at h
    by_cases hm : m < base <;> by_cases hn : n < base
    · rw [if_pos hm, if_pos hn] at h
      exact eq_of_digitChar_eq (by omega) (by omega) (List.singleton_inj.mp h)
    · rw [if_pos hm, if_neg hn] at h
      have hlength := congrArg List.length h
      simp at hlength
    · rw [if_neg hm, if_pos hn] at h
      have hlength := congrArg List.length h
      simp at hlength
    · rw [if_neg hm, if_neg hn] at h
      obtain ⟨hfront, hlast⟩ := List.append_inj' h rfl
      have hmod := Nat.mod_lt m (show 0 < base by omega)
      have hmod' := Nat.mod_lt n (show 0 < base by omega)
      have hquotient : m / base = n / base :=
        ih (m / base) (Nat.div_lt_self (by omega) hbase) hfront
      have hrest : m % base = n % base :=
        eq_of_digitChar_eq (by omega) (by omega) (List.singleton_inj.mp hlast)
      rw [← Nat.div_add_mod m base, hquotient, hrest, Nat.div_add_mod]

/-- A numeral is made of digits. -/
theorem exists_digitChar_of_mem_toDigits (hbase : 1 < base) {c : Char}
    (hc : c ∈ Nat.toDigits base n) : ∃ d : Nat, c = d.digitChar := by
  induction n using Nat.strongRecOn with
  | ind n ih =>
    rw [Nat.toDigits_eq_if hbase] at hc
    split at hc
    · exact ⟨n, List.mem_singleton.mp hc⟩
    · rcases List.mem_append.mp hc with hc | hc
      · exact ih (n / base) (Nat.div_lt_self (by omega) hbase) hc
      · exact ⟨n % base, List.mem_singleton.mp hc⟩

/-- **A numeral can be told by a mark behind it** that is no digit. -/
theorem isPrefixCode_toDigits (hbase : 1 < base) (hle : base ≤ 16)
    (hmark : ∀ d : Nat, d.digitChar ≠ mark) :
    IsPrefixCode fun n ↦ Nat.toDigits base n ++ [mark] := by
  refine isPrefixCode_mark (toDigits_injective hbase hle) fun n hmem ↦ ?_
  obtain ⟨d, hd⟩ := exists_digitChar_of_mem_toDigits hbase hmem
  exact hmark d hd.symm

end Numerals

/-! ## Characters inside quotes -/

/-- The characters that are shown by a shorthand behind a backslash, each with its shorthand. -/
def shorthands : List (Char × Char) :=
  [('"', '"'), ('\\', '\\'), ('\n', 'n'), ('\r', 'r'), ('\t', 't'), ('\x00', '0')]

/-- The three ways to show a character inside quotes. -/
inductive Shows : Char → List Char → Prop
  | shorthand {c s : Char} (h : (c, s) ∈ shorthands) : Shows c ['\\', s]
  | numeral (c : Char) : Shows c ('\\' :: 'u' :: '\x7b' :: (codePoint c ++ ['\x7d']))
  | plain {c : Char} (hquote : c ≠ '"') (hbackslash : c ≠ '\\') : Shows c [c]

theorem shows_escape (c : Char) : Shows c (escape c) := by
  unfold escape
  split
  case h_7 hquote hbackslash _ _ _ _ =>
    split
    · exact .numeral c
    · exact .plain hquote hbackslash
  all_goals exact .shorthand (by decide)

theorem isPrefixCode_codePoint : IsPrefixCode fun c ↦ codePoint c ++ ['\x7d'] := by
  intro c d xs ys heq
  have hbrace (n : Nat) : n.digitChar ≠ '\x7d' := Nat.digitChar_ne '\x7d' (by decide)
  exact Char.toNat_inj.mp (isPrefixCode_toDigits (by decide) (by decide) hbrace heq)

/-- A shorthand stands for one character, and none is the letter in front of a code point. -/
theorem shorthands_unique :
    ∀ p ∈ shorthands, p.2 ≠ 'u' ∧ ∀ q ∈ shorthands, p.2 = q.2 → p.1 = q.1 := by decide

variable {c d : Char} {shown shown' xs ys : List Char}

/-- What is shown for a character tells it, in whichever of the three ways. -/
theorem Shows.eq_of_append (hc : Shows c shown) (hd : Shows d shown')
    (heq : shown ++ xs = shown' ++ ys) : c = d := by
  cases hc with
  | shorthand hs =>
    obtain ⟨hnot, hunique⟩ := shorthands_unique _ hs
    cases hd with
    | shorthand ht =>
      obtain ⟨-, hbehind⟩ := List.cons.inj heq
      exact hunique _ ht (List.cons.inj hbehind).1
    | numeral =>
      obtain ⟨-, hbehind⟩ := List.cons.inj heq
      exact absurd (List.cons.inj hbehind).1 hnot
    | plain _ hbackslash => exact absurd (List.cons.inj heq).1.symm hbackslash
  | numeral =>
    cases hd with
    | shorthand ht =>
      obtain ⟨-, hbehind⟩ := List.cons.inj heq
      exact absurd (List.cons.inj hbehind).1.symm (shorthands_unique _ ht).1
    | numeral =>
      have hnumerals : codePoint c ++ ['\x7d'] ++ xs = codePoint d ++ ['\x7d'] ++ ys := by
        simpa using heq
      exact isPrefixCode_codePoint hnumerals
    | plain _ hbackslash => exact absurd (List.cons.inj heq).1.symm hbackslash
  | plain _ hbackslash =>
    cases hd with
    | shorthand | numeral => exact absurd (List.cons.inj heq).1 hbackslash
    | plain => exact (List.cons.inj heq).1

theorem isPrefixCode_escape : IsPrefixCode escape := fun c d _ _ heq ↦
  (shows_escape c).eq_of_append (shows_escape d) heq

/-- Nothing that is shown inside quotes begins with a quote. -/
theorem Shows.append_ne (h : Shows c shown) : shown ++ xs ≠ '"' :: ys := by
  intro heq
  cases h with
  | shorthand | numeral => exact absurd (List.cons.inj heq).1 (by decide)
  | plain hquote => exact hquote (List.cons.inj heq).1

/-! ## Quoted texts -/

/-- **A quoted text can be told from the front**, whatever is written behind its closing quote. -/
theorem isPrefixCode_quoted : IsPrefixCode fun s ↦ (quoted s).toList := by
  intro s t xs ys heq
  simp only [quoted, String.toList_ofList, List.cons_append] at heq
  have hcontent : IsPrefixCode fun cs : List Char ↦ cs.flatMap escape ++ ['"'] :=
    isPrefixCode_escape.flatMap_mark fun c _ _ ↦ (shows_escape c).append_ne
  exact String.toList_inj.mp (hcontent (List.cons.inj heq).2)

theorem quoted_injective : Function.Injective quoted := fun _ _ h ↦
  isPrefixCode_quoted.injective (congrArg String.toList h)

end Formula.Text
