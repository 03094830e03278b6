import Formula.CommandLine.Binding
import Formula.Proofs.Numeral

/-!
# Values written as bindings

The text of a value can be given to a name on the command line, and what the name is bound to then
is the value that the text is read as (`CommandLine.parseBinding_display`). An equals sign in the
text does no harm, because the first one is the one behind the name.

The text does not say of which kind the value was. Truth values and finite numbers are read back, a
text is unless it is taken for a truth word or for a number, and the doubles that are not finite are
written as words and stay words (`Value.ofText_display_eq_iff`). So a value may change its kind when
it is written and read, but it does so once: what has been read is written the same from then on
(`Value.display_ofText_display`).
-/

namespace Formula

namespace Number

variable {x : Float}

/-- The texts of the doubles that are not finite are three words. -/
theorem text_of_not_isFinite (h : ¬x.isFinite) :
    text x = "NaN" ∨ text x = "inf" ∨ text x = "-inf" := by
  rcases Binary64.eq_of_not_isFinite h with rfl | ⟨negative, rfl⟩
  · exact .inl rfl
  · cases negative with
    | false => exact .inr (.inl rfl)
    | true => exact .inr (.inr rfl)

end Number

namespace Value

variable {s : String} {x : Float}

/-! ## Reading a text -/

theorem ofText_boolText (b : Bool) : ofText (boolText b) = boolean b := by cases b <;> rfl

theorem parse?_boolText (b : Bool) : Number.parse? (boolText b) = none := by cases b <;> rfl

theorem ofText_of_parse? (h : Number.parse? s = some x) : ofText s = number x := by
  have hne (b : Bool) : s ≠ boolText b := fun heq ↦
    Option.some_ne_none x (h.symm.trans (heq ▸ parse?_boolText b))
  have htrue : s ≠ "true" := hne true
  have hfalse : s ≠ "false" := hne false
  rw [ofText, if_neg htrue, if_neg hfalse, h]

/-- The values that their texts are read as: a text must be no truth word and no number, and a
number must be finite. -/
def Rereads : Value → Prop
  | number x => x.isFinite
  | text s => s ≠ "true" ∧ s ≠ "false" ∧ Number.parse? s = none
  | boolean _ => True

theorem ofText_of_rereads (h : (text s).Rereads) : ofText s = text s := by
  obtain ⟨htrue, hfalse, hnone⟩ := h
  rw [ofText, if_neg htrue, if_neg hfalse, hnone]

/-- A text is a truth word, has a number or is read as it stands. -/
theorem ofText_cases (s : String) : (∃ b, s = boolText b) ∨
    (∃ x, Number.parse? s = some x) ∨ (text s).Rereads := by
  by_cases htrue : s = "true"
  · exact .inl ⟨true, htrue⟩
  by_cases hfalse : s = "false"
  · exact .inl ⟨false, hfalse⟩
  cases hnone : Number.parse? s with
  | some x => exact .inr (.inl ⟨x, rfl⟩)
  | none => exact .inr (.inr ⟨htrue, hfalse, hnone⟩)

/-! ## Reading the text of a value -/

theorem ofText_numberText (h : x.isFinite) : ofText (Number.text x) = number x :=
  ofText_of_parse? (Number.parse?_text h)

theorem rereads_numberText (h : ¬x.isFinite) : (text (Number.text x)).Rereads := by
  rcases Number.text_of_not_isFinite h with h | h | h <;> rw [h] <;>
    exact ⟨by decide, by decide, by decide⟩

/-- **Which values are read back.** -/
theorem ofText_display_eq_iff (v : Value) : ofText v.display = v ↔ v.Rereads := by
  cases v with
  | boolean b => exact iff_of_true (ofText_boolText b) trivial
  | number x =>
    -- the word for a double that is not finite is read as a text
    refine ⟨fun h ↦ Classical.byContradiction fun hfinite ↦ ?_, ofText_numberText⟩
    have htext : ofText (Number.text x) = text (Number.text x) :=
      ofText_of_rereads (rereads_numberText hfinite)
    exact Value.noConfusion (h.symm.trans htext)
  | text s =>
    refine ⟨fun h ↦ ?_, ofText_of_rereads⟩
    change ofText s = text s at h
    rcases ofText_cases s with ⟨b, rfl⟩ | ⟨x, hx⟩ | hrereads
    · exact Value.noConfusion ((ofText_boolText b).symm.trans h)
    · exact Value.noConfusion ((ofText_of_parse? hx).symm.trans h)
    · exact hrereads

/-- **What has been read is written the same however often it is read again.** -/
theorem display_ofText_display (s : String) :
    (ofText (ofText s).display).display = (ofText s).display := by
  rcases ofText_cases s with ⟨b, rfl⟩ | ⟨x, hx⟩ | hrereads
  · rw [ofText_boolText]
    exact congrArg display (ofText_boolText b)
  · rw [ofText_of_parse? hx]
    by_cases hfinite : x.isFinite
    · exact congrArg display (ofText_numberText hfinite)
    · change (ofText (Number.text x)).display = (text (Number.text x)).display
      rw [ofText_of_rereads (rereads_numberText hfinite)]
  · rw [ofText_of_rereads hrereads]
    exact congrArg display (ofText_of_rereads hrereads)

end Value

namespace CommandLine

/-! ## Bindings -/

theorem splitAtEquals?_append {name : List Char} (h : '=' ∉ name) (value : List Char) :
    splitAtEquals? (name ++ '=' :: value) = some (name, value) := by
  have hname : ∀ c ∈ name, (c != '=') = true := fun c hc ↦
    bne_iff_ne.mpr fun heq ↦ h (heq ▸ hc)
  have hvalue : ∀ c ∈ ('=' :: value).head?, ¬(c != '=') = true := fun _ hc ↦
    Option.some.inj hc ▸ Bool.false_ne_true
  obtain ⟨htake, hdrop⟩ := Text.takeWhile_dropWhile_eq hname hvalue
  rw [splitAtEquals?, htake, hdrop]

/-- The names that are bound as they are written: not empty, without an equals sign and without
blanks at either end. -/
structure Bindable (name : String) : Prop where
  ne_empty : name ≠ ""
  no_equals : '=' ∉ name.toList
  begins : ∀ c ∈ name.toList.head?, ¬Text.isBlank c
  ends : ∀ c ∈ name.toList.getLast?, ¬Text.isBlank c

theorem Bindable.parseBinding {name : String} (h : Bindable name) (value : String) :
    parseBinding (name ++ "=" ++ value) = .ok (name, Value.ofText value) := by
  have hinput : (name ++ "=" ++ value).toList = name.toList ++ '=' :: value.toList := by simp
  have htrim := (Trimmed.of_ends h.begins h.ends).trim_eq
  have hne : name.toList.isEmpty = false := by simpa using h.ne_empty
  simp only [CommandLine.parseBinding, hinput, splitAtEquals?_append h.no_equals, htrim, hne,
    Bool.false_eq_true, if_false, String.ofList_toList]

/-- **A value that is written as a binding.** The name is bound to what the text of the value is
read as. That is the value itself if it is a truth value, a finite number or a text that is neither
a truth word nor a number, and for no other value. Reading a text a second time, from how it was
written after the first, changes nothing in how it is written. -/
theorem parseBinding_display {name : String} (hname : Bindable name) (v : Value) :
    parseBinding (name ++ "=" ++ v.display) = .ok (name, Value.ofText v.display) ∧
    (Value.ofText v.display = v ↔ v.Rereads) ∧
    ∀ s, (Value.ofText (Value.ofText s).display).display = (Value.ofText s).display :=
  ⟨hname.parseBinding v.display, v.ofText_display_eq_iff, Value.display_ofText_display⟩

/-- The value may have an equals sign in it. -/
theorem parseBinding_display_equals :
    parseBinding "rate=a=b" = .ok ("rate", .text "a=b") := by
  have hname : Bindable "rate" :=
    { ne_empty := by decide
      no_equals := by decide
      begins := by rintro _ ⟨⟩; decide
      ends := by rintro _ ⟨⟩; decide }
  obtain ⟨hparse, hback, -⟩ := parseBinding_display hname (.text "a=b")
  have hrereads : (Value.text "a=b").Rereads := ⟨by decide, by decide, by decide⟩
  rwa [hback.mpr hrereads] at hparse

end CommandLine

end Formula
