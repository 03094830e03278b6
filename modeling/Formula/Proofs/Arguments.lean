import Formula.CommandLine.Program
import Formula.Proofs.Rereading
import Mathlib.Data.List.Forall2

/-!
# The grammar of command lines

What a command line gives is a list: options, with their values as they are read, and expressions
(`Given`). How such a list is spelled is a relation (`Spells`) over the names under which the
options are declared. It is not a reader, and it does not say which command lines are accepted; but
a command line spells one list at most (`Spells.unique`).

The program does not read its command line itself. It relies on its parser for two things: what is
accepted spells a list, and the arguments that come back hold what is in the list
(`ArgumentParser.IsFaithful`).

How a binding is written is a parameter of the relation. The parser is given the program's own
reading of a binding, and so that reading stands in what is relied on; what comes of it is said with
the grammar of bindings (`readsBinding_iff`).
-/

namespace Formula.CommandLine

/-! ## Values of options -/

/-- How a binding is written: a name, with blanks around it that do not count, an equals sign and
the value. -/
inductive WritesBinding : String → String × Value → Prop
  | intro {name : String} (left right value : String) (hname : Bindable name)
    (hleft : ∀ c ∈ left.toList, Text.isBlank c) (hright : ∀ c ∈ right.toList, Text.isBlank c) :
    WritesBinding (left ++ name ++ right ++ "=" ++ value) (name, Value.ofText value)

/-- The program's own reading of a binding. -/
def ReadsBinding (written : String) (binding : String × Value) : Prop :=
  parseBinding written = .ok binding

/-- How a nesting depth is written: digits, with a plus in front or not, of a number that fits a
word of 64 bits. -/
inductive WritesDepth : String → Nat → Prop
  | intro {sign : String} (digits : String) (hsign : sign = "" ∨ sign = "+") (hne : digits ≠ "")
    (hdigits : ∀ c ∈ digits.toList, c.isDigit)
    (hfits : Nat.ofDigitChars 10 digits.toList 0 < Nat.pow 2 64) :
    WritesDepth (sign ++ digits) (Nat.ofDigitChars 10 digits.toList 0)

theorem not_mem_of_isBlank {cs : List Char} (h : ∀ c ∈ cs, Text.isBlank c) : '=' ∉ cs :=
  fun hmem ↦ absurd (h _ hmem) (by decide)

theorem eq_of_splitAtEquals? {cs name value : List Char}
    (h : splitAtEquals? cs = some (name, value)) : cs = name ++ '=' :: value ∧ '=' ∉ name := by
  unfold splitAtEquals? at h
  split at h
  · exact absurd h (by simp)
  · next c value' hdrop =>
    obtain ⟨rfl, rfl⟩ := Prod.mk.inj (Option.some.inj h)
    have hhead := List.head?_dropWhile_not (· != '=') cs
    rw [hdrop] at hhead
    obtain rfl : c = '=' := by simpa using hhead
    refine ⟨by rw [← hdrop, List.takeWhile_append_dropWhile], fun hmem ↦ ?_⟩
    exact absurd (List.mem_takeWhile_imp hmem) (by simp)

/-- The name of a binding is what is left when the blanks come off. -/
theorem Bindable.of_trimmed {cs left name right : List Char} (h : Trimmed cs left name right)
    (hequals : '=' ∉ cs) (hne : name ≠ []) : Bindable (String.ofList name) := by
  obtain ⟨rfl, -, -, hbegins, hends⟩ := h
  refine ⟨fun hempty ↦ hne ?_, ?_, ?_, ?_⟩
  · rw [← String.toList_ofList (l := name), hempty]
    rfl
  all_goals rw [String.toList_ofList]
  · exact fun hmem ↦ hequals (List.mem_append_right _ (List.mem_append_left _ hmem))
  · exact fun c hc ↦ hbegins c (by rwa [List.head?_append_of_ne_nil _ hne])
  · exact hends

theorem Bindable.trimmed {name : String} (h : Bindable name) {left right : List Char}
    (hleft : ∀ c ∈ left, Text.isBlank c) (hright : ∀ c ∈ right, Text.isBlank c) :
    Trimmed (left ++ (name.toList ++ right)) left name.toList right := by
  have hne : name.toList ≠ [] := by simpa using h.ne_empty
  refine ⟨rfl, hleft, hright, fun c hc ↦ h.begins c ?_, h.ends⟩
  rwa [List.head?_append_of_ne_nil _ hne] at hc

theorem WritesBinding.parseBinding {written : String} {binding : String × Value}
    (h : WritesBinding written binding) : parseBinding written = .ok binding := by
  obtain @⟨name, left, right, value, hname, hleft, hright⟩ := h
  have htrimmed := hname.trimmed hleft hright
  have hequals : '=' ∉ left.toList ++ (name.toList ++ right.toList) := by
    simp [not_mem_of_isBlank hleft, not_mem_of_isBlank hright, hname.no_equals]
  have hwritten : (left ++ name ++ right ++ "=" ++ value).toList
      = (left.toList ++ (name.toList ++ right.toList)) ++ '=' :: value.toList := by simp
  have hne : name.toList.isEmpty = false := by simpa using hname.ne_empty
  simp only [CommandLine.parseBinding, hwritten, splitAtEquals?_append hequals, htrimmed.trim_eq,
    hne, Bool.false_eq_true, if_false, String.ofList_toList]

/-- **The program reads a binding as it is written.** -/
theorem readsBinding_iff {written : String} {binding : String × Value} :
    ReadsBinding written binding ↔ WritesBinding written binding := by
  refine ⟨fun h ↦ ?_, WritesBinding.parseBinding⟩
  unfold ReadsBinding parseBinding at h
  split at h
  · next before value hsplit =>
    obtain ⟨hwritten, hequals⟩ := eq_of_splitAtEquals? hsplit
    split at h
    · exact absurd h (by simp)
    · next hname =>
      obtain rfl := Except.ok.inj h
      have htrimmed : Trimmed before (before.takeWhile Text.isBlank) (Text.trim before)
          (Text.blanksBehind (Text.trimFront before)) := trimmed_iff.mpr ⟨rfl, rfl, rfl⟩
      have hbindable := Bindable.of_trimmed htrimmed hequals (by simpa using hname)
      have hparts : written = String.ofList (before.takeWhile Text.isBlank)
          ++ String.ofList (Text.trim before)
          ++ String.ofList (Text.blanksBehind (Text.trimFront before)) ++ "="
          ++ String.ofList value := by
        have hwhole := congrArg (· ++ '=' :: value) htrimmed.whole
        apply String.toList_inj.mp
        simpa [hwritten] using hwhole
      rw [hparts]
      exact .intro _ _ _ hbindable (by simpa using htrimmed.front_blank)
        (by simpa using htrimmed.back_blank)
  · exact absurd h (by simp)

theorem WritesBinding.unique {written : String} {binding binding' : String × Value}
    (h : WritesBinding written binding) (h' : WritesBinding written binding') :
    binding = binding' := Except.ok.inj (h.parseBinding.symm.trans h'.parseBinding)

/-- The digits of a depth do not begin with a plus. -/
theorem eq_of_signed {sign sign' digits digits' : String} (hsign : sign = "" ∨ sign = "+")
    (hsign' : sign' = "" ∨ sign' = "+") (hdigits : ∀ c ∈ digits.toList, c.isDigit)
    (hdigits' : ∀ c ∈ digits'.toList, c.isDigit) (h : sign ++ digits = sign' ++ digits') :
    digits = digits' := by
  have hplus {s t : String} (hs : ∀ c ∈ s.toList, c.isDigit) : s ≠ "+" ++ t := by
    rintro rfl
    exact absurd (hs '+' (by simp)) (by decide)
  rcases hsign with rfl | rfl <;> rcases hsign' with rfl | rfl
  · simpa using h
  · exact absurd (by simpa using h) (hplus hdigits)
  · exact absurd (by simpa using h.symm) (hplus hdigits')
  · exact (String.append_right_inj _).mp h

theorem WritesDepth.unique {written : String} {n m : Nat} (h : WritesDepth written n)
    (h' : WritesDepth written m) : n = m := by
  obtain @⟨sign, digits, hsign, hne, hdigits, hfits⟩ := h
  generalize heq : sign ++ digits = written at h'
  obtain @⟨sign', digits', hsign', hne', hdigits', hfits'⟩ := h'
  rw [eq_of_signed hsign hsign' hdigits hdigits' heq]

/-! ## What is given -/

/-- One thing that is given on a command line. -/
inductive Given where
  | variable (name : String) (value : Value)
  | constant (name : String) (value : Value)
  | switch (s : Switch)
  | maxDepth (n : Nat)
  | logLevel (filter : String)
  | expression (text : String)
  deriving DecidableEq

namespace Given

def asVariable? : Given → Option (String × Value)
  | .variable name value => some (name, value)
  | _ => none

def asConstant? : Given → Option (String × Value)
  | .constant name value => some (name, value)
  | _ => none

def asDepth? : Given → Option Nat
  | .maxDepth n => some n
  | _ => none

def asExpression? : Given → Option String
  | .expression text => some text
  | _ => none

end Given

/-- The long name of an option. -/
def Switch.name : Switch → String
  | .file => "file"
  | .tokens => "tokens"
  | .strict => "strict"
  | .shortCircuit => "short-circuit"

/-- The letter of an option that has one. -/
def Switch.letter? : Switch → Option Char
  | .file => some 'f'
  | .tokens => some 't'
  | _ => none

/-- The long name of an option. -/
def Setting.name : Setting → String
  | .variable => "var"
  | .constant => "const"
  | .maxDepth => "max-depth"
  | .logLevel => "log-level"

section Spelling

variable (binds : String → String × Value → Prop)

/-- What an option gives with a value that it takes. -/
inductive Setting.Gives : Setting → String → Given → Prop
  | bindsVariable {written name : String} {value : Value} (h : binds written (name, value)) :
    Gives .variable written (.variable name value)
  | bindsConstant {written name : String} {value : Value} (h : binds written (name, value)) :
    Gives .constant written (.constant name value)
  | limits {written : String} {n : Nat} (h : WritesDepth written n) :
    Gives .maxDepth written (.maxDepth n)
  | filters (written : String) : Gives .logLevel written (.logLevel written)

/-- An argument that is not written like an option. A minus alone is not. -/
def IsPlain (argument : String) : Prop := ∀ c cs, argument.toList ≠ '-' :: c :: cs

/-- Arguments that spell what is given. -/
inductive Spells : List String → List Given → Prop
  | nil : Spells [] []
  | expression {argument : String} {arguments : List String} {given : List Given}
    (h : IsPlain argument) (hlater : Spells arguments given) :
    Spells (argument :: arguments) (.expression argument :: given)
  | short {cs : List Char} {switches : List Switch} {arguments : List String} {given : List Given}
    (hne : cs ≠ []) (h : List.Forall₂ (fun c s ↦ s.letter? = some c) cs switches)
    (hlater : Spells arguments given) :
    Spells (String.ofList ('-' :: cs) :: arguments) (switches.map .switch ++ given)
  | long (s : Switch) {arguments : List String} {given : List Given}
    (hlater : Spells arguments given) :
    Spells (("--" ++ s.name) :: arguments) (.switch s :: given)
  | attached {s : Setting} {value : String} {g : Given} {arguments : List String}
    {given : List Given} (hvalue : s.Gives binds value g) (hlater : Spells arguments given) :
    Spells (("--" ++ s.name ++ "=" ++ value) :: arguments) (g :: given)
  | apart {s : Setting} {value : String} {g : Given} {arguments : List String}
    {given : List Given} (hplain : IsPlain value) (hvalue : s.Gives binds value g)
    (hlater : Spells arguments given) :
    Spells (("--" ++ s.name) :: value :: arguments) (g :: given)
  | ended (arguments : List String) : Spells ("--" :: arguments) (arguments.map .expression)

end Spelling

/-! ## A command line spells one list -/

/-- What an argument is at a first look. -/
inductive Look where
  | plain
  | short (cs : List Char)
  /-- The name of a long option, and the value attached to it. -/
  | long (name : List Char) (value? : Option (List Char))
  | ended

def look (argument : String) : Look :=
  match argument.toList with
  | ['-', '-'] => .ended
  | '-' :: '-' :: body =>
    match splitAtEquals? body with
    | some (name, value) => .long name (some value)
    | none => .long body none
  | '-' :: c :: cs => .short (c :: cs)
  | _ => .plain

theorem look_plain {argument : String} (h : IsPlain argument) : look argument = .plain := by
  fun_cases look argument with
  | case5 => rfl
  | _ => exact absurd ‹_› (h _ _)

theorem look_short {cs : List Char} {switches : List Switch} (hne : cs ≠ [])
    (h : List.Forall₂ (fun c s ↦ s.letter? = some c) cs switches) :
    look (String.ofList ('-' :: cs)) = .short cs := by
  cases h with
  | nil => exact absurd rfl hne
  | @cons c s cs switches hc h =>
    have hdash : c ≠ '-' := by
      rintro rfl
      cases s <;> cases hc
    fun_cases look (String.ofList ('-' :: c :: cs)) <;> simp_all

theorem look_switch (s : Switch) : look ("--" ++ s.name) = .long s.name.toList none := by
  cases s <;> rfl

theorem look_setting (s : Setting) : look ("--" ++ s.name) = .long s.name.toList none := by
  cases s <;> rfl

theorem look_attached (s : Setting) (value : String) :
    look ("--" ++ s.name ++ "=" ++ value) = .long s.name.toList (some value.toList) := by
  have hequals : '=' ∉ s.name.toList := by cases s <;> decide
  have hsplit := splitAtEquals?_append hequals value.toList
  have hargument : ("--" ++ s.name ++ "=" ++ value).toList
      = '-' :: '-' :: (s.name.toList ++ '=' :: value.toList) := by simp
  generalize "--" ++ s.name ++ "=" ++ value = argument at hargument
  fun_cases look argument <;> simp_all

section Unique

variable {binds : String → String × Value → Prop}

/-- What is spelled by a first argument with a given look and by the arguments behind it. -/
def SpellsBehind (binds : String → String × Value → Prop) (argument : String)
    (arguments : List String) (given : List Given) : Look → Prop
  | .plain => ∃ later, given = .expression argument :: later ∧ Spells binds arguments later
  | .short cs => ∃ (switches : List Switch) (later : List Given),
    List.Forall₂ (fun c s ↦ s.letter? = some c) cs switches ∧
      given = switches.map .switch ++ later ∧ Spells binds arguments later
  | .long name (some value) => ∃ (s : Setting) (g : Given) (later : List Given),
    name = s.name.toList ∧ s.Gives binds (String.ofList value) g ∧ given = g :: later ∧
      Spells binds arguments later
  | .long name none =>
    (∃ (s : Switch) (later : List Given), name = s.name.toList ∧ given = .switch s :: later ∧
      Spells binds arguments later) ∨
    ∃ (s : Setting) (value : String) (rest : List String) (g : Given) (later : List Given),
      name = s.name.toList ∧ arguments = value :: rest ∧ s.Gives binds value g ∧
      given = g :: later ∧ Spells binds rest later
  | .ended => given = arguments.map .expression

theorem Spells.behind {argument : String} {arguments : List String} {given : List Given}
    (h : Spells binds (argument :: arguments) given) :
    SpellsBehind binds argument arguments given (look argument) := by
  cases h with
  | expression h hlater =>
    rw [look_plain h]
    exact ⟨_, rfl, hlater⟩
  | short hne h hlater =>
    rw [look_short hne h]
    exact ⟨_, _, h, rfl, hlater⟩
  | long s hlater =>
    rw [look_switch]
    exact .inl ⟨_, _, rfl, rfl, hlater⟩
  | @attached s value _ _ _ hvalue hlater =>
    rw [look_attached]
    exact ⟨_, _, _, rfl, String.ofList_toList.symm ▸ hvalue, rfl, hlater⟩
  | @apart s _ _ _ _ _ hvalue hlater =>
    rw [look_setting]
    exact .inr ⟨_, _, _, _, _, rfl, rfl, hvalue, rfl, hlater⟩
  | ended => exact rfl

theorem Setting.Gives.unique (hbinds : ∀ ⦃written binding binding'⦄, binds written binding →
    binds written binding' → binding = binding') {s : Setting} {written : String} {g g' : Given}
    (h : s.Gives binds written g) (h' : s.Gives binds written g') : g = g' := by
  cases h with
  | bindsVariable h =>
    cases h' with
    | bindsVariable h' =>
      obtain ⟨rfl, rfl⟩ := Prod.mk.inj (hbinds h h')
      rfl
  | bindsConstant h =>
    cases h' with
    | bindsConstant h' =>
      obtain ⟨rfl, rfl⟩ := Prod.mk.inj (hbinds h h')
      rfl
  | limits h =>
    cases h' with
    | limits h' => rw [h.unique h']
  | filters =>
    cases h'
    rfl

theorem Switch.name_inj {s s' : Switch} (h : s.name.toList = s'.name.toList) : s = s' := by
  cases s <;> cases s' <;> first | rfl | exact absurd h (by decide)

theorem Setting.name_inj {s s' : Setting} (h : s.name.toList = s'.name.toList) : s = s' := by
  cases s <;> cases s' <;> first | rfl | exact absurd h (by decide)

theorem Switch.name_ne (s : Switch) (s' : Setting) : s.name.toList ≠ s'.name.toList := by
  cases s <;> cases s' <;> decide

theorem Switch.letter?_inj {s s' : Switch} {c : Char} (h : s.letter? = some c)
    (h' : s'.letter? = some c) : s = s' := by
  cases s <;> cases s' <;> grind [letter?]

theorem eq_of_letters {cs : List Char} {switches switches' : List Switch}
    (h : List.Forall₂ (fun c s ↦ s.letter? = some c) cs switches)
    (h' : List.Forall₂ (fun c s ↦ s.letter? = some c) cs switches') : switches = switches' := by
  induction h generalizing switches' with
  | nil =>
    cases h'
    rfl
  | @cons c s cs switches hc h ih =>
    cases h' with
    | @cons _ s' _ switches' hc' h' =>
      rw [Switch.letter?_inj hc hc', ih h']

/-- **A command line gives one list of things**, if bindings are read in one way. -/
theorem Spells.unique (hbinds : ∀ ⦃written binding binding'⦄, binds written binding →
    binds written binding' → binding = binding') : ∀ (arguments : List String)
      {given given' : List Given}, Spells binds arguments given → Spells binds arguments given' →
        given = given'
  | [], given, given', h, h' => by
    cases h
    cases h'
    rfl
  | argument :: arguments, given, given', h, h' => by
    have hbehind := h.behind
    have hbehind' := h'.behind
    generalize look argument = l at hbehind hbehind'
    match l, hbehind, hbehind' with
    | .plain, ⟨later, hgiven, hlater⟩, ⟨later', hgiven', hlater'⟩ =>
      rw [hgiven, hgiven', Spells.unique hbinds arguments hlater hlater']
    | .short _, ⟨switches, later, hcs, hgiven, hlater⟩,
        ⟨switches', later', hcs', hgiven', hlater'⟩ =>
      rw [hgiven, hgiven', eq_of_letters hcs hcs', Spells.unique hbinds arguments hlater hlater']
    | .long _ (some _), ⟨s, g, later, hname, hg, hgiven, hlater⟩,
        ⟨s', g', later', hname', hg', hgiven', hlater'⟩ =>
      obtain rfl := Setting.name_inj (hname.symm.trans hname')
      rw [hgiven, hgiven', hg.unique hbinds hg', Spells.unique hbinds arguments hlater hlater']
    | .long _ none, .inl ⟨s, later, hname, hgiven, hlater⟩,
        .inl ⟨s', later', hname', hgiven', hlater'⟩ =>
      obtain rfl := Switch.name_inj (hname.symm.trans hname')
      rw [hgiven, hgiven', Spells.unique hbinds arguments hlater hlater']
    | .long _ none, .inl ⟨s, _, hname, _⟩, .inr ⟨s', _, _, _, _, hname', _⟩ =>
      exact absurd (hname.symm.trans hname') (s.name_ne s')
    | .long _ none, .inr ⟨s', _, _, _, _, hname', _⟩, .inl ⟨s, _, hname, _⟩ =>
      exact absurd (hname.symm.trans hname') (s.name_ne s')
    | .long _ none, .inr ⟨s, value, rest, g, later, hname, hrest, hg, hgiven, hlater⟩,
        .inr ⟨s', value', rest', g', later', hname', hrest', hg', hgiven', hlater'⟩ =>
      obtain rfl := Setting.name_inj (hname.symm.trans hname')
      subst hrest
      obtain ⟨rfl, rfl⟩ := List.cons.inj hrest'
      rw [hgiven, hgiven', hg.unique hbinds hg', Spells.unique hbinds rest hlater hlater']
    | .ended, hgiven, hgiven' => exact hgiven.trans hgiven'.symm
  termination_by arguments => arguments.length

end Unique

theorem spells_iff {arguments : List String} {given : List Given} :
    Spells ReadsBinding arguments given ↔ Spells WritesBinding arguments given := by
  have hbinds : ReadsBinding = WritesBinding := funext₂ fun _ _ ↦ propext readsBinding_iff
  rw [hbinds]

/-! ## What is relied on -/

section Given

variable (given : List Given)

/-- The variables, in the order in which they are given. -/
def boundVariables : List (String × Value) := given.filterMap Given.asVariable?

def boundConstants : List (String × Value) := given.filterMap Given.asConstant?

/-- The options of the evaluation that is asked for. -/
def givenOptions : Options where
  maxDepth := (given.filterMap Given.asDepth?).head?.getD 128
  strict := .switch .strict ∈ given
  shortCircuit := .switch .shortCircuit ∈ given

end Given

/-- Arguments that hold what is given. Nothing but bindings is given twice, as far as it counts, and
an expression is given. -/
structure Collects (given : List Given) (a : Arguments) : Prop where
  bindings : a.bindings = boundVariables given
  constants : a.constants = boundConstants given
  file : a.file ↔ .switch .file ∈ given
  tokens : a.tokens ↔ .switch .tokens ∈ given
  strict : a.strict ↔ .switch .strict ∈ given
  shortCircuit : a.shortCircuit ↔ .switch .shortCircuit ∈ given
  maxDepth : given.filterMap Given.asDepth? = [] ∧ a.maxDepth = 128 ∨
    given.filterMap Given.asDepth? = [a.maxDepth]
  expression : given.filterMap Given.asExpression? = [a.expression]

namespace ArgumentParser

/-- **What the program relies on its argument parser for.** -/
structure IsFaithful (parser : ArgumentParser) : Prop where
  /-- What is accepted is written with the options that are declared. -/
  spelled : ∀ {arguments : List String} {a : Arguments}, parser arguments = .ok a →
    ∃ given, Spells ReadsBinding arguments given
  /-- Repeated options are collected in order, and what is not given is at its default. -/
  collected : ∀ {arguments : List String} {a : Arguments} {given : List Given},
    parser arguments = .ok a → Spells ReadsBinding arguments given → Collects given a

/-- A parser that accepts a few command lines, each with its arguments. -/
def ofLines (lines : List (List String × Arguments)) : ArgumentParser := fun arguments ↦
  match lines.lookup arguments with
  | some a => .ok a
  | none => .error { status := 2 }

theorem mem_of_ofLines {lines : List (List String × Arguments)} {arguments : List String}
    {a : Arguments} (h : ofLines lines arguments = .ok a) : (arguments, a) ∈ lines := by
  unfold ofLines at h
  split at h
  · next hlookup =>
    obtain rfl := Except.ok.inj h
    obtain ⟨before, behind, rfl, -⟩ := List.lookup_eq_some_iff.mp hlookup
    simp
  · exact absurd h (by simp)

/-- Each of a few lines can be looked at by itself, because it spells one list. -/
theorem isFaithful_ofLines {lines : List (List String × Arguments)}
    (h : ∀ line ∈ lines, ∃ given, Spells WritesBinding line.1 given ∧ Collects given line.2) :
    (ofLines lines).IsFaithful where
  spelled haccepted := by
    obtain ⟨given, hspells, -⟩ := h _ (mem_of_ofLines haccepted)
    exact ⟨given, spells_iff.mpr hspells⟩
  collected := by
    intro arguments a given haccepted hspells
    obtain ⟨given', hspells', hcollects⟩ := h _ (mem_of_ofLines haccepted)
    have hsame : given = given' := by
      refine Spells.unique ?_ arguments (spells_iff.mp hspells) hspells'
      exact fun _ _ _ ↦ WritesBinding.unique
    rwa [hsame]

end ArgumentParser

end Formula.CommandLine
