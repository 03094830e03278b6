import Formula.Proofs.Arguments
import Formula.Proofs.Routes

/-!
# The command line is the library

A command line that asks for a value prints what an engine comes to: the one with the standard
functions, the constants and the options that are given, evaluating the expression, or what is in
the file, with the variables that are given. Of several bindings of a name the last one counts. How
variables, constants, flags and the expression are mixed does not matter otherwise, because an
evaluation sees no more of a table than what it has under each name (`Arguments.Alike`).
-/

namespace Formula

/-! ## Tables of bindings -/

/-- The values that a name is bound to, in order. -/
def valuesOf {α : Type} (name : String) (bindings : List (String × α)) : List α :=
  bindings.filterMap fun (key, a) ↦ if key = name then some a else none

theorem valuesOf_cons {α : Type} (name key : String) (a : α) (bindings : List (String × α)) :
    valuesOf name ((key, a) :: bindings)
      = if key = name then a :: valuesOf name bindings else valuesOf name bindings := by
  rw [valuesOf, List.filterMap_cons]
  split <;> simp_all [valuesOf]

theorem Table.get?_foldl_insert {α : Type} (name : String) (bindings : List (String × α)) :
    ∀ t : Table α, (bindings.foldl (fun t binding ↦ t.insert binding.1 binding.2) t).get? name
      = (valuesOf name bindings).getLast?.or (t.get? name) := by
  induction bindings with
  | nil => exact fun t ↦ rfl
  | cons binding bindings ih =>
    obtain ⟨key, a⟩ := binding
    intro t
    rw [List.foldl_cons, ih, Table.get?_insert, valuesOf_cons]
    by_cases hkey : key = name
    · rw [if_pos hkey, if_pos hkey.symm, List.getLast?_cons]
      cases (valuesOf name bindings).getLast? <;> rfl
    · rw [if_neg hkey, if_neg (Ne.symm hkey)]

/-- **A table of bindings has the last one of each name.** -/
theorem Table.get?_ofList {α : Type} (bindings : List (String × α)) (name : String) :
    (Table.ofList bindings).get? name = (valuesOf name bindings).getLast? := by
  rw [Table.ofList, Table.get?_foldl_insert, Table.get?_empty, Option.or_none]

/-- Engines that have the same answer the same, also with variables that are the same. -/
theorem Engine.Same.result_eq {e e' : Engine} (h : e.Same e') (source : String)
    {bindings bindings' : Table Value}
    (hbindings : ∀ name, bindings'.get? name = bindings.get? name) :
    (e'.evaluate source bindings').result = (e.evaluate source bindings).result := by
  rw [h.evaluate_eq, evaluate, evaluate, rule, Rule.evaluate, Rule.evaluate]
  split
  · rfl
  · have hanswer : Evaluation.ofTokens source (tokenize source) (e.constants.overlay bindings')
        e.functions e.options = Evaluation.ofTokens source (tokenize source)
          (e.constants.overlay bindings) e.functions e.options :=
      Evaluation.ofTokens_congr
        (fun name ↦ by rw [Table.get?_overlay, Table.get?_overlay, hbindings]) fun _ ↦ rfl
    have hresult := congrArg Evaluation.result hanswer
    exact hresult

namespace CommandLine

/-! ## Files -/

/-- A text without the line ends at its end. -/
structure WithoutLineEnds (text source : String) : Prop where
  exists_ends : ∃ ends, text.toList = source.toList ++ ends ∧ ∀ c ∈ ends, c = '\r' ∨ c = '\n'
  getLast? : ∀ c ∈ source.toList.getLast?, c ≠ '\r' ∧ c ≠ '\n'

theorem WithoutLineEnds.trimLineEnds_eq {text source : String} (h : WithoutLineEnds text source) :
    trimLineEnds text = source := by
  obtain ⟨⟨ends, htext, hends⟩, hlast⟩ := h
  have hends' : ∀ c ∈ ends.reverse, (c == '\r' || c == '\n') = true := by simpa using hends
  have hlast' : ∀ c ∈ source.toList.reverse.head?, ¬(c == '\r' || c == '\n') = true := by
    simpa using hlast
  have hdrop := (Text.takeWhile_dropWhile_eq hends' hlast').2
  rw [trimLineEnds, htext, List.reverse_append, hdrop, List.reverse_reverse, String.ofList_toList]

/-! ## Arguments -/

namespace Arguments

/-- Arguments between which no evaluation can tell. -/
structure Alike (a a' : Arguments) : Prop where
  bindings : ∀ name, valuesOf name a'.bindings = valuesOf name a.bindings
  constants : ∀ name, valuesOf name a'.constants = valuesOf name a.constants
  file : a'.file = a.file
  tokens : a'.tokens = a.tokens
  options : a'.options = a.options
  expression : a'.expression = a.expression

variable {a a' : Arguments}

/-- What a result is printed as. -/
def printed : Except FormulaError Value → Outcome
  | .ok v => { status := 0, output := v.display ++ "\n" }
  | .error e => { status := 1, complaint := e.message ++ "\n" }

theorem value_eq (a : Arguments) (source : String) : a.value source
    = printed (a.engine.evaluate source (Table.ofList a.bindings)).result := by
  rw [value]
  split <;> simp_all [printed]

theorem Alike.value_eq (h : a.Alike a') (source : String) : a'.value source = a.value source := by
  have hsame : a.engine.Same a'.engine := by
    refine ⟨fun name ↦ ?_, fun _ ↦ rfl, h.options⟩
    simp only [engine, Table.get?_ofList, h.constants]
  have hbindings (name : String) :
      (Table.ofList a'.bindings).get? name = (Table.ofList a.bindings).get? name := by
    rw [Table.get?_ofList, Table.get?_ofList, h.bindings]
  rw [Arguments.value_eq, Arguments.value_eq, hsame.result_eq source hbindings]

theorem Alike.outcome_eq (h : a.Alike a') (read : String → Except FileError String) :
    a'.outcome read = a.outcome read := by
  have hsource : a'.source read = a.source read := by
    rw [source, source, h.file, h.expression]
  rw [outcome, outcome, hsource, h.expression, h.tokens]
  simp only [h.value_eq]

end Arguments

/-! ## What is given -/

namespace Collects

variable {given : List Given} {a : Arguments}

theorem options (h : Collects given a) : a.options = givenOptions given := by
  have hdepth : a.maxDepth = (given.filterMap Given.asDepth?).head?.getD 128 := by
    rcases h.maxDepth with ⟨hnone, hdefault⟩ | hone
    · rw [hnone, hdefault]
      rfl
    · rw [hone]
      rfl
  have hstrict : a.strict = decide (.switch .strict ∈ given) :=
    Bool.eq_iff_iff.mpr (h.strict.trans decide_eq_true_iff.symm)
  have hshort : a.shortCircuit = decide (.switch .shortCircuit ∈ given) :=
    Bool.eq_iff_iff.mpr (h.shortCircuit.trans decide_eq_true_iff.symm)
  rw [Arguments.options, givenOptions, hdepth, hstrict, hshort]

theorem depth_le (h : Collects given a) : (given.filterMap Given.asDepth?).length ≤ 1 := by
  rcases h.maxDepth with ⟨hnone, -⟩ | hone
  · rw [hnone]
    exact Nat.zero_le 1
  · rw [hone]
    exact Nat.le_refl 1

/-- What is given in another order, but for each name its variables and its constants in the same
one, makes arguments that are alike. -/
theorem alike {given' : List Given} {a' : Arguments} (h : Collects given a)
    (h' : Collects given' a') (hperm : given'.Perm given)
    (hvariables : ∀ name, valuesOf name (boundVariables given')
      = valuesOf name (boundVariables given))
    (hconstants : ∀ name, valuesOf name (boundConstants given')
      = valuesOf name (boundConstants given)) : a.Alike a' := by
  have hdepth : given'.filterMap Given.asDepth? = given.filterMap Given.asDepth? := by
    have hdepths := hperm.filterMap Given.asDepth?
    cases hlist : given.filterMap Given.asDepth? with
    | nil => exact List.perm_nil.mp (hlist ▸ hdepths)
    | cons n others =>
      have hone := h.depth_le
      rw [hlist, List.length_cons] at hone
      obtain rfl : others = [] := List.eq_nil_of_length_eq_zero (by omega)
      exact List.perm_singleton.mp (hlist ▸ hdepths)
  refine ⟨fun name ↦ ?_, fun name ↦ ?_, ?_, ?_, ?_, ?_⟩
  · rw [h.bindings, h'.bindings, hvariables]
  · rw [h.constants, h'.constants, hconstants]
  · exact Bool.eq_iff_iff.mpr (h'.file.trans (hperm.mem_iff.trans h.file.symm))
  · exact Bool.eq_iff_iff.mpr (h'.tokens.trans (hperm.mem_iff.trans h.tokens.symm))
  · rw [h.options, h'.options, givenOptions, givenOptions, hdepth]
    simp only [hperm.mem_iff]
  · have hexpressions := hperm.filterMap Given.asExpression?
    rw [h.expression, h'.expression] at hexpressions
    exact (List.cons.inj (List.perm_singleton.mp hexpressions)).1

end Collects

theorem ArgumentParser.run_of_ok {parser : ArgumentParser} {arguments : List String}
    {a : Arguments} (h : parser arguments = .ok a) (read : String → Except FileError String) :
    parser.run arguments read = a.outcome read := by
  rw [run, h]

/-- **The command line is the library.** With a parser that can be relied on, an accepted command
line spells what it gives. If it does not ask for tokens, it prints what the engine with the
standard functions and with the constants and options that are given comes to on the expression, or
on the file without the line ends at its end, with the variables that are given, where of several
bindings of one name the last one counts. Accepted command lines that give the same in another order
print the same if for every name the variables and the constants keep their order. -/
theorem run_accepted {parser : ArgumentParser} (hparser : parser.IsFaithful)
    {arguments : List String} {a : Arguments} (h : parser arguments = .ok a) :
    (∃ given, Spells WritesBinding arguments given) ∧
    ∀ given, Spells WritesBinding arguments given →
      (∃ e, given.filterMap Given.asExpression? = [e] ∧
        (.switch .tokens ∉ given →
          ∀ (read : String → Except FileError String) (source : String)
            (bindings constants : Table Value),
          (if .switch .file ∈ given then ∃ text, read e = .ok text ∧ WithoutLineEnds text source
            else source = e) →
          (∀ name, bindings.get? name = (valuesOf name (boundVariables given)).getLast?) →
          (∀ name, constants.get? name = (valuesOf name (boundConstants given)).getLast?) →
          let engine : Engine := ⟨constants, standardFunctions, givenOptions given⟩
          parser.run arguments read = match (engine.evaluate source bindings).result with
            | .ok v => { status := 0, output := v.display ++ "\n", complaint := "" }
            | .error e => { status := 1, output := "", complaint := e.message ++ "\n" })) ∧
      ∀ arguments' a' given', parser arguments' = .ok a' → Spells WritesBinding arguments' given' →
        given'.Perm given →
        (∀ name, valuesOf name (boundVariables given') = valuesOf name (boundVariables given)) →
        (∀ name, valuesOf name (boundConstants given') = valuesOf name (boundConstants given)) →
        ∀ read, parser.run arguments' read = parser.run arguments read := by
  refine ⟨?_, fun given hspells ↦ ?_⟩
  · obtain ⟨given, hspells⟩ := hparser.spelled h
    exact ⟨given, spells_iff.mp hspells⟩
  have hcollects := hparser.collected h (spells_iff.mpr hspells)
  refine ⟨⟨a.expression, hcollects.expression, ?_⟩, ?_⟩
  · intro htokens read source bindings constants hsource hbindings hconstants engine
    have hread : a.source read = .ok source := by
      rw [Arguments.source]
      by_cases hfile : Given.switch .file ∈ given
      · rw [if_pos hfile] at hsource
        obtain ⟨text, htext, htrimmed⟩ := hsource
        rw [if_pos (hcollects.file.mpr hfile), htext, ← htrimmed.trimLineEnds_eq]
        rfl
      · rw [if_neg hfile] at hsource
        rw [if_neg (mt hcollects.file.mp hfile), hsource]
    have hvalue : a.value source = Arguments.printed (engine.evaluate source bindings).result := by
      have hsame : a.engine.Same engine := by
        refine ⟨fun name ↦ ?_, fun _ ↦ rfl, hcollects.options.symm⟩
        rw [hconstants, Arguments.engine, Table.get?_ofList, hcollects.constants]
      rw [Arguments.value_eq, hsame.result_eq source fun name ↦ ?_]
      rw [hbindings, Table.get?_ofList, hcollects.bindings]
    have hprints : parser.run arguments read = a.value source := by
      rw [ArgumentParser.run_of_ok h, Arguments.outcome, hread]
      exact if_neg (mt hcollects.tokens.mp htokens)
    rw [hprints, hvalue]
    cases (engine.evaluate source bindings).result <;> rfl
  · intro arguments' a' given' h' hspells' hperm hvariables hconstants read
    have hcollects' := hparser.collected h' (spells_iff.mpr hspells')
    rw [ArgumentParser.run_of_ok h, ArgumentParser.run_of_ok h']
    exact (hcollects.alike hcollects' hperm hvariables hconstants).outcome_eq read

/-- Neither the constant nor the first of the two variables counts, wherever the options are: under
either of them the operand would not be passed over, and its name has no value. A group is within a
limit of two, and not within a limit of one. -/
theorem run_accepted_mixed :
    let mixed : List String := ["--var", "x=", "--const=x=false", "--strict", "--max-depth", "+2",
      "--var= x =b", "--short-circuit", "x or (y)"]
    let moved : List String := ["x or (y)", "--max-depth=2", "--short-circuit", "--const",
      "x=false", "--var=x=", "--var", " x =b", "--strict"]
    let limited : List String := ["-f", "--max-depth=1", "rule"]
    let a : Arguments := {
      bindings := [("x", .text ""), ("x", .text "b")], constants := [("x", .boolean false)]
      file := false, tokens := false, strict := true, shortCircuit := true, maxDepth := 2
      expression := "x or (y)" }
    let b : Arguments := {
      bindings := [], constants := [], file := true, tokens := false, strict := false
      shortCircuit := false, maxDepth := 1, expression := "rule" }
    let parser := ArgumentParser.ofLines [(mixed, a), (moved, a), (limited, b)]
    (∀ read, parser.run mixed read = { status := 0, output := "true\n", complaint := "" }) ∧
    (∀ read, parser.run moved read = parser.run mixed read) ∧
    ∀ read, read "rule" = .ok "(true)\r\n" → parser.run limited read
      = { status := 1, output := "", complaint := "Failed to evaluate expression \"(true)\": "
          ++ "Error at offset 1: Expression nesting exceeds the limit of 1.\n" } := by
  intro mixed moved limited a b parser
  have hplain {s : String} (h : s.toList.head? ≠ some '-') : IsPlain s := fun c cs hs ↦
    h (congrArg List.head? hs)
  have hname : Bindable "x" :=
    { ne_empty := by decide
      no_equals := by decide
      begins := by rintro _ ⟨⟩; decide
      ends := by rintro _ ⟨⟩; decide }
  have hempty : Setting.Gives WritesBinding .variable "x=" (.variable "x" (.text "")) :=
    .bindsVariable (.intro "" "" "" hname (by simp) (by simp))
  have hblanks : Setting.Gives WritesBinding .variable " x =b" (.variable "x" (.text "b")) :=
    .bindsVariable (.intro " " " " "b" hname (List.all_eq_true.mp rfl) (List.all_eq_true.mp rfl))
  have hconstant : Setting.Gives WritesBinding .constant "x=false"
      (.constant "x" (.boolean false)) :=
    .bindsConstant (.intro "" "" "false" hname (by simp) (by simp))
  have hdepth {written : String} (h : written = "2" ∨ written = "+2") :
      Setting.Gives WritesBinding .maxDepth written (.maxDepth 2) := by
    rcases h with rfl | rfl
    · exact .limits (.intro "2" (.inl rfl) (by decide) (List.all_eq_true.mp rfl) (by decide))
    · exact .limits (.intro "2" (.inr rfl) (by decide) (List.all_eq_true.mp rfl) (by decide))
  have hlimit : Setting.Gives WritesBinding .maxDepth "1" (.maxDepth 1) :=
    .limits (.intro "1" (.inl rfl) (by decide) (List.all_eq_true.mp rfl) (by decide))
  have hmixed : Spells WritesBinding mixed
      [.variable "x" (.text ""), .constant "x" (.boolean false), .switch .strict, .maxDepth 2,
        .variable "x" (.text "b"), .switch .shortCircuit, .expression "x or (y)"] :=
    .apart (s := .variable) (hplain (by decide)) hempty
      (.attached (s := .constant) hconstant
        (.long .strict
          (.apart (s := .maxDepth) (hplain (by decide)) (hdepth (.inr rfl))
            (.attached (s := .variable) hblanks
              (.long .shortCircuit
                (.expression (hplain (by decide)) .nil))))))
  have hmoved : Spells WritesBinding moved
      [.expression "x or (y)", .maxDepth 2, .switch .shortCircuit,
        .constant "x" (.boolean false), .variable "x" (.text ""), .variable "x" (.text "b"),
        .switch .strict] :=
    .expression (hplain (by decide))
      (.attached (s := .maxDepth) (hdepth (.inl rfl))
        (.long .shortCircuit
          (.apart (s := .constant) (hplain (by decide)) hconstant
            (.attached (s := .variable) hempty
              (.apart (s := .variable) (hplain (by decide)) hblanks
                (.long .strict .nil))))))
  have hletters : List.Forall₂ (fun c s ↦ Switch.letter? s = some c) ['f'] [.file] :=
    .cons rfl .nil
  have hlimited : Spells WritesBinding limited
      [.switch .file, .maxDepth 1, .expression "rule"] :=
    .short (by simp) hletters
      (.attached (s := .maxDepth) hlimit
        (.expression (hplain (by decide)) .nil))
  have hparser : parser.IsFaithful := by
    refine ArgumentParser.isFaithful_ofLines ?_
    simp only [List.forall_mem_cons]
    refine ⟨⟨_, hmixed, ?_⟩, ⟨_, hmoved, ?_⟩, ⟨_, hlimited, ?_⟩, by simp⟩ <;>
      exact ⟨rfl, rfl, by decide, by decide, by decide, by decide, .inr rfl, rfl⟩
  obtain ⟨⟨e, he, hvalue⟩, horder⟩ := (run_accepted hparser (a := a) rfl).2 _ hmixed
  obtain rfl : "x or (y)" = e := (List.cons.inj he).1
  obtain ⟨⟨e', he', hvalue'⟩, -⟩ := (run_accepted hparser (a := b) rfl).2 _ hlimited
  obtain rfl : "rule" = e' := (List.cons.inj he').1
  refine ⟨fun read ↦ ?_, fun read ↦ ?_, fun read hread ↦ ?_⟩
  · have hsource : "x or (y)" = "x or (y)" := rfl
    exact hvalue (by decide) read "x or (y)" _ _ hsource (Table.get?_ofList _) (Table.get?_ofList _)
  · exact horder _ _ _ rfl hmoved (by decide) (fun _ ↦ rfl) (fun _ ↦ rfl) read
  · have hends : WithoutLineEnds "(true)\r\n" "(true)" :=
      ⟨⟨['\r', '\n'], rfl, by simp⟩, by rintro _ ⟨⟩; decide⟩
    exact hvalue' (by decide) read "(true)" ∅ ∅ ⟨_, hread, hends⟩ (fun _ ↦ rfl) fun _ ↦ rfl

end CommandLine

end Formula
