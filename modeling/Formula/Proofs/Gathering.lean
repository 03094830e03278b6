import Formula.CommandLine.Outcome
import Formula.Proofs.Arguments

/-!
# The reader gathers what is given

The reader of command lines that the program is run with is one that the program can rely on
(`isFaithful_reader`).

It puts off the check of a value that is an argument of its own, so what it has taken in at some
point is not what the arguments up to there give. It is once the value that is pending is taken in
as well (`Reading.settled?`), and then reading the arguments that spell a list comes to gathering
what is in the list (`Spells.readAll?`). Reading fails on arguments that spell nothing
(`exists_spells`).
-/

namespace Formula.CommandLine

namespace Given

def asSwitch? : Given → Option Switch
  | .switch s => some s
  | _ => none

def asLogLevel? : Given → Option String
  | .logLevel filter => some filter
  | _ => none

theorem asSwitch?_eq_some_iff {g : Given} {s : Switch} : g.asSwitch? = some s ↔ g = .switch s := by
  cases g <;> simp [asSwitch?]

end Given

/-! ## Names and depths as they are declared -/

theorem longOption?_switch (s : Switch) : longOption? s.name = some (.switch s) := by
  cases s <;> rfl

theorem longOption?_setting (s : Setting) : longOption? s.name = some (.setting s) := by
  cases s <;> rfl

theorem name_of_longOption? {name : String} {kind : OptionKind} (h : longOption? name = some kind) :
    (∀ s, kind = .switch s → name = s.name) ∧ ∀ s, kind = .setting s → name = s.name := by
  obtain ⟨before, behind, hnames, -⟩ := List.lookup_eq_some_iff.mp h
  have hall : ∀ p ∈ before ++ (name, kind) :: behind,
      (∀ s, p.2 = .switch s → p.1 = s.name) ∧ ∀ s, p.2 = .setting s → p.1 = s.name := by
    rw [← hnames]
    simp [Switch.name, Setting.name]
  exact hall (name, kind) (by simp)

theorem shortOption?_eq_some_iff {c : Char} {s : Switch} :
    shortOption? c = some (.switch s) ↔ s.letter? = some c := by
  unfold shortOption?
  cases s <;> split <;> simp_all [Switch.letter?, eq_comm]

theorem dropPlus_eq {sign digits : String} (hsign : sign = "" ∨ sign = "+")
    (hdigits : ∀ c ∈ digits.toList, c.isDigit) :
    dropPlus (sign ++ digits).toList = digits.toList := by
  rcases hsign with rfl | rfl
  · rw [String.empty_append]
    unfold dropPlus
    split
    · next cs heq => exact absurd (hdigits '+' (heq ▸ List.mem_cons_self)) (by decide)
    · rfl
  · rw [String.toList_append]
    rfl

theorem exists_sign_dropPlus (s : String) :
    ∃ sign, (sign = "" ∨ sign = "+") ∧ sign ++ String.ofList (dropPlus s.toList) = s := by
  unfold dropPlus
  split
  · next cs heq =>
    refine ⟨"+", .inr rfl, String.toList_inj.mp ?_⟩
    simp [heq]
  · exact ⟨"", .inl rfl, by simp⟩

/-- **The depths that are read are those that are written as depths.** -/
theorem parseDepth?_eq_some_iff {written : String} {n : Nat} :
    parseDepth? written = some n ↔ WritesDepth written n := by
  constructor
  · intro h
    obtain ⟨sign, hsign, hwritten⟩ := exists_sign_dropPlus written
    simp only [parseDepth?, Option.ite_none_left_eq_some, Option.ite_none_right_eq_some,
      Bool.or_eq_true, not_or, Bool.not_eq_true', Bool.not_eq_true, Bool.not_eq_false,
      List.all_eq_true, Option.some.injEq] at h
    obtain ⟨⟨hempty, hdigits⟩, hfits, rfl⟩ := h
    have hdigits' : ∀ c ∈ (String.ofList (dropPlus written.toList)).toList, c.isDigit := by
      rw [String.toList_ofList]
      exact hdigits
    have hwrites := WritesDepth.intro _ hsign (by simpa using hempty) hdigits'
      (by rw [String.toList_ofList]; exact hfits)
    rw [hwritten, String.toList_ofList] at hwrites
    exact hwrites
  · rintro @⟨sign, digits, hsign, hne, hdigits, hfits⟩
    have hempty : digits.toList.isEmpty = false := by simpa using hne
    have hall : digits.toList.all Char.isDigit = true := List.all_eq_true.mpr hdigits
    simp only [parseDepth?, dropPlus_eq hsign hdigits, hempty, hall, Bool.not_true, Bool.or_false,
      Bool.false_eq_true, if_false]
    exact if_pos hfits

/-! ## Gathering -/

namespace Taken

/-- Takes in one more thing that is given, if it may be given once more. -/
def take? (a : Taken) : Given → Option Taken
  | .variable name value => some { a with bindings := a.bindings ++ [(name, value)] }
  | .constant name value => some { a with constants := a.constants ++ [(name, value)] }
  | .switch s => if s ∈ a.switches then none else some { a with switches := a.switches ++ [s] }
  | .maxDepth n => if a.maxDepth.isSome then none else some { a with maxDepth := some n }
  | .logLevel filter => if a.logLevel.isSome then none else some { a with logLevel := some filter }
  | .expression text =>
    if a.expression.isSome then none else some { a with expression := some text }

/-- Takes in all that is given. -/
def gather? (a : Taken) (given : List Given) : Option Taken := given.foldlM take? a

@[simp] theorem gather?_nil (a : Taken) : a.gather? [] = some a := rfl

@[simp] theorem gather?_cons (a : Taken) (g : Given) (given : List Given) :
    a.gather? (g :: given) = (a.take? g).bind (·.gather? given) := rfl

theorem gather?_append (a : Taken) (given given' : List Given) :
    a.gather? (given ++ given') = (a.gather? given).bind (·.gather? given') := by
  simp only [gather?, List.foldlM_append]
  rfl

/-- What arguments are once all that is given is taken in with them. -/
structure Extends (a : Taken) (given : List Given) (b : Taken) : Prop where
  bindings : b.bindings = a.bindings ++ given.filterMap Given.asVariable?
  constants : b.constants = a.constants ++ given.filterMap Given.asConstant?
  switches : b.switches = a.switches ++ given.filterMap Given.asSwitch?
  maxDepth : b.maxDepth.toList = a.maxDepth.toList ++ given.filterMap Given.asDepth?
  logLevel : b.logLevel.toList = a.logLevel.toList ++ given.filterMap Given.asLogLevel?
  expression : b.expression.toList = a.expression.toList ++ given.filterMap Given.asExpression?

theorem extends_take? {a b : Taken} {g : Given} (h : a.take? g = some b) :
    a.Extends [g] b := by
  cases g <;> constructor <;> grind [take?, Given.asVariable?, Given.asConstant?, Given.asSwitch?,
    Given.asDepth?, Given.asLogLevel?, Given.asExpression?, Option.not_isSome_iff_eq_none]

/-- A part that every single thing extends by what it is for that part. -/
theorem part_gather? {β : Type} (part : Taken → List β) (f : Given → Option β)
    (hstep : ∀ {a b : Taken} {g : Given}, a.Extends [g] b →
      part b = part a ++ [g].filterMap f) (given : List Given) : ∀ {a b : Taken},
        a.gather? given = some b → part b = part a ++ given.filterMap f := by
  induction given with
  | nil =>
    rintro a _ ⟨⟩
    simp
  | cons g given ih =>
    intro a b h
    obtain ⟨a', ha', h'⟩ := Option.bind_eq_some_iff.mp h
    rw [ih h', hstep (extends_take? ha'), List.append_assoc, ← List.filterMap_append]
    rfl

/-- **Gathering keeps the order in which bindings are given, and takes one of everything else.** -/
theorem extends_gather? {given : List Given} {a b : Taken} (h : a.gather? given = some b) :
    a.Extends given b where
  bindings := part_gather? bindings _ Extends.bindings given h
  constants := part_gather? constants _ Extends.constants given h
  switches := part_gather? switches _ Extends.switches given h
  maxDepth := part_gather? (maxDepth · |>.toList) _ Extends.maxDepth given h
  logLevel := part_gather? (logLevel · |>.toList) _ Extends.logLevel given h
  expression := part_gather? (expression · |>.toList) _ Extends.expression given h

theorem toOption_addSwitch (a : Taken) (s : Switch) (written : String) :
    (a.addSwitch s written).toOption = a.take? (.switch s) := by
  simp only [addSwitch, take?, List.contains_iff_mem]
  split <;> rfl

/-- A value is taken in as what the option gives with it. -/
theorem toOption_addSetting {value : String} {s : Setting} {g : Given}
    (h : s.Gives ReadsBinding value g) (a : Taken) :
    (a.addSetting value s).toOption = a.take? g := by
  cases h with
  | bindsVariable h | bindsConstant h =>
    rw [addSetting, h]
    rfl
  | limits h =>
    simp only [addSetting, take?, parseDepth?_eq_some_iff.mpr h]
    split <;> rfl
  | filters =>
    simp only [addSetting, take?]
    split <;> rfl

/-- A value with which an option gives nothing is not taken in. -/
theorem exists_gives {a : Taken} {value : String} {s : Setting}
    (h : (a.addSetting value s).toOption.isSome) : ∃ g, s.Gives ReadsBinding value g := by
  cases s with
  | maxDepth =>
    cases hdepth : parseDepth? value with
    | some n => exact ⟨_, .limits (parseDepth?_eq_some_iff.mp hdepth)⟩
    | none =>
      simp only [addSetting, hdepth] at h
      split at h <;> exact absurd h Bool.false_ne_true
  | logLevel => exact ⟨_, .filters value⟩
  | _ =>
    cases hbinding : parseBinding value with
    | ok binding =>
      exact ⟨_, by constructor; exact hbinding⟩
    | error e =>
      rw [addSetting, hbinding] at h
      exact absurd h Bool.false_ne_true

end Taken

/-! ## Reading -/

theorem toOption_bind {ε α β : Type} (x : Except ε α) (f : α → Except ε β) :
    (x >>= f).toOption = x.toOption.bind fun a ↦ (f a).toOption := by
  cases x <;> rfl

namespace Reading

/-- What has been taken in once the value that is pending is taken in as well. -/
def settled? (r : Reading) : Option Taken := r.settle.toOption.map Reading.taken

/-- What has been taken in when all arguments are read, and the value that is then pending is taken
in as well. -/
def readAll? (r : Reading) (arguments : List String) : Option Taken :=
  (arguments.foldlM take r).toOption.bind settled?

/-- Where nothing is pending. -/
def resting (ended : Bool) (a : Taken) : Reading := { taken := a, optionsEnded := ended }

/-- Where no option waits for its value. -/
def IsReady (r : Reading) : Prop := ∀ s, r.pending ≠ some (s, none)

variable {r : Reading}

theorem isReady_resting (ended : Bool) (a : Taken) : (resting ended a).IsReady :=
  fun s ↦ by simp [resting]

@[simp] theorem settled?_resting (ended : Bool) (a : Taken) :
    (resting ended a).settled? = some a := rfl

theorem readAll?_nil (r : Reading) : r.readAll? [] = r.settled? := rfl

theorem readAll?_cons (r : Reading) (argument : String) (arguments : List String) :
    r.readAll? (argument :: arguments)
      = (r.take argument).toOption.bind (·.readAll? arguments) := by
  rw [readAll?, List.foldlM_cons, toOption_bind, Option.bind_assoc]
  rfl

theorem toOption_settle (r : Reading) :
    r.settle.toOption = r.settled?.map (resting r.optionsEnded) := by
  unfold settled? settle
  split
  · obtain ⟨taken, pending, ended⟩ := r
    obtain rfl : pending = none := ‹_›
    rfl
  · rfl
  · next s value _ => cases r.taken.addSetting value s <;> rfl

theorem settled?_of_waits {s : Setting} (h : r.pending = some (s, none)) : r.settled? = none := by
  rw [settled?, settle, h]
  rfl

theorem toOption_takeSwitch (r : Reading) (s : Switch) (written : String) :
    (r.takeSwitch s written).toOption
      = (r.settled?.bind (·.take? (.switch s))).map (resting r.optionsEnded) := by
  rw [takeSwitch, toOption_bind, toOption_settle]
  cases r.settled? with
  | none => rfl
  | some a =>
    rw [Option.map_some, Option.bind_some, Option.bind_some, toOption_bind]
    change ((a.addSwitch s written).toOption.bind _) = _
    rw [a.toOption_addSwitch]
    cases a.take? (.switch s) <;> rfl

theorem takeShorts_cons {c : Char} {s : Switch} (h : s.letter? = some c)
    (r : Reading) (written : String) (cs : List Char) :
    r.takeShorts written (c :: cs)
      = (r.takeSwitch s written >>= fun r ↦ r.takeShorts written cs) := by
  rw [takeShorts, shortOption?_eq_some_iff.mpr h]

theorem toOption_takeShorts_resting {cs : List Char} {switches : List Switch}
    (h : List.Forall₂ (fun c s ↦ s.letter? = some c) cs switches) (ended : Bool)
    (written : String) : ∀ a : Taken, ((resting ended a).takeShorts written cs).toOption
      = (a.gather? (switches.map .switch)).map (resting ended) := by
  induction h with
  | nil => exact fun a ↦ rfl
  | cons hc _ ih =>
    intro a
    rw [takeShorts_cons hc, toOption_bind, toOption_takeSwitch, settled?_resting, Option.bind_some,
      List.map_cons, Taken.gather?_cons]
    cases a.take? _ with
    | none => rfl
    | some b => exact ih b

theorem toOption_takeShorts {cs : List Char} {switches : List Switch} (hne : cs ≠ [])
    (h : List.Forall₂ (fun c s ↦ s.letter? = some c) cs switches) (r : Reading)
    (written : String) : (r.takeShorts written cs).toOption
      = (r.settled?.bind (·.gather? (switches.map .switch))).map (resting r.optionsEnded) := by
  cases h with
  | nil => exact absurd rfl hne
  | cons hc h =>
    rw [takeShorts_cons hc, toOption_bind, toOption_takeSwitch]
    cases r.settled? with
    | none => rfl
    | some a =>
      rw [List.map_cons, Option.bind_some, Option.bind_some, Taken.gather?_cons]
      cases a.take? _ with
      | none => rfl
      | some b => exact toOption_takeShorts_resting h r.optionsEnded written b

/-- Taking in what is pending does not touch the expression. -/
theorem expression_settled? {a : Taken} (h : r.settled? = some a) :
    a.expression = r.taken.expression := by
  unfold settled? settle at h
  split at h
  · obtain rfl := Option.some.inj h
    rfl
  · exact absurd h (by simp [Except.toOption])
  · next s value hpending =>
    obtain ⟨r', hr', rfl⟩ := Option.map_eq_some_iff.mp h
    rw [toOption_bind] at hr'
    obtain ⟨b, hb, hr'⟩ := Option.bind_eq_some_iff.mp hr'
    obtain rfl := Option.some.inj hr'
    have hgives := Taken.exists_gives (Option.isSome_of_mem hb)
    obtain ⟨g, hg⟩ := hgives
    rw [Taken.toOption_addSetting hg] at hb
    cases hg <;> simp only [Taken.take?, Option.ite_none_left_eq_some, Option.some.injEq] at hb
    · exact hb ▸ rfl
    · exact hb ▸ rfl
    · exact hb.2 ▸ rfl
    · exact hb.2 ▸ rfl

theorem toOption_takeExpression (r : Reading) (argument : String) :
    (r.takeExpression argument).toOption
      = (r.settled?.bind (·.take? (.expression argument))).map (resting r.optionsEnded) := by
  unfold takeExpression
  by_cases hexpression : r.taken.expression.isSome
  · rw [if_pos hexpression]
    cases ha : r.settled? with
    | none => rfl
    | some a =>
      have ha' : a.expression.isSome := expression_settled? ha ▸ hexpression
      simp only [Option.bind_some, Taken.take?, if_pos ha']
      rfl
  · rw [if_neg hexpression, toOption_bind, toOption_settle]
    cases ha : r.settled? with
    | none => rfl
    | some a =>
      have ha' : ¬a.expression.isSome := expression_settled? ha ▸ hexpression
      simp only [Option.map_some, Option.bind_some, Taken.take?, if_neg ha']
      rfl

/-! ### One argument -/

/-- The reader takes an argument for what it is at a first look. -/
theorem take_eq (hr : r.optionsEnded = false) (argument : String) :
    r.take argument = match look argument with
      | .plain => r.takePlain argument
      | .short cs => r.takeShorts argument cs
      | .long name value? => r.takeLong (String.ofList name) (value?.map String.ofList) argument
      | .ended => .ok { r with optionsEnded := true } := by
  rw [take, if_neg (by simp [hr])]
  fun_cases look argument <;> simp_all

theorem take_plain (hr : r.optionsEnded = false) {argument : String} (h : IsPlain argument) :
    r.take argument = r.takePlain argument := by
  rw [take_eq hr, look_plain h]

theorem take_ended (hr : r.optionsEnded = false) :
    r.take "--" = .ok { r with optionsEnded := true } := take_eq hr "--"

/-! ### All arguments -/

/-- A reading that goes on behind what is given there. -/
theorem bind_readAll? (new : List Given) {arguments : List String} {given : List Given}
    {x : Option Taken} (h : ∀ a, (resting false a).readAll? arguments = a.gather? given) :
    ((x.bind (·.gather? new)).map (resting false)).bind (·.readAll? arguments)
      = x.bind (·.gather? (new ++ given)) := by
  simp only [Option.bind_map, Option.bind_assoc, Taken.gather?_append, Function.comp_def, h]

theorem readAll?_of_optionsEnded (arguments : List String) : ∀ {r : Reading},
    r.optionsEnded = true →
      r.readAll? arguments = r.settled?.bind (·.gather? (arguments.map .expression)) := by
  induction arguments with
  | nil => exact fun _ ↦ by simp [readAll?_nil]
  | cons argument arguments ih =>
    intro r hr
    have htake : r.take argument = r.takeExpression argument := by rw [take, if_pos hr]
    rw [readAll?_cons, htake, toOption_takeExpression, hr, List.map_cons, Option.bind_map,
      Option.bind_assoc]
    refine congrArg (Option.bind _) (funext fun a ↦ ?_)
    rw [Taken.gather?_cons]
    refine congrArg (Option.bind _) (funext fun b ↦ ?_)
    exact ih rfl

theorem settled?_optionsEnded (r : Reading) (ended : Bool) :
    { r with optionsEnded := ended }.settled? = r.settled? := by
  obtain ⟨taken, pending, -⟩ := r
  rcases pending with _ | ⟨s, _ | value⟩
  · rfl
  · rfl
  · rw [settled?, settled?]
    cases h : taken.addSetting value s <;> simp only [settle, h] <;> rfl

theorem takePlain_of_isReady (h : r.IsReady) (argument : String) :
    r.takePlain argument = r.takeExpression argument := by
  unfold takePlain
  split
  · next s hs => exact absurd hs (h s)
  · rfl

theorem toOption_take_long (hr : r.optionsEnded = false) (s : Switch) :
    (r.take ("--" ++ s.name)).toOption
      = (r.settled?.bind (·.take? (.switch s))).map (resting false) := by
  rw [take_eq hr, look_switch]
  simp only [takeLong, String.ofList_toList, longOption?_switch, Option.map_none]
  rw [toOption_takeSwitch, hr]

theorem toOption_take_attached (hr : r.optionsEnded = false) {s : Setting} {value : String}
    {g : Given} (hvalue : s.Gives ReadsBinding value g) :
    (r.take ("--" ++ s.name ++ "=" ++ value)).toOption
      = (r.settled?.bind (·.take? g)).map (resting false) := by
  rw [take_eq hr, look_attached]
  simp only [takeLong, String.ofList_toList, longOption?_setting, Option.map_some]
  rw [toOption_bind, toOption_settle, hr]
  cases r.settled? with
  | none => rfl
  | some a =>
    rw [Option.bind_some, ← Taken.toOption_addSetting hvalue]
    change ((a.addSetting value s) >>= _).toOption = _
    cases a.addSetting value s <;> rfl

/-- An option whose value comes next takes in nothing yet. -/
theorem toOption_take_waiting (hr : r.optionsEnded = false) (s : Setting) :
    (r.take ("--" ++ s.name)).toOption
      = r.settled?.map fun a ↦ { resting false a with pending := some (s, none) } := by
  rw [take_eq hr, look_setting]
  simp only [takeLong, String.ofList_toList, longOption?_setting, Option.map_none]
  rw [toOption_bind, toOption_settle, hr]
  cases r.settled? <;> rfl

theorem toOption_take_short (hr : r.optionsEnded = false) {cs : List Char} {switches : List Switch}
    (hne : cs ≠ []) (h : List.Forall₂ (fun c s ↦ s.letter? = some c) cs switches) :
    (r.take (String.ofList ('-' :: cs))).toOption
      = (r.settled?.bind (·.gather? (switches.map .switch))).map (resting false) := by
  rw [take_eq hr, look_short hne h, ← hr]
  exact toOption_takeShorts hne h r _

end Reading

open Reading in
/-- **Reading arguments that spell what is given comes to gathering it.** -/
theorem Spells.readAll? {arguments : List String} {given : List Given}
    (h : Spells ReadsBinding arguments given) :
    ∀ {r : Reading}, r.optionsEnded = false → r.IsReady →
      r.readAll? arguments = r.settled?.bind (·.gather? given) := by
  have hrest {arguments : List String} {given : List Given}
      (ih : ∀ {r : Reading}, r.optionsEnded = false → r.IsReady →
        r.readAll? arguments = r.settled?.bind (·.gather? given)) (a : Taken) :
      (resting false a).readAll? arguments = a.gather? given := ih rfl (isReady_resting false a)
  induction h with
  | nil => exact fun _ _ ↦ by simp [readAll?_nil]
  | expression h _ ih =>
    intro r hr hready
    rw [readAll?_cons, take_plain hr h, takePlain_of_isReady hready, toOption_takeExpression, hr]
    simpa using bind_readAll? [_] (hrest ih)
  | short hne h _ ih =>
    intro r hr _
    rw [readAll?_cons, toOption_take_short hr hne h]
    exact bind_readAll? _ (hrest ih)
  | long s _ ih =>
    intro r hr _
    rw [readAll?_cons, toOption_take_long hr s]
    simpa using bind_readAll? [_] (hrest ih)
  | attached hvalue _ ih =>
    intro r hr _
    rw [readAll?_cons, toOption_take_attached hr hvalue]
    simpa using bind_readAll? [_] (hrest ih)
  | @apart s value g _ _ hplain hvalue _ ih =>
    intro r hr _
    rw [readAll?_cons, toOption_take_waiting hr s, Option.bind_map]
    refine congrArg (Option.bind _) (funext fun a ↦ ?_)
    -- the value is kept with its option, and taken in by whatever comes next
    have hnext : ({ resting false a with pending := some (s, some value) } : Reading).settled?
        = a.take? g := by
      rw [← Taken.toOption_addSetting hvalue, settled?, settle]
      change Option.map _ ((a.addSetting value s) >>= _).toOption = _
      cases a.addSetting value s <;> rfl
    have hwaiting : ({ resting false a with pending := some (s, none) } : Reading).take value
        = .ok { resting false a with pending := some (s, some value) } := take_plain rfl hplain
    rw [Function.comp_apply, readAll?_cons, hwaiting, Taken.gather?_cons, ← hnext]
    exact ih rfl fun s' ↦ by simp
  | ended arguments =>
    intro r hr _
    rw [readAll?_cons, take_ended hr]
    exact (readAll?_of_optionsEnded arguments rfl).trans (by rw [settled?_optionsEnded])

/-! ### Arguments that are read -/

/-- How an argument with a given look is written. -/
theorem written_of_look (argument : String) : match look argument with
    | .plain => IsPlain argument
    | .short cs => cs ≠ [] ∧ argument = String.ofList ('-' :: cs)
    | .long name none => argument = "--" ++ String.ofList name
    | .long name (some value) =>
      argument = "--" ++ String.ofList name ++ "=" ++ String.ofList value
    | .ended => argument = "--" := by
  fun_cases look argument with
  | case1 h => exact String.toList_inj.mp h
  | case2 body _ h name value hsplit =>
    apply String.toList_inj.mp
    simp [h, (eq_of_splitAtEquals? hsplit).1]
  | case3 body _ h _ =>
    apply String.toList_inj.mp
    simp [h]
  | case4 c cs _ _ h => exact ⟨by simp, by rw [← h, String.ofList_toList]⟩
  | case5 _ _ h => exact h

namespace Reading

variable {r : Reading} {written : String}

theorem exists_switches (cs : List Char) : ∀ {r : Reading},
    (r.takeShorts written cs).toOption.isSome →
      ∃ switches : List Switch, List.Forall₂ (fun c s ↦ s.letter? = some c) cs switches := by
  induction cs with
  | nil => exact fun _ ↦ ⟨[], .nil⟩
  | cons c cs ih =>
    intro r h
    cases hc : shortOption? c with
    | none => exact absurd h (by simp [takeShorts, hc, Except.toOption])
    | some kind =>
      cases kind with
      | switch s =>
        have hletter := shortOption?_eq_some_iff.mp hc
        rw [takeShorts_cons hletter, toOption_bind] at h
        obtain ⟨b, hb⟩ := Option.isSome_iff_exists.mp h
        obtain ⟨r', -, hr'⟩ := Option.bind_eq_some_iff.mp hb
        obtain ⟨switches, hswitches⟩ := ih (Option.isSome_of_mem hr')
        exact ⟨s :: switches, .cons hletter hswitches⟩
      | setting s => exact absurd h (by simp [takeShorts, hc, Except.toOption])
      | query q =>
        simp only [takeShorts, hc, toOption_bind] at h
        exact absurd h (by cases r.settle.toOption <;> exact Bool.false_ne_true)

/-- While an option waits for its value, no other option is taken up. -/
theorem take_of_settled?_eq_none (hr : r.optionsEnded = false) (h : r.settled? = none)
    {argument : String} {later : List String}
    (hread : ((r.take argument).toOption.bind (·.readAll? later)).isSome) : IsPlain argument := by
  have hsettle : r.settle.toOption = none := by
    rw [toOption_settle, h]
    rfl
  have hswitch (s : Switch) (written : String) : (r.takeSwitch s written).toOption = none := by
    rw [toOption_takeSwitch, h]
    rfl
  have hwritten := written_of_look argument
  rw [take_eq hr] at hread
  cases hlook : look argument with
  | plain =>
    rw [hlook] at hwritten
    exact hwritten
  | ended =>
    rw [hlook] at hread
    change (Reading.readAll? _ later).isSome at hread
    rw [readAll?_of_optionsEnded later rfl, settled?_optionsEnded, h] at hread
    exact absurd hread Bool.false_ne_true
  | long name value? =>
    have hnone : (r.takeLong (String.ofList name) (value?.map String.ofList) argument).toOption
        = none := by
      unfold takeLong
      split
      · rfl
      · exact hswitch _ _
      · rfl
      · rfl
      all_goals
        rw [toOption_bind, hsettle]
        rfl
    simp only [hlook, hnone] at hread
    exact absurd hread Bool.false_ne_true
  | short cs =>
    rw [hlook] at hwritten
    obtain ⟨c, cs, rfl⟩ := List.exists_cons_of_ne_nil hwritten.1
    have hnone : (r.takeShorts argument (c :: cs)).toOption = none := by
      unfold takeShorts
      split
      · rw [toOption_bind, hswitch]
        rfl
      · rw [toOption_bind, hsettle]
        rfl
      · rfl
      · rfl
    simp only [hlook, hnone] at hread
    exact absurd hread Bool.false_ne_true

theorem exists_option {name : String} (h : (r.takeLong name none written).toOption.isSome) :
    (∃ s : Switch, name = s.name) ∨ ∃ s : Setting, name = s.name := by
  cases hname : longOption? name with
  | none => exact absurd h (by simp [takeLong, hname, Except.toOption])
  | some kind =>
    cases kind with
    | switch s => exact .inl ⟨s, (name_of_longOption? hname).1 s rfl⟩
    | setting s => exact .inr ⟨s, (name_of_longOption? hname).2 s rfl⟩
    | query q =>
      simp only [takeLong, hname, toOption_bind] at h
      exact absurd h (by cases r.settle.toOption <;> exact Bool.false_ne_true)

theorem exists_attached {name value : String}
    (h : (r.takeLong name (some value) written).toOption.isSome) :
    ∃ (s : Setting) (g : Given), name = s.name ∧ s.Gives ReadsBinding value g := by
  cases hname : longOption? name with
  | none => exact absurd h (by simp [takeLong, hname, Except.toOption])
  | some kind =>
    cases kind with
    | switch s => exact absurd h (by simp [takeLong, hname, Except.toOption])
    | query q => exact absurd h (by simp [takeLong, hname, Except.toOption])
    | setting s =>
      simp only [takeLong, hname, toOption_bind] at h
      obtain ⟨b, hb⟩ := Option.isSome_iff_exists.mp h
      obtain ⟨r', -, hr'⟩ := Option.bind_eq_some_iff.mp hb
      obtain ⟨a, ha, -⟩ := Option.bind_eq_some_iff.mp hr'
      obtain ⟨g, hg⟩ := Taken.exists_gives (Option.isSome_of_mem ha)
      exact ⟨s, g, (name_of_longOption? hname).2 s rfl, hg⟩

/-- What is pending when arguments are read gives something. -/
theorem gives_of_pending {s : Setting} {value : String} {later : List String} {given : List Given}
    (hr : r.optionsEnded = false) (hpending : r.pending = some (s, some value))
    (hspells : Spells ReadsBinding later given) (hread : (r.readAll? later).isSome) :
    ∃ g, s.Gives ReadsBinding value g := by
  have hready : r.IsReady := fun s' ↦ by simp [hpending]
  rw [hspells.readAll? hr hready] at hread
  cases hsettled : r.settled? with
  | none => exact absurd hread (by simp [hsettled])
  | some a =>
    rw [settled?, settle, hpending] at hsettled
    obtain ⟨r', hr', -⟩ := Option.map_eq_some_iff.mp hsettled
    rw [toOption_bind] at hr'
    obtain ⟨b, hb, -⟩ := Option.bind_eq_some_iff.mp hr'
    exact Taken.exists_gives (Option.isSome_of_mem hb)

/-- Arguments that are read spell something, behind an option that waits for its value in the same
way as where none does. -/
theorem exists_spells_behind (arguments : List String) : ∀ {r : Reading}, r.optionsEnded = false →
    (r.readAll? arguments).isSome →
      (r.IsReady → ∃ given, Spells ReadsBinding arguments given) ∧
      ∀ s, r.pending = some (s, none) → ∃ value later g given, arguments = value :: later ∧
        IsPlain value ∧ s.Gives ReadsBinding value g ∧ Spells ReadsBinding later given := by
  induction arguments with
  | nil =>
    intro r _ hread
    refine ⟨fun _ ↦ ⟨[], .nil⟩, fun s hs ↦ ?_⟩
    rw [readAll?_nil, settled?_of_waits hs] at hread
    exact absurd hread Bool.false_ne_true
  | cons argument later ih =>
    intro r hr hread
    have hresting {x : Option Taken}
        (hread : ((x.map (resting false)).bind (·.readAll? later)).isSome) :
        ∃ given, Spells ReadsBinding later given := by
      obtain ⟨a, ha⟩ := Option.isSome_iff_exists.mp hread
      obtain ⟨r', hr', hread'⟩ := Option.bind_eq_some_iff.mp ha
      obtain ⟨b, -, rfl⟩ := Option.map_eq_some_iff.mp hr'
      exact (ih rfl (Option.isSome_of_mem hread')).1 (isReady_resting false b)
    rw [readAll?_cons] at hread
    refine ⟨fun hready ↦ ?_, fun s hs ↦ ?_⟩
    · have hwritten := written_of_look argument
      have htaken := Option.isSome_of_isSome_bind hread
      rw [take_eq hr] at htaken
      cases hlook : look argument with
      | plain =>
        rw [hlook] at hwritten
        rw [take_plain hr hwritten, takePlain_of_isReady hready, toOption_takeExpression,
          hr] at hread
        obtain ⟨given, hgiven⟩ := hresting hread
        exact ⟨_, .expression hwritten hgiven⟩
      | ended =>
        rw [hlook] at hwritten
        obtain rfl := hwritten
        exact ⟨_, .ended later⟩
      | short cs =>
        rw [hlook] at hwritten htaken
        obtain ⟨hne, rfl⟩ := hwritten
        obtain ⟨switches, hswitches⟩ := exists_switches cs htaken
        rw [toOption_take_short hr hne hswitches] at hread
        obtain ⟨given, hgiven⟩ := hresting hread
        exact ⟨_, .short hne hswitches hgiven⟩
      | long name value? =>
        rw [hlook] at hwritten htaken
        cases value? with
        | none =>
          rcases exists_option htaken with ⟨s, hname⟩ | ⟨s, hname⟩
          · rw [hwritten, hname] at hread ⊢
            rw [toOption_take_long hr s] at hread
            obtain ⟨given, hgiven⟩ := hresting hread
            exact ⟨_, .long s hgiven⟩
          · rw [hwritten, hname] at hread ⊢
            rw [toOption_take_waiting hr s, Option.bind_map] at hread
            obtain ⟨b, hb⟩ := Option.isSome_iff_exists.mp hread
            obtain ⟨a, -, ha⟩ := Option.bind_eq_some_iff.mp hb
            obtain ⟨value, later, g, given, rfl, hplain, hg, hgiven⟩ :=
              (ih rfl (Option.isSome_of_mem ha)).2 s rfl
            exact ⟨_, .apart hplain hg hgiven⟩
        | some value =>
          obtain ⟨s, g, hname, hg⟩ := exists_attached htaken
          rw [hwritten, hname] at hread ⊢
          rw [toOption_take_attached hr hg] at hread
          obtain ⟨given, hgiven⟩ := hresting hread
          exact ⟨_, .attached hg hgiven⟩
    · have hplain := take_of_settled?_eq_none hr (settled?_of_waits hs) hread
      rw [take_plain hr hplain, takePlain, hs] at hread
      obtain ⟨given, hgiven⟩ :=
        (ih (r := { r with pending := some (s, some argument) }) hr hread).1 fun s' ↦ by simp
      obtain ⟨g, hg⟩ := gives_of_pending (r := { r with pending := some (s, some argument) }) hr rfl
        hgiven hread
      exact ⟨argument, later, g, given, rfl, hplain, hg, hgiven⟩

end Reading

/-! ## Command lines -/

/-- The arguments that are handed over, once there is an expression. -/
def Taken.arguments (a : Taken) (expression : String) : Arguments where
  bindings := a.bindings
  constants := a.constants
  file := a.switches.contains .file
  tokens := a.switches.contains .tokens
  strict := a.switches.contains .strict
  shortCircuit := a.switches.contains .shortCircuit
  maxDepth := a.maxDepth.getD ({} : Options).maxDepth
  expression := expression

theorem toOption_readArguments (arguments : List String) : (readArguments arguments).toOption
    = (Reading.readAll? {} arguments).bind fun a ↦ a.expression.map a.arguments := by
  rw [readArguments, toOption_bind, Reading.readAll?, Option.bind_assoc]
  refine congrArg (Option.bind _) (funext fun r ↦ ?_)
  rw [toOption_bind, Reading.settled?, Option.bind_map]
  refine congrArg (Option.bind _) (funext fun r' ↦ ?_)
  dsimp only [Function.comp_apply]
  cases r'.taken.expression <;> rfl

theorem isReady_start : Reading.IsReady {} := fun s ↦ by simp

/-- **An accepted command line spells what it gives.** -/
theorem exists_spells {arguments : List String} {a : Arguments}
    (h : readArguments arguments = .ok a) : ∃ given, Spells ReadsBinding arguments given := by
  have hsome : (Reading.readAll? {} arguments).isSome := by
    refine Option.isSome_of_isSome_bind (f := fun a ↦ a.expression.map a.arguments) ?_
    rw [← toOption_readArguments, h]
    rfl
  exact (Reading.exists_spells_behind arguments rfl hsome).1 isReady_start

/-- What is read of a command line is what it gives, taken together. -/
theorem Spells.exists_gathered {arguments : List String} {given : List Given}
    (hspells : Spells ReadsBinding arguments given) {a : Arguments}
    (h : readArguments arguments = .ok a) :
    ∃ t e, Taken.Extends {} given t ∧ t.expression = some e ∧ a = t.arguments e := by
  have ha := toOption_readArguments arguments
  rw [h, hspells.readAll? rfl isReady_start] at ha
  obtain ⟨t, ht, ha⟩ := Option.bind_eq_some_iff.mp ha.symm
  obtain ⟨e, he, rfl⟩ := Option.map_eq_some_iff.mp ha
  exact ⟨t, e, Taken.extends_gather? ht, he, rfl⟩

/-- What has been taken in, from nothing on, is what is given. -/
theorem Taken.Extends.collects {given : List Given} {t : Taken} (h : Extends {} given t)
    {e : String} (he : t.expression = some e) : Collects given (t.arguments e) := by
  have hswitch (s : Switch) : t.switches.contains s ↔ .switch s ∈ given := by
    rw [List.contains_iff_mem, h.switches]
    simp [Given.asSwitch?_eq_some_iff]
  have hdepth : given.filterMap Given.asDepth? = t.maxDepth.toList := h.maxDepth.symm
  have hexpression : given.filterMap Given.asExpression? = t.expression.toList := h.expression.symm
  refine ⟨h.bindings, h.constants, hswitch .file, hswitch .tokens, hswitch .strict,
    hswitch .shortCircuit, ?_, by rw [hexpression, he]; rfl⟩
  rw [hdepth, Taken.arguments]
  cases t.maxDepth with
  | none => exact .inl ⟨rfl, rfl⟩
  | some n => exact .inr rfl

theorem readArguments_of_reader {arguments : List String} {a : Arguments}
    (h : reader arguments = .ok a) : readArguments arguments = .ok a := by
  rw [reader] at h
  cases hread : readArguments arguments with
  | ok a' =>
    rw [hread, Except.mapError] at h
    rw [Except.ok.inj h]
  | error e =>
    rw [hread, Except.mapError] at h
    cases h

/-- **The reader can be relied on.** -/
theorem isFaithful_reader : reader.IsFaithful where
  spelled h := exists_spells (readArguments_of_reader h)
  collected h hspells := by
    obtain ⟨t, e, hextends, he, rfl⟩ := hspells.exists_gathered (readArguments_of_reader h)
    exact hextends.collects he

end Formula.CommandLine
