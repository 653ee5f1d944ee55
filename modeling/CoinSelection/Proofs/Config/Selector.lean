/-
# CoinSelection.Proofs.Config.Selector -- the selector of a configuration

Two tests stand one behind the other.  A configuration is accepted by a checker; the selector that
it describes checks its arguments once more, and reads its threshold as an integer, which fails for
a number that is none.  They agree: a configuration that was accepted always makes a selector, and
it is the one that is described (`Describes`), while arguments that are given in full are accepted
exactly when the selector would take them (`accepted_makes_selector`).
-/
import Mathlib
import CoinSelection.Proofs.Binary64.Value
import CoinSelection.Proofs.Config.Parse

namespace CoinSelection

set_option autoImplicit false

/-! ## Arguments -/

namespace Args

theorem count?_isSome_iff (v : Value) :
    (count? v).isSome ↔ ∃ x, v = .number x ∧ (Whole.nat? x).isSome := by
  cases v with
  | number x =>
      rw [count?]
      split
      next whole => simp [whole]
      next other => simp [other]
  | _ => simp [count?]

theorem refuse_ne_ok {α : Type} (v : Value) (complaint : String → Complaint) (a : α) :
    v.refuse complaint ≠ .ok a := by
  intro made
  obtain ⟨text, -, thrown⟩ := exists_of_bind_ok made
  cases thrown

/-- The arguments that are made of two counts have these counts. -/
theorem of?_number {x y : Float} (maxInputs : (Whole.nat? x).isSome)
    (minChangeAmount : (Whole.nat? y).isSome) :
    of? (.number x) (.number y) = .ok ⟨x, y, maxInputs, minChangeAmount⟩ := by
  simp only [of?, count?, dif_pos maxInputs, dif_pos minChangeAmount]

theorem of?_ok_iff (a b : Value) :
    (∃ args, of? a b = .ok args) ↔ (count? a).isSome ∧ (count? b).isSome := by
  rw [of?]
  cases count? a with
  | none => simp [refuse_ne_ok]
  | some m =>
      cases count? b with
      | none => simp [refuse_ne_ok]
      | some c => simp

end Args

namespace Config

variable {checker : Checker} {given : Value} {config : Config}

/-- The selector is the one that the configuration describes; the threshold is the exact value of
the number that it was given as. -/
structure Describes (config : Config) (selector : Selector) : Prop where
  strategy : selector.policy.strategy = config.settings.strategy
  named : Field.strategy.valueIn (.object config.entries) = .string selector.policy.strategy.name
  maxInputs : Field.maxInputs.valueIn (.object config.entries) = .number selector.args.maxInputs
  minChangeAmount : Field.minChangeAmount.valueIn (.object config.entries) =
    .number selector.args.minChangeAmount
  threshold : ∀ n, selector.policy = .minPriority n → ∃ x,
    Field.minAvgValueAgePerInput.valueIn (.object config.entries) = .number x ∧
      Binary64.value? x = some (n : ℚ)

/-! ## From a configuration to its selector -/

theorem valid_of_parseWith (lawful : checker.Lawful) (once : NamesOnce given)
    (accepted : parseWith checker given = .ok config) {f : Field} (scalar : f.isSection = false) :
    f.Valid (.object config.entries) := by
  rw [Field.Valid, (reflects_of_parseWith lawful once accepted).fields f scalar]
  exact (parseWith_ok_iff lawful once).1 ⟨config, accepted⟩ f

/-- A number in a section is read from the section. -/
theorem read_of_valueIn {f s : Field} {x : Float} {v : Value} (inside : f.section? = some s)
    (number : f.valueIn v = .number x) : (s.valueIn v).read f.key = .ok (.number x) := by
  rw [Field.valueIn_eq inside] at number
  cases held : s.valueIn v with
  | missing | null =>
      rw [held] at number
      cases number
  | _ =>
      rw [held] at number
      exact congrArg _ number

theorem selector_of_parseWith (lawful : checker.Lawful) (once : NamesOnce given)
    (accepted : parseWith checker given = .ok config) :
    ∃ selector, config.settings.selector = .ok selector ∧ Describes config selector := by
  have reflects := reflects_of_parseWith lawful once accepted
  have named := (reflects.fields .strategy rfl).trans reflects.strategy.symm
  obtain ⟨x, maxInputs, wholeX⟩ := valid_of_parseWith lawful once accepted (f := .maxInputs) rfl
  obtain ⟨y, minChange, wholeY⟩ :=
    valid_of_parseWith lawful once accepted (f := .minChangeAmount) rfl
  obtain ⟨z, threshold, wholeZ⟩ :=
    valid_of_parseWith lawful once accepted (f := .minAvgValueAgePerInput) rfl
  obtain ⟨n, integer, notNegative⟩ := (Whole.nat?_isSome_iff z).1 wholeZ
  have args : Args.ofValue config.settings.args = .ok ⟨x, y, wholeX, wholeY⟩ := by
    rw [reflects.args, Args.ofValue, read_of_valueIn rfl maxInputs, read_of_valueIn rfl minChange]
    exact Args.of?_number wholeX wholeY
  have read : config.settings.minPriority.read Field.minAvgValueAgePerInput.key =
      .ok (.number z) := by
    rw [reflects.minPriority]
    exact read_of_valueIn rfl threshold
  have toInt : (Value.number z).toInt = .ok n := by
    rw [Value.toInt, integer]
  unfold Settings.selector
  cases strategy : config.settings.strategy with
  | minIndex | minNumber | maxValueAge =>
      rw [strategy] at named
      simp only [args]
      exact ⟨_, rfl, strategy.symm, named, maxInputs, minChange, nofun⟩
  | minPriority =>
      rw [strategy] at named
      simp only [read, args, toInt, bind, Except.bind, Selector.minPriority?,
        if_neg (Int.not_lt.2 notNegative)]
      refine ⟨_, rfl, strategy.symm, named, maxInputs, minChange, ?_⟩
      intro n' same
      cases same
      exact ⟨z, threshold, (Binary64.int?_eq_some_iff z n).1 integer⟩

/-! ## From arguments to a configuration -/

/-- The arguments that all policies share, as a value. -/
def sharedArgs (a b : Value) : Value :=
  .object [(Field.maxInputs.key, a), (Field.minChangeAmount.key, b)]

/-- A configuration with these arguments, and nothing else. -/
def onlyArgs (a b : Value) : Value := .object [(Field.args.key, sharedArgs a b)]

variable {a b : Value}

theorem ofValue_sharedArgs (a b : Value) : Args.ofValue (sharedArgs a b) = Args.of? a b := rfl

theorem overlayEntry_present {l : Layer} {key : String} {v lower : Value}
    (found : Value.lookup key l.own = some lower) (plain : lower.isObject = false)
    (present : v ≠ .missing) : l.overlayEntry (key, v) = l.set key v := by
  rw [Layer.overlayEntry_own found present, Value.laid_of_not_object plain]
  cases v with
  | missing => exact absurd rfl present
  | _ => rfl

/-- Arguments that are given in full replace the defaults. -/
theorem completed_onlyArgs (presentA : a ≠ .missing) (presentB : b ≠ .missing) :
    completed (onlyArgs a b) = .object
      [(Field.strategy.key, .string Strategy.minNumber.name), (Field.args.key, sharedArgs a b),
        (Field.minPriority.key, .object [(Field.minAvgValueAgePerInput.key, .number 0)])] := by
  have args : (Value.object [(Field.maxInputs.key, .number 20),
      (Field.minChangeAmount.key, .number 0)]).laid (sharedArgs a b) = sharedArgs a b := by
    simp only [Value.laid, sharedArgs, merge, Layer.overlay]
    rw [overlayEntry_present rfl rfl presentA, overlayEntry_present rfl rfl presentB]
    rfl
  have present : sharedArgs a b ≠ .missing := by
    rintro ⟨⟩
  simp only [completed, onlyArgs, Value.entries, merge, Layer.overlay]
  rw [Layer.overlayEntry_own rfl present, args]
  rfl

theorem parseWith_ok_iff_accepts {strategy : Strategy}
    (named : Field.strategy.valueIn (completed given) = .string strategy.name) :
    (∃ config, parseWith checker given = .ok config) ↔ checker.accepts (completed given) := by
  have settings := ofValue_object named
  unfold completed
  by_cases accepted : checker.accepts (.object (merge defaults given.entries))
  · simp only [parseWith, if_pos accepted, settings]
    exact iff_of_true ⟨_, rfl⟩ accepted
  · simp only [parseWith, if_neg accepted]
    exact iff_of_false (by rintro ⟨config, made⟩; cases made) accepted

theorem parseWith_onlyArgs_iff (lawful : checker.Lawful) (presentA : a ≠ .missing)
    (presentB : b ≠ .missing) :
    (∃ config, parseWith checker (onlyArgs a b) = .ok config) ↔
      ∃ args, Args.ofValue (sharedArgs a b) = .ok args := by
  have whole := completed_onlyArgs presentA presentB
  have complete : Complete (completed (onlyArgs a b)) := by
    rw [whole]
    intro f _
    cases f with
    | maxInputs => exact presentA
    | minChangeAmount => exact presentB
    | _ => nofun
  have named : Field.strategy.valueIn (completed (onlyArgs a b)) =
      .string Strategy.minNumber.name := by
    rw [whole]
    rfl
  rw [parseWith_ok_iff_accepts named, lawful.accepts_iff _ complete, whole]
  rw [ofValue_sharedArgs, Args.of?_ok_iff, Args.count?_isSome_iff, Args.count?_isSome_iff]
  constructor
  · intro valid
    exact ⟨valid .maxInputs, valid .minChangeAmount⟩
  · rintro ⟨maxInputs, minChange⟩ f
    cases f with
    | strategy => exact ⟨.minNumber, rfl⟩
    | args | minPriority => exact ⟨_, rfl⟩
    | maxInputs => exact maxInputs
    | minChangeAmount => exact minChange
    | minAvgValueAgePerInput => exact ⟨0, rfl, by decide +kernel⟩

/-- Every configuration that is accepted makes the selector that it describes; and two values are
accepted as arguments exactly when the arguments of a selector can be made of them. -/
theorem accepted_makes_selector (lawful : checker.Lawful) (once : NamesOnce given) :
    (∀ config, parseWith checker given = .ok config →
      Settings.ofValue (.object config.entries) = .ok config.settings ∧
      ∃ selector, config.settings.selector = .ok selector ∧ Describes config selector) ∧
    ∀ a b, a ≠ .missing → b ≠ .missing →
      ((∃ config, parseWith checker (onlyArgs a b) = .ok config) ↔
        ∃ args, Args.ofValue (sharedArgs a b) = .ok args) := by
  refine ⟨?_, fun a b presentA presentB => parseWith_onlyArgs_iff lawful presentA presentB⟩
  intro config accepted
  exact ⟨(made_of_parseWith accepted).2, selector_of_parseWith lawful once accepted⟩

/-- A threshold that is near the number that was written, but not that; and counts at the edge of
what is one: a large number, minus zero, and no number at all. -/
theorem accepted_makes_selector_large :
    ∃ given : Value,
      (∃ config selector, parseWith schema given = .ok config ∧
        config.settings.selector = .ok selector ∧
        selector.policy = .minPriority 99999999999999991611392 ∧
        Field.maxInputs.valueIn given = .number selector.args.maxInputs) ∧
      Field.minAvgValueAgePerInput.valueIn given = .number 1e23 ∧
      (∃ config, parseWith schema (onlyArgs (.number 1e300) (.number (-0.0))) = .ok config) ∧
      ¬ ∃ config, parseWith schema (onlyArgs (.number (0 / 0)) (.number 0)) = .ok config := by
  let given : Value := .object
    [("strategy", .string "min-priority"), ("args", .object [("maxInputs", .number (-0.0))]),
      ("minPriority", .object [("minAvgValueAgePerInput", .number 1e23)])]
  have once : NamesOnce given := by decide +kernel
  have fits : ∀ f : Field, f.Fits given := by decide +kernel
  obtain ⟨makes, agree⟩ := accepted_makes_selector schema_lawful once
  obtain ⟨config, accepted⟩ := (parseWith_ok_iff schema_lawful once).2 fits
  obtain ⟨-, selector, made, describes⟩ := makes config accepted
  have reflects := reflects_of_parseWith schema_lawful once accepted
  refine ⟨given, ⟨config, selector, accepted, made, ?_, ?_⟩, rfl, ?_, ?_⟩
  · have minPriority : selector.policy.strategy = .minPriority := by
      apply Strategy.name_injective
      have named := describes.named.symm.trans (reflects.fields .strategy rfl)
      exact Value.string.inj named
    cases policy : selector.policy with
    | minPriority n =>
        obtain ⟨x, given, exact⟩ := describes.threshold n policy
        have number := given.symm.trans (reflects.fields .minAvgValueAgePerInput rfl)
        obtain rfl := Value.number.inj number
        have large : Whole.int? 1e23 = some 99999999999999991611392 := by decide +kernel
        have value := exact.symm.trans ((Binary64.int?_eq_some_iff _ _).1 large)
        rw [Int.cast_injective (Option.some.inj value)]
    | _ =>
        rw [policy] at minPriority
        cases minPriority
  · exact (reflects.fields .maxInputs rfl).symm.trans describes.maxInputs
  · have large : (Whole.nat? 1e300).isSome := by decide +kernel
    have zero : (Whole.nat? (-0.0)).isSome := by decide +kernel
    rw [agree (.number 1e300) (.number (-0.0)) nofun nofun, ofValue_sharedArgs]
    exact ⟨_, Args.of?_number large zero⟩
  · have none : ¬ (Args.count? (.number (0 / 0))).isSome := by decide +kernel
    rw [agree (.number (0 / 0)) (.number 0) nofun nofun, ofValue_sharedArgs, Args.of?_ok_iff]
    exact fun counts => none counts.1

end Config

end CoinSelection
