/-
# CoinSelection.Proofs.Config.Parse -- which configurations are accepted

What counts for a field is its `effective` value: what is given for it, or else its fallback.  A
configuration is accepted when every field admits its effective value (`Fits`), and then has these
values; otherwise the complaint names the first field that does not, in the order of `Field.all`
(`parseWith_spec`).

The completed configuration is checked by any checker that is `Checker.Lawful`: it goes by the
fields of a configuration that lacks none (`Valid`), and names the first flaw first.  `schema` is
one (`schema_lawful`).  The work lies between what is given and what is checked.  A section that is
not given, or is no object, or is an object with some fields, is completed in a different way each
time (`valueIn_completed`), and a section stands before its fields, so that a fault of a field is
seen only where its section has none (`FirstFailing.sectionHas`).
-/
import Mathlib
import CoinSelection.Config
import CoinSelection.Failure
import CoinSelection.Proofs.Config.Merge
import CoinSelection.Proofs.Shown

namespace CoinSelection.Config

set_option autoImplicit false

/-! ## Fields -/

namespace Field

/-- What a field asks of its value. -/
def Admits : Field → Value → Prop
  | strategy, v => ∃ s : Strategy, v = .string s.name
  | args, v | minPriority, v => ∃ entries, v = .object entries
  | maxInputs, v | minChangeAmount, v | minAvgValueAgePerInput, v =>
      ∃ x, v = .number x ∧ (Whole.nat? x).isSome

/-- The value of a field for which none is given; that of a section gives none of its fields. -/
def fallback : Field → Value
  | strategy => .string "min-number"
  | maxInputs => .number 20
  | minChangeAmount | minAvgValueAgePerInput => .number 0
  | args | minPriority => .object []

/-- What is given for a field, or else its fallback. -/
def effective (f : Field) (given : Value) : Value := (f.valueIn given).orElse f.fallback

/-- The field admits what counts for it. -/
def Fits (given : Value) (f : Field) : Prop := f.Admits (f.effective given)

/-- The field admits the value that it has. -/
def Valid (v : Value) (f : Field) : Prop := f.Admits (f.valueIn v)

/-- Something holds of the section that the field is in, if it is in one. -/
def SectionHas (holds : Field → Prop) (f : Field) : Prop := ∀ s, f.section? = some s → holds s

/-- Whether the field holds other fields. -/
def isSection : Field → Bool
  | args | minPriority => true
  | strategy | maxInputs | minChangeAmount | minAvgValueAgePerInput => false

/-- The order in which fields are checked. -/
def Before (f' f : Field) : Prop := all.idxOf f' < all.idxOf f

instance (f' f : Field) : Decidable (f'.Before f) :=
  inferInstanceAs (Decidable (all.idxOf f' < all.idxOf f))

theorem mem_all (f : Field) : f ∈ all := by cases f <;> decide

instance : Fintype Field where
  elems := ⟨all, by decide⟩
  complete := mem_all

theorem section_before {f s : Field} (inside : f.section? = some s) : s.Before f := by
  cases f <;> cases inside <;> decide

theorem section_section {f s : Field} (inside : f.section? = some s) : s.section? = none := by
  cases f <;> cases inside <;> rfl

theorem isSection_of_section {f s : Field} (inside : f.section? = some s) : s.isSection := by
  cases f <;> cases inside <;> rfl

/-- A section stands at the top. -/
theorem section?_of_isSection {s : Field} (isSection : s.isSection) : s.section? = none := by
  cases s <;> first | rfl | cases isSection

theorem admits_section {s : Field} (isSection : s.isSection) (v : Value) :
    s.Admits v ↔ v.isObject := by
  have isObject : v.isObject ↔ ∃ entries, v = .object entries := by
    cases v <;> simp [Value.isObject]
  cases s <;> first | exact isObject.symm | cases isSection

theorem valueIn_top {f : Field} (top : f.section? = none) (v : Value) :
    f.valueIn v = v.field f.key := by
  rw [valueIn, top]

/-- A field of a section is read from the value of the section. -/
theorem valueIn_eq {f s : Field} (inside : f.section? = some s) (v : Value) :
    f.valueIn v = (s.valueIn v).field f.key := by
  rw [valueIn, inside, valueIn_top (section_section inside)]

theorem isHeld_eq {f s : Field} (inside : f.section? = some s) (v : Value) :
    f.isHeld v = (s.valueIn v).isObject := by
  rw [isHeld, inside, valueIn_top (section_section inside)]

theorem path_injective {f f' : Field} (same : f.path = f'.path) : f = f' := by
  revert same
  cases f <;> cases f' <;> decide

theorem sectionHas_top {holds : Field → Prop} {f : Field} (top : f.section? = none) :
    f.SectionHas holds := by
  intro s inside
  rw [top] at inside
  cases inside

/-- The first field of which something does not hold. -/
structure FirstFailing (holds : Field → Prop) (f : Field) : Prop where
  fails : ¬ holds f
  before : ∀ f' : Field, f'.Before f → holds f'

/-- The section of the field comes before the field, and so do the sections of earlier fields. -/
theorem FirstFailing.sectionHas {holds : Field → Prop} {f f' : Field} (first : FirstFailing holds f)
    (upTo : f' = f ∨ f'.Before f) : f'.SectionHas holds := by
  intro s inside
  apply first.before
  rcases upTo with rfl | earlier
  · exact section_before inside
  · exact (section_before inside).trans earlier

instance (holds : Field → Prop) [DecidablePred holds] (f : Field) :
    Decidable (FirstFailing holds f) :=
  decidable_of_iff (¬ holds f ∧ ∀ f' : Field, f'.Before f → holds f')
    ⟨fun ⟨fails, before⟩ => ⟨fails, before⟩, fun first => ⟨first.fails, first.before⟩⟩

theorem exists_firstFailing {holds : Field → Prop} (fails : ¬ ∀ f, holds f) :
    ∃ f, FirstFailing holds f := by
  obtain ⟨f, fails⟩ := not_forall.1 fails
  induction place : all.idxOf f using Nat.strong_induction_on generalizing f with
  | _ n ih =>
      subst place
      by_cases first : ∀ f' : Field, f'.Before f → holds f'
      · exact ⟨f, fails, first⟩
      · simp only [not_forall] at first
        obtain ⟨f', before, fails'⟩ := first
        exact ih _ before f' fails' rfl

/-! ## Flaws -/

theorem countFlaw?_eq_none_iff (v : Value) :
    countFlaw? v = none ↔ ∃ x, v = .number x ∧ (Whole.nat? x).isSome := by
  cases v with
  | number x =>
      simp only [countFlaw?, Value.number.injEq, exists_eq_left', Whole.nat?_isSome_iff]
      cases Whole.int? x with
      | none => simp
      | some n => simp
  | _ => simp [countFlaw?]

theorem flaw?_eq_none_iff (f : Field) (v : Value) : f.flaw? v = none ↔ f.Admits v := by
  have named : (Strategy.ofValue? v).isSome ↔ ∃ s : Strategy, v = .string s.name := by
    constructor
    · intro some
      obtain ⟨s, found⟩ := Option.isSome_iff_exists.1 some
      cases v with
      | string name =>
          have same := List.find?_some found
          exact ⟨s, by simpa using (beq_iff_eq.1 same).symm⟩
      | _ => cases found
    · rintro ⟨s, rfl⟩
      simp [Strategy.ofValue?, Strategy.ofName?_name]
  cases f with
  | strategy => simp [flaw?, Admits, ← named, Option.isSome_iff_ne_none]
  | args =>
      rw [admits_section rfl]
      simp [flaw?]
  | minPriority =>
      rw [admits_section rfl]
      simp [flaw?]
  | maxInputs => exact countFlaw?_eq_none_iff v
  | minChangeAmount => exact countFlaw?_eq_none_iff v
  | minAvgValueAgePerInput => exact countFlaw?_eq_none_iff v

instance (f : Field) (v : Value) : Decidable (f.Admits v) :=
  decidable_of_iff (f.flaw? v = none) (flaw?_eq_none_iff f v)

instance (given : Value) : DecidablePred (Fits given) := fun f =>
  inferInstanceAs (Decidable (f.Admits (f.effective given)))

theorem isHeld_of_section {f : Field} {v : Value} (held : f.SectionHas (Valid v)) :
    f.isHeld v := by
  cases inside : f.section? with
  | none => rw [isHeld, inside]
  | some s =>
      rw [isHeld_eq inside]
      exact (admits_section (isSection_of_section inside) _).1 (held s inside)

theorem report?_eq_none_iff {f : Field} {v : Value} (held : f.SectionHas (Valid v)) :
    f.report? v = none ↔ f.Valid v := by
  rw [report?, if_pos (isHeld_of_section held), Option.map_eq_none_iff, flaw?_eq_none_iff, Valid]

end Field

/-! ## Checkers -/

/-- No field is missing from a configuration, except from a section that is no object. -/
def Complete (v : Value) : Prop := ∀ f : Field, f.isHeld v → f.valueIn v ≠ .missing

/-- A checker that goes by the fields of a complete configuration, and names the first flaw
first. -/
structure Checker.Lawful (c : Checker) : Prop where
  accepts_iff : ∀ v, Complete v → (c.accepts v ↔ ∀ f : Field, f.Valid v)
  first_flaw : ∀ v, Complete v → ∀ f, Field.FirstFailing (Field.Valid v) f →
    ∃ message rest, c.flaws v = (f.path, message) :: rest

/-- What is collected from a list begins with the first element that gives anything. -/
theorem filterMap_eq_cons {α β : Type} [BEq α] [LawfulBEq α] {g : α → Option β} {xs : List α}
    {x : α} {y : β} (listed : x ∈ xs) (gives : g x = some y)
    (before : ∀ x', xs.idxOf x' < xs.idxOf x → g x' = none) :
    ∃ rest, xs.filterMap g = y :: rest := by
  induction xs with
  | nil => cases listed
  | cons head tail ih =>
      by_cases here : head = x
      · subst here
        exact ⟨tail.filterMap g, List.filterMap_cons_some gives⟩
      · have first : g head = none := before head (by simp [List.idxOf_cons_ne _ here])
        rw [List.filterMap_cons_none first]
        apply ih ((List.mem_cons.1 listed).resolve_left (Ne.symm here))
        intro x' earlier
        by_cases same : head = x'
        · rwa [← same]
        · apply before x'
          rw [List.idxOf_cons_ne _ here, List.idxOf_cons_ne _ same]
          exact Nat.succ_lt_succ earlier

theorem schema_lawful : schema.Lawful where
  accepts_iff v _ := by
    simp only [schema, List.isEmpty_iff, List.filterMap_eq_nil_iff]
    constructor
    · intro none f
      refine (Field.report?_eq_none_iff ?_).1 (none f f.mem_all)
      intro s inside
      exact (Field.report?_eq_none_iff (Field.sectionHas_top (Field.section_section inside))).1
        (none s s.mem_all)
    · intro valid f _
      exact (Field.report?_eq_none_iff fun s _ => valid s).2 (valid f)
  first_flaw v _ f first := by
    obtain ⟨flaw, isFlaw⟩ := Option.ne_none_iff_exists'.1
      (mt (Field.flaw?_eq_none_iff f (f.valueIn v)).1 first.fails)
    have report : f.report? v = some (f.path, flaw.message) := by
      rw [Field.report?, if_pos (Field.isHeld_of_section (first.sectionHas (.inl rfl))), isFlaw,
        Option.map_some]
    have earlier : ∀ f' : Field, f'.Before f → f'.report? v = none := by
      intro f' earlier
      exact (Field.report?_eq_none_iff (first.sectionHas (.inr earlier))).2
        (first.before f' earlier)
    obtain ⟨rest, flaws⟩ := filterMap_eq_cons f.mem_all report earlier
    exact ⟨flaw.message, rest, flaws⟩

/-! ## The completed configuration -/

/-- A value names each key once, as every object does that was given, and so do its sections. -/
structure NamesOnce (given : Value) : Prop where
  top : (given.entries.map (·.1)).Nodup
  sections : ∀ f : Field, ((f.valueIn given).entries.map (·.1)).Nodup

instance (given : Value) : Decidable (NamesOnce given) :=
  decidable_of_iff ((given.entries.map (·.1)).Nodup ∧
      ∀ f : Field, ((f.valueIn given).entries.map (·.1)).Nodup)
    ⟨fun ⟨top, sections⟩ => ⟨top, sections⟩, fun once => ⟨once.top, once.sections⟩⟩

/-- What is checked: the defaults with what is given laid over them. -/
def completed (given : Value) : Value := .object (merge defaults given.entries)

namespace Field

variable {given : Value} {f : Field}

theorem lookup_default (f : Field) (top : f.section? = none) :
    Value.lookup f.key defaults = some (f.valueIn (.object defaults)) := by
  cases f <;> first | rfl | cases top

theorem lookup_default_section {f s : Field} (inside : f.section? = some s) :
    ∃ base, s.valueIn (.object defaults) = .object base ∧
      Value.lookup f.key base = some (f.valueIn (.object defaults)) := by
  cases f <;> cases inside <;> exact ⟨_, rfl, rfl⟩

theorem valueIn_completed_top (once : NamesOnce given) (top : f.section? = none) :
    f.valueIn (completed given) = (f.valueIn (.object defaults)).laid (f.valueIn given) := by
  rw [valueIn_top top (completed given), valueIn_top top given]
  exact field_merge once.top (lookup_default f top)

/-- A section that is not given keeps its defaults, and an object is laid over them: where the
section is in order, what is given for the field is laid over its default. -/
theorem valueIn_completed (once : NamesOnce given) (held : f.SectionHas (Fits given)) :
    f.valueIn (completed given) = (f.valueIn (.object defaults)).laid (f.valueIn given) := by
  cases inside : f.section? with
  | none => exact valueIn_completed_top once inside
  | some s =>
      obtain ⟨base, isBase, default⟩ := lookup_default_section inside
      have object := (admits_section (isSection_of_section inside) _).1 (held s inside)
      have whole := valueIn_completed_top once (section_section inside)
      have distinct := once.sections s
      rw [valueIn_eq inside (completed given), valueIn_eq inside given, whole, isBase]
      rw [effective] at object
      cases given : s.valueIn given with
      | missing =>
          rw [Value.laid_missing, Value.field, Value.entries, default]
          exact (Value.laid_missing _).symm
      | object top =>
          rw [given] at distinct
          exact field_merge distinct default
      | _ =>
          rw [given] at object
          cases object

theorem valueIn_completed_scalar (once : NamesOnce given) (scalar : f.isSection = false)
    (held : f.SectionHas (Fits given)) :
    f.valueIn (completed given) = f.effective given := by
  have default : f.valueIn (.object defaults) = f.fallback := by
    cases f <;> first | rfl | cases scalar
  have plain : f.fallback.isObject = false := by
    cases f <;> first | rfl | cases scalar
  rw [valueIn_completed once held, default, effective]
  exact Value.laid_of_not_object plain _

/-- For a section only the shape of its value counts, which its fields do not change. -/
theorem valid_completed (once : NamesOnce given) (held : f.SectionHas (Fits given)) :
    f.Valid (completed given) ↔ f.Fits given := by
  unfold Valid Fits
  cases isSection : f.isSection with
  | false => rw [valueIn_completed_scalar once isSection held]
  | true =>
      have default : (f.valueIn (.object defaults)).isObject := by
        cases f <;> first | rfl | cases isSection
      have fallback : f.fallback.isObject := by
        cases f <;> first | rfl | cases isSection
      rw [admits_section isSection, admits_section isSection, valueIn_completed once held,
        effective, Value.isObject_laid default fallback]

theorem complete_completed (once : NamesOnce given) : Complete (completed given) := by
  intro f isHeld
  have held : f.SectionHas (Fits given) := by
    intro s inside
    rw [isHeld_eq inside] at isHeld
    exact (valid_completed once (sectionHas_top (section_section inside))).1
      ((admits_section (isSection_of_section inside) _).2 isHeld)
  rw [valueIn_completed once held]
  apply Value.laid_ne_missing
  cases f <;> nofun

/-- The first field that fails is the same before and after completion: the fields before it are in
order, and with them its section. -/
theorem firstFailing_completed (once : NamesOnce given) (first : FirstFailing (Fits given) f) :
    FirstFailing (Valid (completed given)) f where
  fails := mt (valid_completed once (first.sectionHas (.inl rfl))).1 first.fails
  before f' earlier :=
    (valid_completed once (first.sectionHas (.inr earlier))).2 (first.before f' earlier)

end Field

/-! ## What is accepted and what is refused -/

/-- The recognised fields of the configuration have their effective values. -/
structure Reflects (config : Config) (given : Value) : Prop where
  fields : ∀ f : Field, f.isSection = false →
    f.valueIn (.object config.entries) = f.effective given
  strategy : Value.string config.settings.strategy.name = Field.strategy.effective given
  args : config.settings.args = Field.args.valueIn (.object config.entries)
  minPriority : config.settings.minPriority = Field.minPriority.valueIn (.object config.entries)

theorem ofValue_object {entries : Entries} {strategy : Strategy}
    (named : Field.strategy.valueIn (.object entries) = .string strategy.name) :
    Settings.ofValue (.object entries) = .ok ⟨strategy, Field.args.valueIn (.object entries),
      Field.minPriority.valueIn (.object entries)⟩ := by
  have read : (Value.object entries).read Field.strategy.key = .ok (.string strategy.name) :=
    congrArg _ named
  have known : Strategy.ofValue? (.string strategy.name) = some strategy :=
    Strategy.ofName?_name strategy
  simp only [Settings.ofValue, read, bind, Except.bind, known]
  rfl

variable {checker : Checker} {given : Value} {f : Field}

/-- A configuration has what was completed, and its settings are read from that. -/
theorem made_of_parseWith {config : Config} (accepted : parseWith checker given = .ok config) :
    config.entries = merge defaults given.entries ∧
      Settings.ofValue (.object config.entries) = .ok config.settings := by
  unfold parseWith at accepted
  dsimp only at accepted
  split at accepted
  · obtain ⟨settings, read, same⟩ := exists_of_bind_ok accepted
    cases same
    exact ⟨rfl, read⟩
  · cases accepted

theorem parseWith_ok (lawful : checker.Lawful) (once : NamesOnce given)
    (fits : ∀ f : Field, f.Fits given) :
    ∃ config, parseWith checker given = .ok config ∧ config.Reflects given := by
  have held : ∀ f : Field, f.SectionHas (Field.Fits given) := fun _ s _ => fits s
  have accepted : checker.accepts (completed given) := by
    rw [lawful.accepts_iff _ (Field.complete_completed once)]
    intro f
    exact (Field.valid_completed once (held f)).2 (fits f)
  have values : ∀ f : Field, f.isSection = false →
      f.valueIn (completed given) = f.effective given := by
    intro f scalar
    exact Field.valueIn_completed_scalar once scalar (held f)
  obtain ⟨strategy, named⟩ := fits .strategy
  have settings := ofValue_object ((values .strategy rfl).trans named)
  refine ⟨⟨⟨strategy, Field.args.valueIn (completed given),
    Field.minPriority.valueIn (completed given)⟩, merge defaults given.entries⟩, ?_, values,
    named.symm, rfl, rfl⟩
  unfold completed at accepted
  simp only [parseWith, if_pos accepted, settings]
  rfl

theorem parseWith_error (lawful : checker.Lawful) (once : NamesOnce given)
    (first : Field.FirstFailing (Field.Fits given) f) :
    ∃ message, parseWith checker given = .error (.invalidArgs (.config f.path message)) := by
  have complete := Field.complete_completed once
  have failing := Field.firstFailing_completed once first
  have refused : ¬ checker.accepts (completed given) := by
    rw [lawful.accepts_iff _ complete]
    intro valid
    exact failing.fails (valid f)
  obtain ⟨message, rest, flaws⟩ := lawful.first_flaw _ complete f failing
  have path : f.path.isEmpty = false := by
    cases f <;> rfl
  refine ⟨message, ?_⟩
  unfold completed at refused flaws
  simp only [parseWith, if_neg refused, Checker.complaint, flaws, path, Bool.false_eq_true,
    if_false]

/-- The two ways in which a parse can end. -/
theorem parseWith_ends (lawful : checker.Lawful) (once : NamesOnce given) :
    ((∀ f : Field, f.Fits given) ∧
      ∃ config, parseWith checker given = .ok config ∧ config.Reflects given) ∨
    ∃ (f : Field) (message : String), Field.FirstFailing (Field.Fits given) f ∧
      parseWith checker given = .error (.invalidArgs (.config f.path message)) := by
  by_cases fits : ∀ f : Field, f.Fits given
  · exact .inl ⟨fits, parseWith_ok lawful once fits⟩
  · obtain ⟨f, first⟩ := Field.exists_firstFailing fits
    obtain ⟨message, refused⟩ := parseWith_error lawful once first
    exact .inr ⟨f, message, first, refused⟩

theorem parseWith_ok_iff (lawful : checker.Lawful) (once : NamesOnce given) :
    (∃ config, parseWith checker given = .ok config) ↔ ∀ f : Field, f.Fits given := by
  rcases parseWith_ends lawful once with ⟨fits, config, accepted, -⟩ | ⟨f, message, first, refused⟩
  · simp [accepted, fits]
  · rw [refused]
    constructor
    · rintro ⟨config, accepted⟩
      cases accepted
    · intro fits
      exact absurd (fits f) first.fails

theorem reflects_of_parseWith (lawful : checker.Lawful) (once : NamesOnce given) {config : Config}
    (accepted : parseWith checker given = .ok config) : config.Reflects given := by
  obtain ⟨config', accepted', reflects⟩ :=
    parseWith_ok lawful once ((parseWith_ok_iff lawful once).1 ⟨config, accepted⟩)
  rw [accepted] at accepted'
  cases accepted'
  exact reflects

/-- A path is named when it is that of the first field that does not fit. -/
theorem parseWith_names_iff (lawful : checker.Lawful) (once : NamesOnce given) (path : String) :
    (∃ message, parseWith checker given = .error (.invalidArgs (.config path message))) ↔
      ∃ f : Field, f.path = path ∧ Field.FirstFailing (Field.Fits given) f := by
  constructor
  · rintro ⟨message, refused⟩
    rcases parseWith_ends lawful once with ⟨-, config, accepted, -⟩ | ⟨f, text, first, refused'⟩
    · rw [accepted] at refused
      cases refused
    · rw [refused'] at refused
      cases refused
      exact ⟨f, rfl, first⟩
  · rintro ⟨f, rfl, first⟩
    exact parseWith_error lawful once first

theorem parseWith_error_iff (lawful : checker.Lawful) (once : NamesOnce given) (f : Field) :
    (∃ message, parseWith checker given = .error (.invalidArgs (.config f.path message))) ↔
      Field.FirstFailing (Field.Fits given) f := by
  rw [parseWith_names_iff lawful once]
  constructor
  · rintro ⟨f', same, first⟩
    rwa [← Field.path_injective same]
  · intro first
    exact ⟨f, rfl, first⟩

/-- A configuration is accepted when every field admits its effective value, and then has these
values; otherwise the first field that does not is named, by its path. -/
theorem parseWith_spec (lawful : checker.Lawful) (once : NamesOnce given) :
    Field.all.map Field.path =
      ["/strategy", "/args", "/args/maxInputs", "/args/minChangeAmount", "/minPriority",
        "/minPriority/minAvgValueAgePerInput"] ∧
    ((∃ config, parseWith checker given = .ok config) ↔ ∀ f : Field, f.Fits given) ∧
    (∀ config, parseWith checker given = .ok config → config.Reflects given) ∧
    (∀ f : Field, Field.FirstFailing (Field.Fits given) f ↔
      ∃ message, parseWith checker given = .error (.invalidArgs (.config f.path message))) ∧
    ∀ fault, parseWith checker given = .error fault → ∃ (f : Field) (message : String),
      fault = .invalidArgs (.config f.path message) ∧
      fault.failure? =
        some (.invalidArgs ("coinset: invalid config at " ++ f.path ++ ": " ++ message)) := by
  refine ⟨by decide, parseWith_ok_iff lawful once, fun _ => reflects_of_parseWith lawful once,
    fun f => (parseWith_error_iff lawful once f).symm, ?_⟩
  intro fault refused
  rcases parseWith_ends lawful once with ⟨-, config, accepted, -⟩ | ⟨f, message, -, refused'⟩
  · rw [accepted] at refused
    cases refused
  · rw [refused'] at refused
    cases refused
    exact ⟨f, message, rfl, rfl⟩

/-- A section that is given in part, with a field that is missing; and three faults, of which the
one reported was given last. -/
theorem parseWith_spec_partial :
    ∃ given flawed : Value,
      (∃ config, parseWith schema given = .ok config ∧ config.settings.strategy = .maxValueAge ∧
        Field.maxInputs.valueIn (.object config.entries) = .number 20) ∧
      ∃ message, parseWith schema flawed =
        .error (.invalidArgs (.config "/args/maxInputs" message)) := by
  let given : Value := .object
    [("note", .list [.null]), ("strategy", .string "max-value-age"),
      ("args", .object [("maxInputs", .missing), ("minChangeAmount", .number (-0.0))]),
      ("__proto__", .object [("strategy", .null)]), ("minPriority", .missing)]
  let flawed : Value := .object
    [("minPriority", .null),
      ("args", .object [("minChangeAmount", .bool true), ("maxInputs", .number 2.5)])]
  have once : NamesOnce given := ⟨by decide, by intro f; cases f <;> decide⟩
  have once' : NamesOnce flawed := ⟨by decide, by intro f; cases f <;> decide⟩
  have fits : ∀ f : Field, f.Fits given := by
    intro f
    cases f with
    | strategy => exact ⟨.maxValueAge, rfl⟩
    | args => exact ⟨_, rfl⟩
    | minPriority => exact ⟨_, rfl⟩
    | maxInputs => exact ⟨_, rfl, by decide +kernel⟩
    | minChangeAmount => exact ⟨_, rfl, by decide +kernel⟩
    | minAvgValueAgePerInput => exact ⟨_, rfl, by decide +kernel⟩
  have first : Field.FirstFailing (Field.Fits flawed) .maxInputs := by
    constructor
    · rintro ⟨x, same, whole⟩
      cases same
      revert whole
      decide +kernel
    · intro f earlier
      cases f with
      | strategy => exact ⟨.minNumber, rfl⟩
      | args => exact ⟨_, rfl⟩
      | _ => exact absurd earlier (by decide)
  obtain ⟨-, accepts, reflects, -⟩ := parseWith_spec schema_lawful once
  obtain ⟨-, -, -, names, -⟩ := parseWith_spec schema_lawful once'
  obtain ⟨config, accepted⟩ := accepts.2 fits
  have reflected := reflects config accepted
  refine ⟨given, flawed, ⟨config, accepted, ?_, reflected.fields .maxInputs rfl⟩,
    (names .maxInputs).1 first⟩
  have named : Value.string config.settings.strategy.name = .string Strategy.maxValueAge.name :=
    reflected.strategy
  injection named with named
  have known := congrArg Strategy.ofName? named
  rw [Strategy.ofName?_name, Strategy.ofName?_name] at known
  exact Option.some.inj known

end CoinSelection.Config
