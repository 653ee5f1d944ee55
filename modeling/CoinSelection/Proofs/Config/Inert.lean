/-
# CoinSelection.Proofs.Config.Inert -- what makes no difference to a configuration

A configuration that was accepted can be given again, and is accepted as it is: completing it
changes nothing (`merge_completed`), since each default gives way to the value that was laid over
it, and gives way to it again.

An entry that sets what an object inherits from is no field.  Without such entries, at the top and
in the sections (`disinherited`), every field has what it had, and so the outcome is the same:
`parseWith_inert`.  It may still show in fields that are not recognised.
-/
import Mathlib
import CoinSelection.Proofs.Config.Parse

namespace CoinSelection

set_option autoImplicit false

/-! ## Without entries that set what is inherited -/

namespace Value

variable {key : String} {entries : List (String × Value)}

theorem lookup_filter {keep : String × Value → Bool} (kept : ∀ v, keep (key, v)) :
    lookup key (entries.filter keep) = lookup key entries := by
  induction entries with
  | nil => rfl
  | cons entry entries ih =>
      obtain ⟨other, v⟩ := entry
      by_cases same : other = key
      · subst same
        rw [List.filter_cons_of_pos (kept v), lookup_cons_self, lookup_cons_self]
      · rw [lookup_cons_ne same, ← ih, List.filter_cons]
        split
        · exact lookup_cons_ne same
        · rfl

/-- Values that are changed under their keys. -/
theorem lookup_map (change : String → Value → Value) :
    lookup key (entries.map fun entry => (entry.1, change entry.1 entry.2)) =
      (lookup key entries).map (change key) := by
  induction entries with
  | nil => rfl
  | cons entry entries ih =>
      obtain ⟨other, v⟩ := entry
      rw [List.map_cons]
      by_cases same : other = key
      · subst same
        rw [lookup_cons_self, lookup_cons_self, Option.map_some]
      · rw [lookup_cons_ne same, lookup_cons_ne same, ih]

/-- A value without an entry that sets what it inherits from. -/
def ordinary : Value → Value
  | object entries => object (entries.filter fun entry => entry.1 != Config.inheritanceKey)
  | v => v

theorem entries_ordinary_sublist (v : Value) : v.ordinary.entries.Sublist v.entries := by
  cases v with
  | object entries => exact List.filter_sublist
  | _ => exact List.Sublist.refl _

theorem field_ordinary (isOrdinary : key ≠ Config.inheritanceKey) (v : Value) :
    v.ordinary.field key = v.field key := by
  cases v with
  | object entries =>
      rw [field, ordinary, Value.entries, lookup_filter (by simpa using isOrdinary)]
      rfl
  | _ => rfl

theorem isObject_ordinary_orElse (v other : Value) :
    (v.ordinary.orElse other).isObject = (v.orElse other).isObject := by
  cases v <;> rfl

end Value

namespace Config

/-- Whether a key is that of a section. -/
def isSectionKey (key : String) : Bool := Field.all.any fun f => f.isSection && f.key == key

/-- What is given, without entries that set what is inherited: at the top, and in the sections. -/
def disinherited (given : Value) : Value :=
  match given.ordinary with
  | .object entries => .object (entries.map fun entry =>
      (entry.1, if isSectionKey entry.1 then entry.2.ordinary else entry.2))
  | v => v

namespace Field

variable {given : Value} {f : Field}

theorem key_ne_inheritanceKey (f : Field) : f.key ≠ inheritanceKey := by
  cases f <;> decide

theorem isSectionKey_key (f : Field) : isSectionKey f.key = f.isSection := by
  cases f <;> decide

/-- At the top a section lacks its own such entry, and every other field is as it was. -/
theorem field_disinherited (f : Field) (given : Value) :
    (disinherited given).field f.key =
      if f.isSection then (given.field f.key).ordinary else given.field f.key := by
  have top := Value.field_ordinary f.key_ne_inheritanceKey given
  rw [← f.isSectionKey_key, ← top, disinherited]
  cases given.ordinary with
  | object entries =>
      rw [Value.field, Value.entries, Value.lookup_map fun key v =>
        if isSectionKey key then v.ordinary else v, Value.field, Value.entries]
      cases Value.lookup f.key entries with
      | none => cases isSectionKey f.key <;> rfl
      | some v => rfl
  | _ => cases isSectionKey f.key <;> rfl

theorem valueIn_disinherited_section (isSection : f.isSection) (given : Value) :
    f.valueIn (disinherited given) = (f.valueIn given).ordinary := by
  have top := section?_of_isSection isSection
  rw [valueIn_top top, valueIn_top top, field_disinherited, if_pos isSection]

theorem valueIn_disinherited (scalar : f.isSection = false) (given : Value) :
    f.valueIn (disinherited given) = f.valueIn given := by
  cases inside : f.section? with
  | none =>
      rw [valueIn_top inside, valueIn_top inside, field_disinherited, scalar]
      rfl
  | some s =>
      rw [valueIn_eq inside, valueIn_eq inside,
        valueIn_disinherited_section (isSection_of_section inside),
        Value.field_ordinary f.key_ne_inheritanceKey]

/-- No field notices. -/
theorem fits_disinherited (given : Value) : Fits (disinherited given) = Fits given := by
  funext f
  apply propext
  unfold Fits effective
  cases isSection : f.isSection with
  | false => rw [valueIn_disinherited isSection]
  | true =>
      rw [admits_section isSection, admits_section isSection,
        valueIn_disinherited_section isSection, Value.isObject_ordinary_orElse]

end Field

theorem NamesOnce.disinherited {given : Value} (once : NamesOnce given) :
    NamesOnce (disinherited given) where
  top := by
    have sublist := (given.entries_ordinary_sublist.map (·.1)).nodup once.top
    unfold Config.disinherited
    cases plain : given.ordinary with
    | object entries =>
        rw [plain] at sublist
        simpa [Value.entries, Function.comp_def] using sublist
    | _ => exact List.nodup_nil
  sections f := by
    cases isSection : f.isSection with
    | false =>
        rw [Field.valueIn_disinherited isSection]
        exact once.sections f
    | true =>
        rw [Field.valueIn_disinherited_section isSection]
        exact ((Value.entries_ordinary_sublist _).map (·.1)).nodup (once.sections f)

/-! ## Completing what is complete -/

theorem orderly_defaults : Layer.Orderly defaults where
  distinct := by decide
  ordinary := by decide
  present := by simp [defaults]

/-- The defaults of a section are in order, and are no objects. -/
theorem plain_section {s : Field} (isSection : s.isSection) :
    ∃ base, Value.lookup s.key defaults = some (.object base) ∧ Layer.Orderly base ∧
      ∀ entry ∈ base, entry.2.isObject = false := by
  cases s <;> first
    | exact ⟨_, rfl, ⟨by decide, by decide, by simp⟩, by simp [Value.isObject]⟩
    | cases isSection

/-- Each default gives way to what is laid over it, and again. -/
theorem settled_default {given : Value} (once : NamesOnce given) (f : Field)
    (top : f.section? = none) {lower : Value} (default : Value.lookup f.key defaults = some lower) :
    lower.laid (lower.laid (given.field f.key)) = lower.laid (given.field f.key) := by
  cases isSection : f.isSection with
  | false =>
      refine Value.laid_laid_of_not_object ?_ _
      cases f with
      | strategy =>
          cases default
          rfl
      | args | minPriority => cases isSection
      | maxInputs | minChangeAmount | minAvgValueAgePerInput => cases top
  | true =>
      obtain ⟨base, isBase, orderly, plain⟩ := plain_section isSection
      obtain rfl := Option.some.inj (default.symm.trans isBase)
      refine Value.laid_laid_of_plain orderly plain ?_
      rw [← Field.valueIn_top top]
      exact once.sections f

/-- What was completed is complete. -/
theorem merge_completed {given : Value} (once : NamesOnce given) :
    merge defaults (merge defaults given.entries) = merge defaults given.entries := by
  refine merge_merge orderly_defaults given once.top ?_
  intro key lower default
  obtain ⟨f, top, rfl⟩ : ∃ f : Field, f.section? = none ∧ f.key = key := by
    have listed := List.mem_map_of_mem (f := (·.1)) (Value.mem_of_lookup default)
    simp only [defaults, List.map_cons, List.map_nil, List.mem_cons, List.not_mem_nil,
      or_false] at listed
    rcases listed with rfl | rfl | rfl
    · exact ⟨.strategy, rfl, rfl⟩
    · exact ⟨.args, rfl, rfl⟩
    · exact ⟨.minPriority, rfl, rfl⟩
  exact settled_default once f top default

/-! ## The outcome -/

variable {checker : Checker} {given : Value}

/-- A configuration that was accepted is accepted as it is when it is given again, with the same
entries at every level.  Entries that set what is inherited, at the top and in the sections, make no
difference to what is accepted, to the field that is named first, or to what the fields have. -/
theorem parseWith_inert (lawful : checker.Lawful) (once : NamesOnce given) :
    (∀ config, parseWith checker given = .ok config →
      parseWith checker (.object config.entries) = .ok config) ∧
    ((∃ config, parseWith checker (disinherited given) = .ok config) ↔
      ∃ config, parseWith checker given = .ok config) ∧
    (∀ path,
      (∃ message,
        parseWith checker (disinherited given) = .error (.invalidArgs (.config path message))) ↔
      ∃ message, parseWith checker given = .error (.invalidArgs (.config path message))) ∧
    ∀ config config', parseWith checker given = .ok config →
      parseWith checker (disinherited given) = .ok config' →
      config'.settings.strategy = config.settings.strategy ∧
      ∀ f : Field, f.isSection = false →
        f.valueIn (.object config'.entries) = f.valueIn (.object config.entries) := by
  have same := Field.fits_disinherited given
  refine ⟨?_, ?_, ?_, ?_⟩
  · intro config accepted
    have entries := (made_of_parseWith accepted).1
    rw [parseWith, Value.entries, entries, merge_completed once]
    exact accepted
  · rw [parseWith_ok_iff lawful once.disinherited, parseWith_ok_iff lawful once, same]
  · intro path
    rw [parseWith_names_iff lawful once.disinherited, parseWith_names_iff lawful once, same]
  · intro config config' accepted accepted'
    have reflects := reflects_of_parseWith lawful once accepted
    have reflects' := reflects_of_parseWith lawful once.disinherited accepted'
    have effective : ∀ f : Field, f.isSection = false →
        f.effective (disinherited given) = f.effective given := by
      intro f scalar
      rw [Field.effective, Field.valueIn_disinherited scalar, Field.effective]
    refine ⟨Strategy.name_injective ?_, ?_⟩
    · have named := reflects'.strategy.trans (effective .strategy rfl)
      exact Value.string.inj (named.trans reflects.strategy.symm)
    · intro f scalar
      rw [reflects'.fields f scalar, effective f scalar, reflects.fields f scalar]

/-- An entry that sets what is inherited, over every field and inside of a section; and a value that
only such an entry would have set right. -/
theorem parseWith_inert_prototypes :
    ∃ given flawed : Value,
      (∃ config config', parseWith schema given = .ok config ∧
        parseWith schema (.object config.entries) = .ok config ∧
        parseWith schema (disinherited given) = .ok config' ∧
        config'.settings.strategy = config.settings.strategy ∧
        Field.maxInputs.valueIn (.object config'.entries) =
          Field.maxInputs.valueIn (.object config.entries)) ∧
      ∃ message, parseWith schema (disinherited flawed) =
        .error (.invalidArgs (.config "/args/minChangeAmount" message)) := by
  let given : Value := .object
    [("__proto__", .object [("strategy", .string "min-index"), ("note", .object [("a", .null)]),
        ("args", .object [("maxInputs", .number 1)])]),
      ("note", .object [("b", .list []), ("__proto__", .null)]),
      ("args", .object
        [("__proto__", .object [("maxInputs", .null)]), ("minChangeAmount", .number 7)])]
  let flawed : Value := .object
    [("args", .object [("__proto__", .object [("minChangeAmount", .number 7)]),
      ("minChangeAmount", .number (-1))])]
  have once : NamesOnce given := by decide +kernel
  have once' : NamesOnce flawed := by decide +kernel
  have fits : ∀ f : Field, f.Fits given := by decide +kernel
  have first : Field.FirstFailing (Field.Fits flawed) .minChangeAmount := by decide +kernel
  obtain ⟨again, accepts, -, same⟩ := parseWith_inert schema_lawful once
  obtain ⟨-, -, names, -⟩ := parseWith_inert schema_lawful once'
  obtain ⟨config, accepted⟩ := (parseWith_ok_iff schema_lawful once).2 fits
  obtain ⟨config', accepted'⟩ := accepts.2 ⟨config, accepted⟩
  obtain ⟨strategy, fields⟩ := same config config' accepted accepted'
  have refused := (parseWith_error_iff schema_lawful once' .minChangeAmount).2 first
  exact ⟨given, flawed, ⟨config, config', accepted, again config accepted, accepted', strategy,
    fields .maxInputs rfl⟩, (names _).2 refused⟩

end Config

end CoinSelection
