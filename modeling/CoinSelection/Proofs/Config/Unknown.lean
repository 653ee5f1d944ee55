/-
# CoinSelection.Proofs.Config.Unknown -- keys that are not recognised

At each level at which a configuration is merged, the top and the two sections, an accepted
configuration has the keys of the defaults and the keys that were given there, except those without
a value and the one that sets what is inherited (`Layer.mem_keys_overlay`).

A key that has no default is not found in the object that is being made, so it is looked up in what
that object inherits by then.  Where an object is inherited for the key, an object that is given for
it is laid over that one; any other value is kept as it was given (`unknown_keys_laid`).  So what
becomes of the key depends on the entries in front of it, though only on one of them.
-/
import Mathlib
import CoinSelection.Proofs.Config.Inert

namespace CoinSelection

set_option autoImplicit false

/-- A value is kept when it is laid over another, unless both are objects and it lacks something of
the other. -/
theorem Value.laid_eq_self_iff {lower v : Value} (present : v ≠ .missing) :
    lower.laid v = v ↔
      ∀ base top, lower = .object base → v = .object top → Config.merge base top = top := by
  cases lower with
  | object base =>
      cases v with
      | missing => exact absurd rfl present
      | object top => simp [laid]
      | _ => simp [laid]
  | _ =>
      cases v with
      | missing => exact absurd rfl present
      | _ => simp [laid]

theorem Value.lookup_append (key : String) (front back : List (String × Value)) :
    lookup key (front ++ back) = (lookup key front <|> lookup key back) := by
  simp [lookup, List.find?_append, Option.map_or]

/-! ## Keys -/

namespace Config.Layer

open Value (lookup)

variable {key other : String} {v : Value} {l : Layer} {entries front back : Entries}

theorem lookup_visible (l : Layer) (key : String) : lookup key l.visible = l.get? key :=
  Value.lookup_append key l.own l.inherited

theorem overlay_append (l : Layer) (front back : Entries) :
    l.overlay (front ++ back) = (l.overlay front).overlay back := by
  induction front generalizing l with
  | nil => rw [List.nil_append, overlay]
  | cons entry front ih => rw [List.cons_append, overlay, overlay, ih]

/-- The entry that sets what is inherited adds no key, and neither does one without a value. -/
theorem own_overlayEntry_still (fixed : key = inheritanceKey ∨ v = .missing)
    (ordinary : inheritanceKey ∉ l.own.map (·.1)) : (l.overlayEntry (key, v)).own = l.own := by
  rcases fixed with rfl | rfl
  · rcases l.own_overlayEntry inheritanceKey v with same | ⟨w, -, plain, -⟩
    · exact same
    · simp [isInheritance, Value.lookup_eq_none ordinary] at plain
  · rw [overlayEntry]

theorem own_overlayEntry_put (ordinary : key ≠ inheritanceKey) (present : v ≠ .missing) :
    ∃ w, (l.overlayEntry (key, v)).own = put key w l.own := by
  have plain : l.isInheritance key = false := by simp [isInheritance, ordinary]
  cases v with
  | missing => exact absurd rfl present
  | _ =>
      simp only [overlayEntry, plain, Bool.false_eq_true, if_false]
      split <;> exact ⟨_, rfl⟩

theorem mem_keys_put (w : Value) (own : Entries) :
    key ∈ (put other w own).map (·.1) ↔ key ∈ own.map (·.1) ∨ key = other := by
  rw [keys_put, List.mem_append]
  split
  · rename_i listed
    constructor
    · rintro (old | new)
      · exact .inl old
      · cases new
    · rintro (old | rfl)
      · exact .inl old
      · exact .inl listed
  · rw [List.mem_singleton]

theorem mem_keys_overlayEntry (ordinary : inheritanceKey ∉ l.own.map (·.1)) :
    key ∈ (l.overlayEntry (other, v)).own.map (·.1) ↔
      key ∈ l.own.map (·.1) ∨ key = other ∧ other ≠ inheritanceKey ∧ v ≠ .missing := by
  by_cases fixed : other = inheritanceKey ∨ v = .missing
  · rw [own_overlayEntry_still fixed ordinary]
    tauto
  · rw [not_or] at fixed
    obtain ⟨w, put⟩ := l.own_overlayEntry_put fixed.1 fixed.2
    rw [put, mem_keys_put]
    tauto

/-- The keys of an object after entries were laid over it. -/
theorem mem_keys_overlay (orderly : Orderly l.own) (entries : Entries) :
    key ∈ (l.overlay entries).own.map (·.1) ↔
      key ∈ l.own.map (·.1) ∨
        key ≠ inheritanceKey ∧ ∃ v, (key, v) ∈ entries ∧ v ≠ .missing := by
  induction entries generalizing l with
  | nil => simp [overlay]
  | cons entry entries ih =>
      obtain ⟨other, w⟩ := entry
      rw [overlay, ih (orderly.overlayEntry _), mem_keys_overlayEntry orderly.ordinary]
      constructor
      · rintro ((old | ⟨rfl, ordinary, present⟩) | ⟨ordinary, v, listed, present⟩)
        · exact .inl old
        · exact .inr ⟨ordinary, w, List.mem_cons_self, present⟩
        · exact .inr ⟨ordinary, v, List.mem_cons_of_mem _ listed, present⟩
      · rintro (old | ⟨ordinary, v, listed, present⟩)
        · exact .inl (.inl old)
        · rcases List.mem_cons.1 listed with here | later
          · cases here
            exact .inl (.inr ⟨rfl, ordinary, present⟩)
          · exact .inr ⟨ordinary, v, later, present⟩

/-! ## What is inherited -/

theorem inherited_overlayEntry_ne (ordinary : key ≠ inheritanceKey) (v : Value) :
    (l.overlayEntry (key, v)).inherited = l.inherited := by
  have plain : l.isInheritance key = false := by simp [isInheritance, ordinary]
  cases v with
  | missing => rw [overlayEntry]
  | _ =>
      simp only [overlayEntry, plain, Bool.false_eq_true, if_false]
      split <;> rfl

theorem inherited_overlayEntry_self (ordinary : inheritanceKey ∉ l.own.map (·.1))
    (inherits : l.inherited = []) (v : Value) :
    (l.overlayEntry (inheritanceKey, v)).inherited = (onto [] v).visible := by
  have sets : l.isInheritance inheritanceKey := by
    simp [isInheritance, Value.lookup_eq_none ordinary]
  cases v with
  | missing => simp [overlayEntry, inherits, onto, visible]
  | _ => simp only [overlayEntry, sets, if_true]

theorem inherited_overlay_of_notMem (absent : inheritanceKey ∉ entries.map (·.1)) (l : Layer) :
    (l.overlay entries).inherited = l.inherited := by
  induction entries generalizing l with
  | nil => rw [overlay]
  | cons entry entries ih =>
      obtain ⟨key, v⟩ := entry
      rw [List.map_cons, List.mem_cons, not_or] at absent
      rw [overlay, ih absent.2, inherited_overlayEntry_ne (Ne.symm absent.1)]

/-- One entry sets what is inherited; the others have no part in it. -/
theorem inherited_overlay (orderly : Orderly l.own) (inherits : l.inherited = [])
    (distinct : (entries.map (·.1)).Nodup) :
    (l.overlay entries).inherited =
      (onto [] ((Value.object entries).field inheritanceKey)).visible := by
  induction entries generalizing l with
  | nil =>
      rw [overlay, inherits]
      rfl
  | cons entry entries ih =>
      obtain ⟨key, v⟩ := entry
      obtain ⟨fresh, distinct⟩ := List.nodup_cons.1 distinct
      rw [overlay, Value.field, Value.entries]
      by_cases sets : key = inheritanceKey
      · subst sets
        rw [inherited_overlay_of_notMem fresh,
          inherited_overlayEntry_self orderly.ordinary inherits, Value.lookup_cons_self,
          Option.getD_some]
      · rw [ih (orderly.overlayEntry _) ((inherited_overlayEntry_ne sets v).trans inherits) distinct,
          Value.lookup_cons_ne sets, Value.field, Value.entries]

/-! ## A key that is new -/

theorem lookup_overlay_of_notMem (absent : key ∉ entries.map (·.1)) (l : Layer) :
    lookup key (l.overlay entries).own = lookup key l.own := by
  induction entries generalizing l with
  | nil => rw [overlay]
  | cons entry entries ih =>
      obtain ⟨other, v⟩ := entry
      rw [List.map_cons, List.mem_cons, not_or] at absent
      rw [overlay, ih absent.2, lookup_overlayEntry_ne (Ne.symm absent.1)]

/-- A new key gets the value that is given for it, laid over the one that is inherited. -/
theorem lookup_overlayEntry_new (absent : lookup key l.own = none) (ordinary : key ≠ inheritanceKey)
    (present : v ≠ .missing) :
    lookup key (l.overlayEntry (key, v)).own =
      some (((lookup key l.inherited).getD .missing).laid v) := by
  have plain : l.isInheritance key = false := by simp [isInheritance, ordinary]
  have shows : l.get? key = lookup key l.inherited := by simp [get?, absent]
  cases v with
  | missing => exact absurd rfl present
  | _ =>
      simp only [overlayEntry, plain, shows, Bool.false_eq_true, if_false]
      cases lookup key l.inherited with
      | none => exact lookup_put_self ..
      | some lower => cases lower <;> exact lookup_put_self ..

end Config.Layer

namespace Config

open Layer (Orderly)

/-- What an object inherits for a key when the entries in front of the key were laid over it. -/
def inheritedFor (key : String) (entries : Entries) : Value :=
  let front := entries.takeWhile (·.1 != key)
  ((Layer.onto [] ((Value.object front).field inheritanceKey)).get? key).getD .missing

theorem takeWhile_ne {key : String} {front : Entries} (absent : key ∉ front.map (·.1)) (v : Value)
    (back : Entries) : (front ++ (key, v) :: back).takeWhile (·.1 != key) = front := by
  have others : ∀ entry ∈ front, (entry.1 != key) = true := by
    intro entry listed
    rw [bne_iff_ne]
    rintro rfl
    exact absent (List.mem_map_of_mem listed)
  rw [List.takeWhile_append_of_pos others, List.takeWhile_cons_of_neg (by simp), List.append_nil]

theorem onto_of_not_object {v : Value} (plain : v.isObject = false) (base : Entries) :
    Layer.onto base v = ⟨base, []⟩ := by
  cases v with
  | object entries => cases plain
  | _ => simp [Layer.onto]

/-- Nothing is inherited where no object is given to inherit from. -/
theorem inheritedFor_eq_missing {entries : Entries}
    (plain : ((Value.object entries).field inheritanceKey).isObject = false) (key : String) :
    inheritedFor key entries = .missing := by
  have whole := List.takeWhile_append_dropWhile (p := fun entry => entry.1 != key) (l := entries)
  have front : ((Value.object (entries.takeWhile (·.1 != key))).field inheritanceKey).isObject =
      false := by
    rw [← whole] at plain
    simp only [Value.field, Value.entries, Value.lookup_append] at plain ⊢
    cases there : Value.lookup inheritanceKey (entries.takeWhile (·.1 != key)) with
    | none => rfl
    | some v =>
        rw [there] at plain
        exact plain
  rw [inheritedFor, onto_of_not_object front]
  rfl

/-- What becomes of a key that the lower object does not have. -/
theorem lookup_merge_new {base entries : Entries} {key : String} {v : Value}
    (orderly : Orderly base) (distinct : (entries.map (·.1)).Nodup)
    (absent : key ∉ base.map (·.1)) (ordinary : key ≠ inheritanceKey) (present : v ≠ .missing)
    (listed : (key, v) ∈ entries) :
    Value.lookup key (merge base entries) = some ((inheritedFor key entries).laid v) := by
  obtain ⟨front, back, rfl⟩ := List.append_of_mem listed
  rw [List.map_append, List.map_cons] at distinct
  have fresh : key ∉ front.map (·.1) := by
    intro earlier
    exact List.disjoint_of_nodup_append distinct earlier List.mem_cons_self
  have last : key ∉ back.map (·.1) := (List.nodup_cons.1 distinct.of_append_right).1
  have new : Value.lookup key (Layer.overlay ⟨base, []⟩ front).own = none := by
    rw [Layer.lookup_overlay_of_notMem fresh]
    exact Value.lookup_eq_none absent
  have inherits := Layer.inherited_overlay (l := ⟨base, []⟩) orderly rfl distinct.of_append_left
  rw [merge, Layer.overlay_append, Layer.overlay, Layer.lookup_overlay_of_notMem last,
    Layer.lookup_overlayEntry_new new ordinary present, inherits, Layer.lookup_visible, inheritedFor,
    takeWhile_ne fresh]

/-! ## The levels of a configuration -/

/-- The levels at which what is given is merged with the defaults: the top, and the sections. -/
def levels : List (Option Field) := [none, some .args, some .minPriority]

/-- The entries of a value at a level. -/
def entriesAt (level : Option Field) (v : Value) : Entries :=
  match level with
  | none => v.entries
  | some s => (s.valueIn v).entries

variable {checker : Checker} {given : Value} {config : Config} {level : Option Field}

theorem NamesOnce.entriesAt (once : NamesOnce given) (level : Option Field) :
    ((entriesAt level given).map (·.1)).Nodup := by
  cases level with
  | none => exact once.top
  | some s => exact once.sections s

theorem isSection_of_level {s : Field} (merged : some s ∈ levels) : s.isSection := by
  cases s <;> first | rfl | simp [levels] at merged

theorem orderly_level (merged : level ∈ levels) :
    Orderly (entriesAt level (.object defaults)) := by
  cases level with
  | none => exact orderly_defaults
  | some s =>
      have isSection := isSection_of_level merged
      obtain ⟨base, isBase, orderly, -⟩ := plain_section isSection
      have top := Field.section?_of_isSection isSection
      rw [entriesAt, Field.valueIn_top top, Value.field, Value.entries, isBase]
      exact orderly

/-- At each level an accepted configuration is what was given there, laid over the defaults. -/
theorem entriesAt_of_parseWith (lawful : checker.Lawful) (once : NamesOnce given)
    (accepted : parseWith checker given = .ok config) (merged : level ∈ levels) :
    entriesAt level (.object config.entries) =
      merge (entriesAt level (.object defaults)) (entriesAt level given) := by
  have entries := (made_of_parseWith accepted).1
  cases level with
  | none => exact entries
  | some s =>
      have isSection := isSection_of_level merged
      have top := Field.section?_of_isSection isSection
      have fits := (parseWith_ok_iff lawful once).1 ⟨config, accepted⟩ s
      rw [Field.Fits, Field.admits_section isSection, Field.effective] at fits
      obtain ⟨base, isBase, -, -⟩ := plain_section isSection
      have default : s.valueIn (.object defaults) = .object base := by
        rw [Field.valueIn_top top, Value.field, Value.entries, isBase, Option.getD_some]
      have whole := Field.valueIn_completed_top once top
      rw [completed, ← entries, default] at whole
      simp only [entriesAt, whole, default]
      -- an accepted section is an object, or was not given
      cases top : s.valueIn given with
      | missing =>
          rw [Value.laid_missing]
          rfl
      | object entries => rfl
      | _ =>
          rw [top] at fits
          cases fits

/-! ## The outcome -/

/-- At every level the keys of an accepted configuration are those of the defaults and those that
were given with a value, except for the one that sets what is inherited.  A key without a default
has the value that was given for it, laid over the value that is inherited for it by then; this is
the value that was given unless both are objects and differ when they are laid over each other, so
it is where no object is given to inherit from. -/
theorem unknown_keys_laid (lawful : checker.Lawful) (once : NamesOnce given)
    (accepted : parseWith checker given = .ok config) (merged : level ∈ levels) :
    ((entriesAt level (.object config.entries)).map (·.1)).Nodup ∧
    (∀ key, key ∈ (entriesAt level (.object config.entries)).map (·.1) ↔
      key ∈ (entriesAt level (.object defaults)).map (·.1) ∨
        key ≠ inheritanceKey ∧ ∃ v, (key, v) ∈ entriesAt level given ∧ v ≠ .missing) ∧
    ∀ key v, (key, v) ∈ entriesAt level given → v ≠ .missing → key ≠ inheritanceKey →
      key ∉ (entriesAt level (.object defaults)).map (·.1) →
        Value.lookup key (entriesAt level (.object config.entries)) =
          some ((inheritedFor key (entriesAt level given)).laid v) ∧
        (Value.lookup key (entriesAt level (.object config.entries)) = some v ↔
          ∀ base top, inheritedFor key (entriesAt level given) = .object base → v = .object top →
            merge base top = top) ∧
        (((Value.object (entriesAt level given)).field inheritanceKey).isObject = false →
          Value.lookup key (entriesAt level (.object config.entries)) = some v) := by
  have orderly := orderly_level merged
  rw [entriesAt_of_parseWith lawful once accepted merged]
  refine ⟨(Orderly.overlay (l := ⟨_, []⟩) orderly _).distinct,
    fun key => Layer.mem_keys_overlay (l := ⟨_, []⟩) orderly _, ?_⟩
  intro key v listed present ordinary absent
  have laid := lookup_merge_new orderly (once.entriesAt level) absent ordinary present listed
  refine ⟨laid, ?_, ?_⟩
  · rw [laid, Option.some.injEq]
    exact Value.laid_eq_self_iff present
  · intro plain
    rw [laid, inheritedFor_eq_missing plain, Value.laid_of_not_object rfl]
    cases v with
    | missing => exact absurd rfl present
    | _ => rfl

/-- Two keys around an entry that sets what is inherited for both: the one in front is kept, the one
behind is laid over it.  A key without a value is dropped, and what is inherited at the top does not
reach into a section. -/
theorem unknown_keys_laid_around :
    ∃ (given : Value) (config : Config), NamesOnce given ∧
      parseWith schema given = .ok config ∧ none ∈ levels ∧ some .args ∈ levels ∧
      "dropped" ∉ config.entries.map (·.1) ∧
      Value.lookup "front" config.entries = some (.object [("given", .null)]) ∧
      Value.lookup "behind" config.entries =
        some (.object [("inherited", .null), ("given", .null)]) ∧
      Value.lookup "behind" (entriesAt (some .args) (.object config.entries)) =
        some (.object [("given", .list [])]) := by
  let alone : Value := .object [("given", .null)]
  let within : Value := .object [("given", .list [])]
  let given : Value := .object
    [("front", alone),
      ("__proto__", .object [("front", .object [("inherited", .null)]),
        ("behind", .object [("inherited", .null)])]),
      ("dropped", .missing), ("behind", alone), ("args", .object [("behind", within)])]
  have once : NamesOnce given := by decide +kernel
  have fits : ∀ f : Field, f.Fits given := by decide +kernel
  have top : none ∈ levels := by simp [levels]
  have inArgs : some .args ∈ levels := by simp [levels]
  obtain ⟨config, accepted⟩ := (parseWith_ok_iff schema_lawful once).2 fits
  obtain ⟨-, keys, values⟩ := unknown_keys_laid schema_lawful once accepted top
  obtain ⟨-, -, values'⟩ := unknown_keys_laid schema_lawful once accepted inArgs
  have isFirst : ("front", alone) ∈ entriesAt none given := List.mem_cons_self
  have isLater : ("behind", alone) ∈ entriesAt none given := by simp [entriesAt, Value.entries, given]
  have isWithin : ("behind", within) ∈ entriesAt (some .args) given := List.mem_cons_self
  obtain ⟨front, -, -⟩ := values "front" alone isFirst (by simp [alone]) (by decide) (by decide)
  obtain ⟨behind, -, -⟩ := values "behind" alone isLater (by simp [alone]) (by decide) (by decide)
  obtain ⟨-, -, kept⟩ := values' "behind" within isWithin (by simp [within]) (by decide) (by decide)
  refine ⟨given, config, once, accepted, top, inArgs, ?_, front, behind, kept (by decide)⟩
  intro present
  rcases (keys "dropped").1 present with default | ⟨-, v, listed, present⟩
  · revert default
    decide
  · simp [entriesAt, Value.entries, given] at listed
    exact present listed

/-- An object that is given for a key without a default, and is not what the key has. -/
theorem unknown_key_not_kept :
    ¬ ∀ (given : Value) (config : Config), NamesOnce given → parse given = .ok config →
      ∀ key v, (key, v) ∈ given.entries → v ≠ .missing → key ≠ inheritanceKey →
        key ∉ defaults.map (·.1) → Value.lookup key config.entries = some v := by
  intro kept
  let x : Value := .object [("b", .number 2)]
  let given : Value := .object [("__proto__", .object [("x", .object [("a", .number 1)])]), ("x", x)]
  have once : NamesOnce given := by decide +kernel
  have fits : ∀ f : Field, f.Fits given := by decide +kernel
  obtain ⟨config, accepted⟩ := (parseWith_ok_iff schema_lawful once).2 fits
  have listed : ("x", x) ∈ given.entries := List.mem_cons_of_mem _ List.mem_cons_self
  have same :=
    kept given config once accepted "x" x listed (by simp [x]) (by decide) (by decide)
  have merged : Value.lookup "x" (merge defaults given.entries) =
      some (.object [("a", .number 1), ("b", .number 2)]) := rfl
  rw [(made_of_parseWith accepted).1, merged] at same
  simp [x] at same

end Config

end CoinSelection
