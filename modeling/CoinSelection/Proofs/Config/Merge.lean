/-
# CoinSelection.Proofs.Config.Merge -- what a key has after a merge

A key that the lower object has itself ends with its own value overlaid with the one that is given
for the key (`lookup_merge`), whatever other keys are given and wherever the object inherits from:
an own value hides an inherited one.  `Value.laid` is the rule for one key.

An object that was given names each of its keys once; otherwise the last of the values would count.

What was laid over an object is laid over it again without a change (`merge_merge`): the result
begins with the keys of the object, and has no entry that sets what is inherited (`Layer.Orderly`).
-/
import Mathlib
import CoinSelection.Config.Merge

namespace CoinSelection

set_option autoImplicit false

namespace Value

variable {key other : String} {v : Value} {entries : List (String × Value)}

/-! ## Entries -/

@[simp] theorem lookup_nil (key : String) : lookup key [] = none := rfl

@[simp] theorem lookup_cons_self (key : String) (v : Value) (entries : List (String × Value)) :
    lookup key ((key, v) :: entries) = some v := by
  simp [lookup]

@[simp] theorem lookup_cons_ne (ne : other ≠ key) :
    lookup key ((other, v) :: entries) = lookup key entries := by
  simp [lookup, ne]

theorem lookup_eq_none (absent : key ∉ entries.map (·.1)) : lookup key entries = none := by
  simp only [lookup, Option.map_eq_none_iff, List.find?_eq_none, beq_iff_eq]
  intro entry listed same
  exact absent (List.mem_map.2 ⟨entry, listed, same⟩)

theorem mem_of_lookup (found : lookup key entries = some v) : (key, v) ∈ entries := by
  obtain ⟨⟨name, w⟩, here, rfl⟩ := Option.map_eq_some_iff.1 found
  have same : name = key := by simpa using List.find?_some here
  exact same ▸ List.mem_of_find?_eq_some here

theorem lookup_append_of_notMem {front back : List (String × Value)}
    (absent : key ∉ front.map (·.1)) : lookup key (front ++ back) = lookup key back := by
  induction front with
  | nil => rfl
  | cons entry front ih =>
      obtain ⟨other, w⟩ := entry
      rw [List.map_cons, List.mem_cons, not_or] at absent
      rw [List.cons_append, lookup_cons_ne (Ne.symm absent.1), ih absent.2]

/-- A value that no object has entries to lay over, or the value that is laid over it. -/
def laid : Value → Value → Value
  | lower, missing => lower
  | object base, object top => object (Config.merge base top)
  | _, v => v

@[simp] theorem laid_missing (lower : Value) : lower.laid missing = lower := by
  cases lower <;> rfl

/-- A value, or another one if it is missing. -/
def orElse : Value → Value → Value
  | missing, w => w
  | v, _ => v

/-- A value that is no object is replaced by any other. -/
theorem laid_of_not_object {lower : Value} (plain : lower.isObject = false) (v : Value) :
    lower.laid v = v.orElse lower := by
  cases lower with
  | object base => cases plain
  | _ => cases v <;> rfl

/-- Whether a value laid over an object leaves an object depends on that value alone. -/
theorem isObject_laid {lower other : Value} (object : lower.isObject) (object' : other.isObject)
    (v : Value) : (lower.laid v).isObject = (v.orElse other).isObject := by
  cases lower with
  | object base => cases v <;> first | rfl | exact object'.symm
  | _ => cases object

/-- A value that is no object gives way once. -/
theorem laid_laid_of_not_object {lower : Value} (plain : lower.isObject = false) (v : Value) :
    lower.laid (lower.laid v) = lower.laid v := by
  rw [laid_of_not_object plain, laid_of_not_object plain]
  cases v with
  | missing => cases lower <;> rfl
  | _ => rfl

theorem laid_ne_missing {lower : Value} (present : lower ≠ missing) (v : Value) :
    lower.laid v ≠ missing := by
  cases v with
  | missing => rwa [laid_missing]
  | _ => cases lower <;> nofun

end Value

namespace Config.Layer

open Value (lookup laid)

variable {key other : String} {v lower : Value} {l : Layer} {own : Entries}

theorem lookup_put_self (key : String) (v : Value) (entries : Entries) :
    lookup key (put key v entries) = some v := by
  induction entries with
  | nil => simp [put]
  | cons entry rest ih =>
      by_cases same : entry.1 = key
      · simp [put, same]
      · obtain ⟨other, w⟩ := entry
        simpa [put, same] using ih

theorem lookup_put_ne (ne : other ≠ key) (v : Value) (entries : Entries) :
    lookup key (put other v entries) = lookup key entries := by
  induction entries with
  | nil => simp [put, ne]
  | cons entry rest ih =>
      obtain ⟨name, w⟩ := entry
      by_cases same : name = other
      · subst same
        simp [put, ne]
      · by_cases here : name = key
        · subst here
          simp [put, same]
        · simpa [put, same, here] using ih

theorem put_append_of_notMem {front : Entries} (absent : key ∉ front.map (·.1)) (v : Value)
    (back : Entries) :
    put key v (front ++ back) = front ++ put key v back := by
  induction front with
  | nil => rfl
  | cons entry front ih =>
      rw [List.map_cons, List.mem_cons, not_or] at absent
      simp [put, Ne.symm absent.1, ih absent.2]

/-- The keys of an object keep their places, and a new one comes behind them. -/
theorem keys_put (key : String) (v : Value) (own : Entries) :
    (put key v own).map (·.1) =
      own.map (·.1) ++ if key ∈ own.map (·.1) then [] else [key] := by
  induction own with
  | nil => simp [put]
  | cons entry own ih =>
      by_cases same : entry.1 = key
      · simp [put, same]
      · have elsewhere : key ∈ (entry :: own).map (·.1) ↔ key ∈ own.map (·.1) := by
          simp [Ne.symm same]
        simp only [put, same, beq_iff_eq, if_false, List.map_cons, ih, List.cons_append]
        simp only [← List.map_cons, elsewhere]

theorem mem_put {entry : String × Value} (listed : entry ∈ put key v own) :
    entry = (key, v) ∨ entry ∈ own := by
  induction own with
  | nil => simpa [put] using listed
  | cons head own ih =>
      by_cases same : head.1 = key
      · simp only [put, same, beq_self_eq_true, if_true, List.mem_cons] at listed
        exact listed.imp_right (List.mem_cons_of_mem _)
      · simp only [put, same, beq_iff_eq, if_false, List.mem_cons] at listed
        rcases listed with rfl | listed
        · exact .inr List.mem_cons_self
        · exact (ih listed).imp_right (List.mem_cons_of_mem _)

/-! ## One entry -/

/-- An entry is laid over the value of its key. -/
theorem overlayEntry_own (found : lookup key l.own = some lower) (present : v ≠ .missing) :
    l.overlayEntry (key, v) = l.set key (lower.laid v) := by
  have hides : l.get? key = some lower := by simp [get?, found]
  have ordinary : l.isInheritance key = false := by simp [isInheritance, found]
  cases v with
  | missing => exact absurd rfl present
  | _ =>
      simp only [overlayEntry, hides, ordinary, Bool.false_eq_true, if_false]
      cases lower <;> rfl

theorem overlayEntry_new (absent : lookup key own = none) (ordinary : key ≠ inheritanceKey)
    (present : v ≠ .missing) :
    (Layer.mk own []).overlayEntry (key, v) = ⟨put key v own, []⟩ := by
  have shows : (Layer.mk own []).get? key = none := by simp [get?, absent]
  have plain : (Layer.mk own []).isInheritance key = false := by simp [isInheritance, ordinary]
  cases v with
  | missing => exact absurd rfl present
  | _ =>
      simp only [overlayEntry, shows, plain, Bool.false_eq_true, if_false]
      rfl

/-- An entry leaves the values of other keys alone. -/
theorem lookup_overlayEntry_ne (ne : other ≠ key) (v : Value) :
    lookup key (l.overlayEntry (other, v)).own = lookup key l.own := by
  cases v with
  | missing => rw [overlayEntry]
  | _ =>
      simp only [overlayEntry]
      split
      · rfl
      · split <;> exact lookup_put_ne ne _ _

theorem lookup_overlayEntry (own : lookup key l.own = some lower) (v : Value) :
    lookup key (l.overlayEntry (key, v)).own = some (lower.laid v) := by
  by_cases missing : v = .missing
  · rw [missing, overlayEntry, own, Value.laid_missing]
  · rw [overlayEntry_own own missing]
    exact lookup_put_self key _ l.own

/-! ## All entries -/

/-- Entries that name each key once. -/
theorem lookup_overlay {entries : Entries} (distinct : (entries.map (·.1)).Nodup)
    (own : lookup key l.own = some lower) :
    lookup key (l.overlay entries).own =
      some (lower.laid ((lookup key entries).getD .missing)) := by
  induction entries generalizing l lower with
  | nil => simpa [overlay] using own
  | cons entry rest ih =>
      obtain ⟨other, v⟩ := entry
      obtain ⟨fresh, distinct⟩ := List.nodup_cons.1 distinct
      rw [overlay]
      by_cases same : other = key
      · subst same
        have done := ih distinct (lookup_overlayEntry own v)
        rw [Value.lookup_eq_none fresh] at done
        simpa using done
      · have kept := (lookup_overlayEntry_ne same v).trans own
        simpa [same] using ih distinct kept

/-! ## Laying over again -/

/-- An object in the making: each key once, none without a value, and none that sets what is
inherited. -/
structure Orderly (own : Entries) : Prop where
  distinct : (own.map (·.1)).Nodup
  ordinary : inheritanceKey ∉ own.map (·.1)
  present : ∀ entry ∈ own, entry.2 ≠ .missing

theorem Orderly.entry {done rest : Entries} (orderly : Orderly (done ++ (key, v) :: rest)) :
    key ∉ done.map (·.1) ∧ key ∉ rest.map (·.1) ∧ key ≠ inheritanceKey ∧ v ≠ .missing := by
  have distinct := orderly.distinct
  rw [List.map_append, List.map_cons] at distinct
  refine ⟨?_, (List.nodup_cons.1 distinct.of_append_right).1, ?_, ?_⟩
  · intro listed
    exact List.disjoint_of_nodup_append distinct listed List.mem_cons_self
  · rintro rfl
    exact orderly.ordinary (by simp)
  · exact orderly.present (key, v) (by simp)

theorem Orderly.put (orderly : Orderly own) (ordinary : key ≠ inheritanceKey)
    (present : v ≠ .missing) : Orderly (put key v own) where
  distinct := by
    rw [keys_put]
    split
    · simpa using orderly.distinct
    · rename_i fresh
      exact orderly.distinct.append (List.nodup_singleton key) (by simpa using fresh)
  ordinary := by
    rw [keys_put, List.mem_append, not_or]
    refine ⟨orderly.ordinary, ?_⟩
    split
    · exact List.not_mem_nil
    · simpa using ordinary.symm
  present entry listed := by
    rcases mem_put listed with rfl | listed
    · exact present
    · exact orderly.present entry listed

/-- An entry changes nothing of an object, or one key, which gets a value. -/
theorem own_overlayEntry (l : Layer) (key : String) (v : Value) :
    (l.overlayEntry (key, v)).own = l.own ∨
      ∃ w, w ≠ .missing ∧ l.isInheritance key = false ∧
        (l.overlayEntry (key, v)).own = put key w l.own := by
  cases v with
  | missing => exact .inl (by rw [overlayEntry])
  | _ =>
      simp only [overlayEntry]
      split
      · exact .inl rfl
      · rename_i ordinary
        have ordinary := Bool.eq_false_iff.2 ordinary
        split
        · refine .inr ⟨_, ?_, ordinary, rfl⟩
          split <;> simp
        · refine .inr ⟨_, ?_, ordinary, rfl⟩
          simp

theorem Orderly.overlayEntry (orderly : Orderly l.own) (entry : String × Value) :
    Orderly (l.overlayEntry entry).own := by
  obtain ⟨key, v⟩ := entry
  rcases l.own_overlayEntry key v with same | ⟨w, present, ordinary, same⟩
  · rwa [same]
  · rw [same]
    refine orderly.put ?_ present
    rintro rfl
    simp [isInheritance, Value.lookup_eq_none orderly.ordinary] at ordinary

theorem Orderly.overlay (orderly : Orderly l.own) (entries : Entries) :
    Orderly (l.overlay entries).own := by
  induction entries generalizing l with
  | nil => rwa [Layer.overlay]
  | cons entry rest ih =>
      rw [Layer.overlay]
      exact ih (orderly.overlayEntry entry)

/-- The keys of an object come first in every object that is made from it. -/
theorem keys_prefix_overlay (l : Layer) (entries : Entries) :
    l.own.map (·.1) <+: (l.overlay entries).own.map (·.1) := by
  induction entries generalizing l with
  | nil => rw [overlay]
  | cons entry rest ih =>
      obtain ⟨key, v⟩ := entry
      rw [overlay]
      refine List.IsPrefix.trans ?_ (ih _)
      rcases l.own_overlayEntry key v with same | ⟨w, -, -, same⟩
      · rw [same]
      · rw [same, keys_put]
        exact List.prefix_append _ _

/-- Entries that begin with the keys of an object, with values that stay as they are when they are
laid over those of the object. -/
theorem overlay_settled {base top : Entries} (done : Entries) (orderly : Orderly (done ++ top))
    (keys : base.map (·.1) <+: top.map (·.1))
    (settled : ∀ key lower v, lookup key base = some lower → lookup key top = some v →
      lower.laid v = v) :
    (Layer.mk (done ++ base) []).overlay top = ⟨done ++ top, []⟩ := by
  induction top generalizing done base with
  | nil =>
      rw [List.map_nil, List.prefix_nil, List.map_eq_nil_iff] at keys
      rw [keys, overlay]
  | cons entry top ih =>
      obtain ⟨key, v⟩ := entry
      have moved : done ++ (key, v) :: top = (done ++ [(key, v)]) ++ top := by simp
      obtain ⟨fresh, once, ordinary, present⟩ := orderly.entry
      rw [moved] at orderly ⊢
      rw [overlay]
      cases base with
      | nil =>
          rw [List.append_nil, overlayEntry_new (Value.lookup_eq_none fresh) ordinary present]
          have put : put key v done = done ++ [(key, v)] := by
            simpa [put] using put_append_of_notMem fresh v []
          rw [put]
          have rest := @ih [] (done ++ [(key, v)]) orderly List.nil_prefix (by simp)
          rwa [List.append_nil] at rest
      | cons entry base =>
          obtain ⟨key', lower⟩ := entry
          obtain ⟨same, others⟩ := List.cons_prefix_cons.1 keys
          obtain rfl : key' = key := same
          have found : lookup key' (done ++ (key', lower) :: base) = some lower := by
            rw [Value.lookup_append_of_notMem fresh, Value.lookup_cons_self]
          have stays : lower.laid v = v :=
            settled key' lower v (Value.lookup_cons_self ..) (Value.lookup_cons_self ..)
          rw [overlayEntry_own found present, stays, set]
          have put : put key' v (done ++ (key', lower) :: base) =
              (done ++ [(key', v)]) ++ base := by
            rw [put_append_of_notMem fresh]
            simp [put]
          simp only [put]
          refine ih _ orderly others ?_
          intro other lower' w below above
          have ne : key' ≠ other := by
            rintro rfl
            exact once (List.mem_map_of_mem (Value.mem_of_lookup above))
          refine settled other lower' w ?_ ?_
          · rwa [Value.lookup_cons_ne ne]
          · rwa [Value.lookup_cons_ne ne]

end Config.Layer

/-- A key of the lower object, after the entries of a value are laid over it. -/
theorem Config.field_merge {base : Config.Entries} {given lower : Value} {key : String}
    (distinct : (given.entries.map (·.1)).Nodup) (own : Value.lookup key base = some lower) :
    (Value.object (Config.merge base given.entries)).field key = lower.laid (given.field key) := by
  have merged := Config.Layer.lookup_overlay (l := ⟨base, []⟩) distinct own
  rw [Value.field, Value.entries, Config.merge, merged, Option.getD_some]
  rfl

namespace Config

open Layer (Orderly)

/-- What was laid over an object, laid over the object again. -/
theorem merge_merge {base : Entries} (orderly : Orderly base) (given : Value)
    (distinct : (given.entries.map (·.1)).Nodup)
    (settled : ∀ key lower, Value.lookup key base = some lower →
      lower.laid (lower.laid (given.field key)) = lower.laid (given.field key)) :
    merge base (merge base given.entries) = merge base given.entries := by
  have orderlyTop : Orderly (merge base given.entries) :=
    Orderly.overlay (l := ⟨base, []⟩) orderly given.entries
  have stays : ∀ key lower v, Value.lookup key base = some lower →
      Value.lookup key (merge base given.entries) = some v → lower.laid v = v := by
    intro key lower v below above
    have merged := field_merge distinct below
    rw [Value.field, Value.entries, above, Option.getD_some] at merged
    rw [merged]
    exact settled key lower below
  have keys := Layer.keys_prefix_overlay ⟨base, []⟩ given.entries
  have again := Layer.overlay_settled [] orderlyTop keys stays
  exact (congrArg Layer.own again :)

end Config

/-- Over an object without objects in it. -/
theorem Value.laid_laid_of_plain {base : Config.Entries} (orderly : Config.Layer.Orderly base)
    (plain : ∀ entry ∈ base, entry.2.isObject = false) {v : Value}
    (distinct : (v.entries.map (·.1)).Nodup) :
    (object base).laid ((object base).laid v) = (object base).laid v := by
  have settled : ∀ (top : Value) key lower, lookup key base = some lower →
      lower.laid (lower.laid (top.field key)) = lower.laid (top.field key) := by
    intro top key lower found
    exact laid_laid_of_not_object (plain _ (mem_of_lookup found)) _
  cases v with
  | missing =>
      exact congrArg object (Config.merge_merge orderly (object []) distinct (settled _))
  | object top =>
      exact congrArg object (Config.merge_merge orderly (object top) distinct (settled _))
  | _ => rfl

end CoinSelection
