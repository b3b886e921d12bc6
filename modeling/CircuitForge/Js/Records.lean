/-
Plain objects used as records.

An object that is written as a literal inherits the properties of `Object.prototype`.  Reading one
of their names gives the inherited value, and a text that is assigned to the key `__proto__` goes
to a setter that ignores it.
-/
import CircuitForge.Js.Map
import CircuitForge.Js.Text
import Mathlib.Data.List.Nodup

namespace Js

/-- How a function of the runtime is written out. -/
def nativeText (name : String) : Text :=
  "function ".toList ++ name.toList ++ "() \x7b [native code] \x7d".toList

/-- The key whose assignment a plain object hands to its prototype. -/
def protoKey : Text := "__proto__".toList

/-- The properties a plain object inherits, as they are written out. -/
def inherited : Map Text Text :=
  (protoKey, "[object Object]".toList) :: ("constructor".toList, nativeText "Object") ::
    ["__defineGetter__", "__defineSetter__", "__lookupGetter__", "__lookupSetter__",
      "hasOwnProperty", "isPrototypeOf", "propertyIsEnumerable", "toLocaleString", "toString",
      "valueOf"].map fun name => (name.toList, nativeText name)

theorem inherited_protoKey : inherited.get? protoKey = some "[object Object]".toList := rfl

theorem nodup_inherited : (inherited.map Prod.snd).Nodup := by decide

/-- No inherited value is written out as a word. -/
theorem not_isWord_inherited {key v : Text} (h : inherited.get? key = some v) :
    ∃ c ∈ v, isWord c = false := by
  have hall : ∀ e ∈ inherited, ∃ c ∈ e.2, isWord c = false := by decide
  exact hall _ (Map.mem_of_get? h)

theorem inherited_injective {key key' v : Text} (h : inherited.get? key = some v)
    (h' : inherited.get? key' = some v) : key = key' := by
  have hinj := List.inj_on_of_nodup_map nodup_inherited
  exact congrArg Prod.fst (hinj (Map.mem_of_get? h) (Map.mem_of_get? h') rfl)

/-- A plain object whose own values are texts. -/
abbrev Record := Map Text Text

namespace Record

variable {β : Type}

/-- `record[key] = value`, for a value that is no object. -/
def put (r : Map Text β) (key : Text) (value : β) : Map Text β :=
  if key = protoKey then r else Map.set r key value

/-- `record[key]`, written out. -/
def read (r : Record) (key : Text) : Option Text :=
  match Map.get? r key with
  | some value => some value
  | none => inherited.get? key

theorem read_of_get? {r : Record} {key value : Text} (h : Map.get? r key = some value) :
    r.read key = some value := by
  unfold read
  rw [h]

theorem read_of_get?_none {r : Record} {key : Text} (h : Map.get? r key = none) :
    r.read key = inherited.get? key := by
  unfold read
  rw [h]

theorem get?_put_self (r : Map Text β) {key : Text} (h : key ≠ protoKey) (value : β) :
    Map.get? (put r key value) key = some value := by
  rw [put, if_neg h, Map.get?_set_self]

theorem get?_put_ne (r : Map Text β) {key key' : Text} (h : key ≠ key') (value : β) :
    Map.get? (put r key value) key' = Map.get? r key' := by
  unfold put
  split
  · rfl
  · exact Map.get?_set_ne h r value

theorem get?_put_protoKey (r : Map Text β) (key : Text) (value : β) :
    Map.get? (put r key value) protoKey = Map.get? r protoKey := by
  by_cases h : key = protoKey
  · rw [put, if_pos h]
  · exact get?_put_ne r h value

theorem keyed_put {r : Map Text β} (h : r.Keyed) (key : Text) (value : β) :
    Map.Keyed (put r key value) := by
  unfold put
  split
  · exact h
  · exact h.set key value

/-- The values of a literal with distinct values and the inherited ones tell the keys apart. -/
theorem read_injective {r : Record} (hr : (r.map Prod.snd).Nodup)
    (hwords : ∀ e ∈ r, ∀ c ∈ e.2, isWord c = true) {key key' v : Text} (h : r.read key = some v)
    (h' : r.read key' = some v) : key = key' := by
  have hapart : ∀ {k k' : Text}, Map.get? r k = some v → Map.get? r k' = none →
      r.read k' = some v → False := by
    intro k k' hk hk' hread
    rw [read_of_get?_none hk'] at hread
    obtain ⟨c, hc, hword⟩ := not_isWord_inherited hread
    rw [hwords _ (Map.mem_of_get? hk) c hc] at hword
    cases hword
  cases hk : Map.get? r key with
  | some value =>
    cases hk' : Map.get? r key' with
    | some value' =>
      rw [read_of_get? hk] at h
      rw [read_of_get? hk'] at h'
      rw [h] at hk
      rw [h'] at hk'
      exact congrArg Prod.fst (List.inj_on_of_nodup_map hr (Map.mem_of_get? hk)
        (Map.mem_of_get? hk') rfl)
    | none =>
      rw [read_of_get? hk] at h
      exact (hapart (h ▸ hk) hk' h').elim
  | none =>
    cases hk' : Map.get? r key' with
    | some value' =>
      rw [read_of_get? hk'] at h'
      exact (hapart (h' ▸ hk') hk h).elim
    | none =>
      rw [read_of_get?_none hk] at h
      rw [read_of_get?_none hk'] at h'
      exact inherited_injective h h'

end Record

end Js
