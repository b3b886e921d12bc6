/-
Equality of stored values: `document/same-json.ts`.

A stored value is what its array positions and object keys read: the order of an object's members
does not matter, and a member that is `undefined` reads like one that is not there.  The comparison
walks the present keys of one side only, and counts those of the other.
-/
import CircuitForge.Js.Map
import CircuitForge.Js.Text
import Mathlib.Algebra.Field.Rat
import Mathlib.Data.List.Perm.Subperm

namespace CircuitForge

open Js

/-- A value as the editor holds it.  Two objects that are one object are equal members by members. -/
inductive Json where
  | undefined
  | null
  | bool (b : Bool)
  | num (n : Rat)
  | str (s : Text)
  | arr (items : List Json)
  | obj (members : List (Text × Json))

namespace Json

def isUndefined : Json → Bool
  | undefined => true
  | _ => false

/-- `present`. -/
def present (members : List (Text × Json)) : List Text :=
  (members.filter fun m => !m.2.isUndefined).map Prod.fst

mutual

/-- `sameJson`. -/
def sameJson : Json → Json → Bool
  | undefined, undefined => true
  | null, null => true
  | bool a, bool b => a = b
  | num a, num b => a = b
  | str a, str b => a = b
  | arr xs, arr ys => xs.length = ys.length && sameItems xs ys
  | obj left, obj right =>
    (present left).length = (present right).length && sameMembers left right
  | _, _ => false

/-- `a.every((item, i) => sameJson(item, b[i]))`. -/
def sameItems : List Json → List Json → Bool
  | [], _ => true
  | x :: xs, ys => sameJson x (ys.head?.getD undefined) && sameItems xs ys.tail

/-- `ka.every(...)`, over the present members. -/
def sameMembers : List (Text × Json) → List (Text × Json) → Bool
  | [], _ => true
  | (_, undefined) :: left, right => sameMembers left right
  | (k, v) :: left, right =>
    (match Map.get? right k with
      | some w => sameJson v w
      | none => false) && sameMembers left right

end

/-! ## What a value reads -/

/-- A value without the order of its members, and without the undefined ones. -/
inductive Value where
  | undefined
  | null
  | bool (b : Bool)
  | num (n : Rat)
  | str (s : Text)
  | arr (items : List Value)
  | obj (member : Text → Option Value)

mutual

def reading : Json → Value
  | undefined => .undefined
  | null => .null
  | bool b => .bool b
  | num n => .num n
  | str s => .str s
  | arr items => .arr (readItems items)
  | obj members => .obj (readMember members)

def readItems : List Json → List Value
  | [] => []
  | item :: items => reading item :: readItems items

def readMember : List (Text × Json) → Text → Option Value
  | [], _ => none
  | (_, undefined) :: members, k => readMember members k
  | (k', v) :: members, k => if k' = k then some (reading v) else readMember members k

end

mutual

/-- An object has distinct keys, and so have the objects in it. -/
def Keyed : Json → Prop
  | arr items => KeyedItems items
  | obj members => (members.map Prod.fst).Nodup ∧ KeyedMembers members
  | _ => True

def KeyedItems : List Json → Prop
  | [] => True
  | item :: items => item.Keyed ∧ KeyedItems items

def KeyedMembers : List (Text × Json) → Prop
  | [] => True
  | (_, v) :: members => v.Keyed ∧ KeyedMembers members

end

theorem KeyedMembers.keyed {members : List (Text × Json)} (h : KeyedMembers members) {k : Text}
    {v : Json} (hv : (k, v) ∈ members) : v.Keyed := by
  induction members with
  | nil => cases hv
  | cons m members ih =>
    obtain ⟨k', v'⟩ := m
    rw [KeyedMembers] at h
    rcases List.mem_cons.mp hv with he | hv
    · cases he
      exact h.1
    · exact ih h.2 hv

theorem reading_eq_undefined_iff {v : Json} : reading v = .undefined ↔ v.isUndefined = true := by
  cases v <;> simp [reading, isUndefined]

theorem readMember_cons {k' : Text} {v : Json} (members : List (Text × Json)) (k : Text) :
    readMember ((k', v) :: members) k =
      if v.isUndefined = false ∧ k' = k then some (reading v) else readMember members k := by
  cases v <;> simp [readMember, isUndefined]

/-- With distinct keys a member is read where it stands. -/
theorem readMember_eq_some_iff {members : List (Text × Json)}
    (hkeys : (members.map Prod.fst).Nodup) {k : Text} {x : Value} :
    readMember members k = some x ↔
      ∃ v, (k, v) ∈ members ∧ v.isUndefined = false ∧ reading v = x := by
  induction members with
  | nil => simp [readMember]
  | cons m members ih =>
    obtain ⟨k', v'⟩ := m
    rw [List.map_cons, List.nodup_cons] at hkeys
    rw [readMember_cons]
    split_ifs with hhere
    · obtain ⟨hdefined, rfl⟩ := hhere
      constructor
      · intro he
        exact ⟨v', List.mem_cons_self, hdefined, Option.some.inj he⟩
      · rintro ⟨v, hv, -, rfl⟩
        rcases List.mem_cons.mp hv with he | hv
        · rw [(Prod.mk.inj he).2]
        · exact absurd (List.mem_map_of_mem (f := Prod.fst) hv) hkeys.1
    · rw [ih hkeys.2]
      constructor
      · rintro ⟨v, hv, hrest⟩
        exact ⟨v, List.mem_cons_of_mem _ hv, hrest⟩
      · rintro ⟨v, hv, hdefined, hx⟩
        rcases List.mem_cons.mp hv with he | hv
        · obtain ⟨rfl, rfl⟩ := Prod.mk.inj he
          exact absurd ⟨hdefined, rfl⟩ hhere
        · exact ⟨v, hv, hdefined, hx⟩

theorem mem_present {members : List (Text × Json)} {k : Text} :
    k ∈ present members ↔ ∃ v, (k, v) ∈ members ∧ v.isUndefined = false := by
  rw [present, List.mem_map]
  constructor
  · rintro ⟨⟨k, v⟩, hm, rfl⟩
    obtain ⟨hm, hdefined⟩ := List.mem_filter.mp hm
    exact ⟨v, hm, by simpa using hdefined⟩
  · rintro ⟨v, hm, hdefined⟩
    exact ⟨(k, v), List.mem_filter.mpr ⟨hm, by simpa using hdefined⟩, rfl⟩

/-- The present keys are those that are read. -/
theorem mem_present_iff {members : List (Text × Json)} (hkeys : (members.map Prod.fst).Nodup)
    {k : Text} : k ∈ present members ↔ (readMember members k).isSome = true := by
  rw [mem_present, Option.isSome_iff_exists]
  simp only [readMember_eq_some_iff hkeys]
  constructor
  · rintro ⟨v, hv, hdefined⟩
    exact ⟨reading v, v, hv, hdefined, rfl⟩
  · rintro ⟨_, v, hv, hdefined, -⟩
    exact ⟨v, hv, hdefined⟩

theorem nodup_present {members : List (Text × Json)} (hkeys : (members.map Prod.fst).Nodup) :
    (present members).Nodup :=
  hkeys.sublist (List.filter_sublist.map Prod.fst)

/-! ## The comparison -/

/-- The present members of one side are read on the other. -/
def Covers (left right : List (Text × Json)) : Prop :=
  ∀ k v, (k, v) ∈ left → v.isUndefined = false →
    ∃ w, Map.get? right k = some w ∧ reading v = reading w

/-- One walk and two counts: the members read the same. -/
theorem covers_iff {left right : List (Text × Json)} (hleft : (left.map Prod.fst).Nodup)
    (hright : (right.map Prod.fst).Nodup) :
    (present left).length = (present right).length ∧ Covers left right ↔
      readMember left = readMember right := by
  constructor
  · rintro ⟨hcount, hcovers⟩
    -- what is read on the left is read on the right
    have hread : ∀ k x, readMember left k = some x → readMember right k = some x := by
      intro k x hx
      obtain ⟨v, hv, hdefined, rfl⟩ := (readMember_eq_some_iff hleft).mp hx
      obtain ⟨w, hw, hvw⟩ := hcovers k v hv hdefined
      refine (readMember_eq_some_iff hright).mpr ⟨w, Map.mem_of_get? hw, ?_, hvw.symm⟩
      rw [Bool.eq_false_iff, ne_eq, ← reading_eq_undefined_iff, ← hvw, reading_eq_undefined_iff]
      simp [hdefined]
    have hsub : present left ⊆ present right := by
      intro k hk
      rw [mem_present_iff hleft, Option.isSome_iff_exists] at hk
      obtain ⟨x, hx⟩ := hk
      rw [mem_present_iff hright, hread k x hx, Option.isSome_some]
    have hperm : (present left).Perm (present right) :=
      (List.subperm_of_subset (nodup_present hleft) hsub).perm_of_length_le hcount.ge
    funext k
    cases hx : readMember left k with
    | some x => exact (hread k x hx).symm
    | none =>
      have habsent : k ∉ present right := by
        rw [← hperm.mem_iff, mem_present_iff hleft, hx]
        simp
      rw [mem_present_iff hright, Bool.not_eq_true, Option.isSome_eq_false_iff,
        Option.isNone_iff_eq_none] at habsent
      exact habsent.symm
  · intro hread
    constructor
    · refine ((List.perm_ext_iff_of_nodup (nodup_present hleft) (nodup_present hright)).mpr
        fun k => ?_).length_eq
      rw [mem_present_iff hleft, mem_present_iff hright, hread]
    · intro k v hv hdefined
      have hx := (readMember_eq_some_iff hleft).mpr ⟨v, hv, hdefined, rfl⟩
      rw [hread, readMember_eq_some_iff hright] at hx
      obtain ⟨w, hw, -, hvw⟩ := hx
      exact ⟨w, Map.get?_of_mem hright hw, hvw.symm⟩

theorem covers_cons {k : Text} {v : Json} {left right : List (Text × Json)} :
    Covers ((k, v) :: left) right ↔
      (v.isUndefined = false → ∃ w, Map.get? right k = some w ∧ reading v = reading w) ∧
        Covers left right := by
  constructor
  · intro h
    exact ⟨h k v List.mem_cons_self, fun k' v' hv => h k' v' (List.mem_cons_of_mem _ hv)⟩
  · rintro ⟨hhead, hrest⟩ k' v' hv hdefined
    rcases List.mem_cons.mp hv with he | hv
    · obtain ⟨rfl, rfl⟩ := Prod.mk.inj he
      exact hhead hdefined
    · exact hrest k' v' hv hdefined

theorem sameMembers_cons {k : Text} {v : Json} {left right : List (Text × Json)} :
    sameMembers ((k, v) :: left) right = true ↔
      (v.isUndefined = false → ∃ w, Map.get? right k = some w ∧ sameJson v w = true) ∧
        sameMembers left right = true := by
  cases hget : Map.get? right k <;> cases v <;> simp [sameMembers, isUndefined, hget]

theorem length_readItems (items : List Json) : (readItems items).length = items.length := by
  induction items with
  | nil => rfl
  | cons item items ih => rw [readItems, List.length_cons, List.length_cons, ih]

mutual

theorem sameJson_iff_reading : ∀ {a b : Json}, a.Keyed → b.Keyed →
    (sameJson a b = true ↔ reading a = reading b)
  | undefined, b, _, _ => by cases b <;> simp [sameJson, reading]
  | null, b, _, _ => by cases b <;> simp [sameJson, reading]
  | bool _, b, _, _ => by cases b <;> simp [sameJson, reading]
  | num _, b, _, _ => by cases b <;> simp [sameJson, reading]
  | str _, b, _, _ => by cases b <;> simp [sameJson, reading]
  | arr xs, b, ha, hb => by
    cases b with
    | arr ys =>
      rw [Keyed] at ha hb
      rw [sameJson, reading, reading, Bool.and_eq_true, decide_eq_true_eq, Value.arr.injEq]
      constructor
      · rintro ⟨hlength, hitems⟩
        exact (sameItems_iff ha hb hlength).mp hitems
      · intro hitems
        have hlength := congrArg List.length hitems
        rw [length_readItems, length_readItems] at hlength
        exact ⟨hlength, (sameItems_iff ha hb hlength).mpr hitems⟩
    | _ => simp [sameJson, reading]
  | obj left, b, ha, hb => by
    cases b with
    | obj right =>
      rw [Keyed] at ha hb
      rw [sameJson, reading, reading, Bool.and_eq_true, decide_eq_true_eq, Value.obj.injEq,
        sameMembers_iff ha.2 hb.2]
      exact covers_iff ha.1 hb.1
    | _ => simp [sameJson, reading]

theorem sameItems_iff : ∀ {xs ys : List Json}, KeyedItems xs → KeyedItems ys →
    xs.length = ys.length → (sameItems xs ys = true ↔ readItems xs = readItems ys)
  | [], [], _, _, _ => by simp [sameItems, readItems]
  | x :: xs, y :: ys, hx, hy, hlength => by
    rw [KeyedItems] at hx hy
    rw [sameItems, List.head?_cons, Option.getD_some, List.tail_cons, Bool.and_eq_true,
      sameJson_iff_reading hx.1 hy.1, sameItems_iff hx.2 hy.2 (Nat.succ.inj hlength), readItems,
      readItems, List.cons.injEq]

theorem sameMembers_iff : ∀ {left right : List (Text × Json)}, KeyedMembers left →
    KeyedMembers right → (sameMembers left right = true ↔ Covers left right)
  | [], _, _, _ => by simp [sameMembers, Covers]
  | (k, v) :: left, right, hleft, hright => by
    rw [KeyedMembers] at hleft
    rw [sameMembers_cons, covers_cons, sameMembers_iff hleft.2 hright]
    have hhead : ∀ w, Map.get? right k = some w →
        (sameJson v w = true ↔ reading v = reading w) := fun w hw =>
      sameJson_iff_reading hleft.1 (hright.keyed (Map.mem_of_get? hw))
    refine and_congr_left fun _ => imp_congr_right fun _ => exists_congr fun w => ?_
    exact and_congr_right (hhead w)

end

/-- A value whose objects have distinct keys, as every object has. -/
def Stored := { a : Json // a.Keyed }

/-- Stored values are the same just when they read the same, and so this is an equivalence. -/
theorem sameJson_spec :
    (∀ a b : Stored, sameJson a.1 b.1 = true ↔ reading a.1 = reading b.1) ∧
      Equivalence fun a b : Stored => sameJson a.1 b.1 = true := by
  have hiff : ∀ a b : Stored, sameJson a.1 b.1 = true ↔ reading a.1 = reading b.1 := fun a b =>
    sameJson_iff_reading a.2 b.2
  refine ⟨hiff, fun a => (hiff a a).mpr rfl, fun {a b} hab => ?_, fun {a b c} hab hbc => ?_⟩
  · exact (hiff b a).mpr ((hiff a b).mp hab).symm
  · exact (hiff a c).mpr (((hiff a b).mp hab).trans ((hiff b c).mp hbc))

/-- A member that is undefined is no member, and the order of the others does not matter. -/
example : sameJson (obj [("x".toList, num 1), ("rotation".toList, undefined), ("y".toList, num 2)])
    (obj [("y".toList, num 2), ("x".toList, num 1)]) = true := by
  decide +kernel

end Json

end CircuitForge
