/-
Dumps that record changes only.

A dump is a list of instants, each followed by the changes that happen there.  To read a signal at
an instant, one takes the changes of the instants that are due by then: what is not written holds
its value.
-/
import Mathlib.Logic.Function.Basic
import Mathlib.Data.List.Basic

namespace Changes

variable {Time Id Value : Type} [DecidableEq Id]

/-- An entry of a dump. -/
inductive Entry (Time Id Value : Type) where
  | instant (t : Time)
  | change (id : Id) (v : Value)

/-- A reader: whether the last instant is due, and the values so far. -/
structure Reader (Id Value : Type) where
  due : Bool
  values : Id → Option Value

/-- Before the first entry. -/
def Reader.start : Reader Id Value := { due := false, values := fun _ => none }

def Reader.step (due : Time → Bool) (r : Reader Id Value) : Entry Time Id Value → Reader Id Value
  | .instant t => { r with due := due t }
  | .change id v => if r.due then { r with values := Function.update r.values id (some v) } else r

def Reader.run (due : Time → Bool) (r : Reader Id Value) (entries : List (Entry Time Id Value)) :
    Reader Id Value :=
  entries.foldl (Reader.step due) r

theorem run_append (due : Time → Bool) (r : Reader Id Value)
    (xs ys : List (Entry Time Id Value)) :
    r.run due (xs ++ ys) = (r.run due xs).run due ys :=
  List.foldl_append ..

/-- The changes written at one instant. -/
def changeEntries (changes : List (Id × Value)) : List (Entry Time Id Value) :=
  changes.map fun c => .change c.1 c.2

/-- What is written at an instant that is not due changes nothing. -/
theorem run_changes_pending (due : Time → Bool) {r : Reader Id Value} (h : r.due = false)
    (changes : List (Id × Value)) : r.run due (changeEntries changes) = r := by
  induction changes with
  | nil => rfl
  | cons c changes ih =>
    have hstep : r.step due (.change c.1 c.2) = r := by
      rw [Reader.step, h]
      rfl
    rw [changeEntries, List.map_cons, Reader.run, List.foldl_cons, hstep]
    exact ih

/-- A signal whose changes at an instant are all to one value, and that has the value already or
is changed, has the value afterwards. -/
theorem run_changes_value (due : Time → Bool) {r : Reader Id Value} (h : r.due = true)
    {changes : List (Id × Value)} {id : Id} {v : Value}
    (hall : ∀ c ∈ changes, c.1 = id → c.2 = v)
    (hsome : r.values id = some v ∨ (id, v) ∈ changes) :
    (r.run due (changeEntries changes)).values id = some v := by
  induction changes generalizing r with
  | nil => exact hsome.resolve_right List.not_mem_nil
  | cons c changes ih =>
    have hstep : r.step due (.change c.1 c.2) =
        { r with values := Function.update r.values c.1 (some c.2) } := by
      rw [Reader.step, if_pos h]
    rw [changeEntries, List.map_cons, Reader.run, List.foldl_cons, hstep]
    refine ih h (fun c hc => hall c (List.mem_cons_of_mem _ hc)) ?_
    by_cases hid : c.1 = id
    · have hown : Function.update r.values c.1 (some c.2) id = some v := by
        rw [← hid, Function.update_self, hall c List.mem_cons_self hid]
      exact Or.inl hown
    · have hother : (Function.update r.values c.1 (some c.2)) id = r.values id :=
        Function.update_of_ne (Ne.symm hid) ..
      rcases hsome with hvalue | hmem
      · exact Or.inl (hother.trans hvalue)
      · rcases List.mem_cons.mp hmem with rfl | hmem
        · exact absurd rfl hid
        · exact Or.inr hmem

/-- An instant that is not due changes nothing. -/
theorem run_instant_pending (due : Time → Bool) (r : Reader Id Value) {t : Time}
    (h : due t = false) (changes : List (Id × Value)) :
    (r.run due (.instant t :: changeEntries changes)).values = r.values := by
  have hrun : r.run due (.instant t :: changeEntries changes) = { r with due := due t } :=
    run_changes_pending (r := { r with due := due t }) due h changes
  rw [hrun]

/-- An instant that is due gives a signal the value its changes agree on. -/
theorem run_instant_value (due : Time → Bool) (r : Reader Id Value) {t : Time}
    (h : due t = true) {changes : List (Id × Value)} {id : Id} {v : Value}
    (hall : ∀ c ∈ changes, c.1 = id → c.2 = v)
    (hsome : r.values id = some v ∨ (id, v) ∈ changes) :
    (r.run due (.instant t :: changeEntries changes)).values id = some v :=
  run_changes_value (r := { r with due := due t }) due h hall hsome

end Changes
