/-
Bounded timelines.

Documents stand in a row with an edge between neighbours, and a cursor is on one
of them.  Recording a document cuts off what lies behind the cursor; where the
row becomes longer than the bound, its oldest documents fall off the front.
-/
import Mathlib.Data.List.Basic
import Mathlib.Tactic.Common

/-- Documents `docs`, the edge that leads to each of them but the first, and the
place of the current one. -/
structure Timeline (α ε : Type) (limit : Nat) where
  docs : List α
  edges : List ε
  cursor : Nat
  length_docs : docs.length = edges.length + 1
  cursor_le : cursor ≤ edges.length
  bounded : edges.length ≤ limit

namespace Timeline

variable {α ε : Type} {limit : Nat}

theorem ext_data {t u : Timeline α ε limit} (hd : t.docs = u.docs) (he : t.edges = u.edges)
    (hc : t.cursor = u.cursor) : t = u := by
  obtain ⟨d, e, c, _, _, _⟩ := t
  obtain ⟨d', e', c', _, _, _⟩ := u
  simp only at hd he hc
  subst hd he hc
  rfl

/-- The document the cursor is on. -/
def current (t : Timeline α ε limit) : α :=
  t.docs.get ⟨t.cursor, by have := t.length_docs; have := t.cursor_le; omega⟩

def start (d : α) : Timeline α ε limit where
  docs := [d]
  edges := []
  cursor := 0
  length_docs := rfl
  cursor_le := Nat.le_refl 0
  bounded := Nat.zero_le limit

def back (t : Timeline α ε limit) : Timeline α ε limit where
  docs := t.docs
  edges := t.edges
  cursor := t.cursor - 1
  length_docs := t.length_docs
  cursor_le := Nat.le_trans (Nat.sub_le _ _) t.cursor_le
  bounded := t.bounded

def forward (t : Timeline α ε limit) : Timeline α ε limit where
  docs := t.docs
  edges := t.edges
  cursor := min (t.cursor + 1) t.edges.length
  length_docs := t.length_docs
  cursor_le := Nat.min_le_right _ _
  bounded := t.bounded

/-- How many documents fall off the front when one is recorded. -/
def overflow (t : Timeline α ε limit) : Nat := t.cursor + 1 - limit

def record (t : Timeline α ε limit) (e : ε) (d : α) : Timeline α ε limit where
  docs := (t.docs.take (t.cursor + 1) ++ [d]).drop t.overflow
  edges := (t.edges.take t.cursor ++ [e]).drop t.overflow
  cursor := t.cursor + 1 - t.overflow
  length_docs := by
    have := t.length_docs
    have := t.cursor_le
    simp only [List.length_drop, List.length_append, List.length_take, List.length_singleton,
      overflow]
    omega
  cursor_le := by
    have := t.cursor_le
    simp only [List.length_drop, List.length_append, List.length_take, List.length_singleton]
    omega
  bounded := by
    have := t.cursor_le
    simp only [List.length_drop, List.length_append, List.length_take, List.length_singleton,
      overflow]
    omega

theorem length_docs_le (t : Timeline α ε limit) : t.docs.length ≤ limit + 1 := by
  have := t.length_docs
  have := t.bounded
  omega

/-! ## Runs -/

/-- What can happen to a timeline. -/
inductive Event (α ε : Type) where
  | stay
  | back
  | forward
  | record (edge : ε) (doc : α)
  | start (doc : α)

def step (t : Timeline α ε limit) : Event α ε → Timeline α ε limit
  | .stay => t
  | .back => t.back
  | .forward => t.forward
  | .record e d => t.record e d
  | .start d => start d

def run (t : Timeline α ε limit) (evs : List (Event α ε)) : Timeline α ε limit :=
  evs.foldl step t

@[simp] theorem run_nil (t : Timeline α ε limit) : t.run [] = t := rfl

@[simp] theorem run_cons (t : Timeline α ε limit) (ev : Event α ε) (evs : List (Event α ε)) :
    t.run (ev :: evs) = (t.step ev).run evs := rfl

/-- The documents an event brings in. -/
def Event.docs : Event α ε → List α
  | .record _ d => [d]
  | .start d => [d]
  | _ => []

theorem mem_docs_step {t : Timeline α ε limit} {ev : Event α ε} {x : α}
    (h : x ∈ (t.step ev).docs) : x ∈ t.docs ∨ x ∈ ev.docs := by
  cases ev with
  | stay => exact Or.inl h
  | back => exact Or.inl h
  | forward => exact Or.inl h
  | record e d =>
    rcases List.mem_append.mp (List.mem_of_mem_drop h) with h | h
    · exact Or.inl (List.mem_of_mem_take h)
    · exact Or.inr h
  | start d => exact Or.inr h

/-- A run invents no document. -/
theorem mem_docs_run {t : Timeline α ε limit} {evs : List (Event α ε)} {x : α}
    (h : x ∈ (t.run evs).docs) : x ∈ t.docs ∨ ∃ ev ∈ evs, x ∈ ev.docs := by
  induction evs generalizing t with
  | nil => exact Or.inl h
  | cons ev evs ih =>
    rcases ih h with h | ⟨ev', hm, hx⟩
    · exact (mem_docs_step h).imp id fun hx => ⟨ev, List.mem_cons_self, hx⟩
    · exact Or.inr ⟨ev', List.mem_cons_of_mem _ hm, hx⟩

end Timeline
