/-
Transactions that see what is committed.

A write waits with the program that made it until that program commits, and then takes
effect.  Nobody reads a write before.
-/
import Mathlib.Data.List.Basic
import Mathlib.Tactic.Common

namespace Transactions

/-- What is committed, and the writes of the transactions under way. -/
structure Store (σ W : Type) where
  committed : σ
  pending : List (Nat × W) := []

variable {σ W : Type}

namespace Store

/-- The writes of a program that are not committed yet. -/
def own (s : Store σ W) (i : Nat) : List W := (s.pending.filter (·.1 = i)).map Prod.snd

/-- A program writes. -/
def write (s : Store σ W) (i : Nat) (w : W) : Store σ W :=
  { s with pending := s.pending ++ [(i, w)] }

/-- A program forgets its writes. -/
def rollback (s : Store σ W) (i : Nat) : Store σ W :=
  { s with pending := s.pending.filter (·.1 ≠ i) }

/-- The writes of a program take effect. -/
def commit (apply : W → σ → σ) (s : Store σ W) (i : Nat) : Store σ W where
  committed := (s.own i).foldl (fun c w => apply w c) s.committed
  pending := s.pending.filter (·.1 ≠ i)

theorem mem_own {s : Store σ W} {i : Nat} {w : W} : w ∈ s.own i ↔ (i, w) ∈ s.pending := by
  constructor
  · intro h
    obtain ⟨⟨k, w'⟩, he, rfl⟩ := List.mem_map.mp h
    obtain ⟨he, hk⟩ := List.mem_filter.mp he
    rw [decide_eq_true_eq] at hk
    exact hk ▸ he
  · intro h
    exact List.mem_map.mpr ⟨_, List.mem_filter.mpr ⟨h, decide_eq_true rfl⟩, rfl⟩

theorem own_write_self (s : Store σ W) (i : Nat) (w : W) : (s.write i w).own i = s.own i ++ [w] := by
  simp [own, write]

theorem own_write_of_ne (s : Store σ W) {i j : Nat} (h : j ≠ i) (w : W) :
    (s.write i w).own j = s.own j := by
  simp [own, write, Ne.symm h]

theorem mem_write {s : Store σ W} {i k : Nat} {w v : W} :
    (k, v) ∈ (s.write i w).pending ↔ (k, v) ∈ s.pending ∨ (k = i ∧ v = w) := by
  simp [write]

theorem own_rollback_self (s : Store σ W) (i : Nat) : (s.rollback i).own i = [] := by
  simp [own, rollback]

theorem own_rollback_of_ne (s : Store σ W) {i j : Nat} (h : j ≠ i) :
    (s.rollback i).own j = s.own j := by
  simp only [own, rollback, List.filter_filter]
  congr 1
  refine List.filter_congr fun e _ => ?_
  by_cases he : e.1 = j
  · simp [he, h]
  · simp [he]

theorem mem_rollback {s : Store σ W} {i k : Nat} {w : W} :
    (k, w) ∈ (s.rollback i).pending ↔ (k, w) ∈ s.pending ∧ k ≠ i := by
  simp [rollback]

/-- The writes of one program, and those of the others. -/
theorem countP_pending (s : Store σ W) (i : Nat) (p : W → Bool) :
    (s.pending.countP fun e => p e.2) =
      (s.own i).countP p + (s.rollback i).pending.countP fun e => p e.2 := by
  rw [List.countP_eq_countP_filter_add s.pending _ (·.1 = i), own, List.countP_map]
  congr 2
  exact List.filter_congr fun e _ => by simp

theorem own_commit_self (apply : W → σ → σ) (s : Store σ W) (i : Nat) :
    (s.commit apply i).own i = [] := s.own_rollback_self i

theorem own_commit_of_ne (apply : W → σ → σ) (s : Store σ W) {i j : Nat} (h : j ≠ i) :
    (s.commit apply i).own j = s.own j := s.own_rollback_of_ne h

theorem mem_commit {apply : W → σ → σ} {s : Store σ W} {i k : Nat} {w : W} :
    (k, w) ∈ (s.commit apply i).pending ↔ (k, w) ∈ s.pending ∧ k ≠ i := mem_rollback

theorem committed_commit (apply : W → σ → σ) (s : Store σ W) (i : Nat) :
    (s.commit apply i).committed = (s.own i).foldl (fun c w => apply w c) s.committed := rfl

end Store

end Transactions
