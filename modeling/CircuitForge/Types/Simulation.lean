/-
Simulation results: `types/simulation.ts`.
-/
import CircuitForge.Js.Text

namespace CircuitForge

open Js

structure DataPoint (K : Type) where
  x : K
  y : K
  deriving DecidableEq

structure DataSeries (K : Type) where
  name : Text
  points : List (DataPoint K)

/-- `ResultMeta`, as the parsers build it. -/
structure ResultMeta where
  analysisType : Text
  xLabel : Text
  xUnit : Option Text
  pointsCount : Nat

/-- `SimulationResult`, less the reports that are not series. -/
structure SimulationResult (K : Type) where
  info : ResultMeta
  series : List (DataSeries K)

/-- The largest number of points of a series. -/
def rowCount {K : Type} (series : List (DataSeries K)) : Nat :=
  series.foldl (fun most s => max most s.points.length) 0

/-- The first series that has a point at an index. -/
def pointAt {K : Type} (series : List (DataSeries K)) (i : Nat) : Option (DataPoint K) :=
  series.findSome? fun s => s.points[i]?

theorem lt_rowCount {K : Type} {series : List (DataSeries K)} {i : Nat} :
    i < rowCount series ↔ ∃ s ∈ series, i < s.points.length := by
  have hfold : ∀ (series : List (DataSeries K)) (n : Nat),
      i < series.foldl (fun most s => max most s.points.length) n ↔
        i < n ∨ ∃ s ∈ series, i < s.points.length := by
    intro series
    induction series with
    | nil => simp
    | cons s series ih =>
      intro n
      have hmax : i < max n s.points.length ↔ i < n ∨ i < s.points.length := by omega
      rw [List.foldl_cons, ih, hmax, or_assoc]
      simp only [List.mem_cons, exists_eq_or_imp]
  rw [rowCount, hfold]
  simp

theorem pointAt_some {K : Type} {series : List (DataSeries K)} {i : Nat} {p : DataPoint K}
    (h : pointAt series i = some p) : ∃ s ∈ series, s.points[i]? = some p :=
  List.exists_of_findSome?_eq_some h

/-- Where a series has a point there is a first one that has. -/
theorem exists_pointAt {K : Type} {series : List (DataSeries K)} {s : DataSeries K} {i : Nat}
    {p : DataPoint K} (hs : s ∈ series) (hp : s.points[i]? = some p) :
    ∃ q, pointAt series i = some q := by
  rw [← Option.isSome_iff_exists, pointAt, List.findSome?_isSome_iff]
  exact ⟨s, hs, by rw [hp]; rfl⟩

end CircuitForge
