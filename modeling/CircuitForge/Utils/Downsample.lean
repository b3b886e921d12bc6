/-
Min-max bucketing of a waveform: `utils/downsample.ts`.

The points between the ends are cut into buckets, and each bucket gives its lowest and its highest
point, in the order of their abscissae.
-/
import CircuitForge.Js.Buckets
import CircuitForge.Types.Simulation
import Mathlib.Algebra.Order.BigOperators.Group.List
import Mathlib.Algebra.Group.Action.Defs

namespace CircuitForge

open Buckets

section

variable {K : Type} [LinearOrder K]

/-- `min` and `max` of a bucket, each with its place, emitted in x order. -/
def bucketPoints : List (DataPoint K × Nat) → List (DataPoint K)
  | [] => []
  | p :: ps =>
    let min := leastFrom (fun e => e.1.y) p ps
    let max := leastFrom (fun e => OrderDual.toDual e.1.y) p ps
    if min.2 = max.2 then [min.1]
    else if min.1.x ≤ max.1.x then [min.1, max.1]
    else [max.1, min.1]

/-- `Math.max(4, Math.floor(maxPoints))`. -/
def pointCap (maxPoints : Rat) : Nat := max 4 ⌊maxPoints⌋₊

/-- `buckets`. -/
def bucketCount (maxPoints : Rat) : Nat := max 1 ((pointCap maxPoints - 2) / 2)

/-- The points of the bucket `b` of `inner`. -/
def bucketOf (inner : List (DataPoint K)) (buckets b : Nat) : List (DataPoint K × Nat) :=
  slice inner (edge inner.length buckets b) (min inner.length (edge inner.length buckets (b + 1)))

def downsamplePoints (points : List (DataPoint K)) (maxPoints : Rat) : List (DataPoint K) :=
  if points.length ≤ pointCap maxPoints then points
  else
    let inner := (points.drop 1).dropLast
    points.head?.toList ++
      (List.range (bucketCount maxPoints)).flatMap
        (fun b => bucketPoints (bucketOf inner (bucketCount maxPoints) b)) ++
      points.getLast?.toList

/-! ## One bucket -/

theorem bucketPoints_length (ps : List (DataPoint K × Nat)) : (bucketPoints ps).length ≤ 2 := by
  cases ps with
  | nil => exact Nat.zero_le _
  | cons p ps =>
    unfold bucketPoints
    dsimp only
    split_ifs
    · exact Nat.le_succ 1
    · exact le_rfl
    · exact le_rfl

theorem bucketPoints_subset (ps : List (DataPoint K × Nat)) :
    ∀ q ∈ bucketPoints ps, ∃ e ∈ ps, e.1 = q := by
  cases ps with
  | nil => exact fun q hq => absurd hq List.not_mem_nil
  | cons p ps =>
    have hmin := leastFrom_mem (fun e : DataPoint K × Nat => e.1.y) p ps
    have hmax := leastFrom_mem (fun e : DataPoint K × Nat => OrderDual.toDual e.1.y) p ps
    unfold bucketPoints
    dsimp only
    intro q hq
    split_ifs at hq
    · rw [List.mem_singleton] at hq
      exact ⟨_, hmin, hq.symm⟩
    · rcases List.mem_pair.mp hq with rfl | rfl
      · exact ⟨_, hmin, rfl⟩
      · exact ⟨_, hmax, rfl⟩
    · rcases List.mem_pair.mp hq with rfl | rfl
      · exact ⟨_, hmax, rfl⟩
      · exact ⟨_, hmin, rfl⟩

/-- The points of a bucket never double back. -/
theorem bucketPoints_sorted (ps : List (DataPoint K × Nat)) :
    (bucketPoints ps).Pairwise fun p q => p.x ≤ q.x := by
  cases ps with
  | nil => exact List.Pairwise.nil
  | cons p ps =>
    unfold bucketPoints
    dsimp only
    split_ifs with hsame hle
    · exact List.pairwise_singleton _ _
    · exact List.pairwise_pair.mpr hle
    · exact List.pairwise_pair.mpr (le_of_not_ge hle)

/-- A bucket keeps its lowest and its highest value. -/
theorem bucketPoints_extremes {ps : List (DataPoint K × Nat)}
    (hplace : ∀ e ∈ ps, ∀ e' ∈ ps, e.2 = e'.2 → e = e') {e : DataPoint K × Nat} (he : e ∈ ps) :
    (∃ q ∈ bucketPoints ps, q.y ≤ e.1.y) ∧ ∃ q ∈ bucketPoints ps, e.1.y ≤ q.y := by
  cases ps with
  | nil => cases he
  | cons p ps =>
    have hmin := leastFrom_mem (fun e : DataPoint K × Nat => e.1.y) p ps
    have hmax := leastFrom_mem (fun e : DataPoint K × Nat => OrderDual.toDual e.1.y) p ps
    have hle := leastFrom_le (fun e : DataPoint K × Nat => e.1.y) p ps e he
    have hge : e.1.y ≤ (leastFrom (fun e => OrderDual.toDual e.1.y) p ps).1.y :=
      leastFrom_le (fun e : DataPoint K × Nat => OrderDual.toDual e.1.y) p ps e he
    unfold bucketPoints
    dsimp only
    split_ifs with hsame hx
    · refine ⟨⟨_, List.mem_singleton_self _, hle⟩, _, List.mem_singleton_self _, ?_⟩
      rw [hplace _ hmin _ hmax hsame]
      exact hge
    · exact ⟨⟨_, List.mem_cons_self, hle⟩, _, List.mem_cons_of_mem _ List.mem_cons_self, hge⟩
    · exact ⟨⟨_, List.mem_cons_of_mem _ List.mem_cons_self, hle⟩, _, List.mem_cons_self, hge⟩

/-! ## All buckets -/

section

variable {inner : List (DataPoint K)} {buckets : Nat}

omit [LinearOrder K] in
theorem mem_bucketOf {b : Nat} {e : DataPoint K × Nat} :
    e ∈ bucketOf inner buckets b ↔ inner[e.2]? = some e.1 ∧
      edge inner.length buckets b ≤ e.2 ∧ e.2 < edge inner.length buckets (b + 1) := by
  rw [bucketOf, mem_slice]
  refine and_congr_right fun hget => and_congr_right fun _ => ?_
  have hlt := (List.getElem?_eq_some_iff.mp hget).1
  rw [Nat.lt_min]
  exact and_iff_right hlt

omit [LinearOrder K] in
theorem bucketOf_place {b : Nat} {e e' : DataPoint K × Nat} (he : e ∈ bucketOf inner buckets b)
    (he' : e' ∈ bucketOf inner buckets b) (h : e.2 = e'.2) : e = e' := by
  have hget := (mem_bucketOf.mp he).1
  rw [h, (mem_bucketOf.mp he').1] at hget
  exact Prod.ext (Option.some.inj hget).symm h

/-- The kept points of all buckets. -/
def kept (inner : List (DataPoint K)) (buckets : Nat) : List (DataPoint K) :=
  (List.range buckets).flatMap fun b => bucketPoints (bucketOf inner buckets b)

theorem kept_subset : ∀ q ∈ kept inner buckets, q ∈ inner := by
  intro q hq
  obtain ⟨b, -, hq⟩ := List.mem_flatMap.mp hq
  obtain ⟨e, he, rfl⟩ := bucketPoints_subset _ q hq
  exact List.mem_of_getElem? (mem_bucketOf.mp he).1

theorem kept_length : (kept inner buckets).length ≤ 2 * buckets := by
  rw [kept, List.length_flatMap]
  refine (List.sum_le_card_nsmul _ 2 fun n hn => ?_).trans ?_
  · obtain ⟨b, -, rfl⟩ := List.mem_map.mp hn
    exact bucketPoints_length _
  · rw [List.length_map, List.length_range, smul_eq_mul, Nat.mul_comm]

/-- Points of different buckets stand in the order of their buckets. -/
theorem kept_sorted (h : inner.Pairwise fun p q => p.x ≤ q.x) :
    (kept inner buckets).Pairwise fun p q => p.x ≤ q.x := by
  refine List.pairwise_flatMap.mpr ⟨fun b _ => bucketPoints_sorted _, ?_⟩
  refine List.pairwise_lt_range.imp fun {b c} hbc p hp q hq => ?_
  obtain ⟨e, he, rfl⟩ := bucketPoints_subset _ p hp
  obtain ⟨e', he', rfl⟩ := bucketPoints_subset _ q hq
  obtain ⟨hget, -, hlt⟩ := mem_bucketOf.mp he
  obtain ⟨hget', hge, -⟩ := mem_bucketOf.mp he'
  obtain ⟨hi, heq⟩ := List.getElem?_eq_some_iff.mp hget
  obtain ⟨hi', heq'⟩ := List.getElem?_eq_some_iff.mp hget'
  have hedge := edge_mono inner.length buckets (show b + 1 ≤ c from hbc)
  have hsorted := List.pairwise_iff_getElem.mp h e.2 e'.2 hi hi' (by omega)
  rwa [heq, heq'] at hsorted

/-- The buckets keep the lowest and the highest value. -/
theorem kept_extremes (hbuckets : 0 < buckets) {p : DataPoint K} (hp : p ∈ inner) :
    (∃ q ∈ kept inner buckets, q.y ≤ p.y) ∧ ∃ q ∈ kept inner buckets, p.y ≤ q.y := by
  obtain ⟨i, hi⟩ := List.mem_iff_getElem?.mp hp
  obtain ⟨b, hb, hlo, hhi⟩ := exists_bucket hbuckets (List.getElem?_eq_some_iff.mp hi).1
  have hmem : (p, i) ∈ bucketOf inner buckets b := mem_bucketOf.mpr ⟨hi, hlo, hhi⟩
  obtain ⟨⟨q, hq, hle⟩, q', hq', hge⟩ := bucketPoints_extremes
    (fun e he e' he' => bucketOf_place he he') hmem
  have hkept : ∀ q ∈ bucketPoints (bucketOf inner buckets b), q ∈ kept inner buckets :=
    fun q hq => List.mem_flatMap.mpr ⟨b, List.mem_range.mpr hb, hq⟩
  exact ⟨⟨q, hkept q hq, hle⟩, q', hkept q' hq', hge⟩

end

/-! ## The waveform -/

variable {points : List (DataPoint K)} {maxPoints : Rat}

/-- A waveform that does not fit has two ends with points between them. -/
theorem downsamplePoints_eq (h : ¬ points.length ≤ pointCap maxPoints) :
    ∃ first inner last, points = first :: (inner ++ [last]) ∧
      downsamplePoints points maxPoints =
        first :: (kept inner (bucketCount maxPoints) ++ [last]) := by
  have hfour : 4 ≤ pointCap maxPoints := le_max_left _ _
  cases points with
  | nil => exact absurd (Nat.zero_le _) h
  | cons first rest =>
    have hrest : rest ≠ [] := by
      rintro rfl
      rw [List.length_singleton] at h
      omega
    refine ⟨first, rest.dropLast, rest.getLast hrest, ?_, ?_⟩
    · rw [List.dropLast_append_getLast hrest]
    · rw [downsamplePoints, if_neg h]
      dsimp only
      rw [List.getLast?_cons_of_ne_nil hrest, List.getLast?_eq_some_getLast hrest]
      rfl

theorem bucketCount_pos (maxPoints : Rat) : 0 < bucketCount maxPoints :=
  lt_of_lt_of_le Nat.zero_lt_one (le_max_left _ _)

theorem kept_fits (inner : List (DataPoint K)) (maxPoints : Rat) :
    (kept inner (bucketCount maxPoints)).length + 2 ≤ pointCap maxPoints := by
  have hlength : (kept inner (bucketCount maxPoints)).length ≤ 2 * bucketCount maxPoints :=
    kept_length
  have hfour : 4 ≤ pointCap maxPoints := le_max_left _ _
  have hcount : bucketCount maxPoints = max 1 ((pointCap maxPoints - 2) / 2) := rfl
  omega

/-- The kept points go as low and as high as all of them. -/
theorem downsample_extremes (maxPoints : Rat) {p : DataPoint K} (hp : p ∈ points) :
    (∃ q ∈ downsamplePoints points maxPoints, q.y ≤ p.y) ∧
      ∃ q ∈ downsamplePoints points maxPoints, p.y ≤ q.y := by
  by_cases h : points.length ≤ pointCap maxPoints
  · have hsame : downsamplePoints points maxPoints = points := if_pos h
    rw [hsame]
    exact ⟨⟨p, hp, le_rfl⟩, p, hp, le_rfl⟩
  · obtain ⟨first, inner, last, hpoints, hout⟩ := downsamplePoints_eq h
    rw [hout]
    rw [hpoints, List.mem_cons, List.mem_append, List.mem_singleton] at hp
    rcases hp with rfl | hp | rfl
    · exact ⟨⟨p, List.mem_cons_self, le_rfl⟩, p, List.mem_cons_self, le_rfl⟩
    · obtain ⟨⟨q, hq, hle⟩, q', hq', hge⟩ := kept_extremes (bucketCount_pos maxPoints) hp
      exact ⟨⟨q, List.mem_cons_of_mem _ (List.mem_append_left _ hq), hle⟩, q',
        List.mem_cons_of_mem _ (List.mem_append_left _ hq'), hge⟩
    · have hlast : p ∈ first :: (kept inner (bucketCount maxPoints) ++ [p]) :=
        List.mem_cons_of_mem _ (List.mem_append_right _ (List.mem_singleton_self p))
      exact ⟨⟨p, hlast, le_rfl⟩, p, hlast, le_rfl⟩

theorem downsample_subset (maxPoints : Rat) :
    ∀ q ∈ downsamplePoints points maxPoints, q ∈ points := by
  intro q hq
  by_cases h : points.length ≤ pointCap maxPoints
  · rwa [downsamplePoints, if_pos h] at hq
  · obtain ⟨first, inner, last, hpoints, hout⟩ := downsamplePoints_eq h
    rw [hout, List.mem_cons, List.mem_append] at hq
    rw [hpoints, List.mem_cons, List.mem_append]
    exact hq.imp_right fun h => h.imp_left (kept_subset q)

theorem downsample_sorted (hsorted : points.Pairwise fun p q => p.x ≤ q.x) (maxPoints : Rat) :
    (downsamplePoints points maxPoints).Pairwise fun p q => p.x ≤ q.x := by
  by_cases h : points.length ≤ pointCap maxPoints
  · rwa [downsamplePoints, if_pos h]
  · obtain ⟨first, inner, last, hpoints, hout⟩ := downsamplePoints_eq h
    rw [hpoints, List.pairwise_cons, List.pairwise_append] at hsorted
    obtain ⟨hfirst, hinner, -, hlast⟩ := hsorted
    rw [hout, List.pairwise_cons, List.pairwise_append]
    refine ⟨fun q hq => ?_, kept_sorted hinner, List.pairwise_singleton _ _, fun q hq l hl => ?_⟩
    · rcases List.mem_append.mp hq with hq | hq
      · exact hfirst q (List.mem_append_left _ (kept_subset q hq))
      · exact hfirst q (List.mem_append_right _ hq)
    · exact hlast q (kept_subset q hq) l hl

/-- Downsampling keeps what an engineer looks for. -/
theorem downsample_keeps (hsorted : points.Pairwise fun p q => p.x ≤ q.x) (maxPoints : Rat) :
    (downsamplePoints points maxPoints).length ≤ max 4 ⌊maxPoints⌋₊ ∧
    (∀ q ∈ downsamplePoints points maxPoints, q ∈ points) ∧
    ((downsamplePoints points maxPoints).Pairwise fun p q => p.x ≤ q.x) ∧
    (downsamplePoints points maxPoints).head? = points.head? ∧
    (downsamplePoints points maxPoints).getLast? = points.getLast? ∧
    (∀ m, IsLeast { y | ∃ q ∈ downsamplePoints points maxPoints, q.y = y } m ↔
      IsLeast { y | ∃ p ∈ points, p.y = y } m) ∧
    (∀ m, IsGreatest { y | ∃ q ∈ downsamplePoints points maxPoints, q.y = y } m ↔
      IsGreatest { y | ∃ p ∈ points, p.y = y } m) ∧
    (points.length ≤ max 4 ⌊maxPoints⌋₊ → downsamplePoints points maxPoints = points) := by
  have hvalues : { y | ∃ q ∈ downsamplePoints points maxPoints, q.y = y } ⊆
      { y | ∃ p ∈ points, p.y = y } := by
    rintro y ⟨q, hq, rfl⟩
    exact ⟨q, downsample_subset maxPoints q hq, rfl⟩
  have hends : (downsamplePoints points maxPoints).length ≤ pointCap maxPoints ∧
      (downsamplePoints points maxPoints).head? = points.head? ∧
      (downsamplePoints points maxPoints).getLast? = points.getLast? := by
    by_cases h : points.length ≤ pointCap maxPoints
    · rw [downsamplePoints, if_pos h]
      exact ⟨h, rfl, rfl⟩
    · obtain ⟨first, inner, last, hpoints, hout⟩ := downsamplePoints_eq h
      have hfits := kept_fits inner maxPoints
      rw [hout, hpoints]
      refine ⟨?_, rfl, ?_⟩
      · rw [List.length_cons, List.length_append, List.length_singleton]
        omega
      · rw [← List.cons_append, ← List.cons_append, List.getLast?_concat, List.getLast?_concat]
  refine ⟨hends.1, downsample_subset maxPoints, downsample_sorted hsorted maxPoints, hends.2.1,
    hends.2.2, isLeast_iff_of_subset hvalues ?_, isGreatest_iff_of_subset hvalues ?_,
    fun h => if_pos h⟩
  · rintro y ⟨p, hp, rfl⟩
    obtain ⟨⟨q, hq, hle⟩, -⟩ := downsample_extremes maxPoints hp
    exact ⟨q.y, ⟨q, hq, rfl⟩, hle⟩
  · rintro y ⟨p, hp, rfl⟩
    obtain ⟨-, q, hq, hge⟩ := downsample_extremes maxPoints hp
    exact ⟨q.y, ⟨q, hq, rfl⟩, hge⟩

/-- A glitch among six points survives a cap of four. -/
theorem downsample_keeps_glitch :
    IsGreatest { y | ∃ q ∈ downsamplePoints
      ([⟨0, 0⟩, ⟨1, 0⟩, ⟨2, 5⟩, ⟨3, 0⟩, ⟨4, -3⟩, ⟨5, 0⟩] : List (DataPoint Int)) 4, q.y = y } 5 := by
  refine ((downsample_keeps (by decide) 4).2.2.2.2.2.2.1 5).mpr
    ⟨⟨⟨2, 5⟩, by decide, rfl⟩, ?_⟩
  rintro y ⟨p, hp, rfl⟩
  revert p
  decide

end

end CircuitForge
