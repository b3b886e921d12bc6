/-
What candidates cost at most: the screens, the loops of the finalists and the single loops of
`runMultiCandidateDesign`.

A budget is looked at before the loop of a finalist, which may issue several requests then.  The
single loops that are fallen back to are not looked at.
-/
import CircuitForge.Llm.Spending
import CircuitForge.Worker.MultiCandidate

namespace CircuitForge.Design

open Js Effects

/-! ## What an input allows for -/

/-- `n`: the candidates that are screened. -/
def candidateCount (opts : MultiCandidateOptions) : Int := max 1 (min opts.n maxCandidates)

/-- The most finalists. -/
def mostFinalists (opts : MultiCandidateOptions) : Nat :=
  min (max 1 opts.k).toNat (candidateCount opts).toNat

/-- `max(n, llmBudget)`. -/
def ceiling (opts : MultiCandidateOptions) : Int := max opts.n opts.llmBudget

section

variable [Runtime]

/-- The options allow for a whole loop after the screens, and for all fixes of the finalists or
for those of one finalist that starts with one request left. -/
structure Affordable (input : DesignLoopInput) (opts : MultiCandidateOptions) : Prop where
  afterScreens : candidateCount opts + mostRequests input ≤ ceiling opts
  afterFinalists : candidateCount opts < opts.llmBudget →
    candidateCount opts + mostFinalists opts * mostFixes input ≤ ceiling opts ∨
      opts.llmBudget - 1 + mostFixes input ≤ ceiling opts

instance (input : DesignLoopInput) (opts : MultiCandidateOptions) :
    Decidable (Affordable input opts) :=
  decidable_of_iff (_ ∧ (_ → _ ∨ _)) ⟨fun h => ⟨h.1, h.2⟩, fun h => ⟨h.1, h.2⟩⟩

variable {deps : DesignDeps} {count : deps.World → Nat}

/-! ## Screens -/

/-- Within the budget every candidate is screened, and every screen is one request. -/
theorem screenAll_costs (h : Counts deps count) (input : DesignLoopInput) {budget : Int}
    (directives : List Text) {llmCalls : Int} (hbudget : llmCalls + directives.length ≤ budget) :
    (screenAll deps input budget directives llmCalls).Costs count fun k r =>
      k = directives.length ∧ ∃ screened : List ScreenResult,
        r = .ok (screened, llmCalls + directives.length) ∧
          screened.length ≤ directives.length := by
  induction directives generalizing llmCalls with
  | nil => exact Proc.costs_done ⟨rfl, [], by simp, Nat.le_refl 0⟩
  | cons directive directives ih =>
    have hcall : ¬ budget ≤ llmCalls := by
      rw [List.length_cons] at hbudget
      omega
    rw [screenAll, if_neg hcall]
    have hscreen : (Proc.catching
        (do
          let r ← screenCandidate deps (directed input directive)
          Proc.done (some r))
        fun _ => Proc.done none : Run deps (Option ScreenResult)).Costs count
        fun k r => k = 1 ∧ ∃ screened, r = .ok screened := by
      refine Proc.Costs.catching (Φ := fun k _ => k = 1) ?_ (fun k a hk => ⟨hk, a, rfl⟩)
        fun k e hk => Proc.costs_done ⟨hk, none, rfl⟩
      exact (screenCandidate_costs h _).andThen (fun _ _ hk => hk) fun k a hk =>
        Proc.costs_done hk
    refine hscreen.andThen (fun k e hk => ?_) fun k screened hk => ?_
    · obtain ⟨-, screened, hscreened⟩ := hk
      cases hscreened
    · obtain rfl := hk.1
      have hrest : llmCalls + 1 + directives.length ≤ budget := by
        rw [List.length_cons] at hbudget
        push_cast at hbudget
        omega
      refine (ih hrest).andThen (fun k e hk => ?_) fun k rest hk => ?_
      · obtain ⟨-, screened, hscreened, -⟩ := hk
        cases hscreened
      · obtain ⟨rfl, screened', hscreened, hlength⟩ := hk
        cases hscreened
        refine Proc.costs_done ⟨?_, screened.toList ++ screened', ?_, ?_⟩
        · rw [List.length_cons]
          omega
        · rw [List.length_cons]
          push_cast
          congr 2
          omega
        · rw [List.length_append, List.length_cons]
          cases screened with
          | none => simpa using Nat.le_succ_of_le hlength
          | some r =>
            rw [Option.toList_some, List.length_singleton]
            omega

/-! ## Finalists -/

theorem Counts.withoutYield (h : Counts deps count) : Counts (withoutYield deps) count :=
  { h with runYieldAnalysis := fun _ _ _ _ => rfl }

theorem finalistLoop_pays (h : Counts deps count) (input : DesignLoopInput)
    (hseed : input.seedCircuit.isSome = true) :
    (finalistLoop deps input).Pays count (mostFixes input) fun k result =>
      k + 1 = result.rounds := by
  have hnone : generations input = 0 := if_pos hseed
  have hloop := runDesignLoop_pays h.withoutYield input
  rw [mostRequests, hnone, Nat.zero_add] at hloop
  exact hloop

theorem finalize_of_spent (input : DesignLoopInput) {budget llmCalls : Int}
    (hspent : budget ≤ llmCalls) (finalists : List ScreenResult) :
    finalize deps input budget finalists llmCalls = Proc.done ([], llmCalls) := by
  cases finalists with
  | nil => rfl
  | cons f finalists => exact if_pos hspent

/-- The loops of the finalists: all of them run in full, or the last one has started with a
request left; what they have cost is counted. -/
theorem finalize_pays (h : Counts deps count) (input : DesignLoopInput) {budget : Int}
    (finalists : List ScreenResult) {llmCalls : Int} (hcalls : llmCalls < budget) :
    (finalize deps input budget finalists llmCalls).Pays count
      (min (finalists.length * mostFixes input) (budget - 1 + mostFixes input - llmCalls).toNat)
      fun k result => result.2 = llmCalls + k ∧ (result.1 = [] → finalists = []) := by
  induction finalists generalizing llmCalls with
  | nil => exact Proc.pays_done ⟨by simp, fun _ => rfl⟩
  | cons f finalists ih =>
    rw [finalize, if_neg (not_le.mpr hcalls)]
    have hloop := finalistLoop_pays h (seeded input f) rfl
    have hfixes : mostFixes (seeded input f) = mostFixes input := rfl
    rw [hfixes] at hloop
    refine hloop.andThen ?_ fun k r hmost hk => ?_
    · rw [List.length_cons, Nat.succ_mul]
      omega
    · have hpaid : max 0 ((r.rounds : Int) - 1) = k := by omega
      rw [hpaid]
      by_cases hspent : budget ≤ llmCalls + k
      · rw [finalize_of_spent input hspent]
        exact Proc.pays_done ⟨by simp, fun hnil => nomatch hnil⟩
      · refine ((ih (not_le.mp hspent)).le ?_).andThen (Nat.le_refl _) fun more rest _ hrest => ?_
        · rw [List.length_cons, Nat.succ_mul]
          omega
        · refine Proc.pays_done ⟨?_, fun hnil => nomatch hnil⟩
          rw [hrest.1]
          push_cast
          omega

/-! ## The run -/

/-- What a run has issued at its end, and what its result reports of it. -/
def Reported (k : Nat) (result : MultiResult deps.Report) : Prop :=
  ∀ counts, result.candidates = some counts → counts.llmCalls = k

theorem single_pays {most spent : Nat} {loop : Run deps (DesignResult deps.Report)}
    {p : Nat → DesignResult deps.Report → Prop} (hloop : loop.Pays count most p) :
    (single deps loop).Pays count most fun k result => Reported (spent + k) result :=
  hloop.andThen (Nat.le_refl _) fun _ _ _ _ => Proc.pays_done fun _ hnone => nomatch hnone

theorem conclude_pays (h : Counts deps count) (screened : List ScreenResult) {llmCalls : Int}
    {most spent : Nat} (hcalls : llmCalls = spent) (first : DesignResult deps.Report)
    (rest : List (DesignResult deps.Report)) :
    (conclude deps screened llmCalls first rest).Pays count most fun k result =>
      Reported (spent + k) result := by
  have hreported : ∀ (generated finalists : Nat) (result : MultiResult deps.Report),
      result.candidates = some ⟨generated, finalists, llmCalls⟩ → Reported (spent + 0) result := by
    intro generated finalists result hresult counts hcounts
    rw [hresult] at hcounts
    cases hcounts
    exact hcalls
  unfold conclude
  extract_lets finalized winner
  split
  · exact Proc.Free.pays (P := fun _ => True)
      (Proc.free_call (h.runYieldAnalysis _ _ _) fun _ _ _ => trivial) fun report _ =>
        Proc.pays_done (hreported _ _ _ rfl)
  · exact Proc.Free.pays (P := fun _ => True) (Proc.free_done trivial) fun report _ =>
      Proc.pays_done (hreported _ _ _ rfl)

theorem runMultiCandidateDesign_of_two_le {input : DesignLoopInput}
    {opts : MultiCandidateOptions} (hn : 2 ≤ opts.n) :
    runMultiCandidateDesign deps input opts = (do
      let r ← screenAll deps input (max (candidateCount opts) opts.llmBudget)
        (candidateDirectives (candidateCount opts)) 0
      if r.1.isEmpty then single deps (runDesignLoop deps input)
      else finish deps input (max (candidateCount opts) opts.llmBudget) opts.k r.1 r.2) := by
  have hcount : ¬ candidateCount opts ≤ 1 := by
    unfold candidateCount maxCandidates
    omega
  exact if_neg hcount

/-- After the screens: what is allowed for holds the finalists and the loop that is fallen back
to, and what has been spent is reported. -/
theorem finish_pays (h : Counts deps count) (input : DesignLoopInput)
    {opts : MultiCandidateOptions} {screened : List ScreenResult} {spent most : Nat}
    (hcount : candidateCount opts = spent) (hne : screened ≠ [])
    (hlength : screened.length ≤ spent) (hsingle : spent + mostRequests input ≤ most)
    (hfinal : spent < opts.llmBudget →
      min (spent + mostFinalists opts * mostFixes input)
        (opts.llmBudget - 1 + mostFixes input).toNat ≤ most) :
    (finish deps input (max (candidateCount opts) opts.llmBudget) opts.k screened spent).Pays count
      (most - spent) fun k result => Reported (spent + k) result := by
  have hfinalists := selectFinalists_ne_nil hne opts.k
  have hlength' : (selectFinalists screened opts.k).length ≤ mostFinalists opts := by
    have hbest := length_bestByTopology_le screened
    rw [length_selectFinalists, mostFinalists, hcount, Int.toNat_natCast]
    omega
  unfold finish
  rw [hcount]
  by_cases hbudget : (spent : Int) < opts.llmBudget
  · have hmax : max (spent : Int) opts.llmBudget = opts.llmBudget := max_eq_right hbudget.le
    rw [hmax]
    have hmul : (selectFinalists screened opts.k).length * mostFixes input ≤
        mostFinalists opts * mostFixes input := Nat.mul_le_mul_right _ hlength'
    have hall := hfinal hbudget
    refine (finalize_pays h input (selectFinalists screened opts.k) hbudget).andThen ?_ ?_
    · omega
    · rintro k ⟨finalized, llmCalls⟩ - ⟨hcalls, hnil⟩
      cases finalized with
      | nil => exact absurd (hnil rfl) hfinalists
      | cons first rest =>
        have hspent : llmCalls = ((spent + k : Nat) : Int) := by
          rw [Nat.cast_add]
          exact hcalls
        have hconclude : (conclude deps screened llmCalls first rest).Pays count
            (most - spent - k) fun more result => Reported (spent + k + more) result :=
          conclude_pays h screened hspent first rest
        exact hconclude.mono fun more result hreported => Nat.add_assoc spent k more ▸ hreported
  · have hmax : max (spent : Int) opts.llmBudget = spent := max_eq_left (not_lt.mp hbudget)
    obtain ⟨f, finalists, hf⟩ := List.exists_cons_of_ne_nil hfinalists
    dsimp only
    rw [hmax, hf, finalize_of_spent input (le_refl _)]
    have hloop := finalistLoop_pays h (reseeded input f) rfl
    have hmost : mostFixes (reseeded input f) ≤ most - spent := by
      have : mostFixes (reseeded input f) = mostFixes input := rfl
      rw [mostRequests] at hsingle
      omega
    exact (single_pays hloop).le hmost

omit [Runtime] in
theorem length_candidateDirectives (opts : MultiCandidateOptions) :
    ((candidateDirectives (candidateCount opts)).length : Int) = candidateCount opts := by
  have hlength : topologyDirectives.length = 5 := rfl
  rw [candidateDirectives, List.length_take, hlength]
  unfold candidateCount maxCandidates
  omega

/-- What a run costs at most, and that what it reports of it is right. -/
theorem run_pays (h : Counts deps count) {input : DesignLoopInput} {opts : MultiCandidateOptions}
    (most : Nat) (hn : 2 ≤ opts.n)
    (hsingle : candidateCount opts + mostRequests input ≤ most)
    (hfinal : candidateCount opts < opts.llmBudget →
      min (candidateCount opts + mostFinalists opts * mostFixes input)
        (opts.llmBudget - 1 + mostFixes input) ≤ most) :
    (runMultiCandidateDesign deps input opts).Pays count most Reported := by
  have hlength := length_candidateDirectives opts
  rw [runMultiCandidateDesign_of_two_le hn]
  have hbudget : (0 : Int) + (candidateDirectives (candidateCount opts)).length ≤
      max (candidateCount opts) opts.llmBudget := by
    rw [hlength, zero_add]
    exact le_max_left _ _
  have hscreens := screenAll_costs h input (candidateDirectives (candidateCount opts)) hbudget
  generalize candidateDirectives (candidateCount opts) = directives at hscreens hlength
  have hscreened : (screenAll deps input (max (candidateCount opts) opts.llmBudget) directives
      0).Pays count directives.length fun k r => k = directives.length ∧
        r.2 = ((directives.length : Nat) : Int) ∧ r.1.length ≤ directives.length := by
    refine hscreens.pays (fun _ _ hr => hr.1.le) ?_
    rintro k r ⟨hk, screened, hr, hscreened⟩
    cases hr
    exact ⟨hk, zero_add _, hscreened⟩
  refine hscreened.andThen ?_ ?_
  · omega
  · rintro k ⟨screened, llmCalls⟩ - ⟨rfl, hcalls, hscreened⟩
    dsimp only at hcalls hscreened ⊢
    split
    · exact (single_pays (runDesignLoop_pays h input)).le (by omega)
    · rename_i hempty
      rw [hcalls]
      refine finish_pays h input hlength.symm ?_ hscreened (by omega) fun hcount => ?_
      · exact fun hnil => hempty (List.isEmpty_iff.mpr hnil)
      · have := hfinal (hlength ▸ hcount)
        omega

/-! ## The requests of a run -/

/-- A run from a world, with an empty log and no requests so far. -/
def countedRun (deps : DesignDeps) (input : DesignLoopInput) (opts : MultiCandidateOptions)
    (w : deps.World) : Except Thrown (MultiResult deps.Report) × Logged (deps.World × Nat) Event :=
  runMultiCandidateDesign (counted deps) input opts ⟨(w, 0), []⟩

/-- The requests that a run issues. -/
def issued (deps : DesignDeps) (input : DesignLoopInput) (opts : MultiCandidateOptions)
    (w : deps.World) : Nat :=
  (countedRun deps input opts w).2.state.2

/-- The calls that a run reports are those it issued. -/
def ReportsIssued (deps : DesignDeps) (input : DesignLoopInput) (opts : MultiCandidateOptions)
    (w : deps.World) : Prop :=
  ∀ result, (countedRun deps input opts w).1 = .ok result →
    ∀ counts, result.candidates = some counts → counts.llmCalls = issued deps input opts w

theorem issued_of_pays {input : DesignLoopInput} {opts : MultiCandidateOptions} {most : Nat}
    (h : (runMultiCandidateDesign (counted deps) input opts).Pays Prod.snd most Reported)
    (w : deps.World) :
    issued deps input opts w ≤ most ∧ ReportsIssued deps input opts w := by
  obtain ⟨k, hk, hmost, hreported⟩ := h ⟨(w, 0), []⟩
  have hissued : issued deps input opts w = k := hk.trans (Nat.zero_add k)
  refine ⟨hissued.trans_le hmost, fun result hresult counts hcounts => ?_⟩
  rw [hissued]
  exact hreported result hresult counts hcounts

theorem reports_issued (input : DesignLoopInput) {opts : MultiCandidateOptions} (hn : 2 ≤ opts.n)
    (w : deps.World) : ReportsIssued deps input opts w := by
  generalize hfixes : (mostFinalists opts : Int) * mostFixes input = fixes
  have hpays : (runMultiCandidateDesign (counted deps) input opts).Pays Prod.snd
      (max (candidateCount opts + mostRequests input) (candidateCount opts + fixes)).toNat
        Reported :=
    run_pays (counts_counted deps) _ hn (by omega) fun _ => by omega
  exact (issued_of_pays hpays w).2

/-- What is affordable stays below the ceiling. -/
theorem issued_le_ceiling {input : DesignLoopInput} {opts : MultiCandidateOptions}
    (hn : 2 ≤ opts.n) (hafford : Affordable input opts) (w : deps.World) :
    issued deps input opts w ≤ ceiling opts := by
  have hsingle := hafford.afterScreens
  have hceiling : 0 ≤ ceiling opts := by
    unfold ceiling
    omega
  have hpays := run_pays (counts_counted deps) (ceiling opts).toNat hn
    (hsingle.trans (Int.self_le_toNat _)) fun hcount => by
      have hfinal := hafford.afterFinalists hcount
      omega
  have hmost := (issued_of_pays hpays w).1
  omega

end

end CircuitForge.Design
