/-
Designing with several candidates: `runMultiCandidateDesign` of
`worker-sim/src/design/multi-candidate.ts`.

Candidates are screened, the best ones are run through the fix loop, and the calls of the language
model are counted against a budget.  The screens run at the same time there and one after the
other here: what each of them ends with is up to the outside.
-/
import CircuitForge.Js.Costs
import CircuitForge.Llm.Candidates

namespace CircuitForge.Design

open Js Effects

/-! ## Options and results -/

structure MultiCandidateOptions where
  n : Int
  k : Int
  llmBudget : Int

/-- `MAX_CANDIDATES`. -/
def maxCandidates : Int := 5

/-- `TOPOLOGY_DIRECTIVES`. -/
def topologyDirectives : List Text :=
  ["", "Prefer the simplest topology with the fewest components.",
    "Prefer a discrete-component implementation (avoid op-amps / ICs) where reasonable.",
    "Prefer an op-amp / active implementation where it improves the design.",
    "Prefer a topology that is robust to component-value tolerance."].map String.toList

def candidateDirectives (n : Int) : List Text := topologyDirectives.take (max 1 n).toNat

/-- `candidates` of a result. -/
structure CandidateCounts where
  generated : Nat
  finalists : Nat
  llmCalls : Int

section

variable [Runtime]

/-- `summarizeAlternative`. -/
structure Alternative where
  circuit : CircuitJson
  ok : Bool
  verified : Bool
  rounds : Nat
  simStatus : Option RoundStatus
  assertionsPassed : Nat
  assertionsTotal : Nat

def summarizeAlternative {Report : Type} (r : DesignResult Report) : Alternative :=
  let assertions := r.assertions.getD []
  { circuit := r.circuit
    ok := r.ok
    verified := r.verified
    rounds := r.rounds
    simStatus := r.status
    assertionsPassed := (assertions.filter AssertionResult.pass).length
    assertionsTotal := assertions.length }

/-- A design result, with what the candidates add to it. -/
structure MultiResult (Report : Type) where
  result : DesignResult Report
  candidates : Option CandidateCounts := none
  alternatives : List Alternative := []

/-- `pickWinner`: the place of the winner. -/
def winnerAt {Report : Type} (finalized : List (DesignResult Report)) : Nat :=
  ((finalized.findIdx? fun r => r.ok && r.verified).or
    (finalized.findIdx? DesignResult.ok)).getD 0

/-! ## The stages -/

/-- `{ ...deps, mcEnabled: false }`. -/
@[reducible] def withoutYield (deps : DesignDeps) : DesignDeps :=
  { deps with runYieldAnalysis := fun _ _ _ w => (none, w) }

/-- The input of a candidate. -/
def directed (input : DesignLoopInput) (directive : Text) : DesignLoopInput :=
  if directive = [] then input
  else
    { input with
      constraints :=
        some (join [' '] ([input.constraints.getD [], directive].filter (· ≠ []))) }

/-- The input of a finalist without a finalized one before it. -/
def reseeded (input : DesignLoopInput) (f : ScreenResult) : DesignLoopInput :=
  { input with
    seedCircuit := some f.circuit
    seedAnalysisConfig := some f.analysisConfig
    seedCriteria := some f.acceptanceCriteria }

/-- The input of a finalist. -/
def seeded (input : DesignLoopInput) (f : ScreenResult) : DesignLoopInput :=
  { reseeded input f with seedExplanation := f.explanation }

variable (deps : DesignDeps)

/-- The loop of a finalist. -/
def finalistLoop (input : DesignLoopInput) : Run deps (DesignResult deps.Report) :=
  runDesignLoop (withoutYield deps) input

/-- Stage 1: one candidate for each directive; one that throws is left out. -/
def screenAll (input : DesignLoopInput) (budget : Int) : List Text → Int →
    Run deps (List ScreenResult × Int)
  | [], llmCalls => Proc.done ([], llmCalls)
  | directive :: directives, llmCalls =>
    if budget ≤ llmCalls then screenAll input budget directives llmCalls
    else do
      let screened ← Proc.catching
        (do
          let r ← screenCandidate deps (directed input directive)
          Proc.done (some r))
        fun _ => Proc.done none
      let rest ← screenAll input budget directives (llmCalls + 1)
      Proc.done (screened.toList ++ rest.1, rest.2)

/-- Stage 3: the loop of each finalist, while there is budget. -/
def finalize (input : DesignLoopInput) (budget : Int) : List ScreenResult → Int →
    Run deps (List (DesignResult deps.Report) × Int)
  | [], llmCalls => Proc.done ([], llmCalls)
  | f :: finalists, llmCalls =>
    if budget ≤ llmCalls then Proc.done ([], llmCalls)
    else do
      let r ← finalistLoop deps (seeded input f)
      let rest ← finalize input budget finalists (llmCalls + max 0 ((r.rounds : Int) - 1))
      Proc.done (r :: rest.1, rest.2)

/-- Stage 4: the winner, with its yield. -/
def conclude (screened : List ScreenResult) (llmCalls : Int)
    (first : DesignResult deps.Report) (rest : List (DesignResult deps.Report)) :
    Run deps (MultiResult deps.Report) := do
  let finalized := first :: rest
  let winner := finalized.getD (winnerAt finalized) first
  let report ← if winner.ok then
      Proc.call fun w =>
        let yielded := deps.runYieldAnalysis winner.circuit winner.analysisConfig
          (winner.acceptanceCriteria.getD []) w
        (.ok yielded.1, yielded.2)
    else Proc.done none
  Proc.done
    { result := { winner with yield := report.or winner.yield }
      candidates := some ⟨screened.length, finalized.length, llmCalls⟩
      alternatives := (finalized.eraseIdx (winnerAt finalized)).map summarizeAlternative }

/-- A single loop, for which no candidates are reported. -/
def single (loop : Run deps (DesignResult deps.Report)) : Run deps (MultiResult deps.Report) := do
  let r ← loop
  Proc.done { result := r }

/-- Stages 2 to 4: the finalists, or the best of them alone where the budget is used up. -/
def finish (input : DesignLoopInput) (budget k : Int) (screened : List ScreenResult)
    (llmCalls : Int) : Run deps (MultiResult deps.Report) := do
  let finalists := selectFinalists screened k
  let (finalized, llmCalls) ← finalize deps input budget finalists llmCalls
  match finalized, finalists with
  | first :: rest, _ => conclude deps screened llmCalls first rest
  | [], f :: _ => single deps (finalistLoop deps (reseeded input f))
  | [], [] => Proc.throw (.fault "Cannot read properties of undefined".toList)

def runMultiCandidateDesign (input : DesignLoopInput) (opts : MultiCandidateOptions) :
    Run deps (MultiResult deps.Report) := do
  let n := max 1 (min opts.n maxCandidates)
  if n ≤ 1 then single deps (runDesignLoop deps input)
  else do
    let budget := max n opts.llmBudget
    let (screened, llmCalls) ← screenAll deps input budget (candidateDirectives n) 0
    if screened.isEmpty then single deps (runDesignLoop deps input)
    else finish deps input budget opts.k screened llmCalls

end

end CircuitForge.Design
