/-
The Convergence Doctor: `netlist/convergence.ts`, and the merge of a remedy into a deck,
`applySolverOptions` of `netlist/solver-options.ts`.
-/
import CircuitForge.Netlist.SolverOptions
import CircuitForge.Js.Search
import CircuitForge.Js.Lines

namespace CircuitForge

open Js Runtime

/-! ## The diagnosis -/

/-- `ConvergenceKind`. -/
inductive ConvergenceKind where
  | timestepCollapse | iterationLimit | singularMatrix | noConvergence | noOutput | none
  deriving DecidableEq

structure ConvergenceDiagnosis where
  kind : ConvergenceKind
  isConvergence : Bool
  explanation : Text

/-- `PATTERNS`; each pattern is a choice of words under the `i` flag. -/
def convergencePatterns : List (List String × ConvergenceKind) :=
  [(["timestep too small", "timestep collapse", "time step too small"], .timestepCollapse),
    (["singular matrix", "matrix is singular"], .singularMatrix),
    (["too many iterations", "iteration limit"], .iterationLimit),
    (["no convergence", "failed to converge", "convergence problem", "convergence failure",
      "unable to converge", "unable to find dc", "unable to find a dc", "unable to find the dc"],
      .noConvergence),
    (["no output", "produced no output", "degenerate"], .noOutput)]

/-- `EXPLANATION`. -/
def ConvergenceKind.explanation : ConvergenceKind → Text
  | timestepCollapse =>
    "The transient solver's adaptive timestep collapsed toward zero — the circuit is ".toList ++
      "stiff, has a very hard switching edge, or a near-floating node. Trying more ".toList ++
      "iterations, gear integration, and a little extra gmin.".toList
  | iterationLimit =>
    "ngspice hit its per-step Newton iteration limit before settling — common on stiff ".toList ++
      "or strongly nonlinear circuits. Raising the iteration limit and relaxing tolerances.".toList
  | singularMatrix =>
    "The conductance matrix is singular — almost always a floating node or a section ".toList ++
      "with no DC path to ground. Adding gmin (a tiny conductance to ground) often ".toList ++
      "resolves it; also check that every node has a DC return path.".toList
  | noConvergence =>
    "ngspice could not find a solution at the default accuracy. Relaxing tolerances and ".toList ++
      "adding gmin usually lets it converge (slightly less precise, but a real answer).".toList
  | noOutput =>
    "The run produced no usable data — typically a non-converging or degenerate ".toList ++
      "operating point. Adding gmin and relaxing tolerances often produces a solvable ".toList ++
      "circuit.".toList
  | none => []

/-- `diagnoseConvergence`. -/
def diagnoseConvergence (errorText : Text) : ConvergenceDiagnosis :=
  match convergencePatterns.find? fun p => p.1.any fun w => (Pattern.wordI w).test errorText with
  | some (_, kind) => { kind := kind, isConvergence := true, explanation := kind.explanation }
  | none => { kind := .none, isConvergence := false, explanation := [] }

/-! ## The ladder -/

variable [Runtime]

structure RemedyStep where
  label : Text
  rationale : Text
  options : SolverOptions

/-- `convergenceRemedyLadder`. -/
def convergenceRemedyLadder (analysisType : Text) : List RemedyStep :=
  let isTransient := analysisType = "tran".toList
  (if isTransient then
    [{ label := "raise transient iteration limit + gmin".toList
       rationale := "Gives the per-step solver more Newton iterations and a small ".toList ++
         "conductance floor — the usual fix for a collapsing timestep.".toList
       options := { itl4 := some (lit 500 0), gmin := some "1e-10".toList } },
      { label := "gear integration + relaxed tolerances".toList
        rationale := "The Gear method damps numerical ringing on stiff circuits; relaxed ".toList ++
          "reltol/vntol let it accept a slightly less precise but real solution.".toList
        options :=
          { method := some .gear
            itl4 := some (lit 1000 0)
            reltol := some "1e-2".toList
            vntol := some "1e-4".toList } }]
  else
    [{ label := "add gmin".toList
       rationale := "A tiny conductance to ground removes a singular/near-singular ".toList ++
         "matrix from a floating or high-impedance node.".toList
       options := { gmin := some "1e-9".toList } },
      { label := "relaxed tolerances + gmin".toList
        rationale := "Relaxing reltol/abstol/vntol lets the operating-point solver ".toList ++
          "accept a slightly less precise but real solution.".toList
        options :=
          { gmin := some "1e-9".toList
            reltol := some "1e-2".toList
            abstol := some "1e-9".toList
            vntol := some "1e-4".toList } }]) ++
  [{ label := "aggressive relaxation (last resort)".toList
     rationale := "Combines a higher gmin, relaxed tolerances, and a raised iteration ".toList ++
       "limit — the broadest convergence aid before giving up.".toList
     options :=
       { gmin := some "1e-8".toList
         reltol := some "5e-2".toList
         abstol := some "1e-8".toList
         vntol := some "1e-3".toList
         itl4 := some (lit 1000 0)
         method := if isTransient then some .gear else none } }]

/-- A step is known by its label. -/
theorem nodup_ladder_labels (analysisType : Text) :
    ((convergenceRemedyLadder analysisType).map RemedyStep.label).Nodup := by
  by_cases h : analysisType = "tran".toList
  · simp only [convergenceRemedyLadder, if_pos h, List.map_append, List.map_cons, List.map_nil]
    decide
  · simp only [convergenceRemedyLadder, if_neg h, List.map_append, List.map_cons, List.map_nil]
    decide

/-! ## The merge into a deck -/

/-- `/^\s*card\b/i.test(line)`, for a card that ends with a word character. -/
def isCard (card : String) (line : Text) : Bool :=
  let s := trimStart line
  startsWithI s card.toList && !(s.drop card.length).head?.any isWord

/-- `tok.split('=')[0].toLowerCase()`. -/
def tokenKey (tok : Text) : Text := lower (tok.takeWhile (· ≠ '='))

/-- The tokens of an `.options` line. -/
def optionTokens (line : Text) : List Text :=
  let s := trim line
  let body := if startsWithI s ".options".toList then trimStart (s.drop 8) else s
  (splitBlanks body).filter (· ≠ [])

/-- The tokens that stay, each key once. -/
def keptTokens (remedyKeys : List Text) : List Text → List Text → List Text
  | _, [] => []
  | seen, tok :: toks =>
    if tokenKey tok ∈ remedyKeys ∨ tokenKey tok ∈ seen then keptTokens remedyKeys seen toks
    else tok :: keptTokens remedyKeys (tokenKey tok :: seen) toks

/-- The card takes the place of the first `.options` line, and the others go. -/
def foldOptions (card : Text) (lines : List Text) : List Text :=
  let before := lines.takeWhile fun l => !isCard ".options" l
  let after := (lines.dropWhile fun l => !isCard ".options" l).tail
  before ++ card :: after.filter fun l => !isCard ".options" l

/-- `/^\s*\.(tran|ac|dc|op)\b/i.test(line)`. -/
def isAnalysisCard (line : Text) : Bool :=
  [".tran", ".ac", ".dc", ".op"].any fun card => isCard card line

/-- `applySolverOptions`. -/
def applySolverOptions (netlist : Text) (options : SolverOptions) : Text :=
  let remedyTokens := solverOptionTokens (some options)
  if remedyTokens = [] then netlist
  else
    let remedyKeys := remedyTokens.map tokenKey
    let lines := splitLineEnds netlist
    let optionLines := lines.filter (isCard ".options")
    if optionLines ≠ [] then
      let kept := keptTokens remedyKeys [] (optionLines.flatMap optionTokens)
      join "\n".toList
        (foldOptions (".options ".toList ++ join " ".toList (kept ++ remedyTokens)) lines)
    else
      let card := ".options ".toList ++ join " ".toList remedyTokens
      let anchorOf := fun p : Text → Bool => lines.findIdx? p
      match ((anchorOf isAnalysisCard).or (anchorOf (isCard ".control"))).or
          (anchorOf (isCard ".end")) with
      | none => join "\n".toList (lines ++ [card])
      | some at' =>
        join "\n".toList (lines.take at' ++ ["* Options".toList, card, []] ++ lines.drop at')

end CircuitForge
