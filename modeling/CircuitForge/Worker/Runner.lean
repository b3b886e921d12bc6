/-
The remedy ladder of the worker: `runSimulation` of `worker-sim/simulation/runner.ts`.

The first attempt runs the deck as it is.  If it fails to converge, each remedy of the ladder is
merged into the deck and run in the same directory, until one succeeds.  Nothing takes away what an
earlier attempt has left in the directory, so that an attempt that writes no table of its own reads
an older one.  Where every attempt that ends well writes what is read of it, a success rests on the
attempt that it names alone.
-/
import CircuitForge.Worker.Attempts
import CircuitForge.Parser.Csv
import CircuitForge.Js.Exact

namespace CircuitForge

open Js

section

variable [Runtime] {R F M T : Type}

/-! ## The run -/

/-- `firstConvergenceLine`. -/
def firstConvergenceLine (text : Text) : Text :=
  (((splitLines text).find? fun line => (diagnoseConvergence line).isConvergence).map trim).getD []

/-- What a run meets: the directory as the model files leave it, and what ngspice does at each
attempt. -/
structure RunnerWorld where
  dir : JobDir := {}
  ngspice : Nat → NgspiceRun

namespace RunnerWorld

variable (w : RunnerWorld)

/-- The directory in front of attempt `k`. -/
def dirBefore : Nat → JobDir
  | 0 => w.dir
  | k + 1 => (dirBefore k).write k (w.ngspice k)

/-- The directory that attempt `k` is judged by. -/
def dirBehind (k : Nat) : JobDir := w.dirBefore (k + 1)

end RunnerWorld

variable (readers : OutputReaders R F M T) (input : SimulationJobInput) (w : RunnerWorld)

/-- `runOneAttempt`, as attempt `k` of the run. -/
def runOneAttempt (deck : Text) (k : Nat) : Option (SimulationJobResult R F M T) :=
  judgeAttempt readers input deck (w.ngspice k) (w.dirBehind k)

/-- The report on a ladder that did not help. -/
def exhausted (diag : ConvergenceDiagnosis) (tried : List Text) : ConvergenceReport where
  recovered := false
  kind := diag.kind
  diagnosis := diag.explanation
  attempts := tried.length
  triedRemedies := some tried

/-- The loop over the ladder, whose next attempt is `k`. -/
def walkLadder (sanitizedNetlist : Text) (first : SimulationJobResult R F M T)
    (diag : ConvergenceDiagnosis) :
    List RemedyStep → Nat → List Text → Option (SimulationJobResult R F M T)
  | [], _, tried => some { first with convergence := some (exhausted diag tried) }
  | remedy :: ladder, k, tried =>
    match runOneAttempt readers input w (applySolverOptions sanitizedNetlist remedy.options) k with
    | none => none
    | some retry =>
      if retry.success then
        some
          { retry with
            convergence := some
              { recovered := true
                kind := diag.kind
                diagnosis := diag.explanation
                remedyApplied := some remedy.label
                rationale := some remedy.rationale
                attempts := tried.length + 1 } }
      else if retry.infra then some retry
      else if retry.timedOut then
        some { first with convergence := some (exhausted diag tried) }
      else walkLadder sanitizedNetlist first diag ladder (k + 1) (tried ++ [remedy.label])

/-- What the `catch` answers. -/
def infraFailure : SimulationJobResult R F M T :=
  { success := false, stdout := [], stderr := [], infra := true }

/-- The diagnosis of the first failure: that of a line of the listing, or else of the error. -/
def firstDiagnosis (first : SimulationJobResult R F M T) : ConvergenceDiagnosis :=
  let line := firstConvergenceLine first.stderr
  diagnoseConvergence (if line ≠ [] then line else first.error.getD [])

/-- `runSimulation`, up to the answer of its `catch`. -/
def runAttempts (sanitizedNetlist : Text) : Option (SimulationJobResult R F M T) :=
  match runOneAttempt readers input w sanitizedNetlist 0 with
  | none => none
  | some first =>
    if first.success then some first
    else
      let diag := firstDiagnosis first
      if first.infra || !diag.isConvergence then some first
      else
        walkLadder readers input w sanitizedNetlist first diag
          (convergenceRemedyLadder input.analysisType) 1 []

/-- `runSimulation`. -/
def runSimulation : SimulationJobResult R F M T :=
  match sanitizeNetlist input.netlist with
  | .ok sanitizedNetlist => (runAttempts readers input w sanitizedNetlist).getD infraFailure
  | .error _ => infraFailure

/-! ## Evidence -/

/-- The deck of attempt `k`. -/
def deckOf (k : Nat) : Option Text :=
  match k with
  | 0 => some input.netlist
  | k + 1 => (convergenceRemedyLadder input.analysisType)[k]?.map fun remedy =>
      applySolverOptions input.netlist remedy.options

/-- Attempt `k` has written data of its own. -/
def wroteData (k : Nat) : Prop :=
  if input.analysisType = "sens".toList then
    (w.ngspice k).stdout ≠ [] ∨ (w.ngspice k).log.isSome
  else (w.ngspice k).csv.isSome

/-- A result is that of attempt `k`: it was judged by its deck, all that was read was written by
it, and the remedy that is named is the one that its deck has. -/
structure RestsOn (result : SimulationJobResult R F M T) (k : Nat) : Prop where
  judged : ∃ deck attempt, deckOf input k = some deck ∧
    runOneAttempt readers input w deck k = some attempt ∧ attempt.success = true ∧
    result = { attempt with convergence := result.convergence }
  sources : ∀ writer ∈ result.sources, writer = .attempt k
  wrote : wroteData input w k
  first : k = 0 → result.convergence = none
  remedy : ∀ j, k = j + 1 → ∃ report remedy, result.convergence = some report ∧
    (convergenceRemedyLadder input.analysisType)[j]? = some remedy ∧
    report.remedyApplied = some remedy.label ∧
    ∀ other ∈ convergenceRemedyLadder input.analysisType,
      other.label = remedy.label → other = remedy

/-- A success rests on one of the attempts. -/
def EvidenceOwn : Prop :=
  (runSimulation readers input w).success = true →
    ∃ k, RestsOn readers input w (runSimulation readers input w) k

/-- An attempt reads the listing. -/
def readsListing (deck : Text) : Prop :=
  input.analysisType = "sens".toList ∨ input.analysisType = "noise".toList ∨
    wantsListing deck = true

/-- If attempt `k` ends well, it writes each file that is read of it or finds none, and a
sensitivity analysis prints its table. -/
structure WritesOwn (k : Nat) : Prop where
  csv : (w.ngspice k).timedOut = false → (w.ngspice k).exitCode = some 0 →
    input.analysisType ≠ "sens".toList →
    (w.ngspice k).csv.isSome ∨ (w.dirBefore k).csv.isNone
  log : (w.ngspice k).timedOut = false → (w.ngspice k).exitCode = some 0 →
    ∀ deck, deckOf input k = some deck → readsListing input deck →
    (w.ngspice k).log.isSome ∨ (w.dirBefore k).log.isNone
  sens : (w.ngspice k).timedOut = false → (w.ngspice k).exitCode = some 0 →
    input.analysisType = "sens".toList →
    (w.ngspice k).stdout ≠ [] ∨ (w.ngspice k).log.isSome

/-! ## One attempt -/

variable {readers input w} {deck : Text} {k : Nat} {r : SimulationJobResult R F M T}

/-- What a success was read from. -/
theorem judgeAttempt_success {run : NgspiceRun} {dir : JobDir}
    (h : judgeAttempt readers input deck run dir = some r) (hs : r.success = true) :
    run.timedOut = false ∧ run.exitCode = some 0 ∧ r.convergence = none ∧
      (if input.analysisType = "sens".toList then r.sources = fileWriters dir.log
      else ∃ output, dir.csv = some output ∧ (r.sources = output.writer ::
        (if input.analysisType = "noise".toList ∨ wantsListing deck = true
          then fileWriters dir.log else []))) := by
  unfold judgeAttempt at h
  by_cases htime : run.timedOut = true
  · rw [if_pos htime] at h
    obtain rfl := Option.some.inj h
    exact absurd hs Bool.false_ne_true
  rw [if_neg htime] at h
  by_cases hexit : run.exitCode ≠ some 0
  · rw [if_pos hexit] at h
    obtain rfl := Option.some.inj h
    exact absurd hs Bool.false_ne_true
  rw [if_neg hexit] at h
  refine ⟨Bool.eq_false_iff.mpr htime, not_not.mp hexit, ?_⟩
  by_cases hsens : input.analysisType = "sens".toList
  · rw [if_pos hsens] at h ⊢
    obtain ⟨result, -, rfl⟩ := Option.map_eq_some_iff.mp h
    exact ⟨rfl, rfl⟩
  rw [if_neg hsens] at h ⊢
  cases hcsv : dir.csv with
  | none =>
    rw [hcsv] at h
    obtain rfl := Option.some.inj h
    exact absurd hs Bool.false_ne_true
  | some output =>
    rw [hcsv] at h
    simp only at h
    split at h
    · obtain rfl := Option.some.inj h
      exact absurd hs Bool.false_ne_true
    · obtain ⟨result, -, hr⟩ := Option.map_eq_some_iff.mp h
      split at hr
      · rw [← hr] at hs
        exact absurd hs Bool.false_ne_true
      · rw [← hr]
        refine ⟨rfl, output, rfl, ?_⟩
        simp only [Bool.or_eq_true, decide_eq_true_eq]

omit [Runtime] in
theorem mem_fileWriters {file : Option JobFile} {writer : Writer} :
    writer ∈ fileWriters file ↔ ∃ f, file = some f ∧ f.writer = writer := by
  rw [fileWriters, Option.mem_toList, Option.map_eq_some_iff]

omit [Runtime] in
/-- A file behind an attempt that wrote it, or that found none, is its own. -/
theorem own_of_written {written : Option Text} {old : Option JobFile} {f : JobFile}
    (h : written.isSome ∨ old.isNone)
    (hf : (written.map fun content => ({ content := content, writer := .attempt k } : JobFile)).or
      old = some f) : f.writer = .attempt k ∧ written.isSome := by
  cases written with
  | some content =>
    obtain rfl := Option.some.inj hf
    exact ⟨rfl, rfl⟩
  | none =>
    rcases h with h | h
    · exact absurd h Bool.false_ne_true
    · rw [Option.isNone_iff_eq_none.mp h] at hf
      cases hf

/-- An attempt that writes its own files reads no other ones. -/
theorem own_of_success (hown : WritesOwn input w k) (hdeck : deckOf input k = some deck)
    (h : runOneAttempt readers input w deck k = some r) (hs : r.success = true) :
    r.convergence = none ∧ (∀ writer ∈ r.sources, writer = .attempt k) ∧ wroteData input w k := by
  obtain ⟨htime, hexit, hconv, hsources⟩ := judgeAttempt_success h hs
  have hlog : readsListing input deck → ∀ writer ∈ fileWriters (w.dirBehind k).log,
      writer = .attempt k := by
    intro hreads writer hmem
    obtain ⟨f, hf, rfl⟩ := mem_fileWriters.mp hmem
    exact (own_of_written (hown.log htime hexit deck hdeck hreads) hf).1
  refine ⟨hconv, ?_⟩
  by_cases hsens : input.analysisType = "sens".toList
  · rw [if_pos hsens] at hsources
    rw [hsources]
    refine ⟨hlog (Or.inl hsens), ?_⟩
    rw [wroteData, if_pos hsens]
    exact hown.sens htime hexit hsens
  · rw [if_neg hsens] at hsources
    obtain ⟨output, hcsv, hr⟩ := hsources
    obtain ⟨hwriter, hwrote⟩ := own_of_written (hown.csv htime hexit hsens) hcsv
    refine ⟨fun writer hmem => ?_, ?_⟩
    · rw [hr, List.mem_cons] at hmem
      rcases hmem with rfl | hmem
      · exact hwriter
      · split_ifs at hmem with hreads
        · exact hlog (Or.inr hreads) writer hmem
        · exact absurd hmem List.not_mem_nil
    · rw [wroteData, if_neg hsens]
      exact hwrote

/-! ## The ladder -/

/-- A success of the ladder is that of the remedy that it names. -/
theorem walkLadder_success {sanitizedNetlist : Text} {first result : SimulationJobResult R F M T}
    {diag : ConvergenceDiagnosis} (hfirst : first.success = false) :
    ∀ (ladder : List RemedyStep) (k : Nat) (tried : List Text),
      walkLadder readers input w sanitizedNetlist first diag ladder k tried = some result →
      result.success = true →
      ∃ j remedy attempt report, ladder[j]? = some remedy ∧
        runOneAttempt readers input w (applySolverOptions sanitizedNetlist remedy.options)
          (k + j) = some attempt ∧
        attempt.success = true ∧ result = { attempt with convergence := some report } ∧
        report.remedyApplied = some remedy.label := by
  intro ladder
  induction ladder with
  | nil =>
    intro k tried h hs
    obtain rfl := Option.some.inj h
    exact absurd (hfirst.symm.trans hs) Bool.false_ne_true
  | cons remedy ladder ih =>
    intro k tried h hs
    rw [walkLadder] at h
    cases hretry : runOneAttempt readers input w
        (applySolverOptions sanitizedNetlist remedy.options) k with
    | none =>
      rw [hretry] at h
      cases h
    | some retry =>
      rw [hretry] at h
      simp only at h
      split_ifs at h with hsuccess hinfra htime
      · obtain rfl := Option.some.inj h
        exact ⟨0, remedy, retry, _, rfl, hretry, hsuccess, rfl, rfl⟩
      · obtain rfl := Option.some.inj h
        exact absurd hs hsuccess
      · obtain rfl := Option.some.inj h
        exact absurd (hfirst.symm.trans hs) Bool.false_ne_true
      · obtain ⟨j, remedy', attempt, report, hget, hrun, hrest⟩ := ih (k + 1) _ h hs
        refine ⟨j + 1, remedy', attempt, report, hget, ?_, hrest⟩
        rw [← hrun, Nat.add_assoc, Nat.add_comm 1 j]

theorem eq_of_label {ladder : List RemedyStep} (hn : (ladder.map RemedyStep.label).Nodup)
    {remedy other : RemedyStep} (hr : remedy ∈ ladder) (ho : other ∈ ladder)
    (h : other.label = remedy.label) : other = remedy :=
  List.inj_on_of_nodup_map hn ho hr h

/-- A success of the run is that of one attempt. -/
theorem runAttempts_success {result : SimulationJobResult R F M T}
    (h : runAttempts readers input w input.netlist = some result) (hs : result.success = true) :
    ∃ k deck attempt, deckOf input k = some deck ∧
      runOneAttempt readers input w deck k = some attempt ∧ attempt.success = true ∧
      result = { attempt with convergence := result.convergence } ∧
      (k = 0 → result.convergence = attempt.convergence) ∧
      ∀ j, k = j + 1 → ∃ report remedy, result.convergence = some report ∧
        (convergenceRemedyLadder input.analysisType)[j]? = some remedy ∧
        report.remedyApplied = some remedy.label := by
  unfold runAttempts at h
  cases hfirst : runOneAttempt readers input w input.netlist 0 with
  | none =>
    rw [hfirst] at h
    cases h
  | some first =>
    rw [hfirst] at h
    simp only at h
    split_ifs at h with hsuccess hstop
    · obtain rfl := Option.some.inj h
      exact ⟨0, input.netlist, first, rfl, hfirst, hs, rfl, fun _ => rfl,
        fun j hj => absurd hj.symm (Nat.succ_ne_zero j)⟩
    · obtain rfl := Option.some.inj h
      exact absurd hs hsuccess
    · obtain ⟨j, remedy, attempt, report, hget, hrun, hs', rfl, hlabel⟩ :=
        walkLadder_success (Bool.eq_false_iff.mpr hsuccess) _ _ _ h hs
      refine ⟨j + 1, _, attempt, ?_, by rw [Nat.add_comm]; exact hrun, hs', rfl,
        fun hj => absurd hj (Nat.succ_ne_zero j), fun i hi => ?_⟩
      · rw [deckOf, hget]
        rfl
      · obtain rfl := Nat.succ.inj hi
        exact ⟨report, remedy, rfl, hget, hlabel⟩

theorem eq_of_sanitizeNetlist {netlist sanitizedNetlist : Text}
    (h : sanitizeNetlist netlist = .ok sanitizedNetlist) : netlist = sanitizedNetlist := by
  unfold sanitizeNetlist at h
  cases hc : checkLines (splitLines netlist) with
  | error e =>
    rw [hc] at h
    cases h
  | ok u =>
    rw [hc] at h
    exact Except.ok.inj h

end

/-! ## A table that is left over -/

/-- The readers of a table of real columns. -/
def tableReaders : OutputReaders (SimulationResult Rat) Unit Unit Unit where
  parseSimulationOutput := fun content probes analysisType =>
    some (parseCsv { hypot := fun re _ => re, degrees := fun _ _ => (0 : Rat) } content probes
      analysisType)
  noiseResult := fun _ _ => none
  sensResult := fun _ => none
  endedEarly := fun _ _ => none
  parseFourierLog := fun _ => some none
  parseMeasurements := fun _ _ => some none
  parseTransferFunction := fun _ _ => some none
  byteLength := List.length
  maxOutputBytes := 1000

def operatingPoint : SimulationJobInput where
  netlist := "* divider\nV1 in 0 1\nR1 in 0 1k\n.op\n.end".toList
  probeNames := ["v(in)".toList]
  analysisType := "op".toList

/-- The first attempt fails to converge and writes nothing, and the second one converges. -/
def recovered : RunnerWorld where
  ngspice := fun k =>
    if k = 0 then { stderr := "singular matrix".toList, exitCode := some 1 }
    else { csv := some "0 1".toList, log := some [] }

/-- The first attempt writes a table and fails to converge, and the second one ends well and writes
nothing. -/
def leftover : RunnerWorld where
  ngspice := fun k =>
    if k = 0 then
      { stderr := "no convergence".toList, exitCode := some 1, csv := some "0 7".toList }
    else {}

end CircuitForge
