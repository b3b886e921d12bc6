/-
One run of the simulator: `runOneAttempt` of `worker-sim/simulation/runner.ts`.

An attempt writes its deck, spawns ngspice in the job directory and judges what it finds there
afterwards: the exit code, the table in `output.csv` and the listing in `stdout.log`.  Each file of
the model carries the one who wrote it, and a result the writers of the files that it was read from;
the code has neither.
-/
import CircuitForge.Types.Simulation
import CircuitForge.Netlist.Convergence
import CircuitForge.Netlist.Sanitizer

namespace CircuitForge

open Js

/-! ## The job directory -/

/-- Who wrote a file: what was there before the run, or one of its attempts. -/
inductive Writer where
  | before
  | attempt (k : Nat)
  deriving DecidableEq

structure JobFile where
  content : Text
  writer : Writer

/-- `output.csv` and `stdout.log` of the job directory. -/
structure JobDir where
  csv : Option JobFile := none
  log : Option JobFile := none

/-- What one spawn of ngspice does.  A file that it opens for writing is replaced, in full or in
part; one that it does not open stays. -/
structure NgspiceRun where
  stdout : Text := []
  stderr : Text := []
  exitCode : Option Int := some 0
  timedOut : Bool := false
  spawnError : Bool := false
  csv : Option Text := none
  log : Option Text := none

/-- The directory behind attempt `k`. -/
def JobDir.write (dir : JobDir) (k : Nat) (run : NgspiceRun) : JobDir where
  csv := (run.csv.map fun content => { content := content, writer := .attempt k }).or dir.csv
  log := (run.log.map fun content => { content := content, writer := .attempt k }).or dir.log

/-! ## What the deck asks for -/

/-- `/^\s*word\s/i` at the head: the text behind the word. -/
def behindWord (word : String) (s : Text) : Option Text :=
  let s := trimStart s
  let rest := s.drop word.length
  if startsWithI s word.toList && rest.head?.any isSpace then some rest else none

def nonempty (s : Text) : Option Text := truthy (some s)

/-- `/^\s*fourier\s/im.test(netlistText)`. -/
def wantsFourier (deck : Text) : Bool :=
  (lineStarts none deck).any fun s => (behindWord "fourier" s).isSome

/-- `/^\s*tf\s/im.test(netlistText)`. -/
def wantsTf (deck : Text) : Bool :=
  (lineStarts none deck).any fun s => (behindWord "tf" s).isSome

/-- `netlistText.match(/^\s*tf\s+(\S+)/im)?.[1]`. -/
def tfOutput (deck : Text) : Option Text :=
  (lineStarts none deck).findSome? fun s =>
    (behindWord "tf" s).bind fun rest => nonempty (firstToken (trimStart rest))

/-- `netlistText.match(/^\s*\.tran\s+\S+\s+(\S+)/im)?.[1]`. -/
def tranStop (deck : Text) : Option Text :=
  (lineStarts none deck).findSome? fun s =>
    (behindWord ".tran" s).bind fun rest =>
      (nonempty (firstToken (trimStart rest))).bind fun step =>
        nonempty (firstToken (trimStart ((trimStart rest).drop step.length)))

/-- `/^\s*\.meas\s+\w+\s+(\w+)\b/i` at the head: the name, and the text behind it. -/
def measureAt (s : Text) : Option (Text × Text) :=
  (behindWord ".meas" s).bind fun rest =>
    let kind := (trimStart rest).takeWhile isWord
    let rest := (trimStart rest).dropWhile isWord
    let name := (trimStart rest).takeWhile isWord
    if kind ≠ [] ∧ rest.head?.any isSpace ∧ name ≠ [] then
      some (name, (trimStart rest).dropWhile isWord)
    else none

/-- The matches of the pattern under the flags `gim`; the first argument is at least the number of
characters that are left. -/
def measureNamesFrom : Nat → Option Char → Text → List Text
  | 0, _, _ => []
  | n + 1, before, s =>
    match (if atLineStart before then measureAt s else none), s with
    | some (name, rest), _ => name :: measureNamesFrom n name.getLast? rest
    | none, [] => []
    | none, c :: s => measureNamesFrom n (some c) s

/-- `measureNames`. -/
def measureNames (deck : Text) : List Text := measureNamesFrom (deck.length + 1) none deck

variable [Runtime]

/-- A token of `wrdata` or `print` that names a probe. -/
def isProbeToken (p : Text) : Bool :=
  startsWith p "v(".toList || startsWith p "i(".toList || startsWith p "@".toList

/-- The probes of one line. -/
def lineProbes (line : Text) : List Text :=
  let trimmed := Runtime.lower (trim line)
  (if startsWith trimmed "wrdata".toList then
    ((splitBlanks trimmed).drop 2).filter isProbeToken
  else []) ++
  (if startsWith trimmed "print".toList || startsWith trimmed ".print".toList then
    ((splitBlanks trimmed).drop 1).filter isProbeToken
  else [])

/-- `extractProbes`. -/
def extractProbes (netlist : Text) : List Text :=
  ((splitLines netlist).flatMap lineProbes).eraseDups

/-! ## The attempt -/

/-- `SimulationJobInput`; the model files are written before the first attempt. -/
structure SimulationJobInput where
  netlist : Text
  probeNames : List Text
  analysisType : Text

/-- A result with the reports that the listing adds to it. -/
structure SimulationReport (R F M T : Type) where
  result : R
  fourier : Option F := none
  measurements : Option M := none
  transferFunction : Option T := none

/-- The readers of the core package, each a function of the texts that it is given.  A reader that
throws answers `none`; a listing reader that finds nothing answers `some none`. -/
structure OutputReaders (R F M T : Type) where
  /-- `parseSimulationOutput`. -/
  parseSimulationOutput : Text → List Text → Text → Option R
  /-- The result that is built of `parseNoise`. -/
  noiseResult : Text → Text → Option R
  /-- The result that is built of `parseSensitivity`. -/
  sensResult : Text → Option R
  /-- `assessTransientCompleteness` against the stop time of the deck: the printed last time of a
  transient that ended early. -/
  endedEarly : R → Option Text → Option Text
  parseFourierLog : Text → Option (Option F)
  parseMeasurements : Text → List Text → Option (Option M)
  parseTransferFunction : Text → Option Text → Option (Option T)
  /-- `Buffer.byteLength`. -/
  byteLength : Text → Nat
  /-- `SIM_MAX_OUTPUT_BYTES`. -/
  maxOutputBytes : Nat

/-- `ConvergenceReport`. -/
structure ConvergenceReport where
  recovered : Bool
  kind : ConvergenceKind
  diagnosis : Text
  remedyApplied : Option Text := none
  rationale : Option Text := none
  attempts : Nat
  triedRemedies : Option (List Text) := none

/-- `SimulationJobResult`, less the time spent.  `sources` are the writers of the files that the
result was read from. -/
structure SimulationJobResult (R F M T : Type) where
  success : Bool
  result : Option (SimulationReport R F M T) := none
  stdout : Text
  stderr : Text
  outputSizeBytes : Option Nat := none
  error : Option Text := none
  infra : Bool := false
  timedOut : Bool := false
  convergence : Option ConvergenceReport := none
  sources : List Writer := []

variable {R F M T : Type} (readers : OutputReaders R F M T) (input : SimulationJobInput)

/-- The text of a file that may be missing. -/
def fileText (file : Option JobFile) : Text := file.elim [] JobFile.content

def fileWriters (file : Option JobFile) : List Writer := (file.map JobFile.writer).toList

/-- `listing`. -/
def listingOf (run : NgspiceRun) (dir : JobDir) : Text := run.stdout ++ '\n' :: fileText dir.log

/-- `probeNames` of an attempt. -/
def attemptProbes (deck : Text) : List Text :=
  let emittedProbes := extractProbes deck
  if input.probeNames = [] then emittedProbes
  else if emittedProbes.length ≠ input.probeNames.length then emittedProbes
  else input.probeNames

/-- The deck asks for a report that is read from the listing. -/
def wantsListing (deck : Text) : Bool :=
  wantsFourier deck || wantsTf deck || !(measureNames deck).isEmpty

/-- The reports of the listing.  Behind a reader that throws the others are not asked. -/
def listingReports (deck listing : Text) (result : R) : SimulationReport R F M T :=
  let start : SimulationReport R F M T := { result := result }
  match (if wantsFourier deck then readers.parseFourierLog listing else some none) with
  | none => start
  | some fourier =>
    let start := { start with fourier := fourier }
    match (if measureNames deck ≠ [] then
        readers.parseMeasurements listing (measureNames deck) else some none) with
    | none => start
    | some measurements =>
      let start := { start with measurements := measurements }
      match (if wantsTf deck then
          readers.parseTransferFunction listing (tfOutput deck) else some none) with
      | none => start
      | some transferFunction => { start with transferFunction := transferFunction }

/-- `runOneAttempt`, behind the spawn: `dir` is the directory as ngspice leaves it.  A throw is
`none`. -/
def judgeAttempt (deck : Text) (run : NgspiceRun) (dir : JobDir) :
    Option (SimulationJobResult R F M T) :=
  let failure : SimulationJobResult R F M T :=
    { success := false, stdout := run.stdout, stderr := run.stderr }
  if run.timedOut then
    some { failure with timedOut := true, error := some "Simulation timed out".toList }
  else if run.exitCode ≠ some 0 then
    let logTail := if run.spawnError then [] else fileText dir.log
    let fullStderr :=
      if logTail = [] then run.stderr
      else (run.stderr ++ '\n' :: logTail).rtake 8000
    some
      { failure with
        stderr := fullStderr
        infra := run.spawnError
        error := some
          (if run.spawnError then
            "ngspice could not be launched (check NGSPICE_PATH / sandbox): ".toList ++
              (truthy (some (trim run.stderr))).getD "spawn error".toList
          else
            "ngspice exited with code ".toList ++ (run.exitCode.elim "null" toString).toList) }
  else if input.analysisType = "sens".toList then
    (readers.sensResult (listingOf run dir)).map fun result =>
      { success := true
        result := some { result := result }
        stdout := run.stdout
        stderr := run.stderr
        outputSizeBytes := some 0
        sources := fileWriters dir.log }
  else
    match dir.csv with
    | none =>
      some
        { failure with
          error := some ("ngspice produced no output file (likely a non-converging or " ++
            "degenerate circuit)").toList }
    | some output =>
      let outputSizeBytes := readers.byteLength output.content
      if readers.maxOutputBytes < outputSizeBytes then
        some
          { failure with
            outputSizeBytes := some outputSizeBytes
            error := some ("Output too large: " ++ toString outputSizeBytes ++ " bytes (max: " ++
              toString readers.maxOutputBytes ++ ")").toList }
      else
        let isNoise := input.analysisType = "noise".toList
        let parsed :=
          if isNoise then readers.noiseResult output.content (listingOf run dir)
          else readers.parseSimulationOutput output.content (attemptProbes input deck)
            input.analysisType
        parsed.map fun result =>
          match (if input.analysisType = "tran".toList then
              readers.endedEarly result (tranStop deck) else none) with
          | some lastTime =>
            { failure with
              outputSizeBytes := some outputSizeBytes
              error := some ("Transient ended early at t=".toList ++ lastTime ++ "s of ".toList ++
                (tranStop deck).getD [] ++
                (" (timestep collapse / non-convergence — often a floating node or missing " ++
                  "DC path to ground)").toList) }
          | none =>
            { success := true
              result := some
                (if wantsListing deck then listingReports readers deck (listingOf run dir) result
                else { result := result })
              stdout := run.stdout
              stderr := run.stderr
              outputSizeBytes := some outputSizeBytes
              sources := output.writer ::
                (if isNoise || wantsListing deck then fileWriters dir.log else []) }

end CircuitForge
