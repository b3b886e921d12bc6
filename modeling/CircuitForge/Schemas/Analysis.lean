/-
The analysis schema: `schemas/analysis.schema.ts`.
-/
import CircuitForge.Js.Lines
import CircuitForge.Netlist.Generator
import CircuitForge.Schemas.Circuit

namespace CircuitForge

open Js

/-- `SpiceValueSchema`. -/
def spiceValueSchema (s : Text) : Bool := spiceValueRe.accepts s

/-- `[a-zA-Z0-9_]+(?:,[a-zA-Z0-9_]+)?`. -/
def probeArgsRe : Re :=
  .seq (.plus (.cls isWord)) (.opt (.seq (.char ',') (.plus (.cls isWord))))

/-- The pattern of `ProbeSchema`. -/
def probeRe : Re :=
  .seq (.alt (.charI 'v') (.charI 'i')) <| .seq (.char '(') <| .seq probeArgsRe (.char ')')

def probeSchema (s : Text) : Bool := probeRe.accepts s

/-- `/^[A-Za-z][A-Za-z0-9_]*$/`. -/
def measureNameRe : Re := .seq .letter (.star (.cls isWord))

variable [Runtime]

/-- `MeasureSpecSchema`. -/
def measureSpecSchema (m : MeasureSpec) : Bool :=
  measureNameRe.accepts m.name && m.name.length ≤ 40 && probeSchema m.probe &&
    m.value.all Runtime.isFinite

/-- `z.number().int().positive().max(10000)`. -/
def countSchema (n : Runtime.Num) : Bool :=
  Runtime.isInteger n && Runtime.lt (Runtime.lit 0 0) n && Runtime.le n (Runtime.lit 10000 0)

/-- `SolverOptionsSchema`. -/
def solverOptionsSchema (o : SolverOptions) : Bool :=
  o.reltol.all spiceValueSchema && o.abstol.all spiceValueSchema &&
    o.vntol.all spiceValueSchema && o.gmin.all spiceValueSchema && o.itl4.all countSchema

/-- The frequency sweep of `AcAnalysisSchema` and `NoiseAnalysisSchema`. -/
def sweepSchema (s : Sweep) : Bool :=
  countSchema s.points && spiceValueSchema s.startFreq && spiceValueSchema s.stopFreq

/-- The `fourier` object of `TranAnalysisSchema`. -/
def fourierSchema (f : FourierRequest) : Bool :=
  spiceValueSchema f.fundamentalFreq && f.probes.all probeSchema &&
    (1 ≤ f.probes.length && f.probes.length ≤ 20)

/-- `TranAnalysisSchema`. -/
def tranAnalysisSchema (a : TranAnalysis) : Bool :=
  spiceValueSchema a.stopTime && a.stepTime.all spiceValueSchema &&
    a.startTime.all spiceValueSchema && a.maxStep.all spiceValueSchema &&
    (a.initialConditions.all fun m =>
      m.1.all fun e => lengthWithin 1 100 e.1 && !Runtime.isNaN e.2) &&
    a.options.all solverOptionsSchema && a.fourier.all fourierSchema &&
    a.measurements.all fun ms =>
      ms.all measureSpecSchema && (1 ≤ ms.length && ms.length ≤ 20)

/-- `AcAnalysisSchema`. -/
def acAnalysisSchema (a : AcAnalysis) : Bool :=
  sweepSchema a.sweep && a.options.all solverOptionsSchema

/-- `DcAnalysisSchema`. -/
def dcAnalysisSchema (a : DcAnalysis) : Bool :=
  sourceDesignatorRe.accepts a.source && spiceValueSchema a.startVal &&
    spiceValueSchema a.stopVal && spiceValueSchema a.increment && a.options.all solverOptionsSchema

/-- `OpAnalysisSchema`. -/
def opAnalysisSchema (a : OpAnalysis) : Bool :=
  a.options.all solverOptionsSchema &&
    a.tf.all fun tf => probeSchema tf.output && sourceDesignatorRe.accepts tf.inputSource

/-- `NoiseAnalysisSchema`. -/
def noiseAnalysisSchema (a : NoiseAnalysis) : Bool :=
  probeSchema a.output && sourceDesignatorRe.accepts a.inputSource && sweepSchema a.sweep &&
    a.options.all solverOptionsSchema

/-- `SensAnalysisSchema`. -/
def sensAnalysisSchema (a : SensAnalysis) : Bool :=
  probeSchema a.output && a.options.all solverOptionsSchema

/-- `AnalysisConfigSchema`. -/
def analysisConfigSchema : AnalysisConfig → Bool
  | .tran a => tranAnalysisSchema a
  | .ac a => acAnalysisSchema a
  | .dc a => dcAnalysisSchema a
  | .op a => opAnalysisSchema a
  | .noise a => noiseAnalysisSchema a
  | .sens a => sensAnalysisSchema a

/-! ## The shape of a probe -/

omit [Runtime] in
/-- A probe is its letter and one pair of parentheses. -/
theorem probe_shape {p : Text} (h : probeSchema p = true) :
    ∃ l inner, p = l :: '(' :: (inner ++ [')']) ∧ (sameLetter 'v' l = true ∨ sameLetter 'i' l = true) ∧
      '(' ∉ inner ∧ OneLine inner := by
  rw [probeSchema, Re.accepts_iff, probeRe] at h
  obtain ⟨a, ha, _, hcall, rfl⟩ := Language.mem_mul.mp h
  obtain ⟨_, ⟨b, hb, rfl⟩, _, hargs, rfl⟩ := Language.mem_mul.mp hcall
  obtain ⟨inner, hinner, _, ⟨d, hd, rfl⟩, rfl⟩ := Language.mem_mul.mp hargs
  have hchars : ∀ c ∈ inner, isWord c = true ∨ c = ',' := by
    intro c hc
    have := Re.chars_of_mem_lang hinner hc
    simp only [probeArgsRe, Re.plus, Re.opt, Re.char, Re.chars, Bool.or_self, Bool.false_or,
      Bool.or_eq_true, beq_iff_eq] at this
    exact this.elim Or.inl fun h => h.symm
  have hnot : ∀ {c : Char}, isWord c = false → c ≠ ',' → c ∉ inner := fun hw hc hm => by
    rcases hchars _ hm with h | h
    · rw [hw] at h
      cases h
    · exact hc h
  rw [beq_iff_eq] at hb hd
  rw [Re.lang, Language.mem_add] at ha
  rcases ha with ⟨l, hl, rfl⟩ | ⟨l, hl, rfl⟩
  · exact ⟨l, inner, by rw [hb, hd]; rfl, Or.inl hl, hnot (by decide) (by decide),
      hnot (by decide) (by decide)⟩
  · exact ⟨l, inner, by rw [hb, hd]; rfl, Or.inr hl, hnot (by decide) (by decide),
      hnot (by decide) (by decide)⟩

end CircuitForge
