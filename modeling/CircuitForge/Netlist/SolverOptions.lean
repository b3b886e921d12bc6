/-
The `.options` tokens: `netlist/solver-options.ts`.
-/
import CircuitForge.Types.Analysis

namespace CircuitForge

open Js

/-! ## Number patterns -/

/-- `\d*\.?\d+`. -/
def mantissaRe : Re := .seq (.star .digit) (.seq (.opt (.char '.')) (.plus .digit))

/-- `(?:[eE][+-]?\d+)?`. -/
def exponentRe : Re :=
  .opt (.seq (.alt (.char 'e') (.char 'E'))
    (.seq (.opt (.alt (.char '+') (.char '-'))) (.plus .digit)))

/-- `[fpnumkgtFPNUMKGT]`. -/
def scaleLetterRe : Re := .cls fun c => "fpnumkgtFPNUMKGT".toList.contains c

/-- `SPICE_NUM`, the pattern `netlist/digital.ts` calls `SPICE_NUMBER`. -/
def spiceNumRe : Re :=
  .seq (.opt (.char '+')) <| .seq mantissaRe <| .seq exponentRe <|
    .opt (.alt (.lit "meg".toList) (.alt (.lit "MEG".toList) scaleLetterRe))

theorem isSpace_of_spiceNumRe {c : Char} (h : spiceNumRe.chars c = true) : isSpace c = false := by
  simp only [spiceNumRe, mantissaRe, exponentRe, scaleLetterRe, Re.opt, Re.plus, Re.char, Re.digit,
    Re.lit, Re.chars, Bool.or_eq_true, Bool.false_or, beq_iff_eq, String.reduceToList,
    List.foldr_cons, List.foldr_nil, Bool.or_false] at h
  by_cases hd : c.isDigit = true
  · apply isSpace_eq_false_of_isWord
    rw [isWord_iff]
    rw [isDigit_iff] at hd
    omega
  · simp only [hd, Bool.false_eq_true, or_false, false_or] at h
    have hall : ∀ c ∈ "+.eE-megMEGfpnumkgtFPNUMKGT".toList, isSpace c = false := by decide
    apply hall
    rcases h with rfl | rfl | ((rfl | rfl) | rfl | rfl) | (rfl | rfl | rfl) | (rfl | rfl | rfl) | h
    all_goals first
      | decide
      | exact (by decide : ∀ c ∈ "fpnumkgtFPNUMKGT".toList,
          c ∈ "+.eE-megMEGfpnumkgtFPNUMKGT".toList) c (List.contains_iff_mem.mp h)

variable [Runtime]

/-! ## Tokens -/

/-- One numeric lever: `key=value` when the trimmed value is a clean number. -/
def solverToken (key : Text) (value : Option Text) : List Text :=
  match truthy (value.map trim) with
  | some v => if spiceNumRe.accepts v then [key ++ '=' :: v] else []
  | none => []

/-- `solverOptionTokens`. -/
def solverOptionTokens (options : Option SolverOptions) : List Text :=
  match options with
  | none => []
  | some o =>
    solverToken "reltol".toList o.reltol ++ solverToken "abstol".toList o.abstol ++
      solverToken "vntol".toList o.vntol ++ solverToken "gmin".toList o.gmin ++
      (match o.method with
        | some .trap => ["method=trap".toList]
        | some .gear => ["method=gear".toList]
        | none => []) ++
      (match o.itl4 with
        | some n =>
          if Runtime.isInteger n && Runtime.lt (Runtime.lit 0 0) n &&
              Runtime.le n (Runtime.lit 10000 0) then
            ["itl4=".toList ++ Runtime.toText n]
          else []
        | none => [])

omit [Runtime] in
theorem solid_solverToken {key : Text} (hk : Solid key) {value : Option Text} {t : Text}
    (h : t ∈ solverToken key value) : Solid t := by
  unfold solverToken at h
  split at h
  · split_ifs at h with hacc
    · rw [List.mem_singleton] at h
      rw [h, solid_append, solid_cons]
      exact ⟨hk, by decide, Re.solid_of_accepts (fun _ => isSpace_of_spiceNumRe) hacc⟩
    · exact absurd h List.not_mem_nil
  · exact absurd h List.not_mem_nil

/-- No option token can break its card. -/
theorem solid_solverOptionTokens {options : Option SolverOptions} {t : Text}
    (h : t ∈ solverOptionTokens options) : Solid t := by
  cases options with
  | none => exact absurd h List.not_mem_nil
  | some o =>
    simp only [solverOptionTokens, List.mem_append] at h
    rcases h with ((((h | h) | h) | h) | h) | h
    · exact solid_solverToken (by decide) h
    · exact solid_solverToken (by decide) h
    · exact solid_solverToken (by decide) h
    · exact solid_solverToken (by decide) h
    · rcases hm : o.method with _ | _ | _
      all_goals simp only [hm, List.mem_singleton, List.not_mem_nil] at h
      all_goals rw [h]; decide
    · rcases hi : o.itl4 with _ | n
      · simp [hi] at h
      · simp only [hi] at h
        split_ifs at h
        · rw [List.mem_singleton] at h
          rw [h, solid_append]
          exact ⟨by decide, Runtime.solid_toText n⟩
        · exact absurd h List.not_mem_nil

end CircuitForge
