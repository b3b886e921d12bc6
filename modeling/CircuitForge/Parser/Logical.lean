/-
Logical lines: `foldContinuations` of `parser/netlist-parser.ts`.
-/
import CircuitForge.Js.Tokens

namespace CircuitForge

open Js

structure LogicalLine where
  text : Text
  lineNo : Nat
  deriving DecidableEq

/-- One turn of the loop of `foldContinuations`.  The lines folded so far come
latest first. -/
def foldStep (out : List LogicalLine) (raw : Text) (lineNo : Nat) : List LogicalLine :=
  let trimmed := trim raw
  match out with
  | prev :: rest =>
    if startsWith trimmed "+".toList && !(trim prev.text).isEmpty &&
        !startsWith (trim prev.text) "*".toList then
      { prev with text := prev.text ++ " ".toList ++ trim (trimmed.drop 1) } :: rest
    else ⟨raw, lineNo⟩ :: out
  | [] => [⟨raw, lineNo⟩]

def foldFrom : List LogicalLine → Nat → List Text → List LogicalLine
  | out, _, [] => out
  | out, i, raw :: rest => foldFrom (foldStep out raw (i + 1)) (i + 1) rest

/-- `foldContinuations`. -/
def foldContinuations (rawLines : List Text) : List LogicalLine :=
  (foldFrom [] 0 rawLines).reverse

/-- The deck with every continuation folded into the line it continues. -/
def foldText (netlist : Text) : Text :=
  join "\n".toList ((foldContinuations (splitLines netlist)).map LogicalLine.text)

/-! ## What folding does to a line -/

/-- A line a continuation may follow: neither blank nor a comment. -/
def IsCard (line : Text) : Prop := trim line ≠ [] ∧ startsWith (trim line) "*".toList = false

instance (line : Text) : Decidable (IsCard line) :=
  inferInstanceAs (Decidable (trim line ≠ [] ∧ startsWith (trim line) "*".toList = false))

theorem isCard_iff {line : Text} :
    IsCard line ↔ ∃ c s, trimStart line = c :: s ∧ c ≠ '*' := by
  obtain ⟨b, hb, he⟩ := trimEnd_append_blank (trimStart line)
  cases h : trimStart line with
  | nil => simp [IsCard, trim, h, trimEnd]
  | cons c s =>
    have hc : isSpace c = false := head_trimStart h
    have ht : ∃ s', trim line = c :: s' := by
      rw [h] at he
      rw [trim, h]
      cases hs : trimEnd (c :: s) with
      | nil =>
        rw [hs, List.nil_append] at he
        rw [hb c (he ▸ List.mem_cons_self)] at hc
        exact absurd hc (by simp)
      | cons d s' =>
        rw [hs, List.cons_append, List.cons.injEq] at he
        exact ⟨s', by rw [he.1]⟩
    obtain ⟨s', hs'⟩ := ht
    rw [IsCard, hs', show "*".toList = ['*'] from rfl, startsWith_char]
    constructor
    · rintro ⟨_, hstar⟩
      exact ⟨c, s, rfl, by rintro rfl; exact absurd hstar (by simp)⟩
    · rintro ⟨c', s₁, he', hne⟩
      have hcc : c' = c := ((List.cons.inj he').1).symm
      subst hcc
      exact ⟨List.cons_ne_nil _ _, by simpa using hne.symm⟩

/-- Line `raw` opens the logical line `l`: a card grows by a blank-led tail, any
other line stands alone. -/
structure Opens (raws : List Text) (raw : Text) (l : LogicalLine) (tail : Text) : Prop where
  physical : raws[l.lineNo - 1]? = some raw
  lineNo_pos : 0 < l.lineNo
  text_eq : l.text = raw ++ tail
  blankLed : BlankLed tail
  card : tail ≠ [] → IsCard raw
  tail_chars : ∀ c ∈ tail, c = ' ' ∨ ∃ r ∈ raws, c ∈ r

theorem foldStep_opens {raws : List Text} {out : List LogicalLine} {raw : Text} {i : Nat}
    (hraw : raws[i]? = some raw) (hout : ∀ l ∈ out, ∃ r t, Opens raws r l t) :
    ∀ l ∈ foldStep out raw (i + 1), ∃ r t, Opens raws r l t := by
  have hnew : Opens raws raw ⟨raw, i + 1⟩ [] :=
    ⟨hraw, Nat.succ_pos i, (List.append_nil raw).symm, blankLed_nil, fun h => absurd rfl h,
      fun c hc => absurd hc List.not_mem_nil⟩
  intro l hl
  cases out with
  | nil =>
    rw [foldStep, List.mem_singleton] at hl
    exact ⟨raw, [], hl ▸ hnew⟩
  | cons prev rest =>
    rw [foldStep] at hl
    split_ifs at hl with hc
    · rcases List.mem_cons.mp hl with rfl | hl
      · obtain ⟨r, t, h⟩ := hout prev List.mem_cons_self
        simp only [Bool.and_eq_true, Bool.not_eq_true', List.isEmpty_eq_false_iff] at hc
        refine ⟨r, t ++ ' ' :: trim ((trim raw).drop 1), h.physical, h.lineNo_pos, ?_, ?_, ?_, ?_⟩
        · rw [h.text_eq, List.append_assoc, List.append_assoc]
          rfl
        · exact h.blankLed.append (blankLed_cons.mpr (by decide))
        · intro _
          by_cases ht : t = []
          · have hp : prev.text = r := by rw [h.text_eq, ht, List.append_nil]
            rw [← hp]
            exact ⟨hc.1.2, hc.2⟩
          · exact h.card ht
        · intro c hcc
          rcases List.mem_append.mp hcc with hcc | hcc
          · exact h.tail_chars c hcc
          · rcases List.mem_cons.mp hcc with rfl | hcc
            · exact Or.inl rfl
            · have : c ∈ raw := mem_of_mem_trim (List.mem_of_mem_drop (mem_of_mem_trim hcc))
              exact Or.inr ⟨raw, List.mem_of_getElem? hraw, this⟩
      · exact hout l (List.mem_cons_of_mem _ hl)
    · rcases List.mem_cons.mp hl with rfl | hl
      · exact ⟨raw, [], hnew⟩
      · exact hout l hl

theorem foldFrom_opens {raws : List Text} (rest : List Text) (out : List LogicalLine) (i : Nat)
    (hrest : rest = raws.drop i) (hout : ∀ l ∈ out, ∃ r t, Opens raws r l t) :
    ∀ l ∈ foldFrom out i rest, ∃ r t, Opens raws r l t := by
  induction rest generalizing out i with
  | nil => exact hout
  | cons raw rest ih =>
    have hraw : raws[i]? = some raw := by
      rw [← List.head?_drop, ← hrest]
      rfl
    refine ih _ _ ?_ (foldStep_opens hraw hout)
    rw [← List.tail_drop, ← hrest]
    rfl

/-- Every logical line is opened by a physical one. -/
theorem foldContinuations_opens {raws : List Text} {l : LogicalLine}
    (h : l ∈ foldContinuations raws) : ∃ r t, Opens raws r l t :=
  foldFrom_opens raws [] 0 rfl (fun _ h => absurd h List.not_mem_nil) l (List.mem_reverse.mp h)

theorem foldStep_ne_nil (out : List LogicalLine) (raw : Text) (i : Nat) :
    foldStep out raw i ≠ [] := by
  cases out with
  | nil => exact List.cons_ne_nil _ _
  | cons prev rest =>
    rw [foldStep]
    split_ifs <;> exact List.cons_ne_nil _ _

theorem foldFrom_ne_nil {out : List LogicalLine} {rest : List Text} (i : Nat)
    (h : out ≠ [] ∨ rest ≠ []) : foldFrom out i rest ≠ [] := by
  induction rest generalizing out i with
  | nil => exact h.resolve_right (fun h => h rfl)
  | cons raw rest ih => exact ih (i + 1) (Or.inl (foldStep_ne_nil out raw (i + 1)))

/-- The lines of the folded deck are the logical lines. -/
theorem splitLines_foldText (netlist : Text) :
    splitLines (foldText netlist) =
      (foldContinuations (splitLines netlist)).map LogicalLine.text := by
  apply splitLines_join
  · intro t ht hmem
    obtain ⟨l, hl, rfl⟩ := List.mem_map.mp ht
    obtain ⟨r, t, h⟩ := foldContinuations_opens hl
    have hraws : ∀ r ∈ splitLines netlist, '\n' ∉ r := fun _ => newline_notMem_of_mem_splitLines
    rw [h.text_eq, List.mem_append] at hmem
    rcases hmem with hmem | hmem
    · exact hraws r (List.mem_of_getElem? h.physical) hmem
    · rcases h.tail_chars _ hmem with he | ⟨r', hr', hc⟩
      · exact absurd he (by decide)
      · exact hraws r' hr' hc
  · intro h
    rw [List.map_eq_nil_iff, foldContinuations, List.reverse_eq_nil_iff] at h
    exact foldFrom_ne_nil 0 (Or.inr (splitLines_ne_nil _)) h

/-- A logical line is a card when the line that opens it is. -/
theorem Opens.isCard_iff {raws : List Text} {raw tail : Text} {l : LogicalLine}
    (h : Opens raws raw l tail) : IsCard l.text ↔ IsCard raw := by
  by_cases ht : tail = []
  · rw [h.text_eq, ht, List.append_nil]
  · have hraw := h.card ht
    obtain ⟨c, s, hs, hc⟩ := CircuitForge.isCard_iff.mp hraw
    refine iff_of_true (CircuitForge.isCard_iff.mpr ⟨c, s ++ tail, ?_, hc⟩) hraw
    rw [h.text_eq, trimStart_append (by rw [hs]; exact List.cons_ne_nil c s), hs, List.cons_append]

end CircuitForge
