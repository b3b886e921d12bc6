/-
The spellings of node names.

Nets, twins, rails and winding midpoints are named by different rules.  A net's
node starts with `n` or `x_`; a midpoint ends in `_wp` or `_ws`, and what stands
behind the last `_` of a synthesized node is none of these.  Lower-casing, by
which ngspice compares names, does not reach across an underscore.
-/
import CircuitForge.Netlist.Generator

namespace CircuitForge

open Js

/-! ## Nodes of nets -/

/-- `^n` or `^x_`. -/
def HasNodePrefix (s : Text) : Prop := ∃ r, s = 'n' :: r ∨ s = 'x' :: '_' :: r

theorem hasNodePrefix_iff {s : Text} :
    HasNodePrefix s ↔ (startsWith s "n".toList || startsWith s "x_".toList) = true := by
  rw [Bool.or_eq_true, startsWith, startsWith, List.isPrefixOf_iff_prefix,
    List.isPrefixOf_iff_prefix]
  constructor
  · rintro ⟨r, rfl | rfl⟩
    · exact Or.inl ⟨r, rfl⟩
    · exact Or.inr ⟨r, rfl⟩
  · rintro (⟨r, h⟩ | ⟨r, h⟩)
    · exact ⟨r, Or.inl h.symm⟩
    · exact ⟨r, Or.inr h.symm⟩

theorem hasNodePrefix_addNodePrefix (s : Text) : HasNodePrefix (addNodePrefix s) := by
  unfold addNodePrefix
  split_ifs with h
  · exact ⟨s, Or.inl rfl⟩
  · rw [hasNodePrefix_iff]
    cases hn : startsWith s "n".toList
    · rw [hn] at h
      simpa using h
    · rfl

theorem hasNodePrefix_sanitizeNodeName (name : Text) : HasNodePrefix (sanitizeNodeName name) := by
  unfold sanitizeNodeName escapeOperator
  split_ifs
  · exact ⟨_, Or.inr rfl⟩
  · exact hasNodePrefix_addNodePrefix _

/-- Prefixing a word with a word. -/
theorem isWord_ite {p : Prop} [Decidable p] {w s : Text} (hw : ∀ c ∈ w, isWord c = true)
    (hs : ∀ c ∈ s, isWord c = true) : ∀ c ∈ (if p then w ++ s else s), isWord c = true := by
  split_ifs
  · exact List.forall_mem_append.mpr ⟨hw, hs⟩
  · exact hs

theorem isWord_wordChars (name : Text) : ∀ c ∈ wordChars name, isWord c = true := by
  intro c hc
  obtain ⟨d, _, rfl⟩ := List.mem_map.mp hc
  split_ifs with hd
  · exact hd
  · decide

theorem isWord_sanitizeNodeName (name : Text) : ∀ c ∈ sanitizeNodeName name, isWord c = true := by
  have hdigit := isWord_ite (p := (wordChars name).head?.any Char.isDigit = true)
    (w := ['n']) (by decide) (isWord_wordChars name)
  have hreserved := isWord_ite (p := asciiLower (escapeDigit (wordChars name)) ∈ reservedWords)
    (w := "x_".toList) (by decide) hdigit
  have hempty : ∀ c ∈ escapeEmpty (escapeReserved (escapeDigit (wordChars name))),
      isWord c = true := by
    unfold escapeEmpty
    split_ifs
    · decide
    · exact hreserved
  exact isWord_ite (w := "x_".toList) (by decide) (isWord_ite (w := ['n']) (by decide) hempty)

theorem HasNodePrefix.ne_zero {s : Text} (h : HasNodePrefix s) : s ≠ "0".toList := by
  obtain ⟨r, rfl | rfl⟩ := h <;> simp

theorem HasNodePrefix.ne_nil {s : Text} (h : HasNodePrefix s) : s ≠ [] := by
  obtain ⟨r, rfl | rfl⟩ := h <;> simp

/-- The node of a net: node 0, or a word with the node prefix. -/
theorem nodeOfNet_cases (net : Net) :
    (net.isGround = true ∧ nodeOfNet net = "0".toList) ∨
      (net.isGround = false ∧ HasNodePrefix (nodeOfNet net)) := by
  unfold nodeOfNet
  cases net.isGround
  · exact Or.inr ⟨rfl, hasNodePrefix_sanitizeNodeName net.id⟩
  · exact Or.inl ⟨rfl, rfl⟩

theorem nodeOfNet_eq_zero_iff {net : Net} : nodeOfNet net = "0".toList ↔ net.isGround = true := by
  rcases nodeOfNet_cases net with ⟨hg, h⟩ | ⟨hg, h⟩
  · exact iff_of_true h hg
  · exact iff_of_false h.ne_zero (by simp [hg])

theorem isWord_nodeOfNet (net : Net) : ∀ c ∈ nodeOfNet net, isWord c = true := by
  unfold nodeOfNet
  split_ifs
  · decide
  · exact isWord_sanitizeNodeName net.id

theorem nodeOfNet_ne_nil (net : Net) : nodeOfNet net ≠ [] := by
  rcases nodeOfNet_cases net with ⟨_, h⟩ | ⟨_, h⟩
  · rw [h]
    exact List.cons_ne_nil _ _
  · exact h.ne_nil

/-! ## Lower-casing -/

variable [Runtime]

theorem lower_underscore (a b : Text) :
    Runtime.lower (a ++ '_' :: b) = Runtime.lower a ++ '_' :: Runtime.lower b :=
  Runtime.lower_separator a '_' b (by decide)

theorem lower_digits (n : Nat) : Runtime.lower (Nat.toDigits 10 n) = Nat.toDigits 10 n := by
  have hd : ∀ c ∈ Nat.toDigits 10 n, c.isDigit = true := fun c hc =>
    Nat.isDigit_of_mem_toDigits (by decide) (by decide) hc
  have hw : ∀ c ∈ Nat.toDigits 10 n, isWord c = true := by
    intro c hc
    have := isDigit_iff.mp (hd c hc)
    rw [isWord_iff]
    omega
  rw [Runtime.lower_of_isWord hw, asciiLower_digits]

theorem lower_eq_nil {s : Text} (h : Runtime.lower s = []) : s = [] := by
  have := Runtime.lower_to_ascii s (by rw [h]; exact fun c hc => absurd hc List.not_mem_nil)
  rw [h] at this
  exact List.map_eq_nil_iff.mp this.symm

theorem lower_zero : Runtime.lower "0".toList = "0".toList := by
  rw [Runtime.lower_of_isWord (by decide)]
  decide

/-- Lower-casing does not make a node prefix look like node 0. -/
theorem HasNodePrefix.lower {s : Text} (h : HasNodePrefix s) (hw : ∀ c ∈ s, isWord c = true) :
    HasNodePrefix (Runtime.lower s) := by
  rw [Runtime.lower_of_isWord hw]
  obtain ⟨r, rfl | rfl⟩ := h
  · exact ⟨asciiLower r, Or.inl rfl⟩
  · exact ⟨asciiLower r, Or.inr rfl⟩

/-! ## Synthesized nodes -/

theorem lower_candidate (base : Text) (n : Nat) :
    Runtime.lower (candidate base n) = candidate (Runtime.lower base) n := by
  unfold candidate
  split_ifs
  · rfl
  · rw [lower_underscore, lower_digits]

omit [Runtime] in
theorem candidate_injective (base : Text) : Function.Injective (candidate base) :=
  FirstFree.numbered_injective Function.injective_id

/-- A uniquified name is not in use. -/
theorem uniqueName_fresh (used : List Text) (base : Text) :
    Runtime.lower (uniqueName used base) ∉ used := by
  refine FirstFree.search_free (f := fun n => Runtime.lower (candidate base n)) ?_
  intro a b h
  simp only [lower_candidate] at h
  exact candidate_injective _ h

theorem uniqueName_eq (used : List Text) (base : Text) : ∃ n, uniqueName used base = candidate base n :=
  ⟨_, rfl⟩

end CircuitForge
