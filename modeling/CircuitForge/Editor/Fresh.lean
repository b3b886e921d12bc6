/-
The ids and names of fresh nets.

A fresh net takes a number whose id and name nothing else is using.  The `q`th net
minted takes the `q`th of these numbers, over one edit or several.
-/
import CircuitForge.Editor.Parts

namespace CircuitForge

open Js

/-! ## Numbered ids -/

theorem numbered_injective (letter : Char) :
    Function.Injective fun i => letter :: Nat.toDigits 10 (i + 1) := by
  intro i j h
  have := congrArg (fun s => Nat.ofDigitChars 10 s 0) (List.cons.inj h).2
  simpa using this

theorem freshId_injective : Function.Injective freshId := numbered_injective 'n'

theorem isWord_numbered {letter : Char} (hl : isWord letter = true) (i : Nat) :
    ∀ c ∈ letter :: Nat.toDigits 10 (i + 1), isWord c = true := by
  refine List.forall_mem_cons.mpr ⟨hl, fun c hc => ?_⟩
  have hd : c.isDigit = true := Nat.isDigit_of_mem_toDigits (by decide) (by decide) hc
  have := isDigit_iff.mp hd
  rw [isWord_iff]
  omega

variable [Runtime]

theorem lower_numbered {letter : Char} (hl : isWord letter = true) (i : Nat) :
    Runtime.lower (letter :: Nat.toDigits 10 (i + 1)) =
      letter.toLower :: Nat.toDigits 10 (i + 1) := by
  rw [Runtime.lower_of_isWord (isWord_numbered hl i)]
  exact congrArg _ (asciiLower_digits _)

theorem lower_freshName (i : Nat) : Runtime.lower (freshName i) = freshId i :=
  lower_numbered (by decide) i

theorem lower_freshId (i : Nat) : Runtime.lower (freshId i) = freshId i :=
  lower_numbered (by decide) i

/-! ## The numbers taken -/

/-- The number `i` is free: as an id and as a name. -/
def isFree (ids names : List Text) (i : Nat) : Bool := freshId i ∉ ids && freshId i ∉ names

/-- The fresh net of a number. -/
def freshNetAt (i : Nat) : Net := { id := freshId i, name := freshName i }

theorem freshIndex_nth (ids names : List Text) :
    FirstFree.Nth (isFree ids names) 0 (freshIndex ids names) := by
  have hg : Function.Injective fun i => Runtime.lower (freshName i) := by
    intro i j h
    simp only [lower_freshName] at h
    exact freshId_injective h
  have hfree := @FirstFree.searchBoth_free _ _ _ _ ids names _ _ freshId_injective hg
  simp only [lower_freshName] at hfree
  refine FirstFree.nth_zero_of_first ?_ fun j hj => ?_
  · simpa [isFree, freshIndex, lower_freshName] using hfree
  · have hused := FirstFree.searchBoth_first hj
    rw [lower_freshName] at hused
    simp only [isFree, Bool.and_eq_false_iff, decide_eq_false_iff_not, not_not]
    exact hused

omit [Runtime] in
theorem isFree_iff {ids names : List Text} {i : Nat} :
    isFree ids names i = true ↔ freshId i ∉ ids ∧ freshId i ∉ names := by
  simp [isFree]

theorem freshNet_eq (circuit : CircuitJson) :
    ∃ k, freshNet circuit = freshNetAt k ∧
      FirstFree.Nth (isFree (circuit.nets.map Net.id) (takenNames circuit)) 0 k :=
  ⟨_, rfl, freshIndex_nth _ _⟩

theorem freshNet_id_fresh (circuit : CircuitJson) :
    (freshNet circuit).id ∉ circuit.nets.map Net.id := by
  obtain ⟨k, hk, hfree, -⟩ := freshNet_eq circuit
  rw [hk]
  exact (isFree_iff.mp hfree).1

theorem freshNet_name_fresh (circuit : CircuitJson) :
    Runtime.lower (freshNet circuit).name ∉ takenNames circuit := by
  obtain ⟨k, hk, hfree, -⟩ := freshNet_eq circuit
  rw [hk, freshNetAt, lower_freshName]
  exact (isFree_iff.mp hfree).2

omit [Runtime] in
/-- The ids and names in use after a net is minted, in any order. -/
theorem isFree_mint (ids names : List Text) {ids' names' : List Text} {k : Nat}
    (hids : ∀ x, x ∈ ids' ↔ x = freshId k ∨ x ∈ ids)
    (hnames : ∀ x, x ∈ names' ↔ x = freshId k ∨ x ∈ names)
    (hk : FirstFree.Nth (isFree ids names) 0 k) :
    isFree ids' names' = FirstFree.after (isFree ids names) 1 := by
  funext j
  rw [FirstFree.after_one hk]
  by_cases hj : j = k
  · subst hj
    simp [isFree, hids]
  · have hne : freshId j ≠ freshId k := fun h => hj (freshId_injective h)
    simp [isFree, hids, hnames, hne, hj]

theorem length_freshNets (ids names : List Text) (count : Nat) :
    (freshNets ids names count).length = count := by
  induction count generalizing ids names with
  | zero => rfl
  | succ count ih => rw [freshNets, List.length_cons, ih]

/-- The nets minted are those of the first free numbers, in order. -/
theorem freshNets_nth {ids names : List Text} {count q : Nat} {net : Net}
    (h : (freshNets ids names count)[q]? = some net) :
    ∃ k, net = freshNetAt k ∧ FirstFree.Nth (isFree ids names) q k := by
  induction count generalizing ids names q with
  | zero => cases h
  | succ count ih =>
    have hfirst := freshIndex_nth ids names
    cases q with
    | zero =>
      cases h
      exact ⟨_, rfl, hfirst⟩
    | succ q =>
      obtain ⟨k, hnet, hk⟩ := ih (q := q) h
      refine ⟨k, hnet, ?_⟩
      rw [isFree_mint ids names (by simp) (by simp [lower_freshName]) hfirst,
        FirstFree.nth_after, Nat.add_comm] at hk
      exact hk

theorem freshNets_fresh {ids names : List Text} {count : Nat} {net : Net}
    (h : net ∈ freshNets ids names count) : net.id ∉ ids ∧ Runtime.lower net.name ∉ names := by
  obtain ⟨q, hq⟩ := List.getElem?_of_mem h
  obtain ⟨k, rfl, hfree, -⟩ := freshNets_nth hq
  rw [freshNetAt, lower_freshName]
  exact isFree_iff.mp hfree

theorem nodup_freshNets (ids names : List Text) (count : Nat) :
    ((freshNets ids names count).map Net.id).Nodup ∧
      ((freshNets ids names count).map fun n => Runtime.lower n.name).Nodup := by
  induction count generalizing ids names with
  | zero => exact ⟨List.nodup_nil, List.nodup_nil⟩
  | succ count ih =>
    obtain ⟨hids, hnames⟩ := ih (freshId (freshIndex ids names) :: ids)
      (Runtime.lower (freshName (freshIndex ids names)) :: names)
    rw [freshNets, List.map_cons, List.map_cons, List.nodup_cons, List.nodup_cons]
    refine ⟨⟨fun hm => ?_, hids⟩, ⟨fun hm => ?_, hnames⟩⟩
    · obtain ⟨net, hnet, he⟩ := List.mem_map.mp hm
      exact (freshNets_fresh hnet).1 (he ▸ List.mem_cons_self ..)
    · obtain ⟨net, hnet, he⟩ := List.mem_map.mp hm
      exact (freshNets_fresh hnet).2 (he ▸ List.mem_cons_self ..)

/-- What is free after the nets of an edit are minted. -/
theorem isFree_freshNets (ids names : List Text) (count : Nat) :
    isFree (ids ++ (freshNets ids names count).map Net.id)
        (names ++ (freshNets ids names count).map fun n => Runtime.lower n.name) =
      FirstFree.after (isFree ids names) count := by
  induction count generalizing ids names with
  | zero =>
    funext j
    simp [freshNets, FirstFree.after]
  | succ count ih =>
    have hfirst := freshIndex_nth ids names
    have hmint : isFree (freshId (freshIndex ids names) :: ids)
        (Runtime.lower (freshName (freshIndex ids names)) :: names) =
        FirstFree.after (isFree ids names) 1 :=
      isFree_mint ids names (by simp) (by simp [lower_freshName]) hfirst
    have hrest := ih (freshId (freshIndex ids names) :: ids)
      (Runtime.lower (freshName (freshIndex ids names)) :: names)
    rw [hmint, FirstFree.after_after, Nat.add_comm] at hrest
    rw [← hrest]
    funext j
    simp only [freshNets, List.map_cons, isFree, List.mem_append, List.mem_cons, or_left_comm,
      or_assoc]

/-- Minting in two goes is minting at once. -/
theorem freshNets_append (ids names : List Text) (m n : Nat) :
    freshNets ids names m ++
        freshNets (ids ++ (freshNets ids names m).map Net.id)
          (names ++ (freshNets ids names m).map fun net => Runtime.lower net.name) n =
      freshNets ids names (m + n) := by
  refine List.ext_getElem? fun q => ?_
  by_cases hq : q < m
  · rw [List.getElem?_append_left (by rwa [length_freshNets])]
    have hl : q < (freshNets ids names m).length := by rwa [length_freshNets]
    have hr : q < (freshNets ids names (m + n)).length := by
      rw [length_freshNets]
      omega
    rw [List.getElem?_eq_getElem hl, List.getElem?_eq_getElem hr]
    obtain ⟨k, hk, hnth⟩ := freshNets_nth (List.getElem?_eq_getElem hl)
    obtain ⟨k', hk', hnth'⟩ := freshNets_nth (List.getElem?_eq_getElem hr)
    rw [hk, hk', hnth.unique hnth']
  · rw [List.getElem?_append_right (by rw [length_freshNets]; omega), length_freshNets]
    by_cases hn : q < m + n
    · set later := freshNets (ids ++ (freshNets ids names m).map Net.id)
        (names ++ (freshNets ids names m).map fun net => Runtime.lower net.name) n with hlater
      have hl : q - m < later.length := by
        rw [hlater, length_freshNets]
        omega
      have hr : q < (freshNets ids names (m + n)).length := by rwa [length_freshNets]
      rw [List.getElem?_eq_getElem hl, List.getElem?_eq_getElem hr]
      obtain ⟨k, hk, hnth⟩ := freshNets_nth (List.getElem?_eq_getElem hl)
      obtain ⟨k', hk', hnth'⟩ := freshNets_nth (List.getElem?_eq_getElem hr)
      rw [isFree_freshNets, FirstFree.nth_after, show m + (q - m) = q by omega] at hnth
      rw [hk, hk', hnth.unique hnth']
    · rw [List.getElem?_eq_none (by rw [length_freshNets]; omega),
        List.getElem?_eq_none (by rw [length_freshNets]; omega)]

/-! ## The net minted at a place -/

/-- The `q`th net a document mints, counted from zero. -/
def mintedNet (circuit : CircuitJson) (q : Nat) : Net :=
  ((freshNets (circuit.nets.map Net.id) (takenNames circuit) (q + 1))[q]?).getD ⟨[], [], false, false⟩

def mintedId (circuit : CircuitJson) (q : Nat) : Text := (mintedNet circuit q).id

theorem mintedNet_nth (circuit : CircuitJson) (q : Nat) :
    ∃ k, mintedNet circuit q = freshNetAt k ∧
      FirstFree.Nth (isFree (circuit.nets.map Net.id) (takenNames circuit)) q k := by
  have hlt : q < (freshNets (circuit.nets.map Net.id) (takenNames circuit) (q + 1)).length := by
    rw [length_freshNets]
    exact Nat.lt_succ_self q
  obtain ⟨k, hk, hnth⟩ := freshNets_nth (List.getElem?_eq_getElem hlt)
  refine ⟨k, ?_, hnth⟩
  rw [mintedNet, List.getElem?_eq_getElem hlt, Option.getD_some, hk]

theorem freshNets_eq_map (circuit : CircuitJson) (count : Nat) :
    freshNets (circuit.nets.map Net.id) (takenNames circuit) count =
      (List.range count).map (mintedNet circuit) := by
  refine List.ext_getElem? fun q => ?_
  by_cases hq : q < count
  · have hlt : q < (freshNets (circuit.nets.map Net.id) (takenNames circuit) count).length := by
      rwa [length_freshNets]
    obtain ⟨k, hk, hnth⟩ := freshNets_nth (List.getElem?_eq_getElem hlt)
    obtain ⟨k', hk', hnth'⟩ := mintedNet_nth circuit q
    rw [List.getElem?_eq_getElem hlt, hk, List.getElem?_map, List.getElem?_range hq,
      Option.map_some, hk', hnth.unique hnth']
  · rw [List.getElem?_eq_none (by rw [length_freshNets]; omega),
      List.getElem?_eq_none (by rw [List.length_map, List.length_range]; omega)]

theorem freshNet_eq_minted (circuit : CircuitJson) : freshNet circuit = mintedNet circuit 0 := by
  obtain ⟨k, hk, hnth⟩ := freshNet_eq circuit
  obtain ⟨k', hk', hnth'⟩ := mintedNet_nth circuit 0
  rw [hk, hk', hnth.unique hnth']

theorem mintedId_injective (circuit : CircuitJson) : Function.Injective (mintedId circuit) := by
  intro q q' h
  obtain ⟨k, hk, hnth⟩ := mintedNet_nth circuit q
  obtain ⟨k', hk', hnth'⟩ := mintedNet_nth circuit q'
  rw [mintedId, mintedId, hk, hk'] at h
  rw [← hnth.2, ← hnth'.2, freshId_injective h]

theorem mintedId_fresh (circuit : CircuitJson) (q : Nat) :
    mintedId circuit q ∉ circuit.nets.map Net.id := by
  obtain ⟨k, hk, hfree, -⟩ := mintedNet_nth circuit q
  rw [mintedId, hk]
  exact (isFree_iff.mp hfree).1

end CircuitForge
