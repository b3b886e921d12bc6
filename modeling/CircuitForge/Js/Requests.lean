/-
Programs in flight over a shared store.

A program executes statements one after the other and goes on with the answer of each.
The programs in flight take turns, statement by statement and in any order, and a
statement may have to wait.  A contract says what every statement keeps, and what each
program may rely on while the others run.
-/
import CircuitForge.Js.Runs
import Mathlib.Tactic.Common

namespace Requests

/-- A program over the statements `S`.  A statement `s` is answered with an `A s`. -/
inductive Prog (S : Type) (A : S → Type) (ρ : Type) where
  | done (result : ρ)
  | exec (stmt : S) (next : A stmt → Prog S A ρ)

variable {S : Type} {A : S → Type} {ρ ρ' σ ι C : Type}

namespace Prog

def bind : Prog S A ρ → (ρ → Prog S A ρ') → Prog S A ρ'
  | .done r, f => f r
  | .exec s next, f => .exec s fun a => (next a).bind f

instance : Monad (Prog S A) where
  pure := .done
  bind := bind

/-- One statement, and its answer. -/
def stmt (s : S) : Prog S A (A s) := .exec s .done

@[simp] theorem pure_eq (r : ρ) : (pure r : Prog S A ρ) = .done r := rfl

@[simp] theorem done_bind (r : ρ) (f : ρ → Prog S A ρ') : (Prog.done r >>= f) = f r := rfl

@[simp] theorem exec_bind (s : S) (next : A s → Prog S A ρ) (f : ρ → Prog S A ρ') :
    (Prog.exec s next >>= f) = .exec s fun a => next a >>= f := rfl

@[simp] theorem stmt_bind (s : S) (f : A s → Prog S A ρ) :
    (Prog.stmt s >>= f) = .exec s f := rfl

end Prog

/-- What a statement does to the store, and its answer; none while it has to wait.  The
number is the program that executes it, and the input what the outside decides. -/
abbrev Semantics (ι S : Type) (A : S → Type) (σ : Type) : Type :=
  ι → Nat → (s : S) → σ → Option (σ × A s)

/-- The store and the programs that were called, each at its next statement. -/
structure Pool (S : Type) (A : S → Type) (σ ρ : Type) where
  store : σ
  programs : List (Prog S A ρ)

/-- A call comes in, or a program in flight takes its turn. -/
inductive Action (ι C : Type) where
  | call (c : C)
  | turn (i : Nat) (input : ι)

/-- Nothing was called yet. -/
def Pool.start (store : σ) : Pool S A σ ρ := ⟨store, []⟩

def Pool.step (sem : Semantics ι S A σ) (program : C → Prog S A ρ) (pool : Pool S A σ ρ) :
    Action ι C → Option (Pool S A σ ρ)
  | .call c => some { pool with programs := pool.programs ++ [program c] }
  | .turn i input =>
    match pool.programs[i]? with
    | some (.exec s next) =>
      (sem input i s pool.store).map fun r => ⟨r.1, pool.programs.set i (next r.2)⟩
    | _ => none

/-- The run of some actions.  An action that cannot be taken leaves the pool. -/
def Pool.run (sem : Semantics ι S A σ) (program : C → Prog S A ρ) (pool : Pool S A σ ρ)
    (actions : List (Action ι C)) : Pool S A σ ρ :=
  Runs.final (Pool.step sem program) pool actions

/-- The statement that takes its turn meets a condition in the store it is executed on. -/
def Pool.Allows (ok : ι → Nat → S → σ → Prop) (pool : Pool S A σ ρ) : Action ι C → Prop
  | .call _ => True
  | .turn i input => ∀ s next, pool.programs[i]? = some (.exec s next) → ok input i s pool.store

instance decidableAllows {ok : ι → Nat → S → σ → Prop}
    [∀ input i s store, Decidable (ok input i s store)] (pool : Pool S A σ ρ) :
    ∀ action : Action ι C, Decidable (pool.Allows ok action)
  | .call _ => isTrue trivial
  | .turn i input =>
    match hi : pool.programs[i]? with
    | some (.exec s next) =>
      decidable_of_iff (ok input i s pool.store) ⟨by
        intro hok s' next' he
        cases hi.symm.trans he
        exact hok, fun h => h s next hi⟩
    | some (.done r) => isTrue (by simp [Pool.Allows, hi])
    | none => isTrue (by simp [Pool.Allows, hi])

/-- Every statement executed in a run meets the condition. -/
def Pool.Meets (sem : Semantics ι S A σ) (program : C → Prog S A ρ)
    (ok : ι → Nat → S → σ → Prop) (pool : Pool S A σ ρ) (actions : List (Action ι C)) : Prop :=
  Runs.Along (Pool.step sem program) (fun pool action _ => pool.Allows ok action) pool actions

instance {sem : Semantics ι S A σ} {program : C → Prog S A ρ} {ok : ι → Nat → S → σ → Prop}
    [∀ input i s store, Decidable (ok input i s store)] (pool : Pool S A σ ρ)
    (actions : List (Action ι C)) : Decidable (pool.Meets sem program ok actions) :=
  inferInstanceAs (Decidable (Runs.Along _ _ _ _))

/-- No condition at all. -/
theorem Pool.meets_true {sem : Semantics ι S A σ} {program : C → Prog S A ρ} (pool : Pool S A σ ρ)
    (actions : List (Action ι C)) : pool.Meets sem program (fun _ _ _ _ => True) actions := by
  refine Runs.along_of_forall (fun pool action _ => ?_) pool actions
  cases action with
  | call c => trivial
  | turn i input => exact fun _ _ _ => trivial

/-! ## Contracts -/

/-- What holds of the store between statements, and what a program may rely on while
others run. -/
structure Contract (σ : Type) where
  inv : σ → Prop
  rely : Nat → σ → σ → Prop
  rely_refl : ∀ i s, rely i s s
  rely_trans : ∀ i s t u, rely i s t → rely i t u → rely i s u

section

variable (sem : Semantics ι S A σ) (ok : ι → Nat → S → σ → Prop) (c : Contract σ)

/-- The program keeps the contract from here on, whatever the others do, and ends with
`Q`. -/
def Contract.Keeps (i : Nat) : Prog S A ρ → (ρ → σ → Prop) → σ → Prop
  | .done r, Q, s => Q r s
  | .exec st next, Q, s => ∀ t, c.rely i s t → c.inv t → ∀ input u a, ok input i st t →
      sem input i st t = some (u, a) →
      c.inv u ∧ (∀ j, j ≠ i → c.rely j t u) ∧ Contract.Keeps i (next a) Q u

variable {sem ok c} {i : Nat}

theorem Contract.keeps_done {r : ρ} {Q : ρ → σ → Prop} {s : σ} (h : Q r s) :
    c.Keeps sem ok i (.done r : Prog S A ρ) Q s := h

theorem Contract.keeps_bind {p : Prog S A ρ} {f : ρ → Prog S A ρ'} {Q : ρ' → σ → Prop} {s : σ}
    (h : c.Keeps sem ok i p (fun r => c.Keeps sem ok i (f r) Q) s) :
    c.Keeps sem ok i (p >>= f) Q s := by
  induction p generalizing s with
  | done r => exact h
  | exec st next ih =>
    intro t hr hinv input u a hok hs
    obtain ⟨hu, hrely, hnext⟩ := h t hr hinv input u a hok hs
    exact ⟨hu, hrely, ih a hnext⟩

theorem Contract.Keeps.mono {p : Prog S A ρ} {Q Q' : ρ → σ → Prop} {s : σ}
    (h : c.Keeps sem ok i p Q s) (hQ : ∀ r s, Q r s → Q' r s) : c.Keeps sem ok i p Q' s := by
  induction p generalizing s with
  | done r => exact hQ r s h
  | exec st next ih =>
    intro t hr hinv input u a hok hs
    obtain ⟨hu, hrely, hnext⟩ := h t hr hinv input u a hok hs
    exact ⟨hu, hrely, ih a hnext⟩

/-- What others do in between does not matter. -/
theorem Contract.Keeps.rely {p : Prog S A ρ} {Q : ρ → σ → Prop} {s t : σ}
    (h : c.Keeps sem ok i p Q s) (hst : c.rely i s t)
    (hQ : ∀ r, Q r s → c.rely i s t → Q r t) : c.Keeps sem ok i p Q t := by
  cases p with
  | done r => exact hQ r h hst
  | exec st next => exact fun u hr => h u (c.rely_trans i s t u hst hr)

/-- Nothing that others do takes it away from the program. -/
def Contract.Stable (c : Contract σ) (i : Nat) (H : σ → Prop) : Prop :=
  ∀ s t, c.rely i s t → c.inv t → H s → H t

/-- What is stable for every program, a program does not take away from itself. -/
theorem Contract.Keeps.and_stable {H : σ → Prop} (hH : ∀ j, c.Stable j H) {p : Prog S A ρ}
    {Q : ρ → σ → Prop} {s : σ} (h : c.Keeps sem ok i p Q s) (hs : H s) :
    c.Keeps sem ok i p (fun r t => Q r t ∧ H t) s := by
  induction p generalizing s with
  | done r => exact ⟨h, hs⟩
  | exec st next ih =>
    intro t hr hinv input u a hok hexec
    obtain ⟨hu, hrely, hnext⟩ := h t hr hinv input u a hok hexec
    have ht : H t := hH i s t hr hinv hs
    exact ⟨hu, hrely, ih a hnext (hH (i + 1) t u (hrely _ (Nat.succ_ne_self i)) hu ht)⟩

/-- A statement, where the program knows what is stable. -/
theorem Contract.keeps_exec {H : σ → Prop} (hH : c.Stable i H) {st : S}
    {next : A st → Prog S A ρ} {Q : ρ → σ → Prop} {s : σ} (h : H s)
    (hstep : ∀ t, c.inv t → H t → ∀ input u a, ok input i st t → sem input i st t = some (u, a) →
      c.inv u ∧ (∀ j, j ≠ i → c.rely j t u) ∧ c.Keeps sem ok i (next a) Q u) :
    c.Keeps sem ok i (.exec st next) Q s :=
  fun t hr hinv input u a hok hs => hstep t hinv (hH s t hr hinv h) input u a hok hs

/-- A statement that only reads. -/
theorem Contract.keeps_read {H : σ → Prop} (hH : c.Stable i H) {st : S}
    {next : A st → Prog S A ρ} {Q : ρ → σ → Prop} {s : σ} (h : H s)
    (hread : ∀ input t u a, sem input i st t = some (u, a) → u = t)
    (hnext : ∀ input a t, sem input i st t = some (t, a) → c.inv t → H t →
      c.Keeps sem ok i (next a) Q t) :
    c.Keeps sem ok i (.exec st next) Q s := by
  refine Contract.keeps_exec hH h fun t hinv ht input u a _ hs => ?_
  obtain rfl := hread input t u a hs
  exact ⟨hinv, fun j _ => c.rely_refl j u, hnext input a u hs hinv ht⟩

/-! ## Runs -/

/-- The store and every program in flight keep the contract. -/
structure Contract.Holds (sem : Semantics ι S A σ) (ok : ι → Nat → S → σ → Prop) (c : Contract σ)
    (pool : Pool S A σ ρ) : Prop where
  inv : c.inv pool.store
  keeps : ∀ i p, pool.programs[i]? = some p → c.Keeps sem ok i p (fun _ _ => True) pool.store

theorem Contract.holds_start {store : σ} (h : c.inv store) :
    c.Holds sem ok (Pool.start store : Pool S A σ ρ) where
  inv := h
  keeps := fun _ _ hp => by cases hp

/-- A program that is called joins those in flight. -/
theorem Contract.keeps_call {Q : Nat → ρ → σ → Prop} {pool : Pool S A σ ρ}
    (h : ∀ i p, pool.programs[i]? = some p → c.Keeps sem ok i p (Q i) pool.store) {p : Prog S A ρ}
    (hp : c.Keeps sem ok pool.programs.length p (Q pool.programs.length) pool.store) :
    ∀ i q, (pool.programs ++ [p])[i]? = some q → c.Keeps sem ok i q (Q i) pool.store := by
  intro i q hq
  rw [List.getElem?_append] at hq
  split at hq
  · exact h i q hq
  case isFalse hi =>
    have hlt := (List.getElem?_eq_some_iff.mp hq).1
    rw [List.length_singleton] at hlt
    obtain rfl : i = pool.programs.length := by omega
    obtain rfl := List.mem_singleton.mp (List.mem_of_getElem? hq)
    exact hp

/-- A program takes its turn, and the others rely on what it does. -/
theorem Contract.keeps_turn {Q : Nat → ρ → σ → Prop} (hQ : ∀ i r, c.Stable i (Q i r))
    {pool : Pool S A σ ρ} (hinv : c.inv pool.store)
    (h : ∀ i p, pool.programs[i]? = some p → c.Keeps sem ok i p (Q i) pool.store) {input : ι} {s : S}
    {next : A s → Prog S A ρ} {store : σ} {a : A s} (hi : pool.programs[i]? = some (.exec s next))
    (hok : ok input i s pool.store) (hs : sem input i s pool.store = some (store, a)) :
    c.inv store ∧ ∀ j p, (pool.programs.set i (next a))[j]? = some p →
      c.Keeps sem ok j p (Q j) store := by
  obtain ⟨hinv', hrely, hnext⟩ := h i _ hi pool.store (c.rely_refl i _) hinv input store a hok hs
  refine ⟨hinv', fun j p hp => ?_⟩
  rw [List.getElem?_set] at hp
  by_cases hij : i = j
  · rw [if_pos hij] at hp
    split at hp
    · cases hp
      exact hij ▸ hnext
    · cases hp
  · rw [if_neg hij] at hp
    have hj := hrely j (Ne.symm hij)
    exact (h j p hp).rely hj fun r hr _ => hQ j r pool.store store hj hinv' hr

theorem Contract.Holds.call {pool : Pool S A σ ρ} (h : c.Holds sem ok pool) {p : Prog S A ρ}
    (hp : ∀ i s, c.inv s → c.Keeps sem ok i p (fun _ _ => True) s) :
    c.Holds sem ok { pool with programs := pool.programs ++ [p] } where
  inv := h.inv
  keeps := Contract.keeps_call h.keeps (hp _ pool.store h.inv)

theorem Contract.Holds.turn {pool : Pool S A σ ρ} (h : c.Holds sem ok pool) {input : ι} {s : S}
    {next : A s → Prog S A ρ} {store : σ} {a : A s} (hi : pool.programs[i]? = some (.exec s next))
    (hok : ok input i s pool.store) (hs : sem input i s pool.store = some (store, a)) :
    c.Holds sem ok ⟨store, pool.programs.set i (next a)⟩ := by
  obtain ⟨hinv, hkeeps⟩ :=
    Contract.keeps_turn (fun _ _ _ _ _ _ _ => trivial) h.inv h.keeps hi hok hs
  exact ⟨hinv, hkeeps⟩

theorem Contract.Holds.step {program : C → Prog S A ρ}
    (hprogram : ∀ call i s, c.inv s → c.Keeps sem ok i (program call) (fun _ _ => True) s)
    {pool pool' : Pool S A σ ρ} {action : Action ι C} (h : c.Holds sem ok pool)
    (hs : Pool.step sem program pool action = some pool') (hok : pool.Allows ok action) :
    c.Holds sem ok pool' := by
  cases action with
  | call call =>
    cases hs
    exact h.call (hprogram call)
  | turn i input =>
    rw [Pool.step] at hs
    split at hs
    case h_1 s next hi =>
      obtain ⟨⟨store, a⟩, hexec, rfl⟩ := Option.map_eq_some_iff.mp hs
      exact h.turn hi (hok s next hi) hexec
    case h_2 => cases hs

theorem Pool.length_step {program : C → Prog S A ρ} {pool pool' : Pool S A σ ρ}
    {action : Action ι C} (hs : Pool.step sem program pool action = some pool') :
    pool.programs.length ≤ pool'.programs.length := by
  cases action with
  | call call =>
    cases hs
    simp
  | turn i input =>
    rw [Pool.step] at hs
    split at hs
    case h_1 s next hi =>
      obtain ⟨r, -, rfl⟩ := Option.map_eq_some_iff.mp hs
      simp
    case h_2 => cases hs

theorem Pool.length_run (program : C → Prog S A ρ) (pool : Pool S A σ ρ)
    (actions : List (Action ι C)) :
    pool.programs.length ≤ (pool.run sem program actions).programs.length := by
  induction actions generalizing pool with
  | nil => exact Nat.le_refl _
  | cons action actions ih =>
    refine Nat.le_trans ?_ (ih (Runs.next (Pool.step sem program) pool action))
    exact Runs.next_invariant (I := fun p : Pool S A σ ρ => pool.programs.length ≤ p.programs.length)
      (Nat.le_refl _) fun _ hs => Pool.length_step hs

/-- A program that is not in the run may rely on what the run leaves. -/
theorem Contract.Holds.rely_run {program : C → Prog S A ρ}
    (hprogram : ∀ call i s, c.inv s → c.Keeps sem ok i (program call) (fun _ _ => True) s)
    {pool : Pool S A σ ρ} (h : c.Holds sem ok pool) {actions : List (Action ι C)}
    (hok : pool.Meets sem program ok actions) {j : Nat}
    (hj : (pool.run sem program actions).programs.length ≤ j) :
    c.rely j pool.store (pool.run sem program actions).store := by
  induction actions generalizing pool with
  | nil => exact c.rely_refl j pool.store
  | cons action actions ih =>
    have hj' : pool.programs.length ≤ j :=
      Nat.le_trans (Pool.length_run program pool (action :: actions)) hj
    have hfirst : c.rely j pool.store (Runs.next (Pool.step sem program) pool action).store ∧
        c.Holds sem ok (Runs.next (Pool.step sem program) pool action) := by
      cases hs : Pool.step sem program pool action with
      | none =>
        rw [Runs.next_of_none hs]
        exact ⟨c.rely_refl j pool.store, h⟩
      | some pool' =>
        rw [Runs.next_of_some hs]
        refine ⟨?_, h.step hprogram hs (hok.1 pool' hs)⟩
        cases action with
        | call call =>
          cases hs
          exact c.rely_refl j pool.store
        | turn i input =>
          have hallows := hok.1 pool' hs
          rw [Pool.step] at hs
          split at hs
          case h_1 s next hi =>
            obtain ⟨⟨store, a⟩, hexec, rfl⟩ := Option.map_eq_some_iff.mp hs
            have hne : j ≠ i := by
              have := (List.getElem?_eq_some_iff.mp hi).1
              omega
            exact (h.keeps i _ hi pool.store (c.rely_refl i _) h.inv input store a
              (hallows s next hi) hexec).2.1 j hne
          case h_2 => cases hs
    exact c.rely_trans j _ _ _ hfirst.1 (ih hfirst.2 hok.2 hj)

theorem Contract.holds_run {program : C → Prog S A ρ}
    (hprogram : ∀ call i s, c.inv s → c.Keeps sem ok i (program call) (fun _ _ => True) s)
    {store : σ} (h : c.inv store) {actions : List (Action ι C)}
    (hok : (Pool.start store).Meets sem program ok actions) :
    c.Holds sem ok ((Pool.start store).run sem program actions) := by
  refine Runs.final_of_along (I := c.Holds sem ok) ?_ (c.holds_start h) hok
  exact fun pool action pool' hpool hs hstep => hpool.step hprogram hs hstep

/-- What every program that can be called keeps, a run keeps. -/
theorem Contract.inv_run {program : C → Prog S A ρ}
    (hprogram : ∀ call i s, c.inv s → c.Keeps sem ok i (program call) (fun _ _ => True) s)
    {store : σ} (h : c.inv store) {actions : List (Action ι C)}
    (hok : (Pool.start store).Meets sem program ok actions) :
    c.inv ((Pool.start store).run sem program actions).store := by
  exact (Contract.holds_run hprogram h hok).inv

/-- What every statement keeps, a run keeps, whatever the programs are. -/
theorem Pool.inv_run {I : σ → Prop}
    (hI : ∀ input i st s u a, ok input i st s → I s → sem input i st s = some (u, a) → I u)
    {program : C → Prog S A ρ} {pool : Pool S A σ ρ} (h : I pool.store)
    {actions : List (Action ι C)} (hok : pool.Meets sem program ok actions) :
    I (pool.run sem program actions).store := by
  refine Runs.final_of_along (I := fun p : Pool S A σ ρ => I p.store) ?_ h hok
  intro p action p' hp hs hallows
  cases action with
  | call call =>
    cases hs
    exact hp
  | turn i input =>
    rw [Pool.step] at hs
    split at hs
    case h_1 s next hi =>
      obtain ⟨⟨store, a⟩, hexec, rfl⟩ := Option.map_eq_some_iff.mp hs
      exact hI input i s p.store store a (hallows s next hi) hp hexec
    case h_2 => cases hs

/-! ## What programs end with -/

/-- The calls of a run. -/
def Action.calls (actions : List (Action ι C)) : List C :=
  actions.filterMap fun action => match action with
    | .call c => some c
    | .turn _ _ => none

/-- The store and the programs of the calls keep the contract, and each ends with `Q`.  Of a
program that was not called yet `F` is known. -/
structure Contract.Ends (sem : Semantics ι S A σ) (ok : ι → Nat → S → σ → Prop) (c : Contract σ)
    (F : Nat → σ → Prop) (Q : C → Nat → ρ → σ → Prop) (calls : List C) (pool : Pool S A σ ρ) :
    Prop where
  inv : c.inv pool.store
  length : pool.programs.length = calls.length
  fresh : ∀ i, calls.length ≤ i → F i pool.store
  keeps : ∀ i p, pool.programs[i]? = some p →
    c.Keeps sem ok i p (fun r s => ∀ call, calls[i]? = some call → Q call i r s) pool.store

section

variable {program : C → Prog S A ρ} {F : Nat → σ → Prop} {Q : C → Nat → ρ → σ → Prop}

theorem Contract.Ends.step (hF : ∀ i, c.Stable i (F i)) (hQ : ∀ call i r, c.Stable i (Q call i r))
    (hprogram : ∀ call i s, c.inv s → F i s → c.Keeps sem ok i (program call) (Q call i) s)
    {calls : List C} {pool pool' : Pool S A σ ρ} {action : Action ι C}
    (h : c.Ends sem ok F Q calls pool) (hs : Pool.step sem program pool action = some pool')
    (hok : pool.Allows ok action) :
    c.Ends sem ok F Q (calls ++ Action.calls [action]) pool' := by
  cases action with
  | call call =>
    cases hs
    refine ⟨h.inv, by simp [h.length, Action.calls], fun i hi => h.fresh i ?_, ?_⟩
    · exact Nat.le_trans (by simp) hi
    refine Contract.keeps_call (Q := fun i r s => ∀ d, (calls ++ [call])[i]? = some d → Q d i r s)
      (fun i p hp => ?_) ?_
    · have hi : i < calls.length := h.length ▸ (List.getElem?_eq_some_iff.mp hp).1
      refine (h.keeps i p hp).mono fun r s hr d hd => hr d ?_
      rwa [List.getElem?_append_left hi] at hd
    · refine (hprogram call _ _ h.inv (h.fresh _ (Nat.le_of_eq h.length.symm))).mono
        fun r s hr d hd => ?_
      rw [h.length, List.getElem?_concat_length] at hd
      exact Option.some.inj hd ▸ hr
  | turn i input =>
    rw [Pool.step] at hs
    split at hs
    case h_1 s next hi =>
      obtain ⟨⟨store, a⟩, hexec, rfl⟩ := Option.map_eq_some_iff.mp hs
      have hlt := (List.getElem?_eq_some_iff.mp hi).1
      obtain ⟨hinv, hkeeps⟩ := Contract.keeps_turn
        (Q := fun i r s => ∀ d, calls[i]? = some d → Q d i r s)
        (fun i r s t hr ht hq d hd => hQ d i r s t hr ht (hq d hd)) h.inv h.keeps hi
        (hok s next hi) hexec
      have hrely : ∀ j, j ≠ i → c.rely j pool.store store :=
        (h.keeps i _ hi pool.store (c.rely_refl i _) h.inv input store a (hok s next hi) hexec).2.1
      rw [show Action.calls [(.turn i input : Action ι C)] = [] from rfl, List.append_nil]
      refine ⟨hinv, by simp [h.length], fun j hj => ?_, hkeeps⟩
      refine hF j pool.store store (hrely j ?_) hinv (h.fresh j hj)
      have := h.length
      omega
    case h_2 => cases hs

theorem Contract.Ends.run (hF : ∀ i, c.Stable i (F i)) (hQ : ∀ call i r, c.Stable i (Q call i r))
    (hprogram : ∀ call i s, c.inv s → F i s → c.Keeps sem ok i (program call) (Q call i) s)
    {calls : List C} {pool : Pool S A σ ρ} (h : c.Ends sem ok F Q calls pool)
    {actions : List (Action ι C)} (hok : pool.Meets sem program ok actions) :
    c.Ends sem ok F Q (calls ++ Action.calls actions) (pool.run sem program actions) := by
  induction actions generalizing calls pool with
  | nil => exact (List.append_nil calls).symm ▸ h
  | cons action actions ih =>
    have hcalls : calls ++ Action.calls (action :: actions) =
        (calls ++ Action.calls [action]) ++ Action.calls actions := by
      rw [List.append_assoc, Action.calls, Action.calls, Action.calls, ← List.filterMap_append]
      rfl
    rw [hcalls]
    refine ih ?_ hok.2
    cases hs : Pool.step sem program pool action with
    | none =>
      cases action with
      | call call => cases hs
      | turn i input =>
        rw [Runs.next_of_none hs, show Action.calls [(.turn i input : Action ι C)] = [] from rfl,
          List.append_nil]
        exact h
    | some pool' =>
      rw [Runs.next_of_some hs]
      exact h.step hF hQ hprogram hs (hok.1 pool' hs)

/-- What every program that can be called keeps and ends with, a run keeps, and a call that
has ended has ended with. -/
theorem Contract.ends_run (hF : ∀ i, c.Stable i (F i)) (hQ : ∀ call i r, c.Stable i (Q call i r))
    (hprogram : ∀ call i s, c.inv s → F i s → c.Keeps sem ok i (program call) (Q call i) s)
    {store : σ} (h : c.inv store) (hfresh : ∀ i, F i store) {actions : List (Action ι C)}
    (hok : (Pool.start store).Meets sem program ok actions) :
    c.inv ((Pool.start store).run sem program actions).store ∧
      ∀ i call r, (Action.calls actions)[i]? = some call →
        ((Pool.start store).run sem program actions).programs[i]? = some (.done r) →
          Q call i r ((Pool.start store).run sem program actions).store := by
  have hstart : c.Ends sem ok F Q [] (Pool.start store : Pool S A σ ρ) :=
    ⟨h, rfl, fun i _ => hfresh i, fun _ _ hp => by cases hp⟩
  have hends := hstart.run hF hQ hprogram hok
  exact ⟨hends.inv, fun i call r hcall hdone => hends.keeps i _ hdone call hcall⟩

end

end

/-! ## One program alone -/

/-- The program runs alone, with an input for each of its statements. -/
def Prog.eval (sem : Semantics ι S A σ) (i : Nat) : Prog S A ρ → List ι → σ → Option (σ × ρ)
  | .done r, [], s => some (s, r)
  | .done _, _ :: _, _ => none
  | .exec _ _, [], _ => none
  | .exec st next, input :: inputs, s =>
    (sem input i st s).bind fun u => (next u.2).eval sem i inputs u.1

section

variable {sem : Semantics ι S A σ} {i : Nat} {inputs : List ι} {s t : σ}

theorem Prog.eval_done_iff {r r' : ρ} :
    (Prog.done r : Prog S A ρ).eval sem i inputs s = some (t, r') ↔
      inputs = [] ∧ t = s ∧ r' = r := by
  cases inputs with
  | nil => simp [Prog.eval, eq_comm]
  | cons input inputs => simp [Prog.eval]

theorem Prog.eval_exec_iff {st : S} {next : A st → Prog S A ρ} {r : ρ} :
    (Prog.exec st next).eval sem i inputs s = some (t, r) ↔
      ∃ input rest u a, inputs = input :: rest ∧ sem input i st s = some (u, a) ∧
        (next a).eval sem i rest u = some (t, r) := by
  cases inputs with
  | nil => simp [Prog.eval]
  | cons input inputs =>
    rw [Prog.eval, Option.bind_eq_some_iff]
    constructor
    · rintro ⟨⟨u, a⟩, hs, hnext⟩
      exact ⟨input, inputs, u, a, rfl, hs, hnext⟩
    · rintro ⟨_, _, u, a, he, hs, hnext⟩
      obtain ⟨rfl, rfl⟩ := List.cons.inj he
      exact ⟨(u, a), hs, hnext⟩

theorem Prog.eval_bind_iff {p : Prog S A ρ} {f : ρ → Prog S A ρ'} {r : ρ'} :
    (p >>= f).eval sem i inputs s = some (t, r) ↔
      ∃ first rest u a, inputs = first ++ rest ∧ p.eval sem i first s = some (u, a) ∧
        (f a).eval sem i rest u = some (t, r) := by
  induction p generalizing inputs s with
  | done a =>
    constructor
    · intro h
      exact ⟨[], inputs, s, a, rfl, rfl, h⟩
    · rintro ⟨first, rest, u, b, rfl, hp, hf⟩
      obtain ⟨rfl, rfl, rfl⟩ := Prog.eval_done_iff.mp hp
      exact hf
  | exec st next ih =>
    rw [Prog.exec_bind, Prog.eval_exec_iff]
    constructor
    · rintro ⟨input, rest, u, a, rfl, hs, hnext⟩
      obtain ⟨first, rest', v, b, rfl, hp, hf⟩ := (ih a).mp hnext
      exact ⟨input :: first, rest', v, b, rfl,
        Prog.eval_exec_iff.mpr ⟨input, first, u, a, rfl, hs, hp⟩, hf⟩
    · rintro ⟨first, rest, v, b, rfl, hp, hf⟩
      obtain ⟨input, first', u, a, rfl, hs, hnext⟩ := Prog.eval_exec_iff.mp hp
      exact ⟨input, first' ++ rest, u, a, rfl, hs, (ih a).mpr ⟨first', rest, v, b, rfl, hnext, hf⟩⟩

end

end Requests
