/-
What a design costs: the requests to the language model that a design loop and a screen issue.

A loop that returns after `rounds` rounds has asked for a fix before each of them but the first,
and for a design unless it was given one.
-/
import CircuitForge.Js.Costs
import CircuitForge.Llm.Candidates

namespace CircuitForge.Design

open Js Effects

section

variable [Runtime]

/-- A count of the world grows by one with every request, and with nothing else. -/
structure Counts (deps : DesignDeps) (count : deps.World → Nat) : Prop where
  isAborted : ∀ w, count (deps.isAborted w).2 = count w
  generateCircuit : ∀ prompt constraints w,
    count (deps.generateCircuit prompt constraints w).2 = count w + 1
  fixCircuit : ∀ circuit analysis problem w,
    count (deps.fixCircuit circuit analysis problem w).2 = count w + 1
  createQuickSim : ∀ netlist analysis w, count (deps.createQuickSim netlist analysis w).2 = count w
  pollJob : ∀ jobId w, count (deps.pollJob jobId w).2 = count w
  getResult : ∀ jobId w, count (deps.getResult jobId w).2 = count w
  enrichSourcing : ∀ circuit w, count (deps.enrichSourcing circuit w).2 = count w
  runYieldAnalysis : ∀ circuit analysis criteria w,
    count (deps.runYieldAnalysis circuit analysis criteria w).2 = count w

/-- The dependencies in a world that counts the requests. -/
@[reducible] def counted (deps : DesignDeps) : DesignDeps :=
  { deps with
    World := deps.World × Nat
    isAborted := fun w => ((deps.isAborted w.1).1, ((deps.isAborted w.1).2, w.2))
    generateCircuit := fun prompt constraints w =>
      let r := deps.generateCircuit prompt constraints w.1
      (r.1, (r.2, w.2 + 1))
    fixCircuit := fun circuit analysis problem w =>
      let r := deps.fixCircuit circuit analysis problem w.1
      (r.1, (r.2, w.2 + 1))
    createQuickSim := fun netlist analysis w =>
      let r := deps.createQuickSim netlist analysis w.1
      (r.1, (r.2, w.2))
    pollJob := fun jobId w => ((deps.pollJob jobId w.1).1, ((deps.pollJob jobId w.1).2, w.2))
    getResult := fun jobId w => ((deps.getResult jobId w.1).1, ((deps.getResult jobId w.1).2, w.2))
    enrichSourcing := fun circuit w =>
      let r := deps.enrichSourcing circuit w.1
      (r.1, (r.2, w.2))
    runYieldAnalysis := fun circuit analysis criteria w =>
      let r := deps.runYieldAnalysis circuit analysis criteria w.1
      (r.1, (r.2, w.2))
    clock := fun w => deps.clock w.1 }

theorem counts_counted (deps : DesignDeps) : Counts (counted deps) Prod.snd where
  isAborted _ := rfl
  generateCircuit _ _ _ := rfl
  fixCircuit _ _ _ _ := rfl
  createQuickSim _ _ _ := rfl
  pollJob _ _ := rfl
  getResult _ _ := rfl
  enrichSourcing _ _ := rfl
  runYieldAnalysis _ _ _ _ := rfl

variable {deps : DesignDeps} {count : deps.World → Nat}

/-! ## Statements -/

/-- A call of the outside that is no request. -/
theorem outside_free {α : Type} {f : deps.World → Except Text α × deps.World}
    (hf : ∀ w, count (f w).2 = count w) : (outside f : Run deps α).Free count fun _ => True :=
  Proc.free_call hf fun _ _ _ => trivial

/-- A request. -/
theorem outside_costs {α : Type} {f : deps.World → Except Text α × deps.World}
    (hf : ∀ w, count (f w).2 = count w + 1) :
    (outside f : Run deps α).Costs count fun k _ => k = 1 :=
  Proc.costs_call hf fun _ => rfl

theorem checkAbort_free (h : Counts deps count) : (checkAbort deps).Free count fun _ => True := by
  refine (outside_free h.isAborted).andThen fun aborted _ => ?_
  split
  · exact Proc.free_throw
  · exact Proc.free_done trivial

theorem enrich_free (h : Counts deps count) (circuit : CircuitJson) :
    (enrich deps circuit).Free count fun _ => True := by
  unfold enrich
  split
  · exact outside_free (h.enrichSourcing circuit)
  · exact Proc.free_done trivial

/-- A fix that was received: one request, and the rounds so far. -/
def Fixed (l : Loop) (k : Nat) (l' : Loop) : Prop := k = 1 ∧ l'.history = l.history

theorem applyFix_pays (h : Counts deps count) (l : Loop) (problem : Problem) :
    (applyFix deps l problem).Pays count 1 fun k _ => k = 1 := by
  have hfix : (outside (deps.fixCircuit l.circuit l.analysis problem)).Pays count 1
      fun k _ => k = 1 :=
    (outside_costs (h.fixCircuit l.circuit l.analysis problem)).pays
      (fun _ _ hk => Nat.le_of_eq hk) fun _ _ hk => hk
  exact hfix.andThen (Nat.le_refl 1) fun _ _ _ hk => Proc.pays_done hk

theorem fixDesign_pays (h : Counts deps count) (prompt : Text) (l : Loop) (problem : Problem) :
    (fixDesign deps prompt l problem).Pays count 1 (Fixed l) := by
  refine (checkAbort_free h).pays fun _ _ => ?_
  exact (applyFix_pays h l problem).andThen (Nat.le_refl 1) fun _ _ _ hk =>
    Proc.pays_done ⟨hk, rfl⟩

theorem fixDeck_pays (h : Counts deps count) (l : Loop) (problem : Problem) :
    (fixDeck deps l problem).Pays count 1 (Fixed l) :=
  (applyFix_pays h l problem).andThen (Nat.le_refl 1) fun _ _ _ hk => Proc.pays_done ⟨hk, rfl⟩

/-! ## Rounds -/

/-- The most that a round costs: a fix, where another round follows. -/
def fixesOf (isLast : Bool) : Nat := if isLast then 0 else 1

omit [Runtime] in
theorem fixesOf_le (left : Nat) : fixesOf (left = 0) ≤ left :=
  match left with
  | 0 => Nat.le_refl 0
  | left + 1 => Nat.succ_le_succ (Nat.zero_le left)

/-- What a round that has ended has cost: a request where another round follows. -/
def Paid (round : Nat) (isLast : Bool) (k : Nat) : Turn deps → Prop
  | .returns result => k = 0 ∧ result.rounds = round
  | .stops l => k = 0 ∧ l.history.length = round
  | .goesOn l => k = 1 ∧ l.history.length = round ∧ isLast = false

variable {round most : Nat} {isLast : Bool} {l : Loop}

theorem inconclusive_pays (h : Counts deps count) (hl : l.history.length = round) :
    (inconclusive deps l).Pays count most (Paid round isLast) :=
  (enrich_free h l.circuit).pays fun _ _ => Proc.pays_done ⟨rfl, hl⟩

theorem goOn_pays (hl : l.history.length = round) {fix : Run deps Loop}
    (hfix : fix.Pays count 1 (Fixed l)) :
    (goOn deps l isLast fix).Pays count (fixesOf isLast) (Paid round isLast) := by
  cases isLast with
  | true => exact Proc.pays_done ⟨rfl, hl⟩
  | false =>
    exact hfix.andThen (Nat.le_refl 1) fun _ _ _ hl' =>
      Proc.pays_done ⟨hl'.1, hl'.2.symm ▸ hl, rfl⟩

theorem length_record (l : Loop) (round : Nat) (status : RoundStatus) (points : Runtime.Num)
    (jobId : Option Text) :
    (l.record round status points jobId).history.length = l.history.length + 1 :=
  List.length_append

theorem settle_pays (h : Counts deps count) (hl : l.history.length + 1 = round) (prompt : Text)
    (jobId : Text) (status : JobStatus) (result : JobResult) :
    (settle deps prompt round isLast l jobId status result).Pays count (fixesOf isLast)
      (Paid round isLast) := by
  unfold settle
  extract_lets pointsCount healthy specsMet uncovered recorded
  split
  · refine (enrich_free h recorded.circuit).pays fun _ _ => ?_
    refine Proc.Free.pays (P := fun _ => True)
      (Proc.free_call (h.runYieldAnalysis _ _ _) fun _ _ _ => trivial) fun report _ => ?_
    exact Proc.pays_done ⟨rfl, rfl⟩
  · exact goOn_pays ((length_record ..).trans hl) (fixDesign_pays h _ _ _)

theorem simulate_free (h : Counts deps count) (l : Loop) (netlist : Text) :
    (simulate deps l netlist).Free count fun _ => True := by
  refine Proc.Free.catching ?_ fun e => ?_
  · refine (outside_free (h.createQuickSim _ _)).andThen fun jobId _ =>
      (outside_free (h.pollJob jobId)).andThen fun status _ => ?_
    split
    · exact Proc.free_done trivial
    · exact (outside_free (h.getResult jobId)).andThen fun _ _ => Proc.free_done trivial
  · split
    · split
      · exact Proc.free_throw
      · exact Proc.free_done trivial
    · exact Proc.free_throw

theorem note_free (e : Event) : (Proc.note e : Run deps Unit).Free count fun _ => True :=
  Proc.free_note trivial

theorem judgeRun_pays (h : Counts deps count) (hl : l.history.length + 1 = round) (prompt : Text)
    (netlist jobId : Text) (status : JobStatus) (result : JobResult) :
    (judgeRun deps prompt round isLast l netlist jobId status result).Pays count (fixesOf isLast)
      (Paid round isLast) := by
  have hrecord := fun status points jobId => (length_record l round status points jobId).trans hl
  have hjudged : ∀ assertions : List AssertionResult,
      ({ l with lastAssertions := assertions } : Loop).history.length + 1 = round := fun _ => hl
  unfold judgeRun
  extract_lets pointsCount t
  split
  · exact inconclusive_pays h (hrecord _ _ _)
  · split
    · split
      · exact settle_pays h hl _ _ _ _
      · split
        · exact inconclusive_pays h (hrecord _ _ _)
        · exact (note_free _).pays fun _ _ => settle_pays h (hjudged _) _ _ _ _
    · exact (note_free _).pays fun _ _ => settle_pays h hl _ _ _ _

theorem playRound_pays (h : Counts deps count) (hl : l.history.length + 1 = round)
    (prompt : Text) :
    (playRound deps prompt round isLast l).Pays count (fixesOf isLast) (Paid round isLast) := by
  have hrecord := fun status points jobId => (length_record l round status points jobId).trans hl
  refine (checkAbort_free h).pays fun _ _ => (note_free _).pays fun _ _ => ?_
  split
  · exact (note_free _).pays fun _ _ => goOn_pays (hrecord _ _ _) (fixDesign_pays h _ _ _)
  · refine Proc.Free.pays (P := fun _ => True)
      (Proc.free_call (fun _ => rfl) fun _ _ _ => trivial) fun now _ => ?_
    split
    · exact (note_free _).pays fun _ _ => goOn_pays (hrecord _ _ _) (fixDeck_pays h _ _)
    · refine (simulate_free h _ _).pays fun simulated _ => ?_
      match simulated with
      | .unavailable jobId status => exact inconclusive_pays h (hrecord _ _ _)
      | .down => exact inconclusive_pays h (hrecord _ _ _)
      | .ran jobId status result => exact judgeRun_pays h hl _ _ _ _ _

/-- What the rounds have cost when they end: a request for each round but the first. -/
def RoundsPaid (left round k : Nat) : DesignResult deps.Report ⊕ Loop → Prop
  | .inl result => result.rounds = round + k
  | .inr l => left ≠ 0 → l.history.length = round + k

theorem playRounds_pays (h : Counts deps count) (prompt : Text) (left : Nat) {round : Nat}
    {l : Loop} (hl : l.history.length + 1 = round) :
    (playRounds deps prompt left round l).Pays count (left - 1) (RoundsPaid left round) := by
  induction left generalizing round l with
  | zero => exact Proc.pays_done fun hne => absurd rfl hne
  | succ left ih =>
    refine (playRound_pays h hl prompt).andThen (fixesOf_le left) fun k turn _ hpaid => ?_
    cases turn with
    | returns result =>
      obtain ⟨rfl, hrounds⟩ := hpaid
      exact Proc.pays_done hrounds
    | stops l' =>
      obtain ⟨rfl, hlength⟩ := hpaid
      exact Proc.pays_done fun _ => hlength
    | goesOn l' =>
      obtain ⟨rfl, hlength, hlast⟩ := hpaid
      have hleft : left ≠ 0 := of_decide_eq_false hlast
      refine (ih (congrArg (· + 1) hlength)).mono fun more end_ hend => ?_
      cases end_ with
      | inl result =>
        have hrounds : result.rounds = round + 1 + more := hend
        show result.rounds = _
        omega
      | inr l'' =>
        have hlength' : l''.history.length = round + 1 + more := hend hleft
        intro _
        omega

/-! ## Loops and screens -/

/-- A design that is asked for. -/
def generations (input : DesignLoopInput) : Nat := if input.seedCircuit.isSome then 0 else 1

theorem firstDesign_pays (h : Counts deps count) (input : DesignLoopInput) :
    (firstDesign deps input).Pays count (generations input) fun k _ => k = generations input := by
  unfold firstDesign generations
  cases input.seedCircuit with
  | some circuit => exact Proc.pays_done rfl
  | none =>
    exact (outside_costs (h.generateCircuit _ _)).pays (fun _ _ hk => Nat.le_of_eq hk)
      fun _ _ hk => hk

theorem startLoop_pays (h : Counts deps count) (input : DesignLoopInput) :
    (startLoop deps input).Pays count (generations input)
      fun k l => k = generations input ∧ l.history = [] :=
  (firstDesign_pays h input).andThen (Nat.le_refl _) fun _ _ _ hk => Proc.pays_done ⟨hk, rfl⟩

theorem maxRounds_ne_zero (input : DesignLoopInput) : maxRounds input ≠ 0 := by
  unfold maxRounds
  omega

/-- The most fixes of a loop. -/
def mostFixes (input : DesignLoopInput) : Nat := maxRounds input - 1

/-- The most requests of a loop. -/
def mostRequests (input : DesignLoopInput) : Nat := generations input + mostFixes input

/-- A loop that returns has issued a request for each round but the first, and one for the first
design unless it was given one. -/
theorem runDesignLoop_pays (h : Counts deps count) (input : DesignLoopInput) :
    (runDesignLoop deps input).Pays count (mostRequests input) fun k result =>
      k + 1 = result.rounds + generations input := by
  refine (checkAbort_free h).pays fun _ _ => ?_
  refine (startLoop_pays h input).andThen (Nat.le_add_right _ _) fun k l _ hl => ?_
  obtain ⟨rfl, hhistory⟩ := hl
  have hrounds := playRounds_pays h input.prompt (maxRounds input)
    (show l.history.length + 1 = 1 by rw [hhistory]; rfl)
  have hleft : maxRounds input - 1 ≤ mostRequests input - generations input := by
    rw [mostRequests, mostFixes, Nat.add_sub_cancel_left]
  refine hrounds.andThen hleft fun more end_ _ hend => ?_
  cases end_ with
  | inl result =>
    have hend : result.rounds = 1 + more := hend
    refine Proc.pays_done ?_
    omega
  | inr l' =>
    have hend : l'.history.length = 1 + more := hend (maxRounds_ne_zero input)
    refine (enrich_free h l'.circuit).pays fun _ _ => Proc.pays_done ?_
    show _ = l'.history.length + _
    omega

theorem screenSimulate_free (h : Counts deps count) (circuit : CircuitJson)
    (analysis : AnalysisConfig) (criteria : List AcceptanceCriterion) :
    (screenSimulate deps circuit analysis criteria).Free count fun _ => True := by
  refine Proc.Free.andThen (P := fun _ => True)
    (Proc.free_call (fun _ => rfl) fun _ _ _ => trivial) fun now _ => ?_
  split
  · exact Proc.free_done trivial
  · refine Proc.Free.catching ?_ fun _ => Proc.free_done trivial
    refine (outside_free (h.createQuickSim _ _)).andThen fun jobId _ =>
      (outside_free (h.pollJob jobId)).andThen fun status _ => ?_
    refine Proc.Free.catching ?_ fun _ => Proc.free_done trivial
    exact (outside_free (h.getResult jobId)).andThen fun _ _ => Proc.free_done trivial

/-- A screen issues one request, however it ends. -/
theorem screenCandidate_costs (h : Counts deps count) (input : DesignLoopInput) :
    (screenCandidate deps input).Costs count fun k _ => k = 1 := by
  refine (outside_costs (h.generateCircuit _ _)).andThen (fun _ _ hk => hk) fun k gen hk => ?_
  refine (screenSimulate_free h _ _ _).before (fun _ => hk) fun evidence _ => ?_
  exact Proc.costs_done hk

end

end CircuitForge.Design
