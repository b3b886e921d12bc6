/-
A world that runs a budget over.

Every design in it is ready to be simulated, every job fails, and every fix is answered, so that a
loop plays all its rounds; one job may be cut short, which ends its loop.
-/
import CircuitForge.Editor.Fresh
import CircuitForge.Js.Costs
import CircuitForge.Worker.Budget

namespace CircuitForge.Design

open Js Effects

section

variable [Runtime]

/-! ## Designs that have a deck -/

/-- A ground net. -/
def idleNet (j : Nat) : Net :=
  let name := 'g' :: Nat.toDigits 10 j
  { id := name, name := name, isGround := true }

/-- A part of the catalog beside `i + 1` ground nets. -/
def idle (i : Nat) : CircuitJson where
  components := [{ id := "u1".toList, type := .generic, designator := "U1".toList, pins := [] }]
  nets := (List.range (i + 1)).map idleNet

theorem attachGenericModels_idle (i : Nat) : attachGenericModels (idle i) = idle i := rfl

theorem checkGround_idle (i : Nat) : checkGround (idle i) = [] := by
  have hground : 0 < ((idle i).nets.filter Net.isGround).length := by
    refine List.length_pos_of_mem (a := idleNet 0) (List.mem_filter.mpr ⟨?_, rfl⟩)
    exact List.mem_map.mpr ⟨0, List.mem_range.mpr (Nat.succ_pos i), rfl⟩
  have hgrounds : groundComponents (idle i) = [] := rfl
  simp [checkGround, hground, hgrounds]

theorem checkFloatingNodes_idle (i : Nat) : checkFloatingNodes (idle i) = [] := by
  refine List.flatMap_eq_nil_iff.mpr fun net hnet => ?_
  obtain ⟨j, -, rfl⟩ := List.mem_map.mp hnet
  rw [floatingNodeIssues]
  exact if_pos rfl

theorem checkGroundReachability_idle (i : Nat) : checkGroundReachability (idle i) = [] := by
  have hislands : (idle i).nets.filter (fun net =>
      decide (net.id ∉ reachableNets (idle i) ∧ 2 ≤ analogPinCount (idle i) net.id)) = [] := by
    refine List.filter_eq_nil_iff.mpr fun net _ hnet => ?_
    have hpins : analogPinCount (idle i) net.id = 0 := rfl
    rw [hpins] at hnet
    exact absurd (of_decide_eq_true hnet).2 (by decide)
  rw [checkGroundReachability]
  split
  · rfl
  · exact if_pos hislands

/-- No rule is broken. -/
theorem ercErrors_idle (i : Nat) : ercErrors (idle i) = [] := by
  have hempty : checkEmptyCircuit (idle i) = [] := rfl
  have hpins : checkPinCounts (idle i) = [] := rfl
  have hdesignators : checkDuplicateDesignators (idle i) = [] := rfl
  have hvalues : checkComponentValues (idle i) = [] := rfl
  have hmodels : checkModelResolution (idle i) = [] := rfl
  have hshorts : checkVoltageSourceShorts (idle i) = [] := rfl
  have hnets : checkNetConnections (idle i) = [] := by
    refine List.map_eq_nil_iff.mpr (List.filter_eq_nil_iff.mpr fun net hnet hfree => ?_)
    obtain ⟨j, -, rfl⟩ := List.mem_map.mp hnet
    have hground : true = false := (of_decide_eq_true hfree).2.1
    exact absurd hground (by decide)
  have hactive : checkActiveSources (idle i) = [createIssue .noActiveComponents []] := rfl
  have hdigital : checkDigitalConnectivity (idle i) = [] := rfl
  rw [ercErrors, runErc, hempty, checkGround_idle, checkFloatingNodes_idle, hpins, hdesignators,
    hvalues, hmodels, hshorts, checkGroundReachability_idle, hnets, hactive, hdigital]
  rfl

theorem claimNodes_zero (owners entries : Map Text Text)
    (h : ∀ e ∈ entries, e.2 = "0".toList) : claimNodes owners entries = .ok owners := by
  induction entries with
  | nil => rfl
  | cons e entries ih =>
    obtain ⟨netId, node⟩ := e
    rw [claimNodes, if_pos (h _ List.mem_cons_self)]
    exact ih fun e he => h e (List.mem_cons_of_mem _ he)

theorem generateNetlist_idle (now : Timestamp) (i : Nat) :
    ∃ netlist, generateNetlist now (idle i) (.op {}) {} = .ok netlist := by
  have hnodes : claimNodes [] (buildNodeMap (idle i).nets) = .ok [] := by
    refine claimNodes_zero _ _ fun e he => ?_
    rcases Map.mem_fill he with ⟨net, hnet, rfl⟩ | he
    · obtain ⟨j, -, rfl⟩ := List.mem_map.mp hnet
      rfl
    · exact absurd he List.not_mem_nil
  rw [generateNetlist, generateDeck, hnodes]
  exact ⟨_, rfl⟩

/-! ## The world -/

/-- The generations that fail from now on, the polls up to the one that finds its job cancelled,
and the designs so far. -/
structure Trouble where
  failures : Nat := 0
  polls : Nat := 0
  designs : Nat := 0

def idleDesign (i : Nat) : Generation where
  circuit := idle i
  analysisConfig := .op {}

/-- Jobs fail, but for one that may be cancelled; fixes are answered. -/
@[reducible] def stubborn : DesignDeps where
  World := Trouble
  Report := Unit
  isAborted t := (.ok false, t)
  generateCircuit _ _ t :=
    if t.failures = 0 then (.ok (idleDesign t.designs), { t with designs := t.designs + 1 })
    else (.error [], { t with failures := t.failures - 1 })
  fixCircuit _ _ _ t := (.ok (idleDesign 0), t)
  createQuickSim _ _ t := (.ok [], t)
  pollJob _ t :=
    (.ok { status := if t.polls = 1 then .canceled else .failed }, { t with polls := t.polls - 1 })
  getResult _ t := (.ok {}, t)
  grounding := false
  enrichSourcing _ t := (.ok (), t)
  runYieldAnalysis _ _ _ t := (none, t)
  isIntentfulError _ := false
  clock _ := ⟨[], by decide⟩
  sqrt := id
  nan := Runtime.lit 0 0

/-- The same world, which counts the requests. -/
abbrev world : DesignDeps := counted stubborn

variable {t : Trouble} {c : Nat} {round : Nat} {isLast : Bool}

/-! ## Loops that play all their rounds -/

theorem returns_outside {deps : DesignDeps} {α β : Type} {w w' : deps.World}
    {f : deps.World → Except Text α × deps.World} {g : α → Run deps β} {a : α}
    {R : β → deps.World → Prop} (hf : f w = (.ok a, w')) (h : (g a).Returns w' R) :
    (outside f >>= g : Run deps β).Returns w R :=
  Proc.returns_call_andThen (by rw [hf]; rfl) h

theorem throws_outside {deps : DesignDeps} {α : Type} {w w' : deps.World}
    {f : deps.World → Except Text α × deps.World} {e : Text} {R : Thrown → deps.World → Prop}
    (hf : f w = (.error e, w')) (h : R (.fault e) w') : (outside f : Run deps α).Throws w R :=
  Proc.throws_call (by rw [hf]; rfl) h

theorem checkAbort_world {α : Type} {g : Unit → Run world α} {R : α → world.World → Prop}
    (h : (g ()).Returns (t, c) R) : (checkAbort world >>= g).Returns (t, c) R :=
  Proc.Returns.andThen (Q := fun _ s => s = (t, c))
    (returns_outside (a := false) rfl (Proc.returns_done rfl)) fun _ s hs => by
      obtain rfl := hs
      exact h

/-- A loop over designs of this world. -/
def Idle (l : Loop) : Prop :=
  (∃ i, l.circuit = idle i) ∧ l.analysis = .op {} ∧ l.criteria = [] ∧ l.currentProbes = []

/-- A fix is answered, and with an idle design. -/
def Answered (t : Trouble) (c : Nat) (l l' : Loop) (s : world.World) : Prop :=
  s = (t, c + 1) ∧ (Idle l → Idle l')

theorem applyFix_world (l : Loop) (problem : Problem) :
    (applyFix world l problem).Returns (t, c) fun fixed s =>
      s = (t, c + 1) ∧ fixed = idleDesign 0 :=
  returns_outside rfl (Proc.returns_done ⟨rfl, rfl⟩)

theorem fixDesign_world (prompt : Text) (l : Loop) (problem : Problem) :
    (fixDesign world prompt l problem).Returns (t, c) (Answered t c l) := by
  refine checkAbort_world ((applyFix_world l problem).andThen fun fixed s h => ?_)
  obtain ⟨rfl, rfl⟩ := h
  refine Proc.returns_done ⟨rfl, fun hl => ?_⟩
  obtain ⟨-, hanalysis, hcriteria, hprobes⟩ := hl
  refine ⟨⟨0, rfl⟩, ?_, ?_, ?_⟩
  · dsimp only
    rw [hanalysis, hcriteria]
    rfl
  · dsimp only
    rw [hcriteria]
    rfl
  · dsimp only
    rw [hcriteria]
    rfl

theorem fixDeck_world (l : Loop) (problem : Problem) :
    (fixDeck world l problem).Returns (t, c) (Answered t c l) := by
  refine (applyFix_world l problem).andThen fun fixed s h => ?_
  obtain ⟨rfl, rfl⟩ := h
  exact Proc.returns_done ⟨rfl, fun hl => ⟨⟨0, rfl⟩, rfl, hl.2.2⟩⟩

/-- A round that goes on where it is not the last. -/
def Plays (l : Loop) (isLast : Bool) (t : Trouble) (c : Nat) (turn : Turn world)
    (s : world.World) : Prop :=
  s = (t, c + fixesOf isLast) ∧
    match turn with
    | .returns _ => False
    | .stops _ => isLast = true
    | .goesOn l' => isLast = false ∧ (Idle l → Idle l')

theorem goOn_plays (l : Loop) {fix : Run world Loop}
    (hfix : fix.Returns (t, c) (Answered t c l)) :
    (goOn world l isLast fix).Returns (t, c) (Plays l isLast t c) := by
  cases isLast with
  | true => exact Proc.returns_done ⟨rfl, rfl⟩
  | false =>
    exact hfix.andThen fun l' s h => Proc.returns_done ⟨h.1, rfl, h.2⟩

/-- A job that failed is a round that goes on. -/
theorem judgeRun_plays (prompt netlist jobId : Text) (round : Nat) (l : Loop) :
    (judgeRun world prompt round isLast l netlist jobId { status := .failed } {}).Returns (t, c)
      (Plays l isLast t c) :=
  Proc.returns_note_andThen (goOn_plays _ (fixDesign_world _ _ _))

theorem simulate_fails (l : Loop) (netlist : Text) (hpolls : t.polls ≠ 1) :
    (simulate world l netlist).Returns (t, c) fun simulated s =>
      s = ({ t with polls := t.polls - 1 }, c) ∧ simulated = .ran [] { status := .failed } {} := by
  have hpoll : world.pollJob [] (t, c) =
      (.ok { status := .failed }, ({ t with polls := t.polls - 1 }, c)) := by
    dsimp only
    rw [if_neg hpolls]
  refine Proc.Returns.catching (returns_outside rfl (returns_outside hpoll ?_)) _
  exact returns_outside rfl (Proc.returns_done ⟨rfl, rfl⟩)

/-- A job that is cancelled. -/
theorem simulate_cut (l : Loop) (netlist : Text) (hpolls : t.polls = 1) :
    (simulate world l netlist).Returns (t, c) fun simulated s =>
      s = ({ t with polls := 0 }, c) ∧ simulated = .unavailable [] .canceled := by
  have hpoll : world.pollJob [] (t, c) =
      (.ok { status := .canceled }, ({ t with polls := 0 }, c)) := by
    dsimp only
    rw [if_pos hpolls, hpolls]
  refine Proc.Returns.catching (returns_outside rfl (returns_outside hpoll ?_)) _
  exact Proc.returns_done ⟨rfl, rfl⟩

/-- A round plays, whatever the design. -/
theorem playRound_plays (prompt : Text) (round : Nat) (l : Loop) (hpolls : t.polls = 0) :
    (playRound world prompt round isLast l).Returns (t, c) (Plays l isLast t c) := by
  refine checkAbort_world (Proc.returns_note_andThen ?_)
  split
  · exact Proc.returns_note_andThen (goOn_plays _ (fixDesign_world _ _ _))
  · refine Proc.returns_call_andThen rfl ?_
    split
    · exact Proc.returns_note_andThen (goOn_plays _ (fixDeck_world _ _))
    · refine (simulate_fails l _ (by omega)).andThen ?_
      rintro simulated s ⟨rfl, rfl⟩
      have hsame : ({ t with polls := t.polls - 1 } : Trouble) = t := by
        rw [hpolls]
        cases t
        cases hpolls
        rfl
      rw [hsame]
      exact judgeRun_plays _ _ _ _ _

/-- The round of an idle design comes down to its simulation. -/
theorem playRound_idle (prompt : Text) (round : Nat) {l : Loop} (hl : Idle l)
    {R : Turn world → world.World → Prop}
    (h : ∀ netlist, ((do
      let simulated ← simulate world l netlist
      match simulated with
      | .unavailable jobId status =>
        inconclusive world (l.record round (.ran status) (Runtime.lit 0 0) (some jobId))
      | .down => inconclusive world (l.record round .infraError)
      | .ran jobId status result =>
        judgeRun world prompt round isLast l netlist jobId status result) :
          Run world (Turn world)).Returns (t, c) R) :
    (playRound world prompt round isLast l).Returns (t, c) R := by
  obtain ⟨⟨i, hcircuit⟩, hanalysis, -, hprobes⟩ := hl
  have hrules : (!(ercErrors l.circuit).isEmpty) = false := by
    rw [hcircuit, ercErrors_idle]
    rfl
  have hoptions : netlistOptions l = {} := by
    rw [netlistOptions, hprobes]
    rfl
  refine checkAbort_world (Proc.returns_note_andThen ?_)
  rw [hrules]
  refine Proc.returns_call_andThen rfl ?_
  obtain ⟨netlist, hnetlist⟩ := generateNetlist_idle (world.clock (t, c)) i
  dsimp only
  rw [hcircuit, hanalysis, hoptions, hnetlist]
  exact h netlist

/-- The round of an idle design whose job fails. -/
theorem playRound_fails (prompt : Text) (round : Nat) {l : Loop} (hl : Idle l)
    (hpolls : t.polls ≠ 1) :
    (playRound world prompt round isLast l).Returns (t, c)
      (Plays l isLast { t with polls := t.polls - 1 } c) := by
  refine playRound_idle prompt round hl fun netlist => ?_
  refine (simulate_fails l netlist hpolls).andThen ?_
  rintro simulated s ⟨rfl, rfl⟩
  exact judgeRun_plays _ _ _ _ _

/-- The round of an idle design whose job is cancelled is the last one. -/
theorem playRound_cut (prompt : Text) (round : Nat) {l : Loop} (hl : Idle l)
    (hpolls : t.polls = 1) :
    (playRound world prompt round isLast l).Returns (t, c) fun turn s =>
      s = ({ t with polls := 0 }, c) ∧ ∃ result, turn = .returns result := by
  refine playRound_idle prompt round hl fun netlist => ?_
  refine (simulate_cut l netlist hpolls).andThen ?_
  rintro simulated s ⟨rfl, rfl⟩
  exact Proc.returns_done ⟨rfl, _, rfl⟩

/-- The rounds are all played. -/
theorem playRounds_full (prompt : Text) (left : Nat) (round c : Nat) (l : Loop)
    (hpolls : t.polls = 0) :
    (playRounds world prompt left round l).Returns (t, c) fun end_ s =>
      s = (t, c + (left - 1)) ∧ ∃ l', end_ = .inr l' := by
  induction left generalizing round c l with
  | zero => exact Proc.returns_done ⟨rfl, l, rfl⟩
  | succ left ih =>
    refine (playRound_plays prompt round l hpolls).andThen fun turn s h => ?_
    obtain ⟨rfl, hturn⟩ := h
    cases turn with
    | returns result => exact absurd hturn id
    | stops l' =>
      obtain rfl : left = 0 := of_decide_eq_true hturn
      exact Proc.returns_done ⟨rfl, l', rfl⟩
    | goesOn l' =>
      have hleft : left ≠ 0 := of_decide_eq_false hturn.1
      refine (ih (round + 1) (c + fixesOf (left = 0)) l').mono fun end_ s h => ⟨?_, h.2⟩
      rw [h.1, fixesOf, if_neg (by simpa using hleft)]
      congr 1
      omega

/-- The rounds end with the job that is cancelled. -/
theorem playRounds_cut (prompt : Text) (cut left : Nat) (hcut : cut < left) (round c : Nat)
    {l : Loop} (hl : Idle l) (hpolls : t.polls = cut + 1) :
    (playRounds world prompt left round l).Returns (t, c) fun end_ s =>
      s = ({ t with polls := 0 }, c + cut) ∧ ∃ result, end_ = .inl result := by
  induction cut generalizing left round c t l with
  | zero =>
    obtain ⟨left, rfl⟩ := Nat.exists_eq_succ_of_ne_zero (Nat.ne_zero_of_lt hcut)
    refine (playRound_cut prompt round hl hpolls).andThen fun turn s h => ?_
    obtain ⟨rfl, result, rfl⟩ := h
    exact Proc.returns_done ⟨rfl, result, rfl⟩
  | succ cut ih =>
    obtain ⟨left, rfl⟩ := Nat.exists_eq_succ_of_ne_zero (Nat.ne_zero_of_lt hcut)
    have hleft : left ≠ 0 := by omega
    refine (playRound_fails prompt round hl (by omega)).andThen fun turn s h => ?_
    obtain ⟨rfl, hturn⟩ := h
    cases turn with
    | returns result => exact absurd hturn id
    | stops l' => exact absurd (of_decide_eq_true hturn) hleft
    | goesOn l' =>
      have hpolls' : ({ t with polls := t.polls - 1 } : Trouble).polls = cut + 1 := by
        dsimp only
        omega
      refine (ih left (by omega) (round + 1) _ (hturn.2 hl) hpolls').mono fun end_ s h => ⟨?_, h.2⟩
      rw [h.1, fixesOf, if_neg (by simpa using hleft)]
      congr 1
      omega

/-! ## Loops of the world -/

/-- A loop in front of which no generation fails plays all its rounds. -/
theorem runDesignLoop_full (input : DesignLoopInput) (hpolls : t.polls = 0)
    (hfailures : input.seedCircuit = none → t.failures = 0) :
    (runDesignLoop world input).Returns (t, c) fun _ s =>
      ∃ t', t'.polls = 0 ∧ s = (t', c + mostRequests input) := by
  have hstart : (startLoop world input).Returns (t, c) fun _ s =>
      ∃ t', t'.polls = 0 ∧ s = (t', c + generations input) := by
    unfold startLoop firstDesign generations
    cases hseed : input.seedCircuit with
    | some circuit => exact Proc.returns_done ⟨t, hpolls, rfl⟩
    | none =>
      have hgenerate : world.generateCircuit input.prompt input.constraints (t, c) =
          (.ok (idleDesign t.designs), ({ t with designs := t.designs + 1 }, c + 1)) := by
        dsimp only
        rw [if_pos (hfailures hseed)]
      exact returns_outside hgenerate
        (Proc.returns_done ⟨{ t with designs := t.designs + 1 }, hpolls, rfl⟩)
  refine checkAbort_world (hstart.andThen ?_)
  rintro l s ⟨t', hpolls', rfl⟩
  refine (playRounds_full input.prompt (maxRounds input) 1 _ l hpolls').andThen ?_
  rintro end_ s ⟨rfl, l', rfl⟩
  refine Proc.returns_done ⟨t', hpolls', ?_⟩
  rw [Nat.add_assoc]
  rfl

/-- What a loop in this world has cost goes with its rounds. -/
theorem finalistLoop_rounds {input : DesignLoopInput} (hseed : input.seedCircuit.isSome = true)
    {k : Nat} (h : (finalistLoop world input).Returns (t, c) fun _ s =>
      ∃ t', t'.polls = 0 ∧ s = (t', c + k)) :
    (finalistLoop world input).Returns (t, c) fun result s =>
      (∃ t', t'.polls = 0 ∧ s = (t', c + k)) ∧ k + 1 = result.rounds := by
  have hpays := finalistLoop_pays (counts_counted stubborn) input hseed
  refine (h.pays hpays).mono ?_
  rintro result s ⟨⟨t', hpolls', rfl⟩, more, hmore, hrounds⟩
  have hk : k = more := Nat.add_left_cancel hmore
  exact ⟨⟨t', hpolls', rfl⟩, hk ▸ hrounds⟩

/-- The loop of a finalist plays all its rounds. -/
theorem finalistLoop_full (input : DesignLoopInput) (hseed : input.seedCircuit.isSome = true)
    (hpolls : t.polls = 0) :
    (finalistLoop world input).Returns (t, c) fun result s =>
      (∃ t', t'.polls = 0 ∧ s = (t', c + mostFixes input)) ∧
        mostFixes input + 1 = result.rounds := by
  have hnone : generations input = 0 := if_pos hseed
  have hloop : (runDesignLoop world input).Returns (t, c) fun _ s =>
      ∃ t', t'.polls = 0 ∧ s = (t', c + mostRequests input) :=
    runDesignLoop_full input hpolls fun h => by
      rw [h] at hseed
      cases hseed
  rw [mostRequests, hnone, Nat.zero_add] at hloop
  exact finalistLoop_rounds hseed hloop

/-- The loop of an idle finalist ends with the job that is cancelled. -/
theorem finalistLoop_cut (input : DesignLoopInput) {i : Nat}
    (hcircuit : input.seedCircuit = some (idle i))
    (hanalysis : input.seedAnalysisConfig = some (.op {}))
    (hcriteria : input.seedCriteria = some []) {cut : Nat} (hcut : cut < maxRounds input)
    (hpolls : t.polls = cut + 1) :
    (finalistLoop world input).Returns (t, c) fun result s =>
      (∃ t', t'.polls = 0 ∧ s = (t', c + cut)) ∧ cut + 1 = result.rounds := by
  have hstart : (startLoop world input).Returns (t, c) fun l s => s = (t, c) ∧ Idle l := by
    unfold startLoop firstDesign
    rw [hcircuit, hanalysis, hcriteria]
    exact Proc.returns_done ⟨rfl, ⟨i, attachGenericModels_idle i⟩, rfl, rfl, rfl⟩
  refine finalistLoop_rounds (by rw [hcircuit]; rfl) (checkAbort_world (hstart.andThen ?_))
  rintro l s ⟨rfl, hl⟩
  refine (playRounds_cut input.prompt cut (maxRounds input) hcut 1 c hl hpolls).andThen ?_
  rintro end_ s ⟨rfl, result, rfl⟩
  exact Proc.returns_done ⟨_, rfl, rfl⟩

/-! ## The finalists -/

/-- The loops of `j` finalists that are started within the budget are all paid. -/
theorem finalize_full (input : DesignLoopInput) (budget : Int) (finalists : List ScreenResult)
    (j : Nat) (hj : j ≤ finalists.length) (llmCalls : Int) (c : Nat)
    (hbudget : ∀ i < j, llmCalls + i * mostFixes input < budget) (hpolls : t.polls = 0) :
    (finalize world input budget finalists llmCalls).Returns (t, c) fun _ s =>
      c + j * mostFixes input ≤ s.2 := by
  induction finalists generalizing j llmCalls c t with
  | nil =>
    obtain rfl : j = 0 := Nat.le_zero.mp hj
    exact Proc.returns_done (by simp)
  | cons f finalists ih =>
    by_cases hspent : budget ≤ llmCalls
    · have hzero : j = 0 := by
        by_contra hne
        have := hbudget 0 (Nat.pos_of_ne_zero hne)
        simp at this
        omega
      subst hzero
      rw [finalize_of_spent input hspent]
      exact Proc.returns_done (by simp)
    · rw [finalize, if_neg hspent]
      refine (finalistLoop_full (seeded input f) rfl hpolls).andThen ?_
      rintro r s ⟨⟨t', hpolls', rfl⟩, hrounds⟩
      have hpaid : max 0 ((r.rounds : Int) - 1) = mostFixes input := by
        have hfixes : mostFixes (seeded input f) = mostFixes input := rfl
        omega
      rw [hpaid]
      have hrest : ∀ i < j - 1, llmCalls + mostFixes input + i * mostFixes input < budget := by
        intro i hi
        have hnext := hbudget (i + 1) (by omega)
        rw [Nat.cast_add, Nat.cast_one, Int.add_mul, Int.one_mul] at hnext
        omega
      rw [List.length_cons] at hj
      refine (ih (j - 1) (by omega) _ _ hrest hpolls').andThen fun rest s h => ?_
      refine Proc.returns_done (Nat.le_trans ?_ h)
      have hfixes : mostFixes (seeded input f) = mostFixes input := rfl
      rw [hfixes]
      cases j with
      | zero => omega
      | succ j =>
        rw [Nat.add_sub_cancel, Nat.succ_mul]
        omega

/-- The loops of `j` more finalists are paid after the first one, which is cut short. -/
theorem finalize_cut (input : DesignLoopInput) (budget : Int) {f : ScreenResult}
    (finalists : List ScreenResult) {i : Nat} (hcircuit : f.circuit = idle i)
    (hanalysis : f.analysisConfig = .op {}) (hcriteria : f.acceptanceCriteria = []) {cut : Nat}
    (hcut : cut < maxRounds input) (hpolls : t.polls = cut + 1) (j : Nat)
    (hj : j ≤ finalists.length) (llmCalls : Int) (c : Nat) (hspent : llmCalls < budget)
    (hbudget : ∀ i < j, llmCalls + cut + i * mostFixes input < budget) :
    (finalize world input budget (f :: finalists) llmCalls).Returns (t, c) fun _ s =>
      c + cut + j * mostFixes input ≤ s.2 := by
  rw [finalize, if_neg (not_le.mpr hspent)]
  have hloop := finalistLoop_cut (t := t) (c := c) (seeded input f) (congrArg some hcircuit)
    (congrArg some hanalysis) (congrArg some hcriteria) hcut hpolls
  refine hloop.andThen ?_
  rintro r s ⟨⟨t', hpolls', rfl⟩, hrounds⟩
  have hpaid : max 0 ((r.rounds : Int) - 1) = cut := by omega
  rw [hpaid]
  refine (finalize_full input budget finalists j hj _ _ hbudget hpolls').andThen fun rest s h => ?_
  exact Proc.returns_done h

/-! ## The screens -/

/-- Every screen fails. -/
theorem screenAll_fails (input : DesignLoopInput) (budget : Int) (directives : List Text)
    (llmCalls : Int) (hbudget : llmCalls + directives.length ≤ budget) (c : Nat)
    (hfailures : t.failures = directives.length) :
    (screenAll world input budget directives llmCalls).Returns (t, c) fun r s =>
      r.1 = [] ∧ ∃ t', t'.polls = t.polls ∧ t'.failures = 0 ∧ s = (t', c + directives.length) := by
  induction directives generalizing t llmCalls c with
  | nil => exact Proc.returns_done ⟨rfl, t, rfl, hfailures, rfl⟩
  | cons directive directives ih =>
    rw [List.length_cons] at hbudget hfailures
    push_cast at hbudget
    have hcall : ¬ budget ≤ llmCalls := by omega
    rw [screenAll, if_neg hcall]
    have hgenerate : world.generateCircuit (directed input directive).prompt
        (directed input directive).constraints (t, c) =
          (.error [], ({ t with failures := t.failures - 1 }, c + 1)) := by
      dsimp only
      rw [if_neg (by omega)]
    have hscreen : (screenCandidate world (directed input directive)).Throws (t, c) fun _ s =>
        s = ({ t with failures := t.failures - 1 }, c + 1) := by
      exact Proc.Throws.andThen (throws_outside hgenerate rfl) _
    refine Proc.Returns.andThen (Q := fun screened s => screened = none ∧
      s = ({ t with failures := t.failures - 1 }, c + 1)) ?_ ?_
    · refine (hscreen.andThen _).catching ?_
      rintro e s rfl
      exact Proc.returns_done ⟨rfl, rfl⟩
    · rintro screened s ⟨rfl, rfl⟩
      refine (ih (t := { t with failures := t.failures - 1 }) (llmCalls + 1) (by omega) (c + 1)
        (by dsimp only; omega)).andThen ?_
      rintro rest s ⟨hrest, t', hpolls', hfailures', rfl⟩
      refine Proc.returns_done ⟨hrest, t', hpolls', hfailures', ?_⟩
      rw [List.length_cons]
      congr 1
      omega

/-- What the screen of an idle design shows. -/
def Screened (i : Nat) (r : ScreenResult) : Prop :=
  r.circuit = idle i ∧ r.analysisConfig = .op {} ∧ r.acceptanceCriteria = []

theorem screenCandidate_world (input : DesignLoopInput) (hfailures : t.failures = 0) :
    (screenCandidate world input).Returns (t, c) fun r s =>
      Screened t.designs r ∧
        s = ({ t with polls := t.polls - 1, designs := t.designs + 1 }, c + 1) := by
  have hgenerate : world.generateCircuit input.prompt input.constraints (t, c) =
      (.ok (idleDesign t.designs), ({ t with designs := t.designs + 1 }, c + 1)) := by
    dsimp only
    rw [if_pos hfailures]
  refine returns_outside hgenerate ?_
  have hsimulate : (screenSimulate world (idle t.designs) (.op {}) []).Returns
      ({ t with designs := t.designs + 1 }, c + 1) fun _ s =>
        s = ({ t with polls := t.polls - 1, designs := t.designs + 1 }, c + 1) := by
    have hoptions : (if (currentProbesOf []).isEmpty then ({} : NetlistOptions)
        else { extraProbes := some (currentProbesOf []) }) = {} := rfl
    obtain ⟨netlist, hnetlist⟩ := generateNetlist_idle (world.clock (t, c)) t.designs
    refine Proc.returns_call_andThen rfl ?_
    dsimp only
    rw [hoptions, hnetlist]
    refine Proc.Returns.catching ?_ _
    refine returns_outside rfl (returns_outside rfl ?_)
    refine Proc.Returns.catching ?_ _
    exact returns_outside rfl (Proc.returns_done rfl)
  refine hsimulate.andThen ?_
  rintro evidence s rfl
  exact Proc.returns_done ⟨⟨rfl, rfl, rfl⟩, rfl⟩

/-- Every screen shows a design of its own topology. -/
theorem screenAll_world (input : DesignLoopInput) (budget : Int) (directives : List Text)
    (llmCalls : Int) (hbudget : llmCalls + directives.length ≤ budget) (c : Nat)
    (hfailures : t.failures = 0) :
    (screenAll world input budget directives llmCalls).Returns (t, c) fun r s =>
      (List.range' t.designs directives.length).Forall₂ Screened r.1 ∧
        r.2 = llmCalls + directives.length ∧
        s = ({ t with polls := t.polls - directives.length
                      designs := t.designs + directives.length }, c + directives.length) := by
  induction directives generalizing t llmCalls c with
  | nil => exact Proc.returns_done ⟨.nil, by simp, rfl⟩
  | cons directive directives ih =>
    rw [List.length_cons] at hbudget
    push_cast at hbudget
    have hcall : ¬ budget ≤ llmCalls := by omega
    rw [screenAll, if_neg hcall]
    have hscreen := screenCandidate_world (c := c) (directed input directive) hfailures
    refine Proc.Returns.andThen (Q := fun screened s => (∃ r, screened = some r ∧
      Screened t.designs r) ∧
        s = ({ t with polls := t.polls - 1, designs := t.designs + 1 }, c + 1)) ?_ ?_
    · refine (hscreen.andThen ?_).catching _
      rintro r s ⟨hr, rfl⟩
      exact Proc.returns_done ⟨⟨r, rfl, hr⟩, rfl⟩
    · rintro screened s ⟨⟨r, rfl, hr⟩, rfl⟩
      refine (ih (t := { t with polls := t.polls - 1, designs := t.designs + 1 })
        (llmCalls + 1) (by omega) (c + 1) hfailures).andThen ?_
      rintro rest s ⟨hrest, hcalls, rfl⟩
      refine Proc.returns_done ⟨.cons hr hrest, ?_, ?_⟩
      · rw [hcalls, List.length_cons]
        push_cast
        omega
      · rw [List.length_cons]
        congr 1
        · congr 1 <;> dsimp only <;> omega
        · omega

/-! ## The topologies -/

theorem topologyKey_idle (i : Nat) :
    topologyKey (idle i) = "generic".toList ++ '|' :: Nat.toDigits 10 (i + 1) := by
  have hnets : (idle i).nets.length = i + 1 := by
    rw [idle, List.length_map, List.length_range]
  rw [topologyKey, hnets]
  rfl

theorem topologyKey_idle_injective : Function.Injective fun i => topologyKey (idle i) := by
  intro i j h
  dsimp only at h
  rw [topologyKey_idle, topologyKey_idle] at h
  exact numbered_injective '|' (List.append_cancel_left h)

variable {screened : List ScreenResult} {n : Nat}

/-- The screens of the first `n` designs. -/
def AllScreened (n : Nat) (screened : List ScreenResult) : Prop :=
  (List.range' 0 n).Forall₂ Screened screened

theorem bestByTopology_screened (h : AllScreened n screened) :
    bestByTopology screened = screened.map fun r => (topologyKey r.circuit, r) := by
  refine bestByTopology_of_nodup ?_
  have hkeys : screened.map (fun r => topologyKey r.circuit) =
      (List.range' 0 n).map fun i => topologyKey (idle i) := by
    refine (List.forall₂_eq_eq_eq ▸ (List.forall₂_map_left_iff.mpr
      (List.forall₂_map_right_iff.mpr (h.imp fun i r hr => ?_)))).symm
    rw [hr.1]
  rw [hkeys]
  exact (show (List.range' 0 n).Nodup from List.nodup_range').map topologyKey_idle_injective

theorem length_finalists (h : AllScreened n screened) (k : Int) :
    (selectFinalists screened k).length = min (max 1 k).toNat n := by
  rw [length_selectFinalists, bestByTopology_screened h, List.length_map, ← h.length_eq,
    List.length_range']

theorem exists_screened (h : AllScreened n screened) {r : ScreenResult} (hr : r ∈ screened) :
    ∃ i, Screened i r := by
  unfold AllScreened at h
  generalize List.range' 0 n = designs at h
  induction h with
  | nil => exact absurd hr List.not_mem_nil
  | cons hi _ ih =>
    rcases List.mem_cons.mp hr with rfl | hr
    · exact ⟨_, hi⟩
    · exact ih hr

theorem screened_of_mem_finalists (h : AllScreened n screened) {k : Int} {r : ScreenResult}
    (hr : r ∈ selectFinalists screened k) : ∃ i, Screened i r := by
  obtain ⟨key, hbest⟩ := mem_of_mem_selectFinalists hr
  rw [bestByTopology_screened h] at hbest
  obtain ⟨r', hr', he⟩ := List.mem_map.mp hbest
  obtain ⟨-, rfl⟩ := Prod.mk.inj he
  exact exists_screened h hr'

/-! ## The runs -/

theorem conclude_world (llmCalls : Int) (first : DesignResult Unit)
    (rest : List (DesignResult Unit)) :
    (conclude world screened llmCalls first rest).Returns (t, c) fun _ s => s = (t, c) := by
  unfold conclude
  extract_lets finalized winner
  split
  · exact Proc.returns_call_andThen rfl (Proc.returns_done rfl)
  · exact (Proc.returns_done (Q := fun _ s => s = (t, c)) rfl).andThen fun _ s hs => by
      obtain rfl := hs
      exact Proc.returns_done rfl

/-- What the loops of the finalists have issued, the run has. -/
theorem finish_world {input : DesignLoopInput} {budget k llmCalls : Int} {total : Nat}
    (hne : screened ≠ []) (hcalls : llmCalls < budget)
    (h : (finalize world input budget (selectFinalists screened k) llmCalls).Returns (t, c)
      fun _ s => total ≤ s.2) :
    (finish world input budget k screened llmCalls).Returns (t, c) fun _ s => total ≤ s.2 := by
  have hpays := finalize_pays (counts_counted stubborn) input (selectFinalists screened k) hcalls
  refine (h.pays hpays).andThen ?_
  rintro ⟨finalized, calls⟩ ⟨t', c'⟩ ⟨hc, more, -, -, hnil⟩
  cases finalized with
  | nil => exact absurd (hnil rfl) (selectFinalists_ne_nil hne k)
  | cons first rest =>
    refine (conclude_world calls first rest).mono ?_
    rintro result s rfl
    exact hc

/-- Every screen fails, and the loop that is fallen back to plays all its rounds. -/
theorem run_fails (input : DesignLoopInput) {opts : MultiCandidateOptions} (hn : 2 ≤ opts.n) :
    (runMultiCandidateDesign world input opts).Returns
      ({ failures := (candidateCount opts).toNat }, 0) fun _ s =>
        (s.2 : Int) = candidateCount opts + mostRequests input := by
  have hlength := length_candidateDirectives opts
  rw [runMultiCandidateDesign_of_two_le hn]
  have hscreens := screenAll_fails (t := { failures := (candidateCount opts).toNat }) input
    (max (candidateCount opts) opts.llmBudget) (candidateDirectives (candidateCount opts)) 0
    (by omega) 0 (by dsimp only; omega)
  refine hscreens.andThen ?_
  rintro ⟨screened, calls⟩ s ⟨rfl, t', hpolls', hfailures', rfl⟩
  refine (runDesignLoop_full input hpolls' fun _ => hfailures').andThen ?_
  rintro result s ⟨t'', -, rfl⟩
  refine Proc.returns_done ?_
  push_cast
  omega

/-- Every design is screened, and the finalists are run from there. -/
theorem run_screened (input : DesignLoopInput) {opts : MultiCandidateOptions} (hn : 2 ≤ opts.n)
    (hbudget : candidateCount opts < opts.llmBudget) (polls total : Nat)
    (h : ∀ screened, AllScreened (candidateCount opts).toNat screened → ∀ t : Trouble,
      t.polls = polls →
        (finalize world input opts.llmBudget (selectFinalists screened opts.k)
          (candidateCount opts)).Returns (t, (candidateCount opts).toNat) fun _ s =>
            total ≤ s.2) :
    (runMultiCandidateDesign world input opts).Returns
      ({ polls := (candidateCount opts).toNat + polls }, 0) fun _ s => total ≤ s.2 := by
  have hlength := length_candidateDirectives opts
  have hmax : max (candidateCount opts) opts.llmBudget = opts.llmBudget := max_eq_right hbudget.le
  rw [runMultiCandidateDesign_of_two_le hn, hmax]
  have hscreens := screenAll_world
    (t := { polls := (candidateCount opts).toNat + polls }) input opts.llmBudget
    (candidateDirectives (candidateCount opts)) 0 (by omega) 0 rfl
  refine hscreens.andThen ?_
  rintro ⟨screened, calls⟩ s ⟨hscreened, hcalls, rfl⟩
  have hdirectives : (candidateDirectives (candidateCount opts)).length =
      (candidateCount opts).toNat := by omega
  have hcount : 2 ≤ candidateCount opts := by
    unfold candidateCount maxCandidates
    omega
  rw [hdirectives] at hscreened hcalls ⊢
  have hne : screened ≠ [] := by
    rintro rfl
    have hnone := hscreened.length_eq
    rw [List.length_range', List.length_nil] at hnone
    omega
  have hcalls' : calls = candidateCount opts := by
    dsimp only at hcalls
    omega
  subst hcalls'
  dsimp only
  rw [if_neg (by simpa using hne), Nat.zero_add]
  refine finish_world hne hbudget (h screened hscreened _ ?_)
  dsimp only
  omega

/-! ## The ceiling -/

theorem issued_world {input : DesignLoopInput} {opts : MultiCandidateOptions} {P : Nat → Prop}
    (h : (runMultiCandidateDesign world input opts).Returns (t, 0) fun _ s => P s.2) :
    P (issued stubborn input opts t) := by
  obtain ⟨result, s, log, hrun, hP⟩ := h []
  have hissued : issued stubborn input opts t = s.2 := by
    rw [issued, countedRun, hrun]
  exact hissued ▸ hP

omit [Runtime] in
theorem candidateCount_eq (opts : MultiCandidateOptions) :
    ((candidateCount opts).toNat : Int) = candidateCount opts := by
  unfold candidateCount maxCandidates
  omega

/-- Where the last finalist is started within the budget, all of them are paid. -/
theorem issued_full (input : DesignLoopInput) {opts : MultiCandidateOptions} (hn : 2 ≤ opts.n)
    (hbudget : candidateCount opts < opts.llmBudget)
    (hall : candidateCount opts + (mostFinalists opts - 1 : Nat) * mostFixes input <
      opts.llmBudget) :
    ∃ t : Trouble, candidateCount opts + mostFinalists opts * mostFixes input ≤
      issued stubborn input opts t := by
  have hcount := candidateCount_eq opts
  have hrun := run_screened input hn hbudget 0
    ((candidateCount opts).toNat + mostFinalists opts * mostFixes input) ?_
  · have hissued := issued_world (P := fun k => _ ≤ k) hrun
    refine ⟨{ polls := (candidateCount opts).toNat + 0 }, ?_⟩
    rw [← hcount]
    exact_mod_cast hissued
  · intro screened hscreened t hpolls
    refine finalize_full input _ _ (mostFinalists opts) ?_ _ _ (fun i hi => ?_) hpolls
    · rw [length_finalists hscreened]
      rfl
    · have hle : i * mostFixes input ≤ (mostFinalists opts - 1) * mostFixes input :=
        Nat.mul_le_mul_right _ (by omega)
      zify at hle
      omega

/-- Where a finalist more than those that are paid in full is left, the first is cut short such
that the last one starts with a single request left. -/
theorem issued_cut (input : DesignLoopInput) {opts : MultiCandidateOptions} (hn : 2 ≤ opts.n)
    {cut paid : Nat} (hcut : cut < mostFixes input) (hpaid : paid + 2 ≤ mostFinalists opts)
    (hbudget : candidateCount opts + cut + paid * mostFixes input = opts.llmBudget - 1) :
    ∃ t : Trouble, opts.llmBudget - 1 + mostFixes input ≤ issued stubborn input opts t := by
  have hcount := candidateCount_eq opts
  have hfixes : (0 : Int) ≤ paid * mostFixes input := by positivity
  have hrun := run_screened input hn (by omega) (cut + 1)
    ((candidateCount opts).toNat + cut + (paid + 1) * mostFixes input) ?_
  · have hissued := issued_world (P := fun k => _ ≤ k) hrun
    refine ⟨{ polls := (candidateCount opts).toNat + (cut + 1) }, ?_⟩
    rw [Nat.add_mul, Nat.one_mul] at hissued
    zify at hissued
    omega
  · intro screened hscreened t hpolls
    have hlength := length_finalists hscreened opts.k
    rw [show min (max 1 opts.k).toNat (candidateCount opts).toNat = mostFinalists opts from rfl]
      at hlength
    obtain ⟨f, finalists, hf⟩ := List.exists_cons_of_length_pos
      (l := selectFinalists screened opts.k) (by omega)
    obtain ⟨i, hi⟩ := screened_of_mem_finalists hscreened (hf ▸ List.mem_cons_self)
    rw [hf] at hlength ⊢
    rw [List.length_cons] at hlength
    refine finalize_cut input _ finalists hi.1 hi.2.1 hi.2.2 ?_ hpolls (paid + 1)
      (by omega) _ _ (by omega) fun i hi => ?_
    · rw [mostFixes] at hcut
      omega
    · have hle : i * mostFixes input ≤ paid * mostFixes input :=
        Nat.mul_le_mul_right _ (by omega)
      zify at hle
      omega

/-- The requests that a run reports are those it issued; and they stay below the ceiling in every
world just where the options allow for it. -/
theorem issued_le_ceiling_iff (input : DesignLoopInput) {opts : MultiCandidateOptions}
    (hn : 2 ≤ opts.n) :
    (∀ (deps : DesignDeps) (w : deps.World), ReportsIssued deps input opts w) ∧
      ((∀ (deps : DesignDeps) (w : deps.World), issued deps input opts w ≤ ceiling opts) ↔
        Affordable input opts) := by
  refine ⟨fun deps w => reports_issued input hn w, fun h => ⟨?_, fun hbudget => ?_⟩,
    fun hafford deps w => issued_le_ceiling hn hafford w⟩
  · have hissued := issued_world (P := fun k => (k : Int) = _) (run_fails input hn)
    have hkept := h stubborn { failures := (candidateCount opts).toNat }
    rw [hissued] at hkept
    exact hkept
  · -- the finalists are all paid in full, or the budget is used up to its last request
    by_cases hall : candidateCount opts + (mostFinalists opts - 1 : Nat) * mostFixes input <
        opts.llmBudget
    · obtain ⟨t, ht⟩ := issued_full input hn hbudget hall
      exact Or.inl (ht.trans (h stubborn t))
    · obtain ⟨left, hleft⟩ := Int.eq_ofNat_of_zero_le
        (show 0 ≤ opts.llmBudget - 1 - candidateCount opts by omega)
      have hmany : left < (mostFinalists opts - 1) * mostFixes input := by
        zify
        omega
      have hfixes : 0 < mostFixes input := by
        by_contra hzero
        rw [Nat.eq_zero_of_not_pos hzero] at hmany
        omega
      have hpaid : left / mostFixes input < mostFinalists opts - 1 :=
        (Nat.div_lt_iff_lt_mul hfixes).mpr hmany
      have hcut := Nat.mod_lt left hfixes
      have hsplit := Nat.mod_add_div' left (mostFixes input)
      generalize left / mostFixes input = paid at hpaid hsplit
      generalize left % mostFixes input = cut at hcut hsplit
      zify at hsplit
      obtain ⟨t, ht⟩ := issued_cut input hn hcut (show paid + 2 ≤ mostFinalists opts by omega)
        (by omega)
      exact Or.inr (ht.trans (h stubborn t))

end

/-! ## A budget of two requests -/

/-- Two candidates, and two requests. -/
def pair : MultiCandidateOptions := ⟨2, 1, 2⟩

/-- Two candidates, and eight requests. -/
def roomy : MultiCandidateOptions := ⟨2, 1, 8⟩

def request : DesignLoopInput := { prompt := "a divider".toList }

theorem issued_le_ceiling_roomy :
    (∀ (deps : DesignDeps) (w : deps.World), ReportsIssued deps request roomy w) ∧
      ∀ (deps : DesignDeps) (w : deps.World), issued deps request roomy w ≤ ceiling roomy := by
  have h := issued_le_ceiling_iff request (show 2 ≤ roomy.n by decide)
  exact ⟨h.1, h.2.mpr (by decide)⟩

/-- The screens use the budget up; the loop of the better candidate asks for a fix. -/
theorem issued_above_ceiling :
    ¬ ∀ (deps : DesignDeps) (w : deps.World), issued deps request pair w ≤ ceiling pair :=
  fun h => absurd (h stubborn {}) (by decide +kernel)

end CircuitForge.Design
