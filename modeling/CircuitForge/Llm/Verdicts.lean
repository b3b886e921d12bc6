/-
What a verdict of the design loop rests on.

Criteria are only ever added, and a verified design is backed by the trial of its last round.  The
verdicts of a design whose rounds are used up are those of the last trial, which may have been of
an earlier circuit.
-/
import CircuitForge.Js.Outcome
import CircuitForge.Llm.DesignLoop

namespace CircuitForge.Design

open Js Effects

section

variable [Runtime]

/-! ## What a run promises -/

/-- The criteria of the rounds. -/
def roundCriteria (log : List Event) : List (List AcceptanceCriterion) :=
  log.filterMap fun
    | .round criteria => some criteria
    | _ => none

/-- No round drops or changes a criterion of an earlier one. -/
def CriteriaKept (log : List Event) : Prop := (roundCriteria log).Pairwise (· <+: ·)

/-- The circuit passed the rule check, its deck was generated and ran, and the verdicts are those
of its criteria on its measurements. -/
structure Trial.Sound (t : Trial) : Prop where
  clean : ercErrors t.circuit = []
  netlisted : ∃ now options, generateNetlist now t.circuit t.analysis options = .ok t.netlist
  healthy : isHealthy t.status t.pointsCount = true
  judged : t.assertions = evaluateAssertions t.measurements t.criteria true (.circuit t.circuit)

variable {Report : Type}

/-- A verified design is that of the last trial: it has criteria, they all passed, and they cover
what the prompt requires. -/
def Earned (prompt : Text) (log : List Event) (result : DesignResult Report) : Prop :=
  result.ok = true → result.verified = true →
    ∃ t, log.getLast? = some (.trial t) ∧ t.Sound ∧ result.circuit = t.circuit ∧
      result.analysisConfig = t.analysis ∧ t.criteria ≠ [] ∧
      result.acceptanceCriteria = some t.criteria ∧ result.assertions = some t.assertions ∧
      (∀ a ∈ t.assertions, a.pass = true) ∧
      ∀ d ∈ requiredDimensions prompt, ∃ c ∈ t.criteria, criterionDimension c = d

/-- The verdicts of a result come from a trial of its circuit under its analysis. -/
def Backed (log : List Event) (result : DesignResult Report) : Prop :=
  ∀ assertions, result.assertions = some assertions → assertions ≠ [] →
    ∃ t, .trial t ∈ log ∧ t.Sound ∧ t.circuit = result.circuit ∧
      t.analysis = result.analysisConfig ∧ t.assertions = assertions

/-- The last round ends without a trial, after an earlier one had one. -/
def Stale (log : List Event) : Prop := log.getLast? = some .skipped ∧ ∃ t, .trial t ∈ log

/-! ## Merging -/

theorem mergeCriteria_keeps (original fixReturned : List AcceptanceCriterion)
    (required : List SpecDimension) : original <+: mergeCriteria original fixReturned required := by
  unfold mergeCriteria
  split
  · exact List.prefix_refl _
  · extract_lets covered
    split
    · exact List.prefix_refl _
    · exact List.prefix_append _ _

/-! ## One round -/

/-- The variables that the next round takes over. -/
structure Follows (l l' : Loop) : Prop where
  criteria : l.criteria <+: l'.criteria
  assertions : l'.lastAssertions = l.lastAssertions

/-- The variables that a round without a fix leaves alone. -/
structure Keeps (l l' : Loop) : Prop where
  circuit : l'.circuit = l.circuit
  analysis : l'.analysis = l.analysis
  criteria : l'.criteria = l.criteria
  assertions : l'.lastAssertions = l.lastAssertions

theorem keeps_record (l : Loop) (round : Nat) (status : RoundStatus) (pointsCount : Runtime.Num)
    (jobId : Option Text) : Keeps l (l.record round status pointsCount jobId) :=
  ⟨rfl, rfl, rfl, rfl⟩

/-- A result without verdicts. -/
def Open (result : DesignResult Report) : Prop := result.ok = false ∧ result.assertions = none

/-- A result that succeeded with the variables `l`. -/
structure Passed (prompt : Text) (l : Loop) (result : DesignResult Report) : Prop where
  circuit : result.circuit = l.circuit
  analysis : result.analysisConfig = l.analysis
  criteria : result.acceptanceCriteria = some l.criteria
  assertions : result.assertions = some l.lastAssertions
  verified : result.verified = !l.criteria.isEmpty
  pass : ∀ a ∈ l.lastAssertions, a.pass = true
  covered : ∀ d ∈ requiredDimensions prompt, ∃ c ∈ l.criteria, criterionDimension c = d

/-- What a round adds behind its criteria, and the variables its end is reached with. -/
inductive Judged (l : Loop) : List Event → Loop → Prop
  | none : Judged l [] l
  | skipped : Judged l [.skipped] l
  | trial (t : Trial) (sound : t.Sound) (circuit : t.circuit = l.circuit)
      (analysis : t.analysis = l.analysis) (criteria : t.criteria = l.criteria)
      (asked : l.criteria ≠ []) : Judged l [.trial t] { l with lastAssertions := t.assertions }

variable {deps : DesignDeps}

/-- The end of a round that added `rest` behind its criteria. -/
def Turned (prompt : Text) (isLast : Bool) (rest : List Event) (l : Loop) : Turn deps → Prop
  | .returns result => Open result ∨
      (Passed prompt l result ∧ rest ≠ [.skipped] ∧ (rest = [] → l.criteria = []))
  | .stops l' => Keeps l l' ∧ (rest = [] → l.criteria = [])
  | .goesOn l' => isLast = false ∧ Follows l l'

/-- A round is cancelled before it begins, or adds its criteria and a verdict. -/
def Played (prompt : Text) (isLast : Bool) (l : Loop) (new : List Event)
    (r : Except Thrown (Turn deps)) : Prop :=
  (new = [] ∧ ∃ e, r = .error e) ∨
    ∃ rest l', new = .round l.criteria :: rest ∧ Judged l rest l' ∧
      ∀ turn, r = .ok turn → Turned prompt isLast rest l' turn

theorem outside_silent {α : Type} (f : deps.World → Except Text α × deps.World) :
    (outside f : Run deps α).Silent fun _ => True :=
  Proc.silent_call fun _ _ _ => trivial

theorem checkAbort_silent : (checkAbort deps).Silent fun _ => True := by
  refine (outside_silent _).andThen fun aborted _ => ?_
  split
  · exact Proc.silent_throw
  · exact Proc.silent_done trivial

theorem enrich_silent (circuit : CircuitJson) : (enrich deps circuit).Silent fun _ => True := by
  unfold enrich
  split
  · exact outside_silent _
  · exact Proc.silent_done trivial

theorem applyFix_silent (l : Loop) (problem : Problem) :
    (applyFix deps l problem).Silent fun _ => True :=
  (outside_silent _).andThen fun _ _ => Proc.silent_done trivial

theorem fixDesign_silent (prompt : Text) (l : Loop) (problem : Problem) :
    (fixDesign deps prompt l problem).Silent (Follows l) := by
  refine checkAbort_silent.andThen fun _ _ => (applyFix_silent _ _).andThen fun fixed _ => ?_
  exact Proc.silent_done ⟨mergeCriteria_keeps _ _ _, rfl⟩

theorem fixDeck_silent (l : Loop) (problem : Problem) :
    (fixDeck deps l problem).Silent (Follows l) :=
  (applyFix_silent _ _).andThen fun _ _ => Proc.silent_done ⟨List.prefix_refl _, rfl⟩

variable {prompt : Text} {isLast : Bool} {rest : List Event} {l : Loop}

theorem inconclusive_silent (recorded : Loop) :
    (inconclusive deps recorded).Silent (Turned prompt isLast rest l) :=
  (enrich_silent _).andThen fun _ _ => Proc.silent_done (Or.inl ⟨rfl, rfl⟩)

theorem goOn_silent {recorded : Loop} (hkeeps : Keeps l recorded)
    (hrest : rest = [] → l.criteria = []) {fix : Run deps Loop}
    (hfix : fix.Silent (Follows recorded)) :
    (goOn deps recorded isLast fix).Silent (Turned prompt isLast rest l) := by
  unfold goOn
  split
  · exact Proc.silent_done ⟨hkeeps, hrest⟩
  · rename_i hlast
    refine hfix.andThen fun l' hl' => Proc.silent_done ⟨Bool.eq_false_iff.mpr hlast, ?_, ?_⟩
    · rw [← hkeeps.criteria]
      exact hl'.criteria
    · rw [hl'.assertions, hkeeps.assertions]

theorem settle_silent {round : Nat} {jobId : Text} {status : JobStatus} {result : JobResult}
    (hhealthy : isHealthy status.status (pointsCountOf status result) = true → rest ≠ [.skipped])
    (hrest : rest = [] → l.criteria = []) :
    (settle deps prompt round isLast l jobId status result).Silent
      (Turned prompt isLast rest l) := by
  unfold settle
  extract_lets pointsCount healthy specsMet uncovered recorded
  split
  · rename_i hpassed
    simp only [Bool.and_eq_true, List.isEmpty_iff] at hpassed
    obtain ⟨⟨hrun, hpass⟩, huncovered⟩ := hpassed
    refine (enrich_silent _).andThen fun _ _ => ?_
    refine Proc.Silent.andThen (P := fun _ => True) (Proc.silent_call fun _ _ _ => trivial)
      fun report _ => Proc.silent_done (Or.inr ⟨?_, hhealthy hrun, hrest⟩)
    have hnone : uncoveredRequiredDimensions prompt l.criteria = [] := by
      simpa only [uncovered, hrun, hpass, Bool.and_self, if_true] using huncovered
    exact ⟨rfl, rfl, rfl, rfl, rfl, List.all_eq_true.mp hpass,
      fun d hd => covered_of_uncovered_nil hnone hd⟩
  · exact goOn_silent (keeps_record _ _ _ _ _) hrest (fixDesign_silent _ _ _)

theorem simulate_silent (l : Loop) (netlist : Text) :
    (simulate deps l netlist).Silent fun _ => True := by
  refine Proc.Silent.catching ?_ fun e => ?_
  · refine (outside_silent _).andThen fun jobId _ => (outside_silent _).andThen fun status _ => ?_
    split
    · exact Proc.silent_done trivial
    · exact (outside_silent _).andThen fun _ _ => Proc.silent_done trivial
  · split
    · split
      · exact Proc.silent_throw
      · exact Proc.silent_done trivial
    · exact Proc.silent_throw

/-- The part of a round behind its criteria. -/
def Ended (prompt : Text) (isLast : Bool) (l : Loop) (rest : List Event)
    (r : Except Thrown (Turn deps)) : Prop :=
  ∃ l', Judged l rest l' ∧ ∀ turn, r = .ok turn → Turned prompt isLast rest l' turn

theorem ended_error (e : Thrown) : Ended prompt isLast l [] (.error e : Except _ (Turn deps)) :=
  ⟨l, Judged.none, fun _ h => nomatch h⟩

/-- What adds nothing ends the round with what was added before. -/
theorem ended_of_silent {m : Run deps (Turn deps)} {l' : Loop} (hjudged : Judged l rest l')
    (h : m.Silent (Turned prompt isLast rest l')) :
    m.Adds fun more r => Ended prompt isLast l (rest ++ more) r :=
  Proc.Adds.mono h fun more r hr => by
    rw [hr.1, List.append_nil]
    exact ⟨l', hjudged, hr.2⟩

/-- An event is noted, and then nothing is added. -/
theorem ended_note {m : Run deps (Turn deps)} {event : Event} {l' : Loop}
    (hjudged : Judged l [event] l') (h : m.Silent (Turned prompt isLast [event] l')) :
    (Proc.note event >>= fun _ => m).Adds (Ended prompt isLast l) := by
  have hnote : (Proc.note event : Run deps Unit).Adds fun new r => new = [event] ∧ r = .ok () :=
    Proc.adds_note ⟨rfl, rfl⟩
  refine hnote.andThen (fun _ _ hr => nomatch hr.2) fun new _ hr => ?_
  rw [hr.1]
  exact ended_of_silent hjudged h

/-- A round is left without a trial. -/
theorem ended_skip {recorded : Loop} (hkeeps : Keeps l recorded) {fix : Run deps Loop}
    (hfix : fix.Silent (Follows recorded)) :
    (Proc.note .skipped >>= fun _ => goOn deps recorded isLast fix).Adds
      (Ended prompt isLast l) :=
  ended_note .skipped (goOn_silent hkeeps (fun h => absurd h (List.cons_ne_nil _ _)) hfix)

theorem judgeRun_adds {round : Nat} {netlist jobId : Text} {status : JobStatus}
    {result : JobResult} {now : Timestamp} {options : NetlistOptions}
    (hclean : ercErrors l.circuit = [])
    (hdeck : generateNetlist now l.circuit l.analysis options = .ok netlist) :
    (judgeRun deps prompt round isLast l netlist jobId status result).Adds
      (Ended prompt isLast l) := by
  unfold judgeRun
  extract_lets pointsCount
  split
  · exact ended_of_silent .none (inconclusive_silent _)
  · split
    · rename_i hhealthy
      split
      · rename_i hnone
        exact ended_of_silent .none
          (settle_silent (fun _ => nofun) fun _ => List.isEmpty_iff.mp hnone)
      · rename_i hasked
        split
        · exact ended_of_silent .none (inconclusive_silent _)
        · -- The verdicts are those of this circuit, which has a deck and ran.
          refine ended_note (.trial _ ⟨hclean, ⟨now, options, hdeck⟩, hhealthy, rfl⟩ rfl rfl rfl
            fun h => hasked (List.isEmpty_iff.mpr h)) ?_
          exact settle_silent (fun _ => nofun) nofun
    · rename_i hsick
      exact ended_note .skipped (settle_silent (fun h => absurd h hsick) nofun)

theorem playRound_adds (prompt : Text) (round : Nat) (isLast : Bool) (l : Loop) :
    (playRound deps prompt round isLast l).Adds (Played prompt isLast l) := by
  refine checkAbort_silent.before (fun e => Or.inl ⟨rfl, e, rfl⟩) fun _ _ => ?_
  have hnote : (Proc.note (.round l.criteria) : Run deps Unit).Adds
      fun new r => new = [.round l.criteria] ∧ r = .ok () := Proc.adds_note ⟨rfl, rfl⟩
  refine hnote.andThen (fun _ _ hr => nomatch hr.2) fun new _ hr => ?_
  rw [hr.1]
  suffices h : ∀ m : Run deps (Turn deps), m.Adds (Ended prompt isLast l) →
      m.Adds fun more r => Played prompt isLast l ([.round l.criteria] ++ more) r by
    refine h _ ?_
    split
    · exact ended_skip (keeps_record _ _ _ _ _) (fixDesign_silent _ _ _)
    · rename_i hclean
      have hclean : ercErrors l.circuit = [] := by simpa using hclean
      refine Proc.Silent.before (P := fun _ => True) (Proc.silent_call fun _ _ _ => trivial)
        (fun e => ended_error e) fun now _ => ?_
      split
      · exact ended_skip (keeps_record _ _ _ _ _) (fixDeck_silent _ _)
      · rename_i netlist hdeck
        refine (simulate_silent _ _).before (fun e => ended_error e) fun simulated _ => ?_
        match simulated with
        | .unavailable jobId status => exact ended_of_silent .none (inconclusive_silent _)
        | .down => exact ended_of_silent .none (inconclusive_silent _)
        | .ran jobId status result => exact judgeRun_adds hclean hdeck
  intro m hm
  refine hm.mono fun more r hr => ?_
  obtain ⟨l', hjudged, hturned⟩ := hr
  exact Or.inr ⟨more, l', rfl, hjudged, hturned⟩

/-! ## The rounds -/

/-- Verdicts are there only where criteria are. -/
def Asked (l : Loop) : Prop := l.criteria = [] → l.lastAssertions = []

theorem roundCriteria_append (a b : List Event) :
    roundCriteria (a ++ b) = roundCriteria a ++ roundCriteria b := List.filterMap_append

theorem Judged.roundCriteria_eq {l' : Loop} (h : Judged l rest l') : roundCriteria rest = [] := by
  cases h <;> rfl

theorem Judged.criteria_eq {l' : Loop} (h : Judged l rest l') : l'.criteria = l.criteria := by
  cases h <;> rfl

theorem Judged.sound_of_mem {l' : Loop} (h : Judged l rest l') {t : Trial}
    (ht : .trial t ∈ rest) : t.Sound := by
  cases h with
  | none => exact absurd ht List.not_mem_nil
  | skipped => exact nomatch List.mem_singleton.mp ht
  | trial t' sound =>
    obtain rfl := Event.trial.inj (List.mem_singleton.mp ht)
    exact sound

theorem Judged.asked {l' : Loop} (h : Judged l rest l') (hasked : Asked l) : Asked l' := by
  cases h with
  | none => exact hasked
  | skipped => exact hasked
  | trial t sound circuit analysis criteria asked => exact fun hnone => absurd hnone asked

/-- The verdicts that are carried on are those from before, or of a trial. -/
theorem Judged.assertions {l' : Loop} (h : Judged l rest l') :
    l'.lastAssertions = l.lastAssertions ∨ ∃ t, .trial t ∈ rest := by
  cases h with
  | none => exact Or.inl rfl
  | skipped => exact Or.inl rfl
  | trial t => exact Or.inr ⟨t, List.mem_singleton.mpr rfl⟩

/-- What the variables hold when the rounds are used up. -/
def Used (l : Loop) (new : List Event) (l' : Loop) : Prop :=
  l'.lastAssertions = [] ∨
    (new.getLast? = some .skipped ∧
      (l'.lastAssertions = l.lastAssertions ∨ ∃ t, .trial t ∈ new)) ∨
    ∃ t, new.getLast? = some (.trial t) ∧ t.circuit = l'.circuit ∧ t.analysis = l'.analysis ∧
      t.assertions = l'.lastAssertions

/-- What the rounds from `l` on add. -/
structure Rounds (prompt : Text) (l : Loop) (new : List Event)
    (r : Except Thrown (DesignResult deps.Report ⊕ Loop)) : Prop where
  kept : CriteriaKept new
  grown : ∀ criteria ∈ roundCriteria new, l.criteria <+: criteria
  sound : ∀ t, .trial t ∈ new → t.Sound
  result : ∀ result, r = .ok (.inl result) → Earned prompt new result ∧ Backed new result
  used : ∀ l', r = .ok (.inr l') → Used l new l'

theorem earned_append {log new : List Event} {result : DesignResult Report}
    (h : Earned prompt new result) : Earned prompt (log ++ new) result := by
  intro hok hverified
  obtain ⟨t, hlast, ht⟩ := h hok hverified
  refine ⟨t, ?_, ht⟩
  rw [List.getLast?_append, hlast, Option.some_or]

theorem backed_append {log new : List Event} {result : DesignResult Report}
    (h : Backed new result) : Backed (log ++ new) result := by
  intro assertions hassertions hne
  obtain ⟨t, hmem, ht⟩ := h assertions hassertions hne
  exact ⟨t, List.mem_append_right _ hmem, ht⟩

/-- The first round, and nothing behind it. -/
theorem rounds_single {l' : Loop} (hjudged : Judged l rest l')
    {r : Except Thrown (DesignResult deps.Report ⊕ Loop)}
    (hresult : ∀ result, r = .ok (.inl result) →
      Earned prompt (.round l.criteria :: rest) result ∧
        Backed (.round l.criteria :: rest) result)
    (hused : ∀ l', r = .ok (.inr l') → Used l (.round l.criteria :: rest) l') :
    Rounds prompt l (.round l.criteria :: rest) r where
  kept := by
    change (l.criteria :: roundCriteria rest).Pairwise (· <+: ·)
    rw [hjudged.roundCriteria_eq]
    exact List.pairwise_singleton _ _
  grown criteria hmem := by
    change criteria ∈ l.criteria :: roundCriteria rest at hmem
    rw [hjudged.roundCriteria_eq, List.mem_singleton] at hmem
    rw [hmem]
  sound t ht := hjudged.sound_of_mem ((List.mem_cons.mp ht).resolve_left nofun)
  result := hresult
  used := hused

/-- A result that is returned at the end of a round. -/
theorem returned_spec {l' : Loop} {result : DesignResult deps.Report} (hasked : Asked l)
    (hjudged : Judged l rest l') (h : Turned prompt isLast rest l' (.returns result)) :
    Earned prompt (.round l.criteria :: rest) result ∧
      Backed (.round l.criteria :: rest) result := by
  rcases h with hopen | ⟨hpassed, hskipped, hnone⟩
  · refine ⟨fun hok => ?_, fun assertions hassertions => ?_⟩
    · rw [hopen.1] at hok
      exact nomatch hok
    · rw [hopen.2] at hassertions
      exact nomatch hassertions
  · cases hjudged with
    | skipped => exact absurd rfl hskipped
    | none =>
      have hcriteria := hnone rfl
      refine ⟨fun _ hverified => ?_, fun assertions hassertions hne => ?_⟩
      · rw [hpassed.verified, hcriteria] at hverified
        exact nomatch hverified
      · rw [hpassed.assertions, hasked hcriteria] at hassertions
        exact absurd (Option.some.inj hassertions).symm hne
    | trial t sound circuit analysis criteria asked =>
      have hcircuit := hpassed.circuit.trans circuit.symm
      have hanalysis := hpassed.analysis.trans analysis.symm
      refine ⟨fun _ _ => ⟨t, rfl, sound, hcircuit, hanalysis, criteria ▸ asked, ?_,
        hpassed.assertions, hpassed.pass, ?_⟩, fun assertions hassertions _ => ?_⟩
      · rw [criteria]
        exact hpassed.criteria
      · rw [criteria]
        exact hpassed.covered
      · rw [hpassed.assertions] at hassertions
        exact ⟨t, List.mem_cons_of_mem _ (List.mem_singleton.mpr rfl), sound, hcircuit.symm,
          hanalysis.symm, Option.some.inj hassertions⟩

/-- The variables when a round is the last. -/
theorem stopped_spec {l' stopped : Loop} (hasked : Asked l) (hjudged : Judged l rest l')
    (hkeeps : Keeps l' stopped) (hnone : rest = [] → l'.criteria = []) :
    Used l (.round l.criteria :: rest) stopped := by
  cases hjudged with
  | none =>
    refine Or.inl ?_
    rw [hkeeps.assertions]
    exact hasked (hnone rfl)
  | skipped => exact Or.inr (Or.inl ⟨rfl, Or.inl hkeeps.assertions⟩)
  | trial t sound circuit analysis =>
    exact Or.inr (Or.inr ⟨t, rfl, circuit.trans hkeeps.circuit.symm,
      analysis.trans hkeeps.analysis.symm, hkeeps.assertions.symm⟩)

/-- A round in front of the others. -/
theorem rounds_cons {l' next : Loop} (hjudged : Judged l rest l') (hfollows : Follows l' next)
    {more : List Event} {r : Except Thrown (DesignResult deps.Report ⊕ Loop)}
    (h : Rounds prompt next more r) :
    Rounds prompt l (.round l.criteria :: rest ++ more) r where
  kept := by
    have hgrown : l.criteria <+: next.criteria := hjudged.criteria_eq ▸ hfollows.criteria
    change (l.criteria :: roundCriteria (rest ++ more)).Pairwise (· <+: ·)
    rw [roundCriteria_append, hjudged.roundCriteria_eq, List.nil_append, List.pairwise_cons]
    exact ⟨fun criteria hmem => hgrown.trans (h.grown criteria hmem), h.kept⟩
  grown criteria hmem := by
    have hgrown : l.criteria <+: next.criteria := hjudged.criteria_eq ▸ hfollows.criteria
    change criteria ∈ l.criteria :: roundCriteria (rest ++ more) at hmem
    rw [roundCriteria_append, hjudged.roundCriteria_eq, List.nil_append, List.mem_cons] at hmem
    rcases hmem with rfl | hmem
    · exact List.prefix_refl _
    · exact hgrown.trans (h.grown criteria hmem)
  sound t ht := by
    rcases List.mem_append.mp ht with ht | ht
    · exact hjudged.sound_of_mem ((List.mem_cons.mp ht).resolve_left nofun)
    · exact h.sound t ht
  result result hr := ⟨earned_append (h.result result hr).1, backed_append (h.result result hr).2⟩
  used last hr := by
    rcases h.used last hr with hnone | ⟨hlast, hold⟩ | ⟨t, hlast, ht⟩
    · exact Or.inl hnone
    · refine Or.inr (Or.inl ⟨by rw [List.getLast?_append, hlast, Option.some_or], ?_⟩)
      rcases hold with hold | ⟨t, ht⟩
      · rw [hold, hfollows.assertions]
        exact hjudged.assertions.imp_right fun ⟨t, ht⟩ =>
          ⟨t, List.mem_append_left _ (List.mem_cons_of_mem _ ht)⟩
      · exact Or.inr ⟨t, List.mem_append_right _ ht⟩
    · exact Or.inr (Or.inr ⟨t, by rw [List.getLast?_append, hlast, Option.some_or], ht⟩)

theorem rounds_error (prompt : Text) (l : Loop) (e : Thrown) :
    Rounds prompt l [] (.error e : Except _ (DesignResult deps.Report ⊕ Loop)) where
  kept := List.Pairwise.nil
  grown _ hmem := absurd hmem List.not_mem_nil
  sound _ hmem := absurd hmem List.not_mem_nil
  result _ hr := nomatch hr
  used _ hr := nomatch hr

/-- A round, and what goes on behind it. -/
theorem playRound_rounds (prompt : Text) (round : Nat) (isLast : Bool) (hasked : Asked l)
    (further : Loop → Run deps (DesignResult deps.Report ⊕ Loop))
    (hfurther : ∀ next, isLast = false → Asked next → (further next).Adds (Rounds prompt next)) :
    (playRound deps prompt round isLast l >>= fun turn =>
      match turn with
      | .returns result => Proc.done (.inl result)
      | .stops l => Proc.done (.inr l)
      | .goesOn l => further l).Adds (Rounds prompt l) := by
  refine (playRound_adds prompt round isLast l).andThen (fun new e h => ?_) fun new turn h => ?_
  · rcases h with ⟨rfl, -⟩ | ⟨rest, l', rfl, hjudged, -⟩
    · exact rounds_error prompt l e
    · exact rounds_single hjudged (fun _ hr => nomatch hr) fun _ hr => nomatch hr
  · rcases h with ⟨-, e, he⟩ | ⟨rest, l', rfl, hjudged, hturned⟩
    · exact nomatch he
    · have hturned := hturned turn rfl
      cases turn with
      | returns result =>
        refine Proc.adds_done ?_
        rw [List.append_nil]
        refine rounds_single hjudged (fun result' hr => ?_) fun _ hr => nomatch hr
        obtain rfl := Sum.inl.inj (Except.ok.inj hr)
        exact returned_spec hasked hjudged hturned
      | stops stopped =>
        refine Proc.adds_done ?_
        rw [List.append_nil]
        refine rounds_single hjudged (fun _ hr => nomatch hr) fun last hr => ?_
        obtain rfl := Sum.inr.inj (Except.ok.inj hr)
        exact stopped_spec hasked hjudged hturned.1 hturned.2
      | goesOn next =>
        have hnext : Asked next := fun hnone => by
          rw [hturned.2.assertions]
          refine hjudged.asked hasked (List.prefix_nil.mp ?_)
          rw [← hnone]
          exact hturned.2.criteria
        exact (hfurther next hturned.1 hnext).mono fun more r hr =>
          rounds_cons hjudged hturned.2 hr

theorem playRounds_adds (prompt : Text) (left round : Nat) (l : Loop) (hasked : Asked l) :
    (playRounds deps prompt (left + 1) round l).Adds (Rounds prompt l) := by
  induction left generalizing round l with
  | zero =>
    exact playRound_rounds prompt round _ hasked _ fun next hlast _ => nomatch hlast
  | succ left ih =>
    exact playRound_rounds prompt round _ hasked _ fun next _ hnext => ih (round + 1) next hnext

/-! ## The whole loop -/

variable (deps) in
/-- A call of `runDesignLoop`. -/
def runLoop (input : DesignLoopInput) (w : deps.World) :
    Except Thrown (DesignResult deps.Report) × Logged deps.World Event :=
  runDesignLoop deps input { state := w, log := [] }

theorem startLoop_silent (input : DesignLoopInput) :
    (startLoop deps input).Silent fun l => l.lastAssertions = [] := by
  have hfirst : (firstDesign deps input).Silent fun _ => True := by
    unfold firstDesign
    split
    · exact Proc.silent_done trivial
    · exact outside_silent _
  exact hfirst.andThen fun gen _ => Proc.silent_done rfl

theorem exists_maxRounds (input : DesignLoopInput) : ∃ left, maxRounds input = left + 1 := by
  refine Nat.exists_eq_add_one_of_ne_zero ?_
  unfold maxRounds
  omega

/-- Unless the last round is skipped behind a trial, the verdicts of spent rounds are current. -/
theorem spent_backed {start last : Loop} {new : List Event} (hstart : start.lastAssertions = [])
    (hsound : ∀ t, .trial t ∈ new → t.Sound) (hused : Used start new last)
    (hfresh : ¬ Stale new) : Backed new (spent deps last) := by
  intro assertions hassertions hne
  obtain rfl := Option.some.inj hassertions
  rcases hused with hnone | ⟨hskipped, hold | htrial⟩ | ⟨t, hlast, hcircuit, hanalysis, hverdicts⟩
  · exact absurd hnone hne
  · exact absurd (hold.trans hstart) hne
  · exact absurd ⟨hskipped, htrial⟩ hfresh
  · have hmem := List.mem_of_getLast? hlast
    exact ⟨t, hmem, hsound t hmem, hcircuit, hanalysis, hverdicts⟩

theorem runDesignLoop_adds (input : DesignLoopInput) :
    (runDesignLoop deps input).Adds fun new r => CriteriaKept new ∧
      ∀ result, r = .ok result →
        Earned input.prompt new result ∧ (¬ Stale new → Backed new result) := by
  refine checkAbort_silent.before (fun e => ⟨List.Pairwise.nil, fun _ h => nomatch h⟩) fun _ _ => ?_
  refine (startLoop_silent input).before (fun e => ⟨List.Pairwise.nil, fun _ h => nomatch h⟩)
    fun start hstart => ?_
  obtain ⟨left, hleft⟩ := exists_maxRounds input
  rw [hleft]
  refine (playRounds_adds input.prompt left 1 start fun _ => hstart).andThen
    (fun new e h => ⟨h.kept, fun _ hr => nomatch hr⟩) fun new outcome h => ?_
  cases outcome with
  | inl result =>
    refine Proc.adds_done ?_
    rw [List.append_nil]
    refine ⟨h.kept, fun result' hr => ?_⟩
    obtain rfl := Except.ok.inj hr
    obtain ⟨hearned, hbacked⟩ := h.result result rfl
    exact ⟨hearned, fun _ => hbacked⟩
  | inr last =>
    refine (enrich_silent last.circuit).before (fun e => ?_) fun _ _ => Proc.adds_done ?_
    · rw [List.append_nil]
      exact ⟨h.kept, fun _ hr => nomatch hr⟩
    · rw [List.append_nil]
      refine ⟨h.kept, fun result hr => ?_⟩
      obtain rfl := Except.ok.inj hr
      exact ⟨(fun hok => nomatch hok), spent_backed hstart h.sound (h.used last rfl)⟩

end

/-! ## A stale verdict -/

/-- A source across a resistor. -/
def loadedSource : CircuitJson where
  nets := [⟨"in".toList, "in".toList, false, false⟩, ⟨"gnd".toList, "gnd".toList, true, false⟩]
  components := [
    { id := ['1'], type := .voltageSource, designator := "V1".toList, value := some "DC 5".toList
      pins := [⟨"+".toList, "in".toList⟩, ⟨"-".toList, "gnd".toList⟩] },
    { id := ['2'], type := .resistor, designator := "R1".toList, value := some "1k".toList
      pins := [⟨"1".toList, "in".toList⟩, ⟨"2".toList, "gnd".toList⟩] }]

def fiveVolts : DataPoint Rat := ⟨0, 5⟩

/-- A simulator that reports five volts, and a model that fixes a circuit by emptying it. -/
@[reducible] def emptyingDeps : DesignDeps where
  World := Unit
  Report := Unit
  isAborted := fun _ => (.ok false, ())
  generateCircuit := fun _ _ _ => (.error "no model".toList, ())
  fixCircuit := fun _ _ _ _ =>
    (.ok { circuit := { components := [], nets := [] }, analysisConfig := .op {} }, ())
  createQuickSim := fun _ _ _ => (.ok "job".toList, ())
  pollJob := fun _ _ => (.ok { status := .succeeded }, ())
  getResult := fun _ _ =>
    (.ok { resultPoints := some (2 : Rat), series := some [⟨"v(in)".toList, [fiveVolts]⟩] }, ())
  grounding := false
  enrichSourcing := fun _ _ => (.ok (), ())
  runYieldAnalysis := fun _ _ _ _ => (none, ())
  isIntentfulError := fun _ => false
  clock := fun _ => ⟨"2000-01-01T00:00:00.000Z".toList, by decide⟩
  sqrt := id
  nan := (0 : Rat)

/-- The source is to reach ten volts, in two rounds. -/
def tenVolts : DesignLoopInput where
  prompt := "a supply".toList
  seedCircuit := some loadedSource
  seedCriteria := some
    [{ probe := "v(in)".toList, metric := .final, op := .gte, value := (10 : Rat) }]

def Event.isSkipped : Event → Bool
  | .skipped => true
  | _ => false

def Event.trial? : Event → Option Trial
  | .trial t => some t
  | _ => none

end CircuitForge.Design
