/-
The counting semaphore of the worker: `Semaphore` of `worker-sim/src/util/semaphore.ts`.

Callers, microtasks and bodies take turns.  A microtask is one reaction to a settled promise, and
the queue is first in, first out; the bodies and their outcomes are up to the outside.
-/
import CircuitForge.Js.Runs
import Mathlib.Algebra.Order.Floor.Ring
import Mathlib.Data.List.Count
import Mathlib.Data.Rat.Floor

namespace CircuitForge.Semaphores

/-- The constructor: none stands for a number that is not finite. -/
def initialPermits (permits : Option Rat) : Nat :=
  match permits with
  | some permits => (max 1 ⌊permits⌋).toNat
  | none => 1

/-- A reaction in the microtask queue, with the call of `run` it belongs to. -/
inductive Job where
  /-- The promise of a waiter is resolved: `acquire` goes on and returns. -/
  | resume (id : Nat)
  /-- `acquire` has returned: `run` goes on and calls the body. -/
  | enter (id : Nat) (waited : Bool)
  /-- The promise of the body is settled: `run` goes on into its `finally`. -/
  | leave (id : Nat)

def Job.id : Job → Nat
  | resume id => id
  | enter id _ => id
  | leave id => id

/-- The semaphore, the queue and the bodies.  Calls of `run` are numbered as they come. -/
structure World where
  permits : Nat
  waiters : List Nat := []
  jobs : List Job := []
  /-- The body that runs at this moment, before it has returned its promise. -/
  active : Option Nat := none
  /-- The bodies that were called and have not settled. -/
  executing : List Nat := []
  calls : Nat := 0
  /-- The calls that had to wait, as they came. -/
  waited : List Nat := []
  /-- The calls that had to wait and whose bodies were called, in that order. -/
  started : List Nat := []
  /-- The calls that are over. -/
  finished : List Nat := []

def World.start (permits : Option Rat) : World := { permits := initialPermits permits }

inductive Event where
  /-- `run` is called, by whom ever. -/
  | call
  /-- The next microtask. -/
  | job
  /-- The body that runs throws. -/
  | throws
  /-- The body that runs returns its promise. -/
  | returns
  /-- The promise of a body is resolved or rejected. -/
  | settles (id : Nat)

/-- `acquire`, up to its first `await`, and the `await` of `run` on it. -/
def acquire (w : World) : World :=
  let id := w.calls
  if 0 < w.permits then
    { w with permits := w.permits - 1, jobs := w.jobs ++ [.enter id false], calls := id + 1 }
  else { w with waiters := w.waiters ++ [id], waited := w.waited ++ [id], calls := id + 1 }

/-- `release`. -/
def release (w : World) : World :=
  match w.waiters with
  | next :: waiters => { w with waiters, jobs := w.jobs ++ [.resume next] }
  | [] => { w with permits := w.permits + 1 }

/-- The `finally` of `run`. -/
def leave (w : World) (id : Nat) : World := release { w with finished := w.finished ++ [id] }

def step (w : World) : Event → Option World
  | .call => some (acquire w)
  | .job =>
    match w.active, w.jobs with
    | none, .resume id :: jobs => some { w with jobs := jobs ++ [.enter id true] }
    | none, .enter id waited :: jobs =>
      some
        { w with
          jobs
          active := some id
          executing := w.executing ++ [id]
          started := if waited then w.started ++ [id] else w.started }
    | none, .leave id :: jobs => some (leave { w with jobs } id)
    | _, _ => none
  | .throws =>
    match w.active with
    | some id => some (leave { w with active := none, executing := w.executing.erase id } id)
    | none => none
  | .returns =>
    match w.active with
    | some _ => some { w with active := none }
    | none => none
  | .settles id =>
    if id ∈ w.executing ∧ w.active ≠ some id then
      some { w with executing := w.executing.erase id, jobs := w.jobs ++ [.leave id] }
    else none

/-- The world after some events. -/
def run (permits : Option Rat) (events : List Event) : World :=
  Runs.final step (World.start permits) events

/-! ## The permits are conserved -/

/-- The calls that had to wait and are about to enter. -/
def entering (jobs : List Job) : List Nat :=
  jobs.filterMap fun job => match job with
    | .enter id true => some id
    | _ => none

/-- The calls that were handed a permit. -/
def resuming (jobs : List Job) : List Nat :=
  jobs.filterMap fun job => match job with
    | .resume id => some id
    | _ => none

/-- How often a call is somewhere between its start and its end, or over. -/
def World.places (w : World) (id : Nat) : Nat :=
  w.waiters.count id + (w.jobs.map Job.id).count id + w.executing.count id + w.finished.count id

/-- Every permit is free, or held by a reaction or a body; who waits finds none free; every call is
in one place; and those who waited come in the order of their calls. -/
structure Sound (limit : Nat) (w : World) : Prop where
  conserved : w.permits + w.jobs.length + w.executing.length = limit
  handed : w.waiters ≠ [] → w.permits = 0
  placed : ∀ id, w.places id = if id < w.calls then 1 else 0
  running : ∀ id ∈ w.active, id ∈ w.executing
  inOrder : w.started ++ entering w.jobs ++ resuming w.jobs ++ w.waiters = w.waited
  increasing : w.waited.Pairwise (· < ·) ∧ ∀ id ∈ w.waited, id < w.calls

theorem sound_start (permits : Option Rat) :
    Sound (initialPermits permits) (World.start permits) where
  conserved := rfl
  handed := fun h => absurd rfl h
  placed := fun _ => rfl
  running := fun _ h => nomatch h
  inOrder := rfl
  increasing := ⟨List.Pairwise.nil, fun _ h => nomatch h⟩

section

variable {limit : Nat} {w : World}

theorem entering_append (jobs jobs' : List Job) :
    entering (jobs ++ jobs') = entering jobs ++ entering jobs' := List.filterMap_append

theorem resuming_append (jobs jobs' : List Job) :
    resuming (jobs ++ jobs') = resuming jobs ++ resuming jobs' := List.filterMap_append

/-- A call takes a free permit, or waits behind the others. -/
theorem Sound.acquire (h : Sound limit w) : Sound limit (acquire w) := by
  obtain ⟨hconserved, hhanded, hplaced, hrunning, hinOrder, hincreasing⟩ := h
  unfold Semaphores.acquire
  have hnew : ∀ id, (if id < w.calls + 1 then 1 else 0) =
      (if id < w.calls then 1 else 0) + if w.calls = id then 1 else 0 := by
    intro id
    split_ifs <;> omega
  dsimp only
  split
  case isTrue hfree =>
    refine ⟨?_, fun hwait => ?_, fun id => ?_, hrunning, ?_, hincreasing.1,
      fun id hid => Nat.lt_succ_of_lt (hincreasing.2 id hid)⟩
    · rw [List.length_append]
      simp only [List.length_cons, List.length_nil]
      omega
    · exact absurd (hhanded hwait) (Nat.pos_iff_ne_zero.mp hfree)
    · have hid := hplaced id
      rw [hnew, ← hid]
      simp only [World.places, List.map_append, List.map_cons, List.map_nil, List.count_append,
        List.count_singleton, Job.id, beq_iff_eq]
      omega
    · rw [entering_append, resuming_append, ← hinOrder]
      simp [entering, resuming]
  case isFalse hnone =>
    refine ⟨hconserved, fun _ => Nat.eq_zero_of_not_pos hnone, fun id => ?_, hrunning, ?_, ?_,
      fun id hid => ?_⟩
    · have hid := hplaced id
      rw [hnew, ← hid]
      simp only [World.places, List.count_append, List.count_singleton, beq_iff_eq]
      omega
    · rw [← hinOrder, List.append_assoc _ w.waiters]
    · rw [List.pairwise_append]
      refine ⟨hincreasing.1, List.pairwise_singleton _ _, fun a ha b hb => ?_⟩
      cases List.mem_singleton.mp hb
      exact hincreasing.2 a ha
    · rcases List.mem_append.mp hid with hid | hid
      · exact Nat.lt_succ_of_lt (hincreasing.2 id hid)
      · cases List.mem_singleton.mp hid
        exact Nat.lt_succ_self _

/-- A call that is in no place any more gives its permit to the first waiter, or back. -/
theorem sound_leave {id : Nat}
    (hconserved : w.permits + w.jobs.length + w.executing.length + 1 = limit)
    (hhanded : w.waiters ≠ [] → w.permits = 0)
    (hplaced : ∀ i, w.places i + (if id = i then 1 else 0) = if i < w.calls then 1 else 0)
    (hrunning : ∀ i ∈ w.active, i ∈ w.executing)
    (hinOrder : w.started ++ entering w.jobs ++ resuming w.jobs ++ w.waiters = w.waited)
    (hincreasing : w.waited.Pairwise (· < ·) ∧ ∀ i ∈ w.waited, i < w.calls) :
    Sound limit (leave w id) := by
  unfold Semaphores.leave release
  dsimp only
  split
  case h_1 next waiters hwaiters =>
    refine ⟨?_, fun _ => hhanded (hwaiters ▸ List.cons_ne_nil _ _), fun i => ?_, hrunning, ?_,
      hincreasing⟩
    · rw [List.length_append]
      simp only [List.length_cons, List.length_nil]
      omega
    · rw [← hplaced i]
      simp only [World.places, hwaiters, List.map_append, List.map_cons, List.map_nil,
        List.count_append, List.count_nil, List.count_cons, Job.id, beq_iff_eq]
      omega
    · rw [← hinOrder, hwaiters, entering_append, resuming_append]
      simp [entering, resuming]
  case h_2 hwaiters =>
    refine ⟨?_, fun hwait => absurd hwaiters hwait, fun i => ?_, hrunning, hinOrder, hincreasing⟩
    · dsimp only
      omega
    · rw [← hplaced i]
      simp only [World.places, List.count_append, List.count_singleton, beq_iff_eq]
      omega

/-- What the front of the queue does. -/
theorem Sound.job (h : Sound limit w) {w' : World} (hs : step w .job = some w') :
    Sound limit w' := by
  obtain ⟨hconserved, hhanded, hplaced, hrunning, hinOrder, hincreasing⟩ := h
  unfold step at hs
  cases hactive : w.active with
  | some id =>
    simp only [hactive] at hs
    cases hs
  | none =>
    cases hjobs : w.jobs with
    | nil =>
      simp only [hactive, hjobs] at hs
      cases hs
    | cons job jobs =>
      have hplacedAt : ∀ id, w.waiters.count id + (jobs.map Job.id).count id +
          [job.id].count id + w.executing.count id + w.finished.count id =
            if id < w.calls then 1 else 0 := by
        intro id
        rw [← hplaced id, World.places, hjobs, List.map_cons, List.count_cons, List.count_cons,
          List.count_nil]
        omega
      rw [hjobs] at hconserved hinOrder
      rw [List.length_cons] at hconserved
      have hnone : ∀ id ∈ (none : Option Nat), id ∈ w.executing := fun _ h => nomatch h
      cases job with
      | resume id =>
        simp only [hactive, hjobs] at hs
        cases hs
        refine ⟨?_, hhanded, fun i => ?_, hnone, ?_, hincreasing⟩
        · rw [List.length_append]
          exact hconserved
        · rw [← hplacedAt i]
          simp only [World.places, List.map_append, List.map_cons, List.map_nil, List.count_append,
            Job.id]
          omega
        · rw [← hinOrder, entering_append, resuming_append]
          simp [entering, resuming]
      | enter id waited =>
        simp only [hactive, hjobs] at hs
        cases hs
        refine ⟨?_, hhanded, fun i => ?_, fun i hi => ?_, ?_, hincreasing⟩
        · rw [List.length_append]
          simp only [List.length_cons, List.length_nil]
          omega
        · rw [← hplacedAt i]
          simp only [World.places, List.count_append, Job.id]
          omega
        · cases hi
          exact List.mem_append_right _ List.mem_cons_self
        · rw [← hinOrder]
          cases waited <;> simp [entering, resuming]
      | leave id =>
        simp only [hactive, hjobs] at hs
        cases hs
        refine sound_leave ?_ hhanded (fun i => ?_) hnone ?_ hincreasing
        · dsimp only
          omega
        · rw [← hplacedAt i, List.count_singleton]
          simp only [World.places, Job.id, beq_iff_eq]
          omega
        · rw [← hinOrder]
          simp [entering, resuming]

/-- A body that stops executing leaves its place. -/
theorem places_erase (w : World) {id : Nat} (hid : id ∈ w.executing) (i : Nat) :
    { w with executing := w.executing.erase id }.places i + (if id = i then 1 else 0) =
      w.places i := by
  have hcount : (w.executing.erase id).count i + (if id = i then 1 else 0) =
      w.executing.count i := by
    rw [List.count_erase]
    by_cases heq : id = i
    · subst heq
      have hpos := List.count_pos_iff.mpr hid
      simp only [beq_self_eq_true, if_true]
      omega
    · simp [heq]
  simp only [World.places]
  omega

theorem Sound.step (h : Sound limit w) {e : Event} {w' : World} (hs : step w e = some w') :
    Sound limit w' := by
  cases e with
  | call =>
    cases hs
    exact h.acquire
  | job => exact h.job hs
  | throws =>
    unfold Semaphores.step at hs
    cases hactive : w.active with
    | none =>
      simp only [hactive] at hs
      cases hs
    | some id =>
      simp only [hactive] at hs
      cases hs
      have hid := h.running id hactive
      have hlength := List.length_erase_of_mem hid
      have hpos := List.length_pos_of_mem hid
      have hconserved := h.conserved
      refine sound_leave ?_ h.handed (fun i => ?_) (fun _ hi => nomatch hi) h.inOrder h.increasing
      · dsimp only
        omega
      · rw [← h.placed i]
        exact places_erase w hid i
  | returns =>
    unfold Semaphores.step at hs
    cases hactive : w.active with
    | none =>
      simp only [hactive] at hs
      cases hs
    | some id =>
      simp only [hactive] at hs
      cases hs
      exact ⟨h.conserved, h.handed, h.placed, fun _ hi => (nomatch hi), h.inOrder, h.increasing⟩
  | settles id =>
    unfold Semaphores.step at hs
    dsimp only at hs
    split at hs
    case isFalse => cases hs
    case isTrue hok =>
      cases hs
      have hlength := List.length_erase_of_mem hok.1
      have hpos := List.length_pos_of_mem hok.1
      have hconserved := h.conserved
      refine ⟨?_, h.handed, fun i => ?_, fun i hi => ?_, ?_, h.increasing⟩
      · rw [List.length_append]
        simp only [List.length_cons, List.length_nil]
        omega
      · rw [← h.placed i, ← places_erase w hok.1 i]
        simp only [World.places, List.map_append, List.map_cons, List.map_nil, List.count_append,
          List.count_singleton, Job.id, beq_iff_eq]
        omega
      · have hne : i ≠ id := fun he => hok.2 (he ▸ hi)
        exact (List.mem_erase_of_ne hne).mpr (h.running i hi)
      · rw [← h.inOrder, entering_append, resuming_append]
        simp [entering, resuming]

end

/-- Every run keeps the permits. -/
theorem sound_run (permits : Option Rat) (events : List Event) :
    Sound (initialPermits permits) (run permits events) :=
  Runs.final_of_along (fun _ _ _ h hs _ => h.step hs) (sound_start permits)
    (Runs.along_of_forall (fun _ _ _ => trivial) _ events)

/-! ## What the semaphore is for -/

/-- At most `limit` bodies execute, those who waited start in the order of their calls, nobody
waits while a permit is free, and with no call outstanding the permits are as many as at first. -/
structure Conserves (limit : Nat) (w : World) : Prop where
  bounded : w.executing.length ≤ limit
  fair : w.started <+: w.waited ∧ w.waited.Pairwise (· < ·)
  busy : w.waiters ≠ [] → w.permits = 0
  restored : (∀ id < w.calls, id ∈ w.finished) → w.permits = limit

/-- A call that is over is nowhere else. -/
theorem Sound.empty_of_finished {limit : Nat} {w : World} (h : Sound limit w)
    (hfinished : ∀ id < w.calls, id ∈ w.finished) : w.jobs = [] ∧ w.executing = [] := by
  have hgone : ∀ id, (w.jobs.map Job.id).count id = 0 ∧ w.executing.count id = 0 := by
    intro id
    have hplaced := h.placed id
    unfold World.places at hplaced
    split_ifs at hplaced with hid
    · have hpos := List.count_pos_iff.mpr (hfinished id hid)
      omega
    · omega
  constructor
  · have hnil : w.jobs.map Job.id = [] := List.eq_nil_iff_forall_not_mem.mpr fun id hid =>
      absurd (hgone id).1 (List.count_pos_iff.mpr hid).ne'
    exact List.map_eq_nil_iff.mp hnil
  · refine List.eq_nil_iff_forall_not_mem.mpr fun id hid => ?_
    exact absurd (hgone id).2 (List.count_pos_iff.mpr hid).ne'

/-- The semaphore conserves its permits in every run. -/
theorem semaphore_conserves (permits : Option Rat) (events : List Event) :
    Conserves (initialPermits permits) (run permits events) := by
  have h := sound_run permits events
  refine ⟨?_, ⟨?_, h.increasing.1⟩, h.handed, fun hfinished => ?_⟩
  · have hconserved := h.conserved
    omega
  · rw [← h.inOrder, List.append_assoc, List.append_assoc]
    exact List.prefix_append _ _
  · obtain ⟨hjobs, hexecuting⟩ := h.empty_of_finished hfinished
    have hconserved := h.conserved
    rw [hjobs, hexecuting] at hconserved
    exact hconserved

/-- The number of permits is never more than the configured one, but at least one. -/
theorem initialPermits_le {permits : Rat} (h : 1 ≤ permits) :
    (initialPermits (some permits) : Rat) ≤ permits := by
  have hone : (1 : Int) ≤ ⌊permits⌋ := Int.le_floor.mpr (by exact_mod_cast h)
  have hcast : ((initialPermits (some permits) : Nat) : Int) = ⌊permits⌋ := by
    rw [initialPermits, max_eq_right hone, Int.toNat_of_nonneg (by omega)]
  calc (initialPermits (some permits) : Rat)
      = ((initialPermits (some permits) : Int) : Rat) := (Int.cast_natCast _).symm
    _ = (⌊permits⌋ : Rat) := by rw [hcast]
    _ ≤ permits := Int.floor_le permits

/-- With no permits configured a body executes all the same. -/
theorem semaphore_floor_one :
    ¬ (((run (some 0) [.call, .job]).executing.length : Rat) ≤ 0) := by
  decide +kernel

end CircuitForge.Semaphores
