/-
What a certified board rests on.

A board that the notary accepted may still be trimmed, judged again, carried through the placement
ladder and assembled once more.  On every way the board that is delivered as routed is one that was
merged from a session of this call, and with a notary one that was accepted and never refused.
-/
import CircuitForge.Pcb.Aborts
import CircuitForge.Pcb.Tagged

namespace CircuitForge.Layouts

open Js Effects

variable {w : Workshop} {opts : LayoutOptions} {α β : Type}

/-! ## The books of a call -/

/-- The sessions and the judgements so far. -/
structure Books (w : Workshop) where
  sessions : List w.Ses
  judgements : List (Judgement w)

def Tape.books (t : Tape w) : Books w where
  sessions := t.sessions
  judgements := t.judgements

def books (d : Desk w.tagged) : Books w := Tape.books d.world

/-- What was judged was merged from a session that had been returned. -/
def Books.Counted (b : Books w) : Prop :=
  ∀ j ∈ b.judgements, ∀ k, j.origin.session? = some k → k < b.sessions.length

/-- `pcb` is a file that was assembled of a board. -/
def Assembled (board : w.Board) (pcb : w.Pcb) : Prop :=
  ∃ world notes, (w.assembleKicadPcb board world).1 = .ok (pcb, notes)

/-- A board that was merged in this call, and with a notary accepted and never refused. -/
structure Books.Stands (b : Books w) (opts : LayoutOptions) (board : w.Board × Origin) : Prop where
  session : ∃ k, board.2.session? = some k ∧ k < b.sessions.length
  accepted : opts.notaryDrc = true → ∃ pcb, Assembled board.1 pcb ∧
    { origin := board.2, pcb := some pcb, verdict := .ok true } ∈ b.judgements
  unrefused : opts.notaryDrc = true → ∀ j ∈ b.judgements, j.origin = board.2 → j.verdict = .ok true

/-! ## Conditions on the books -/

/-- An answer satisfies `Q` with the books that are left, and behind a throw the books satisfy
`E`. -/
def Leaves (E : Books w → Prop) (Q : α → Books w → Prop) : Except Thrown α → Books w → Prop
  | .ok a, b => Q a b
  | .error _, b => E b

/-- From books that satisfy `B`, what is left is as `E` and `Q` say. -/
def Holds (E B : Books w → Prop) (m : Pipeline w.tagged α) (Q : α → Books w → Prop) : Prop :=
  m.Meets (fun d => B (books d)) fun r d => Leaves E Q r (books d)

variable {E B : Books w → Prop} {Q : α → Books w → Prop} {R : β → Books w → Prop}

theorem Holds.andThen {m : Pipeline w.tagged α} {f : α → Pipeline w.tagged β} (h : Holds E B m Q)
    (hnext : ∀ a, Holds E (Q a) (f a) R) : Holds E B (m >>= f) R :=
  Proc.Meets.andThen h (fun _ _ hb => hb) hnext

theorem Holds.catching {E' : Books w → Prop} {m : Pipeline w.tagged α}
    {handler : Thrown → Pipeline w.tagged α} (h : Holds E B m Q)
    (hh : ∀ e, Holds E' E (handler e) Q) : Holds E' B (Proc.catching m handler) Q :=
  Proc.Meets.catching h (fun _ _ hb => hb) hh

theorem Holds.mono {B' : Books w → Prop} {Q' : α → Books w → Prop} {m : Pipeline w.tagged α}
    (h : Holds E B m Q) (hpre : ∀ b, B' b → B b) (hpost : ∀ a b, Q a b → Q' a b) :
    Holds E B' m Q' := by
  refine Proc.Meets.mono h (fun _ hb => hpre _ hb) fun r _ hb => ?_
  cases r with
  | ok a => exact hpost a _ hb
  | error e => exact hb

/-- A part of the condition that is not about the books. -/
theorem holds_of_pre {p : Prop} {m : Pipeline w.tagged α} (h : p → Holds E B m Q) :
    Holds E (fun b => p ∧ B b) m Q := fun s hs => h hs.1 s hs.2

theorem holds_done {a : α} (h : ∀ b, B b → Q a b) : Holds E B (Proc.done a) Q :=
  Proc.meets_done fun _ hb => h _ hb

theorem holds_throw {e : Thrown} (h : ∀ b, B b → E b) :
    Holds E B (Proc.throw e : Pipeline w.tagged α) Q :=
  Proc.meets_throw fun _ hb => h _ hb

theorem holds_note (check : Check) : Holds E B (Proc.note check) fun _ => B :=
  Proc.meets_note fun _ hb => hb

theorem holds_push (notes : List LayoutNote) : Holds E B (push notes) fun _ => B :=
  Proc.meets_modify fun _ hb => hb

theorem holds_reported : Holds E B (reported (w := w.tagged)) fun _ => B :=
  Proc.meets_call fun _ hb => hb

theorem holds_outside {c : Tape w → Except Text α × Tape w}
    (hok : ∀ t a, B t.books → (c t).1 = .ok a → Q a (c t).2.books)
    (herror : ∀ t e, B t.books → (c t).1 = .error e → E (c t).2.books) :
    Holds E B (outside (w := w.tagged) c) Q := by
  refine Proc.meets_call fun d hb => ?_
  cases hr : (c d.world).1 with
  | ok a => exact hok d.world a hb hr
  | error e => exact herror d.world e hb hr

/-- A tool that is not recorded leaves the books as they are. -/
theorem holds_lift {γ : Type} {c : w.World → Except Text γ × w.World} {tag : γ → α}
    (herror : ∀ b, B b → E b) (h : ∀ a b, B b → Q (tag a) b) :
    Holds E B (outside (w := w.tagged) (Tape.lift c tag)) Q := by
  refine holds_outside (fun t a hb hr => ?_) fun t e hb _ => herror _ hb
  unfold Tape.lift at hr
  cases hc : (c t.world).1 with
  | ok a' =>
    rw [hc] at hr
    obtain rfl := Except.ok.inj hr
    exact h a' _ hb
  | error e =>
    rw [hc] at hr
    cases hr

/-- A session is kept under its number. -/
theorem holds_freeroute {Q : w.Ses × Nat → Books w → Prop} (dsn : w.Dsn) (herror : ∀ b, B b → E b)
    (h : ∀ ses b, B b → Q (ses, b.sessions.length)
      { sessions := b.sessions ++ [ses], judgements := b.judgements }) :
    Holds E B (outside (w := w.tagged) (Tape.freeroute dsn)) Q := by
  refine holds_outside (fun t a hb hr => ?_) fun t e hb hr => ?_
  · unfold Tape.freeroute at hr ⊢
    cases hc : (w.freeroute dsn t.world).1 with
    | ok ses =>
      rw [hc] at hr
      obtain rfl := Except.ok.inj hr
      exact h ses _ hb
    | error e =>
      rw [hc] at hr
      cases hr
  · unfold Tape.freeroute at hr ⊢
    cases hc : (w.freeroute dsn t.world).1 with
    | ok ses =>
      rw [hc] at hr
      cases hr
    | error e =>
      have hbooks : E { sessions := t.sessions ++ [], judgements := t.judgements } := by
        rw [List.append_nil]
        exact herror _ hb
      exact hbooks

/-- The books with one more judgement. -/
def Books.judge (b : Books w) (j : Judgement w) : Books w where
  sessions := b.sessions
  judgements := b.judgements ++ [j]

theorem Books.Counted.judge {b : Books w} (h : b.Counted) {j : Judgement w}
    (hj : ∀ k, j.origin.session? = some k → k < b.sessions.length) : (b.judge j).Counted := by
  intro j' hmem k hk
  rcases List.mem_append.mp hmem with hmem | hmem
  · exact h j' hmem k hk
  · rw [List.mem_singleton.mp hmem] at hk
    exact hj k hk

/-- An assembled board has a file; a fault is kept. -/
theorem holds_assemble {Q : (w.Pcb × Origin) × List LayoutNote → Books w → Prop}
    (board : w.Board × Origin)
    (herror : ∀ why b, B b →
      E (b.judge { origin := board.2, pcb := none, verdict := .error why }))
    (h : ∀ pcb notes b, Assembled board.1 pcb → B b → Q ((pcb, board.2), notes) b) :
    Holds E B (outside (w := w.tagged) (Tape.assemble board)) Q := by
  refine holds_outside (fun t a hb hr => ?_) fun t e hb hr => ?_
  · unfold Tape.assemble at hr ⊢
    cases hc : (w.assembleKicadPcb board.1 t.world).1 with
    | ok assembled =>
      rw [hc] at hr
      obtain rfl := Except.ok.inj hr
      have hbooks : B { sessions := t.sessions, judgements := t.judgements ++ [] } := by
        rw [List.append_nil]
        exact hb
      exact h _ _ _ ⟨t.world, assembled.2, hc⟩ hbooks
    | error e =>
      rw [hc] at hr
      cases hr
  · unfold Tape.assemble at hr ⊢
    cases hc : (w.assembleKicadPcb board.1 t.world).1 with
    | ok assembled =>
      rw [hc] at hr
      cases hr
    | error e => exact herror e _ hb

/-- What the notary answers is kept. -/
theorem holds_notaryDrc {Q : Bool → Books w → Prop} (pcb : w.Pcb × Origin)
    (herror : ∀ why b, B b →
      E (b.judge { origin := pcb.2, pcb := some pcb.1, verdict := .error why }))
    (h : ∀ clean b, B b →
      Q clean (b.judge { origin := pcb.2, pcb := some pcb.1, verdict := .ok clean })) :
    Holds E B (outside (w := w.tagged) (Tape.notaryDrc pcb)) Q := by
  refine holds_outside (fun t a hb hr => ?_) fun t e hb hr => ?_
  · have hr' : (w.notaryDrc pcb.1 t.world).1 = .ok a := hr
    have := h a _ hb
    rw [← hr'] at this
    exact this
  · have hr' : (w.notaryDrc pcb.1 t.world).1 = .error e := hr
    have := herror e _ hb
    rw [← hr'] at this
    exact this

/-! ## Trimming -/

/-- An accepted board whose trims at some clearances are not judged yet. -/
structure Books.Trimming (b : Books w) (routed : w.Board × Origin) (k : Nat)
    (clearances : List Rat) : Prop where
  counted : b.Counted
  merged : routed.2 = .merged k
  returned : k < b.sessions.length
  accepted : ∃ pcb, Assembled routed.1 pcb ∧
    { origin := routed.2, pcb := some pcb, verdict := .ok true } ∈ b.judgements
  unrefused : ∀ j ∈ b.judgements, j.origin = routed.2 → j.verdict = .ok true
  fresh : ∀ c ∈ clearances, ∀ j ∈ b.judgements, j.origin ≠ .trimmed k c

variable {routed : w.Board × Origin} {k : Nat}

theorem Books.Trimming.stands {b : Books w} {clearances : List Rat}
    (h : b.Trimming routed k clearances) : b.Stands opts routed where
  session := ⟨k, by rw [h.merged]; rfl, h.returned⟩
  accepted := fun _ => h.accepted
  unrefused := fun _ => h.unrefused

/-- A judgement of a trim leaves the other clearances. -/
theorem Books.Trimming.judge {b : Books w} {c : Rat} {rest : List Rat}
    (h : b.Trimming routed k (c :: rest)) (hc : c ∉ rest) {j : Judgement w}
    (hj : j.origin = .trimmed k c) : (b.judge j).Trimming routed k rest where
  counted := h.counted.judge fun i hi => by
    rw [hj] at hi
    exact Option.some.inj hi ▸ h.returned
  merged := h.merged
  returned := h.returned
  accepted := by
    obtain ⟨pcb, hpcb, hmem⟩ := h.accepted
    exact ⟨pcb, hpcb, List.mem_append_left _ hmem⟩
  unrefused := by
    intro j' hmem hj'
    rcases List.mem_append.mp hmem with hmem | hmem
    · exact h.unrefused j' hmem hj'
    · rw [List.mem_singleton.mp hmem, hj, h.merged] at hj'
      cases hj'
  fresh := by
    intro c' hc' j' hmem hj'
    rcases List.mem_append.mp hmem with hmem | hmem
    · exact h.fresh c' (List.mem_cons_of_mem c hc') j' hmem hj'
    · rw [List.mem_singleton.mp hmem, hj] at hj'
      obtain rfl := (Origin.trimmed.inj hj').2
      exact hc hc'

/-- A trim that is accepted stands. -/
theorem Books.Trimming.stands_trim {b : Books w} {c : Rat} {rest : List Rat}
    (h : b.Trimming routed k (c :: rest)) {trimmed : w.Board} {pcb : w.Pcb}
    (hpcb : Assembled trimmed pcb) :
    (b.judge { origin := .trimmed k c, pcb := some pcb, verdict := .ok true }).Stands opts
      (trimmed, .trimmed k c) where
  session := ⟨k, rfl, h.returned⟩
  accepted := fun _ => ⟨pcb, hpcb, List.mem_append_right _ (List.mem_singleton.mpr rfl)⟩
  unrefused := by
    intro _ j hmem hj
    rcases List.mem_append.mp hmem with hmem | hmem
    · exact absurd hj (h.fresh c List.mem_cons_self j hmem)
    · rw [List.mem_singleton.mp hmem]

/-- The verdict on a trim: an accepted one stands, and else the routed board does. -/
def trimVerdict (opts : LayoutOptions) (routed trimmed : w.Board × Origin) (k : Nat)
    (rest : List Rat) : Except Text Bool → Books w → Prop
  | .ok true, b => b.Counted ∧ b.Stands opts trimmed
  | _, b => b.Trimming routed k rest

variable (opts) in
theorem holds_judge {c : Rat} {rest : List Rat} (hc : c ∉ rest) (trimmed : w.Board) :
    Holds E (fun b => b.Trimming routed k (c :: rest)) (judge w.tagged (trimmed, .trimmed k c))
      (trimVerdict opts routed (trimmed, .trimmed k c) k rest) := by
  refine Holds.catching (E := fun b => b.Trimming routed k rest) ?_
    fun e => holds_done fun b hb => hb
  refine Holds.andThen (holds_assemble
    (Q := fun a b => a.1.2 = .trimmed k c ∧ Assembled trimmed a.1.1 ∧
      b.Trimming routed k (c :: rest)) _ (fun why b hb => hb.judge hc rfl)
    fun pcb notes b hpcb hb => ⟨rfl, hpcb, hb⟩) fun assembled => ?_
  obtain ⟨⟨pcb, origin⟩, notes⟩ := assembled
  refine Holds.andThen (holds_notaryDrc
    (Q := fun clean => trimVerdict opts routed (trimmed, .trimmed k c) k rest (.ok clean))
    (pcb, origin) (fun why b hb => hb.2.2.judge hc hb.1) fun clean b hb => ?_)
    fun clean => holds_done fun b hb => hb
  obtain ⟨horigin, hpcb, hb⟩ := hb
  dsimp only at horigin hpcb
  rw [horigin]
  cases clean with
  | true => exact ⟨(hb.judge hc rfl).counted, hb.stands_trim hpcb⟩
  | false => exact hb.judge hc rfl

variable (opts) in
theorem holds_trimAccepted (hmerged : routed.2 = .merged k) {clearances : List Rat}
    (hn : clearances.Nodup) :
    Holds E (fun b => b.Trimming routed k clearances) (trimAccepted w.tagged routed clearances)
      fun r b => b.Counted ∧ b.Stands opts r.1 := by
  induction clearances with
  | nil => exact holds_done fun b hb => ⟨hb.counted, hb.stands⟩
  | cons c rest ih =>
    have hc := (List.nodup_cons.mp hn).1
    unfold trimAccepted
    dsimp only
    cases w.shrinkBoardToContent routed.1 c with
    | none => exact holds_done fun b hb => ⟨hb.counted, hb.stands⟩
    | some trimmed =>
      rw [hmerged]
      dsimp only [Option.map_some, Origin.trim]
      refine Holds.andThen (holds_judge opts hc trimmed) fun verdict => ?_
      cases verdict with
      | error why =>
        exact holds_done fun b (hb : b.Trimming routed k rest) => ⟨hb.counted, hb.stands⟩
      | ok clean =>
        cases clean with
        | true => exact holds_done fun b hb => hb
        | false => exact ih (List.nodup_cons.mp hn).2

/-! ## Routing -/

/-- What a margin leaves: counted books, and an accepted board stands. -/
def Routed (opts : LayoutOptions) (r : Option (w.tagged.Board × Option TrimOutcome)) (b : Books w) :
    Prop :=
  b.Counted ∧ ∀ route ∈ r, b.Stands opts route.1

/-- A session that was just returned has not been merged yet. -/
structure Books.Fresh (b : Books w) (k : Nat) : Prop where
  counted : b.Counted
  returned : k < b.sessions.length
  unjudged : ∀ j ∈ b.judgements, j.origin.session? ≠ some k

theorem Books.Counted.fresh {b : Books w} (h : b.Counted) (ses : w.Ses) :
    Books.Fresh { sessions := b.sessions ++ [ses], judgements := b.judgements }
      b.sessions.length where
  counted := fun j hj i hi => by
    rw [List.length_append]
    exact Nat.lt_add_right _ (h j hj i hi)
  returned := by
    rw [List.length_append]
    exact Nat.lt_succ_self _
  unjudged := fun j hj hk => Nat.lt_irrefl _ (h j hj _ hk)

/-- A judgement of the board that is merged from a fresh session keeps the books counted. -/
theorem Books.Fresh.judge {b : Books w} (h : b.Fresh k) {j : Judgement w}
    (hj : j.origin = .merged k) : (b.judge j).Counted :=
  h.counted.judge fun i hi => by
    rw [hj] at hi
    exact Option.some.inj hi ▸ h.returned

/-- An accepted board that is merged from a fresh session is ready to be trimmed. -/
theorem Books.Fresh.trimming {b : Books w} (h : b.Fresh k) {board : w.Board} {pcb : w.Pcb}
    (hpcb : Assembled board pcb) (clearances : List Rat) :
    (b.judge { origin := .merged k, pcb := some pcb, verdict := .ok true }).Trimming
      (board, .merged k) k clearances where
  counted := h.judge rfl
  merged := rfl
  returned := h.returned
  accepted := ⟨pcb, hpcb, List.mem_append_right _ (List.mem_singleton.mpr rfl)⟩
  unrefused := by
    intro j hmem hj
    rcases List.mem_append.mp hmem with hmem | hmem
    · exact absurd (congrArg Origin.session? hj) (h.unjudged j hmem)
    · rw [List.mem_singleton.mp hmem]
  fresh := by
    intro c _ j hmem hj
    rcases List.mem_append.mp hmem with hmem | hmem
    · exact absurd (congrArg Origin.session? hj) (h.unjudged j hmem)
    · rw [List.mem_singleton.mp hmem] at hj
      cases hj

theorem nodup_trimClearances : trimClearances.Nodup := by decide +kernel

theorem holds_routeMargin (evaluated : w.tagged.Board) (widths : w.Widths) (marginMm : Rat) :
    Holds Books.Counted Books.Counted (routeMargin w.tagged opts evaluated widths marginMm)
      (Routed opts) := by
  unfold routeMargin
  refine Holds.andThen (Q := fun _ => Books.Counted) (holds_lift (fun _ hb => hb) fun _ _ hb => hb)
    fun dsn => ?_
  refine Holds.andThen (Q := fun ses b => b.Fresh ses.2) (holds_freeroute (w := w) dsn
    (fun _ hb => hb) fun ses b (hb : b.Counted) => hb.fresh ses) fun ses => ?_
  obtain ⟨ses, k⟩ := ses
  have hmerge : Holds Books.Counted (fun b : Books w => b.Fresh k)
      (outside (w := w.tagged) (w.tagged.mergeSes (w.tagged.enlargeBoard evaluated marginMm) dsn
        (ses, k))) fun board b => board.2 = .merged k ∧ b.Fresh k :=
    holds_lift (fun _ hb => hb.counted) fun _ _ hb => ⟨rfl, hb⟩
  split
  case isTrue hnotary =>
    refine Holds.andThen hmerge fun routed => ?_
    obtain ⟨routed, origin⟩ := routed
    refine Holds.andThen (holds_assemble
      (Q := fun a b =>
        a.1.2 = .merged k ∧ origin = .merged k ∧ Assembled routed a.1.1 ∧ b.Fresh k) _
      (fun why b hb => hb.2.judge hb.1) fun pcb notes b hpcb hb => ⟨hb.1, hb.1, hpcb, hb.2⟩)
      fun assembled => ?_
    obtain ⟨⟨pcb, origin'⟩, notes⟩ := assembled
    refine Holds.andThen (holds_notaryDrc (Q := fun clean b => origin = .merged k ∧ b.Counted ∧
      (clean = true → b.Trimming (routed, .merged k) k trimClearances)) (pcb, origin')
      (fun why b hb => hb.2.2.2.judge hb.1) fun clean b hb => ?_) fun clean => ?_
    · obtain ⟨horigin, horigin', hpcb, hb⟩ := hb
      dsimp only at horigin horigin' hpcb
      rw [horigin]
      refine ⟨horigin', hb.judge rfl, fun hclean => ?_⟩
      rw [hclean]
      exact hb.trimming hpcb _
    · split
      case isTrue hclean =>
        refine holds_of_pre fun horigin => ?_
        rw [horigin]
        refine Holds.andThen ((holds_trimAccepted opts rfl nodup_trimClearances).mono
          (fun b hb => hb.2 hclean) fun r b hb => hb) fun r => holds_done fun b hb => ?_
        refine ⟨hb.1, fun route hr => ?_⟩
        obtain rfl := Option.some.inj hr
        exact hb.2
      case isFalse =>
        exact holds_done fun b hb => ⟨hb.2.1, fun _ hr => absurd hr (Option.not_mem_none _)⟩
  case isFalse hnotary =>
    split
    · refine Holds.andThen hmerge fun routed => holds_done fun b hb => ?_
      refine ⟨hb.2.counted, fun route hr => ?_⟩
      obtain rfl := Option.some.inj hr
      exact ⟨⟨k, by rw [hb.1]; rfl, hb.2.returned⟩, fun h => absurd h hnotary,
        fun h => absurd h hnotary⟩
    · exact holds_done fun b hb => ⟨hb.counted, fun _ hr => absurd hr (Option.not_mem_none _)⟩

theorem holds_throwIfAborted (place : Bool → Check) (herror : ∀ b, B b → E b) :
    Holds E B (throwIfAborted w.tagged opts place) fun _ => B := by
  unfold throwIfAborted
  split
  · refine Holds.andThen (Q := fun _ => B) (holds_lift herror fun _ _ hb => hb) fun aborted => ?_
    refine Holds.andThen (holds_note _) fun _ => ?_
    split
    · exact holds_throw herror
    · exact holds_done fun _ hb => hb
  · exact holds_done fun _ hb => hb

theorem holds_routeMargins (evaluated : w.tagged.Board) (widths : w.Widths) (offered : Nat)
    (margins : List Rat) (tried : Nat) :
    Holds Books.Counted Books.Counted
      (routeMargins w.tagged opts evaluated widths offered margins tried)
      fun r b => b.Counted ∧ ∀ route ∈ r.accepted, b.Stands opts route.1 := by
  induction margins generalizing tried with
  | nil => exact holds_done fun b hb => ⟨hb, fun _ hr => absurd hr (Option.not_mem_none _)⟩
  | cons marginMm rest ih =>
    unfold routeMargins
    refine Holds.andThen (holds_throwIfAborted _ fun _ hb => hb) fun _ => ?_
    refine Holds.andThen (Holds.catching (holds_routeMargin evaluated widths marginMm)
      fun e => holds_throw fun _ hb => hb) fun attempt => ?_
    cases attempt with
    | none => exact (ih _).mono (fun _ hb => hb.1) fun _ _ hb => hb
    | some route =>
      refine holds_done fun b hb => ⟨hb.1, fun route hr => ?_⟩
      obtain rfl := Option.some.inj hr
      exact hb.2 _ rfl

/-- A routed outcome stands, and any other one is the drawn board, and is not called clean. -/
structure RouteStands (opts : LayoutOptions) (o : QualityRouteOutcome w.tagged) (b : Books w) :
    Prop where
  counted : b.Counted
  routed : o.qualityApplied = true → o.clean = opts.notaryDrc ∧ b.Stands opts o.routedBoard
  local' : o.qualityApplied = false → o.clean = false ∧ o.routedBoard.2 = .drawn

theorem holds_marginOutcome {evaluated : w.tagged.Board} (hdrawn : evaluated.2 = .drawn)
    (best : MarginRoute w.tagged) :
    Holds E (fun b => b.Counted ∧ ∀ route ∈ best.accepted, b.Stands opts route.1)
      (marginOutcome w.tagged opts evaluated best) (RouteStands opts) := by
  unfold marginOutcome
  split
  case h_1 =>
    exact Holds.andThen (holds_push _) fun _ => holds_done fun b hb =>
      ⟨hb.1, fun h => absurd h Bool.false_ne_true, fun _ => ⟨rfl, hdrawn⟩⟩
  case h_2 board trim marginMm haccepted =>
    refine Holds.andThen (holds_push _) fun _ => Holds.andThen (holds_push _) fun _ => ?_
    refine holds_done fun b hb => ⟨hb.1, fun _ => ⟨rfl, hb.2 _ haccepted⟩, fun h => ?_⟩
    exact absurd h.symm Bool.false_ne_true

theorem holds_faultOutcome {evaluated : w.tagged.Board} (hdrawn : evaluated.2 = .drawn)
    (e : Thrown) :
    Holds E Books.Counted (faultOutcome w.tagged evaluated e) (RouteStands opts) :=
  Holds.andThen (holds_push _) fun _ => holds_done fun _ hb =>
    ⟨hb, fun h => absurd h Bool.false_ne_true, fun _ => ⟨rfl, hdrawn⟩⟩

variable (opts) in
theorem holds_applyQualityRoute {evaluated : w.tagged.Board} (hdrawn : evaluated.2 = .drawn)
    (widths : w.Widths) :
    Holds E Books.Counted (applyQualityRoute w.tagged opts evaluated widths)
      (RouteStands opts) := by
  have hlocal : ∀ {reason cause}, ∀ b : Books w, b.Counted → RouteStands opts
      { routedBoard := evaluated, qualityApplied := false, clean := false, reason := reason
        cause := cause } b := fun b hb =>
    ⟨hb, fun h => absurd h Bool.false_ne_true, fun _ => ⟨rfl, hdrawn⟩⟩
  unfold applyQualityRoute
  split
  · exact holds_done hlocal
  · split
    · exact Holds.andThen (holds_push _) fun _ => holds_done hlocal
    · refine Holds.catching ?_ (holds_faultOutcome hdrawn)
      exact Holds.andThen (holds_routeMargins evaluated widths _ _ _) (holds_marginOutcome hdrawn)

/-! ## Placement -/

/-- A drawn board with the route that it may have brought along. -/
def PlacedStands (opts : LayoutOptions) (p : Placed w.tagged) (b : Books w) : Prop :=
  b.Counted ∧ p.drawn.evaluated.2 = .drawn ∧ ∀ route ∈ p.route, RouteStands opts route b

/-- What a placement draws is a drawn board. -/
theorem holds_attempt (layout : w.Layoutability) (adapted : w.Adapted) (board : w.tagged.Board)
    (spacingMm : Option Rat) (adoptOnValidity : Bool) :
    Holds Books.Counted Books.Counted
      (outside (w.tagged.attemptAutoPlacement layout adapted board spacingMm adoptOnValidity))
      fun a b => b.Counted ∧ ∀ p ∈ a.placed, p.2.1.2 = .drawn := by
  refine holds_lift (fun _ hb => hb) fun a b hb => ⟨hb, fun p hp => ?_⟩
  obtain ⟨p', -, rfl⟩ := Option.map_eq_some_iff.mp hp
  rfl

theorem holds_rescueOverlaps (layout : w.Layoutability) (adapted : w.Adapted)
    {drawn : Drawn w.tagged} (hdrawn : drawn.evaluated.2 = .drawn) :
    Holds Books.Counted Books.Counted (rescueOverlaps w.tagged layout adapted drawn)
      fun d b => b.Counted ∧ d.evaluated.2 = .drawn := by
  refine Holds.andThen holds_reported fun notes => ?_
  dsimp only
  split
  · refine Holds.andThen (holds_attempt layout adapted drawn.evaluated none true) fun rescue => ?_
    refine Holds.andThen (holds_push _) fun _ => ?_
    split
    case h_1 code evaluated parity hadopted hplaced =>
      refine Holds.andThen (Q := fun _ b => b.Counted ∧ evaluated.2 = .drawn)
        (Proc.meets_modify fun d hb => ⟨hb.1, hb.2 _ hplaced⟩) fun _ => holds_done fun _ hb => hb
    case h_2 => exact holds_done fun b hb => ⟨hb.1, hdrawn⟩
  · exact holds_done fun b hb => ⟨hb, hdrawn⟩

theorem holds_placeOnce (layout : w.Layoutability) (adapted : w.Adapted)
    {grid : Placed w.tagged} (hdrawn : grid.drawn.evaluated.2 = .drawn)
    (hroute : grid.route = none) :
    Holds Books.Counted Books.Counted (placeOnce w.tagged opts layout adapted grid)
      fun p b => b.Counted ∧ ∀ placed ∈ p, placed.drawn.evaluated.2 = .drawn ∧
        placed.route = none := by
  unfold placeOnce
  split
  · refine Holds.andThen (holds_attempt layout adapted grid.drawn.evaluated none false)
      fun auto => ?_
    refine Holds.andThen (holds_push _) fun _ => ?_
    dsimp only
    split
    · exact holds_done fun b hb => ⟨hb.1, fun _ hp => absurd hp (Option.not_mem_none _)⟩
    · refine holds_done fun b hb => ⟨hb.1, fun placed hp => ?_⟩
      obtain rfl := Option.some.inj hp
      refine ⟨?_, rfl⟩
      dsimp only
      split
      case h_1 code evaluated parity hadopted hplaced => exact hb.2 _ hplaced
      case h_2 => exact hdrawn
  · refine holds_done fun b hb => ⟨hb, fun placed hp => ?_⟩
    obtain rfl := Option.some.inj hp
    exact ⟨hdrawn, hroute⟩

variable (opts) in
theorem holds_climbLadder (layout : w.Layoutability) (adapted : w.Adapted) (widths : w.Widths)
    (spacings : List (Option Rat)) {placed : Placed w.tagged}
    (hdrawn : placed.drawn.evaluated.2 = .drawn) (hroute : placed.route = none) :
    Holds Books.Counted Books.Counted
      (climbLadder w.tagged opts layout adapted widths spacings placed)
      fun p b => b.Counted ∧ ∀ placed ∈ p, PlacedStands opts placed b := by
  induction spacings generalizing placed with
  | nil =>
    refine holds_done fun b hb => ⟨hb, fun p hp => ?_⟩
    obtain rfl := Option.some.inj hp
    refine ⟨hb, hdrawn, fun route hr => ?_⟩
    rw [hroute] at hr
    exact absurd hr (Option.not_mem_none _)
  | cons spacingMm rest ih =>
    have hkept : ∀ {reason}, ∀ b : Books w, b.Counted → b.Counted ∧
        ∀ p ∈ some { placed with reason := reason }, PlacedStands opts p b := by
      intro reason b hb
      refine ⟨hb, fun p hp => ?_⟩
      obtain rfl := Option.some.inj hp
      refine ⟨hb, hdrawn, fun route hr => ?_⟩
      rw [hroute] at hr
      exact absurd hr (Option.not_mem_none _)
    unfold climbLadder
    refine Holds.andThen (holds_throwIfAborted _ fun _ hb => hb) fun _ => ?_
    refine Holds.andThen (holds_attempt layout adapted placed.drawn.evaluated spacingMm false)
      fun auto => ?_
    refine Holds.andThen (holds_push _) fun _ => ?_
    dsimp only
    split
    · exact holds_done fun b hb => ⟨hb.1, fun _ hp => absurd hp (Option.not_mem_none _)⟩
    · split
      case h_2 => exact holds_done fun b hb => hkept b hb.1
      case h_1 code evaluated parity hadopted hplaced =>
        refine Holds.mono (B := fun b => evaluated.2 = .drawn ∧ b.Counted)
          (holds_of_pre fun hevaluated => ?_) (fun b hb => ⟨hb.2 _ hplaced, hb.1⟩)
          fun _ _ hb => hb
        refine Holds.andThen (holds_applyQualityRoute opts hevaluated widths)
          fun attempt => ?_
        split
        · refine holds_done fun b hb => ⟨hb.counted, fun p hp => ?_⟩
          obtain rfl := Option.some.inj hp
          refine ⟨hb.counted, hevaluated, fun route hr => ?_⟩
          obtain rfl := Option.some.inj hr
          exact hb
        · split
          · exact holds_done fun b hb => hkept b hb.counted
          · refine Holds.andThen (holds_push _) fun _ => Holds.mono (ih ?_ ?_)
              (fun b (hb : RouteStands opts attempt b) => hb.counted) fun _ _ hb => hb
            · exact hdrawn
            · exact hroute

/-! ## Delivery -/

/-- What a result owes to the books. -/
structure Owes (opts : LayoutOptions) (r : LayoutResult w.tagged) (b : Books w) : Prop where
  routed : r.delivery.quality = true →
    r.delivery.drcCertified = opts.notaryDrc ∧ ∃ board, r.evaluated = some board ∧
      b.Stands opts board ∧
      ∀ gerbers pcb, r.outputs = some (gerbers, pcb) → Assembled board.1 pcb.1
  local' : r.delivery.quality = false →
    r.delivery.drcCertified = false ∧ ∀ board ∈ r.evaluated, board.2 = .drawn
  delivered : r.delivery.quality = true → r.outputs.isSome

theorem holds_finish {placed : Placed w.tagged} (widths : w.Widths) :
    Holds Books.Counted (PlacedStands opts placed) (finish w.tagged opts widths placed)
      (Owes opts) := by
  have hroute : Holds Books.Counted (PlacedStands opts placed)
      (finalRoute w.tagged opts widths placed) (RouteStands opts) := by
    unfold finalRoute
    split
    case h_1 route hr => exact holds_done fun b hb => hb.2.2 route hr
    case h_2 =>
      refine Holds.mono (B := fun b => placed.drawn.evaluated.2 = .drawn ∧ b.Counted)
        (holds_of_pre fun hdrawn => holds_applyQualityRoute opts hdrawn widths)
        (fun b hb => ⟨hb.2.1, hb.1⟩) fun _ _ hb => hb
  refine Holds.andThen hroute fun route => ?_
  refine Holds.andThen (holds_push _) fun _ => Holds.andThen (holds_push _) fun _ => ?_
  refine Holds.andThen (Q := fun _ => RouteStands opts route)
    (holds_lift (fun b (hb : RouteStands opts route b) => hb.counted) fun _ _ hb => hb)
    fun gerbers => ?_
  refine Holds.andThen (holds_assemble (B := RouteStands opts route) (Q := fun a b =>
    Assembled route.routedBoard.1 a.1.1 ∧ RouteStands opts route b) _ (fun why b hb => ?_)
    fun pcb notes b hpcb hb => ⟨hpcb, hb⟩) fun assembled => ?_
  · refine hb.counted.judge fun k hk => ?_
    cases hquality : route.qualityApplied with
    | true =>
      obtain ⟨k', hk', hlt⟩ := (hb.routed hquality).2.session
      obtain rfl := Option.some.inj (hk'.symm.trans hk)
      exact hlt
    | false =>
      dsimp only at hk
      rw [(hb.local' hquality).2] at hk
      cases hk
  refine Holds.andThen (holds_push _) fun _ => Holds.andThen holds_reported fun diagnostics => ?_
  refine holds_done fun b hb => ⟨fun hquality => ?_, fun hquality => ?_, fun _ => rfl⟩
  · obtain ⟨hclean, hstands⟩ := hb.2.routed hquality
    refine ⟨hclean, route.routedBoard, rfl, hstands, fun gerbers' pcb hpcb => ?_⟩
    obtain rfl := (Prod.mk.inj (Option.some.inj hpcb)).2
    exact hb.1
  · obtain ⟨hclean, hdrawn⟩ := hb.2.local' hquality
    refine ⟨hclean, fun board hboard => ?_⟩
    obtain rfl := Option.some.inj hboard
    exact hdrawn

theorem holds_failed : Holds Books.Counted Books.Counted (failed w.tagged opts) (Owes opts) :=
  Holds.andThen holds_reported fun _ => holds_done fun _ _ =>
    ⟨fun h => absurd h Bool.false_ne_true,
      fun _ => ⟨rfl, fun _ hb => absurd hb (Option.not_mem_none _)⟩,
      fun h => absurd h Bool.false_ne_true⟩

theorem holds_placeAndRoute (layout : w.Layoutability) (adapted : w.Adapted)
    {drawn : Drawn w.tagged} (hdrawn : drawn.evaluated.2 = .drawn) :
    Holds Books.Counted Books.Counted (placeAndRoute w.tagged opts layout adapted drawn)
      (Owes opts) := by
  refine Holds.andThen (@holds_placeOnce w opts layout adapted (onGrid w.tagged opts drawn)
    hdrawn rfl) fun placed => ?_
  match placed with
  | none => exact holds_failed.mono (fun _ hb => hb.1) fun _ _ hb => hb
  | some placed =>
    refine Holds.andThen (holds_push _) fun _ => ?_
    refine Holds.mono (B := fun b => (placed.drawn.evaluated.2 = .drawn ∧ placed.route = none) ∧
      b.Counted) (holds_of_pre fun hplaced => ?_) (fun b hb => ⟨hb.2 _ rfl, hb.1⟩) fun _ _ hb => hb
    refine Holds.andThen (holds_climbLadder opts layout adapted _ _ hplaced.1 hplaced.2)
      fun placed => ?_
    match placed with
    | none => exact holds_failed.mono (fun _ hb => hb.1) fun _ _ hb => hb
    | some placed => exact (holds_finish _).mono (fun _ hb => hb.2 _ rfl) fun _ _ hb => hb

theorem holds_drawGrid (layout : w.Layoutability) :
    Holds Books.Counted Books.Counted (drawGrid w.tagged layout)
      fun r b => b.Counted ∧ r.2.evaluated.2 = .drawn := by
  refine Holds.andThen (holds_push _) fun _ => ?_
  refine Holds.andThen (Q := fun evaluated b => b.Counted ∧ evaluated.2 = .drawn)
    (holds_lift (fun _ hb => hb) fun _ _ hb => ⟨hb, rfl⟩) fun evaluated => ?_
  refine Holds.andThen (holds_push _) fun _ => Holds.andThen (holds_push _) fun _ => ?_
  refine Holds.mono (B := fun b => evaluated.2 = .drawn ∧ b.Counted)
    (holds_of_pre fun hdrawn => ?_) (fun b hb => ⟨hb.2, hb.1⟩) fun _ _ hb => hb
  exact Holds.andThen (holds_rescueOverlaps layout _ hdrawn) fun drawn => holds_done fun _ hb => hb

theorem holds_layoutCircuit :
    Holds Books.Counted Books.Counted (layoutCircuit w.tagged opts) (Owes opts) := by
  refine Holds.andThen (holds_push _) fun _ => ?_
  refine Holds.andThen (Q := fun _ => Books.Counted) (holds_lift (fun _ hb => hb) fun _ _ hb => hb)
    fun padCount => ?_
  refine Holds.andThen (holds_push _) fun _ => ?_
  dsimp only
  split
  · exact holds_failed
  · refine Holds.andThen (holds_drawGrid _) fun drawn => Holds.andThen holds_reported fun _ => ?_
    refine Holds.mono (B := fun b => drawn.2.evaluated.2 = .drawn ∧ b.Counted)
      (holds_of_pre fun hdrawn => ?_) (fun b hb => ⟨hb.2, hb.1⟩) fun _ _ hb => hb
    split
    · exact holds_placeAndRoute _ _ hdrawn
    · refine holds_done fun b hb => ⟨fun h => absurd h Bool.false_ne_true, fun _ => ⟨rfl, ?_⟩,
        fun h => absurd h Bool.false_ne_true⟩
      intro board hboard
      obtain rfl := Option.some.inj hboard
      exact hdrawn

/-! ## What is certified -/

/-- A call with its record. -/
def runRecorded (w : Workshop) (opts : LayoutOptions) (world : w.World) :
    Except Thrown (LayoutResult w.tagged) × Logged (Desk w.tagged) Check :=
  runLayout w.tagged opts { world := world }

/-- The books at the end of a call. -/
def finalBooks (w : Workshop) (opts : LayoutOptions) (world : w.World) : Books w :=
  books (runRecorded w opts world).2.state

/-- The call is the recorded one without its record. -/
theorem runLayout_eq (w : Workshop) (opts : LayoutOptions) (world : w.World) :
    (runLayout w opts world).1 = (runRecorded w opts world).1.map LayoutResult.untag ∧
      (runLayout w opts world).2.state = untagDesk (runRecorded w opts world).2.state := by
  have h : layoutCircuit w opts
      (Proc.without untagDesk
        { state := { world := { world := world }, diagnostics := [] }, log := [] })
      = _ := records_layoutCircuit opts _
  change runLayout w opts world = _ at h
  rw [h]
  exact ⟨rfl, rfl⟩

/-- What a call returns owes to its books. -/
theorem owes_of_runRecorded {world : w.World} {result : LayoutResult w.tagged}
    (h : (runRecorded w opts world).1 = .ok result) :
    Owes opts result (finalBooks w opts world) := by
  have hholds : Holds Books.Counted Books.Counted (layoutCircuit w.tagged opts) (Owes opts) :=
    holds_layoutCircuit
  have hleaves := hholds { state := { world := { world := world }, diagnostics := [] }, log := [] }
    fun _ hj => absurd hj List.not_mem_nil
  change Leaves _ _ (runRecorded w opts world).1 (finalBooks w opts world) at hleaves
  rw [h] at hleaves
  exact hleaves

/-- `assembleKicadPcb` is a function of the board. -/
def Workshop.AssemblesAlike (w : Workshop) : Prop :=
  ∃ assembled : w.Board → Except Text (w.Pcb × List LayoutNote),
    ∀ board world, (w.assembleKicadPcb board world).1 = assembled board

theorem Assembled.unique (hdet : w.AssemblesAlike) {board : w.Board} {pcb pcb' : w.Pcb}
    (h : Assembled board pcb) (h' : Assembled board pcb') : pcb = pcb' := by
  obtain ⟨assembled, hassembled⟩ := hdet
  obtain ⟨world, notes, h⟩ := h
  obtain ⟨world', notes', h'⟩ := h'
  rw [hassembled] at h h'
  exact congrArg Prod.fst (Except.ok.inj (h.symm.trans h'))

/-- A board file and a project file that the notary accepted in one call; the project file is
`kicadProjectJson(profile)` whenever the notary is asked. -/
def Books.Accepted {Pro : Type} (b : Books w) (kicadPro : Pro) (pair : w.Pcb × Pro) : Prop :=
  pair.2 = kicadPro ∧ ∃ j ∈ b.judgements, j.pcb = some pair.1 ∧ j.verdict = .ok true

/-- The pair that is delivered. -/
def LayoutResult.pair {Pro : Type} (r : LayoutResult w.tagged) (kicadPro : Pro) :
    Option (w.Pcb × Pro) :=
  r.outputs.map fun o => (o.2.1, kicadPro)

/-- A certified board carries a pair that the notary accepted, the tier is `quality` exactly for a
board merged from a session of this call, and with a notary it is then one that was accepted and
on which no judgement of this call refused or failed.  The boards of a call are told apart by where
they come from. -/
theorem certified_means_judged {Profile Pro : Type} (kicadProjectJson : Profile → Pro)
    (profile : Profile) (w : Workshop) (opts : LayoutOptions) (hdet : w.AssemblesAlike)
    (world : w.World) :
    let run := runRecorded w opts world
    let b := finalBooks w opts world
    (runLayout w opts world).1 = run.1.map LayoutResult.untag ∧
      ∀ result, run.1 = .ok result →
        (result.delivery.drcCertified = true →
          ∃ pair, result.pair (kicadProjectJson profile) = some pair ∧
            b.Accepted (kicadProjectJson profile) pair) ∧
        (result.delivery.quality = true ↔ ∃ board k ses, result.evaluated = some board ∧
          board.2.session? = some k ∧ b.sessions[k]? = some ses) ∧
        (opts.notaryDrc = true → result.delivery.quality = true →
          ∃ board, result.evaluated = some board ∧
            (∃ j ∈ b.judgements, j.origin = board.2 ∧ j.verdict = .ok true) ∧
            ∀ j ∈ b.judgements, j.origin = board.2 → j.verdict = .ok true) := by
  intro run b
  refine ⟨(runLayout_eq w opts world).1, fun result hresult => ?_⟩
  have howes := owes_of_runRecorded hresult
  refine ⟨fun hcertified => ?_, ⟨fun hquality => ?_, ?_⟩, fun hnotary hquality => ?_⟩
  · cases hquality : result.delivery.quality with
    | false =>
      rw [(howes.local' hquality).1] at hcertified
      cases hcertified
    | true =>
      obtain ⟨hclean, board, -, hstands, houtputs⟩ := howes.routed hquality
      obtain ⟨⟨gerbers, delivered⟩, hdelivered⟩ :=
        Option.isSome_iff_exists.mp (howes.delivered hquality)
      obtain ⟨pcb, hpcb, hmem⟩ := hstands.accepted (hclean.symm.trans hcertified)
      have hsame := hpcb.unique hdet (houtputs gerbers delivered hdelivered)
      refine ⟨(delivered.1, kicadProjectJson profile), ?_, rfl, _, hmem, ?_, rfl⟩
      · unfold LayoutResult.pair
        rw [hdelivered]
        rfl
      · rw [hsame]
  · obtain ⟨-, board, hboard, hstands, -⟩ := howes.routed hquality
    obtain ⟨k, hk, hlt⟩ := hstands.session
    exact ⟨board, k, _, hboard, hk, List.getElem?_eq_getElem hlt⟩
  · rintro ⟨board, k, ses, hboard, hk, -⟩
    cases hquality : result.delivery.quality with
    | true => rfl
    | false =>
      rw [(howes.local' hquality).2 board hboard] at hk
      cases hk
  · obtain ⟨-, board, hboard, hstands, -⟩ := howes.routed hquality
    obtain ⟨pcb, -, hmem⟩ := hstands.accepted hnotary
    exact ⟨board, hboard, ⟨_, hmem, rfl, rfl⟩, hstands.unrefused hnotary⟩

/-- Tools whose notary refuses at its first and third calls; the files are numbered by the router's
answers, and a shrunk board has a file of its own. -/
def refusingShop : Workshop where
  World := Nat
  PadCount := Unit
  Layoutability := Unit
  Adapted := Unit
  Board := Nat
  Parity := Unit
  Widths := Unit
  Dsn := Unit
  Ses := Nat
  Pcb := Nat
  Gerbers := Unit
  isAborted := fun n => (.ok false, n)
  loadPadCountOracle := fun n => (.ok (), n)
  evaluateTscircuit := fun _ n => (.ok 0, n)
  attemptAutoPlacement := fun _ _ _ _ _ n => (.ok { adopted := false, diagnostics := [] }, n)
  exportDsn := fun _ _ n => (.ok (), n)
  freeroute := fun _ n => (.ok (n + 1), n)
  mergeSes := fun _ _ ses n => (.ok ses, n)
  assembleKicadPcb := fun board n => (.ok (board, []), n)
  notaryDrc := fun _ n => (.ok (n == 1 || n == 3), n + 1)
  generateGerbers := fun _ n => (.ok (), n)
  profileNotes := []
  classifyCircuit := fun _ => ((), [], true)
  generateTscircuitCode := fun _ => ((), "<board />".toList, [])
  boardErrors := fun _ => []
  checkConnectivityParity := fun _ _ => ((), [])
  parityOk := fun _ => true
  computeIpcWidths := ((), [])
  enlargeBoard := fun board _ => board
  stripRouting := fun board => board
  fullyUnroutedNets := fun _ _ => 0
  shrinkBoardToContent := fun board _ => some (board + 10)
  boardSize := fun _ => []
  traces := fun _ => (1, 0)
  verifyPerNetWidths := fun _ _ => []
  reportViaCompliance := fun _ _ => []
  mm := fun _ => []

def refusingOptions : LayoutOptions where
  quality := true
  freeroute := true
  notaryDrc := true


/-- The second margin is accepted, its first trim is refused, and the second one is delivered. -/
theorem certified_means_judged_trimmed :
    ∃ result, (runRecorded refusingShop refusingOptions (0 : Nat)).1 = .ok result ∧
      result.delivery.drcCertified = true ∧ ∃ pair, result.pair () = some pair ∧
        (finalBooks refusingShop refusingOptions (0 : Nat)).Accepted () pair := by
  have hrun : (runRecorded refusingShop refusingOptions (0 : Nat)).1.toOption.any
      (fun result => result.delivery.drcCertified) = true := by decide +kernel
  cases hresult : (runRecorded refusingShop refusingOptions (0 : Nat)).1 with
  | error e =>
    rw [hresult] at hrun
    cases hrun
  | ok result =>
    rw [hresult] at hrun
    exact ⟨result, rfl, hrun, ((certified_means_judged (fun _ : Unit => ()) () refusingShop
      refusingOptions ⟨_, fun _ _ => rfl⟩ (0 : Nat)).2 result hresult).1 hrun⟩

end CircuitForge.Layouts
