/-
Families of refresh tokens.

What holds of the rows and of the writes under way, and one lemma for each write that
is made and for each commit.
-/
import CircuitForge.Api.Sessions

namespace CircuitForge.Sessions

open Js Requests Transactions

/-- `refresh` would exchange the token of this row. -/
def RefreshToken.Usable (r : RefreshToken) (now : Nat) : Prop :=
  r.usedAt = none ∧ r.revokedAt = none ∧ now < r.expiresAt

instance (r : RefreshToken) (now : Nat) : Decidable (r.Usable now) :=
  inferInstanceAs (Decidable (_ ∧ _ ∧ _))

/-- What is promised of the sessions. -/
structure Final (t : Tables) : Prop where
  /-- No token was exchanged twice. -/
  exchangedOnce : t.exchanged.Nodup
  /-- A family has one token that can be used at most. -/
  oneUsable : ∀ now, ∀ r ∈ t.refreshTokens, ∀ r' ∈ t.refreshTokens, r.Usable now → r'.Usable now →
    r.familyId = r'.familyId → r = r'
  /-- No token of a family that was revoked can be used. -/
  revokedDead : ∀ f ∈ t.revokedFamilies, ∀ r ∈ t.refreshTokens, r.familyId = f →
    ∀ now, ¬ r.Usable now

/-- A refresh claims a token that is not revoked and is not being revoked, and a revocation
starts while no refresh of a family it is about has claimed its token. -/
def Undisturbed (_input : Input) (_i : Nat) : Stmt → Db → Prop
  | .claim jti _, s => ∀ r ∈ s.committed.refreshTokens, r.jti = jti →
    r.revokedAt = none ∧ ∀ e ∈ s.pending, e.2.revokes r.familyId = false
  | .revoke which _, s => ∀ r ∈ s.committed.refreshTokens,
    r.familyId ∈ which.families s.committed.refreshTokens →
      ∀ e ∈ s.pending, e.2.uses r.jti = false
  | _, _ => True

instance (input : Input) (i : Nat) : ∀ st s, Decidable (Undisturbed input i st s)
  | .claim _ _, _ => inferInstanceAs (Decidable (∀ r ∈ _, _ → _ ∧ ∀ e ∈ _, _))
  | .revoke _ _, _ => inferInstanceAs (Decidable (∀ r ∈ _, _ → ∀ e ∈ _, _))
  | .now, _ | .userByEmail _, _ | .userById _, _ | .userByResetToken _ _, _ | .tokenByJti _, _
  | .begin, _ | .updateUser _ _, _ | .deleteExpired _ _, _ | .create _ _, _ | .commit, _
  | .rollback, _ => isTrue trivial

/-! ## The invariant -/

/-- The writes that are not committed, by program. -/
abbrev Writes : Type := Nat → Write → Prop

/-- Nobody is about to add a token to the family. -/
structure Quiet (t : Tables) (p : Writes) (f : Text) : Prop where
  known : ∃ q ∈ t.issued, q.familyId = f
  noSuccessor : ∀ i r, p i (.create r) → r.familyId ≠ f
  noClaim : ∀ i j now, p i (.use j now) → ∀ r ∈ t.refreshTokens, r.jti = j → r.familyId ≠ f

/-- What holds of the tables and of the writes under way. -/
structure Sound (t : Tables) (p : Writes) : Prop where
  issuedOnce : ∀ q ∈ t.issued, ∀ q' ∈ t.issued, q.jti = q'.jti → q = q'
  /-- A family belongs to one user. -/
  oneUser : ∀ q ∈ t.issued, ∀ q' ∈ t.issued, q.familyId = q'.familyId → q.userId = q'.userId
  issued : ∀ r ∈ t.refreshTokens, ∃ q ∈ t.issued, q.jti = r.jti ∧ q.familyId = r.familyId ∧
    q.userId = r.userId
  rowsOnce : ∀ r ∈ t.refreshTokens, ∀ r' ∈ t.refreshTokens, r.jti = r'.jti → r = r'
  /-- The head of a family is the token of it that is not used. -/
  oneHead : ∀ r ∈ t.refreshTokens, ∀ r' ∈ t.refreshTokens, r.usedAt = none → r'.usedAt = none →
    r.familyId = r'.familyId → r = r'
  claimed : ∀ i j now, p i (.use j now) → ∃ r ∈ t.refreshTokens, r.jti = j ∧ r.usedAt = none
  claimedOnce : ∀ i k j now now', p i (.use j now) → p k (.use j now') → i = k
  created : ∀ i r, p i (.create r) → r ∈ t.issued ∧ r.jti ∉ t.exchanged ∧
    ∀ q ∈ t.refreshTokens, q.jti ≠ r.jti
  createdOnce : ∀ i k r r', p i (.create r) → p k (.create r') → r.familyId = r'.familyId →
    i = k ∧ r = r'
  /-- A new token is the first of its family or succeeds one that its program claimed. -/
  succeeds : ∀ i r, p i (.create r) → (∀ q ∈ t.issued, q.familyId = r.familyId → q = r) ∨
    ∃ j now, p i (.use j now) ∧ ∃ q ∈ t.refreshTokens, q.jti = j ∧ q.familyId = r.familyId
  exchangedOnce : t.exchanged.Nodup
  exchangedUsed : ∀ j ∈ t.exchanged, (∃ q ∈ t.issued, q.jti = j) ∧
    ∀ r ∈ t.refreshTokens, r.jti = j → r.usedAt ≠ none
  revoked : ∀ f ∈ t.revokedFamilies, Quiet t p f ∧
    ∀ r ∈ t.refreshTokens, r.familyId = f → r.revokedAt ≠ none
  revoking : ∀ i fs js now, p i (.revoke fs js now) → ∀ f ∈ fs, Quiet t p f ∧
    ∀ r ∈ t.refreshTokens, r.familyId = f → r.jti ∈ js ∨ r.revokedAt ≠ none

theorem final_of_sound {t : Tables} {p : Writes} (h : Sound t p) : Final t where
  exchangedOnce := h.exchangedOnce
  oneUsable := fun _ r hr r' hr' hu hu' hf => h.oneHead r hr r' hr' hu.1 hu'.1 hf
  revokedDead := fun f hf r hr hrf _ hu => (h.revoked f hf).2 r hr hrf hu.2.1

theorem Quiet.mono {t : Tables} {p p' : Writes} {f : Text} (h : Quiet t p f)
    (hsub : ∀ i w, p' i w → p i w) : Quiet t p' f where
  known := h.known
  noSuccessor := fun i r hr => h.noSuccessor i r (hsub i _ hr)
  noClaim := fun i j now hj => h.noClaim i j now (hsub i _ hj)

/-! ## Writes that take effect -/

theorem used_jti (j : Text) (now : Nat) (r : RefreshToken) : (r.used j now).jti = r.jti := by
  rw [RefreshToken.used]
  split <;> rfl

theorem used_familyId (j : Text) (now : Nat) (r : RefreshToken) :
    (r.used j now).familyId = r.familyId := by
  rw [RefreshToken.used]
  split <;> rfl

theorem used_revokedAt (j : Text) (now : Nat) (r : RefreshToken) :
    (r.used j now).revokedAt = r.revokedAt := by
  rw [RefreshToken.used]
  split <;> rfl

theorem used_userId (j : Text) (now : Nat) (r : RefreshToken) :
    (r.used j now).userId = r.userId := by
  rw [RefreshToken.used]
  split <;> rfl

theorem used_usedAt_eq_none {j : Text} {now : Nat} {r : RefreshToken} :
    (r.used j now).usedAt = none ↔ r.usedAt = none ∧ r.jti ≠ j := by
  rw [RefreshToken.used]
  by_cases h : r.jti = j
  · simp [h]
  · simp [h]

theorem revoked_jti (js : List Text) (now : Nat) (r : RefreshToken) :
    (r.revoked js now).jti = r.jti := by
  rw [RefreshToken.revoked]
  split <;> rfl

theorem revoked_familyId (js : List Text) (now : Nat) (r : RefreshToken) :
    (r.revoked js now).familyId = r.familyId := by
  rw [RefreshToken.revoked]
  split <;> rfl

theorem revoked_userId (js : List Text) (now : Nat) (r : RefreshToken) :
    (r.revoked js now).userId = r.userId := by
  rw [RefreshToken.revoked]
  split <;> rfl

theorem revoked_usedAt (js : List Text) (now : Nat) (r : RefreshToken) :
    (r.revoked js now).usedAt = r.usedAt := by
  rw [RefreshToken.revoked]
  split <;> rfl

theorem revoked_revokedAt_eq_none {js : List Text} {now : Nat} {r : RefreshToken} :
    (r.revoked js now).revokedAt = none ↔ r.revokedAt = none ∧ r.jti ∉ js := by
  rw [RefreshToken.revoked]
  by_cases h : r.jti ∈ js ∧ r.revokedAt = none
  · simp [h]
  · rw [if_neg h]
    exact ⟨fun hr => ⟨hr, fun hj => h ⟨hj, hr⟩⟩, And.left⟩

/-- Rows replaced one by one keep what a family is about. -/
theorem Quiet.map {t : Tables} {p p' : Writes} {f : Text} {g : RefreshToken → RefreshToken}
    (h : Quiet t p f) (hsub : ∀ i w, p' i w → p i w) (hjti : ∀ r, (g r).jti = r.jti)
    (hfamily : ∀ r, (g r).familyId = r.familyId) {t' : Tables}
    (hrows : t'.refreshTokens = t.refreshTokens.map g) (hissued : t'.issued = t.issued) :
    Quiet t' p' f where
  known := hissued ▸ h.known
  noSuccessor := fun i r hr => h.noSuccessor i r (hsub i _ hr)
  noClaim := by
    intro i j now hj r hr hrj
    rw [hrows] at hr
    obtain ⟨q, hq, rfl⟩ := List.mem_map.mp hr
    rw [hjti] at hrj
    rw [hfamily]
    exact h.noClaim i j now (hsub i _ hj) q hq hrj

/-- The program of some writes forgets them. -/
theorem Sound.rollback {t : Tables} {p p' : Writes} (h : Sound t p) {i : Nat}
    (hp : ∀ k w, p' k w ↔ p k w ∧ k ≠ i) : Sound t p' := by
  have hsub : ∀ k w, p' k w → p k w := fun k w hw => ((hp k w).mp hw).1
  exact
    { issuedOnce := h.issuedOnce
      oneUser := h.oneUser
      issued := h.issued
      rowsOnce := h.rowsOnce
      oneHead := h.oneHead
      claimed := fun k j now hj => h.claimed k j now (hsub k _ hj)
      claimedOnce := fun k l j now now' hk hl => h.claimedOnce k l j now now' (hsub k _ hk) (hsub l _ hl)
      created := fun k r hr => h.created k r (hsub k _ hr)
      createdOnce := fun k l r r' hk hl => h.createdOnce k l r r' (hsub k _ hk) (hsub l _ hl)
      succeeds := by
        intro k r hr
        obtain ⟨hpr, hk⟩ := (hp k _).mp hr
        refine (h.succeeds k r hpr).imp_right ?_
        rintro ⟨j, now, hnow, hrow⟩
        exact ⟨j, now, (hp k _).mpr ⟨hnow, hk⟩, hrow⟩
      exchangedOnce := h.exchangedOnce
      exchangedUsed := h.exchangedUsed
      revoked := fun f hf => ⟨(h.revoked f hf).1.mono hsub, (h.revoked f hf).2⟩
      revoking := fun k fs js now hk f hf =>
        ⟨(h.revoking k fs js now (hsub k _ hk) f hf).1.mono hsub,
          (h.revoking k fs js now (hsub k _ hk) f hf).2⟩ }

/-- Rows that are replaced one by one are found by what the replacement keeps. -/
theorem map_once {rows : List RefreshToken} {g : RefreshToken → RefreshToken} {α : Type}
    {key : RefreshToken → α} (h : ∀ r ∈ rows, ∀ r' ∈ rows, key r = key r' → r = r')
    (hkey : ∀ r, key (g r) = key r) :
    ∀ r ∈ rows.map g, ∀ r' ∈ rows.map g, key r = key r' → r = r' := by
  intro r hr r' hr' he
  obtain ⟨q, hq, rfl⟩ := List.mem_map.mp hr
  obtain ⟨q', hq', rfl⟩ := List.mem_map.mp hr'
  rw [hkey, hkey] at he
  rw [h q hq q' hq' he]

theorem Sound.revoke {t : Tables} {p p' : Writes} (h : Sound t p) {i : Nat} {fs js : List Text}
    {now : Nat} (hi : p i (.revoke fs js now)) (hsub : ∀ k w, p' k w → p k w)
    (huses : ∀ k j at', p k (.use j at') → p' k (.use j at')) :
    Sound ((Write.revoke fs js now).apply t) p' := by
  have hquiet : ∀ f, Quiet t p f → Quiet ((Write.revoke fs js now).apply t) p' f := fun f hq =>
    hq.map hsub (revoked_jti js now) (revoked_familyId js now) rfl rfl
  exact
    { issuedOnce := h.issuedOnce
      oneUser := h.oneUser
      issued := by
        intro r hr
        obtain ⟨q, hq, rfl⟩ := List.mem_map.mp hr
        rw [revoked_jti, revoked_familyId, revoked_userId]
        exact h.issued q hq
      rowsOnce := map_once h.rowsOnce (revoked_jti js now)
      oneHead := by
        intro r hr r' hr' hu hu' hf
        obtain ⟨q, hq, rfl⟩ := List.mem_map.mp hr
        obtain ⟨q', hq', rfl⟩ := List.mem_map.mp hr'
        rw [revoked_usedAt] at hu hu'
        rw [revoked_familyId, revoked_familyId] at hf
        rw [h.oneHead q hq q' hq' hu hu' hf]
      claimed := by
        intro k j at' hj
        obtain ⟨r, hr, hrj, hu⟩ := h.claimed k j at' (hsub k _ hj)
        exact ⟨_, List.mem_map_of_mem hr, (revoked_jti js now r).trans hrj,
          (revoked_usedAt js now r).trans hu⟩
      claimedOnce := fun k l j a b hk hl => h.claimedOnce k l j a b (hsub k _ hk) (hsub l _ hl)
      created := by
        intro k r hr
        obtain ⟨hissued, hex, hrows⟩ := h.created k r (hsub k _ hr)
        refine ⟨hissued, hex, fun r' hr' => ?_⟩
        obtain ⟨q, hq, rfl⟩ := List.mem_map.mp hr'
        rw [revoked_jti]
        exact hrows q hq
      createdOnce := fun k l r r' hk hl => h.createdOnce k l r r' (hsub k _ hk) (hsub l _ hl)
      succeeds := by
        intro k r hr
        refine (h.succeeds k r (hsub k _ hr)).imp_right ?_
        rintro ⟨j, at', hat, q, hq, hqj, hqf⟩
        exact ⟨j, at', huses k j at' hat, _, List.mem_map_of_mem hq,
          (revoked_jti js now q).trans hqj, (revoked_familyId js now q).trans hqf⟩
      exchangedOnce := h.exchangedOnce
      exchangedUsed := by
        intro j hj
        refine ⟨(h.exchangedUsed j hj).1, fun r hr hrj => ?_⟩
        obtain ⟨q, hq, rfl⟩ := List.mem_map.mp hr
        rw [revoked_jti] at hrj
        rw [revoked_usedAt]
        exact (h.exchangedUsed j hj).2 q hq hrj
      revoked := by
        intro f hf
        rcases List.mem_append.mp hf with hf | hf
        · refine ⟨hquiet f (h.revoked f hf).1, fun r hr hrf hn => ?_⟩
          obtain ⟨q, hq, rfl⟩ := List.mem_map.mp hr
          rw [revoked_familyId] at hrf
          exact (h.revoked f hf).2 q hq hrf (revoked_revokedAt_eq_none.mp hn).1
        · obtain ⟨hq, hrows⟩ := h.revoking i fs js now hi f hf
          refine ⟨hquiet f hq, fun r hr hrf hn => ?_⟩
          obtain ⟨q, hq, rfl⟩ := List.mem_map.mp hr
          rw [revoked_familyId] at hrf
          obtain ⟨hnone, hnot⟩ := revoked_revokedAt_eq_none.mp hn
          exact (hrows q hq hrf).elim hnot fun hsome => hsome hnone
      revoking := by
        intro k fs' js' at' hk f hf
        obtain ⟨hq, hrows⟩ := h.revoking k fs' js' at' (hsub k _ hk) f hf
        refine ⟨hquiet f hq, fun r hr hrf => ?_⟩
        obtain ⟨q, hq, rfl⟩ := List.mem_map.mp hr
        rw [revoked_familyId] at hrf
        rw [revoked_jti]
        exact (hrows q hq hrf).imp_right fun hsome hn => hsome (revoked_revokedAt_eq_none.mp hn).1 }

/-- The commit of a new token, with the tokens its program claimed. -/
theorem Sound.settle {t t' : Tables} {p p' : Writes} (h : Sound t p) {i : Nat}
    (row : RefreshToken) (us : List Text) (g : RefreshToken → RefreshToken) (hi : p i (.create row))
    (hus : ∀ j, j ∈ us ↔ ∃ now, p i (.use j now)) (hnodup : us.Nodup)
    (hp : ∀ k w, p' k w ↔ p k w ∧ k ≠ i) (hjti : ∀ r, (g r).jti = r.jti)
    (hfamily : ∀ r, (g r).familyId = r.familyId) (huser : ∀ r, (g r).userId = r.userId)
    (hrevoked : ∀ r, (g r).revokedAt = r.revokedAt)
    (hused : ∀ r, (g r).usedAt = none ↔ r.usedAt = none ∧ r.jti ∉ us)
    (hrows : t'.refreshTokens = t.refreshTokens.map g ++ [row]) (hissued : t'.issued = t.issued)
    (hexchanged : t'.exchanged = t.exchanged ++ us)
    (hfamilies : t'.revokedFamilies = t.revokedFamilies) : Sound t' p' := by
  have hsub : ∀ k w, p' k w → p k w := fun k w hw => ((hp k w).mp hw).1
  obtain ⟨hnew, hnex, hnrow⟩ := h.created i row hi
  have hmem : ∀ r, r ∈ t'.refreshTokens ↔ (∃ q ∈ t.refreshTokens, g q = r) ∨ r = row := fun r => by
    rw [hrows, List.mem_append, List.mem_map, List.mem_singleton]
  have hclaim : ∀ j ∈ us, ∃ q ∈ t.refreshTokens, q.jti = j ∧ q.usedAt = none := fun j hj => by
    obtain ⟨now, hnow⟩ := (hus j).mp hj
    exact h.claimed i j now hnow
  -- the head of the family that the new token is in was claimed
  have hhead : ∀ q ∈ t.refreshTokens, q.usedAt = none → q.familyId = row.familyId → q.jti ∈ us := by
    intro q hq hu hf
    rcases h.succeeds i row hi with hfresh | ⟨j, now, hnow, q', hq', hqj, hqf⟩
    · obtain ⟨q₀, hq₀, hj₀, hf₀, -⟩ := h.issued q hq
      have := hfresh q₀ hq₀ (hf₀.trans hf)
      exact absurd (hj₀.symm.trans (congrArg RefreshToken.jti this)) (hnrow q hq)
    · obtain ⟨q'', hq'', hqj'', hu''⟩ := h.claimed i j now hnow
      have he : q' = q'' := h.rowsOnce q' hq' q'' hq'' (hqj.trans hqj''.symm)
      have : q = q' := h.oneHead q hq q' hq' hu (he ▸ hu'') (hf.trans hqf.symm)
      rw [this, hqj]
      exact (hus j).mpr ⟨now, hnow⟩
  have hquiet : ∀ f, Quiet t p f → Quiet t' p' f := fun f hq =>
    { known := hissued ▸ hq.known
      noSuccessor := fun k r hr => hq.noSuccessor k r (hsub k _ hr)
      noClaim := by
        intro k j now hj r hr hrj
        rcases (hmem r).mp hr with ⟨q, hq', rfl⟩ | rfl
        · rw [hjti] at hrj
          rw [hfamily]
          exact hq.noClaim k j now (hsub k _ hj) q hq' hrj
        · exact hq.noSuccessor i _ hi }
  exact
    { issuedOnce := hissued ▸ h.issuedOnce
      oneUser := hissued ▸ h.oneUser
      issued := by
        intro r hr
        rw [hissued]
        rcases (hmem r).mp hr with ⟨q, hq, rfl⟩ | rfl
        · rw [hjti, hfamily, huser]
          exact h.issued q hq
        · exact ⟨_, hnew, rfl, rfl, rfl⟩
      rowsOnce := by
        intro r hr r' hr' he
        rcases (hmem r).mp hr with ⟨q, hq, rfl⟩ | rfl <;>
          rcases (hmem r').mp hr' with ⟨q', hq', rfl⟩ | rfl
        · rw [hjti, hjti] at he
          rw [h.rowsOnce q hq q' hq' he]
        · exact absurd ((hjti q).symm.trans he) (hnrow q hq)
        · exact absurd ((hjti q').symm.trans he.symm) (hnrow q' hq')
        · rfl
      oneHead := by
        intro r hr r' hr' hu hu' hf
        rcases (hmem r).mp hr with ⟨q, hq, rfl⟩ | rfl <;>
          rcases (hmem r').mp hr' with ⟨q', hq', rfl⟩ | rfl
        · rw [hfamily, hfamily] at hf
          rw [h.oneHead q hq q' hq' ((hused q).mp hu).1 ((hused q').mp hu').1 hf]
        · rw [hfamily] at hf
          obtain ⟨hu, hnot⟩ := (hused q).mp hu
          exact absurd (hhead q hq hu hf) hnot
        · rw [hfamily] at hf
          obtain ⟨hu', hnot⟩ := (hused q').mp hu'
          exact absurd (hhead q' hq' hu' hf.symm) hnot
        · rfl
      claimed := by
        intro k j now hj
        obtain ⟨hk, hne⟩ := (hp k _).mp hj
        obtain ⟨q, hq, hqj, hu⟩ := h.claimed k j now hk
        refine ⟨g q, (hmem _).mpr (.inl ⟨q, hq, rfl⟩), (hjti q).trans hqj, (hused q).mpr ⟨hu, ?_⟩⟩
        intro hin
        obtain ⟨at', hat⟩ := (hus _).mp hin
        exact hne (h.claimedOnce k i _ now at' hk (hqj ▸ hat))
      claimedOnce := fun k l j a b hk hl => h.claimedOnce k l j a b (hsub k _ hk) (hsub l _ hl)
      created := by
        intro k r hr
        obtain ⟨hk, hne⟩ := (hp k _).mp hr
        obtain ⟨hin, hex, hnot⟩ := h.created k r hk
        refine ⟨hissued ▸ hin, ?_, fun r' hr' => ?_⟩
        · rw [hexchanged, List.mem_append]
          rintro (hmem' | hmem')
          · exact hex hmem'
          · obtain ⟨q, hq, hqj, -⟩ := hclaim _ hmem'
            exact hnot q hq hqj
        · rcases (hmem r').mp hr' with ⟨q, hq, rfl⟩ | rfl
          · rw [hjti]
            exact hnot q hq
          · intro he
            have hsame := h.issuedOnce _ hnew r hin he
            exact hne (h.createdOnce k i r _ hk hi (congrArg RefreshToken.familyId hsame.symm)).1
      createdOnce := fun k l r r' hk hl => h.createdOnce k l r r' (hsub k _ hk) (hsub l _ hl)
      succeeds := by
        intro k r hr
        obtain ⟨hk, hne⟩ := (hp k _).mp hr
        rw [hissued]
        refine (h.succeeds k r hk).imp_right ?_
        rintro ⟨j, now, hnow, q, hq, hqj, hqf⟩
        exact ⟨j, now, (hp k _).mpr ⟨hnow, hne⟩, g q, (hmem _).mpr (.inl ⟨q, hq, rfl⟩),
          (hjti q).trans hqj, (hfamily q).trans hqf⟩
      exchangedOnce := by
        rw [hexchanged]
        refine List.nodup_append.mpr ⟨h.exchangedOnce, hnodup, ?_⟩
        intro a ha b hb he
        obtain ⟨q, hq, hqj, hu⟩ := hclaim b hb
        exact (h.exchangedUsed a ha).2 q hq (hqj.trans he.symm) hu
      exchangedUsed := by
        intro j hj
        rw [hexchanged] at hj
        rw [hissued]
        rcases List.mem_append.mp hj with hj | hj
        · refine ⟨(h.exchangedUsed j hj).1, fun r hr hrj hn => ?_⟩
          rcases (hmem r).mp hr with ⟨q, hq, rfl⟩ | rfl
          · exact (h.exchangedUsed j hj).2 q hq ((hjti q).symm.trans hrj) ((hused q).mp hn).1
          · exact hnex (hrj ▸ hj)
        · obtain ⟨q, hq, hqj, -⟩ := hclaim j hj
          obtain ⟨q₀, hq₀, hj₀, -⟩ := h.issued q hq
          refine ⟨⟨q₀, hq₀, hj₀.trans hqj⟩, fun r hr hrj hn => ?_⟩
          rcases (hmem r).mp hr with ⟨q', hq', rfl⟩ | rfl
          · exact ((hused q').mp hn).2 ((hjti q').symm.trans hrj ▸ hj)
          · exact hnrow q hq (hqj.trans hrj.symm)
      revoked := by
        intro f hf
        rw [hfamilies] at hf
        obtain ⟨hq, hdead⟩ := h.revoked f hf
        refine ⟨hquiet f hq, fun r hr hrf => ?_⟩
        rcases (hmem r).mp hr with ⟨q, hq', rfl⟩ | rfl
        · rw [hrevoked]
          exact hdead q hq' ((hfamily q).symm.trans hrf)
        · exact absurd hrf (hq.noSuccessor i _ hi)
      revoking := by
        intro k fs js now hk f hf
        obtain ⟨hq, hdead⟩ := h.revoking k fs js now (hsub k _ hk) f hf
        refine ⟨hquiet f hq, fun r hr hrf => ?_⟩
        rcases (hmem r).mp hr with ⟨q, hq', rfl⟩ | rfl
        · rw [hrevoked, hjti]
          exact hdead q hq' ((hfamily q).symm.trans hrf)
        · exact absurd hrf (hq.noSuccessor i _ hi) }

/-- The commit of a deletion, which waited for the rows that others claimed. -/
theorem Sound.delete {t : Tables} {p p' : Writes} (h : Sound t p) {js : List Text}
    (hsub : ∀ k w, p' k w → p k w) (huses : ∀ k j now, p k (.use j now) → p' k (.use j now))
    (hwait : ∀ k j now, p k (.use j now) → j ∉ js) :
    Sound ((Write.deleteExpired js).apply t) p' := by
  have hmem : ∀ r, r ∈ ((Write.deleteExpired js).apply t).refreshTokens →
      r ∈ t.refreshTokens := fun r hr => (List.mem_filter.mp hr).1
  have hkeep : ∀ r ∈ t.refreshTokens, r.jti ∉ js →
      r ∈ ((Write.deleteExpired js).apply t).refreshTokens := fun r hr hj =>
    List.mem_filter.mpr ⟨hr, decide_eq_true hj⟩
  have hquiet : ∀ f, Quiet t p f → Quiet ((Write.deleteExpired js).apply t) p' f := fun f hq =>
    { known := hq.known
      noSuccessor := fun k r hr => hq.noSuccessor k r (hsub k _ hr)
      noClaim := fun k j now hj r hr => hq.noClaim k j now (hsub k _ hj) r (hmem r hr) }
  exact
    { issuedOnce := h.issuedOnce
      oneUser := h.oneUser
      issued := fun r hr => h.issued r (hmem r hr)
      rowsOnce := fun r hr r' hr' => h.rowsOnce r (hmem r hr) r' (hmem r' hr')
      oneHead := fun r hr r' hr' => h.oneHead r (hmem r hr) r' (hmem r' hr')
      claimed := by
        intro k j now hj
        obtain ⟨q, hq, hqj, hu⟩ := h.claimed k j now (hsub k _ hj)
        exact ⟨q, hkeep q hq (hqj ▸ hwait k j now (hsub k _ hj)), hqj, hu⟩
      claimedOnce := fun k l j a b hk hl => h.claimedOnce k l j a b (hsub k _ hk) (hsub l _ hl)
      created := by
        intro k r hr
        obtain ⟨hin, hex, hnot⟩ := h.created k r (hsub k _ hr)
        exact ⟨hin, hex, fun q hq => hnot q (hmem q hq)⟩
      createdOnce := fun k l r r' hk hl => h.createdOnce k l r r' (hsub k _ hk) (hsub l _ hl)
      succeeds := by
        intro k r hr
        refine (h.succeeds k r (hsub k _ hr)).imp_right ?_
        rintro ⟨j, now, hnow, q, hq, hqj, hqf⟩
        exact ⟨j, now, huses k j now hnow, q, hkeep q hq (hqj ▸ hwait k j now hnow), hqj, hqf⟩
      exchangedOnce := h.exchangedOnce
      exchangedUsed := fun j hj =>
        ⟨(h.exchangedUsed j hj).1, fun r hr => (h.exchangedUsed j hj).2 r (hmem r hr)⟩
      revoked := fun f hf =>
        ⟨hquiet f (h.revoked f hf).1, fun r hr => (h.revoked f hf).2 r (hmem r hr)⟩
      revoking := fun k fs js' now hk f hf =>
        ⟨hquiet f (h.revoking k fs js' now (hsub k _ hk) f hf).1,
          fun r hr => (h.revoking k fs js' now (hsub k _ hk) f hf).2 r (hmem r hr)⟩ }

/-- Users are no part of the invariant. -/
theorem Sound.updateUser {t : Tables} {p : Writes} (h : Sound t p) (id : Text)
    (data : User → User) : Sound ((Write.updateUser id data).apply t) p :=
  { h with
    revoked := fun f hf => ⟨⟨(h.revoked f hf).1.known, (h.revoked f hf).1.noSuccessor,
      (h.revoked f hf).1.noClaim⟩, (h.revoked f hf).2⟩
    revoking := fun i fs js now hi f hf =>
      have hq := (h.revoking i fs js now hi f hf).1
      ⟨⟨hq.known, hq.noSuccessor, hq.noClaim⟩, (h.revoking i fs js now hi f hf).2⟩ }

/-! ## Writes that are made -/

/-- A write that is no revocation, claim or new token. -/
theorem Sound.write {t : Tables} {p p' : Writes} (h : Sound t p) {i : Nat} {w : Write}
    (hw : (∃ id data, w = .updateUser id data) ∨ ∃ js, w = .deleteExpired js)
    (hp : ∀ k v, p' k v ↔ p k v ∨ k = i ∧ v = w) : Sound t p' := by
  have huse : ∀ k j now, p' k (.use j now) ↔ p k (.use j now) := by
    intro k j now
    rw [hp]
    refine or_iff_left ?_
    rintro ⟨-, rfl⟩
    rcases hw with ⟨_, _, he⟩ | ⟨_, he⟩ <;> cases he
  have hcreate : ∀ k r, p' k (.create r) ↔ p k (.create r) := by
    intro k r
    rw [hp]
    refine or_iff_left ?_
    rintro ⟨-, rfl⟩
    rcases hw with ⟨_, _, he⟩ | ⟨_, he⟩ <;> cases he
  have hrevoke : ∀ k fs js now, p' k (.revoke fs js now) ↔ p k (.revoke fs js now) := by
    intro k fs js now
    rw [hp]
    refine or_iff_left ?_
    rintro ⟨-, rfl⟩
    rcases hw with ⟨_, _, he⟩ | ⟨_, he⟩ <;> cases he
  have hquiet : ∀ f, Quiet t p f → Quiet t p' f := fun f hq =>
    { known := hq.known
      noSuccessor := fun k r hr => hq.noSuccessor k r ((hcreate k r).mp hr)
      noClaim := fun k j now hj => hq.noClaim k j now ((huse k j now).mp hj) }
  exact
    { h with
      claimed := fun k j now hj => h.claimed k j now ((huse k j now).mp hj)
      claimedOnce := fun k l j a b hk hl =>
        h.claimedOnce k l j a b ((huse k j a).mp hk) ((huse l j b).mp hl)
      created := fun k r hr => h.created k r ((hcreate k r).mp hr)
      createdOnce := fun k l r r' hk hl =>
        h.createdOnce k l r r' ((hcreate k r).mp hk) ((hcreate l r').mp hl)
      succeeds := by
        intro k r hr
        refine (h.succeeds k r ((hcreate k r).mp hr)).imp_right ?_
        rintro ⟨j, now, hnow, hrow⟩
        exact ⟨j, now, (huse k j now).mpr hnow, hrow⟩
      revoked := fun f hf => ⟨hquiet f (h.revoked f hf).1, (h.revoked f hf).2⟩
      revoking := fun k fs js now hk f hf =>
        ⟨hquiet f (h.revoking k fs js now ((hrevoke k fs js now).mp hk) f hf).1,
          (h.revoking k fs js now ((hrevoke k fs js now).mp hk) f hf).2⟩ }

/-- A refresh claims a token that nobody claims and nobody revokes. -/
theorem Sound.claim {t : Tables} {p p' : Writes} (h : Sound t p) {i : Nat} {j : Text} {now : Nat}
    (hrow : ∃ r ∈ t.refreshTokens, r.jti = j ∧ r.usedAt = none)
    (hfree : ∀ k at', p k (.use j at') → k = i)
    (hlive : ∀ r ∈ t.refreshTokens, r.jti = j → r.revokedAt = none ∧
      ∀ k fs js at', p k (.revoke fs js at') → r.familyId ∉ fs)
    (hp : ∀ k v, p' k v ↔ p k v ∨ k = i ∧ v = .use j now) : Sound t p' := by
  have hsup : ∀ k v, p k v → p' k v := fun k v hv => (hp k v).mpr (.inl hv)
  have hcreate : ∀ k r, p' k (.create r) → p k (.create r) := fun k r hr =>
    ((hp k _).mp hr).resolve_right fun he => nomatch he.2
  have hrevoke : ∀ k fs js at', p' k (.revoke fs js at') → p k (.revoke fs js at') :=
    fun k fs js at' hr => ((hp k _).mp hr).resolve_right fun he => nomatch he.2
  have huse : ∀ k j' at', p' k (.use j' at') → p k (.use j' at') ∨ k = i ∧ j' = j := by
    intro k j' at' hu
    refine ((hp k _).mp hu).imp_right ?_
    rintro ⟨hk, he⟩
    cases he
    exact ⟨hk, rfl⟩
  have hquiet : ∀ f, (∀ r ∈ t.refreshTokens, r.jti = j → r.familyId ≠ f) → Quiet t p f →
      Quiet t p' f := fun f hf hq =>
    { known := hq.known
      noSuccessor := fun k r hr => hq.noSuccessor k r (hcreate k r hr)
      noClaim := by
        intro k j' at' hj r hr hrj
        rcases huse k j' at' hj with hj | ⟨-, rfl⟩
        · exact hq.noClaim k j' at' hj r hr hrj
        · exact hf r hr hrj }
  exact
    { h with
      claimed := by
        intro k j' at' hj
        rcases huse k j' at' hj with hj | ⟨-, rfl⟩
        · exact h.claimed k j' at' hj
        · exact hrow
      claimedOnce := by
        intro k l j' a b hk hl
        rcases huse k j' a hk with hk | ⟨rfl, rfl⟩ <;> rcases huse l j' b hl with hl | ⟨rfl, he⟩
        · exact h.claimedOnce k l j' a b hk hl
        · exact hfree k a (he ▸ hk)
        · exact (hfree l b hl).symm
        · rfl
      created := fun k r hr => h.created k r (hcreate k r hr)
      createdOnce := fun k l r r' hk hl => h.createdOnce k l r r' (hcreate k r hk) (hcreate l r' hl)
      succeeds := by
        intro k r hr
        refine (h.succeeds k r (hcreate k r hr)).imp_right ?_
        rintro ⟨j', at', hat, hrow⟩
        exact ⟨j', at', hsup k _ hat, hrow⟩
      revoked := by
        intro f hf
        obtain ⟨hq, hdead⟩ := h.revoked f hf
        exact ⟨hquiet f (fun r hr hrj hrf => hdead r hr hrf (hlive r hr hrj).1) hq, hdead⟩
      revoking := by
        intro k fs js at' hk f hf
        have hk := hrevoke k fs js at' hk
        obtain ⟨hq, hdead⟩ := h.revoking k fs js at' hk f hf
        refine ⟨hquiet f (fun r hr hrj hrf => ?_) hq, hdead⟩
        exact (hlive r hr hrj).2 k fs js at' hk (hrf ▸ hf) }

/-- A new token with an id that was never given: the first of a new family, or in the family
of the token that its program claimed. -/
theorem Sound.issue {t : Tables} {p p' : Writes} (h : Sound t p) {i : Nat} {row : RefreshToken}
    (hjti : ∀ q ∈ t.issued, q.jti ≠ row.jti) (hnone : ∀ r, ¬ p i (.create r))
    (huser : ∀ q ∈ t.issued, q.familyId = row.familyId → q.userId = row.userId)
    (hfamily : (∀ q ∈ t.issued, q.familyId ≠ row.familyId) ∨
      ∃ j now, p i (.use j now) ∧ ∃ q ∈ t.refreshTokens, q.jti = j ∧ q.familyId = row.familyId)
    (hp : ∀ k v, p' k v ↔ p k v ∨ k = i ∧ v = .create row) :
    Sound { t with issued := t.issued ++ [row] } p' := by
  have hsup : ∀ k v, p k v → p' k v := fun k v hv => (hp k v).mpr (.inl hv)
  have huse : ∀ k j now, p' k (.use j now) → p k (.use j now) := fun k j now hj =>
    ((hp k _).mp hj).resolve_right fun he => nomatch he.2
  have hrevoke : ∀ k fs js now, p' k (.revoke fs js now) → p k (.revoke fs js now) :=
    fun k fs js now hr => ((hp k _).mp hr).resolve_right fun he => nomatch he.2
  have hcreate : ∀ k r, p' k (.create r) → p k (.create r) ∨ k = i ∧ r = row := by
    intro k r hr
    refine ((hp k _).mp hr).imp_right ?_
    rintro ⟨hk, he⟩
    cases he
    exact ⟨hk, rfl⟩
  have hold : ∀ q ∈ t.issued, q ∈ t.issued ++ [row] := fun q hq => List.mem_append_left _ hq
  -- a family that nobody may add to is not the family of the new token
  have hother : ∀ f, Quiet t p f → row.familyId ≠ f := by
    intro f hq he
    rcases hfamily with hfresh | ⟨j, now, hnow, q, hq', hqj, hqf⟩
    · obtain ⟨q, hq', hqf⟩ := hq.known
      exact hfresh q hq' (hqf.trans he.symm)
    · exact hq.noClaim i j now hnow q hq' hqj (hqf.trans he)
  -- nobody else is about to add to that family
  have hsole : ∀ k r, p k (.create r) → r.familyId ≠ row.familyId := by
    intro k r hr he
    rcases hfamily with hfresh | ⟨j, now, hnow, q, hq, hqj, hqf⟩
    · exact hfresh r (h.created k r hr).1 he
    · rcases h.succeeds k r hr with hfirst | ⟨j', now', hnow', q', hq', hqj', hqf'⟩
      · obtain ⟨q₀, hq₀, hj₀, hf₀, -⟩ := h.issued q hq
        have := hfirst q₀ hq₀ (hf₀.trans (hqf.trans he.symm))
        exact (h.created k r hr).2.2 q hq (hj₀.symm.trans (congrArg RefreshToken.jti this))
      · obtain ⟨c, hc, hcj, hcu⟩ := h.claimed i j now hnow
        obtain ⟨c', hc', hcj', hcu'⟩ := h.claimed k j' now' hnow'
        have h₁ : q = c := h.rowsOnce q hq c hc (hqj.trans hcj.symm)
        have h₂ : q' = c' := h.rowsOnce q' hq' c' hc' (hqj'.trans hcj'.symm)
        have hsame : c = c' := by
          refine h.oneHead c hc c' hc' hcu hcu' ?_
          rw [← h₁, ← h₂, hqf, hqf', he]
        have hjj : j = j' := by rw [← hcj, hsame, hcj']
        have hik : i = k := h.claimedOnce i k j now now' hnow (hjj ▸ hnow')
        exact hnone r (hik ▸ hr)
  have hquiet : ∀ f, Quiet t p f → Quiet { t with issued := t.issued ++ [row] } p' f := fun f hq =>
    { known := by
        obtain ⟨q, hq', hqf⟩ := hq.known
        exact ⟨q, hold q hq', hqf⟩
      noSuccessor := by
        intro k r hr
        rcases hcreate k r hr with hr | ⟨-, rfl⟩
        · exact hq.noSuccessor k r hr
        · exact hother f hq
      noClaim := fun k j now hj => hq.noClaim k j now (huse k j now hj) }
  exact
    { h with
      issuedOnce := by
        intro q hq q' hq' he
        rcases List.mem_append.mp hq with hq | hq <;> rcases List.mem_append.mp hq' with hq' | hq'
        · exact h.issuedOnce q hq q' hq' he
        · exact absurd (he.trans (congrArg RefreshToken.jti (List.mem_singleton.mp hq'))) (hjti q hq)
        · exact absurd (he.symm.trans (congrArg RefreshToken.jti (List.mem_singleton.mp hq)))
            (hjti q' hq')
        · rw [List.mem_singleton.mp hq, List.mem_singleton.mp hq']
      oneUser := by
        intro q hq q' hq' he
        rcases List.mem_append.mp hq with hq | hq <;> rcases List.mem_append.mp hq' with hq' | hq'
        · exact h.oneUser q hq q' hq' he
        · rw [List.mem_singleton.mp hq'] at he ⊢
          exact huser q hq he
        · rw [List.mem_singleton.mp hq] at he ⊢
          exact (huser q' hq' he.symm).symm
        · rw [List.mem_singleton.mp hq, List.mem_singleton.mp hq']
      issued := by
        intro r hr
        obtain ⟨q, hq, he⟩ := h.issued r hr
        exact ⟨q, hold q hq, he⟩
      claimed := fun k j now hj => h.claimed k j now (huse k j now hj)
      claimedOnce := fun k l j a b hk hl => h.claimedOnce k l j a b (huse k j a hk) (huse l j b hl)
      created := by
        intro k r hr
        rcases hcreate k r hr with hr | ⟨-, rfl⟩
        · obtain ⟨hin, hrest⟩ := h.created k r hr
          exact ⟨hold r hin, hrest⟩
        · refine ⟨List.mem_append_right _ (List.mem_singleton_self _), fun hex => ?_, fun q hq he => ?_⟩
          · obtain ⟨⟨q, hq, hqj⟩, -⟩ := h.exchangedUsed _ hex
            exact hjti q hq hqj
          · obtain ⟨q₀, hq₀, hj₀, -⟩ := h.issued q hq
            exact hjti q₀ hq₀ (hj₀.trans he)
      createdOnce := by
        intro k l r r' hk hl he
        rcases hcreate k r hk with hk | ⟨rfl, rfl⟩ <;> rcases hcreate l r' hl with hl | ⟨rfl, rfl⟩
        · exact h.createdOnce k l r r' hk hl he
        · exact absurd he (hsole k r hk)
        · exact absurd he.symm (hsole l r' hl)
        · exact ⟨rfl, rfl⟩
      succeeds := by
        intro k r hr
        rcases hcreate k r hr with hr | ⟨rfl, rfl⟩
        · rcases h.succeeds k r hr with hfirst | ⟨j, now, hnow, hrow⟩
          · refine .inl fun q hq he => ?_
            rcases List.mem_append.mp hq with hq | hq
            · exact hfirst q hq he
            · rw [List.mem_singleton.mp hq] at he
              exact absurd he.symm (hsole k r hr)
          · exact .inr ⟨j, now, hsup k _ hnow, hrow⟩
        · rcases hfamily with hfresh | ⟨j, now, hnow, hrow⟩
          · refine .inl fun q hq he => ?_
            rcases List.mem_append.mp hq with hq | hq
            · exact absurd he (hfresh q hq)
            · exact List.mem_singleton.mp hq
          · exact .inr ⟨j, now, hsup k _ hnow, hrow⟩
      exchangedUsed := by
        intro j hj
        obtain ⟨⟨q, hq, hqj⟩, hrest⟩ := h.exchangedUsed j hj
        exact ⟨⟨q, hold q hq, hqj⟩, hrest⟩
      revoked := fun f hf => ⟨hquiet f (h.revoked f hf).1, (h.revoked f hf).2⟩
      revoking := fun k fs js now hk f hf =>
        have hk := hrevoke k fs js now hk
        ⟨hquiet f (h.revoking k fs js now hk f hf).1, (h.revoking k fs js now hk f hf).2⟩ }

/-- A revocation starts, on families that no refresh has claimed a token of. -/
theorem Sound.startRevoking {t : Tables} {p p' : Writes} (h : Sound t p) {i : Nat}
    {fs js : List Text} {now : Nat} (hquiet : ∀ f ∈ fs, Quiet t p f)
    (hjs : ∀ f ∈ fs, ∀ r ∈ t.refreshTokens, r.familyId = f → r.jti ∈ js ∨ r.revokedAt ≠ none)
    (hp : ∀ k v, p' k v ↔ p k v ∨ k = i ∧ v = .revoke fs js now) : Sound t p' := by
  have hsup : ∀ k v, p k v → p' k v := fun k v hv => (hp k v).mpr (.inl hv)
  have huse : ∀ k j at', p' k (.use j at') → p k (.use j at') := fun k j at' hj =>
    ((hp k _).mp hj).resolve_right fun he => nomatch he.2
  have hcreate : ∀ k r, p' k (.create r) → p k (.create r) := fun k r hr =>
    ((hp k _).mp hr).resolve_right fun he => nomatch he.2
  have hkeep : ∀ f, Quiet t p f → Quiet t p' f := fun f hq =>
    { known := hq.known
      noSuccessor := fun k r hr => hq.noSuccessor k r (hcreate k r hr)
      noClaim := fun k j at' hj => hq.noClaim k j at' (huse k j at' hj) }
  exact
    { h with
      claimed := fun k j at' hj => h.claimed k j at' (huse k j at' hj)
      claimedOnce := fun k l j a b hk hl => h.claimedOnce k l j a b (huse k j a hk) (huse l j b hl)
      created := fun k r hr => h.created k r (hcreate k r hr)
      createdOnce := fun k l r r' hk hl => h.createdOnce k l r r' (hcreate k r hk) (hcreate l r' hl)
      succeeds := by
        intro k r hr
        refine (h.succeeds k r (hcreate k r hr)).imp_right ?_
        rintro ⟨j, at', hat, hrow⟩
        exact ⟨j, at', hsup k _ hat, hrow⟩
      revoked := fun f hf => ⟨hkeep f (h.revoked f hf).1, (h.revoked f hf).2⟩
      revoking := by
        intro k fs' js' at' hk f hf
        rcases (hp k _).mp hk with hk | ⟨-, he⟩
        · exact ⟨hkeep f (h.revoking k fs' js' at' hk f hf).1,
            (h.revoking k fs' js' at' hk f hf).2⟩
        · cases he
          exact ⟨hkeep f (hquiet f hf), hjs f hf⟩ }

end CircuitForge.Sessions
