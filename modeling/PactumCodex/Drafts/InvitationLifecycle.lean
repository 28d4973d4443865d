import PactumCodex.Drafts.Isolation
import PactumCodex.Lib.Lifecycle

/-!
# The life of an invitation

Along every run of the backend an invitation is settled at most once: a commit of
`accept_invite` accepts it and gives away a slot of its draft, or the keeper
expires it after its deadline.  Everything else in its row stays as
`create_agreement` or `reinvite_draft` has stored it, up to the reminders.

`InvitationStep` says what a step can do to the invitation with a given token: it
is stored, accepted, expired or reminded, or stays as it is (`invitation_step`).
Three readings of it are used.  As a change of the status it gives the life cycle
(`InvitationChange`); settled or not is the coarser one, which has no two changes in
a row (`not_transGen_settling`), so that an invitation is settled at most once; and
up to status and reminders the row is the same throughout (`SameInvitation`).
-/

namespace PactumCodex

open Interaction Relational Handlers.Invite

/-! ## What a step does to an invitation -/

/-- What a step does to the invitation with the given token. -/
inductive InvitationStep (token : String) (step : BackendStep) : Prop
  | unchanged : step.post.db.invitation? token = step.pre.db.invitation? token →
      InvitationStep token step
  /-- A new row is pending, without reminders. -/
  | invited (row : Invitation) : step.op.stores = true → step.pre.db.invitation? token = none →
      step.post.db.invitation? token = some row → row.status = .pending → row.reminderCount = 0 →
      InvitationStep token step
  | reminded (row : Invitation) (now : ℤ) :
      Executes step (.invitation (.markReminded now row.id)) () →
      step.pre.db.invitation? token = some row → step.post.db.invitation? token =
        some { row with reminderSentAt := some now, reminderCount := row.reminderCount + 1 } →
      InvitationStep token step
  /-- The keeper expires a pending invitation that is past its deadline. -/
  | expired (row : Invitation) (now : ℤ) (rows : List (Uuid × Uuid)) :
      Executes step (.invitation (.expireStale now)) rows →
      step.pre.db.invitation? token = some row → row.status = .pending → row.expiresAt < now →
      step.post.db.invitation? token = some { row with status := .expired } →
        InvitationStep token step
  /-- A commit accepts a pending invitation and gives its slot to the caller. -/
  | accepted (row : Invitation) (auth : AuthUserWithWallet) (draft : Draft)
      (slots slots' : List DraftPartyEntry) (now : ℤ) : step.op.commits step.ans = true →
      AcceptPlan auth token step.pre row draft slots slots' →
        Accepted step.pre step.post row slots' now →
      step.post.db.invitation? token = some { row with status := .accepted } →
        InvitationStep token step

section Step

variable {step : BackendStep} {token : String}

/-- The invitation with a token after an update. -/
theorem invitation?_updateWhere {db : Db} {invitations : Table Invitation InvitationsValid}
    {p : Invitation → Bool} {f : Invitation → Invitation}
    (hcommit : commit (updateWhere p f db.invitations.rows) = some invitations)
    (hf : ∀ invitation, (f invitation).token = invitation.token) (token : String) :
    lookup Invitation.token token invitations.rows =
      (db.invitation? token).map fun row => if p row then f row else row := by
  rw [rows_of_commit hcommit, lookup_updateWhere hf]
  rfl

/-- What a new row means for the invitation with a token. -/
theorem invitation?_append {db : Db} {invitations : Table Invitation InvitationsValid}
    {fresh : Invitation} (hcommit : commit (db.invitations.rows ++ [fresh]) = some invitations)
    (token : String) : lookup Invitation.token token invitations.rows = db.invitation? token ∨
      db.invitation? token = none ∧
        lookup Invitation.token token invitations.rows = some fresh := by
  have hlookup : lookup Invitation.token token invitations.rows =
      (db.invitation? token).or (lookup Invitation.token token [fresh]) := by
    rw [rows_of_commit hcommit]
    exact List.find?_append
  rw [hlookup]
  cases hfound : db.invitation? token with
  | some row => exact Or.inl rfl
  | none =>
      by_cases htoken : fresh.token = token
      · exact Or.inr ⟨rfl, by simp [lookup, htoken]⟩
      · exact Or.inl (by simp [lookup, htoken])

/-- A statement on invitations. -/
theorem invitationStep_of_executes {s : InvitationStmt} {out : s.Out}
    (hexecutes : Executes step (.invitation s) out)
    (hexec : s.exec out step.pre.db = some step.post.db.invitations) :
    InvitationStep token step := by
  have hinsert : ∀ fresh, step.op.stores = true → fresh.status = .pending →
    fresh.reminderCount = 0 →
      commit (step.pre.db.invitations.rows ++ [fresh]) = some step.post.db.invitations →
      InvitationStep token step := by
    intro fresh hstores hstatus hcount hcommit
    rcases invitation?_append hcommit token with hsame | ⟨hnone, hfresh⟩
    · exact .unchanged hsame
    · exact .invited fresh hstores hnone hfresh hstatus hcount
  have hop : step.op = .sql (.invitation s) := by rw [hexecutes]
  cases s with
  | insert =>
      simp only [InvitationStmt.exec, Option.ite_none_right_eq_some] at hexec
      exact hinsert _ (by rw [hop]; rfl) rfl rfl hexec.2
  | insertReturning =>
      simp only [InvitationStmt.exec, Option.ite_none_right_eq_some] at hexec
      exact hinsert _ (by rw [hop]; rfl) rfl rfl hexec.2
  | expiredOf | remindersDue =>
      obtain ⟨-, hsame⟩ := provided_eq_some.mp hexec
      exact .unchanged (by rw [Db.invitation?, hsame]; rfl)
  -- the scan touches the row if it is pending and past its deadline
  | expireStale now =>
      simp only [InvitationStmt.exec, Option.ite_none_right_eq_some] at hexec
      have hpost : step.post.db.invitation? token = _ :=
        invitation?_updateWhere hexec.2 (fun _ => rfl) token
      cases hrow : step.pre.db.invitation? token with
      | none => exact .unchanged (by rw [hpost, hrow]; rfl)
      | some row =>
          rw [hrow, Option.map_some] at hpost
          by_cases hstale : row.isStale now = true
          · rw [if_pos hstale] at hpost
            obtain ⟨hpending, hpast⟩ := of_decide_eq_true hstale
            exact .expired row now out hexecutes hrow hpending hpast hpost
          · rw [if_neg hstale] at hpost
            exact .unchanged (hpost.trans hrow.symm)
  -- a reminder touches the row with the id, whatever its status
  | markReminded now id =>
      have hpost : step.post.db.invitation? token = _ :=
        invitation?_updateWhere hexec (fun _ => rfl) token
      cases hrow : step.pre.db.invitation? token with
      | none => exact .unchanged (by rw [hpost, hrow]; rfl)
      | some row =>
          rw [hrow, Option.map_some] at hpost
          by_cases hid : row.id = id
          · rw [if_pos (decide_eq_true hid)] at hpost
            subst hid
            exact .reminded row now hexecutes hrow hpost
          · rw [if_neg (by simpa using hid)] at hpost
            exact .unchanged (hpost.trans hrow.symm)

/-- **Step lemma.** -/
theorem invitation_step (h : step.Valid perform) (hcommits : CommitsAlone step) (token : String) :
    InvitationStep token step := by
  obtain hsame | ⟨s, out, hexecutes, hexec⟩ | ⟨writes, hop, hwrites⟩ := (stored_step h).2
  · exact .unchanged (by rw [Db.invitation?, hsame]; rfl)
  · exact invitationStep_of_executes hexecutes hexec
  · cases hdone : step.op.commits step.ans with
    | false => exact .unchanged (by rw [db_of_failed_commit h hop hdone])
    | true =>
        obtain ⟨call, hguarantee⟩ := hcommits hdone
        obtain ⟨row, draft, slots, slots', now, hplan, haccepted⟩ := hguarantee.committed hdone
        have hpost := haccepted.invitation? token
        cases hrow : step.pre.db.invitation? token with
        | none => exact .unchanged (by rw [hpost, hrow]; rfl)
        | some found =>
            rw [hrow, Option.map_some] at hpost
            by_cases hid : found.id = row.id
            · rw [if_pos hid] at hpost
              -- the invitation of the call is the one with this token
              obtain ⟨hmem, htoken⟩ := Db.invitation?_eq_some.mp hrow
              obtain ⟨hmem', htoken'⟩ := Db.invitation?_eq_some.mp hplan.found
              obtain rfl : found = row :=
                eq_of_key_eq step.pre.db.invitations.valid.1 hmem hmem' hid
              obtain rfl : token = call.token := htoken.symm.trans htoken'
              exact .accepted found call.auth draft slots slots' now hdone hplan haccepted hpost
            · rw [if_neg hid] at hpost
              exact .unchanged (hpost.trans hrow.symm)

end Step

/-! ## The life cycle -/

/-- The status of the invitation with the token, if there is one. -/
def World.inviteStatus (token : String) (w : World) : Option InvitationStatus :=
  (w.db.invitation? token).map Invitation.status

/-- The life cycle of an invitation. -/
inductive InvitationChange : Option InvitationStatus → Option InvitationStatus → Prop
  | invited : InvitationChange none (some .pending)
  | accepted : InvitationChange (some .pending) (some .accepted)
  | expired : InvitationChange (some .pending) (some .expired)

theorem InvitationStep.follows {token : String} {step : BackendStep}
    (h : InvitationStep token step) :
    Follows (World.inviteStatus token) InvitationChange step := by
  unfold Follows World.inviteStatus
  cases h with
  | unchanged hsame => exact Or.inl (by rw [hsame])
  | invited row _ hpre hpost hstatus _ =>
      rw [hpre, hpost, Option.map_none, Option.map_some, hstatus]
      exact Or.inr .invited
  | reminded row now _ hpre hpost => exact Or.inl (by rw [hpre, hpost]; rfl)
  | expired row now rows _ hpre hpending _ hpost =>
      rw [hpre, hpost, Option.map_some, Option.map_some, hpending]
      exact Or.inr .expired
  | accepted row auth draft slots slots' now _ hplan _ hpost =>
      rw [hplan.found, hpost, Option.map_some, Option.map_some, hplan.pending]
      exact Or.inr .accepted

/-- The invitation is no longer pending. -/
def World.inviteSettled (token : String) (w : World) : Option Bool :=
  (w.inviteStatus token).map fun status => status ≠ .pending

/-- The coarser life cycle: stored once, and settled once. -/
inductive Settling : Option Bool → Option Bool → Prop
  | invited : Settling none (some false)
  | settled : Settling (some false) (some true)

theorem not_transGen_settling : ¬ Relation.TransGen Settling (some true) (some true) := by
  intro h
  obtain ⟨next, hnext, -⟩ := Relation.TransGen.head'_iff.mp h
  cases hnext

theorem InvitationStep.settles {token : String} {step : BackendStep}
    (h : InvitationStep token step) :
    Follows (World.inviteSettled token) Settling step := by
  refine h.follows.map fun status status' hchange => ?_
  cases hchange with
  | invited => exact Or.inr .invited
  | accepted | expired => exact Or.inr .settled

/-- The row up to its status and its reminders. -/
structure SameInvitation (row row' : Invitation) : Prop where
  kept : row' = { row with
    status := row'.status, reminderSentAt := row'.reminderSentAt,
    reminderCount := row'.reminderCount }
  reminded : row.reminderCount ≤ row'.reminderCount
  settled : row.status ≠ .pending → row'.status = row.status

theorem SameInvitation.refl (row : Invitation) : SameInvitation row row :=
  ⟨rfl, le_rfl, fun _ => rfl⟩

theorem SameInvitation.trans {a b c : Invitation} (hab : SameInvitation a b)
    (hbc : SameInvitation b c) : SameInvitation a c := by
  refine ⟨?_, hab.reminded.trans hbc.reminded, fun hsettled => ?_⟩
  · rw [hbc.kept, hab.kept]
  · have hb := hab.settled hsettled
    rw [← hb]
    exact hbc.settled (hb ▸ hsettled)

theorem InvitationStep.same {token : String} {step : BackendStep} (h : InvitationStep token step)
    {row : Invitation} (hrow : step.pre.db.invitation? token = some row) :
    ∃ row', step.post.db.invitation? token = some row' ∧ SameInvitation row row' := by
  cases h with
  | unchanged hsame => exact ⟨row, hsame.trans hrow, .refl row⟩
  | invited _ _ hnone => simp [hrow] at hnone
  | reminded found now _ hpre hpost =>
      obtain rfl := Option.some.inj (hpre.symm.trans hrow)
      exact ⟨_, hpost, rfl, Nat.le_succ _, fun _ => rfl⟩
  | expired found now rows _ hpre hpending _ hpost =>
      obtain rfl := Option.some.inj (hpre.symm.trans hrow)
      exact ⟨_, hpost, rfl, le_rfl, fun hsettled => absurd hpending hsettled⟩
  | accepted found auth draft slots slots' now _ hplan _ hpost =>
      obtain rfl := Option.some.inj (hplan.found.symm.trans hrow)
      exact ⟨_, hpost, rfl, le_rfl, fun hsettled => absurd hplan.pending hsettled⟩

/-- What a run of the backend does to the invitation with a token. -/
structure InvitationHistory (token : String) (w : World) (steps : List BackendStep) (w' : World) :
    Prop where
  stepwise : ∀ step ∈ steps, InvitationStep token step
  /-- It is accepted or expired at most once, and not if it was settled before. -/
  once : steps.countP (enters (World.inviteSettled token) (some true)) ≤ 1
  settled : w.inviteSettled token = some true →
    steps.countP (enters (World.inviteSettled token) (some true)) = 0
  kept : ∀ row, w.db.invitation? token = some row →
    ∃ row', w'.db.invitation? token = some row' ∧ SameInvitation row row'

/-- **Life of an invitation.**  In every run of the backend an invitation is accepted or expired at
most once: by a commit that gives a slot of its draft to the caller, or by the keeper after its
deadline.  Nothing else in its row ever changes, up to the reminders. -/
theorem invitation_lifecycle {env : Env} {w w' : World} {steps : List BackendStep} (hw : w.txs = [])
    (hrun : SystemRun env w steps w') (token : String) : InvitationHistory token w steps w' := by
  have hstepwise : ∀ step ∈ steps, InvitationStep token step := fun step hstep =>
    invitation_step (hrun.valid step hstep) (hrun.commits hw step hstep) token
  obtain ⟨threads, hpool⟩ := hrun
  obtain ⟨honce, hsettled⟩ := hpool.chain.entered_once not_transGen_settling
    fun step hstep => (hstepwise step hstep).settles
  refine ⟨hstepwise, honce, fun h => hsettled (h ▸ .refl), fun row hrow => ?_⟩
  refine (hpool.chain.invariant
    (fun w => ∃ row', w.db.invitation? token = some row' ∧ SameInvitation row row')
    ⟨row, hrow, .refl row⟩ ?_).1
  rintro step hstep - ⟨row₁, hrow₁, hsame₁⟩
  obtain ⟨row₂, hrow₂, hsame₂⟩ := (hstepwise step hstep).same hrow₁
  exact ⟨row₂, hrow₂, hsame₁.trans hsame₂⟩

/-- Alice accepts one invitation, and the keeper expires the other one. -/
def acceptAndExpire : List (Backend Unit) :=
  [Handler.logged (acceptInvite alice "first"), expireStaleInvitations]

theorem invitation_lifecycle_first : ∃ steps w',
    SystemRun sampleEnv (World.ofDb twoInvitedDb) steps w' ∧
    (w'.inviteStatus "first" = some .accepted ∧ w'.inviteStatus "second" = some .expired) ∧
      InvitationHistory "first" (World.ofDb twoInvitedDb) steps w' := by
  have hentry : ∀ p ∈ acceptAndExpire, Entry sampleEnv p := by
    refine List.forall_mem_cons.mpr ⟨.acceptInvite .., List.forall_mem_cons.mpr ⟨?_, by simp⟩⟩
    exact .expireStaleInvitations
  obtain ⟨steps, w', hrun, htest⟩ := systemRun_of_replay (World.ofDb twoInvitedDb)
    (List.replicate 7 (0, cooperate 0) ++ List.replicate 2 (1, cooperate 200))
    (fun _ w' => w'.inviteStatus "first" = some .accepted ∧
      w'.inviteStatus "second" = some .expired)
    hentry (by decide +kernel)
  exact ⟨steps, w', hrun, of_decide_eq_true htest, invitation_lifecycle rfl hrun "first"⟩

end PactumCodex
