import PactumCodex.Drafts.Acceptance
import PactumCodex.Replay

/-!
# Acceptances that fail

`accept_invite` returns an error for the failure of any statement.  Up to the
commit the transaction takes care that nothing has happened.  After the commit the
creator of the draft is told that it is ready, and a failure of these statements is
returned as well: the invitation is accepted, although the caller is told that it
is not, and no retry with the token can succeed.

`acceptInvite_error_cases` splits a failed run at the commit.  Before it all steps are
`Fruitless`: they buffer writes at most, and the database is as it was, so a request
behaves like a first one.  After it the acceptance has taken place, and the
statements that tell the creator leave it alone.  The condition is on the steps of
the run: whether one of these statements has failed.
-/

namespace PactumCodex

open Interaction Relational Handlers.Invite

/-- The columns of a draft that `accept_invite` writes. -/
def Draft.acceptance (draft : Draft) : Json × DraftStatus × Option ℤ :=
  (draft.partySlots, draft.status, draft.readyAt)

/-- A request with the token can end with the result, on a database that no transaction uses. -/
def CanReturn (auth : AuthUserWithWallet) (token : String) (db : Db) (r : Except AppError Unit) :
    Prop :=
  ∃ steps w', Runs perform (acceptInvite auth token).run (World.ofDb db) steps r w'

/-- The invitation and its draft are as before, and a request behaves like a first one. -/
structure RetrySafe (auth : AuthUserWithWallet) (token : String) (db db' : Db) : Prop where
  invitation : db'.invitation? token = db.invitation? token
  draft : ∀ invitation, db.invitation? token = some invitation →
    (db'.draft? invitation.draftId).map Draft.acceptance =
      (db.draft? invitation.draftId).map Draft.acceptance
  retry : ∀ r, CanReturn auth token db' r ↔ CanReturn auth token db r

theorem retrySafe_of_db {auth : AuthUserWithWallet} {token : String} {db db' : Db} (h : db' = db) :
    RetrySafe auth token db db' := by
  subst h
  exact ⟨rfl, fun _ _ => rfl, fun _ => Iff.rfl⟩

/-- A statement fails that is executed after the commit only: the lookup of the creator, or the
`INSERT` of the notification. -/
def failsAfterCommit : BackendStep → Bool
  | ⟨_, .sql (.account (.userOf _)), .error _, _⟩ => true
  | ⟨_, .sql (.notification _), .error _, _⟩ => true
  | _ => false

/-! ## Before the commit -/

/-- An operation of the handler up to the commit. -/
def Op.precedesCommit : Op → Bool
  | .utcNow => true
  | op => op.inTransaction

theorem not_failsAfterCommit {step : BackendStep} (h : step.op.precedesCommit = true) :
    failsAfterCommit step = false := by
  obtain ⟨w, op, ans, w'⟩ := step
  cases op <;> first | rfl | cases h

section Transaction

variable {id : ℕ} {writes : List TxWrite} {w w₁ w₂ : World}

/-- The transaction has buffered the writes, and the database is as in `w`. -/
structure Buffers (id : ℕ) (w : World) (writes : List TxWrite) (w₁ : World) : Prop where
  db : w₁.db = w.db
  tx : ∃ tx, w₁.txs.find? (·.id = id) = some tx ∧ tx.writes = writes

theorem find_setTx {tx tx' : Tx} (h : w.txs.find? (·.id = id) = some tx) (hid : tx'.id = tx.id) :
    (w.setTx tx').txs.find? (·.id = id) = some tx' := by
  have hsame : ((fun tx : Tx => decide (tx.id = id)) ∘
      fun other => if other.id = tx'.id then tx' else other) = fun tx => decide (tx.id = id) := by
    funext other
    by_cases hother : other.id = tx'.id <;> simp [hother]
  rw [World.setTx, List.find?_map, hsame, h, Option.map_some, if_pos hid.symm]

theorem Buffers.performTx {s : TxStmt} {out : s.Out} (h : Buffers id w writes w₁)
    (hperform : performTx id s out w₁ = some w₂) :
    Buffers id w (writes ++ s.writes) w₂ ∧ s.Returns w.db out := by
  obtain ⟨hdb, tx, hfind, rfl⟩ := h
  obtain ⟨tx₁, tx', hfind', rfl, hid, hwrites, hreturns⟩ := performTx_effect hperform
  obtain rfl : tx = tx₁ := Option.some.inj (hfind.symm.trans hfind')
  exact ⟨⟨hdb, tx', find_setTx hfind hid, hwrites⟩, hdb ▸ hreturns⟩

/-- A statement of the transaction fails or buffers its writes. -/
theorem Buffers.txQuery (s : TxStmt) (writes : List TxWrite) (w₁ : World)
    (h : Buffers id w writes w₁) : Ensures perform (txQuery id s).run w₁ (Outcome
      (fun out w₂ => Buffers id w (writes ++ s.writes) w₂ ∧ s.Returns w.db out)
      (Buffers id w writes)) :=
  ensures_txQuery_of (fun _ _ hperform => h.performTx hperform) h

theorem Buffers.commit (h : Buffers id w writes w₁) (hcommit : performCommit id w₁ = some w₂) :
    writes.foldlM TxWrite.apply w.db = some w₂.db := by
  obtain ⟨hdb, tx, hfind, rfl⟩ := h
  obtain ⟨tx', db, hfind', hwrites, rfl⟩ := performCommit_eq_some.mp hcommit
  obtain rfl : tx = tx' := Option.some.inj (hfind.symm.trans hfind')
  exact hdb ▸ hwrites

end Transaction

/-! ## Where the handler fails -/

section Failures

variable {auth : AuthUserWithWallet} {token : String} {w w' : World} {steps : List BackendStep}
variable {e : AppError}

/-- A step up to the commit that writes nothing. -/
def Fruitless (step : BackendStep) : Prop :=
  step.op.precedesCommit = true ∧ writesDb step = false

theorem fruitless_of_issues {α : Type} {x : Handler α} {r : Except AppError α}
    (hx : x.run.Issues fun op => op.precedesCommit = true ∧ op.quiet = true)
    (h : Runs perform x.run w steps r w') : ∀ step ∈ steps, Fruitless step := by
  intro step hstep
  obtain ⟨hprecedes, hquiet⟩ := h.stops.issued hx step hstep
  exact ⟨hprecedes, writesDb_of_quiet hquiet⟩

theorem transaction_issues (now : ℤ) (id : ℕ) :
    (rollbackOnError id (acceptInTx auth token now id)).run.Issues
      fun op => op.precedesCommit = true ∧ op.quiet = true := by
  refine issues_rollbackOnError ((acceptInTx_issues ..).mono fun op h => ?_) ⟨rfl, rfl⟩
  obtain ⟨s, rfl⟩ := h
  exact ⟨rfl, rfl⟩

theorem rollbackOnError_ok {α : Type} {id : ℕ} {body : Handler α} {a : α}
    (h : Runs perform (rollbackOnError id body).run w steps (.ok a) w') :
    Runs perform body.run w steps (.ok a) w' := by
  obtain ⟨r, w₁, first, second, rfl, hfirst, hsecond⟩ := runs_bind.mp h
  cases r with
  | ok b =>
      obtain ⟨rfl, hb, rfl⟩ := hsecond
      rw [List.append_nil, Except.ok.inj hb]
      exact hfirst
  | error e =>
      obtain ⟨_, w₂, third, fourth, -, -, -, hr, -⟩ := runs_bind.mp hsecond
      cases hr

theorem enqueueNotification_error {eventType recipient : String} {pda : Option String}
    (h : Runs perform (enqueueNotification eventType pda recipient).run w steps (.error e) w') :
    ∃ step ∈ steps, failsAfterCommit step = true := by
  unfold enqueueNotification at h
  rcases runs_bind_error.mp h with hnow | ⟨now, w₁, first, rest, rfl, -, h⟩
  · exact absurd hnow runs_ask_error
  rcases runs_bind_error.mp h with hinsert | ⟨id, w₂, second, rest, rfl, -, h⟩
  · obtain ⟨-, rfl, rfl⟩ := runs_query_error.mp hinsert
    exact ⟨_, List.mem_append_right _ (List.mem_singleton_self _), rfl⟩
  · cases h.2.1

theorem notifyReady_error {draftId : Uuid} {creatorPubkey : String}
    (h : Runs perform (notifyReady draftId creatorPubkey).run w steps (.error e) w') :
    ∃ step ∈ steps, failsAfterCommit step = true := by
  unfold notifyReady at h
  rcases runs_bind_error.mp h with hlookup | ⟨userId, w₁, first, rest, rfl, -, h⟩
  · obtain ⟨-, rfl, rfl⟩ := runs_query_error.mp hlookup
    exact ⟨_, List.mem_singleton_self _, rfl⟩
  cases userId with
  | none => cases h.2.1
  | some userId =>
      rcases runs_bind_error.mp h with hsend | ⟨delivered, w₂, second, rest, rfl, -, h⟩
      · exact absurd hsend runs_ask_error
      cases delivered with
      | true => cases h.2.1
      | false =>
          obtain ⟨step, hstep, hfails⟩ := enqueueNotification_error h
          exact ⟨step, List.mem_append_right _ (List.mem_append_right _ hstep), hfails⟩

/-- An error comes before the commit, and nothing has happened, or after it, and the invitation has
been accepted. -/
theorem acceptInvite_error_cases
    (h : Runs perform (acceptInvite auth token).run w steps (.error e) w') :
    (∀ step ∈ steps, Fruitless step) ∨ (∃ step ∈ steps, failsAfterCommit step = true) ∧
      ∃ invitation draft slots slots' now,
        AcceptPlan auth token w invitation draft slots slots' ∧
          Accepted w w' invitation slots' now := by
  unfold acceptInvite at h
  -- the clock, the begin, the body, the commit, and what follows: one of them has failed
  rcases runs_bind_error.mp h with hnow | ⟨now, w₁, first, rest, rfl, hnow, h⟩
  · exact absurd hnow runs_ask_error
  have hfirst := fruitless_of_issues (issues_ask.mpr ⟨rfl, rfl⟩) hnow
  obtain ⟨hnow, -⟩ := runs_ask_ok.mp hnow
  obtain rfl : w = w₁ := Option.some.inj hnow
  have hbeginIssues : (Handler.orFail .internalError (.issue Op.begin)).run.Issues
      fun op => op.precedesCommit = true ∧ op.quiet = true :=
    issues_orFail (issues_issue.mpr ⟨rfl, rfl⟩)
  rcases runs_bind_error.mp h with hbegin | ⟨id, w₂, second, rest, rfl, hbegin, h⟩
  · exact Or.inl (List.forall_mem_append.mpr ⟨hfirst, fruitless_of_issues hbeginIssues hbegin⟩)
  have hsecond := fruitless_of_issues hbeginIssues hbegin
  rcases runs_bind_error.mp h with hbody | ⟨acceptance, w₃, third, rest, rfl, hbody, h⟩
  · refine Or.inl (List.forall_mem_append.mpr ⟨hfirst, List.forall_mem_append.mpr ⟨hsecond, ?_⟩⟩)
    exact fruitless_of_issues (transaction_issues now id) hbody
  have hthird := fruitless_of_issues (transaction_issues now id) hbody
  rcases runs_bind_error.mp h with hcommit | ⟨_, w₄, fourth, rest, rfl, hcommit, hnotify⟩
  · -- a commit that fails rolls back
    obtain ⟨-, f, hcommit⟩ := runs_orFail_error.mp hcommit
    obtain ⟨-, rfl⟩ := runs_issue.mp hcommit
    refine Or.inl (List.forall_mem_append.mpr ⟨hfirst, List.forall_mem_append.mpr ⟨hsecond,
      List.forall_mem_append.mpr ⟨hthird, ?_⟩⟩⟩)
    rw [List.forall_mem_singleton]
    exact ⟨rfl, rfl⟩
  · -- the commit applies the writes, and what follows leaves them
    right
    obtain ⟨hbegin, -⟩ := runs_issue.mp (runs_orFail_ok.mp hbegin)
    obtain ⟨rfl, rfl⟩ := provided_eq_some.mp hbegin
    have hstart : Buffers w.nextTx w [] { w with
        txs := ⟨w.nextTx, [], [], []⟩ :: w.txs, nextTx := w.nextTx + 1 } :=
      ⟨rfl, ⟨w.nextTx, [], [], []⟩, by simp, rfl⟩
    obtain ⟨invitation, draft, slots, slots', hplan, hbuffers⟩ :=
      acceptInTx_keeps (fun s writes w₁ => Buffers.txQuery s writes w₁) hstart _ _ _
        (rollbackOnError_ok hbody)
    obtain ⟨hcommit, -⟩ := runs_issue.mp (runs_orFail_ok.mp hcommit)
    have haccepted : Accepted w w₄ invitation slots' now :=
      accepted_of_writes (hbuffers.commit hcommit)
    have hsame := ensures_sameDrafts (notifyAccepted_leavesDrafts acceptance) rest _ w' hnotify
    refine ⟨?_, invitation, draft, slots, slots', now, hplan, ?_, ?_⟩
    · split at hnotify
      · obtain ⟨step, hstep, hfails⟩ := notifyReady_error hnotify
        exact ⟨step, by simp [hstep], hfails⟩
      · cases hnotify.2.1
    · rw [hsame.invitations]
      exact haccepted.invitations
    · rw [hsame.drafts]
      exact haccepted.drafts

end Failures

/-- After an acceptance the invitation is not pending. -/
theorem Accepted.invitation?_ne {w w' : World} {invitation : Invitation}
    {slots' : List DraftPartyEntry} {now : ℤ} {token : String}
    (h : Accepted w w' invitation slots' now) (hfound : w.db.invitation? token = some invitation)
    (hpending : invitation.status = .pending) :
    w'.db.invitation? token ≠ w.db.invitation? token := by
  have hafter : w'.db.invitation? token = some { invitation with status := .accepted } := by
    rw [Db.invitation?, h.invitations, lookup_updateWhere]
    · rw [Db.invitation?] at hfound
      rw [hfound, Option.map_some, if_pos (decide_eq_true rfl)]
    · exact fun _ => rfl
  intro heq
  rw [hafter, hfound, Option.some.injEq] at heq
  rw [← heq] at hpending
  cases hpending

/-- A failed request can be repeated just if it did not fail after the commit. -/
theorem failed_acceptance_retrySafe_iff {auth : AuthUserWithWallet} {token : String} {w w' : World}
    {steps : List BackendStep} {e : AppError}
    (h : Runs perform (acceptInvite auth token).run w steps (.error e) w') :
    RetrySafe auth token w.db w'.db ↔ ∀ step ∈ steps, failsAfterCommit step = false := by
  rcases acceptInvite_error_cases h with hfruitless | ⟨⟨step, hstep, hfails⟩, hdone⟩
  · have hdb : w'.db = w.db := db_of_quiet_chain h.chain fun step hstep => (hfruitless step hstep).2
    refine iff_of_true (retrySafe_of_db hdb) fun step hstep => ?_
    exact not_failsAfterCommit (hfruitless step hstep).1
  · obtain ⟨invitation, draft, slots, slots', now, hplan, haccepted⟩ := hdone
    refine iff_of_false (fun hsafe => ?_) fun hnone => ?_
    · exact haccepted.invitation?_ne hplan.found hplan.pending hsafe.invitation
    · rw [hnone step hstep] at hfails
      cases hfails

/-! ## A lost notification -/

/-- Alice is invited to a draft of Bob's, and is the last party without a wallet. -/
def invitedDb : Db :=
  { accountsDb with
    drafts := ⟨[{ sampleDraft with
      partySlots := slotsToValue [⟨none, some 3⟩], status := .awaitingPartyWallets
      readyAt := none }], by decide⟩
    invitations := ⟨[InvitationStmt.newRow 3 2 [] [] [] "token" 100 0], by decide⟩ }

/-- The notification cannot be queued, or the commit fails. -/
def losingAcceptance (commits : Bool) : (op : Op) → World → op.Ans
  | .sql (.notification _), _ => .error .failed
  | .commit _, _ => if commits then .ok () else .error .failed
  | op, w => cooperate 0 op w

/-- A commit that fails. -/
theorem failed_commit_retrySafe :
    ∃ steps e w', Runs perform (acceptInvite alice "token").run (World.ofDb invitedDb) steps
      (.error e) w' ∧ RetrySafe alice "token" invitedDb w'.db := by
  obtain ⟨steps, e, w', hrun, htest⟩ := @error_of_interpret _ (acceptInvite alice "token")
    (World.ofDb invitedDb) (losingAcceptance false)
    (fun steps _ => steps.all fun step => !failsAfterCommit step) (by decide +kernel)
  rw [List.all_eq_true] at htest
  refine ⟨steps, e, w', hrun, (failed_acceptance_retrySafe_iff hrun).mpr fun step hstep => ?_⟩
  simpa using htest step hstep

/-- The notification of the creator fails: Alice is told so, and her invitation is used up. -/
theorem failed_acceptance_accepted :
    ¬ ∀ (auth : AuthUserWithWallet) (token : String) (w w' : World) (steps : List BackendStep)
      (e : AppError), Runs perform (acceptInvite auth token).run w steps (.error e) w' →
        RetrySafe auth token w.db w'.db := by
  intro hclaim
  obtain ⟨steps, e, w', hrun, htest⟩ := @error_of_interpret _ (acceptInvite alice "token")
    (World.ofDb invitedDb) (losingAcceptance true)
    (fun steps _ => steps.any failsAfterCommit) (by decide +kernel)
  obtain ⟨step, hstep, hfails⟩ := List.any_eq_true.mp htest
  rcases acceptInvite_error_cases hrun with hfruitless | ⟨-, hdone⟩
  · rw [not_failsAfterCommit (hfruitless step hstep).1] at hfails
    cases hfails
  · obtain ⟨invitation, draft, slots, slots', now, hplan, haccepted⟩ := hdone
    exact haccepted.invitation?_ne hplan.found hplan.pending
      (hclaim alice "token" _ w' steps e hrun).invitation

end PactumCodex
