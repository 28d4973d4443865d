import PactumCodex.Lib.Tagged
import PactumCodex.System

/-!
# Who does what

An `AuditedRun` is a run of the backend in which every step shows the invocation
that takes it: a request with its caller, a notification of the log
subscription, or a cycle of a worker.  `Op.privilege` sorts the operations by
what they change or send, and `Invocation.privileges` lists what an invocation
may do.  Every step of an audited run is within the privileges of its invocation
(`AuditedRun.permitted`), so that a property of one kind of operation has to
look at few invocations.

The table of privileges is exact on purpose: each handler has its own lemma
(`…_has`), proved along its text, and `Invocation.has` only puts them side by side.
When a handler of the source comes to issue a new kind of operation, its lemma
and its row of the table are what changes.

Forgetting who has taken them, the steps make a run of the backend
(`AuditedRun.systemRun`), so results about `SystemRun` apply to audited runs.
-/

namespace PactumCodex

open Interaction

/-! ## Invocations -/

/-- A program of the backend, with its arguments. -/
inductive Invocation : Type
  | createAgreement (auth : AuthUserWithWallet) (req : CreateAgreementRequest)
  | deleteDraft (auth : AuthUser) (draftId : Uuid)
  | reinviteDraft (auth : AuthUser) (draftId : Uuid) (req : ReinviteRequest)
  | submitDraft (auth : AuthUserWithWallet) (draftId : Uuid) (req : SubmitDraftRequest)
  | acceptInvite (auth : AuthUserWithWallet) (token : String)
  | initiatePayment (auth : AuthUserWithWallet) (draftId : Uuid) (req : InitiatePaymentRequest)
  | confirmPaymentAtomic (reference txSignature tokenMint : String) (tokenAmount : Int64)
  | sendInvitationReminders
  | expireStaleInvitations
  | expireTimedOutPayments
  | reconcileLatePayments
  | processNotification (response : RpcLogsResponse)
  | processPendingRefunds

/-- The program of an invocation. -/
def Invocation.program (env : Env) : Invocation → Backend Unit
  | .createAgreement auth req => Handler.logged (PactumCodex.createAgreement env auth req)
  | .deleteDraft auth draftId => Handler.logged (PactumCodex.deleteDraft auth draftId)
  | .reinviteDraft auth draftId req =>
      Handler.logged (PactumCodex.reinviteDraft env auth draftId req)
  | .submitDraft auth draftId req => Handler.logged (PactumCodex.submitDraft env auth draftId req)
  | .acceptInvite auth token => Handler.logged (PactumCodex.acceptInvite auth token)
  | .initiatePayment auth draftId req =>
      Handler.logged (PactumCodex.initiatePayment env auth draftId req)
  | .confirmPaymentAtomic reference txSignature tokenMint tokenAmount =>
      Handler.logged (PactumCodex.confirmPaymentAtomic reference txSignature tokenMint tokenAmount)
  | .sendInvitationReminders => PactumCodex.sendInvitationReminders env
  | .expireStaleInvitations => PactumCodex.expireStaleInvitations
  | .expireTimedOutPayments => PactumCodex.expireTimedOutPayments
  | .reconcileLatePayments => PactumCodex.reconcileLatePayments env
  | .processNotification response => PactumCodex.processNotification env response
  | .processPendingRefunds => PactumCodex.processPendingRefunds env >>= fun _ => pure ()

theorem Invocation.entry (env : Env) (call : Invocation) : Entry env (call.program env) := by
  cases call <;> constructor

theorem Entry.invocation {env : Env} {p : Backend Unit} (hp : Entry env p) :
    ∃ call : Invocation, p = call.program env := by
  cases hp with
  | createAgreement auth req => exact ⟨.createAgreement auth req, rfl⟩
  | deleteDraft auth draftId => exact ⟨.deleteDraft auth draftId, rfl⟩
  | reinviteDraft auth draftId req => exact ⟨.reinviteDraft auth draftId req, rfl⟩
  | submitDraft auth draftId req => exact ⟨.submitDraft auth draftId req, rfl⟩
  | acceptInvite auth token => exact ⟨.acceptInvite auth token, rfl⟩
  | initiatePayment auth draftId req => exact ⟨.initiatePayment auth draftId req, rfl⟩
  | confirmPaymentAtomic reference txSignature tokenMint tokenAmount =>
      exact ⟨.confirmPaymentAtomic reference txSignature tokenMint tokenAmount, rfl⟩
  | sendInvitationReminders => exact ⟨.sendInvitationReminders, rfl⟩
  | expireStaleInvitations => exact ⟨.expireStaleInvitations, rfl⟩
  | expireTimedOutPayments => exact ⟨.expireTimedOutPayments, rfl⟩
  | reconcileLatePayments => exact ⟨.reconcileLatePayments, rfl⟩
  | processNotification response => exact ⟨.processNotification response, rfl⟩
  | processPendingRefunds => exact ⟨.processPendingRefunds, rfl⟩

/-- A step of an audited run. -/
abbrev AuditedStep := Step (Invocation × Op) (TaggedAns Invocation Op.Ans) World

/-- Runs of any interleaving in which every step shows its invocation. -/
abbrev AuditedRun (env : Env) (w : World) (steps : List AuditedStep) (w' : World) : Prop :=
  TaggedPoolRun perform (Invocation.program env) w steps w'

/-- An audited run is a run of the backend. -/
theorem AuditedRun.systemRun {env : Env} {w w' : World} {steps : List AuditedStep}
    (h : AuditedRun env w steps w') : SystemRun env w (steps.map Step.untag) w' :=
  h.untag (Invocation.entry env)

/-- A schedule of invocations is an audited run. -/
theorem auditedRun_of_replay (env : Env) (w : World) (calls : List Invocation)
    (turns : List (ℕ × ((op : Op) → World → op.Ans))) (test : List AuditedStep → World → Bool)
    (h : (replay (performTagged Invocation perform) [] ⟨w, []⟩
      (taggedSchedule (Invocation.program env) calls turns)).any
        (fun result => test result.1 result.2.world) = true) :
    ∃ steps w', AuditedRun env w steps w' ∧ test steps w' = true :=
  taggedPoolRun_of_replay calls turns test h

/-! ## Privileges -/

/-- What an operation changes or sends. -/
inductive Privilege : Type
  /-- a query, a clock, a random number, a mark -/
  | reads
  | createsDraft
  | discardsDraft
  | submitsDraft
  | grantsDraft
  | invites
  | reinvites
  | expiresInvitations
  | remindsInvitations
  | requestsPayment
  | confirmsPayment
  | expiresPayments
  | reconciles
  | queuesRefund
  | recordsRefund
  | countsUse
  | writesParties
  | notifies
  | pushes
  | mails
  | transacts
  /-- the vault signs -/
  | signs
  /-- a transaction is submitted -/
  | submits
  /-- the treasury pays -/
  | pays
  deriving DecidableEq, Repr

def Op.privilege : Op → Privilege
  | .sql (.draft (.insert ..)) => .createsDraft
  | .sql (.draft (.discard _)) => .discardsDraft
  | .sql (.draft (.setStorage ..)) => .submitsDraft
  | .sql (.draft (.setAgreement ..)) => .submitsDraft
  | .sql (.draft (.setPaid _)) => .grantsDraft
  | .sql (.invitation (.insert ..)) => .invites
  | .sql (.invitation (.insertReturning ..)) => .reinvites
  | .sql (.invitation (.expireStale _)) => .expiresInvitations
  | .sql (.invitation (.markReminded ..)) => .remindsInvitations
  | .sql (.payment (.insert ..)) => .requestsPayment
  | .sql (.payment (.confirm ..)) => .confirmsPayment
  | .sql (.payment (.expireTimedOut _)) => .expiresPayments
  | .sql (.payment (.reconcile ..)) => .reconciles
  | .sql (.payment (.initiateRefund ..)) => .queuesRefund
  | .sql (.payment (.markRefunded ..)) => .recordsRefund
  | .sql (.payment (.setAgreementPda ..)) => .submitsDraft
  | .sql (.count (.bump _)) => .countsUse
  | .sql (.party (.insert ..)) => .writesParties
  | .sql (.party (.sign ..)) => .writesParties
  | .sql (.party (.setStatus ..)) => .writesParties
  | .sql (.party (.lockForExpiry _)) => .writesParties
  | .sql (.party (.unlockFromExpiry _)) => .writesParties
  | .sql (.notification _) => .notifies
  | .begin => .transacts
  | .tx .. => .transacts
  | .commit _ => .transacts
  | .rollback _ => .transacts
  | .vaultSign .. => .signs
  | .partialSign .. => .signs
  | .sendTransaction _ => .submits
  | .sendTransfer .. => .pays
  | .sendEmail _ => .mails
  | .sendToUser .. => .pushes
  | _ => .reads

/-- The operation only reads, or has one of the given privileges. -/
def Op.Has (privileges : List Privilege) (op : Op) : Prop :=
  op.privilege ∈ Privilege.reads :: privileges

section Footprints

variable {privileges : List Privilege}

theorem Op.has_of_test {op : Op}
    (h : decide (op.privilege ∈ Privilege.reads :: privileges) = true) :
    op.Has privileges := by
  show op.privilege ∈ Privilege.reads :: privileges
  exact of_decide_eq_true h

theorem Op.Has.mono {privileges' : List Privilege} {op : Op} (h : op.Has privileges)
    (hsub : privileges ⊆ privileges') : op.Has privileges' :=
  List.cons_subset_cons _ hsub h

/-! ### Services -/

theorem buildCreateAgreementTx_has (args : CreateAgreementArgs) (creator : Pubkey) :
    (buildCreateAgreementTx args creator).run.Issues (Op.Has [.signs]) := by
  refine (buildCreateAgreementTx_issues args creator).mono fun op h => ?_
  cases h <;> exact Op.has_of_test rfl

theorem executeRefund_has (env : Env) (creator mint : String) (amount : UInt64) :
    (executeRefund env creator mint amount).run.Issues (Op.Has [.pays]) := by
  refine (executeRefund_issues env creator mint amount).mono fun op h => ?_
  cases h <;> exact Op.has_of_test rfl

theorem enqueueNotification_has (eventType : String) (pda : Option String) (recipient : String) :
    (enqueueNotification eventType pda recipient).run.Issues (Op.Has [.notifies]) := by
  unfold enqueueNotification
  refine issues_run_bind (issues_ask.mpr (Op.has_of_test rfl)) fun _ => ?_
  exact issues_run_bind (issues_query.mpr (Op.has_of_test rfl)) fun _ => trivial

/-! ### Handlers -/

theorem createAgreement_has (env : Env) (auth : AuthUserWithWallet) (req : CreateAgreementRequest) :
    (createAgreement env auth req).run.Issues (Op.Has [.createsDraft, .invites, .signs]) := by
  unfold createAgreement
  refine issues_run_bind issues_ofExcept fun _ => ?_
  refine issues_run_bind issues_ofExcept fun key => ?_
  refine issues_run_bind issues_ofExcept fun indexKey => ?_
  refine issues_run_bind (issues_query.mpr (Op.has_of_test rfl)) fun freeUsed => ?_
  refine issues_run_bind (issues_ask.mpr (Op.has_of_test rfl)) fun invitedAt => ?_
  refine issues_run_bind issues_okOr fun expiry => ?_
  refine issues_run_bind ((resolveParties_issues ..).mono fun _ h => ?_) fun scan => ?_
  · cases h <;> exact Op.has_of_test rfl
  split
  · unfold submitDirectly
    refine issues_run_bind issues_okOr fun creatorPubkey => ?_
    refine issues_run_bind (issues_ask.mpr (Op.has_of_test rfl)) fun agreementId => ?_
    refine issues_run_bind ?_ fun _ => trivial
    exact (buildCreateAgreementTx_has ..).mono fun _ h => h.mono (by simp)
  · refine issues_run_bind (issues_query.mpr (Op.has_of_test rfl)) fun draftId => ?_
    refine issues_run_bind ((insertInvitations_issues ..).mono fun _ h => ?_) fun _ => trivial
    cases h <;> exact Op.has_of_test rfl

theorem ensureCreatorFromUserId_has (userId : Uuid) (creator : String) :
    (ensureCreatorFromUserId userId creator).run.Issues (Op.Has privileges) :=
  issues_run_bind (issues_query.mpr List.mem_cons_self) fun _ => issues_ofExcept

theorem deleteDraft_has (auth : AuthUser) (draftId : Uuid) :
    (deleteDraft auth draftId).run.Issues (Op.Has [.discardsDraft]) := by
  unfold deleteDraft
  refine issues_run_bind (issues_query.mpr (Op.has_of_test rfl)) fun _ => ?_
  refine issues_run_bind issues_okOr fun creator => ?_
  refine issues_run_bind (ensureCreatorFromUserId_has ..) fun _ => ?_
  exact issues_query.mpr (Op.has_of_test rfl)

theorem reinviteDraft_has (env : Env) (auth : AuthUser) (draftId : Uuid) (req : ReinviteRequest) :
    (reinviteDraft env auth draftId req).run.Issues (Op.Has [.reinvites]) := by
  unfold reinviteDraft
  refine issues_run_bind (issues_query.mpr (Op.has_of_test rfl)) fun _ => ?_
  refine issues_run_bind issues_okOr fun creator => ?_
  refine issues_run_bind (ensureCreatorFromUserId_has ..) fun _ => ?_
  refine issues_run_bind (issues_query.mpr (Op.has_of_test rfl)) fun _ => ?_
  refine issues_run_bind issues_okOr fun ⟨index, enc, nonce⟩ => ?_
  refine issues_run_bind (issues_ask.mpr (Op.has_of_test rfl)) fun token => ?_
  refine issues_run_bind (issues_ask.mpr (Op.has_of_test rfl)) fun now => ?_
  refine issues_run_bind issues_okOr fun expiry => ?_
  refine issues_run_bind (issues_ask.mpr (Op.has_of_test rfl)) fun createdAt => ?_
  exact issues_run_bind (issues_query.mpr (Op.has_of_test rfl)) fun _ => trivial

theorem submitDraft_has (env : Env) (auth : AuthUserWithWallet) (draftId : Uuid)
    (req : SubmitDraftRequest) :
    (submitDraft env auth draftId req).run.Issues (Op.Has [.submitsDraft, .signs]) := by
  unfold submitDraft persistAgreement
  refine issues_run_bind ((admitSubmission_issues ..).mono fun _ h => ?_)
    fun ⟨storageBackend, draft⟩ => ?_
  · cases h <;> exact Op.has_of_test rfl
  refine issues_run_bind (issues_query.mpr (Op.has_of_test rfl)) fun _ => ?_
  refine issues_run_bind issues_okOr fun payload => ?_
  refine issues_run_bind issues_okOr fun creatorPubkey => ?_
  refine issues_run_bind (issues_ask.mpr (Op.has_of_test rfl)) fun agreementId => ?_
  refine issues_run_bind issues_okOr fun contentHash => ?_
  refine issues_run_bind ((buildCreateAgreementTx_has ..).mono fun _ h => h.mono (by simp))
    fun transaction => ?_
  refine issues_run_bind (issues_run_bind ?_ fun _ => ?_) fun _ => trivial
  · exact issues_query.mpr (Op.has_of_test rfl)
  · exact issues_query.mpr (Op.has_of_test rfl)

theorem acceptInvite_has (auth : AuthUserWithWallet) (token : String) :
    (acceptInvite auth token).run.Issues (Op.Has [.transacts, .pushes, .notifies]) := by
  unfold acceptInvite
  refine issues_run_bind (issues_ask.mpr (Op.has_of_test rfl)) fun now => ?_
  refine issues_run_bind (issues_orFail (issues_issue.mpr (Op.has_of_test rfl))) fun tx => ?_
  refine issues_run_bind (issues_rollbackOnError ((acceptInTx_issues ..).mono fun _ h => ?_)
    (Op.has_of_test rfl)) fun acceptance => ?_
  · obtain ⟨s, rfl⟩ := h
    exact Op.has_of_test rfl
  refine issues_run_bind (issues_orFail (issues_issue.mpr (Op.has_of_test rfl))) fun _ => ?_
  split
  · unfold notifyReady
    refine issues_run_bind (issues_query.mpr (Op.has_of_test rfl)) fun userId => ?_
    cases userId with
    | none => trivial
    | some userId =>
        refine issues_run_bind (issues_ask.mpr (Op.has_of_test rfl)) fun delivered => ?_
        cases delivered with
        | true => trivial
        | false => exact (enqueueNotification_has ..).mono fun _ h => h.mono (by simp)
  · trivial

theorem initiatePayment_has (env : Env) (auth : AuthUserWithWallet) (draftId : Uuid)
    (req : InitiatePaymentRequest) : (initiatePayment env auth draftId req).run.Issues
      (Op.Has [.grantsDraft, .countsUse, .requestsPayment]) := by
  unfold initiatePayment
  refine issues_run_bind (issues_query.mpr (Op.has_of_test rfl)) fun _ => ?_
  refine issues_run_bind issues_okOr fun creator => ?_
  refine issues_run_bind issues_ensure fun _ => ?_
  refine issues_run_bind (issues_query.mpr (Op.has_of_test rfl)) fun freeUsed => ?_
  split
  · refine issues_run_bind (issues_query.mpr (Op.has_of_test rfl)) fun _ => ?_
    exact issues_run_bind (issues_query.mpr (Op.has_of_test rfl)) fun _ => trivial
  · unfold requestPayment
    refine issues_run_bind issues_okOr fun tokenInfo => ?_
    refine issues_run_bind (issues_ask.mpr (Op.has_of_test rfl)) fun reference => ?_
    refine issues_run_bind (issues_ask.mpr (Op.has_of_test rfl)) fun id => ?_
    refine issues_run_bind (issues_ask.mpr (Op.has_of_test rfl)) fun now => ?_
    exact issues_run_bind (issues_query.mpr (Op.has_of_test rfl)) fun _ => trivial

theorem confirmPaymentAtomic_has (reference txSignature tokenMint : String) (tokenAmount : Int64) :
    (confirmPaymentAtomic reference txSignature tokenMint tokenAmount).run.Issues
      (Op.Has [.confirmsPayment]) := by
  unfold confirmPaymentAtomic
  refine issues_run_bind (issues_ask.mpr (Op.has_of_test rfl)) fun now => ?_
  exact issues_run_bind (issues_query.mpr (Op.has_of_test rfl)) fun _ => trivial

/-! ### Event listener -/

theorem broadcast_has (event : WsEvent) (parties : List String) :
    (broadcast event parties).Issues (Op.Has [.pushes]) := by
  induction parties with
  | nil => trivial
  | cons party parties ih =>
      refine Program.issues_bind ?_ fun userId => ?_
      · refine Program.issues_bind (issues_sql.mpr (Op.has_of_test rfl)) fun r => ?_
        cases r <;> trivial
      · cases userId with
        | none => exact ih
        | some userId =>
            exact Program.issues_bind (issues_issue.mpr (Op.has_of_test rfl)) fun _ => ih

theorem enqueueAll_has (eventType agreementPda : String) (parties : List String) :
    (enqueueAll eventType agreementPda parties).Issues (Op.Has [.notifies]) := by
  induction parties with
  | nil => trivial
  | cons party parties ih =>
      exact Program.issues_bind (issues_logged (enqueueNotification_has ..)) fun _ => ih

theorem insertParties_has (agreementPda creator : String) (parties : List String) :
    (insertParties agreementPda creator parties).run.Issues (Op.Has [.writesParties]) := by
  induction parties with
  | nil => trivial
  | cons party parties ih =>
      refine issues_run_bind (issues_ask.mpr (Op.has_of_test rfl)) fun now => ?_
      exact issues_run_bind (issues_query.mpr (Op.has_of_test rfl)) fun _ => ih

/-- The privileges of the event listener. -/
abbrev listenerPrivileges : List Privilege := [.writesParties, .notifies, .pushes, .queuesRefund]

theorem handleCreateAgreement_has (event : ParsedEvent) :
    (handleCreateAgreement event).run.Issues (Op.Has listenerPrivileges) := by
  refine issues_run_bind ((insertParties_has ..).mono fun _ h => h.mono (by simp)) fun _ => ?_
  refine issues_run_bind (issues_run_lift ((enqueueAll_has ..).mono fun _ h => h.mono (by simp)))
    fun _ => ?_
  exact issues_run_lift ((broadcast_has ..).mono fun _ h => h.mono (by simp))

theorem handleSignAgreement_has (event : ParsedEvent) :
    (handleSignAgreement event).run.Issues (Op.Has listenerPrivileges) := by
  refine issues_run_bind (issues_ask.mpr (Op.has_of_test rfl)) fun now => ?_
  refine issues_run_bind (issues_query.mpr (Op.has_of_test rfl)) fun signed => ?_
  cases signed with
  | none => trivial
  | some party =>
      refine issues_run_bind (issues_query.mpr (Op.has_of_test rfl)) fun unsignedCount => ?_
      refine issues_run_bind (issues_run_lift (issues_logged
        ((enqueueNotification_has ..).mono fun _ h => h.mono (by simp)))) fun _ => ?_
      refine issues_run_bind (issues_query.mpr (Op.has_of_test rfl)) fun parties => ?_
      exact issues_run_lift ((broadcast_has ..).mono fun _ h => h.mono (by simp))

theorem handleVoteRevoke_has (event : ParsedEvent) :
    (handleVoteRevoke event).run.Issues (Op.Has listenerPrivileges) := by
  refine issues_run_bind (issues_run_lift (issues_logged
    ((enqueueNotification_has ..).mono fun _ h => h.mono (by simp)))) fun _ => ?_
  refine issues_run_bind (issues_query.mpr (Op.has_of_test rfl)) fun parties => ?_
  exact issues_run_lift ((broadcast_has ..).mono fun _ h => h.mono (by simp))

theorem handleCancellation_has (event : ParsedEvent) (status : PartyStatus) :
    (handleCancellation event status).run.Issues (Op.Has listenerPrivileges) := by
  refine issues_run_bind (issues_query.mpr (Op.has_of_test rfl)) fun _ => ?_
  refine issues_run_bind (issues_query.mpr (Op.has_of_test rfl)) fun parties => ?_
  refine issues_run_bind (issues_run_lift ((enqueueAll_has ..).mono fun _ h => h.mono (by simp)))
    fun _ => ?_
  refine issues_run_bind (issues_run_lift ((broadcast_has ..).mono fun _ h => h.mono (by simp)))
    fun _ => issues_run_lift (issues_logged ?_)
  refine issues_run_bind (issues_query.mpr (Op.has_of_test rfl)) fun paymentId => ?_
  cases paymentId with
  | none => trivial
  | some id =>
      refine issues_run_bind (issues_ask.mpr (Op.has_of_test rfl)) fun now => ?_
      exact issues_query.mpr (Op.has_of_test rfl)

theorem processNotification_has (env : Env) (response : RpcLogsResponse) :
    (processNotification env response).Issues (Op.Has listenerPrivileges) := by
  unfold processNotification
  split
  · rename_i event _
    refine issues_logged ?_
    unfold handleEvent
    split
    · exact handleCreateAgreement_has event
    · exact handleSignAgreement_has event
    · exact handleCancellation_has event .cancelled
    · exact handleCancellation_has event .expired
    · exact handleVoteRevoke_has event
  · trivial

/-! ### Workers -/

theorem sendInvitationReminders_has (env : Env) :
    (sendInvitationReminders env).Issues (Op.Has [.mails, .remindsInvitations]) := by
  have hloop : ∀ rows, (remindInvitations rows).Issues (Op.Has [.mails, .remindsInvitations]) := by
    intro rows
    induction rows with
    | nil => trivial
    | cons invId rest ih =>
        refine Program.issues_bind (issues_issue.mpr (Op.has_of_test rfl)) fun sent => ?_
        cases sent with
        | error _ => exact ih
        | ok _ =>
            refine Program.issues_bind (issues_issue.mpr (Op.has_of_test rfl)) fun now => ?_
            exact Program.issues_bind (issues_sql.mpr (Op.has_of_test rfl)) fun _ => ih
  refine Program.issues_bind (issues_issue.mpr (Op.has_of_test rfl)) fun now => ?_
  refine Program.issues_bind (issues_sql.mpr (Op.has_of_test rfl)) fun rows => ?_
  cases rows with
  | ok rows => exact hloop rows
  | error _ => trivial

theorem expireStaleInvitations_has :
    expireStaleInvitations.Issues (Op.Has [.expiresInvitations]) := by
  refine Program.issues_bind (issues_issue.mpr (Op.has_of_test rfl)) fun now => ?_
  exact Program.issues_bind (issues_sql.mpr (Op.has_of_test rfl)) fun _ => trivial

theorem expireTimedOutPayments_has : expireTimedOutPayments.Issues (Op.Has [.expiresPayments]) := by
  refine Program.issues_bind (issues_issue.mpr (Op.has_of_test rfl)) fun now => ?_
  exact Program.issues_bind (issues_sql.mpr (Op.has_of_test rfl)) fun _ => trivial

theorem reconcileLatePayments_has (env : Env) :
    (reconcileLatePayments env).Issues (Op.Has [.reconciles]) := by
  have hloop : ∀ payments, (reconcilePayments env payments).Issues (Op.Has [.reconciles]) := by
    intro payments
    induction payments with
    | nil => trivial
    | cons entry rest ih =>
        refine Program.issues_bind ?_ fun _ => ih
        unfold reconcilePayment
        cases env.crates.pubkeyFromStr entry.2 with
        | none => trivial
        | some refPubkey =>
            refine Program.issues_bind (issues_issue.mpr (Op.has_of_test rfl)) fun found => ?_
            rcases found with _ | _ | _
            · trivial
            · trivial
            · refine Program.issues_bind (issues_issue.mpr (Op.has_of_test rfl)) fun now => ?_
              exact Program.issues_bind (issues_sql.mpr (Op.has_of_test rfl)) fun _ => trivial
  refine Program.issues_bind (issues_issue.mpr (Op.has_of_test rfl)) fun now => ?_
  refine Program.issues_bind (issues_sql.mpr (Op.has_of_test rfl)) fun payments => ?_
  cases payments with
  | ok payments => exact hloop payments
  | error _ => trivial

theorem recordRefund_has (id : Uuid) (result : Except AppError String) :
    (recordRefund id result).Issues (Op.Has [.recordsRefund]) := by
  cases result with
  | error e => trivial
  | ok sig =>
      refine Program.issues_bind (issues_issue.mpr (Op.has_of_test rfl)) fun now => ?_
      exact Program.issues_bind (issues_sql.mpr (Op.has_of_test rfl)) fun _ => trivial

theorem refundRows_has (env : Env) (rows : List RefundRow) :
    (refundRows env rows).Issues (Op.Has [.pays, .recordsRefund]) := by
  induction rows with
  | nil => trivial
  | cons row rest ih =>
      refine Program.issues_bind ?_ fun _ => ih
      unfold refundRow
      split
      · trivial
      refine Program.issues_bind (issues_issue.mpr (Op.has_of_test rfl)) fun _ => ?_
      refine Program.issues_bind ((executeRefund_has ..).mono fun _ h => h.mono (by simp))
        fun result => ?_
      refine Program.issues_bind (issues_issue.mpr (Op.has_of_test rfl)) fun _ => ?_
      exact (recordRefund_has ..).mono fun _ h => h.mono (by simp)

theorem processPendingRefunds_has (env : Env) :
    (processPendingRefunds env).Issues (Op.Has [.pays, .recordsRefund]) := by
  refine Program.issues_bind (issues_sql.mpr (Op.has_of_test rfl)) fun rows => ?_
  cases rows with
  | error _ => trivial
  | ok rows => exact Program.issues_bind (refundRows_has env rows) fun _ => trivial

end Footprints

/-! ## All invocations -/

/-- The privileges of an invocation. -/
def Invocation.privileges : Invocation → List Privilege
  | .createAgreement .. => [.createsDraft, .invites, .signs]
  | .deleteDraft .. => [.discardsDraft]
  | .reinviteDraft .. => [.reinvites]
  | .submitDraft .. => [.submitsDraft, .signs]
  | .acceptInvite .. => [.transacts, .pushes, .notifies]
  | .initiatePayment .. => [.grantsDraft, .countsUse, .requestsPayment]
  | .confirmPaymentAtomic .. => [.confirmsPayment]
  | .sendInvitationReminders => [.mails, .remindsInvitations]
  | .expireStaleInvitations => [.expiresInvitations]
  | .expireTimedOutPayments => [.expiresPayments]
  | .reconcileLatePayments => [.reconciles]
  | .processNotification _ => listenerPrivileges
  | .processPendingRefunds => [.pays, .recordsRefund]

theorem Invocation.has (env : Env) (call : Invocation) :
    (call.program env).Issues (Op.Has call.privileges) := by
  cases call with
  | createAgreement auth req => exact issues_logged (createAgreement_has env auth req)
  | deleteDraft auth draftId => exact issues_logged (deleteDraft_has auth draftId)
  | reinviteDraft auth draftId req => exact issues_logged (reinviteDraft_has env auth draftId req)
  | submitDraft auth draftId req => exact issues_logged (submitDraft_has env auth draftId req)
  | acceptInvite auth token => exact issues_logged (acceptInvite_has auth token)
  | initiatePayment auth draftId req =>
      exact issues_logged (initiatePayment_has env auth draftId req)
  | confirmPaymentAtomic reference txSignature tokenMint tokenAmount =>
      exact issues_logged (confirmPaymentAtomic_has reference txSignature tokenMint tokenAmount)
  | sendInvitationReminders => exact sendInvitationReminders_has env
  | expireStaleInvitations => exact expireStaleInvitations_has
  | expireTimedOutPayments => exact expireTimedOutPayments_has
  | reconcileLatePayments => exact reconcileLatePayments_has env
  | processNotification response => exact processNotification_has env response
  | processPendingRefunds =>
      exact Program.issues_bind (processPendingRefunds_has env) fun _ => trivial

/-- Every step is within the privileges of its invocation. -/
theorem AuditedRun.permitted {env : Env} {w w' : World} {steps : List AuditedStep}
    (h : AuditedRun env w steps w') : ∀ step ∈ steps, step.op.2.Has step.op.1.privileges :=
  h.issued fun call => call.has env

end PactumCodex
