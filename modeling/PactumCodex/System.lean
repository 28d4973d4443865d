import PactumCodex.Rules
import PactumCodex.Handlers.Draft
import PactumCodex.Handlers.Invite
import PactumCodex.Handlers.Payment
import PactumCodex.Workers.EventListener
import PactumCodex.Workers.Keeper
import PactumCodex.Workers.RefundWorker

/-!
# The whole backend

`Entry` lists the programs that server instances start: requests with any
arguments, scans of the keeper, notifications of the log subscription and
cycles of the refund worker.  Two kinds of runs are considered.

* `SystemRun env`: any number of these programs, interleaved operation by
  operation, each possibly cut off.
* `Calls env`: one program after the other, each run to its end.

## What the programs issue

Most programs issue none of the operations that later arguments have to look at
closely.  The operations are sorted by what matters there: whether they make a
payment refundable, call `execute_refund`, belong to a transaction, store a draft or
an invitation, or store the address of an agreement.  `Op.Plain` is none of these,
and weaker properties allow some of them.

For each program one lemma (`…_issues`) says what it issues, along its text; at the
end these are collected for all programs:

* `entry_passive`: four programs store drafts, invitations or addresses or use a
  transaction, and the others do none of this;
* `entry_draftFree`: three programs store drafts or invitations or use a
  transaction;
* `entry_single`: only `create_agreement` and `accept_invite` have to be looked at as
  whole calls;
* `entry_persists`: only `submit_draft` stores an address.

A run lemma of a later module then looks at the few programs that are named, and
treats the others as operations.
-/

namespace PactumCodex

open Interaction

/-! ## Entry points -/

/-- The programs of the backend. -/
inductive Entry (env : Env) : Backend Unit → Prop
  | createAgreement (auth : AuthUserWithWallet) (req : CreateAgreementRequest) :
      Entry env (Handler.logged (createAgreement env auth req))
  | deleteDraft (auth : AuthUser) (draftId : Uuid) :
      Entry env (Handler.logged (deleteDraft auth draftId))
  | reinviteDraft (auth : AuthUser) (draftId : Uuid) (req : ReinviteRequest) :
      Entry env (Handler.logged (reinviteDraft env auth draftId req))
  | submitDraft (auth : AuthUserWithWallet) (draftId : Uuid) (req : SubmitDraftRequest) :
      Entry env (Handler.logged (submitDraft env auth draftId req))
  | acceptInvite (auth : AuthUserWithWallet) (token : String) :
      Entry env (Handler.logged (acceptInvite auth token))
  | initiatePayment (auth : AuthUserWithWallet) (draftId : Uuid) (req : InitiatePaymentRequest) :
      Entry env (Handler.logged (initiatePayment env auth draftId req))
  | confirmPaymentAtomic (reference txSignature tokenMint : String) (tokenAmount : Int64) :
      Entry env (Handler.logged (confirmPaymentAtomic reference txSignature tokenMint tokenAmount))
  | sendInvitationReminders : Entry env (sendInvitationReminders env)
  | expireStaleInvitations : Entry env expireStaleInvitations
  | expireTimedOutPayments : Entry env expireTimedOutPayments
  | reconcileLatePayments : Entry env (reconcileLatePayments env)
  | processNotification (response : RpcLogsResponse) : Entry env (processNotification env response)
  | processPendingRefunds : Entry env (processPendingRefunds env >>= fun _ => pure ())

/-- Runs of any interleaving, from a world in which nothing runs yet. -/
abbrev SystemRun (env : Env) (w : World) (steps : List BackendStep) (w' : World) : Prop :=
  ∃ threads, PoolRun perform (Entry env) ⟨w, []⟩ steps ⟨w', threads⟩

theorem SystemRun.valid {env : Env} {w w' : World} {steps : List BackendStep}
    (hrun : SystemRun env w steps w') : ∀ step ∈ steps, step.Valid perform := by
  obtain ⟨threads, hpool⟩ := hrun
  exact hpool.chain.valid

/-- Runs of one program after the other. -/
inductive Calls (env : Env) : World → List BackendStep → World → Prop
  | nil (w : World) : Calls env w [] w
  | cons {w w₁ w' : World} {first rest : List BackendStep} {p : Backend Unit} :
      Entry env p → Runs perform p w first () w₁ → Calls env w₁ rest w' →
      Calls env w (first ++ rest) w'

/-! ## What the programs issue -/

/-- The operation makes a payment refundable. -/
def Op.queues : Op → Bool
  | .sql (.payment (.reconcile ..)) => true
  | .sql (.payment (.initiateRefund ..)) => true
  | _ => false

/-- The operation enters `execute_refund`. -/
def Op.callsRefund : Op → Bool
  | .refundCall .. => true
  | _ => false

/-- The operation belongs to a transaction. -/
def Op.inTransaction : Op → Bool
  | .begin => true
  | .tx .. => true
  | .commit _ => true
  | .rollback _ => true
  | _ => false

/-- The operation stores a draft or an invitation. -/
def Op.stores : Op → Bool
  | .sql (.draft (.insert ..)) => true
  | .sql (.invitation (.insert ..)) => true
  | .sql (.invitation (.insertReturning ..)) => true
  | _ => false

/-- The operation stores a draft or an invitation as `create_agreement` does. -/
def Op.creates : Op → Bool
  | .sql (.draft (.insert ..)) => true
  | .sql (.invitation (.insert ..)) => true
  | _ => false

/-- The operation stores an invitation as `reinvite_draft` does. -/
def Op.reinvites : Op → Bool
  | .sql (.invitation (.insertReturning ..)) => true
  | _ => false

theorem Op.stores_eq (op : Op) : op.stores = (op.creates || op.reinvites) := by
  cases op with
  | sql s =>
      cases s with
      | draft s => cases s <;> rfl
      | invitation s => cases s <;> rfl
      | _ => rfl
  | _ => rfl

/-- The operation stores the address of an agreement. -/
def Op.persists : Op → Bool
  | .sql (.draft (.setAgreement ..)) => true
  | .sql (.payment (.setAgreementPda ..)) => true
  | _ => false

/-- Neither refunds nor transactions nor new rows. -/
structure Op.Steady (op : Op) : Prop where
  queues : op.queues = false
  callsRefund : op.callsRefund = false
  inTransaction : op.inTransaction = false
  stores : op.stores = false

/-- Neither refunds nor transactions nor new rows nor addresses of agreements. -/
structure Op.Plain (op : Op) : Prop where
  steady : op.Steady
  persists : op.persists = false

/-- The test for `Op.Plain`. -/
def Op.isPlain (op : Op) : Bool :=
  !(op.queues || op.callsRefund || op.inTransaction || op.stores || op.persists)

theorem Op.plain_of_test {op : Op} (h : op.isPlain = true) : op.Plain := by
  simp only [isPlain, Bool.not_or, Bool.and_eq_true, Bool.not_eq_true'] at h
  obtain ⟨⟨⟨⟨hqueues, hcalls⟩, htransaction⟩, hstores⟩, hpersists⟩ := h
  exact ⟨⟨hqueues, hcalls, htransaction, hstores⟩, hpersists⟩

/-- The operation neither makes a payment refundable nor calls `execute_refund`. -/
structure Op.RefundFree (op : Op) : Prop where
  queues : op.queues = false
  callsRefund : op.callsRefund = false

/-- The operation has nothing to do with refunds and belongs to no transaction. -/
structure Op.TxFree (op : Op) : Prop where
  queues : op.queues = false
  callsRefund : op.callsRefund = false
  inTransaction : op.inTransaction = false
  persists : op.persists = false

/-- The operation has nothing to do with refunds and stores neither drafts nor invitations. -/
structure Op.StoreFree (op : Op) : Prop where
  queues : op.queues = false
  callsRefund : op.callsRefund = false
  stores : op.stores = false
  persists : op.persists = false

/-- The operation neither stores a draft or an invitation nor belongs to a transaction. -/
structure Op.DraftFree (op : Op) : Prop where
  inTransaction : op.inTransaction = false
  stores : op.stores = false

/-- The same, and the operation stores no address of an agreement. -/
structure Op.Passive (op : Op) : Prop where
  draftFree : op.DraftFree
  persists : op.persists = false

theorem Op.Steady.refundFree {op : Op} (h : op.Steady) : op.RefundFree := ⟨h.queues, h.callsRefund⟩

theorem Op.Plain.refundFree {op : Op} (h : op.Plain) : op.RefundFree := h.steady.refundFree

theorem Op.Steady.draftFree {op : Op} (h : op.Steady) : op.DraftFree := ⟨h.inTransaction, h.stores⟩

theorem Op.Plain.passive {op : Op} (h : op.Plain) : op.Passive := ⟨h.steady.draftFree, h.persists⟩

theorem Op.Plain.txFree {op : Op} (h : op.Plain) : op.TxFree :=
  ⟨h.steady.queues, h.steady.callsRefund, h.steady.inTransaction, h.persists⟩

theorem Op.Plain.storeFree {op : Op} (h : op.Plain) : op.StoreFree :=
  ⟨h.steady.queues, h.steady.callsRefund, h.steady.stores, h.persists⟩

theorem Op.StoreFree.refundFree {op : Op} (h : op.StoreFree) : op.RefundFree :=
  ⟨h.queues, h.callsRefund⟩

theorem Op.creates_of_stores {op : Op} (h : op.stores = false) : op.creates = false := by
  rw [Op.stores_eq, Bool.or_eq_false_iff] at h
  exact h.1

theorem Op.reinvites_of_stores {op : Op} (h : op.stores = false) : op.reinvites = false := by
  rw [Op.stores_eq, Bool.or_eq_false_iff] at h
  exact h.2

theorem Op.TxFree.refundFree {op : Op} (h : op.TxFree) : op.RefundFree := ⟨h.queues, h.callsRefund⟩

/-! ### Services -/

/-- The operations of `build_create_agreement_tx`. -/
inductive Op.Builds (args : CreateAgreementArgs) (creator : Pubkey) : Op → Prop
  | rentExemption (size : ℕ) : Op.Builds args creator (.rentExemption size)
  | latestBlockhash : Op.Builds args creator .latestBlockhash
  | vaultSign (blockhash : String) : Op.Builds args creator (.vaultSign args creator blockhash)

theorem Op.Builds.plain {args : CreateAgreementArgs} {creator : Pubkey} {op : Op}
    (h : op.Builds args creator) : op.Plain := by
  cases h <;> exact Op.plain_of_test rfl

theorem buildCreateAgreementTx_issues (args : CreateAgreementArgs) (creator : Pubkey) :
    (buildCreateAgreementTx args creator).run.Issues (Op.Builds args creator) := by
  unfold buildCreateAgreementTx calculateVaultDeposit
  refine issues_run_bind (issues_run_bind (issues_orFail ?_) fun _ => trivial) fun _ => ?_
  · exact issues_issue.mpr (.rentExemption _)
  refine issues_run_bind issues_okOr fun _ => ?_
  refine issues_run_bind (issues_orFail ?_) fun _ => issues_orFail ?_
  · exact issues_issue.mpr .latestBlockhash
  · exact issues_issue.mpr (.vaultSign _)

/-- A transaction that is built was signed by the vault in the last step. -/
theorem buildCreateAgreementTx_ok {args : CreateAgreementArgs} {creator : Pubkey} {w w' : World}
    {steps : List BackendStep} {transaction : String}
    (h : Runs perform (buildCreateAgreementTx args creator).run w steps (.ok transaction) w') :
    ∃ pre blockhash, ⟨pre, .vaultSign args creator blockhash, .ok transaction, w'⟩ ∈ steps := by
  unfold buildCreateAgreementTx at h
  obtain ⟨-, w₁, first, rest, rfl, -, h⟩ := runs_bind_ok.mp h
  obtain ⟨-, w₂, second, third, rfl, -, h⟩ := runs_bind_ok.mp h
  obtain ⟨blockhash, w₃, fourth, fifth, rfl, -, h⟩ := runs_bind_ok.mp h
  rw [runs_orFail_ok, runs_issue] at h
  obtain ⟨-, rfl⟩ := h
  refine ⟨w₃, blockhash, ?_⟩
  simp

/-- The operations of `execute_refund`. -/
inductive Op.Transfers : Op → Prop
  | destinationExists (creator mint : Pubkey) : Op.Transfers (.destinationExists creator mint)
  | latestBlockhash : Op.Transfers .latestBlockhash
  | sendTransfer (creator mint : Pubkey) (amount : UInt64) (blockhash : String) :
      Op.Transfers (.sendTransfer creator mint amount blockhash)

theorem Op.Transfers.plain {op : Op} (h : op.Transfers) : op.Plain := by
  cases h <;> exact Op.plain_of_test rfl

theorem executeRefund_issues (env : Env) (creator mint : String) (amount : UInt64) :
    (executeRefund env creator mint amount).run.Issues Op.Transfers := by
  unfold executeRefund
  refine issues_run_bind issues_okOr fun creatorPubkey => ?_
  refine issues_run_bind issues_okOr fun tokenMint => ?_
  refine issues_run_bind (issues_orFail ?_) fun _ => ?_
  · exact issues_issue.mpr (.destinationExists ..)
  refine issues_run_bind issues_ensure fun _ => issues_run_bind (issues_orFail ?_) fun _ => ?_
  · exact issues_issue.mpr .latestBlockhash
  · exact issues_orFail (issues_issue.mpr (.sendTransfer ..))

theorem enqueueNotification_issues (eventType : String) (pda : Option String) (recipient : String) :
    (enqueueNotification eventType pda recipient).run.Issues Op.Plain := by
  unfold enqueueNotification
  refine issues_run_bind (issues_ask.mpr (Op.plain_of_test rfl)) fun _ => ?_
  exact issues_run_bind (issues_query.mpr (Op.plain_of_test rfl)) fun _ => trivial

/-! ### Handlers -/

/-- The operations of the loop over the requested parties. -/
inductive Op.Resolves : Op → Prop
  | walletOfEmail (index : List UInt8) : Op.Resolves (.sql (.account (.walletOfEmail index)))
  | newUuid : Op.Resolves .newUuid
  | newToken : Op.Resolves .newToken
  | encrypt (email : String) (key : Bytes 32) : Op.Resolves (.encrypt email key)

theorem Op.Resolves.plain {op : Op} (h : op.Resolves) : op.Plain := by
  cases h <;> exact Op.plain_of_test rfl

theorem resolveParties_issues (env : Env) (key indexKey : Bytes 32) (invitedAt expiresAt : ℤ)
    (parties : List PartyInput) (scan : PartyScan) :
    (resolveParties env key indexKey invitedAt expiresAt parties scan).run.Issues Op.Resolves := by
  induction parties generalizing scan with
  | nil => trivial
  | cons party parties ih =>
      cases party with
      | pubkey pubkey => exact ih _
      | email email =>
          refine issues_run_bind (issues_query.mpr (.walletOfEmail _)) fun resolved => ?_
          cases resolved with
          | some pubkey => exact ih _
          | none =>
              refine issues_run_bind (issues_ask.mpr .newUuid) fun inviteId => ?_
              refine issues_run_bind (issues_ask.mpr .newToken) fun token => ?_
              refine issues_run_bind (issues_orFail ?_) fun _ => ih _
              exact issues_issue.mpr (.encrypt ..)

/-- The operations of the loop over the invitations. -/
inductive Op.Invites : Op → Prop
  | dbNow : Op.Invites .dbNow
  | insert (id draftId : Uuid) (index enc nonce : List UInt8) (token : String)
      (expiresAt createdAt : ℤ) : Op.Invites
        (.sql (.invitation (.insert id draftId index enc nonce token expiresAt createdAt)))

theorem insertInvitations_issues (draftId : Uuid) (rows : List InvitationInsertRow) :
    (insertInvitations draftId rows).run.Issues Op.Invites := by
  induction rows with
  | nil => trivial
  | cons invite rest ih =>
      refine issues_run_bind (issues_ask.mpr .dbNow) fun now => ?_
      exact issues_run_bind (issues_query.mpr (.insert ..)) fun _ => ih

theorem createAgreement_issues (env : Env) (auth : AuthUserWithWallet)
    (req : CreateAgreementRequest) :
    (createAgreement env auth req).run.Issues fun op => op.TxFree ∧ op.reinvites = false := by
  unfold createAgreement
  refine issues_run_bind issues_ofExcept fun _ => ?_
  refine issues_run_bind issues_ofExcept fun key => ?_
  refine issues_run_bind issues_ofExcept fun indexKey => ?_
  refine issues_run_bind (issues_query.mpr ⟨⟨rfl, rfl, rfl, rfl⟩, rfl⟩) fun freeUsed => ?_
  refine issues_run_bind (issues_ask.mpr ⟨⟨rfl, rfl, rfl, rfl⟩, rfl⟩) fun invitedAt => ?_
  refine issues_run_bind issues_okOr fun expiry => ?_
  refine issues_run_bind ((resolveParties_issues ..).mono fun _ h =>
    ⟨h.plain.txFree, Op.reinvites_of_stores h.plain.steady.stores⟩) fun scan => ?_
  split
  · unfold submitDirectly
    refine issues_run_bind issues_okOr fun creatorPubkey => ?_
    refine issues_run_bind (issues_ask.mpr ⟨⟨rfl, rfl, rfl, rfl⟩, rfl⟩) fun agreementId => ?_
    refine issues_run_bind ?_ fun _ => trivial
    exact (buildCreateAgreementTx_issues ..).mono fun _ h =>
      ⟨h.plain.txFree, Op.reinvites_of_stores h.plain.steady.stores⟩
  · refine issues_run_bind (issues_query.mpr ⟨⟨rfl, rfl, rfl, rfl⟩, rfl⟩) fun draftId => ?_
    refine issues_run_bind ((insertInvitations_issues ..).mono fun _ h => ?_) fun _ => trivial
    cases h <;> exact ⟨⟨rfl, rfl, rfl, rfl⟩, rfl⟩

theorem ensureCreatorFromUserId_issues (userId : Uuid) (creator : String) :
    (ensureCreatorFromUserId userId creator).run.Issues Op.Plain :=
  issues_run_bind (issues_query.mpr (Op.plain_of_test rfl)) fun _ => issues_ofExcept

theorem deleteDraft_issues (auth : AuthUser) (draftId : Uuid) :
    (deleteDraft auth draftId).run.Issues Op.Plain := by
  unfold deleteDraft
  refine issues_run_bind (issues_query.mpr (Op.plain_of_test rfl)) fun _ => ?_
  refine issues_run_bind issues_okOr fun creator => ?_
  refine issues_run_bind (ensureCreatorFromUserId_issues ..) fun _ => ?_
  exact issues_query.mpr (Op.plain_of_test rfl)

theorem reinviteDraft_issues (env : Env) (auth : AuthUser) (draftId : Uuid)
    (req : ReinviteRequest) : (reinviteDraft env auth draftId req).run.Issues
      fun op => op.TxFree ∧ op.creates = false := by
  unfold reinviteDraft
  refine issues_run_bind (issues_query.mpr ⟨⟨rfl, rfl, rfl, rfl⟩, rfl⟩) fun _ => ?_
  refine issues_run_bind issues_okOr fun creator => ?_
  refine issues_run_bind ((ensureCreatorFromUserId_issues ..).mono fun _ h =>
    ⟨h.txFree, Op.creates_of_stores h.steady.stores⟩) fun _ => ?_
  refine issues_run_bind (issues_query.mpr ⟨⟨rfl, rfl, rfl, rfl⟩, rfl⟩) fun _ => ?_
  refine issues_run_bind issues_okOr fun ⟨index, enc, nonce⟩ => ?_
  refine issues_run_bind (issues_ask.mpr ⟨⟨rfl, rfl, rfl, rfl⟩, rfl⟩) fun token => ?_
  refine issues_run_bind (issues_ask.mpr ⟨⟨rfl, rfl, rfl, rfl⟩, rfl⟩) fun now => ?_
  refine issues_run_bind issues_okOr fun expiry => ?_
  refine issues_run_bind (issues_ask.mpr ⟨⟨rfl, rfl, rfl, rfl⟩, rfl⟩) fun createdAt => ?_
  exact issues_run_bind (issues_query.mpr ⟨⟨rfl, rfl, rfl, rfl⟩, rfl⟩) fun _ => trivial

/-- The operations of the gates of `submit_draft`. -/
inductive Op.Admits : Op → Prop
  | rowOf (draftId : Uuid) : Op.Admits (.sql (.draft (.rowOf draftId)))
  | hasEmail (userId : Uuid) : Op.Admits (.sql (.account (.hasEmail userId)))

theorem Op.Admits.plain {op : Op} (h : op.Admits) : op.Plain := by
  cases h <;> exact Op.plain_of_test rfl

theorem admitSubmission_issues (auth : AuthUserWithWallet) (draftId : Uuid)
    (req : SubmitDraftRequest) : (admitSubmission auth draftId req).run.Issues Op.Admits := by
  unfold admitSubmission getDraftRow
  refine issues_run_bind issues_ofExcept fun _ => ?_
  refine issues_run_bind issues_ofExcept fun storageBackend => ?_
  refine issues_run_bind (issues_run_bind ?_ fun _ => issues_okOr) fun draft => ?_
  · exact issues_query.mpr (.rowOf _)
  refine issues_run_bind issues_ofExcept fun _ => ?_
  refine issues_run_bind (issues_query.mpr (.hasEmail _)) fun hasEmail => ?_
  exact issues_run_bind issues_ofExcept fun _ => trivial

theorem submitDraft_issues (env : Env) (auth : AuthUserWithWallet) (draftId : Uuid)
    (req : SubmitDraftRequest) : (submitDraft env auth draftId req).run.Issues Op.Steady := by
  unfold submitDraft persistAgreement
  refine issues_run_bind ((admitSubmission_issues ..).mono fun _ h => h.plain.steady)
    fun ⟨storageBackend, draft⟩ => ?_
  refine issues_run_bind (issues_query.mpr ⟨rfl, rfl, rfl, rfl⟩) fun _ => ?_
  refine issues_run_bind issues_okOr fun payload => ?_
  refine issues_run_bind issues_okOr fun creatorPubkey => ?_
  refine issues_run_bind (issues_ask.mpr ⟨rfl, rfl, rfl, rfl⟩) fun agreementId => ?_
  refine issues_run_bind issues_okOr fun contentHash => ?_
  refine issues_run_bind ((buildCreateAgreementTx_issues ..).mono fun _ h => h.plain.steady)
    fun transaction => ?_
  refine issues_run_bind (issues_run_bind ?_ fun _ => ?_) fun _ => trivial
  · exact issues_query.mpr ⟨rfl, rfl, rfl, rfl⟩
  · exact issues_query.mpr ⟨rfl, rfl, rfl, rfl⟩

theorem requestPayment_issues (env : Env) (auth : AuthUserWithWallet) (draftId : Uuid)
    (req : InitiatePaymentRequest) : (requestPayment env auth draftId req).run.Issues Op.Plain := by
  unfold requestPayment
  refine issues_run_bind issues_okOr fun tokenInfo => ?_
  refine issues_run_bind (issues_ask.mpr (Op.plain_of_test rfl)) fun reference => ?_
  refine issues_run_bind (issues_ask.mpr (Op.plain_of_test rfl)) fun id => ?_
  refine issues_run_bind (issues_ask.mpr (Op.plain_of_test rfl)) fun now => ?_
  exact issues_run_bind (issues_query.mpr (Op.plain_of_test rfl)) fun _ => trivial

theorem initiatePayment_issues (env : Env) (auth : AuthUserWithWallet) (draftId : Uuid)
    (req : InitiatePaymentRequest) :
    (initiatePayment env auth draftId req).run.Issues Op.Plain := by
  unfold initiatePayment
  refine issues_run_bind (issues_query.mpr (Op.plain_of_test rfl)) fun _ => ?_
  refine issues_run_bind issues_okOr fun creator => ?_
  refine issues_run_bind issues_ensure fun _ => ?_
  refine issues_run_bind (issues_query.mpr (Op.plain_of_test rfl)) fun freeUsed => ?_
  split
  · refine issues_run_bind (issues_query.mpr (Op.plain_of_test rfl)) fun _ => ?_
    exact issues_run_bind (issues_query.mpr (Op.plain_of_test rfl)) fun _ => trivial
  · exact requestPayment_issues ..

theorem confirmPaymentAtomic_issues (reference txSignature tokenMint : String)
    (tokenAmount : Int64) :
    (confirmPaymentAtomic reference txSignature tokenMint tokenAmount).run.Issues Op.Plain := by
  unfold confirmPaymentAtomic
  refine issues_run_bind (issues_ask.mpr (Op.plain_of_test rfl)) fun now => ?_
  exact issues_run_bind (issues_query.mpr (Op.plain_of_test rfl)) fun _ => trivial

theorem acceptInTx_issues (auth : AuthUserWithWallet) (token : String) (now : ℤ) (tx : ℕ) :
    (acceptInTx auth token now tx).run.Issues fun op => ∃ s, op = .tx tx s := by
  unfold acceptInTx txQuery
  refine issues_run_bind (issues_orFail_issue.mpr ⟨_, rfl⟩) fun _ => ?_
  refine issues_run_bind issues_okOr fun invite => ?_
  refine issues_run_bind issues_ofExcept fun _ => ?_
  refine issues_run_bind (issues_orFail_issue.mpr ⟨_, rfl⟩) fun _ => ?_
  refine issues_run_bind issues_okOr fun draft => ?_
  refine issues_run_bind issues_okOr fun _ => ?_
  refine issues_run_bind issues_okOr fun partySlots => ?_
  refine issues_run_bind (issues_orFail_issue.mpr ⟨_, rfl⟩) fun _ => ?_
  exact issues_run_bind (issues_orFail_issue.mpr ⟨_, rfl⟩) fun _ => trivial

theorem Op.storeFree_of_tx {tx : ℕ} {op : Op} (h : ∃ s, op = .tx tx s) : op.StoreFree := by
  obtain ⟨s, rfl⟩ := h
  exact ⟨rfl, rfl, rfl, rfl⟩

theorem notifyReady_issues (draftId : Uuid) (creatorPubkey : String) :
    (notifyReady draftId creatorPubkey).run.Issues Op.Plain := by
  unfold notifyReady
  refine issues_run_bind (issues_query.mpr (Op.plain_of_test rfl)) fun userId => ?_
  cases userId with
  | none => trivial
  | some userId =>
      refine issues_run_bind (issues_ask.mpr (Op.plain_of_test rfl)) fun delivered => ?_
      cases delivered with
      | true => trivial
      | false => exact enqueueNotification_issues ..

theorem issues_rollbackOnError {α : Type} {allowed : Op → Prop} {tx : ℕ} {body : Handler α}
    (hbody : body.run.Issues allowed) (h : allowed (.rollback tx)) :
    (rollbackOnError tx body).run.Issues allowed := by
  refine Program.issues_bind hbody fun r => ?_
  cases r with
  | ok a => trivial
  | error e => exact Program.issues_bind (issues_issue.mpr h) fun _ => trivial

theorem acceptInvite_issues (auth : AuthUserWithWallet) (token : String) :
    (acceptInvite auth token).run.Issues Op.StoreFree := by
  unfold acceptInvite
  refine issues_run_bind (issues_ask.mpr ⟨rfl, rfl, rfl, rfl⟩) fun now => ?_
  refine issues_run_bind (issues_orFail (issues_issue.mpr ⟨rfl, rfl, rfl, rfl⟩)) fun tx => ?_
  refine issues_run_bind (issues_rollbackOnError ((acceptInTx_issues ..).mono fun _ h =>
    Op.storeFree_of_tx h) ⟨rfl, rfl, rfl, rfl⟩) fun acceptance => ?_
  refine issues_run_bind (issues_orFail (issues_issue.mpr ⟨rfl, rfl, rfl, rfl⟩)) fun _ => ?_
  split
  · exact (notifyReady_issues ..).mono fun _ h => h.storeFree
  · trivial

/-! ### Event listener -/

theorem broadcast_issues (event : WsEvent) (parties : List String) :
    (broadcast event parties).Issues Op.Plain := by
  induction parties with
  | nil => trivial
  | cons party parties ih =>
      refine Program.issues_bind ?_ fun userId => ?_
      · refine Program.issues_bind (issues_sql.mpr (Op.plain_of_test rfl)) fun r => ?_
        cases r <;> trivial
      · cases userId with
        | none => exact ih
        | some userId =>
            exact Program.issues_bind (issues_issue.mpr (Op.plain_of_test rfl)) fun _ => ih

theorem enqueueAll_issues (eventType agreementPda : String) (parties : List String) :
    (enqueueAll eventType agreementPda parties).Issues Op.Plain := by
  induction parties with
  | nil => trivial
  | cons party parties ih =>
      exact Program.issues_bind (issues_logged (enqueueNotification_issues ..)) fun _ => ih

theorem insertParties_issues (agreementPda creator : String) (parties : List String) :
    (insertParties agreementPda creator parties).run.Issues Op.Plain := by
  induction parties with
  | nil => trivial
  | cons party parties ih =>
      refine issues_run_bind (issues_ask.mpr (Op.plain_of_test rfl)) fun now => ?_
      exact issues_run_bind (issues_query.mpr (Op.plain_of_test rfl)) fun _ => ih

theorem handleCreateAgreement_issues (event : ParsedEvent) :
    (handleCreateAgreement event).run.Issues Op.Plain := by
  refine issues_run_bind (insertParties_issues ..) fun _ => ?_
  refine issues_run_bind (issues_run_lift (enqueueAll_issues ..)) fun _ => ?_
  exact issues_run_lift (broadcast_issues ..)

theorem handleSignAgreement_issues (event : ParsedEvent) :
    (handleSignAgreement event).run.Issues Op.Plain := by
  refine issues_run_bind (issues_ask.mpr (Op.plain_of_test rfl)) fun now => ?_
  refine issues_run_bind (issues_query.mpr (Op.plain_of_test rfl)) fun signed => ?_
  cases signed with
  | none => trivial
  | some party =>
      refine issues_run_bind (issues_query.mpr (Op.plain_of_test rfl)) fun unsignedCount => ?_
      refine issues_run_bind (issues_run_lift (issues_logged (enqueueNotification_issues ..)))
        fun _ => ?_
      refine issues_run_bind (issues_query.mpr (Op.plain_of_test rfl)) fun parties => ?_
      exact issues_run_lift (broadcast_issues ..)

theorem handleVoteRevoke_issues (event : ParsedEvent) :
    (handleVoteRevoke event).run.Issues Op.Plain := by
  refine issues_run_bind (issues_run_lift (issues_logged (enqueueNotification_issues ..)))
    fun _ => ?_
  refine issues_run_bind (issues_query.mpr (Op.plain_of_test rfl)) fun parties => ?_
  exact issues_run_lift (broadcast_issues ..)

theorem handleCancellation_issues (event : ParsedEvent) (status : PartyStatus) :
    (handleCancellation event status).run.Issues Op.Passive := by
  refine issues_run_bind (issues_query.mpr ⟨⟨rfl, rfl⟩, rfl⟩) fun _ => ?_
  refine issues_run_bind (issues_query.mpr ⟨⟨rfl, rfl⟩, rfl⟩) fun parties => ?_
  refine issues_run_bind (issues_run_lift ((enqueueAll_issues ..).mono fun _ h => h.passive))
    fun _ => ?_
  refine issues_run_bind (issues_run_lift ((broadcast_issues ..).mono fun _ h => h.passive))
    fun _ => issues_run_lift (issues_logged ?_)
  refine issues_run_bind (issues_query.mpr ⟨⟨rfl, rfl⟩, rfl⟩) fun paymentId => ?_
  cases paymentId with
  | none => trivial
  | some id =>
      refine issues_run_bind (issues_ask.mpr ⟨⟨rfl, rfl⟩, rfl⟩) fun now => ?_
      exact issues_query.mpr ⟨⟨rfl, rfl⟩, rfl⟩

theorem processNotification_issues (env : Env) (response : RpcLogsResponse) :
    (processNotification env response).Issues Op.Passive := by
  unfold processNotification
  split
  · rename_i event _
    refine issues_logged ?_
    unfold handleEvent
    split
    · exact (handleCreateAgreement_issues event).mono fun _ h => h.passive
    · exact (handleSignAgreement_issues event).mono fun _ h => h.passive
    · exact handleCancellation_issues event .cancelled
    · exact handleCancellation_issues event .expired
    · exact (handleVoteRevoke_issues event).mono fun _ h => h.passive
  · trivial

/-! ### Workers -/

theorem sendInvitationReminders_issues (env : Env) :
    (sendInvitationReminders env).Issues Op.Plain := by
  have hloop : ∀ rows, (remindInvitations rows).Issues Op.Plain := by
    intro rows
    induction rows with
    | nil => trivial
    | cons invId rest ih =>
        refine Program.issues_bind (issues_issue.mpr (Op.plain_of_test rfl)) fun sent => ?_
        cases sent with
        | error _ => exact ih
        | ok _ =>
            refine Program.issues_bind (issues_issue.mpr (Op.plain_of_test rfl)) fun now => ?_
            exact Program.issues_bind (issues_sql.mpr (Op.plain_of_test rfl)) fun _ => ih
  refine Program.issues_bind (issues_issue.mpr (Op.plain_of_test rfl)) fun now => ?_
  refine Program.issues_bind (issues_sql.mpr (Op.plain_of_test rfl)) fun rows => ?_
  cases rows with
  | ok rows => exact hloop rows
  | error _ => trivial

theorem expireStaleInvitations_issues : expireStaleInvitations.Issues Op.Plain := by
  refine Program.issues_bind (issues_issue.mpr (Op.plain_of_test rfl)) fun now => ?_
  exact Program.issues_bind (issues_sql.mpr (Op.plain_of_test rfl)) fun _ => trivial

theorem expireTimedOutPayments_issues : expireTimedOutPayments.Issues Op.Plain := by
  refine Program.issues_bind (issues_issue.mpr (Op.plain_of_test rfl)) fun now => ?_
  exact Program.issues_bind (issues_sql.mpr (Op.plain_of_test rfl)) fun _ => trivial

theorem reconcileLatePayments_issues (env : Env) :
    (reconcileLatePayments env).Issues Op.Passive := by
  have hloop : ∀ payments, (reconcilePayments env payments).Issues Op.Passive := by
    intro payments
    induction payments with
    | nil => trivial
    | cons entry rest ih =>
        refine Program.issues_bind ?_ fun _ => ih
        unfold reconcilePayment
        cases env.crates.pubkeyFromStr entry.2 with
        | none => trivial
        | some refPubkey =>
            refine Program.issues_bind (issues_issue.mpr ⟨⟨rfl, rfl⟩, rfl⟩) fun found => ?_
            rcases found with _ | _ | _
            · trivial
            · trivial
            · refine Program.issues_bind (issues_issue.mpr ⟨⟨rfl, rfl⟩, rfl⟩) fun now => ?_
              exact Program.issues_bind (issues_sql.mpr ⟨⟨rfl, rfl⟩, rfl⟩) fun _ => trivial
  refine Program.issues_bind (issues_issue.mpr ⟨⟨rfl, rfl⟩, rfl⟩) fun now => ?_
  refine Program.issues_bind (issues_sql.mpr ⟨⟨rfl, rfl⟩, rfl⟩) fun payments => ?_
  cases payments with
  | ok payments => exact hloop payments
  | error _ => trivial

theorem recordRefund_issues (id : Uuid) (result : Except AppError String) :
    (recordRefund id result).Issues Op.Plain := by
  cases result with
  | error e => trivial
  | ok sig =>
      refine Program.issues_bind (issues_issue.mpr (Op.plain_of_test rfl)) fun now => ?_
      exact Program.issues_bind (issues_sql.mpr (Op.plain_of_test rfl)) fun _ => trivial

theorem processPendingRefunds_issues (env : Env) :
    (processPendingRefunds env).Issues Op.Passive := by
  have hloop : ∀ rows, (refundRows env rows).Issues Op.Passive := by
    intro rows
    induction rows with
    | nil => trivial
    | cons row rest ih =>
        refine Program.issues_bind ?_ fun _ => ih
        unfold refundRow
        split
        · trivial
        refine Program.issues_bind (issues_issue.mpr ⟨⟨rfl, rfl⟩, rfl⟩) fun _ => ?_
        refine Program.issues_bind ((executeRefund_issues ..).mono fun _ h => h.plain.passive)
          fun result => ?_
        refine Program.issues_bind (issues_issue.mpr ⟨⟨rfl, rfl⟩, rfl⟩) fun _ => ?_
        exact (recordRefund_issues ..).mono fun _ h => h.passive
  refine Program.issues_bind (issues_sql.mpr ⟨⟨rfl, rfl⟩, rfl⟩) fun rows => ?_
  cases rows with
  | error _ => trivial
  | ok rows => exact Program.issues_bind (hloop rows) fun _ => trivial

/-! ### All programs -/

/-- Four programs store drafts, invitations or addresses or use a transaction; the others do none
of this. -/
theorem entry_passive {env : Env} {p : Backend Unit} (hp : Entry env p) :
    (∃ auth req, p = Handler.logged (createAgreement env auth req)) ∨
    (∃ auth draftId req, p = Handler.logged (reinviteDraft env auth draftId req)) ∨
    (∃ auth token, p = Handler.logged (acceptInvite auth token)) ∨
    (∃ auth draftId req, p = Handler.logged (submitDraft env auth draftId req)) ∨
    p.Issues Op.Passive := by
  have hplain : ∀ {q : Backend Unit}, q.Issues Op.Plain → q.Issues Op.Passive :=
    fun h => h.mono fun _ hop => hop.passive
  cases hp with
  | createAgreement auth req => exact Or.inl ⟨auth, req, rfl⟩
  | reinviteDraft auth draftId req => exact Or.inr (Or.inl ⟨auth, draftId, req, rfl⟩)
  | acceptInvite auth token => exact Or.inr (Or.inr (Or.inl ⟨auth, token, rfl⟩))
  | submitDraft auth draftId req =>
      exact Or.inr (Or.inr (Or.inr (Or.inl ⟨auth, draftId, req, rfl⟩)))
  | deleteDraft =>
      exact Or.inr (Or.inr (Or.inr (Or.inr (hplain (issues_logged (deleteDraft_issues ..))))))
  | initiatePayment =>
      exact Or.inr (Or.inr (Or.inr (Or.inr (hplain (issues_logged (initiatePayment_issues ..))))))
  | confirmPaymentAtomic =>
      exact Or.inr (Or.inr
        (Or.inr (Or.inr (hplain (issues_logged (confirmPaymentAtomic_issues ..))))))
  | sendInvitationReminders =>
      exact Or.inr (Or.inr (Or.inr (Or.inr (hplain (sendInvitationReminders_issues _)))))
  | expireStaleInvitations =>
      exact Or.inr (Or.inr (Or.inr (Or.inr (hplain expireStaleInvitations_issues))))
  | expireTimedOutPayments =>
      exact Or.inr (Or.inr (Or.inr (Or.inr (hplain expireTimedOutPayments_issues))))
  | reconcileLatePayments =>
      exact Or.inr (Or.inr (Or.inr (Or.inr (reconcileLatePayments_issues _))))
  | processNotification => exact Or.inr (Or.inr (Or.inr (Or.inr (processNotification_issues ..))))
  | processPendingRefunds =>
      exact Or.inr (Or.inr (Or.inr (Or.inr
        (Program.issues_bind (processPendingRefunds_issues _) fun _ => trivial))))

/-- Three programs store drafts or invitations or use a transaction; the others do neither. -/
theorem entry_draftFree {env : Env} {p : Backend Unit} (hp : Entry env p) :
    (∃ auth req, p = Handler.logged (createAgreement env auth req)) ∨
    (∃ auth draftId req, p = Handler.logged (reinviteDraft env auth draftId req)) ∨
    (∃ auth token, p = Handler.logged (acceptInvite auth token)) ∨ p.Issues Op.DraftFree := by
  rcases entry_passive hp with hcreate | hreinvite | haccept | ⟨auth, draftId, req, rfl⟩ | hpassive
  · exact Or.inl hcreate
  · exact Or.inr (Or.inl hreinvite)
  · exact Or.inr (Or.inr (Or.inl haccept))
  · exact Or.inr (Or.inr (Or.inr
      (issues_logged ((submitDraft_issues ..).mono fun _ h => h.draftFree))))
  · exact Or.inr (Or.inr (Or.inr (hpassive.mono fun _ h => h.draftFree)))

/-- Only `submit_draft` stores the address of an agreement. -/
theorem entry_persists {env : Env} {p : Backend Unit} (hp : Entry env p) :
    (∃ auth draftId req, p = Handler.logged (submitDraft env auth draftId req)) ∨
      p.Issues fun op => op.persists = false := by
  rcases entry_passive hp with ⟨auth, req, rfl⟩ | ⟨auth, draftId, req, rfl⟩ | ⟨auth, token, rfl⟩ |
    hsubmit | hpassive
  · exact Or.inr (issues_logged ((createAgreement_issues ..).mono fun _ h => h.1.persists))
  · exact Or.inr (issues_logged ((reinviteDraft_issues ..).mono fun _ h => h.1.persists))
  · exact Or.inr (issues_logged ((acceptInvite_issues ..).mono fun _ h => h.persists))
  · exact Or.inl hsubmit
  · exact Or.inr (hpassive.mono fun _ h => h.persists)

/-- Apart from `create_agreement` and `accept_invite`, no program creates drafts or uses a
transaction. -/
theorem entry_single {env : Env} {p : Backend Unit} (hp : Entry env p) :
    (∃ auth req, p = Handler.logged (createAgreement env auth req)) ∨
    (∃ auth token, p = Handler.logged (acceptInvite auth token)) ∨
      p.Issues fun op => op.inTransaction = false ∧ op.creates = false := by
  rcases entry_draftFree hp with hcreate | ⟨auth, draftId, req, rfl⟩ | haccept | hfree
  · exact Or.inl hcreate
  · exact Or.inr (Or.inr (issues_logged
      ((reinviteDraft_issues ..).mono fun _ h => ⟨h.1.inTransaction, h.2⟩)))
  · exact Or.inr (Or.inl haccept)
  · exact Or.inr (Or.inr (hfree.mono fun _ h =>
      ⟨h.inTransaction, Op.creates_of_stores h.stores⟩))

end PactumCodex
