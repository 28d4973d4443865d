import PactumCodex.Accounts.Instructions

/-!
# Signers of the transactions handed out

Which accounts of a transaction have to sign, and which of them have signed
when a handler returns it.  The builders of `create_agreement`,
`cancel_agreement`, `vote_revoke` and `retract_revoke_vote` sign with the vault
key; `build_sign_agreement_tx` signs with no key although it marks the vault
funder of the agreement as a signer.

## Strategy

A response is a text, so `Encodes` ties it to the transaction that the handler has
serialized in its last step.  The caller can complete a transaction
(`Transaction.CompletedBy`) if no signature but the caller's is missing.

* For the requests that the vault signs this is read off the operations of the
  handlers: whatever they serialize is `Completable`, because the accounts marked as
  signers are the vault and the caller (`respond_completable`).
* For `sign_agreement` the vault funder is read from the account on the chain, so
  the execution matters: `signAgreement_runs` says what a request that succeeds has
  loaded and serialized, and `unsigned_completedBy_iff` compares the signers.
-/

namespace PactumCodex

open Interaction

/-! ## Transactions -/

/-- A transaction of one instruction, with the keys whose signatures it carries. -/
structure Transaction where
  payer : Pubkey
  instruction : Instruction
  blockhash : String
  signatures : List Pubkey

/-- The signers that `Message::new` collects: the payer and the accounts marked as signers, each
once. -/
def Transaction.requiredSigners (tx : Transaction) : List Pubkey :=
  (tx.payer :: (tx.instruction.accounts.filter (·.isSigner)).map AccountMeta.pubkey).eraseDups

/-- Every signature but the caller's is there. -/
def Transaction.CompletedBy (caller : Option Pubkey) (tx : Transaction) : Prop :=
  ∀ key ∈ tx.requiredSigners, some key ≠ caller → key ∈ tx.signatures

/-- The transaction that an operation serializes. -/
def Op.transaction? (env : Env) (vaultKey : Pubkey) : Op → Option Transaction
  | .vaultSign args creator blockhash => (Borsh.serialize args).map fun argsData =>
      ⟨vaultKey, createAgreementInstruction env args.agreementId creator vaultKey argsData,
        blockhash,
        [vaultKey]⟩
  | .partialSign instruction payer blockhash => some ⟨payer, instruction, blockhash, [vaultKey]⟩
  | .serialize instruction payer blockhash => some ⟨payer, instruction, blockhash, []⟩
  | _ => none

/-- The text that an operation returns for the transaction. -/
def Op.transactionText? : (op : Op) → op.Ans → Option String
  | .vaultSign .., .ok text => some text
  | .partialSign .., .ok text => some text
  | .serialize .., .ok text => some text
  | _, _ => none

/-- The text stands for the transaction. -/
def Encodes (env : Env) (vaultKey : Pubkey) (steps : List BackendStep) (text : String)
    (tx : Transaction) : Prop :=
  ∃ step ∈ steps, step.op.transaction? env vaultKey = some tx ∧
    step.op.transactionText? step.ans = some text

theorem mem_requiredSigners {tx : Transaction} {key : Pubkey} :
    key ∈ tx.requiredSigners ↔
      key = tx.payer ∨
        ∃ account ∈ tx.instruction.accounts, account.isSigner ∧ account.pubkey = key := by
  simp [Transaction.requiredSigners, and_assoc]

/-! ## Requests -/

/-- The requests that are answered with a transaction. -/
inductive TransactionRequest : Type
  | createAgreement (req : CreateAgreementRequest)
  | submitDraft (draftId : Uuid) (req : SubmitDraftRequest)
  | signAgreement (pda : String) (req : SignAgreementRequest)
  | cancelAgreement (pda : String)
  | voteRevoke (pda : String)
  | retractRevokeVote (pda : String)

/-- The transaction of a response. -/
def CreateAgreementResponse.transaction? : CreateAgreementResponse → Option String
  | .submitted transaction _ => some transaction
  | .awaitingPartyWallets .. => none

/-- The transaction that a request is answered with; `create_agreement` may store a draft
instead. -/
def TransactionRequest.respond (env : Env) (vaultKey : Pubkey) (auth : AuthUserWithWallet) :
    TransactionRequest → Handler (Option String)
  | .createAgreement req => do
      return (← PactumCodex.createAgreement env auth req).transaction?
  | .submitDraft draftId req => do
      return some (← PactumCodex.submitDraft env auth draftId req).transaction
  | .signAgreement pda req => do
      return some (← PactumCodex.signAgreement env auth pda req).transaction
  | .cancelAgreement pda => do
      return some (← PactumCodex.cancelAgreement env vaultKey auth pda).transaction
  | .voteRevoke pda => do
      return some (← PactumCodex.voteRevoke env vaultKey auth pda).transaction
  | .retractRevokeVote pda => do
      return some (← PactumCodex.retractRevokeVote env vaultKey auth pda).transaction

/-- The handler has loaded the account. -/
def Loads (steps : List BackendStep) (a : AgreementStateWire) : Prop :=
  ∃ step ∈ steps, ∃ key data, step = ⟨step.pre, .accountData key, .ok data, step.post⟩ ∧
    decodeAccount data = some a

/-- The request signs an agreement. -/
def TransactionRequest.signs : TransactionRequest → Bool
  | .signAgreement .. => true
  | _ => false

/-! ## Transactions signed by the vault -/

/-- What the operation serializes, the caller can complete. -/
def Op.Completable (env : Env) (vaultKey : Pubkey) (caller : Option Pubkey) (op : Op) : Prop :=
  ∀ tx, op.transaction? env vaultKey = some tx → tx.CompletedBy caller

section Vault

variable {env : Env} {vaultKey key : Pubkey} {auth : AuthUserWithWallet} {caller : Option Pubkey}

/-- A transaction signed by the vault lacks the caller's signature only, if no other account is
marked as a signer. -/
theorem completedBy_of_signers {tx : Transaction} (hpayer : tx.payer = vaultKey)
    (hsignatures : tx.signatures = [vaultKey])
    (hsigners : ∀ account ∈ tx.instruction.accounts, account.isSigner →
      account.pubkey = vaultKey ∨ some account.pubkey = caller) : tx.CompletedBy caller := by
  intro signer hrequired hother
  rw [hsignatures, List.mem_singleton]
  rcases mem_requiredSigners.mp hrequired with rfl | ⟨account, hmem, hsigner, rfl⟩
  · exact hpayer
  · exact (hsigners account hmem hsigner).resolve_right hother

theorem partiallySigned_completable {instruction : Instruction}
    (hsigners : ∀ account ∈ instruction.accounts, account.isSigner →
      account.pubkey = vaultKey ∨ some account.pubkey = caller) :
    (partiallySigned vaultKey instruction).run.Issues (Op.Completable env vaultKey caller) := by
  refine issues_run_bind (issues_orFail (issues_issue.mpr nofun)) fun blockhash => ?_
  refine issues_orFail (issues_issue.mpr fun tx htx => ?_)
  obtain rfl := Option.some.inj htx
  exact completedBy_of_signers rfl rfl hsigners

theorem buildCreateAgreementTx_completable {args : CreateAgreementArgs} :
    (buildCreateAgreementTx args key).run.Issues (Op.Completable env vaultKey (some key)) := by
  refine (buildCreateAgreementTx_issues ..).mono fun op h => ?_
  cases h with
  | rentExemption size => exact nofun
  | latestBlockhash => exact nofun
  | vaultSign blockhash =>
      intro tx htx
      obtain ⟨argsData, -, rfl⟩ := Option.map_eq_some_iff.mp htx
      refine completedBy_of_signers rfl rfl ?_
      simp [createAgreementInstruction, AccountMeta.new, AccountMeta.newReadonly]

theorem loadAgreement_completable {e : AppError} :
    (loadAgreement e key).run.Issues (Op.Completable env vaultKey caller) :=
  issues_run_bind (issues_orFail (issues_issue.mpr nofun)) fun _ => issues_okOr

theorem resolveParties_completable {encryptionKey indexKey : Bytes 32} {invitedAt expiresAt : ℤ}
    (parties : List PartyInput) (scan : PartyScan) :
    (resolveParties env encryptionKey indexKey invitedAt expiresAt parties scan).run.Issues
      (Op.Completable env vaultKey caller) :=
  (resolveParties_issues ..).mono fun _ h => by cases h <;> exact nofun

theorem insertInvitations_completable {draftId : Uuid} (rows : List InvitationInsertRow) :
    (insertInvitations draftId rows).run.Issues (Op.Completable env vaultKey caller) :=
  (insertInvitations_issues ..).mono fun _ h => by cases h <;> exact nofun

theorem createAgreement_completable (req : CreateAgreementRequest) :
    (createAgreement env auth req).run.Issues
      (Op.Completable env vaultKey (env.crates.pubkeyFromStr auth.pubkey)) := by
  refine issues_run_bind issues_ofExcept fun _ => issues_run_bind issues_ofExcept fun _ => ?_
  refine issues_run_bind issues_ofExcept fun _ =>
    issues_run_bind (issues_query.mpr nofun) fun _ => ?_
  refine issues_run_bind (issues_ask.mpr nofun) fun _ => issues_run_bind issues_okOr fun _ => ?_
  refine issues_run_bind (resolveParties_completable ..) fun scan => ?_
  split
  · refine issues_okOr_bind fun creator hcreator => ?_
    rw [hcreator]
    refine issues_run_bind (issues_ask.mpr nofun) fun _ => ?_
    exact issues_run_bind buildCreateAgreementTx_completable fun _ => trivial
  · refine issues_run_bind (issues_query.mpr nofun) fun _ => ?_
    exact issues_run_bind (insertInvitations_completable _) fun _ => trivial

theorem admitSubmission_completable {draftId : Uuid} (req : SubmitDraftRequest) :
    (admitSubmission auth draftId req).run.Issues (Op.Completable env vaultKey caller) := by
  refine issues_run_bind issues_ofExcept fun _ => issues_run_bind issues_ofExcept fun _ => ?_
  refine issues_run_bind (issues_run_bind (issues_query.mpr nofun) fun _ => issues_okOr) fun _ => ?_
  refine issues_run_bind issues_ofExcept fun _ =>
    issues_run_bind (issues_query.mpr nofun) fun _ => ?_
  exact issues_run_bind issues_ofExcept fun _ => trivial

theorem submitDraft_completable (draftId : Uuid) (req : SubmitDraftRequest) :
    (submitDraft env auth draftId req).run.Issues
      (Op.Completable env vaultKey (env.crates.pubkeyFromStr auth.pubkey)) := by
  refine issues_run_bind (admitSubmission_completable _) fun _ => ?_
  refine issues_run_bind (issues_query.mpr nofun) fun _ => issues_run_bind issues_okOr fun _ => ?_
  refine issues_okOr_bind fun creator hcreator => ?_
  rw [hcreator]
  refine issues_run_bind (issues_ask.mpr nofun) fun _ => issues_run_bind issues_okOr fun _ => ?_
  refine issues_run_bind buildCreateAgreementTx_completable fun _ => ?_
  refine issues_run_bind (issues_run_bind ?_ fun _ => ?_) fun _ => trivial
  · exact issues_query.mpr nofun
  · exact issues_query.mpr nofun

theorem cancelAgreement_completable (pda : String) :
    (cancelAgreement env vaultKey auth pda).run.Issues
      (Op.Completable env vaultKey (env.crates.pubkeyFromStr auth.pubkey)) := by
  refine issues_run_bind issues_okOr fun _ => issues_okOr_bind fun canceller hcanceller => ?_
  rw [hcanceller]
  refine issues_run_bind loadAgreement_completable fun _ =>
    issues_run_bind issues_ensure fun _ => ?_
  refine issues_run_bind (partiallySigned_completable ?_) fun _ => trivial
  simp [cancelAgreementInstruction, AccountMeta.new, AccountMeta.newReadonly]

theorem voteRevoke_completable (pda : String) :
    (voteRevoke env vaultKey auth pda).run.Issues
      (Op.Completable env vaultKey (env.crates.pubkeyFromStr auth.pubkey)) := by
  refine issues_run_bind issues_okOr fun _ => issues_okOr_bind fun voter hvoter => ?_
  rw [hvoter]
  refine issues_run_bind loadAgreement_completable fun _ =>
    issues_run_bind issues_ensure fun _ => ?_
  refine issues_run_bind issues_okOr fun _ => ?_
  refine issues_run_bind (partiallySigned_completable ?_) fun _ => trivial
  simp [voteRevokeInstruction, AccountMeta.new, AccountMeta.newReadonly]

theorem retractRevokeVote_completable (pda : String) :
    (retractRevokeVote env vaultKey auth pda).run.Issues
      (Op.Completable env vaultKey (env.crates.pubkeyFromStr auth.pubkey)) := by
  refine issues_run_bind issues_okOr fun _ => issues_okOr_bind fun voter hvoter => ?_
  rw [hvoter]
  refine issues_run_bind loadAgreement_completable fun _ =>
    issues_run_bind issues_ensure fun _ => ?_
  refine issues_run_bind (partiallySigned_completable ?_) fun _ => trivial
  simp [retractRevokeVoteInstruction, AccountMeta.new]

/-- All requests but `sign_agreement` build transactions that the caller can complete. -/
theorem respond_completable {request : TransactionRequest} (hsigns : request.signs = false) :
    (request.respond env vaultKey auth).run.Issues
      (Op.Completable env vaultKey (env.crates.pubkeyFromStr auth.pubkey)) := by
  cases request with
  | createAgreement req => exact issues_run_bind (createAgreement_completable req) fun _ => trivial
  | submitDraft draftId req => exact issues_run_bind (submitDraft_completable ..) fun _ => trivial
  | signAgreement pda req => cases hsigns
  | cancelAgreement pda => exact issues_run_bind (cancelAgreement_completable pda) fun _ => trivial
  | voteRevoke pda => exact issues_run_bind (voteRevoke_completable pda) fun _ => trivial
  | retractRevokeVote pda =>
      exact issues_run_bind (retractRevokeVote_completable pda) fun _ => trivial

end Vault

/-! ## Transactions of `sign_agreement` -/

section Signing

variable {env : Env} {vaultKey : Pubkey} {auth : AuthUserWithWallet} {w w' : World}
variable {steps : List BackendStep}

theorem loadAgreement_runs {e : AppError} {key : Pubkey} {a : AgreementStateWire}
    (hrun : Runs perform (loadAgreement e key).run w steps (.ok a) w') :
    ∃ data, decodeAccount data = some a ∧ w' = w ∧
      steps = [⟨w, .accountData key, .ok data, w⟩] := by
  obtain ⟨data, w₁, first, second, rfl, hread, hokOr⟩ := runs_bind_ok.mp hrun
  obtain ⟨hperform, rfl⟩ := runs_issue.mp (runs_orFail_ok.mp hread)
  obtain ⟨hdecode, rfl, rfl⟩ := runs_okOr_ok.mp hokOr
  obtain rfl : w = w' := Option.some.inj hperform
  exact ⟨data, hdecode, rfl, rfl⟩

theorem buildSignAgreementTx_runs {creator signer vaultFunder : Pubkey} {agreementId : Bytes 16}
    {metadataUri : Option String} {text : String}
    (hrun : Runs perform (buildSignAgreementTx env creator agreementId signer metadataUri
      vaultFunder).run w steps (.ok text) w') :
    ∃ argsData blockhash, w' = w ∧ steps = [⟨w, .latestBlockhash, .ok blockhash, w⟩,
      ⟨w, .serialize (signAgreementInstruction env creator agreementId signer vaultFunder argsData)
        signer blockhash, .ok text, w⟩] := by
  obtain ⟨argsData, w₁, first, second, rfl, hargs, hrest⟩ := runs_bind_ok.mp hrun
  obtain ⟨-, rfl, rfl⟩ := runs_okOr_ok.mp hargs
  obtain ⟨blockhash, w₂, third, fourth, rfl, hblockhash, hserialize⟩ := runs_bind_ok.mp hrest
  obtain ⟨hperform, rfl⟩ := runs_issue.mp (runs_orFail_ok.mp hblockhash)
  obtain rfl : w₁ = w₂ := Option.some.inj hperform
  obtain ⟨hperform, rfl⟩ := runs_issue.mp (runs_orFail_ok.mp hserialize)
  obtain rfl : w₁ = w' := Option.some.inj hperform
  exact ⟨argsData, blockhash, rfl, rfl⟩

/-- What a signature request that succeeds has read and serialized. -/
theorem signAgreement_runs {pda : String} {req : SignAgreementRequest}
    {response : SignAgreementResponse}
    (hrun : Runs perform (signAgreement env auth pda req).run w steps (.ok response) w') :
    ∃ signer key data a argsData blockhash emailEnc,
      env.crates.pubkeyFromStr auth.pubkey = some signer ∧ decodeAccount data = some a ∧
      steps = [⟨w, .accountData key, .ok data, w⟩, ⟨w, .latestBlockhash, .ok blockhash, w⟩,
        ⟨w, .serialize (signAgreementInstruction env a.creator a.agreementId signer a.vaultFunder
          argsData) signer blockhash, .ok response.transaction, w⟩,
        ⟨w, .sql (.account (.emailEncOf auth.userId)), .ok emailEnc, w'⟩] := by
  obtain ⟨key, w₁, _, rest₁, rfl, hkey, hrun₁⟩ := runs_bind_ok.mp hrun
  obtain ⟨-, rfl, rfl⟩ := runs_okOr_ok.mp hkey
  obtain ⟨signer, w₂, _, rest₂, rfl, hparse, hrun₂⟩ := runs_bind_ok.mp hrun₁
  obtain ⟨hsigner, rfl, rfl⟩ := runs_okOr_ok.mp hparse
  obtain ⟨a, w₃, _, rest₃, rfl, hload, hrun₃⟩ := runs_bind_ok.mp hrun₂
  obtain ⟨data, hdata, rfl, rfl⟩ := loadAgreement_runs hload
  obtain ⟨_, w₄, _, rest₄, rfl, hparty, hrun₄⟩ := runs_bind_ok.mp hrun₃
  obtain ⟨-, rfl, rfl⟩ := runs_ensure_ok.mp hparty
  obtain ⟨_, w₅, _, rest₅, rfl, hfinal, hrun₅⟩ := runs_bind_ok.mp hrun₄
  obtain ⟨-, rfl, rfl⟩ := runs_ensure_ok.mp hfinal
  obtain ⟨transaction, w₆, _, rest₆, rfl, hbuild, hrun₆⟩ := runs_bind_ok.mp hrun₅
  obtain ⟨argsData, blockhash, rfl, rfl⟩ := buildSignAgreementTx_runs hbuild
  obtain ⟨emailEnc, w₇, _, rest₇, rfl, hemail, hrun₇⟩ := runs_bind_ok.mp hrun₆
  obtain ⟨-, rfl⟩ := runs_query_ok.mp hemail
  obtain ⟨rfl, hresponse, rfl⟩ := runs_run_pure.mp hrun₇
  rw [Except.ok.injEq] at hresponse
  subst hresponse
  exact ⟨signer, key, data, a, argsData, blockhash, emailEnc, hsigner, hdata, rfl⟩

variable (vaultKey) in
/-- The account that such a request has loaded, and the transaction that it returns. -/
theorem signAgreement_returns {pda : String} {req : SignAgreementRequest}
    {response : SignAgreementResponse}
    (hrun : Runs perform (signAgreement env auth pda req).run w steps (.ok response) w') :
    ∃ signer a argsData blockhash, env.crates.pubkeyFromStr auth.pubkey = some signer ∧
      (∀ a', Loads steps a' ↔ a' = a) ∧
      ∀ tx, Encodes env vaultKey steps response.transaction tx ↔
        tx = ⟨signer, signAgreementInstruction env a.creator a.agreementId signer
          a.vaultFunder argsData,
          blockhash, []⟩ := by
  obtain ⟨signer, key, data, a, argsData, blockhash, emailEnc, hsigner, hdata, rfl⟩ :=
    signAgreement_runs hrun
  refine ⟨signer, a, argsData, blockhash, hsigner, fun a' => ?_, fun tx => ?_⟩
  -- of the four steps, only the first reads an account
  · constructor
    · rintro ⟨step, hmem, key', data', hstep, hdecode⟩
      simp only [List.mem_cons, List.not_mem_nil, or_false] at hmem
      rcases hmem with rfl | rfl | rfl | rfl
      · cases hstep
        exact Option.some.inj (hdecode.symm.trans hdata)
      all_goals cases hstep
    · rintro rfl
      exact ⟨_, List.mem_cons_self, key, data, rfl, hdata⟩
  · constructor
    · rintro ⟨step, hmem, htx, -⟩
      simp only [List.mem_cons, List.not_mem_nil, or_false] at hmem
      rcases hmem with rfl | rfl | rfl | rfl
      · cases htx
      · cases htx
      · exact (Option.some.inj htx).symm
      · cases htx
    · rintro rfl
      exact ⟨_, List.mem_cons_of_mem _ (List.mem_cons_of_mem _ List.mem_cons_self), rfl, rfl⟩

/-- Without any signature, the caller completes the transaction only as its own vault funder. -/
theorem unsigned_completedBy_iff {creator signer vaultFunder : Pubkey} {agreementId : Bytes 16}
    {argsData : List UInt8} {blockhash : String} :
    Transaction.CompletedBy (some signer) ⟨signer,
      signAgreementInstruction env creator agreementId signer vaultFunder argsData, blockhash, []⟩ ↔
    vaultFunder = signer := by
  constructor
  · intro hcompleted
    by_contra hother
    have hmissing := hcompleted vaultFunder
      (mem_requiredSigners.mpr (Or.inr ⟨_, List.mem_cons_self, rfl, rfl⟩)) (by simpa using hother)
    exact absurd hmissing List.not_mem_nil
  · rintro rfl required hrequired hother
    refine absurd ?_ hother
    rcases mem_requiredSigners.mp hrequired with rfl | ⟨account, haccount, hsigner, rfl⟩
    · rfl
    · simp only [signAgreementInstruction, AccountMeta.new, AccountMeta.newReadonly,
        List.mem_cons, List.not_mem_nil, or_false] at haccount
      -- the first two accounts are the signers
      rcases haccount with rfl | rfl | rfl | rfl | rfl | rfl | rfl
      · rfl
      · rfl
      all_goals cases hsigner

variable (vaultKey) in
/-- If somebody else funded the vault, the caller cannot complete the transaction. -/
theorem signAgreement_incomplete {pda : String} {req : SignAgreementRequest}
    {response : SignAgreementResponse} {signer : Pubkey} {a : AgreementStateWire}
    (hrun : Runs perform (signAgreement env auth pda req).run w steps (.ok response) w')
    (hsigner : env.crates.pubkeyFromStr auth.pubkey = some signer) (hloads : Loads steps a)
    (hother : a.vaultFunder ≠ signer) : ∃ tx, Encodes env vaultKey steps response.transaction tx ∧
      ¬ tx.CompletedBy (env.crates.pubkeyFromStr auth.pubkey) := by
  obtain ⟨signer', a', argsData, blockhash, hsigner', honly, hencodes⟩ :=
    signAgreement_returns vaultKey hrun
  obtain rfl := (honly a).mp hloads
  obtain rfl : signer = signer' := Option.some.inj (hsigner.symm.trans hsigner')
  refine ⟨_, (hencodes _).mpr rfl, ?_⟩
  rw [hsigner, unsigned_completedBy_iff]
  exact hother

variable (vaultKey) in
/-- Signing as a request for a transaction. -/
theorem respond_signAgreement_runs {pda : String} {req : SignAgreementRequest}
    {response : SignAgreementResponse}
    (hrun : Runs perform (signAgreement env auth pda req).run w steps (.ok response) w') :
    Runs perform ((TransactionRequest.signAgreement pda req).respond env vaultKey auth).run w steps
      (.ok (some response.transaction)) w' :=
  runs_bind_ok.mpr ⟨response, w', steps, [], (List.append_nil _).symm, hrun, rfl, rfl, rfl⟩

/-- **Signers.**  The caller can complete a transaction handed out by the backend if and only if the
request does not sign an agreement, or the caller funded the agreement's vault. -/
theorem returned_transaction_completable_iff {request : TransactionRequest} {text : String}
    (hrun : Runs perform (request.respond env vaultKey auth).run w steps (.ok (some text)) w') :
    (∀ tx, Encodes env vaultKey steps text tx →
      tx.CompletedBy (env.crates.pubkeyFromStr auth.pubkey)) ↔
    (request.signs = true → ∀ a, Loads steps a →
      some a.vaultFunder = env.crates.pubkeyFromStr auth.pubkey) := by
  cases hsigns : request.signs with
  | false =>
      refine ⟨fun _ => nofun, fun _ tx hencodes => ?_⟩
      obtain ⟨step, hmem, htx, -⟩ := hencodes
      exact hrun.stops.issued (respond_completable hsigns) step hmem tx htx
  | true =>
      cases request with
      | signAgreement pda req =>
          obtain ⟨response, w₁, first, rest, rfl, hsign, hreturn⟩ := runs_bind_ok.mp hrun
          obtain ⟨rfl, htext, rfl⟩ := runs_run_pure.mp hreturn
          obtain rfl : text = response.transaction := by simpa using htext
          obtain ⟨signer, a, argsData, blockhash, hsigner, hloads, hencodes⟩ :=
            signAgreement_returns vaultKey hsign
          simp only [List.append_nil, hsigner, hloads, hencodes, forall_eq,
            unsigned_completedBy_iff,
            Option.some.injEq, true_implies]
      | _ => cases hsigns

end Signing

/-! ## Example -/

/-- The account of `freshAgreement` is on the chain; everything else succeeds. -/
def readingFresh : (op : Op) → World → op.Ans
  | .accountData _, _ => .ok freshAccount
  | op, w => cooperate 0 op w

/-- The step reads the account of `freshAgreement`. -/
def readsFresh (step : BackendStep) : Bool :=
  match step with
  | ⟨_, .accountData _, .ok data, _⟩ => data = freshAccount
  | _ => false

theorem loads_of_readsFresh {steps : List BackendStep} (h : steps.any readsFresh = true) :
    Loads steps freshAgreement := by
  obtain ⟨step, hmem, hreads⟩ := List.any_eq_true.mp h
  unfold readsFresh at hreads
  split at hreads
  · obtain rfl := of_decide_eq_true hreads
    exact ⟨_, hmem, _, freshAccount, rfl, decodeAccount_freshAccount⟩
  · cases hreads

/-- The second party signs the agreement. -/
theorem partySigns_runs : ∃ steps w' response, Loads steps freshAgreement ∧
    Runs perform (signAgreement addressEnv partyAuth agreementPdaText ⟨none⟩).run
      (World.ofDb Db.empty) steps (.ok response) w' := by
  obtain ⟨steps, r, w', hrun, htest⟩ := runs_of_interpret (World.ofDb Db.empty) readingFresh
    (p := (signAgreement addressEnv partyAuth agreementPdaText ⟨none⟩).run)
    (fun steps r _ => steps.any readsFresh && r.toBool) (by decide +kernel)
  obtain ⟨hreads, hr⟩ := Bool.and_eq_true_iff.mp htest
  cases r with
  | ok response => exact ⟨steps, w', response, loads_of_readsFresh hreads, hrun⟩
  | error e => cases hr

theorem returned_transaction_completable_iff_party : ∃ steps text w',
    Runs perform ((TransactionRequest.signAgreement agreementPdaText ⟨none⟩).respond addressEnv
      freshAgreement.vaultFunder partyAuth).run (World.ofDb Db.empty) steps (.ok (some text)) w' ∧
    Loads steps freshAgreement ∧
    ((∀ tx, Encodes addressEnv freshAgreement.vaultFunder steps text tx →
        tx.CompletedBy (addressEnv.crates.pubkeyFromStr partyAuth.pubkey)) ↔
      ((TransactionRequest.signAgreement agreementPdaText ⟨none⟩).signs = true →
        ∀ a, Loads steps a →
          some a.vaultFunder = addressEnv.crates.pubkeyFromStr partyAuth.pubkey)) := by
  obtain ⟨steps, w', response, hloads, hrun⟩ := partySigns_runs
  -- the environment need not be evaluated any further
  generalize addressEnv = env at hrun ⊢
  have hresponds := respond_signAgreement_runs freshAgreement.vaultFunder hrun
  exact ⟨steps, response.transaction, w', hresponds, hloads,
    returned_transaction_completable_iff hresponds⟩

/-- A party receives a transaction that lacks the signature of the vault funder. -/
theorem signature_request_lacks_vault_signature :
    ¬ ∀ (env : Env) (vaultKey : Pubkey) (auth : AuthUserWithWallet) (request : TransactionRequest)
      (w w' : World) (steps : List BackendStep) (text : String),
      Runs perform (request.respond env vaultKey auth).run w steps (.ok (some text)) w' →
      ∀ tx, Encodes env vaultKey steps text tx →
        tx.CompletedBy (env.crates.pubkeyFromStr auth.pubkey) := by
  intro hclaim
  obtain ⟨steps, w', response, hloads, hrun⟩ := partySigns_runs
  have hsigner := partyKeyText_eq
  generalize addressEnv = env at hrun hsigner
  have hother : freshAgreement.vaultFunder ≠ partyKey := by decide
  obtain ⟨tx, hencodes, hincomplete⟩ :=
    signAgreement_incomplete freshAgreement.vaultFunder hrun hsigner hloads hother
  have hresponds := respond_signAgreement_runs freshAgreement.vaultFunder hrun
  exact hincomplete (hclaim _ _ _ _ _ _ _ _ hresponds tx hencodes)

end PactumCodex
