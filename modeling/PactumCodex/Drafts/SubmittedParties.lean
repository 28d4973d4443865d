import PactumCodex.Drafts.Lifecycle
import PactumCodex.Replay

/-!
# The parties of a submitted draft

The parties of a draft are stored twice: in `draft_payload`, which is never
written again, and in `party_slots`, where `accept_invite` fills in the wallets.
`submit_draft` takes the parties of the transaction from `draft_payload` and
drops the entries without a wallet.  A draft is ready only after an invitation
was accepted, so at least the wallet of that party is missing on chain.

The proof follows the draft from its storage to its submission: it was stored with
an open slot, since otherwise the agreement would have been submitted directly; the
payload still is what was stored (`DraftOf`), so the entry of that slot has no wallet;
and the keys that are signed are those of the payload (`submitDraft_signs`), of which
there are fewer than slots.
-/

namespace PactumCodex

open Interaction Relational Handlers

/-! ## What a submission signs -/

/-- The gates let paid and ready drafts pass only. -/
theorem paid_ready_of_gates {paid hasEmail : Bool} {status : DraftStatus} {draftId : Uuid}
    (h : evaluateSubmitGates paid status hasEmail draftId = .ok ()) :
    paid = true ∧ status = .readyToSubmit := by
  unfold evaluateSubmitGates at h
  split at h
  · cases h
  · rename_i hpaid
    split at h
    · cases h
    · rename_i hready
      exact ⟨by simpa using hpaid, not_not.mp hready⟩

/-- An admitted submission has read a draft that is ready. -/
theorem admitSubmission_ready {auth : AuthUserWithWallet} {draftId : Uuid}
    {req : SubmitDraftRequest} {w w' : World} {steps : List BackendStep}
    {storageBackend : StorageBackend} {row : DraftRow}
    (h : Runs perform (admitSubmission auth draftId req).run w steps
      (.ok (storageBackend, row)) w') :
    ∃ draft, w.db.draft? draftId = some draft ∧ draft.status = .readyToSubmit ∧
      draft.draftPayload = row.draftPayload := by
  unfold admitSubmission getDraftRow at h
  obtain ⟨_, w₁, _, _, -, hvalidate, h⟩ := runs_bind_ok.mp h
  obtain ⟨backend, w₂, _, _, -, hbackend, h⟩ := runs_bind_ok.mp h
  obtain ⟨read, w₃, _, _, -, hread, h⟩ := runs_bind_ok.mp h
  obtain ⟨-, w₄, _, _, -, -, h⟩ := runs_bind_ok.mp h
  obtain ⟨hasEmail, w₅, _, _, -, -, h⟩ := runs_bind_ok.mp h
  obtain ⟨_, w₆, _, _, -, hgates, h⟩ := runs_bind_ok.mp h
  rw [runs_run_pure] at h
  obtain ⟨-, hresult, -⟩ := h
  rw [Except.ok.injEq, Prod.mk.injEq] at hresult
  obtain ⟨-, rfl⟩ := hresult
  -- the validation and the gates leave the world alone
  rw [runs_ofExcept] at hvalidate hbackend hgates
  obtain ⟨-, -, rfl⟩ := hvalidate
  obtain ⟨-, -, rfl⟩ := hbackend
  obtain ⟨found, w₇, _, _, -, hquery, hfound⟩ := runs_bind_ok.mp hread
  rw [runs_query_ok] at hquery
  rw [runs_okOr_ok] at hfound
  obtain ⟨-, -, db, hexec, -⟩ := performSql_eq_some.mp hquery.1
  obtain ⟨drafts, hexec, -⟩ := Option.map_eq_some_iff.mp hexec
  have hrow := (provided_eq_some.mp hexec).1
  rw [hfound.1] at hrow
  obtain ⟨draft, hdraft, rfl⟩ := Option.map_eq_some_iff.mp hrow.symm
  exact ⟨draft, hdraft, (paid_ready_of_gates hgates.1.symm).2, rfl⟩

/-- A successful build has the vault sign the given arguments. -/
theorem buildCreateAgreementTx_signs {args : CreateAgreementArgs} {creator : Pubkey}
    {w w' : World} {steps : List BackendStep} {transaction : String}
    (h : Runs perform (buildCreateAgreementTx args creator).run w steps (.ok transaction) w') :
    ∃ step ∈ steps, ∃ blockhash, step.op = .vaultSign args creator blockhash := by
  obtain ⟨pre, blockhash, hstep⟩ := buildCreateAgreementTx_ok h
  exact ⟨_, hstep, blockhash, rfl⟩

/-- What a successful submission has the vault sign: the parties of the payload. -/
theorem submitDraft_signs {env : Env} {auth : AuthUserWithWallet} {draftId : Uuid}
    {req : SubmitDraftRequest} {w w' : World} {steps : List BackendStep}
    {response : SubmitDraftResponse}
    (h : Runs perform (submitDraft env auth draftId req).run w steps (.ok response) w') :
    ∃ draft payload, w.db.draft? draftId = some draft ∧ draft.status = .readyToSubmit ∧
      Draft.DraftPayload.fromValue draft.draftPayload = some payload ∧
      ∃ step ∈ steps, ∃ args creator blockhash, step.op = .vaultSign args creator blockhash ∧
        args.parties =
          partyKeys env.crates (payload.parties.map Draft.DraftPartyEntry.pubkey) := by
  unfold submitDraft at h
  obtain ⟨⟨storageBackend, row⟩, w₁, first, rest, rfl, hadmit, h⟩ := runs_bind_ok.mp h
  obtain ⟨-, w₂, second, rest, rfl, -, h⟩ := runs_bind_ok.mp h
  obtain ⟨payload, w₃, third, rest, rfl, hpayload, h⟩ := runs_bind_ok.mp h
  obtain ⟨creatorPubkey, w₄, fourth, rest, rfl, -, h⟩ := runs_bind_ok.mp h
  obtain ⟨agreementId, w₅, fifth, rest, rfl, -, h⟩ := runs_bind_ok.mp h
  obtain ⟨contentHash, w₆, sixth, rest, rfl, -, h⟩ := runs_bind_ok.mp h
  obtain ⟨transaction, w₇, seventh, rest, rfl, hbuild, -⟩ := runs_bind_ok.mp h
  obtain ⟨draft, hdraft, hready, hrow⟩ := admitSubmission_ready hadmit
  obtain ⟨step, hstep, blockhash, hop⟩ := buildCreateAgreementTx_signs hbuild
  rw [runs_okOr_ok, ← hrow] at hpayload
  refine ⟨draft, payload, hdraft, hready, hpayload.1, step, ?_, _, creatorPubkey, blockhash, hop,
    rfl⟩
  simp only [List.mem_append]
  tauto

/-! ## The parties that are missing -/

/-- The transaction that the vault signs has one key for each slot of the draft, in slot order,
which is the decoded wallet of the slot. -/
def SignsEverySlot (env : Env) (draftId : Uuid) (db : Db) (steps : List BackendStep) : Prop :=
  ∀ step ∈ steps, ∀ args creator blockhash, step.op = .vaultSign args creator blockhash →
    ∃ draft slots, db.draft? draftId = some draft ∧
      Invite.slotsFromValue draft.partySlots = some slots ∧
      args.parties.map some = slots.map fun slot => slot.pubkey.bind env.crates.pubkeyFromStr

/-- If a wallet is missing, there are fewer keys than parties. -/
theorem partyKeys_length_lt {crates : Crates} {pubkeys : List (Option String)}
    (h : none ∈ pubkeys) : (partyKeys crates pubkeys).length < pubkeys.length := by
  have hkeys : (partyKeys crates pubkeys).length ≤ (pubkeys.filterMap id).length :=
    List.length_filterMap_le _ _
  have hpubkeys : (pubkeys.filterMap id).length < pubkeys.length :=
    List.length_filterMap_lt_length_iff_exists.mpr ⟨none, h, rfl⟩
  omega

/-- **Submitted parties.**  In no run that stores a draft, has it completed and submits it, does the
signed transaction list the wallet of every slot. -/
theorem submitted_parties_incomplete {env : Env} {w₀ w₁ w₂ w₃ : World}
    {created between submitted : List BackendStep} {auth auth' : AuthUserWithWallet}
    {req : CreateAgreementRequest} {req' : SubmitDraftRequest} {draftId : Uuid}
    {pendingInvitations : List PendingInvitation} {response : SubmitDraftResponse}
    (htxs : w₀.txs = [])
    (hcreate : Runs perform (createAgreement env auth req).run w₀ created
      (.ok (.awaitingPartyWallets draftId pendingInvitations)) w₁)
    (hbetween : Calls env w₁ between w₂)
    (hsubmit : Runs perform (submitDraft env auth' draftId req').run w₂ submitted
      (.ok response) w₃) :
    ¬ SignsEverySlot env draftId w₂.db submitted := by
  intro hsigns
  obtain ⟨-, hstored⟩ | ⟨id, entries, hstored, hid⟩ := createAgreement_ensures created _ w₁ hcreate
  · exact hstored draftId rfl
  obtain rfl : draftId = id := hid draftId rfl
  obtain ⟨-, draft, slots, hdraft, hof⟩ := (tracks_stored hstored htxs).calls hbetween
  obtain ⟨draft', payload, hdraft', hready, hpayload, step, hstep, args, creator, blockhash, hop,
    hargs⟩ := submitDraft_signs hsubmit
  obtain rfl : draft = draft' := Option.some.inj (hdraft.symm.trans hdraft')
  rw [hof.draftPayload, Draft.DraftPayload.fromValue_toValue, Option.some.injEq] at hpayload
  subst hpayload
  -- the draft is ready, so somebody was invited
  obtain ⟨entry, hentry, hnone⟩ := ((hof.status (by simp [hready])).mp hready).2
  obtain ⟨draft', slots', hdraft', hslots', hparties⟩ :=
    hsigns step hstep args creator blockhash hop
  obtain rfl : draft = draft' := Option.some.inj (hdraft.symm.trans hdraft')
  rw [hof.partySlots, Invite.slotsFromValue_slotsToValue, Option.some.injEq] at hslots'
  subst hslots'
  set pubkeys := (Agreement.DraftPayload.toDraft
    ⟨req.title, req.expiresInSecs, entries⟩).parties.map Draft.DraftPartyEntry.pubkey with hpubkeys
  have hlength : (partyKeys env.crates pubkeys).length = slots.length := by
    have hmaps := congrArg List.length hparties
    rwa [List.length_map, List.length_map, hargs] at hmaps
  have hmissing : none ∈ pubkeys := by
    rw [hpubkeys, Agreement.DraftPayload.toDraft, List.map_map]
    exact List.mem_map.mpr ⟨entry, hentry, hnone⟩
  have hlt : (partyKeys env.crates pubkeys).length < pubkeys.length := partyKeys_length_lt hmissing
  have hentries : pubkeys.length = entries.length := by
    simp [hpubkeys, Agreement.DraftPayload.toDraft]
  have hslots : entries.length = slots.length := hof.fills.length_eq
  omega

/-! ## A draft with one invited party -/

/-- The step has a transaction signed with fewer parties than the draft has slots. -/
def signsFewer (draftId : Uuid) (db : Db) (step : BackendStep) : Bool :=
  match step.op with
  | .vaultSign args _ _ => (db.draft? draftId).any fun draft =>
      (Invite.slotsFromValue draft.partySlots).any fun slots => args.parties.length < slots.length
  | _ => false

theorem not_signsEverySlot {env : Env} {draftId : Uuid} {db : Db} {steps : List BackendStep}
    (h : steps.any (signsFewer draftId db) = true) : ¬ SignsEverySlot env draftId db steps := by
  obtain ⟨step, hstep, hfewer⟩ := List.any_eq_true.mp h
  intro hsigns
  unfold signsFewer at hfewer
  split at hfewer
  · rename_i args creator blockhash hop
    obtain ⟨draft, slots, hdraft, hslots, hparties⟩ := hsigns step hstep args creator blockhash hop
    rw [hdraft, Option.any_some, hslots, Option.any_some, decide_eq_true_eq] at hfewer
    have hlength := congrArg List.length hparties
    rw [List.length_map, List.length_map] at hlength
    omega
  · cases hfewer

/-- Bob's submission of the document. -/
def submission : SubmitDraftRequest :=
  ⟨String.ofList (List.replicate 64 'a'), "ipfs://document", "ipfs"⟩

/-- Alice accepts her invitation, and Bob uses the free tier for the draft. -/
def acceptAndPay : List (Backend Unit × ((op : Op) → World → op.Ans)) :=
  [(Handler.logged (acceptInvite alice firstToken), cooperate 0),
    (Handler.logged (initiatePayment sampleEnv bob firstDraft ⟨"usdc"⟩), cooperate 0)]

theorem acceptAndPay_entry : ∀ p ∈ acceptAndPay, Entry sampleEnv p.1 := by
  simp only [acceptAndPay, List.forall_mem_cons, List.not_mem_nil, false_implies, implies_true,
    and_true]
  exact ⟨.acceptInvite .., .initiatePayment ..⟩

/-- Bob invites Alice, she accepts, and Bob submits. -/
theorem submission_run :
    ∃ created between submitted pendingInvitations response w₁ w₂ w₃,
      Runs perform (createAgreement sampleEnv bob (requestFor [.email "alice@pactum"])).run
        (World.ofDb accountsDb) created
        (.ok (.awaitingPartyWallets firstDraft pendingInvitations)) w₁ ∧
      Calls sampleEnv w₁ between w₂ ∧
      Runs perform (submitDraft sampleEnv bob firstDraft submission).run w₂ submitted
        (.ok response) w₃ ∧
      submitted.any (signsFewer firstDraft w₂.db) = true := by
  have hrun : (interpret perform (cooperate 0)
      (createAgreement sampleEnv bob (requestFor [.email "alice@pactum"])).run
        (World.ofDb accountsDb)).any (fun created =>
      decide (CreateAgreementResponse.Stores firstDraft created.2.1) &&
      (interpretAll acceptAndPay created.2.2).any fun between =>
        (interpret perform (cooperate 0)
          (submitDraft sampleEnv bob firstDraft submission).run between.2).any fun submitted =>
            submitted.2.1.isOk && submitted.1.any (signsFewer firstDraft between.2.db)) = true := by
    decide +kernel
  obtain ⟨⟨created, r, w₁⟩, hcreate, hrun⟩ := (Option.any_eq_true _ _).mp hrun
  rw [Bool.and_eq_true] at hrun
  obtain ⟨hid, hrun⟩ := hrun
  obtain ⟨⟨between, w₂⟩, hbetween, hrun⟩ := (Option.any_eq_true _ _).mp hrun
  obtain ⟨⟨submitted, r', w₃⟩, hsubmit, hrun⟩ := (Option.any_eq_true _ _).mp hrun
  rw [Bool.and_eq_true] at hrun
  obtain ⟨hok, hfewer⟩ := hrun
  cases r' with
  | error e => cases hok
  | ok response =>
      obtain ⟨pendingInvitations, rfl⟩ := (of_decide_eq_true hid).eq_ok
      exact ⟨created, between, submitted, pendingInvitations, response, w₁, w₂, w₃,
        interpret_runs hcreate, calls_of_interpretAll acceptAndPay_entry hbetween,
        interpret_runs hsubmit, hfewer⟩

theorem invited_party_not_signed :
    ¬ ∀ (env : Env) (w₀ w₁ w₂ w₃ : World) (created between submitted : List BackendStep)
      (auth auth' : AuthUserWithWallet) (req : CreateAgreementRequest) (req' : SubmitDraftRequest)
      (draftId : Uuid) (pendingInvitations : List PendingInvitation)
      (response : SubmitDraftResponse),
      w₀.txs = [] →
      Runs perform (createAgreement env auth req).run w₀ created
        (.ok (.awaitingPartyWallets draftId pendingInvitations)) w₁ →
      Calls env w₁ between w₂ →
      Runs perform (submitDraft env auth' draftId req').run w₂ submitted (.ok response) w₃ →
      SignsEverySlot env draftId w₂.db submitted := by
  intro hclaim
  obtain ⟨created, between, submitted, pendingInvitations, response, w₁, w₂, w₃, hcreate, hbetween,
    hsubmit, hfewer⟩ := submission_run
  exact not_signsEverySlot hfewer
    (hclaim _ _ _ _ _ _ _ _ _ _ _ _ _ _ _ rfl hcreate hbetween hsubmit)

theorem submitted_parties_incomplete_alice :
    ∃ between submitted response w₁ w₂ w₃, Calls sampleEnv w₁ between w₂ ∧
      Runs perform (submitDraft sampleEnv bob firstDraft submission).run w₂ submitted
        (.ok response) w₃ ∧
      ¬ SignsEverySlot sampleEnv firstDraft w₂.db submitted := by
  obtain ⟨created, between, submitted, pendingInvitations, response, w₁, w₂, w₃, hcreate, hbetween,
    hsubmit, -⟩ := submission_run
  exact ⟨between, submitted, response, w₁, w₂, w₃, hbetween, hsubmit,
    submitted_parties_incomplete rfl hcreate hbetween hsubmit⟩

end PactumCodex
