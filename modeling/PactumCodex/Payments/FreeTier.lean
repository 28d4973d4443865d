import Mathlib.Data.List.Dedup
import PactumCodex.Drafts.Creation
import PactumCodex.Replay

/-!
# Use of the free tier by one user

A user's free agreements are counted in `user_agreement_counts.free_used`.  Both
`create_agreement` and `initiate_payment` compare it with the configured tier,
but only `initiate_payment` counts: an agreement that `create_agreement` submits
directly leaves the counter as it is.  So the uses of the free tier, one request
after the other, stay within the tier as long as no request takes the direct
path (`free_uses_bounded`).

## The counter

`freeUsed_step` says how a step changes the counter of a user, and
`freeUsed_chain` adds this up along an execution.  A missing row counts as zero,
so the statement that counts has two cases: it inserts the row with one use or
increments it (`bump_freeUsed`).

## Requests

What a request grants is the number of drafts it marks as paid.

* Operations that neither mark a draft nor count are left out (`GrantFree`); this
  covers all of `create_agreement` and `submit_draft`.
* `initiate_payment` grants nothing, or marks one draft and counts it, after it has
  read a counter within the tier (`initiatePayment_granted`).
* `create_agreement` submits directly only if all parties have a wallet and the
  counter is within the tier (`createAgreement_not_submitted`).

`UserRun.bounded` is the induction over the requests of a run: the drafts marked
as paid are at most what the counter has grown by, which stays within the tier.
-/

namespace PactumCodex

open Interaction Relational

/-! ## The counter -/

/-- The counter of a user; no row counts as zero. -/
def Db.freeUsed (db : Db) (userId : Uuid) : ℤ :=
  ((lookup AgreementCount.userId userId db.counts.rows).map AgreementCount.freeUsed).getD 0

/-- The step executes the statement that counts a use of the free tier. -/
def countsUse (userId : Uuid) : BackendStep → Bool
  | ⟨_, .sql (.count (.bump id)), .ok _, _⟩ => id = userId
  | _ => false

/-- The draft that the step marks as paid. -/
def markedPaid : BackendStep → Option Uuid
  | ⟨_, .sql (.draft (.setPaid id)), .ok _, _⟩ => some id
  | _ => none

theorem bump_freeUsed {db db' : Db} {id : Uuid} (userId : Uuid)
    (h : (CountStmt.bump id).exec () db = some db'.counts) :
    db'.freeUsed userId = db.freeUsed userId + if id = userId then 1 else 0 := by
  unfold Db.freeUsed
  simp only [CountStmt.exec] at h
  -- the row exists and is incremented, or it is inserted with one use
  split at h
  · rename_i hsome
    have hkey : ∀ row : AgreementCount,
        AgreementCount.userId { row with freeUsed := row.freeUsed + 1 } = row.userId := fun _ => rfl
    rw [rows_of_commit h, lookup_updateWhere hkey]
    by_cases hid : id = userId
    · subst hid
      obtain ⟨row, hrow⟩ := Option.isSome_iff_exists.mp hsome
      have huser : row.userId = id := ((lookup_eq_some db.counts.valid.1).mp hrow).2
      simp [hrow, huser]
    · cases hrow : lookup AgreementCount.userId userId db.counts.rows with
      | none => simp [hid]
      | some row =>
          have huser : row.userId = userId := ((lookup_eq_some db.counts.valid.1).mp hrow).2
          have hne : row.userId ≠ id := fun heq => hid (heq.symm.trans huser)
          simp [hid, hne]
  · rename_i hnone
    rw [rows_of_commit h]
    simp only [lookup, List.find?_append, List.find?_singleton] at hnone ⊢
    by_cases hid : id = userId
    · subst hid
      have hfind := Option.not_isSome_iff_eq_none.mp hnone
      simp [hfind]
    · simp [hid]

theorem executes_of_countsUse {userId : Uuid} {step : BackendStep}
    (h : countsUse userId step = true) : Executes step (.count (.bump userId)) () := by
  unfold countsUse at h
  split at h
  · rename_i w id out w'
    obtain rfl := of_decide_eq_true h
    rfl
  · cases h

/-- Only the counting statement changes the counter. -/
theorem freeUsed_step_of_not {step : BackendStep} (h : step.Valid perform) {userId : Uuid}
    (hcount : countsUse userId step = false) :
    step.post.db.freeUsed userId = step.pre.db.freeUsed userId := by
  obtain hsame | ⟨s, out, hexecutes, hcounts⟩ := counts_step h
  · rw [Db.freeUsed, Db.freeUsed, hsame]
  · cases s with
    | freeUsed id => rw [Db.freeUsed, (provided_eq_some.mp hcounts).2, Db.freeUsed]
    | bump id =>
        have hid : id ≠ userId := by
          rw [hexecutes] at hcount
          exact of_decide_eq_false hcount
        rw [bump_freeUsed userId hcounts, if_neg hid, add_zero]

/-- A step adds to the counter of a user what it counts. -/
theorem freeUsed_step {step : BackendStep} (h : step.Valid perform) (userId : Uuid) :
    step.post.db.freeUsed userId =
      step.pre.db.freeUsed userId + if countsUse userId step then 1 else 0 := by
  by_cases hcount : countsUse userId step = true
  · rw [if_pos hcount]
    have hexec := exec_of_executes h (executes_of_countsUse hcount)
    obtain ⟨counts, hexec, hdb⟩ := Option.map_eq_some_iff.mp hexec
    have hcounts : (CountStmt.bump userId).exec () step.pre.db = some step.post.db.counts := by
      rw [hexec, ← hdb]
    rw [bump_freeUsed userId hcounts, if_pos rfl]
  · rw [if_neg hcount, add_zero]
    exact freeUsed_step_of_not h (by simpa using hcount)

/-- Along a chain, the counter grows by the uses that are counted. -/
theorem freeUsed_chain {w w' : World} {steps : List BackendStep} (h : Chain perform w steps w')
    (userId : Uuid) :
    w'.db.freeUsed userId = w.db.freeUsed userId + steps.countP (countsUse userId) := by
  induction h with
  | nil => simp
  | @cons step steps w' hvalid _ ih =>
      rw [ih, freeUsed_step hvalid, List.countP_cons]
      split
      · push_cast
        ring
      · simp

/-! ## Programs that do not use the free tier -/

/-- The operation marks a draft as paid or counts a use of the free tier. -/
def Op.grants : Op → Bool
  | .sql (.draft (.setPaid _)) => true
  | .sql (.count (.bump _)) => true
  | _ => false

theorem markedPaid_of_not_grants {step : BackendStep} (h : step.op.grants = false) :
    markedPaid step = none := by
  unfold markedPaid
  split
  · cases h
  · rfl

theorem countsUse_of_not_grants {step : BackendStep} (h : step.op.grants = false) (userId : Uuid) :
    countsUse userId step = false := by
  unfold countsUse
  split
  · cases h
  · rfl

/-- The steps that a program takes grant nothing. -/
structure GrantFree (userId : Uuid) (steps : List BackendStep) : Prop where
  paid : steps.filterMap markedPaid = []
  counted : steps.countP (countsUse userId) = 0

theorem grantFree_of_issues {α : Type} {p : Backend α} {w w' : World} {steps : List BackendStep}
    {a : α} (hp : p.Issues fun op => op.grants = false) (h : Runs perform p w steps a w')
    (userId : Uuid) : GrantFree userId steps := by
  have hissued := Stops.issued hp h.stops
  refine ⟨List.filterMap_eq_nil_iff.mpr fun step hmem => ?_,
    List.countP_eq_zero.mpr fun step hmem => ?_⟩
  · exact markedPaid_of_not_grants (hissued step hmem)
  · simp [countsUse_of_not_grants (hissued step hmem)]

theorem buildCreateAgreementTx_grantFree (args : CreateAgreementArgs) (creator : Pubkey) :
    (buildCreateAgreementTx args creator).run.Issues fun op => op.grants = false :=
  (buildCreateAgreementTx_issues ..).mono fun _ h => by cases h <;> rfl

theorem resolveParties_grantFree (env : Env) (key indexKey : Bytes 32) (invitedAt expiresAt : ℤ)
    (parties : List PartyInput) (scan : PartyScan) :
    (resolveParties env key indexKey invitedAt expiresAt parties scan).run.Issues
      fun op => op.grants = false :=
  (resolveParties_issues ..).mono fun _ h => by cases h <;> rfl

theorem storeDraft_grantFree (auth : AuthUserWithWallet) (req : CreateAgreementRequest)
    (slots : List Handlers.Agreement.DraftPartyEntry) (rows : List InvitationInsertRow) :
    (storeDraft auth req slots rows).run.Issues fun op => op.grants = false := by
  refine issues_run_bind (issues_query.mpr rfl) fun draftId => ?_
  refine issues_run_bind ((insertInvitations_issues ..).mono fun _ h => ?_) fun _ => trivial
  cases h <;> rfl

theorem createAgreement_grantFree (env : Env) (auth : AuthUserWithWallet)
    (req : CreateAgreementRequest) :
    (createAgreement env auth req).run.Issues fun op => op.grants = false := by
  unfold createAgreement
  refine issues_run_bind issues_ofExcept fun _ => ?_
  refine issues_run_bind issues_ofExcept fun key => ?_
  refine issues_run_bind issues_ofExcept fun indexKey => ?_
  refine issues_run_bind (issues_query.mpr rfl) fun freeUsed => ?_
  refine issues_run_bind (issues_ask.mpr rfl) fun invitedAt => ?_
  refine issues_run_bind issues_okOr fun expiry => ?_
  refine issues_run_bind (resolveParties_grantFree ..) fun scan => ?_
  split
  · refine issues_run_bind issues_okOr fun creatorPubkey => ?_
    refine issues_run_bind (issues_ask.mpr rfl) fun agreementId => ?_
    exact issues_run_bind (buildCreateAgreementTx_grantFree ..) fun _ => trivial
  · exact storeDraft_grantFree ..

theorem submitDraft_grantFree (env : Env) (auth : AuthUserWithWallet) (draftId : Uuid)
    (req : SubmitDraftRequest) :
    (submitDraft env auth draftId req).run.Issues fun op => op.grants = false := by
  unfold submitDraft admitSubmission getDraftRow persistAgreement
  refine issues_run_bind ?_ fun ⟨storageBackend, draft⟩ => ?_
  · refine issues_run_bind issues_ofExcept fun _ => issues_run_bind issues_ofExcept fun _ => ?_
    refine issues_run_bind (issues_run_bind (issues_query.mpr rfl) fun _ => issues_okOr) fun _ => ?_
    refine issues_run_bind issues_ofExcept fun _ =>
      issues_run_bind (issues_query.mpr rfl) fun _ => ?_
    exact issues_run_bind issues_ofExcept fun _ => trivial
  refine issues_run_bind (issues_query.mpr rfl) fun _ => ?_
  refine issues_run_bind issues_okOr fun payload => issues_run_bind issues_okOr fun creator => ?_
  refine issues_run_bind (issues_ask.mpr rfl) fun agreementId => ?_
  refine issues_run_bind issues_okOr fun contentHash => ?_
  refine issues_run_bind (buildCreateAgreementTx_grantFree ..) fun transaction => ?_
  refine issues_run_bind (issues_run_bind (issues_query.mpr rfl) fun _ => ?_) fun _ => trivial
  exact issues_query.mpr rfl

theorem requestPayment_grantFree (env : Env) (auth : AuthUserWithWallet) (draftId : Uuid)
    (req : InitiatePaymentRequest) :
    (requestPayment env auth draftId req).run.Issues fun op => op.grants = false := by
  unfold requestPayment
  refine issues_run_bind issues_okOr fun tokenInfo => ?_
  refine issues_run_bind (issues_ask.mpr rfl) fun reference => ?_
  refine issues_run_bind (issues_ask.mpr rfl) fun id =>
    issues_run_bind (issues_ask.mpr rfl) fun now => ?_
  exact issues_run_bind (issues_query.mpr rfl) fun _ => trivial

/-! ## `initiate_payment` -/

/-- The statement that counts a use of the free tier fails. -/
def failsToCount (userId : Uuid) : BackendStep → Bool
  | ⟨_, .sql (.count (.bump id)), .error _, _⟩ => id = userId
  | _ => false

/-- The statement that counts a use of the free tier does not fail. -/
def UsesCounted (userId : Uuid) (steps : List BackendStep) : Prop :=
  ∀ step ∈ steps, failsToCount userId step = false

theorem UsesCounted.right {userId : Uuid} {first second : List BackendStep}
    (h : UsesCounted userId (first ++ second)) : UsesCounted userId second :=
  fun step hmem => h step (List.mem_append_right _ hmem)

/-- A request grants nothing, or it marks one draft as paid and counts this once. -/
inductive Granted (userId draftId : Uuid) (tier : ℤ) (w : World) (steps : List BackendStep) : Prop
  | nothing : GrantFree userId steps → Granted userId draftId tier w steps
  | draft : w.db.freeUsed userId < tier → steps.filterMap markedPaid = [draftId] →
      steps.countP (countsUse userId) = 1 → Granted userId draftId tier w steps

theorem GrantFree.nil (userId : Uuid) : GrantFree userId [] := ⟨rfl, rfl⟩

theorem GrantFree.append {userId : Uuid} {first second : List BackendStep}
    (hfirst : GrantFree userId first) (hsecond : GrantFree userId second) :
    GrantFree userId (first ++ second) := by
  refine ⟨?_, ?_⟩
  · rw [List.filterMap_append, hfirst.paid, hsecond.paid, List.append_nil]
  · rw [List.countP_append, hfirst.counted, hsecond.counted]

/-- Steps that grant nothing change nothing for those that follow. -/
theorem Granted.after {userId draftId : Uuid} {tier : ℤ} {w w₁ : World}
    {first second : List BackendStep} (hchain : Chain perform w first w₁)
    (hfirst : GrantFree userId first) (hsecond : Granted userId draftId tier w₁ second) :
    Granted userId draftId tier w (first ++ second) := by
  cases hsecond with
  | nothing hfree => exact .nothing (hfirst.append hfree)
  | draft hlt hpaid hcounted =>
      have hsame := freeUsed_chain hchain userId
      rw [hfirst.counted, Nat.cast_zero, add_zero] at hsame
      refine .draft (hsame ▸ hlt) ?_ ?_
      · rw [List.filterMap_append, hfirst.paid, hpaid, List.nil_append]
      · rw [List.countP_append, hfirst.counted, hcounted]

/-- The free tier is granted by two statements, the second of which counts it. -/
theorem grantFreeTier_granted {userId draftId : Uuid} {tier : ℤ} {w w' : World}
    {steps : List BackendStep} {r : Except AppError InitiatePaymentResponse}
    (h : Runs perform (grantFreeTier userId draftId).run w steps r w')
    (hcounted : UsesCounted userId steps) (hlt : w.db.freeUsed userId < tier) :
    Granted userId draftId tier w steps := by
  rcases runs_bind_cases h with ⟨e, -, hfail⟩ | ⟨_, w₁, first, second, rfl, hpaid, hrest⟩
  · obtain ⟨-, -, rfl⟩ := runs_query_error.mp hfail
    exact .nothing ⟨rfl, rfl⟩
  obtain ⟨-, rfl⟩ := runs_query_ok.mp hpaid
  rcases runs_bind_cases hrest with ⟨e, -, hfail⟩ | ⟨_, w₂, third, fourth, rfl, hcount, hret⟩
  · -- the draft is marked, but the counter is not updated
    obtain ⟨-, -, rfl⟩ := runs_query_error.mp hfail
    have hfails := hcounted.right _ (List.mem_singleton_self _)
    simp [failsToCount] at hfails
  · obtain ⟨-, rfl⟩ := runs_query_ok.mp hcount
    obtain ⟨rfl, -, -⟩ := hret
    refine .draft hlt rfl ?_
    simp [countsUse]

/-- A read of the counter returns it. -/
theorem freeUsed_of_query {userId : Uuid} {result : Option ℤ} {w w' : World}
    (h : performSql (.count (.freeUsed userId)) result w = some w') :
    result.getD 0 = w.db.freeUsed userId := by
  obtain ⟨-, -, db, hexec, -⟩ := performSql_eq_some.mp h
  obtain ⟨counts, hexec, -⟩ := Option.map_eq_some_iff.mp hexec
  rw [(provided_eq_some.mp hexec).1]
  rfl

theorem initiatePayment_granted {env : Env} {auth : AuthUserWithWallet} {draftId : Uuid}
    {req : InitiatePaymentRequest} {w w' : World} {steps : List BackendStep}
    {r : Except AppError InitiatePaymentResponse}
    (h : Runs perform (initiatePayment env auth draftId req).run w steps r w')
    (hcounted : UsesCounted auth.userId steps) :
    Granted auth.userId draftId (asI32 env.config.platformFeeFreeTier) w steps := by
  have hfree : ∀ {α : Type} {x : Handler α} {w w' : World} {r : Except AppError α}
      {steps : List BackendStep}, x.run.Issues (fun op => op.grants = false) →
      Runs perform x.run w steps r w' → GrantFree auth.userId steps :=
    fun hp hruns => grantFree_of_issues hp hruns auth.userId
  unfold initiatePayment at h
  rcases runs_bind_cases h with ⟨e, -, hfail⟩ | ⟨found, w₁, first, rest, rfl, hfound, h⟩
  · exact .nothing (hfree (issues_query.mpr rfl) hfail)
  refine .after hfound.chain (hfree (issues_query.mpr rfl) hfound) ?_
  replace hcounted := hcounted.right
  rcases runs_bind_cases h with ⟨e, -, hfail⟩ | ⟨creator, w₂, first, rest, rfl, hcreator, h⟩
  · exact .nothing (hfree issues_okOr hfail)
  refine .after hcreator.chain (hfree issues_okOr hcreator) ?_
  replace hcounted := hcounted.right
  rcases runs_bind_cases h with ⟨e, -, hfail⟩ | ⟨_, w₃, first, rest, rfl, hensure, h⟩
  · exact .nothing (hfree issues_ensure hfail)
  refine .after hensure.chain (hfree issues_ensure hensure) ?_
  replace hcounted := hcounted.right
  rcases runs_bind_cases h with ⟨e, -, hfail⟩ | ⟨used, w₄, first, rest, rfl, hused, h⟩
  · exact .nothing (hfree (issues_query.mpr rfl) hfail)
  have hgrantFree := hfree (issues_query.mpr rfl) hused
  refine .after hused.chain hgrantFree ?_
  replace hcounted := hcounted.right
  -- within the tier the draft is granted; otherwise a payment is requested
  split at h
  · rename_i hlt
    refine grantFreeTier_granted h hcounted ?_
    have hsame := freeUsed_chain hused.chain auth.userId
    rw [hgrantFree.counted, Nat.cast_zero, add_zero] at hsame
    rwa [hsame, ← freeUsed_of_query (runs_query_ok.mp hused).1]
  · exact .nothing (hfree (requestPayment_grantFree ..) h)

/-! ## `create_agreement` -/

/-- The loop over the parties finds out that one of them has no wallet. -/
theorem resolveParties_unresolved {env : Env} {key indexKey : Bytes 32} {invitedAt expiresAt : ℤ}
    (hkey : hexToBytes32 env.config.encryptionIndexKey = some indexKey) {w w₁ : World}
    (hsame : SameDrafts w w₁) {parties : List PartyInput} {scan : PartyScan}
    (h : scan.allPartiesResolved = true → ∃ party ∈ parties, party.Walletless env w.db) :
    Ensures perform (resolveParties env key indexKey invitedAt expiresAt parties scan).run w₁
      fun r _ => ∀ scan', r = .ok scan' → scan'.allPartiesResolved = false := by
  induction parties generalizing scan w₁ with
  | nil =>
      refine ensures_ret fun scan' hscan => ?_
      rw [← Except.ok.inj hscan]
      by_contra hresolved
      obtain ⟨party, hmem, -⟩ := h (by simpa using hresolved)
      cases hmem
  | cons party parties ih =>
      -- if this party has a wallet, the one without is among the others
      have hskip : ¬ party.Walletless env w.db →
          scan.allPartiesResolved = true → ∃ party ∈ parties, party.Walletless env w.db := by
        intro hwallet hresolved
        obtain ⟨other, hmem, hother⟩ := h hresolved
        rcases List.mem_cons.mp hmem with rfl | hmem
        · exact absurd hother hwallet
        · exact ⟨other, hmem, hother⟩
      cases party with
      | pubkey pubkey => exact ih hsame (hskip fun hless => hless)
      | email email =>
          have hfailed : ∀ {e : AppError} (scan' : PartyScan),
              (Except.error e : Except AppError PartyScan) = .ok scan' →
                scan'.allPartiesResolved = false := fun _ herror => nomatch herror
          refine ensures_query_bind (fun resolved w₂ hquery => ?_) hfailed
          obtain ⟨hless, h₂⟩ := walletless_of_query hkey hsame hquery
          cases resolved with
          | some pubkey => exact ih (hsame.trans h₂) (hskip (by simpa using hless))
          | none =>
              refine ensures_ask_bind fun inviteId w₃ hid => ?_
              refine ensures_ask_bind fun token w₄ htoken => ?_
              have h₄ : SameDrafts w₂ w₄ :=
                (sameDrafts_of_perform hid rfl).trans (sameDrafts_of_perform htoken rfl)
              refine ensures_run_bind (Ψ := fun _ w₅ => SameDrafts w w₅)
                (ensures_orFail (ensures_issue fun answer w₅ hencrypt => ?_)) ?_
                  fun _ _ _ => hfailed
              · have h₅ := ((hsame.trans h₂).trans h₄).trans (sameDrafts_of_perform hencrypt rfl)
                cases answer <;> exact h₅
              · intro ⟨enc, nonce⟩ w₅ h₅
                exact ih h₅ nofun

/-- `create_agreement` does not submit directly if the tier is used up or somebody has no wallet. -/
theorem createAgreement_not_submitted {env : Env} {auth : AuthUserWithWallet}
    {req : CreateAgreementRequest} {w : World}
    (h : asI32 env.config.platformFeeFreeTier ≤ w.db.freeUsed auth.userId ∨
      ∃ party ∈ req.parties, party.Walletless env w.db) :
    Ensures perform (createAgreement env auth req).run w fun r _ =>
      ∀ transaction agreementPda, r ≠ .ok (.submitted transaction agreementPda) := by
  have hfailed : ∀ {e : AppError} (transaction agreementPda : String),
      (Except.error e : Except AppError CreateAgreementResponse) ≠
        .ok (.submitted transaction agreementPda) := fun _ _ herror => nomatch herror
  unfold createAgreement
  refine ensures_ofExcept_bind (fun _ _ => ?_) fun _ _ => hfailed
  refine ensures_ofExcept_bind (fun key _ => ?_) fun _ _ => hfailed
  refine ensures_ofExcept_bind (fun indexKey hindex => ?_) fun _ _ => hfailed
  refine ensures_query_bind (fun freeUsed w₁ hquery => ?_) hfailed
  refine ensures_ask_bind fun invitedAt w₂ hnow => ?_
  refine ensures_okOr_bind (fun expiry _ => ?_) hfailed
  have h₂ : SameDrafts w w₂ := by
    have hperform : perform (.sql (.count (.freeUsed auth.userId))) (.ok freeUsed) w = some w₁ :=
      hquery
    exact (sameDrafts_of_perform hperform rfl).trans (sameDrafts_of_perform hnow rfl)
  have hscan : Ensures perform (resolveParties env key indexKey invitedAt (invitedAt + expiry)
      req.parties ⟨true, [], []⟩).run w₂ fun r _ => ∀ scan, r = .ok scan →
        ¬ (scan.allPartiesResolved ∧ freeUsed.getD 0 < asI32 env.config.platformFeeFreeTier) := by
    -- the tier is used up, or the scan finds a party without a wallet
    rcases h with hused | hless
    · intro _ _ _ _ _ _ hfree
      rw [freeUsed_of_query hquery] at hfree
      omega
    · refine (resolveParties_unresolved (hexToBytes32_of_decode hindex) h₂ fun _ => hless).mono ?_
      intro r _ hunresolved scan hr hdirect
      rw [hunresolved scan hr] at hdirect
      cases hdirect.1
  refine ensures_run_bind hscan ?_ fun _ _ _ => hfailed
  intro scan w₃ hscan
  rw [if_neg (hscan scan rfl)]
  refine ensures_query_bind (fun draftId w₄ _ => ?_) hfailed
  refine ensures_run_bind (Ψ := fun _ _ => True) (fun _ _ _ _ => trivial) ?_ fun _ _ _ => hfailed
  exact fun _ _ _ => ensures_ret fun _ _ hr => nomatch hr

/-! ## Requests of one user -/

/-- A request of the user. -/
inductive UserRequest : Type
  | create (req : CreateAgreementRequest)
  | initiate (draftId : Uuid) (req : InitiatePaymentRequest)
  | submit (draftId : Uuid) (req : SubmitDraftRequest)

/-- The response to a request. -/
inductive UserResponse : Type
  | create (r : Except AppError CreateAgreementResponse)
  | initiate (r : Except AppError InitiatePaymentResponse)
  | submit (r : Except AppError SubmitDraftResponse)

/-- The program that handles a request. -/
def UserRequest.handle (env : Env) (auth : AuthUserWithWallet) : UserRequest → Backend UserResponse
  | create req => do return .create (← (createAgreement env auth req).run)
  | initiate draftId req => do return .initiate (← (initiatePayment env auth draftId req).run)
  | submit draftId req => do return .submit (← (submitDraft env auth draftId req).run)

/-- A request that was handled: where it started, its steps and the response. -/
structure Exchange where
  request : UserRequest
  start : World
  steps : List BackendStep
  response : UserResponse

/-- Requests of the user, one after the other. -/
inductive UserRun (env : Env) (auth : AuthUserWithWallet) : World → List Exchange → World → Prop
  | nil (w : World) : UserRun env auth w [] w
  | cons {w w₁ w' : World} {steps : List BackendStep} {response : UserResponse}
      {rest : List Exchange} (request : UserRequest) :
      Runs perform (request.handle env auth) w steps response w₁ → UserRun env auth w₁ rest w' →
      UserRun env auth w (⟨request, w, steps, response⟩ :: rest) w'

/-- `create_agreement` answered with the status `submitted`. -/
def Exchange.submitted (exchange : Exchange) : Bool :=
  match exchange.response with
  | .create (.ok (.submitted ..)) => true
  | _ => false

/-- The drafts marked as paid; only the free tier does this. -/
def freeDrafts (exchanges : List Exchange) : List Uuid :=
  (exchanges.flatMap Exchange.steps).filterMap markedPaid

/-- The agreements obtained for free: those submitted directly, and the drafts marked as paid. -/
def freeUses (exchanges : List Exchange) : ℕ :=
  exchanges.countP Exchange.submitted + (freeDrafts exchanges).dedup.length

/-- The request does not create an agreement whose parties all have a wallet while the creator is
within the free tier. -/
def Exchange.Indirect (env : Env) (auth : AuthUserWithWallet) : Exchange → Prop
  | ⟨.create req, start, _, _⟩ =>
      asI32 env.config.platformFeeFreeTier ≤ start.db.freeUsed auth.userId ∨
        ∃ party ∈ req.parties, party.Walletless env start.db
  | ⟨.initiate .., _, _, _⟩ => True
  | ⟨.submit .., _, _, _⟩ => True

instance (env : Env) (auth : AuthUserWithWallet) :
    (exchange : Exchange) → Decidable (exchange.Indirect env auth)
  | ⟨.create req, start, _, _⟩ => inferInstanceAs (Decidable
      (asI32 env.config.platformFeeFreeTier ≤ start.db.freeUsed auth.userId ∨
        ∃ party ∈ req.parties, party.Walletless env start.db))
  | ⟨.initiate .., _, _, _⟩ => inferInstanceAs (Decidable True)
  | ⟨.submit .., _, _, _⟩ => inferInstanceAs (Decidable True)

section UserRuns

variable {env : Env} {auth : AuthUserWithWallet} {w w' : World} {exchanges : List Exchange}

/-- What a single request can grant. -/
theorem UserRequest.granted {request : UserRequest} {steps : List BackendStep}
    {response : UserResponse} (h : Runs perform (request.handle env auth) w steps response w')
    (hcounted : UsesCounted auth.userId steps) :
    ∃ draftId, Granted auth.userId draftId (asI32 env.config.platformFeeFreeTier) w steps := by
  cases request with
  | create req =>
      have hissues : (UserRequest.handle env auth (.create req)).Issues fun op =>
        op.grants = false :=
        Program.issues_bind (createAgreement_grantFree ..) fun _ => trivial
      exact ⟨0, .nothing (grantFree_of_issues hissues h _)⟩
  | initiate draftId req =>
      obtain ⟨r, w₁, first, second, rfl, hruns, rfl, -, rfl⟩ := runs_bind.mp h
      rw [List.append_nil] at hcounted ⊢
      exact ⟨draftId, initiatePayment_granted hruns hcounted⟩
  | submit draftId req =>
      have hissues : (UserRequest.handle env auth (.submit draftId req)).Issues
          fun op => op.grants = false :=
        Program.issues_bind (submitDraft_grantFree ..) fun _ => trivial
      exact ⟨0, .nothing (grantFree_of_issues hissues h _)⟩

/-- The drafts that one request marks as paid are counted, within the tier. -/
theorem Granted.bounded {userId draftId : Uuid} {tier : ℤ} {steps : List BackendStep}
    (h : Granted userId draftId tier w steps) :
    (steps.filterMap markedPaid).length = steps.countP (countsUse userId) ∧
      (steps.countP (countsUse userId) = 0 ∨
        w.db.freeUsed userId + steps.countP (countsUse userId) ≤ tier) := by
  cases h with
  | nothing hfree =>
      rw [hfree.paid, hfree.counted]
      exact ⟨rfl, Or.inl rfl⟩
  | draft hlt hpaid hcounted =>
      rw [hpaid, hcounted]
      exact ⟨rfl, Or.inr (by push_cast; omega)⟩

/-- The same for a run of requests. -/
theorem UserRun.bounded (h : UserRun env auth w exchanges w')
    (hcounted : UsesCounted auth.userId (exchanges.flatMap Exchange.steps)) :
    (freeDrafts exchanges).length =
      (exchanges.flatMap Exchange.steps).countP (countsUse auth.userId) ∧
      ((freeDrafts exchanges).length = 0 ∨
        w.db.freeUsed auth.userId + (freeDrafts exchanges).length ≤
          asI32 env.config.platformFeeFreeTier) := by
  induction h with
  | nil => exact ⟨rfl, Or.inl rfl⟩
  | @cons w w₁ w' steps response rest request hruns _ ih =>
      rw [List.flatMap_cons] at hcounted
      obtain ⟨hrest, hbound⟩ := ih hcounted.right
      obtain ⟨draftId, hgranted⟩ := UserRequest.granted hruns
        fun step hmem => hcounted step (List.mem_append_left _ hmem)
      obtain ⟨hfirst, hfirstBound⟩ := hgranted.bounded
      have hused := freeUsed_chain hruns.chain auth.userId
      have hlength : (freeDrafts (⟨request, w, steps, response⟩ :: rest)).length =
          (steps.filterMap markedPaid).length + (freeDrafts rest).length := by
        simp [freeDrafts]
      rw [hlength, List.flatMap_cons, List.countP_append]
      refine ⟨by rw [hfirst, hrest], ?_⟩
      push_cast
      omega

theorem UserRun.not_submitted (h : UserRun env auth w exchanges w')
    (hindirect : ∀ exchange ∈ exchanges, exchange.Indirect env auth) :
    exchanges.countP Exchange.submitted = 0 := by
  induction h with
  | nil => rfl
  | @cons w w₁ w' steps response rest request hruns _ ih =>
      obtain ⟨hfirst, hrest⟩ := List.forall_mem_cons.mp hindirect
      rw [List.countP_cons_of_neg, ih hrest]
      intro hsubmitted
      unfold Exchange.submitted at hsubmitted
      split at hsubmitted
      · rename_i transaction agreementPda hresponse
        obtain rfl : response = .create (.ok (.submitted transaction agreementPda)) := hresponse
        cases request with
        | create req =>
            obtain ⟨r, w₂, first, second, -, hcreate, -, hr, -⟩ := runs_bind.mp hruns
            rw [UserResponse.create.injEq] at hr
            exact createAgreement_not_submitted hfirst _ _ _ hcreate _ _ hr.symm
        | initiate draftId req =>
            obtain ⟨r, w₂, first, second, -, -, -, hr, -⟩ := runs_bind.mp hruns
            cases hr
        | submit draftId req =>
            obtain ⟨r, w₂, first, second, -, -, -, hr, -⟩ := runs_bind.mp hruns
            cases hr
      · cases hsubmitted

theorem asI32_le (n : UInt32) : asI32 n ≤ n.toNat := by
  have hbits : asI32 n = n.toBitVec.toInt := rfl
  rw [hbits, BitVec.toInt_eq_toNat_cond]
  have hnat : n.toBitVec.toNat = n.toNat := rfl
  split <;> omega

/-- **Free tier.**  In every run of requests of one user, one after the other, in which the counting
statement does not fail, the agreements obtained for free stay within the tier, if no agreement is
created whose parties all have a wallet while the creator is within the tier. -/
theorem free_uses_bounded (hrun : UserRun env auth w exchanges w')
    (hstart : 0 ≤ w.db.freeUsed auth.userId)
    (hcounted : UsesCounted auth.userId (exchanges.flatMap Exchange.steps))
    (hindirect : ∀ exchange ∈ exchanges, exchange.Indirect env auth) :
    freeUses exchanges ≤ env.config.platformFeeFreeTier.toNat := by
  obtain ⟨-, hbound⟩ := hrun.bounded hcounted
  have htier := asI32_le env.config.platformFeeFreeTier
  have hdistinct : (freeDrafts exchanges).dedup.length ≤ (freeDrafts exchanges).length :=
    (List.dedup_sublist _).length_le
  rw [freeUses, hrun.not_submitted hindirect]
  omega

end UserRuns

/-! ## Two agreements submitted directly -/

/-- The step is a failed statement or remote call. -/
def failed : BackendStep → Bool
  | ⟨_, .sql _, .error _, _⟩ => true
  | ⟨_, .encrypt .., .error _, _⟩ => true
  | ⟨_, .rentExemption _, .error _, _⟩ => true
  | ⟨_, .latestBlockhash, .error _, _⟩ => true
  | ⟨_, .vaultSign .., .error _, _⟩ => true
  | _ => false

/-- Handle requests one after the other in the cooperative environment. -/
def handleAll (env : Env) (auth : AuthUserWithWallet) :
    List UserRequest → World → Option (List Exchange × World)
  | [], w => some ([], w)
  | request :: rest, w =>
      match interpret perform (cooperate 0) (request.handle env auth) w with
      | none => none
      | some (steps, response, w₁) => (handleAll env auth rest w₁).map fun result =>
          (⟨request, w, steps, response⟩ :: result.1, result.2)

theorem userRun_of_handleAll {env : Env} {auth : AuthUserWithWallet} {requests : List UserRequest}
    {w w' : World} {exchanges : List Exchange}
    (h : handleAll env auth requests w = some (exchanges, w')) :
    UserRun env auth w exchanges w' := by
  induction requests generalizing w exchanges with
  | nil =>
      simp only [handleAll, Option.some.injEq, Prod.mk.injEq] at h
      obtain ⟨rfl, rfl⟩ := h
      exact .nil w
  | cons request rest ih =>
      simp only [handleAll] at h
      split at h
      · cases h
      · rename_i steps response w₁ hfirst
        obtain ⟨⟨exchanges, w₂⟩, hrest, heq⟩ := Option.map_eq_some_iff.mp h
        rw [Prod.mk.injEq] at heq
        obtain ⟨rfl, rfl⟩ := heq
        exact .cons request (interpret_runs hfirst) (ih hrest)

theorem userRun_of_handle (env : Env) (auth : AuthUserWithWallet) (requests : List UserRequest)
    (w : World) (test : List Exchange → Bool)
    (h : (handleAll env auth requests w).any (fun result => test result.1) = true) :
    ∃ exchanges w', UserRun env auth w exchanges w' ∧ test exchanges = true := by
  obtain ⟨⟨exchanges, w'⟩, hhandle, htest⟩ := (Option.any_eq_true _ _).mp h
  exact ⟨exchanges, w', userRun_of_handleAll hhandle, htest⟩

/-- Bob creates a draft and has it granted; the next agreement is not free any more. -/
theorem free_uses_bounded_one_draft :
    ∃ exchanges w', UserRun sampleEnv bob (World.ofDb accountsDb) exchanges w' ∧
      freeDrafts exchanges = [firstDraft] ∧
      freeUses exchanges ≤ sampleEnv.config.platformFeeFreeTier.toNat := by
  obtain ⟨exchanges, w', hrun, htest⟩ := userRun_of_handle sampleEnv bob
    [.create (requestFor [.email "alice@pactum"]), .initiate firstDraft ⟨"usdc"⟩,
      .create (requestFor [.pubkey aliceKey])]
    (World.ofDb accountsDb)
    (fun exchanges => freeDrafts exchanges = [firstDraft] ∧
      (∀ step ∈ exchanges.flatMap Exchange.steps, failsToCount bob.userId step = false) ∧
      ∀ exchange ∈ exchanges, exchange.Indirect sampleEnv bob)
    (by decide +kernel)
  obtain ⟨hdrafts, hcounted, hindirect⟩ := of_decide_eq_true htest
  exact ⟨exchanges, w', hrun, hdrafts, free_uses_bounded hrun (by decide) hcounted hindirect⟩

theorem direct_agreements_not_counted :
    ¬ ∀ (env : Env) (auth : AuthUserWithWallet) (w w' : World) (exchanges : List Exchange),
      UserRun env auth w exchanges w' → 0 ≤ w.db.freeUsed auth.userId →
      (∀ exchange ∈ exchanges, ∀ step ∈ exchange.steps, failed step = false) →
        freeUses exchanges ≤ env.config.platformFeeFreeTier.toNat := by
  intro hclaim
  obtain ⟨exchanges, w', hrun, htest⟩ := userRun_of_handle sampleEnv bob
    [.create (requestFor [.pubkey aliceKey]), .create (requestFor [.pubkey aliceKey])]
    (World.ofDb accountsDb)
    (fun exchanges => exchanges.countP Exchange.submitted = 2 &&
      exchanges.all fun exchange => exchange.steps.all fun step => !failed step)
    (by decide +kernel)
  simp only [Bool.and_eq_true, List.all_eq_true, Bool.not_eq_true'] at htest
  have hbound := hclaim sampleEnv bob _ w' exchanges hrun (by decide) htest.2
  have htwo := of_decide_eq_true htest.1
  have htier : sampleEnv.config.platformFeeFreeTier.toNat = 1 := rfl
  rw [freeUses, htwo, htier] at hbound
  omega

end PactumCodex
