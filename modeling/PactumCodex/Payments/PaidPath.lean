import PactumCodex.Payments.FreeTier
import PactumCodex.Payments.Rows

/-!
# Requesting a payment

When the free tier is used up, `initiate_payment` records a payment and returns
what the user has to transfer.  Its `INSERT` names two columns that no
migration declares, and leaves out two that may not be null: PostgreSQL rejects
it on every input, so the request ends with an error and no row is added.

Any statement may also fail because the connection is lost, and a request that
fails for this reason says nothing about the code.  So the result has two parts:
in every run the request records nothing, and there are runs without a lost
connection that end this way (`Connected`); in those the `INSERT` was rejected.
-/

namespace PactumCodex

open Interaction Relational

/-- The call returns `Pending`, and has added one pending payment of the draft with the
reference, mint and amount of the response. -/
def RecordsPayment (draftId : Uuid) (r : Except AppError InitiatePaymentResponse) (w w' : World) :
    Prop :=
  ∃ method tokenMint treasuryAta amountUnits referencePubkey solanaPayUrl row,
    r = .ok (.pending method tokenMint treasuryAta amountUnits referencePubkey solanaPayUrl) ∧
      w'.db.payments.rows.Perm (row :: w.db.payments.rows) ∧
      row.draftId = draftId ∧ row.status = .pending ∧
      row.tokenReferencePubkey = some referencePubkey ∧ row.tokenMint = some tokenMint ∧
      row.tokenAmount = some amountUnits

/-- The statement fails although it could have succeeded: the connection is lost. -/
def ConnectionFails (step : BackendStep) : Prop :=
  ∃ s : Stmt, step = ⟨step.pre, .sql s, .error .failed, step.post⟩ ∧
    ∃ out w', performSql s out step.pre = some w'

section PaidPath

variable {env : Env} {auth : AuthUserWithWallet} {draftId : Uuid} {req : InitiatePaymentRequest}
variable {w w' : World} {steps : List BackendStep} {r : Except AppError InitiatePaymentResponse}

/-- The `INSERT` of `initiate_payment` cannot succeed. -/
theorem performSql_insert {id draftId : Uuid}
    {method creatorPubkey tokenMint reference ata : String}
    {tokenAmount : Int64} {now : ℤ} {w : World} :
    performSql (.payment (.insert id draftId method creatorPubkey tokenMint tokenAmount reference
      ata now)) () w = none := by
  simp [performSql, Stmt.exec, PaymentStmt.exec, insert_rejected]

/-- Identifiers and clock readings leave the database as it is. -/
theorem db_of_ask {op : Op} {answer : op.Ans}
    (hop : op = .newReference ∨ op = .newUuid ∨ op = .dbNow)
    (h : perform op answer w = some w') : w'.db = w.db := by
  rcases hop with rfl | rfl | rfl
  · rw [← Option.some.inj h]
  · rw [(provided_eq_some.mp h).2]
  · rw [(provided_eq_some.mp h).2]

theorem creatorOf_returns {found : Option String}
    (h : performSql (.draft (.creatorOf draftId)) found w = some w') :
    found = (w.db.draft? draftId).map Draft.creatorPubkey := by
  obtain ⟨-, -, db, hexec, -⟩ := performSql_eq_some.mp h
  obtain ⟨drafts, hexec, -⟩ := Option.map_eq_some_iff.mp hexec
  exact (provided_eq_some.mp hexec).1

theorem requestPayment_fails (hmethod : (env.config.stablecoinRegistry.resolve req.method).isSome) :
    Ensures perform (requestPayment env auth draftId req).run w fun r w' =>
      r = .error .internalError ∧ w'.db = w.db := by
  obtain ⟨token, htoken⟩ := Option.isSome_iff_exists.mp hmethod
  unfold requestPayment
  rw [htoken]
  refine ensures_ask_bind fun reference w₁ hreference => ?_
  refine ensures_ask_bind fun id w₂ hid => ?_
  refine ensures_ask_bind fun now w₃ hnow => ?_
  have hdb : w₃.db = w.db := by
    rw [db_of_ask (.inr (.inr rfl)) hnow, db_of_ask (.inr (.inl rfl)) hid,
      db_of_ask (.inl rfl) hreference]
  refine ensures_query_bind (fun _ w₄ hinsert => ?_) ⟨rfl, hdb⟩
  -- the statement is rejected
  rw [performSql_insert] at hinsert
  cases hinsert

variable {draft : Draft}

theorem initiatePayment_fails (hdraft : w.db.draft? draftId = some draft)
    (hcreator : draft.creatorPubkey = auth.pubkey)
    (hexhausted : asI32 env.config.platformFeeFreeTier ≤ w.db.freeUsed auth.userId)
    (hmethod : (env.config.stablecoinRegistry.resolve req.method).isSome) :
    Ensures perform (initiatePayment env auth draftId req).run w fun r w' =>
      r = .error .internalError ∧ w'.db = w.db := by
  unfold initiatePayment
  refine ensures_query_bind (fun found w₁ hfound => ?_) ⟨rfl, rfl⟩
  have hname := creatorOf_returns hfound
  obtain rfl := world_of_select rfl hfound
  rw [hdraft, Option.map_some, hcreator] at hname
  rw [hname]
  show Ensures perform (Handler.ensure (auth.pubkey = auth.pubkey) _ >>= _).run _ _
  rw [Handler.ensure, if_pos rfl]
  refine ensures_query_bind (fun used w₂ hused => ?_) ⟨rfl, rfl⟩
  have hfull : ¬ used.getD 0 < asI32 env.config.platformFeeFreeTier := by
    rw [freeUsed_of_query hused]
    omega
  obtain rfl := world_of_select rfl hused
  rw [if_neg hfull]
  exact requestPayment_fails hmethod

end PaidPath

/-! ## Runs without a lost connection -/

/-- Some run in which the connection holds ends so. -/
def Connected {α : Type} (x : Handler α) (w : World) (r : Except AppError α) (w' : World) : Prop :=
  ∃ steps, Runs perform x.run w steps r w' ∧ ∀ step ∈ steps, ¬ ConnectionFails step

section Connected

variable {α β : Type} {w w₁ w' : World}

theorem connected_pure {a : α} : Connected (pure a) w (.ok a) w :=
  ⟨[], ⟨rfl, rfl, rfl⟩, by simp⟩

theorem connected_bind {x : Handler α} {f : α → Handler β} {a : α} {r : Except AppError β}
    (hx : Connected x w (.ok a) w₁) (hf : Connected (f a) w₁ r w') :
    Connected (x >>= f) w r w' := by
  obtain ⟨first, hfirst, hconnected⟩ := hx
  obtain ⟨second, hsecond, hconnected'⟩ := hf
  refine ⟨first ++ second, ?_, ?_⟩
  · rw [run_bind_eq]
    exact runs_bind.mpr ⟨.ok a, w₁, first, second, rfl, hfirst, hsecond⟩
  · intro step hstep
    exact (List.mem_append.mp hstep).elim (hconnected step) (hconnected' step)

theorem connected_bind_error {x : Handler α} {f : α → Handler β} {e : AppError}
    (hx : Connected x w (.error e) w') : Connected (x >>= f) w (.error e) w' := by
  obtain ⟨steps, hrun, hconnected⟩ := hx
  exact ⟨steps, runs_bind_error.mpr (.inl hrun), hconnected⟩

theorem connected_ask {op : Op} {answer : op.Ans} (hop : ∀ s, op ≠ .sql s)
    (h : perform op answer w = some w') : Connected (Handler.ask op) w (.ok answer) w' := by
  refine ⟨_, runs_ask_ok.mpr ⟨h, rfl⟩, ?_⟩
  intro step hstep
  rw [List.mem_singleton.mp hstep]
  rintro ⟨s, hstep, -⟩
  exact hop s (congrArg Step.op hstep)

theorem connected_query {s : Stmt} {out : s.Out} (h : performSql s out w = some w') :
    Connected (Handler.query s) w (.ok out) w' := by
  refine ⟨_, runs_query_ok.mpr ⟨h, rfl⟩, ?_⟩
  intro step hstep
  rw [List.mem_singleton.mp hstep]
  rintro ⟨s', hstep, -⟩
  simp only [Step.mk.injEq, Op.sql.injEq] at hstep
  obtain ⟨-, rfl, hans, -⟩ := hstep
  cases eq_of_heq hans

/-- A statement that no result satisfies fails on a working connection. -/
theorem connected_rejected {s : Stmt} (h : ∀ out, performSql s out w = none) :
    Connected (Handler.query s) w (.error .internalError) w := by
  refine ⟨_, runs_query_error.mpr ⟨rfl, rfl, rfl⟩, ?_⟩
  intro step hstep
  rw [List.mem_singleton.mp hstep]
  rintro ⟨s', hstep, out, w', hperform⟩
  simp only [Step.mk.injEq, Op.sql.injEq] at hstep
  obtain ⟨-, rfl, -, -⟩ := hstep
  rw [h out] at hperform
  cases hperform

end Connected

section PaidPath

variable {env : Env} {auth : AuthUserWithWallet} {draftId : Uuid} {req : InitiatePaymentRequest}
variable {w : World} {draft : Draft} {id : Uuid}

theorem requestPayment_connected (hfresh : id ∉ w.uuids)
    (hmethod : (env.config.stablecoinRegistry.resolve req.method).isSome) :
    ∃ w', Connected (requestPayment env auth draftId req) w (.error .internalError) w' := by
  obtain ⟨token, htoken⟩ := Option.isSome_iff_exists.mp hmethod
  have hreference : perform .newReference "" w = some w := rfl
  have hid : perform .newUuid id w = some { w with uuids := id :: w.uuids } :=
    provided_eq_some.mpr ⟨hfresh, rfl⟩
  have hnow : perform .dbNow w.clock { w with uuids := id :: w.uuids } =
      some { w with uuids := id :: w.uuids } := provided_eq_some.mpr ⟨le_refl _, rfl⟩
  refine ⟨{ w with uuids := id :: w.uuids }, ?_⟩
  unfold requestPayment
  rw [htoken]
  refine connected_bind connected_pure ?_
  refine connected_bind (connected_ask (by simp) hreference) ?_
  refine connected_bind (connected_ask (by simp) hid) ?_
  refine connected_bind (connected_ask (by simp) hnow) ?_
  exact connected_bind_error (connected_rejected fun _ => performSql_insert)

theorem initiatePayment_connected (hdraft : w.db.draft? draftId = some draft)
    (hcreator : draft.creatorPubkey = auth.pubkey)
    (hexhausted : asI32 env.config.platformFeeFreeTier ≤ w.db.freeUsed auth.userId)
    (hmethod : (env.config.stablecoinRegistry.resolve req.method).isSome) (hfresh : id ∉ w.uuids) :
    ∃ w', Connected (initiatePayment env auth draftId req) w (.error .internalError) w' := by
  obtain ⟨w', hrequest⟩ := @requestPayment_connected env auth draftId req w id hfresh hmethod
  have hfound : performSql (.draft (.creatorOf draftId)) (some auth.pubkey) w = some w := by
    simp [performSql, Stmt.unblocked, DraftStmt.locks, Stmt.generated, Stmt.exec, DraftStmt.exec,
      provided, hdraft, hcreator]
  have hused : performSql (.count (.freeUsed auth.userId))
      ((lookup AgreementCount.userId auth.userId w.db.counts.rows).map AgreementCount.freeUsed) w =
        some w := by
    simp [performSql, Stmt.unblocked, Stmt.generated, Stmt.exec, CountStmt.exec, provided]
  have hfull : ¬ ((lookup AgreementCount.userId auth.userId w.db.counts.rows).map
      AgreementCount.freeUsed).getD 0 < asI32 env.config.platformFeeFreeTier := by
    rw [freeUsed_of_query hused]
    omega
  refine ⟨w', ?_⟩
  unfold initiatePayment
  refine connected_bind (connected_query hfound) ?_
  refine connected_bind connected_pure ?_
  rw [Handler.ensure, if_pos rfl]
  refine connected_bind connected_pure ?_
  refine connected_bind (connected_query hused) ?_
  rw [if_neg hfull]
  exact hrequest

/-- **No payment is ever recorded.**  A user whose free tier is used up requests a payment for an
own draft with a supported method.  Every run of the request ends with an internal error and
leaves the database as it is, so none records a payment; and such a run takes place also when
the connection holds. -/
theorem payment_never_recorded (hdraft : w.db.draft? draftId = some draft)
    (hcreator : draft.creatorPubkey = auth.pubkey)
    (hexhausted : asI32 env.config.platformFeeFreeTier ≤ w.db.freeUsed auth.userId)
    (hmethod : (env.config.stablecoinRegistry.resolve req.method).isSome) :
    (∀ steps r w', Runs perform (initiatePayment env auth draftId req).run w steps r w' →
      ¬ RecordsPayment draftId r w w' ∧ r = .error .internalError ∧ w'.db = w.db) ∧
    ((∃ id, id ∉ w.uuids) → ∃ steps r w',
      Runs perform (initiatePayment env auth draftId req).run w steps r w' ∧
        ∀ step ∈ steps, ¬ ConnectionFails step) := by
  constructor
  · intro steps r w' hrun
    obtain ⟨hr, hdb⟩ := initiatePayment_fails hdraft hcreator hexhausted hmethod steps r w' hrun
    refine ⟨?_, hr, hdb⟩
    rintro ⟨method, tokenMint, ata, amount, reference, url, row, hpending, -⟩
    rw [hr] at hpending
    cases hpending
  · rintro ⟨id, hfresh⟩
    obtain ⟨w', steps, hrun, hconnected⟩ :=
      @initiatePayment_connected env auth draftId req w draft id hdraft hcreator hexhausted hmethod
        hfresh
    exact ⟨steps, _, w', hrun, hconnected⟩

end PaidPath

/-- Bob has a draft, and has used his free agreement. -/
def usedUpDb : Db :=
  { accountsDb with
    drafts := ⟨[sampleDraft], List.nodup_singleton _⟩
    counts := ⟨[⟨11, 1⟩], List.nodup_singleton _, by decide⟩ }

theorem payment_never_recorded_used_up :
    (World.ofDb usedUpDb).db.draft? 2 = some sampleDraft ∧
      ∀ steps r w', Runs perform (initiatePayment sampleEnv bob 2 ⟨"usdc"⟩).run
        (World.ofDb usedUpDb) steps r w' →
          ¬ RecordsPayment 2 r (World.ofDb usedUpDb) w' ∧ r = .error .internalError ∧
            w'.db = usedUpDb :=
  ⟨rfl, (@payment_never_recorded sampleEnv bob 2 ⟨"usdc"⟩ (World.ofDb usedUpDb) sampleDraft rfl rfl
    (by decide) (by decide)).1⟩

theorem payment_not_recorded :
    ¬ ∀ (env : Env) (auth : AuthUserWithWallet) (draftId : Uuid) (req : InitiatePaymentRequest)
        (w w' : World) (draft : Draft) (steps : List BackendStep)
        (r : Except AppError InitiatePaymentResponse),
      w.db.draft? draftId = some draft → draft.creatorPubkey = auth.pubkey →
      asI32 env.config.platformFeeFreeTier ≤ w.db.freeUsed auth.userId →
      (env.config.stablecoinRegistry.resolve req.method).isSome →
      Runs perform (initiatePayment env auth draftId req).run w steps r w' →
      (∀ step ∈ steps, ¬ ConnectionFails step) → RecordsPayment draftId r w w' := by
  intro hclaim
  obtain ⟨w', steps, hrun, hconnected⟩ :=
    @initiatePayment_connected sampleEnv bob 2 ⟨"usdc"⟩ (World.ofDb usedUpDb) sampleDraft 1 rfl rfl
      (by decide) (by decide) (by simp [World.ofDb])
  obtain ⟨method, tokenMint, ata, amount, reference, url, row, hpending, -⟩ :=
    hclaim _ _ _ _ _ _ _ _ _ rfl rfl (by decide) (by decide) hrun hconnected
  cases hpending

end PactumCodex
