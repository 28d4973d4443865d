import PactumCodex.Drafts.Submissions
import PactumCodex.Payments.PaidPath

/-!
# Requests that fail

`create_agreement`, `initiate_payment` and `submit_draft` issue their statements one
by one, each of which is committed on its own.  What a request has written before a
later call fails stays in the database.  For `submit_draft` this is meant: the
storage columns of the draft record an upload that has been paid for.

## Strategy

What a failed request leaves is determined by its steps that are not quiet, so
`FailsWith` is a property of these and of the database at the end.  Along the text of
a handler a part that only reads can be skipped (`failsWith_reads_bind`), and a
statement that writes has failed itself or is followed by a failure
(`failsWith_write_bind`).

Each of the three requests then comes down to the list of its writes.  The tables
are as they were, up to the record of the upload, exactly if the second of two
writes that belong together has not failed after the first one.
-/

namespace PactumCodex

open Interaction Relational Handlers

/-! ## Quiet operations -/

theorem quiet_of_builds {args : CreateAgreementArgs} {creator : Pubkey} {op : Op}
    (h : op.Builds args creator) : op.quiet = true := by
  cases h <;> rfl

theorem quiet_of_resolves {op : Op} (h : op.Resolves) : op.quiet = true := by
  cases h <;> rfl

theorem quiet_of_admits {op : Op} (h : op.Admits) : op.quiet = true := by
  cases h <;> rfl

/-- The program only issues quiet operations. -/
def ReadsOnly {α : Type} (x : Handler α) : Prop := x.run.Issues fun op => op.quiet = true

section ReadsOnly

variable {α : Type} {w w' : World} {steps : List BackendStep}

/-- The steps that are not quiet. -/
def loud (steps : List BackendStep) : List BackendStep := steps.filter fun step => !step.op.quiet

theorem loud_append (first second : List BackendStep) :
    loud (first ++ second) = loud first ++ loud second := List.filter_append ..

theorem loud_cons_sql {s : Stmt} {answer : Except Failure s.Out} (h : s.selects = false) :
    loud (⟨w, .sql s, answer, w'⟩ :: steps) = ⟨w, .sql s, answer, w'⟩ :: loud steps := by
  rw [loud, List.filter_cons_of_pos (by simp [Op.quiet, h])]
  rfl

theorem ReadsOnly.runs {x : Handler α} {r : Except AppError α} (hx : ReadsOnly x)
    (h : Runs perform x.run w steps r w') : loud steps = [] ∧ w'.db = w.db := by
  have hquiet := h.stops.issued hx
  constructor
  · rw [loud, List.filter_eq_nil_iff]
    intro step hstep
    simp [hquiet step hstep]
  · exact db_of_quiet_chain h.stops.chain fun step hstep => writesDb_of_quiet (hquiet step hstep)

end ReadsOnly

/-! ## How a program fails -/

/-- Whenever the program is started on the database and ends with an error, the steps that are not
quiet and the database after them satisfy the condition. -/
def FailsWith {α : Type} (x : Handler α) (db : Db) (Q : List BackendStep → Db → Prop) : Prop :=
  ∀ w steps e w', w.db = db → Runs perform x.run w steps (.error e) w' → Q (loud steps) w'.db

section FailsWith

variable {α β : Type} {db : Db} {Q : List BackendStep → Db → Prop}
variable {x : Handler α} {f : α → Handler β}

theorem FailsWith.mono {R : List BackendStep → Db → Prop} (h : FailsWith x db Q)
    (himp : ∀ steps db', Q steps db' → R steps db') : FailsWith x db R :=
  fun w steps e w' hdb hrun => himp _ _ (h w steps e w' hdb hrun)

theorem failsWith_pure {a : α} : FailsWith (pure a) db Q := by
  intro w steps e w' _ hrun
  cases hrun.2.1

theorem failsWith_reads (hx : ReadsOnly x) (h : Q [] db) : FailsWith x db Q := by
  intro w steps e w' hw hrun
  obtain ⟨hloud, hdb⟩ := hx.runs hrun
  rw [hloud, hdb, hw]
  exact h

/-- A part that only reads can be skipped. -/
theorem failsWith_reads_bind (hx : ReadsOnly x) (h : Q [] db) (hf : ∀ a, FailsWith (f a) db Q) :
    FailsWith (x >>= f) db Q := by
  intro w steps e w' hw hrun
  rcases runs_bind_error.mp hrun with hfirst | ⟨a, w₁, first, second, rfl, hfirst, hsecond⟩
  · exact failsWith_reads hx h w steps e w' hw hfirst
  · obtain ⟨hloud, hdb⟩ := hx.runs hfirst
    rw [loud_append, hloud, List.nil_append]
    exact hf a w₁ second e w' (hdb.trans hw) hsecond

/-- The same for an operation that cannot fail. -/
theorem failsWith_ask_bind {op : Op} {f : op.Ans → Handler β} (hop : op.quiet = true)
    (hf : ∀ answer, FailsWith (f answer) db Q) : FailsWith (Handler.ask op >>= f) db Q := by
  intro w steps e w' hw hrun
  rcases runs_bind_error.mp hrun with hfirst | ⟨answer, w₁, first, second, rfl, hfirst, hsecond⟩
  · exact absurd hfirst runs_ask_error
  · obtain ⟨hloud, hdb⟩ := ReadsOnly.runs (issues_ask.mpr hop) hfirst
    rw [loud_append, hloud, List.nil_append]
    exact hf answer w₁ second e w' (hdb.trans hw) hsecond

/-- A statement that writes can fail. -/
theorem failsWith_write {s : Stmt} (hs : s.selects = false)
    (herror : ∀ w, Q [⟨w, .sql s, .error .failed, w⟩] db) : FailsWith (Handler.query s) db Q := by
  intro w steps e w' hw hrun
  obtain ⟨-, rfl, rfl⟩ := runs_query_error.mp hrun
  rw [loud_cons_sql hs, hw]
  exact herror w'

/-- A statement that writes fails, or is followed by a failure. -/
theorem failsWith_write_bind {s : Stmt} {f : s.Out → Handler β} (hs : s.selects = false)
    (herror : ∀ w, Q [⟨w, .sql s, .error .failed, w⟩] db)
    (hok : ∀ out w w₁, w.db = db → performSql s out w = some w₁ →
      FailsWith (f out) w₁.db fun rest db' => Q (⟨w, .sql s, .ok out, w₁⟩ :: rest) db') :
    FailsWith (Handler.query s >>= f) db Q := by
  intro w steps e w' hw hrun
  rcases runs_bind_error.mp hrun with hfirst | ⟨out, w₁, first, second, rfl, hfirst, hsecond⟩
  · exact failsWith_write hs herror w steps e w' hw hfirst
  · obtain ⟨hperform, rfl⟩ := runs_query_ok.mp hfirst
    rw [List.singleton_append, loud_cons_sql hs]
    exact hok out w w₁ hw hperform w₁ second e w' rfl hsecond

/-- A last part that cannot fail does not matter. -/
theorem failsWith_bind_pure {g : α → β} (h : FailsWith x db Q) :
    FailsWith (x >>= fun a => pure (g a)) db Q := by
  intro w steps e w' hw hrun
  rcases runs_bind_error.mp hrun with hfirst | ⟨a, w₁, first, second, rfl, hfirst, hsecond⟩
  · exact h w steps e w' hw hfirst
  · cases hsecond.2.1

end FailsWith

/-! ## The three requests -/

/-- A request to one of the three handlers. -/
inductive DraftCall : Type
  | create (req : CreateAgreementRequest)
  | pay (draftId : Uuid) (req : InitiatePaymentRequest)
  | submit (draftId : Uuid) (req : SubmitDraftRequest)

/-- The request ends with an error. -/
def DraftCall.Fails (env : Env) (auth : AuthUserWithWallet) (call : DraftCall) (w : World)
    (steps : List BackendStep) (w' : World) : Prop :=
  match call with
  | create req => ∃ e, Runs perform (createAgreement env auth req).run w steps (.error e) w'
  | pay draftId req =>
      ∃ e, Runs perform (initiatePayment env auth draftId req).run w steps (.error e) w'
  | submit draftId req =>
      ∃ e, Runs perform (submitDraft env auth draftId req).run w steps (.error e) w'

/-- The tables the requests write, but for the drafts, are the same, and the drafts are the given
ones. -/
structure TablesKept (drafts : List Draft) (db db' : Db) : Prop where
  drafts : db'.drafts.rows = drafts
  invitations : db'.invitations = db.invitations
  counts : db'.counts = db.counts
  payments : db'.payments = db.payments

/-- The tables the requests write are the same. -/
def SameDraftTables (db db' : Db) : Prop := TablesKept db.drafts.rows db db'

theorem sameDraftTables_refl (db : Db) : SameDraftTables db db := ⟨rfl, rfl, rfl, rfl⟩

/-- The second of two writes that belong together fails: of the draft and its invitations, of the
draft's `paid` and the counter, of the address on the draft and on the payment. -/
def failsHalfWay : BackendStep → Bool
  | ⟨_, .sql (.invitation (.insert ..)), .error _, _⟩ => true
  | ⟨_, .sql (.count (.bump _)), .error _, _⟩ => true
  | ⟨_, .sql (.payment (.setAgreementPda ..)), .error _, _⟩ => true
  | _ => false

/-- `submit_draft` records the upload. -/
def recordsUpload : BackendStep → Bool
  | ⟨_, .sql (.draft (.setStorage ..)), .ok _, _⟩ => true
  | _ => false

/-- The drafts after the upload is recorded. -/
def withUpload (storageUri : String) (draftId : Uuid) (drafts : List Draft) : List Draft :=
  updateWhere (·.id = draftId) ({ · with storageUri := some storageUri, storageUploaded := true })
    drafts

/-- The drafts that the request is meant to leave when it fails: `submit_draft` keeps the record
of the upload. -/
def DraftCall.kept (call : DraftCall) (steps : List BackendStep) (drafts : List Draft) :
    List Draft :=
  match call with
  | submit draftId req =>
      if steps.any recordsUpload then withUpload req.storageUri draftId drafts else drafts
  | _ => drafts

/-- A request has left the tables as they were, up to what it keeps: judged by its steps that are
not quiet, and only if no write among them fails half-way. -/
def DraftCall.Tidy (call : DraftCall) (db : Db) (steps : List BackendStep) (db' : Db) : Prop :=
  (∀ step ∈ steps, failsHalfWay step = false) → TablesKept (call.kept steps db.drafts.rows) db db'

/-- Nothing is written before the first loud step. -/
theorem tidy_nil (call : DraftCall) (db : Db) : call.Tidy db [] db := by
  intro _
  cases call <;> exact sameDraftTables_refl db

theorem recordsUpload_failed {s : Stmt} {w w' : World} :
    recordsUpload ⟨w, .sql s, .error .failed, w'⟩ = false := by
  cases s with
  | draft s => cases s <;> rfl
  | _ => rfl

/-- A write that fails leaves the tables as they are. -/
theorem tidy_failed (call : DraftCall) (db : Db) {s : Stmt} (w : World) :
    call.Tidy db [⟨w, .sql s, .error .failed, w⟩] db := by
  intro _
  cases call with
  | submit draftId req =>
      rw [DraftCall.kept, List.any_cons, recordsUpload_failed]
      exact sameDraftTables_refl db
  | _ => exact sameDraftTables_refl db

/-- A run with a write that fails half-way is tidy, whatever it leaves. -/
theorem tidy_halfWay {call : DraftCall} {db db' : Db} {steps : List BackendStep}
    (h : ∃ step ∈ steps, failsHalfWay step = true) : call.Tidy db steps db' := by
  intro hwhole
  obtain ⟨step, hstep, hhalf⟩ := h
  rw [hwhole step hstep] at hhalf
  cases hhalf

/-! ### Parts -/

section Parts

variable {env : Env} {auth : AuthUserWithWallet} {db : Db}

/-- Storing the invitations only fails at an `INSERT`. -/
theorem insertInvitations_failsWith (draftId : Uuid) (rows : List InvitationInsertRow) :
    FailsWith (insertInvitations draftId rows) db fun steps _ =>
      ∃ step ∈ steps, failsHalfWay step = true := by
  induction rows generalizing db with
  | nil => exact failsWith_pure
  | cons invite rest ih =>
      refine failsWith_ask_bind rfl fun now => ?_
      refine failsWith_write_bind rfl (fun w => ⟨_, List.mem_singleton_self _, rfl⟩) ?_
      intro _ w w₁ _ _
      refine ih.mono fun steps _ ⟨step, hstep, hhalf⟩ => ?_
      exact ⟨step, List.mem_cons_of_mem _ hstep, hhalf⟩

theorem admitSubmission_reads (draftId : Uuid) (req : SubmitDraftRequest) :
    ReadsOnly (admitSubmission auth draftId req) :=
  (admitSubmission_issues ..).mono fun _ h => quiet_of_admits h

theorem buildCreateAgreementTx_reads (args : CreateAgreementArgs) (creator : Pubkey) :
    ReadsOnly (buildCreateAgreementTx args creator) :=
  (buildCreateAgreementTx_issues args creator).mono fun _ h => quiet_of_builds h

theorem resolveParties_reads (key indexKey : Bytes 32) (invitedAt expiresAt : ℤ)
    (parties : List PartyInput) (scan : PartyScan) :
    ReadsOnly (resolveParties env key indexKey invitedAt expiresAt parties scan) :=
  (resolveParties_issues ..).mono fun _ h => quiet_of_resolves h

theorem submitDirectly_reads (req : CreateAgreementRequest)
    (slots : List Agreement.DraftPartyEntry) :
    ReadsOnly (submitDirectly env auth req slots) := by
  unfold ReadsOnly submitDirectly
  refine issues_run_bind issues_okOr fun _ => ?_
  refine issues_run_bind (issues_ask.mpr rfl) fun _ => ?_
  exact issues_run_bind (buildCreateAgreementTx_reads ..) fun _ => trivial

end Parts

/-! ### Requests -/

section Requests

variable {env : Env} {auth : AuthUserWithWallet} {db : Db}

theorem createAgreement_failsWith (req : CreateAgreementRequest) :
    FailsWith (createAgreement env auth req) db ((DraftCall.create req).Tidy db) := by
  have hnil := tidy_nil (.create req) db
  unfold createAgreement
  refine failsWith_reads_bind issues_ofExcept hnil fun _ => ?_
  refine failsWith_reads_bind issues_ofExcept hnil fun key => ?_
  refine failsWith_reads_bind issues_ofExcept hnil fun indexKey => ?_
  refine failsWith_reads_bind (issues_query.mpr rfl) hnil fun freeUsed => ?_
  refine failsWith_ask_bind rfl fun invitedAt => ?_
  refine failsWith_reads_bind issues_okOr hnil fun expiry => ?_
  refine failsWith_reads_bind (resolveParties_reads ..) hnil fun scan => ?_
  split
  · exact failsWith_reads (submitDirectly_reads ..) hnil
  · refine failsWith_write_bind rfl (tidy_failed _ db) fun draftId w w₁ _ _ => ?_
    refine failsWith_bind_pure (FailsWith.mono (insertInvitations_failsWith draftId _) ?_)
    intro steps db' ⟨step, hstep, hhalf⟩
    exact tidy_halfWay ⟨step, List.mem_cons_of_mem _ hstep, hhalf⟩

theorem initiatePayment_failsWith (draftId : Uuid) (req : InitiatePaymentRequest) :
    FailsWith (initiatePayment env auth draftId req) db ((DraftCall.pay draftId req).Tidy db) := by
  have hnil := tidy_nil (.pay draftId req) db
  unfold initiatePayment
  refine failsWith_reads_bind (issues_query.mpr rfl) hnil fun found => ?_
  refine failsWith_reads_bind issues_okOr hnil fun creator => ?_
  refine failsWith_reads_bind issues_ensure hnil fun _ => ?_
  refine failsWith_reads_bind (issues_query.mpr rfl) hnil fun freeUsed => ?_
  split
  · refine failsWith_write_bind rfl (tidy_failed _ db) fun _ w w₁ _ _ => ?_
    refine failsWith_write_bind rfl (fun w₂ => ?_) fun _ w₂ w₃ _ _ => failsWith_pure
    exact tidy_halfWay ⟨_, List.mem_cons_of_mem _ (List.mem_singleton_self _), rfl⟩
  · refine failsWith_reads_bind issues_okOr hnil fun token => ?_
    refine failsWith_ask_bind rfl fun reference => ?_
    refine failsWith_ask_bind rfl fun id => ?_
    refine failsWith_ask_bind rfl fun now => ?_
    refine failsWith_write_bind rfl (tidy_failed _ db) fun _ w w₁ _ hinsert => ?_
    rw [performSql_insert] at hinsert
    cases hinsert

/-- The storage `UPDATE` writes nothing else. -/
theorem tablesKept_of_setStorage {storageUri : String} {draftId : Uuid} {w w₁ : World}
    (h : performSql (.draft (.setStorage storageUri draftId)) () w = some w₁) :
    TablesKept (withUpload storageUri draftId w.db.drafts.rows) w.db w₁.db := by
  obtain ⟨-, -, db, hexec, rfl⟩ := performSql_eq_some.mp h
  obtain ⟨drafts, hcommit, rfl⟩ := Option.map_eq_some_iff.mp hexec
  exact ⟨rows_of_commit hcommit, rfl, rfl, rfl⟩

theorem submitDraft_failsWith (draftId : Uuid) (req : SubmitDraftRequest) :
    FailsWith (submitDraft env auth draftId req) db ((DraftCall.submit draftId req).Tidy db) := by
  have hnil := tidy_nil (.submit draftId req) db
  unfold submitDraft
  refine failsWith_reads_bind (admitSubmission_reads ..) hnil fun ⟨storageBackend, draft⟩ => ?_
  refine failsWith_write_bind rfl (tidy_failed _ db) fun _ w w₁ hw hperform => ?_
  -- from here on the upload is on record
  have hrecorded : (DraftCall.submit draftId req).Tidy db
      [⟨w, .sql (.draft (.setStorage req.storageUri draftId)), .ok (), w₁⟩] w₁.db := by
    intro _
    rw [← hw]
    exact tablesKept_of_setStorage hperform
  refine failsWith_reads_bind issues_okOr hrecorded fun payload => ?_
  refine failsWith_reads_bind issues_okOr hrecorded fun creatorPubkey => ?_
  refine failsWith_ask_bind rfl fun agreementId => ?_
  refine failsWith_reads_bind issues_okOr hrecorded fun contentHash => ?_
  refine failsWith_reads_bind (buildCreateAgreementTx_reads ..) hrecorded fun transaction => ?_
  refine failsWith_bind_pure (failsWith_write_bind rfl (fun w₂ _ => ?_) fun _ w₂ w₃ _ _ => ?_)
  · exact hrecorded fun step hstep => by
      rw [List.mem_singleton.mp hstep]
      rfl
  · refine failsWith_write rfl fun w₄ => ?_
    exact tidy_halfWay ⟨_, List.mem_cons_of_mem _
      (List.mem_cons_of_mem _ (List.mem_singleton_self _)), rfl⟩

end Requests

/-! ## Failed requests -/

theorem not_quiet_of_recordsUpload {step : BackendStep} (h : recordsUpload step = true) :
    step.op.quiet = false := by
  unfold recordsUpload at h
  split at h <;> first | rfl | cases h

/-- The record of the upload is a loud step. -/
theorem kept_loud (call : DraftCall) (steps : List BackendStep) (drafts : List Draft) :
    call.kept (loud steps) drafts = call.kept steps drafts := by
  have hany : (loud steps).any recordsUpload = steps.any recordsUpload := by
    rw [loud, List.any_filter]
    congr 1
    funext step
    cases hrecords : recordsUpload step with
    | false => simp
    | true => simp [not_quiet_of_recordsUpload hrecords]
  cases call with
  | submit draftId req => rw [DraftCall.kept, DraftCall.kept, hany]
  | _ => rfl

/-- A request that fails leaves the tables as they were, unless the second of two writes that
belong together fails; `submit_draft` keeps the record of the upload. -/
theorem failed_request_leaves_tables {env : Env} {auth : AuthUserWithWallet} {call : DraftCall}
    {w w' : World} {steps : List BackendStep} (hfails : call.Fails env auth w steps w')
    (hwhole : ∀ step ∈ steps, failsHalfWay step = false) :
    TablesKept (call.kept steps w.db.drafts.rows) w.db w'.db := by
  have htidy : call.Tidy w.db (loud steps) w'.db := by
    cases call with
    | create req =>
        obtain ⟨e, hrun⟩ := hfails
        exact createAgreement_failsWith req w steps e w' rfl hrun
    | pay draftId req =>
        obtain ⟨e, hrun⟩ := hfails
        exact initiatePayment_failsWith draftId req w steps e w' rfl hrun
    | submit draftId req =>
        obtain ⟨e, hrun⟩ := hfails
        exact submitDraft_failsWith draftId req w steps e w' rfl hrun
  rw [← kept_loud]
  exact htidy fun step hstep => hwhole step (List.mem_of_mem_filter hstep)

/-! ### Examples -/

/-- A draft of Bob's that can be submitted, without an upload. -/
def notUploadedDb : Db :=
  { accountsDb with
    drafts := ⟨[{ sampleDraft with
      draftPayload := (Agreement.DraftPayload.mk "Agreement" 1000 [⟨some aliceKey, none⟩]).toValue
      storageUri := none, storageUploaded := false, agreementPda := none }], by decide⟩ }

/-- A draft of Bob's that has not been paid. -/
def unpaidDraftDb : Db :=
  { accountsDb with drafts := ⟨[{ sampleDraft with paid := false }], by decide⟩ }

/-- The second of two writes fails, and the RPC node may be down. -/
def losing (rpc : Bool) : (op : Op) → World → op.Ans
  | .sql (.invitation (.insert ..)), _ => .error .failed
  | .sql (.count (.bump _)), _ => .error .failed
  | .sql (.payment (.setAgreementPda ..)), _ => .error .failed
  | .latestBlockhash, _ => if rpc then .ok "blockhash" else .error .failed
  | op, w => cooperate 0 op w

/-- A request that fails and leaves a changed draft. -/
theorem changed_of_interpret {α : Type} {x : Handler α} (db : Db)
    (answer : (op : Op) → World → op.Ans)
    (h : (interpret perform answer x.run (World.ofDb db)).any
      (fun result => !result.2.1.isOk && decide (result.2.2.db.drafts.rows ≠ db.drafts.rows)) =
        true) :
    ∃ steps w', (∃ e, Runs perform x.run (World.ofDb db) steps (.error e) w') ∧
      ¬ SameDraftTables db w'.db := by
  obtain ⟨steps, e, w', hrun, htest⟩ := error_of_interpret (World.ofDb db) answer
    (fun _ w' => decide (w'.db.drafts.rows ≠ db.drafts.rows)) h
  exact ⟨steps, w', ⟨e, hrun⟩, fun hsame => of_decide_eq_true htest hsame.drafts⟩

/-- The RPC node is down when Bob submits. -/
theorem failed_submission_leaves_upload :
    ∃ steps w', (DraftCall.submit 2 sampleSubmission).Fails sampleEnv bob
        (World.ofDb notUploadedDb) steps w' ∧ steps.any recordsUpload = true ∧
      TablesKept ((DraftCall.submit 2 sampleSubmission).kept steps notUploadedDb.drafts.rows)
        notUploadedDb w'.db := by
  obtain ⟨steps, e, w', hrun, htest⟩ := @error_of_interpret _
    (submitDraft sampleEnv bob 2 sampleSubmission) (World.ofDb notUploadedDb) (losing false)
    (fun steps _ => steps.any recordsUpload && steps.all fun step => !failsHalfWay step)
    (by decide +kernel)
  have hcall : (DraftCall.submit 2 sampleSubmission).Fails sampleEnv bob (World.ofDb notUploadedDb)
      steps w' := ⟨e, hrun⟩
  rw [Bool.and_eq_true, List.all_eq_true] at htest
  refine ⟨steps, w', hcall, htest.1, failed_request_leaves_tables hcall fun step hstep => ?_⟩
  simpa using htest.2 step hstep

/-- Each of the requests can fail and leave a changed draft. -/
theorem failed_requests_leave_writes :
    (∃ steps w', (DraftCall.create (requestFor [.email "alice@pactum"])).Fails sampleEnv bob
      (World.ofDb accountsDb) steps w' ∧ ¬ SameDraftTables accountsDb w'.db) ∧
    (∃ steps w', (DraftCall.pay 2 ⟨"usdc"⟩).Fails sampleEnv bob
      (World.ofDb unpaidDraftDb) steps w' ∧
      ¬ SameDraftTables unpaidDraftDb w'.db) ∧
    (∃ steps w', (DraftCall.submit 2 sampleSubmission).Fails sampleEnv bob
      (World.ofDb notUploadedDb) steps w' ∧ ¬ SameDraftTables notUploadedDb w'.db) ∧
    ∃ steps w', (DraftCall.submit 2 sampleSubmission).Fails sampleEnv bob
      (World.ofDb paidDraftDb) steps w' ∧ ¬ SameDraftTables paidDraftDb w'.db :=
  ⟨changed_of_interpret _ (losing true) (by decide +kernel),
    changed_of_interpret _ (losing true) (by decide +kernel),
    changed_of_interpret _ (losing false) (by decide +kernel),
    changed_of_interpret _ (losing true) (by decide +kernel)⟩

end PactumCodex
