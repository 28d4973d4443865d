import PactumCodex.Audit
import PactumCodex.Drafts.InvitationLifecycle
import PactumCodex.Drafts.SlotLifecycle
import PactumCodex.Payments.PaidPath

/-!
# Who changes a draft

A request that changes a draft first reads its creator and compares it with the
wallet of the caller; the statement that changes the draft comes later, after
any number of statements of other requests.  `drafts_changed_by_entitled`: in
every interleaving a stored draft is changed for its creator only, or by the
transaction of an invited user who holds the token of a pending invitation, and
that transaction touches the invited slot only.

## Requests

A statement is for a draft (`Op.subject`), and the caller of a request owns the
draft if it was created with a wallet of the caller (`Invocation.Owns`).  Owners stay
owners, because no step changes the creator of a draft or the wallets on file
(`ownersKept_step`).  So a comparison that was made before is still true when the
statement is executed, and each handler `Acts` for owners only, whatever the
others do.  That a request only issues statements it has the privilege for
narrows this down to the handlers that concern drafts.

## Commits

A commit belongs to an acceptance and has the effect of one that runs alone
(`AuditedRun.commits`).  Together, a step that changes a draft is a statement of
its owner (`authorizes_of_statement`) or the commit of an invited user
(`authorizes_of_commit`).
-/

namespace PactumCodex

open Interaction Relational

/-! ## Owners -/

/-- A wallet of the user is on file. -/
def Db.OnFile (db : Db) (userId : Uuid) (pubkey : String) : Prop :=
  ∃ wallet ∈ db.wallets.rows, wallet.userId = userId ∧ wallet.pubkey = pubkey

/-- The caller of the request has the wallet: it came with the session, or it is on file. -/
def Invocation.HasWallet (call : Invocation) (db : Db) (pubkey : String) : Prop :=
  match call with
  | .createAgreement auth _ => auth.pubkey = pubkey
  | .deleteDraft auth _ => db.OnFile auth.userId pubkey
  | .reinviteDraft auth _ _ => db.OnFile auth.userId pubkey
  | .submitDraft auth _ _ => auth.pubkey = pubkey
  | .acceptInvite auth _ => auth.pubkey = pubkey
  | .initiatePayment auth _ _ => auth.pubkey = pubkey
  | _ => False

/-- What a statement is for: a stored draft, or a new one of a creator. -/
inductive Subject : Type
  | draft (id : Uuid)
  | creator (pubkey : String)
  deriving DecidableEq, Repr

/-- The draft was created, or is to be created, with a wallet of the caller. -/
def Invocation.Owns (call : Invocation) (w : World) : Subject → Prop
  | .draft id => ∃ draft, w.db.draft? id = some draft ∧ call.HasWallet w.db draft.creatorPubkey
  | .creator pubkey => call.HasWallet w.db pubkey

/-- Drafts keep their creators, and users their wallets. -/
structure OwnersKept (w w' : World) : Prop where
  drafts : ∀ id draft, w.db.draft? id = some draft →
    ∃ draft', w'.db.draft? id = some draft' ∧ draft'.creatorPubkey = draft.creatorPubkey
  wallets : w'.db.wallets = w.db.wallets

theorem OwnersKept.refl (w : World) : OwnersKept w w :=
  ⟨fun _ draft hdraft => ⟨draft, hdraft, rfl⟩, rfl⟩

theorem OwnersKept.trans (w₁ w₂ w₃ : World) (h₁ : OwnersKept w₁ w₂) (h₂ : OwnersKept w₂ w₃) :
    OwnersKept w₁ w₃ := by
  refine ⟨fun id draft hdraft => ?_, h₂.wallets.trans h₁.wallets⟩
  obtain ⟨draft₂, hdraft₂, hcreator₂⟩ := h₁.drafts id draft hdraft
  obtain ⟨draft₃, hdraft₃, hcreator₃⟩ := h₂.drafts id draft₂ hdraft₂
  exact ⟨draft₃, hdraft₃, hcreator₃.trans hcreator₂⟩

theorem Invocation.HasWallet.congr {call : Invocation} {db db' : Db} {pubkey : String}
    (h : call.HasWallet db pubkey) (hsame : db'.wallets = db.wallets) :
    call.HasWallet db' pubkey := by
  have honFile : ∀ userId, db.OnFile userId pubkey → db'.OnFile userId pubkey := by
    intro userId hfile
    unfold Db.OnFile
    rw [hsame]
    exact hfile
  cases call with
  | deleteDraft auth draftId => exact honFile auth.userId h
  | reinviteDraft auth draftId req => exact honFile auth.userId h
  | _ => exact h

/-- Owners stay owners. -/
theorem Invocation.Owns.kept {call : Invocation} {subject : Subject} {w w' : World}
    (h : call.Owns w subject) (hkept : OwnersKept w w') : call.Owns w' subject := by
  cases subject with
  | creator pubkey => exact HasWallet.congr h hkept.wallets
  | draft draftId =>
      obtain ⟨draft, hdraft, hwallet⟩ := h
      obtain ⟨draft', hdraft', hcreator⟩ := hkept.drafts draftId draft hdraft
      refine ⟨draft', hdraft', ?_⟩
      rw [hcreator]
      exact hwallet.congr hkept.wallets

/-- **Step lemma.**  No step changes the creator of a draft or the wallets on file. -/
theorem ownersKept_step {step : BackendStep} (h : step.Valid perform) :
    OwnersKept step.pre step.post := by
  refine ⟨fun id draft hdraft => ?_, (accounts_step h).2⟩
  obtain ⟨draft', hdraft', hkept, -⟩ := draft?_step h hdraft
  exact ⟨draft', hdraft', hkept.creatorPubkey⟩

/-! ## What a statement is for -/

/-- The draft that is stored or written, or for which another row is stored or linked. -/
def Op.subject : Op → Option Subject
  | .sql (.draft (.insert creatorPubkey ..)) => some (.creator creatorPubkey)
  | .sql (.draft (.discard id)) => some (.draft id)
  | .sql (.draft (.setStorage _ id)) => some (.draft id)
  | .sql (.draft (.setAgreement _ _ id)) => some (.draft id)
  | .sql (.draft (.setPaid id)) => some (.draft id)
  | .sql (.invitation (.insert _ draftId ..)) => some (.draft draftId)
  | .sql (.invitation (.insertReturning draftId ..)) => some (.draft draftId)
  | .sql (.payment (.insert _ draftId ..)) => some (.draft draftId)
  | .sql (.payment (.setAgreementPda _ draftId)) => some (.draft draftId)
  | _ => none

/-- The privileges that concern a draft. -/
def Privilege.onDrafts : List Privilege :=
  [.createsDraft, .discardsDraft, .submitsDraft, .grantsDraft, .invites, .reinvites,
    .requestsPayment]

theorem Op.privilege_of_subject {op : Op} {subject : Subject} (h : op.subject = some subject) :
    op.privilege ∈ Privilege.onDrafts := by
  unfold Op.subject at h
  split at h <;> first | (cases h; exact of_decide_eq_true rfl) | cases h

theorem Op.Has.subject {op : Op} {privileges : List Privilege} (h : op.Has privileges)
    (hfree : ∀ privilege ∈ privileges, privilege ∉ Privilege.onDrafts) : op.subject = none := by
  cases hsubject : op.subject with
  | none => rfl
  | some subject =>
      have hmem := Op.privilege_of_subject hsubject
      rcases List.mem_cons.mp h with hreads | hother
      · rw [hreads] at hmem
        simp [Privilege.onDrafts] at hmem
      · exact absurd hmem (hfree _ hother)

/-! ## Requests act for owners -/

/-- A step that writes for a draft is taken by a request of the draft's creator. -/
structure Invocation.Entitled (call : Invocation) (step : BackendStep) : Prop where
  valid : step.Valid perform
  owns : ∀ subject, step.op.subject = some subject → call.Owns step.pre subject

theorem Invocation.Entitled.kept {call : Invocation} {step : BackendStep} (h : call.Entitled step) :
    OwnersKept step.pre step.post :=
  ownersKept_step h.valid

/-- The program writes for drafts of the caller only, whatever the others do. -/
abbrev Invocation.Acts (call : Invocation) {α : Type} (p : Backend α) (w : World)
    (Φ : α → World → Prop) : Prop :=
  Assures perform OwnersKept (fun _ => True) call.Entitled p w Φ

section Acts

variable {call : Invocation} {α β : Type} {w w' : World} {draftId : Uuid}

theorem entitled_of_free {step : BackendStep} (hfree : step.op.subject = none)
    (h : step.Valid perform) : call.Entitled step := by
  refine ⟨h, fun subject hsubject => ?_⟩
  rw [hfree] at hsubject
  cases hsubject

/-- Operations that concern no draft. -/
theorem acts_of_free {p : Backend α} (hp : p.Issues fun op => op.subject = none) :
    call.Acts p w fun _ w' => OwnersKept w w' := by
  have hassures : call.Acts p w fun _ _ => True :=
    assures_of_issues hp fun _ hfree hvalid _ => entitled_of_free hfree hvalid
  exact (hassures.related .refl .trans fun _ h => h.kept).mono fun _ _ h => h.2

/-- After operations that concern no draft, the rest goes on for the same owners. -/
theorem acts_free_bind {x : Handler α} {f : α → Handler β} {Ψ : β → World → Prop}
    (hx : x.run.Issues fun op => op.subject = none)
    (hf : ∀ a w', OwnersKept w w' → call.Acts (f a).run w' (OnOk Ψ)) :
    call.Acts (x >>= f).run w (OnOk Ψ) := by
  have hkept : call.Acts x.run w (OnOk fun _ w' => OwnersKept w w') := by
    refine (acts_of_free hx).mono fun r w' h => ?_
    cases r with
    | ok a => exact h
    | error e => trivial
  exact assures_ok_bind hkept hf

/-- A statement for a draft of the caller. -/
theorem acts_write {s : Stmt} {subject : Subject} (howns : call.Owns w subject)
    (hsubject : (Op.sql s).subject = some subject) :
    call.Acts (Handler.query s).run w (OnOk fun out w' =>
      call.Owns w' subject ∧ ∃ w₁, performSql s out w₁ = some w') := by
  have hentitled : ∀ {w₁ answer w₂}, OwnersKept w w₁ → perform (.sql s) answer w₁ = some w₂ →
      call.Entitled ⟨w₁, .sql s, answer, w₂⟩ := by
    intro w₁ answer w₂ hkept hperform
    refine ⟨hperform, fun subject' hsubject' => ?_⟩
    obtain rfl := Option.some.inj (hsubject.symm.trans hsubject')
    exact howns.kept hkept
  refine assures_query.mpr fun w₁ hkept => ⟨fun out w₂ hperform _ => ?_, fun _ => ?_⟩
  · have hstep : call.Entitled ⟨w₁, .sql s, .ok out, w₂⟩ := hentitled hkept hperform
    exact ⟨hstep, (howns.kept hkept).kept hstep.kept, w₁, hperform⟩
  · exact ⟨hentitled hkept rfl, trivial⟩

/-- A read, with what it returns. -/
theorem acts_read {s : Stmt} (hselects : s.selects = true) (hfree : (Op.sql s).subject = none) :
    call.Acts (Handler.query s).run w (OnOk fun out w' =>
      OwnersKept w w' ∧ performSql s out w' = some w') := by
  refine assures_query.mpr fun w₁ hkept => ⟨fun out w₂ hperform _ => ?_, fun _ => ?_⟩
  · obtain rfl := world_of_select hselects hperform
    exact ⟨entitled_of_free hfree hperform, hkept, hperform⟩
  · exact ⟨entitled_of_free hfree rfl, trivial⟩

end Acts

/-! ### The checks -/

section Checks

variable {call : Invocation} {β : Type} {w : World} {draftId : Uuid} {Ψ : β → World → Prop}

theorem ensureCreatorOnly_eq_ok {authPubkey : Option String} {creator : String}
    (h : ensureCreatorOnly authPubkey creator = .ok ()) : authPubkey = some creator := by
  unfold ensureCreatorOnly at h
  split at h
  · split at h
    · rename_i hsame
      rw [hsame]
    · cases h
  · cases h

/-- The creator of a draft is read. -/
theorem acts_creatorOf_bind {f : String → Handler β}
    (hf : ∀ draft w', w'.db.draft? draftId = some draft →
      call.Acts (f draft.creatorPubkey).run w' (OnOk Ψ)) :
    call.Acts (do
      let draftCreator ← Handler.query (.draft (.creatorOf draftId))
      let draftCreator ← Handler.okOr .notFound draftCreator
      f draftCreator).run w (OnOk Ψ) := by
  refine assures_ok_bind (acts_read rfl rfl) fun found w₁ ⟨_, hfound⟩ => ?_
  refine assures_okOr_ok fun creator hcreator => ?_
  rw [creatorOf_returns hfound] at hcreator
  obtain ⟨draft, hdraft, rfl⟩ := Option.map_eq_some_iff.mp hcreator
  exact hf draft w₁ hdraft

/-- The wallet of the caller is looked up and compared with the creator. -/
theorem ensureCreatorFromUserId_acts {userId : Uuid} {draft : Draft}
    (hfile : ∀ db : Db, db.OnFile userId draft.creatorPubkey →
      call.HasWallet db draft.creatorPubkey)
    (hdraft : w.db.draft? draftId = some draft) :
    call.Acts (ensureCreatorFromUserId userId draft.creatorPubkey).run w
      (OnOk fun _ w' => call.Owns w' (.draft draftId)) := by
  unfold ensureCreatorFromUserId
  refine assures_ok_bind (acts_read rfl rfl) fun found w₁ ⟨hkept, hfound⟩ => ?_
  cases hcheck : ensureCreatorOnly found draft.creatorPubkey with
  | error e => trivial
  | ok _ =>
      obtain rfl := ensureCreatorOnly_eq_ok hcheck
      obtain ⟨-, -, db, hexec, -⟩ := performSql_eq_some.mp hfound
      obtain ⟨wallet, hwallet, hpubkey⟩ := List.mem_map.mp (provided_eq_some.mp hexec).1
      rw [List.mem_filter, decide_eq_true_eq] at hwallet
      obtain ⟨draft', hdraft', hcreator⟩ := hkept.drafts draftId draft hdraft
      refine ⟨draft', hdraft', ?_⟩
      rw [hcreator]
      exact hfile w₁.db ⟨wallet, hwallet.1, hwallet.2, hpubkey⟩

/-- `submit_draft` goes on for the creator of the draft only. -/
theorem admitSubmission_acts {auth : AuthUserWithWallet} {req : SubmitDraftRequest} :
    (Invocation.submitDraft auth draftId req).Acts (admitSubmission auth draftId req).run w
      (OnOk fun _ w' => (Invocation.submitDraft auth draftId req).Owns w' (.draft draftId)) := by
  unfold admitSubmission
  refine assures_ofExcept_ok fun _ _ => assures_ofExcept_ok fun storageBackend _ => ?_
  have hrow : (Invocation.submitDraft auth draftId req).Acts (getDraftRow draftId).run w
      (OnOk fun row w' => ∃ draft, w'.db.draft? draftId = some draft ∧
        row.creatorPubkey = draft.creatorPubkey) := by
    refine assures_ok_bind (acts_read rfl rfl) fun found w₁ ⟨_, hfound⟩ => ?_
    obtain ⟨-, -, db, hexec, -⟩ := performSql_eq_some.mp hfound
    obtain ⟨drafts, hexec, -⟩ := Option.map_eq_some_iff.mp hexec
    obtain ⟨hreturns, -⟩ := provided_eq_some.mp hexec
    cases found with
    | none => trivial
    | some row =>
        obtain ⟨draft, hdraft, rfl⟩ := Option.map_eq_some_iff.mp hreturns.symm
        exact ⟨draft, hdraft, rfl⟩
  refine assures_ok_bind hrow fun row w₁ ⟨draft, hdraft, hcreator⟩ => ?_
  refine assures_ofExcept_ok fun _ hcheck => ?_
  have howns : (Invocation.submitDraft auth draftId req).Owns w₁ (.draft draftId) := by
    refine ⟨draft, hdraft, ?_⟩
    rw [← hcreator]
    exact Option.some.inj (ensureCreatorOnly_eq_ok hcheck)
  refine acts_free_bind (issues_query.mpr rfl) fun hasEmail w₂ h₂ => ?_
  exact assures_ofExcept_ok fun _ _ => howns.kept h₂

end Checks

/-! ### The handlers -/

section Handlers

variable {env : Env} {draftId : Uuid} {w : World}

theorem deleteDraft_acts (auth : AuthUser) :
    (Invocation.deleteDraft auth draftId).Acts (deleteDraft auth draftId).run w
      (OnOk fun _ _ => True) := by
  refine acts_creatorOf_bind fun draft w₁ hdraft => ?_
  refine assures_ok_bind (ensureCreatorFromUserId_acts (fun _ h => h) hdraft) fun _ w₂ howns => ?_
  refine (acts_write howns rfl).mono fun r _ _ => ?_
  cases r <;> trivial

theorem reinviteDraft_acts (auth : AuthUser) (req : ReinviteRequest) :
    (Invocation.reinviteDraft auth draftId req).Acts (reinviteDraft env auth draftId req).run w
      (OnOk fun _ _ => True) := by
  refine acts_creatorOf_bind fun draft w₁ hdraft => ?_
  refine assures_ok_bind (ensureCreatorFromUserId_acts (fun _ h => h) hdraft) fun _ w₂ howns => ?_
  refine acts_free_bind (issues_query.mpr rfl) fun found w₃ h₃ => ?_
  refine assures_okOr_ok fun ⟨index, enc, nonce⟩ _ => ?_
  refine acts_free_bind (issues_ask.mpr rfl) fun token w₄ h₄ => ?_
  refine acts_free_bind (issues_ask.mpr rfl) fun now w₅ h₅ => ?_
  refine assures_okOr_ok fun expiry _ => ?_
  refine acts_free_bind (issues_ask.mpr rfl) fun createdAt w₆ h₆ => ?_
  have howns₆ := (((howns.kept h₃).kept h₄).kept h₅).kept h₆
  exact assures_ok_bind (acts_write howns₆ rfl) fun _ _ _ => trivial

theorem initiatePayment_acts (auth : AuthUserWithWallet) (req : InitiatePaymentRequest) :
    (Invocation.initiatePayment auth draftId req).Acts (initiatePayment env auth draftId req).run w
      (OnOk fun _ _ => True) := by
  refine acts_creatorOf_bind fun draft w₁ hdraft => ?_
  refine assures_ensure_ok fun hcreator => ?_
  have howns : (Invocation.initiatePayment auth draftId req).Owns w₁ (.draft draftId) :=
    ⟨draft, hdraft, hcreator.symm⟩
  refine acts_free_bind (issues_query.mpr rfl) fun freeUsed w₂ h₂ => ?_
  split
  · refine assures_ok_bind (acts_write (howns.kept h₂) rfl) fun _ w₃ _ => ?_
    exact acts_free_bind (issues_query.mpr rfl) fun _ _ _ => trivial
  · unfold requestPayment
    refine assures_okOr_ok fun tokenInfo _ => ?_
    refine acts_free_bind (issues_ask.mpr rfl) fun reference w₃ h₃ => ?_
    refine acts_free_bind (issues_ask.mpr rfl) fun id w₄ h₄ => ?_
    refine acts_free_bind (issues_ask.mpr rfl) fun now w₅ h₅ => ?_
    have howns₅ := (((howns.kept h₂).kept h₃).kept h₄).kept h₅
    exact assures_ok_bind (acts_write howns₅ rfl) fun _ _ _ => trivial

theorem persistAgreement_acts {call : Invocation} {agreementPda : String} {agreementId : Bytes 16}
    (howns : call.Owns w (.draft draftId)) :
    call.Acts (persistAgreement agreementPda agreementId draftId).run w (OnOk fun _ _ => True) := by
  refine assures_ok_bind (acts_write howns rfl) fun _ w₁ ⟨howns₁, _⟩ => ?_
  refine (acts_write howns₁ rfl).mono fun r _ _ => ?_
  cases r <;> trivial

theorem submitDraft_acts (auth : AuthUserWithWallet) (req : SubmitDraftRequest) :
    (Invocation.submitDraft auth draftId req).Acts (submitDraft env auth draftId req).run w
      (OnOk fun _ _ => True) := by
  unfold submitDraft
  refine assures_ok_bind admitSubmission_acts fun ⟨storageBackend, draft⟩ w₁ howns => ?_
  refine assures_ok_bind (acts_write howns rfl) fun _ w₂ ⟨howns₂, _⟩ => ?_
  refine assures_okOr_ok fun payload _ => assures_okOr_ok fun creatorPubkey _ => ?_
  refine acts_free_bind (issues_ask.mpr rfl) fun agreementId w₃ h₃ => ?_
  refine assures_okOr_ok fun contentHash _ => ?_
  refine acts_free_bind ?_ fun transaction w₄ h₄ => ?_
  · exact (buildCreateAgreementTx_has ..).mono fun _ h => h.subject (by simp [Privilege.onDrafts])
  have howns₄ := (howns₂.kept h₃).kept h₄
  exact assures_ok_bind (persistAgreement_acts howns₄) fun _ _ _ => trivial

/-- A draft that was just stored belongs to the caller. -/
theorem owns_of_insert {call : Invocation} {creator : String} {payload slots : Json}
    {status : DraftStatus} {id : Uuid} {w w' : World} (hwallet : call.Owns w' (.creator creator))
    (h : performSql (.draft (.insert creator payload slots status)) id w = some w') :
    call.Owns w' (.draft id) := by
  obtain ⟨-, -, db, hexec, rfl⟩ := performSql_eq_some.mp h
  obtain ⟨drafts, hcommit, rfl⟩ := Option.map_eq_some_iff.mp hexec
  refine ⟨⟨id, creator, payload, slots, status, none, false, none, false, none, none⟩,
    Db.draft?_eq_some.mpr ⟨?_, rfl⟩, hwallet⟩
  show _ ∈ drafts.rows
  rw [rows_of_commit hcommit]
  exact List.mem_append_right _ (List.mem_singleton_self _)

theorem insertInvitations_acts {call : Invocation} {invites : List InvitationInsertRow}
    (howns : call.Owns w (.draft draftId)) :
    call.Acts (insertInvitations draftId invites).run w (OnOk fun _ _ => True) := by
  induction invites generalizing w with
  | nil => trivial
  | cons invite rest ih =>
      refine acts_free_bind (issues_ask.mpr rfl) fun now w₁ h₁ => ?_
      exact assures_ok_bind (acts_write (howns.kept h₁) rfl) fun _ w₂ ⟨howns₂, _⟩ => ih howns₂

theorem createAgreement_acts (auth : AuthUserWithWallet) (req : CreateAgreementRequest) :
    (Invocation.createAgreement auth req).Acts (createAgreement env auth req).run w
      (OnOk fun _ _ => True) := by
  unfold createAgreement
  refine assures_ofExcept_ok fun _ _ => assures_ofExcept_ok fun key _ => ?_
  refine assures_ofExcept_ok fun indexKey _ => ?_
  refine acts_free_bind (issues_query.mpr rfl) fun freeUsed w₁ _ => ?_
  refine acts_free_bind (issues_ask.mpr rfl) fun invitedAt w₂ _ => ?_
  refine assures_okOr_ok fun expiry _ => ?_
  refine acts_free_bind ((resolveParties_issues ..).mono fun _ h => ?_) fun scan w₃ _ => ?_
  · cases h <;> rfl
  split
  · refine (acts_of_free ?_).mono fun r _ _ => ?_
    · unfold submitDirectly
      refine issues_run_bind issues_okOr fun creatorPubkey => ?_
      refine issues_run_bind (issues_ask.mpr rfl) fun agreementId => ?_
      refine issues_run_bind ?_ fun _ => trivial
      exact (buildCreateAgreementTx_has ..).mono fun _ h => h.subject (by simp [Privilege.onDrafts])
    · cases r <;> trivial
  · have howns : (Invocation.createAgreement auth req).Owns w₃ (.creator auth.pubkey) := rfl
    refine assures_ok_bind (acts_write howns rfl) fun id w₄ ⟨hwallet, w', hinsert⟩ => ?_
    have hdraft := owns_of_insert hwallet hinsert
    exact assures_ok_bind (insertInvitations_acts hdraft) fun _ _ _ => trivial

end Handlers

/-! ## Every interleaving -/

/-- Programs that concern no draft. -/
theorem acts_of_has {call : Invocation} {p : Backend Unit} {privileges : List Privilege} {w : World}
    (hp : p.Issues (Op.Has privileges))
    (hfree : ∀ privilege ∈ privileges, privilege ∉ Privilege.onDrafts) :
    call.Acts p w fun _ _ => True :=
  (acts_of_free (hp.mono fun _ h => h.subject hfree)).mono fun _ _ _ => trivial

theorem acts_logged {call : Invocation} {α : Type} {x : Handler α} {w : World}
    (hx : call.Acts x.run w (OnOk fun _ _ => True)) :
    call.Acts (Handler.logged x) w fun _ _ => True :=
  assures_bind.mpr (hx.mono fun _ _ _ => trivial)

/-- Every invocation writes for drafts of its caller only. -/
theorem Invocation.acts (env : Env) (call : Invocation) (w : World) :
    call.Acts (call.program env) w fun _ _ => True := by
  by_cases hfree : ∀ privilege ∈ call.privileges, privilege ∉ Privilege.onDrafts
  · exact acts_of_has (call.has env) hfree
  · cases call with
    | createAgreement auth req => exact acts_logged (createAgreement_acts auth req)
    | deleteDraft auth draftId => exact acts_logged (deleteDraft_acts auth)
    | reinviteDraft auth draftId req => exact acts_logged (reinviteDraft_acts auth req)
    | submitDraft auth draftId req => exact acts_logged (submitDraft_acts auth req)
    | initiatePayment auth draftId req => exact acts_logged (initiatePayment_acts auth req)
    | _ => simp [Invocation.privileges, listenerPrivileges, Privilege.onDrafts] at hfree

theorem AuditedRun.entitled {env : Env} {w w' : World} {steps : List AuditedStep}
    (hrun : AuditedRun env w steps w') : ∀ step ∈ steps, step.op.1.Entitled step.untag :=
  hrun.assured .refl .trans (fun _ _ h => h.kept) fun call w₁ => call.acts env w₁

/-- A commit belongs to an acceptance, and has the effect of one that runs alone. -/
def Invocation.CommitsInvited (call : Invocation) (step : BackendStep) : Prop :=
  step.op.commits step.ans = true → ∃ auth token, call = .acceptInvite auth token ∧
    AcceptCall.Guarantees ⟨auth, token⟩ step

/-- Invocations other than acceptances commit nothing. -/
theorem secures_of_outside {call : Invocation} {p : Backend Unit} {w : World}
    (hp : p.Issues fun op => op.inTransaction = false) :
    Secures perform Locked Started Untouched call.CommitsInvited p none w fun _ _ _ => True := by
  refine secures_of_issues hp fun step hop hvalid hlocked => ?_
  have hrespects := respects_of_outside hop hvalid hlocked
  refine ⟨fun hcommits => ?_, hrespects.inv, hrespects.others⟩
  obtain ⟨w, op, answer, w'⟩ := step
  cases op <;> cases hop <;> cases hcommits

theorem Invocation.secures (env : Env) (call : Invocation) (w : World) :
    Secures perform Locked Started Untouched call.CommitsInvited (call.program env) none w
      fun _ _ _ => True := by
  by_cases htransacts : .transacts ∈ call.privileges
  · cases call with
    | acceptInvite auth token =>
        refine secures_bind (((acceptInvite_secures ⟨auth, token⟩ w).weaken ?_).mono
          fun _ _ _ _ => trivial)
        exact fun step hguarantee _ => ⟨auth, token, rfl, hguarantee⟩
    | _ => simp [Invocation.privileges, listenerPrivileges] at htransacts
  · refine secures_of_outside ((call.has env).mono fun op hop => ?_)
    cases htx : op.inTransaction with
    | false => rfl
    | true =>
        have hprivilege : op.privilege = .transacts := by
          cases op <;> first | rfl | cases htx
        rcases List.mem_cons.mp hop with hreads | hmem
        · rw [hprivilege] at hreads
          cases hreads
        · exact absurd (hprivilege ▸ hmem) htransacts

theorem AuditedRun.commits {env : Env} {w w' : World} {steps : List AuditedStep} (hw : w.txs = [])
    (hrun : AuditedRun env w steps w') :
    ∀ step ∈ steps, step.op.1.CommitsInvited step.untag := by
  obtain ⟨threads, hpool⟩ := hrun
  have hstarted : ∀ (op : Invocation × Op) (answer : TaggedAns Invocation Op.Ans op) (w w' : World)
      (id : ℕ), performTagged Invocation perform op answer w = some w' → Started w id →
        Started w' id := by
    intro op answer w w' id hperform hid
    have hvalid : Step.Valid perform (⟨w, op.2, answer, w'⟩ : BackendStep) := hperform
    exact lt_of_lt_of_le hid (nextTx_step hvalid)
  have hentry : ∀ q, (∃ call : Invocation, q = (call.program env).tag call) → ∀ w,
      Secures (performTagged Invocation perform) Locked Started Untouched
        (fun step => step.op.1.CommitsInvited step.untag) q none w fun _ _ _ => True := by
    rintro q ⟨call, rfl⟩ w
    exact secures_tag (call.secures env w)
  exact (hpool.secured (locked_of_nil hw) Untouched.trans Untouched.refl hstarted hentry).1

/-! ## Drafts -/

/-- What the step does to stored drafts and invitations, the invocation may do. -/
structure Invocation.Authorizes (call : Invocation) (step : BackendStep) : Prop where
  /-- A draft changes for its creator, or an invited user fills a slot of it. -/
  changed : ∀ id draft, step.pre.db.draft? id = some draft → step.post.db.draft? id ≠ some draft →
    call.HasWallet step.pre.db draft.creatorPubkey ∨
      ∃ auth token invitation slots slots' now, call = .acceptInvite auth token ∧
        AcceptPlan auth token step.pre invitation draft slots slots' ∧
        step.post.db.draft? id = some (draft.resolve slots' now)
  /-- A new draft is one of the caller. -/
  created : ∀ id draft, step.pre.db.draft? id = none → step.post.db.draft? id = some draft →
    call.HasWallet step.pre.db draft.creatorPubkey
  /-- A new invitation is for a draft of the caller. -/
  invited : ∀ token invitation, step.pre.db.invitation? token = none →
    step.post.db.invitation? token = some invitation →
      call.Owns step.pre (.draft invitation.draftId)
  /-- An invitation is accepted with its token. -/
  accepted : ∀ token invitation invitation', step.pre.db.invitation? token = some invitation →
    step.post.db.invitation? token = some invitation' → invitation.status ≠ .accepted →
      invitation'.status = .accepted → ∃ auth, call = .acceptInvite auth token

section Authorized

variable {call : Invocation} {step : BackendStep}

theorem DraftStmt.subject_of_locks {s : DraftStmt} {id : Uuid} (h : id ∈ s.locks) :
    (Op.sql (.draft s)).subject = some (.draft id) := by
  cases s <;> simp only [locks, List.not_mem_nil, List.mem_singleton] at h <;> subst h <;> rfl

/-- Only a commit accepts an invitation. -/
theorem InvitationStep.commits {token : String} (h : InvitationStep token step)
    {invitation invitation' : Invitation} (hpre : step.pre.db.invitation? token = some invitation)
    (hpost : step.post.db.invitation? token = some invitation')
    (hstatus : invitation.status ≠ .accepted) (haccepted : invitation'.status = .accepted) :
    step.op.commits step.ans = true := by
  cases h with
  | unchanged hsame =>
      obtain rfl := Option.some.inj (hpre.symm.trans (hsame.symm.trans hpost))
      exact absurd haccepted hstatus
  | invited row _ hnone => simp [hnone] at hpre
  | reminded row now _ hrow hrow' =>
      obtain rfl := Option.some.inj (hpre.symm.trans hrow)
      obtain rfl := Option.some.inj (hpost.symm.trans hrow')
      exact absurd haccepted hstatus
  | expired row now rows _ hrow _ _ hrow' =>
      obtain rfl := Option.some.inj (hpost.symm.trans hrow')
      cases haccepted
  | accepted _ _ _ _ _ _ hcommits => exact hcommits

/-- A commit changes the invitation of its call, and the draft of the invitation. -/
theorem authorizes_of_commit (hcommits : step.op.commits step.ans = true)
    (hvalid : step.Valid perform) (hinvited : call.CommitsInvited step) : call.Authorizes step := by
  obtain ⟨auth, token, hcall, hguarantee⟩ := hinvited hcommits
  obtain ⟨row, draft, slots, slots', now, hplan, haccepted⟩ := hguarantee.committed hcommits
  have hcreates : step.op.creates = false := by
    obtain ⟨w, op, answer, w'⟩ := step
    cases op <;> first | rfl | cases hcommits
  refine ⟨fun id found hpre hpost => Or.inr ?_, fun id found hpre hpost => ?_,
    fun other found hpre hpost => ?_, fun other found found' hpre hpost hstatus hstatus' => ?_⟩
  -- the only draft that changes is the one of the accepted invitation
  · have hdraft := haccepted.draft? hpre
    by_cases hid : id = row.draftId
    · rw [if_pos hid] at hdraft
      subst hid
      obtain rfl := Option.some.inj (hpre.symm.trans hplan.owner)
      exact ⟨auth, token, row, slots, slots', now, hcall, hplan, hdraft⟩
    · rw [if_neg hid] at hdraft
      exact absurd hdraft hpost
  · have hstored := draft?_step_back hvalid hcreates (Option.isSome_of_mem hpost)
    rw [hpre] at hstored
    cases hstored
  · have hinvitation := haccepted.invitation? other
    rw [hpost, hpre] at hinvitation
    cases hinvitation
  · have hinvitation := haccepted.invitation? other
    rw [hpost, hpre, Option.map_some, Option.some.injEq] at hinvitation
    by_cases hid : found.id = row.id
    · -- the invitation of the call is the one with this token
      obtain ⟨hmem, htoken⟩ := Db.invitation?_eq_some.mp hpre
      obtain ⟨hmem', htoken'⟩ := Db.invitation?_eq_some.mp hplan.found
      obtain rfl : found = row := eq_of_key_eq step.pre.db.invitations.valid.1 hmem hmem' hid
      obtain rfl : other = token := htoken.symm.trans htoken'
      exact ⟨auth, hcall⟩
    · rw [if_neg hid] at hinvitation
      exact absurd (hinvitation ▸ hstatus') hstatus

/-- A draft that a statement changes or stores is one of the caller. -/
theorem hasWallet_of_executes {s : DraftStmt} {out : s.Out} {id : Uuid} {draft : Draft}
    (hentitled : call.Entitled step) (hexecutes : Executes step (.draft s) out)
    (hexec : s.exec out step.pre.db = some step.post.db.drafts) :
    (step.pre.db.draft? id = some draft → step.post.db.draft? id ≠ some draft →
      call.HasWallet step.pre.db draft.creatorPubkey) ∧
    (step.pre.db.draft? id = none → step.post.db.draft? id = some draft →
      call.HasWallet step.pre.db draft.creatorPubkey) := by
  have howns := hentitled.owns
  have hop : step.op = .sql (.draft s) := by rw [hexecutes]
  rw [hop] at howns
  refine ⟨fun hpre hpost => ?_, fun hpre hpost => ?_⟩
  -- a statement changes only the rows it locks
  · by_cases hlocks : draft.id ∈ s.locks
    · obtain ⟨draft', hdraft', hwallet⟩ := howns _ (DraftStmt.subject_of_locks hlocks)
      rw [(Db.draft?_eq_some.mp hpre).2, hpre, Option.some.injEq] at hdraft'
      exact hdraft' ▸ hwallet
    · exact absurd (s.exec_unlocked hexec hpre hlocks) hpost
  · cases s with
    | insert creator payload slots status =>
        obtain ⟨hmem, hid⟩ := Db.draft?_eq_some.mp hpost
        rw [rows_of_commit hexec] at hmem
        rcases List.mem_append.mp hmem with hold | hnew
        · rw [Db.draft?_eq_some.mpr ⟨hold, hid⟩] at hpre
          cases hpre
        · rw [List.mem_singleton.mp hnew]
          exact howns _ rfl
    | _ =>
        have hstored := draft?_step_back hentitled.valid (by rw [hop]; rfl)
          (Option.isSome_of_mem hpost)
        rw [hpre] at hstored
        cases hstored

/-- An invitation that a statement stores is for a draft of the caller. -/
theorem owns_of_invited {token : String} {invitation : Invitation} (hentitled : call.Entitled step)
    (hcommits : step.op.commits step.ans = false) (hpre : step.pre.db.invitation? token = none)
    (hpost : step.post.db.invitation? token = some invitation) :
    call.Owns step.pre (.draft invitation.draftId) := by
  have hvalid := hentitled.valid
  have howns := hentitled.owns
  obtain hsame | ⟨s, out, hexecutes, hexec⟩ | ⟨writes, hop, -⟩ := (stored_step hvalid).2
  · rw [Db.invitation?, hsame] at hpost
    exact absurd (hpre.symm.trans hpost) (by simp)
  · have hop : step.op = .sql (.invitation s) := by rw [hexecutes]
    rw [hop] at howns
    have hnew : ∀ fresh, commit (step.pre.db.invitations.rows ++ [fresh]) =
        some step.post.db.invitations → invitation = fresh := by
      intro fresh hcommit
      obtain ⟨hmem, htoken⟩ := Db.invitation?_eq_some.mp hpost
      rw [rows_of_commit hcommit] at hmem
      rcases List.mem_append.mp hmem with hold | hnew
      · rw [Db.invitation?_eq_some.mpr ⟨hold, htoken⟩] at hpre
        cases hpre
      · exact List.mem_singleton.mp hnew
    -- only the two statements that insert store a new invitation
    cases s with
    | insert | insertReturning =>
        simp only [InvitationStmt.exec, Option.ite_none_right_eq_some] at hexec
        rw [hnew _ hexec.2]
        exact howns _ rfl
    | _ =>
        obtain ⟨hmem, htoken⟩ := Db.invitation?_eq_some.mp hpost
        obtain ⟨old, hold, hkept⟩ :=
          (InvitationStmt.exec_kept hexec).exists_mem_back (by simp [Op.stores]) hmem
        rw [Db.invitation?_eq_some.mpr ⟨hold, hkept.token.symm.trans htoken⟩] at hpre
        cases hpre
  · rw [db_of_failed_commit hvalid hop hcommits] at hpost
    exact absurd (hpre.symm.trans hpost) (by simp)

/-- Without a commit drafts and invitations change by single statements. -/
theorem authorizes_of_statement (hcommits : step.op.commits step.ans = false)
    (hentitled : call.Entitled step) : call.Authorizes step := by
  have hvalid := hentitled.valid
  have hwallet : ∀ id draft, (step.pre.db.draft? id = some draft →
      step.post.db.draft? id ≠ some draft → call.HasWallet step.pre.db draft.creatorPubkey) ∧
      (step.pre.db.draft? id = none → step.post.db.draft? id = some draft →
        call.HasWallet step.pre.db draft.creatorPubkey) := by
    intro id draft
    have hsame : step.post.db.drafts = step.pre.db.drafts → (step.pre.db.draft? id = some draft →
        step.post.db.draft? id ≠ some draft → call.HasWallet step.pre.db draft.creatorPubkey) ∧
        (step.pre.db.draft? id = none → step.post.db.draft? id = some draft →
          call.HasWallet step.pre.db draft.creatorPubkey) := by
      intro hsame
      rw [Db.draft?, Db.draft?, hsame]
      exact ⟨fun hpre hpost => absurd hpre hpost, fun hpre hpost => by simp [hpre] at hpost⟩
    obtain hdrafts | ⟨s, out, hexecutes, hexec⟩ | ⟨writes, hop, -⟩ := (stored_step hvalid).1
    · exact hsame hdrafts
    · exact hasWallet_of_executes hentitled hexecutes hexec
    · exact hsame (by rw [db_of_failed_commit hvalid hop hcommits])
  refine ⟨fun id draft hpre hpost => Or.inl ((hwallet id draft).1 hpre hpost),
    fun id draft => (hwallet id draft).2, fun token invitation =>
      owns_of_invited hentitled hcommits,
    fun token found found' hpre hpost hstatus hstatus' => ?_⟩
  have hstep := invitation_step hvalid (fun hdone => absurd hdone (by simp [hcommits])) token
  exact absurd (hstep.commits hpre hpost hstatus hstatus') (by simp [hcommits])

end Authorized

/-- **Authorization.**  An audited run is one of the backend, and a stored draft is changed for its
creator only, or by an invited user who holds the token of a pending invitation and gets its slot;
drafts and invitations are stored for the creator of the draft, and an invitation is accepted with
its token only. -/
theorem drafts_changed_by_entitled {env : Env} {w w' : World} {steps : List AuditedStep}
    (hw : w.txs = []) (hrun : AuditedRun env w steps w') :
    SystemRun env w (steps.map Step.untag) w' ∧
      ∀ step ∈ steps, step.op.1.Authorizes step.untag := by
  refine ⟨hrun.systemRun, fun step hmem => ?_⟩
  have hentitled := hrun.entitled step hmem
  cases hcommits : step.op.2.commits step.ans with
  | false => exact authorizes_of_statement hcommits hentitled
  | true => exact authorizes_of_commit hcommits hentitled.valid (hrun.commits hw step hmem)

/-- Alice accepts her invitation, and Bob deletes his draft. -/
theorem drafts_changed_by_entitled_twice :
    ∃ steps w', AuditedRun sampleEnv (World.ofDb twoInvitedDb) steps w' ∧
      w'.draftStatus 2 = some .discarded ∧ w'.inviteStatus "first" = some .accepted ∧
      SystemRun sampleEnv (World.ofDb twoInvitedDb) (steps.map Step.untag) w' ∧
      ∀ step ∈ steps, step.op.1.Authorizes step.untag := by
  obtain ⟨steps, w', hrun, htest⟩ := auditedRun_of_replay sampleEnv (World.ofDb twoInvitedDb)
    [.acceptInvite alice "first", .deleteDraft ⟨11, none⟩ 2]
    (List.replicate 7 (0, cooperate 0) ++ List.replicate 3 (1, cooperate 0))
    (fun _ w' => w'.draftStatus 2 = some .discarded ∧ w'.inviteStatus "first" = some .accepted)
    (by decide +kernel)
  obtain ⟨hdiscarded, haccepted⟩ := of_decide_eq_true htest
  exact ⟨steps, w', hrun, hdiscarded, haccepted, drafts_changed_by_entitled rfl hrun⟩

end PactumCodex
