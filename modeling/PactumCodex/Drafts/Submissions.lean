import PactumCodex.Drafts.SubmittedParties
import PactumCodex.Lib.Tagged
import PactumCodex.Payments.Rows

/-!
# Submitting a draft more than once

`submit_draft` lets a draft pass that is paid and ready, and leaves both as they
are: nothing keeps a second call from passing the same gates, signing for a new
agreement and replacing the stored address.  What holds is that a call signs and
stores at most once, after it has read a draft that passes.  So if only one call
of the creator reads such a draft, then one agreement at most is signed for, and
an address is never replaced (`submitted_once_of_admitted_once`).

A signing step does not show which draft it is for; in the runs considered here
the operations of a call of `submit_draft` are tagged with the call.

## Credit

A call is let through once and then takes three steps, each once: it has the vault
sign, stores the address on the draft, and stores it on the payments.  For each of
these marks a call earns one unit by reading a draft that passes, and spends it by
the marked step.  That every program is solvent is proved along its text
(`submitDraft_solvent`); by the credit rule, the marked steps of an interleaving are
at most as many as the admitted calls (`marked_le_admitted`).

With one admitted call an address is stored while there is none, so nothing is
replaced.
-/

namespace PactumCodex

open Interaction Relational Handlers

/-! ## The stored addresses -/

/-- The agreement address stored on a draft. -/
def Db.storedPda (db : Db) (draftId : Uuid) : Option String :=
  (db.draft? draftId).bind Draft.agreementPda

section StoredPda

variable {draftId : Uuid}

/-- An update of drafts that does not write the address. -/
theorem storedPda_updateWhere {p : Draft → Bool} {f : Draft → Draft} {db db' : Db}
    (hrows : db'.drafts.rows = updateWhere p f db.drafts.rows)
    (hid : ∀ draft, (f draft).id = draft.id)
    (hpda : ∀ draft, p draft → draft.id = draftId → (f draft).agreementPda = draft.agreementPda) :
    db'.storedPda draftId = db.storedPda draftId := by
  unfold Db.storedPda Db.draft?
  rw [hrows, lookup_updateWhere hid]
  cases hlookup : lookup Draft.id draftId db.drafts.rows with
  | none => rfl
  | some draft =>
      have hdraft : draft.id = draftId := ((lookup_eq_some db.drafts.valid).mp hlookup).2
      simp only [Option.map_some, Option.bind_some]
      split
      · exact hpda draft ‹_› hdraft
      · rfl

theorem DraftStmt.exec_storedPda {s : DraftStmt} {out : s.Out} {db db' : Db}
    (h : s.exec out db = some db'.drafts)
    (hs : ∀ pda agreementId, s ≠ .setAgreement pda agreementId draftId) :
    db'.storedPda draftId = db.storedPda draftId := by
  cases s with
  | insert creatorPubkey draftPayload partySlots status =>
      unfold Db.storedPda Db.draft?
      rw [rows_of_commit h, lookup, List.find?_append]
      cases hfind : db.drafts.rows.find? (fun row => decide (row.id = draftId)) with
      | some draft => simp [lookup, hfind]
      | none =>
          simp only [lookup, hfind, Option.none_or, Option.bind_none, List.find?_singleton]
          split <;> rfl
  | creatorOf => rw [Db.storedPda, Db.draft?, (provided_eq_some.mp h).2]; rfl
  | rowOf => rw [Db.storedPda, Db.draft?, (provided_eq_some.mp h).2]; rfl
  | discard => exact storedPda_updateWhere (rows_of_commit h) (fun _ => rfl) fun _ _ _ => rfl
  | setStorage => exact storedPda_updateWhere (rows_of_commit h) (fun _ => rfl) fun _ _ _ => rfl
  | setPaid => exact storedPda_updateWhere (rows_of_commit h) (fun _ => rfl) fun _ _ _ => rfl
  | setAgreement pda agreementId id =>
      refine storedPda_updateWhere (rows_of_commit h) (fun _ => rfl) fun draft hmatch hdraft => ?_
      have hid : draft.id = id := of_decide_eq_true hmatch
      exact absurd (by rw [← hid, hdraft]) (hs pda agreementId)

theorem TxWrite.apply_storedPda {write : TxWrite} {db db' : Db} (h : write.apply db = some db') :
    db'.storedPda draftId = db.storedPda draftId := by
  rcases TxWrite.apply_drafts h with hsame | ⟨id, f, hf, hrows⟩
  · rw [Db.storedPda, Db.storedPda, Db.draft?, Db.draft?, hsame]
  · refine storedPda_updateWhere hrows (fun draft => (hf draft).kept.id) fun draft _ _ => ?_
    rw [hf draft]

theorem foldlM_apply_storedPda {writes : List TxWrite} {db db' : Db}
    (h : writes.foldlM TxWrite.apply db = some db') :
    db'.storedPda draftId = db.storedPda draftId :=
  foldlM_related (fun db db' : Db => db'.storedPda draftId = db.storedPda draftId) (fun _ => rfl)
    (fun _ _ _ hfirst hsecond => hsecond.trans hfirst)
    (fun _ _ _ _ hwrite => TxWrite.apply_storedPda hwrite) h

/-- The address on a draft is written by its own `UPDATE` only. -/
theorem storedPda_step {step : BackendStep} (h : step.Valid perform)
    (hop : ∀ pda agreementId, step.op ≠ .sql (.draft (.setAgreement pda agreementId draftId))) :
    step.post.db.storedPda draftId = step.pre.db.storedPda draftId := by
  obtain hsame | ⟨s, out, hexecutes, hdrafts⟩ | ⟨writes, -, hwrites⟩ :=
    (stored_step h).1
  · rw [Db.storedPda, Db.storedPda, Db.draft?, Db.draft?, hsame]
  · refine DraftStmt.exec_storedPda hdrafts fun pda agreementId hs => ?_
    subst hs
    exact hop pda agreementId (by rw [hexecutes])
  · exact foldlM_apply_storedPda hwrites

/-- The address on a payment is written by the `UPDATE` for its draft only. -/
theorem PaymentChange.agreementPda_eq {step : BackendStep} {payment payment' : Payment}
    (h : PaymentChange step payment payment')
    (hop : ∀ pda, step.op ≠ .sql (.payment (.setAgreementPda pda payment.draftId))) :
    payment'.agreementPda = payment.agreementPda := by
  cases h with
  | link pda _ hlink => exact absurd hlink (hop pda)
  | _ => rfl

end StoredPda

/-! ## Tagged runs -/

/-- A call of `submit_draft`: the wallet of the caller and the draft. -/
structure Submission where
  pubkey : String
  draftId : Uuid
  deriving DecidableEq

/-- The programs of the backend, where the calls of `submit_draft` are tagged. -/
inductive TaggedEntry (env : Env) :
    Program (Option Submission × Op) (TaggedAns (Option Submission) Op.Ans) Unit → Prop
  | submit (auth : AuthUserWithWallet) (draftId : Uuid) (req : SubmitDraftRequest) :
      TaggedEntry env
        ((Handler.logged (submitDraft env auth draftId req)).tag (some ⟨auth.pubkey, draftId⟩))
  | other (p : Backend Unit) : Entry env p →
      (∀ auth draftId req, p ≠ Handler.logged (submitDraft env auth draftId req)) →
      TaggedEntry env (p.tag none)

/-- A step of a tagged program. -/
abbrev TaggedStep := Step (Option Submission × Op) (TaggedAns (Option Submission) Op.Ans) World

/-- Runs of any interleaving, with tagged operations. -/
abbrev TaggedRun (env : Env) (w : World) (steps : List TaggedStep) (w' : World) : Prop :=
  ∃ threads, PoolRun (performTagged (Option Submission) perform) (TaggedEntry env) ⟨w, []⟩ steps
    ⟨w', threads⟩

/-- A call of `submit_draft` by the draft's creator reads it paid and ready. -/
def admits (draftId : Uuid) : TaggedStep → Bool
  | ⟨_, (some call, .sql (.draft (.rowOf id))), .ok (some row), _⟩ =>
      call.draftId = draftId ∧ id = draftId ∧ row.creatorPubkey = call.pubkey ∧ row.paid ∧
        row.status = .readyToSubmit
  | _ => false

/-- What a submission does once: sign, store the address on the draft and on the payment. -/
inductive Mark : Type
  | sign
  | draft
  | payment
  deriving DecidableEq

/-- The operation is the marked one of a submission of the draft. -/
def Mark.marks (draftId : Uuid) : Mark → Option Submission × Op → Bool
  | sign, (some call, .vaultSign ..) => call.draftId = draftId
  | draft, (_, .sql (.draft (.setAgreement _ _ id))) => id = draftId
  | payment, (_, .sql (.payment (.setAgreementPda _ id))) => id = draftId
  | _, _ => false

/-! ### Credit of a submission -/

/-- What a step earns: the right to take each marked step once. -/
def earned (draftId : Uuid) (step : TaggedStep) : ℕ := if admits draftId step then 1 else 0

/-- What a step spends. -/
def spent (draftId : Uuid) (mark : Mark) (step : TaggedStep) : ℕ :=
  if mark.marks draftId step.op then 1 else 0

section Credit

variable {env : Env} {auth : AuthUserWithWallet} {draftId : Uuid} {mark : Mark}

/-- With its tag, the program leaves the given part of its balance. -/
abbrev LeavesAs (draftId : Uuid) (mark : Mark) (call : Option Submission) {α : Type}
    (p : Backend α) (balance left : ℕ) : Prop :=
  Leaves perform (fun step => earned draftId (step.tag call))
    (fun step => spent draftId mark (step.tag call)) p balance left

/-- Only the statements that store an address are counted, and the signatures of a submission. -/
theorem spent_eq_zero {call : Option Submission} {step : BackendStep}
    (hpersists : step.op.persists = false)
    (hsign : ∀ args creator blockhash, step.op = .vaultSign args creator blockhash → call = none) :
    spent draftId mark (step.tag call) = 0 := by
  refine if_neg fun hmarks => ?_
  unfold Mark.marks Step.tag at hmarks
  split at hmarks
  · rename_i heq
    obtain ⟨hcall, hop⟩ := Prod.mk.inj heq
    cases hcall.symm.trans (hsign _ _ _ hop)
  · rename_i heq
    rw [(Prod.mk.inj heq).2] at hpersists
    cases hpersists
  · rename_i heq
    rw [(Prod.mk.inj heq).2] at hpersists
    cases hpersists
  · cases hmarks

/-- The operation is none of those that earn or spend. -/
def Op.Neutral : Op → Prop
  | .sql (.draft (.rowOf _)) => False
  | .vaultSign .. => False
  | op => op.persists = false

theorem earned_spent_of_neutral {call : Option Submission} {step : BackendStep}
    (h : step.op.Neutral) :
    earned draftId (step.tag call) = 0 ∧ spent draftId mark (step.tag call) = 0 := by
  obtain ⟨w, op, answer, w'⟩ := step
  have hneutral : op.Neutral := h
  constructor
  · refine if_neg fun hadmits => ?_
    unfold admits Step.tag at hadmits
    split at hadmits
    · rename_i heq
      cases heq
      exact hneutral
    · cases hadmits
  · refine spent_eq_zero ?_ fun args creator blockhash hop => ?_
    · unfold Op.Neutral at hneutral
      split at hneutral
      · cases hneutral
      · cases hneutral
      · exact hneutral
    · obtain rfl : op = .vaultSign args creator blockhash := hop
      cases hneutral

/-- What the marked step of a call costs, if it is the one that is counted. -/
def Mark.cost (draftId : Uuid) (counted : Mark) (call : Submission) (mark : Mark) : ℕ :=
  if mark = counted ∧ call.draftId = draftId then 1 else 0

variable {pubkey : String} {id : Uuid}

theorem spent_vaultSign {args : CreateAgreementArgs} {creator : Pubkey} {blockhash : String}
    {step : BackendStep} (hop : step.op = .vaultSign args creator blockhash) :
    spent draftId mark (step.tag (some ⟨pubkey, id⟩)) ≤ mark.cost draftId ⟨pubkey, id⟩ .sign := by
  simp only [spent, Step.tag, hop, Mark.cost]
  cases mark <;> simp [Mark.marks]

theorem spent_setAgreement {pda : String} {agreementId : Bytes 16} {step : BackendStep}
    (hop : step.op = .sql (.draft (.setAgreement pda agreementId id))) :
    spent draftId mark (step.tag (some ⟨pubkey, id⟩)) ≤ mark.cost draftId ⟨pubkey, id⟩ .draft := by
  simp only [spent, Step.tag, hop, Mark.cost]
  cases mark <;> simp [Mark.marks]

theorem spent_setAgreementPda {pda : String} {step : BackendStep}
    (hop : step.op = .sql (.payment (.setAgreementPda pda id))) :
    spent draftId mark (step.tag (some ⟨pubkey, id⟩)) ≤
      mark.cost draftId ⟨pubkey, id⟩ .payment := by
  simp only [spent, Step.tag, hop, Mark.cost]
  cases mark <;> simp [Mark.marks]

/-- One of the three marked steps is counted. -/
theorem Mark.cost_sum (draftId : Uuid) (mark : Mark) (call : Submission) :
    mark.cost draftId call .payment + mark.cost draftId call .draft + mark.cost draftId call .sign =
      if call.draftId = draftId then 1 else 0 := by
  cases mark <;> simp [Mark.cost]

theorem leavesAs_orFail {call : Option Submission} {α : Type} {e : AppError}
    {p : Backend (Except Failure α)} {balance left : ℕ}
    (hp : LeavesAs draftId mark call p balance left) :
    LeavesAs draftId mark call (Handler.orFail e p).run balance left := by
  refine leaves_bind hp fun r => ?_
  cases r with
  | ok a => exact le_refl left
  | error failure => exact le_refl left

theorem leavesAs_of_neutral {call : Option Submission} {α : Type} {p : Backend α} {balance : ℕ}
    (hp : p.Issues Op.Neutral) : LeavesAs draftId mark call p balance balance :=
  leaves_of_issues hp fun _ h => earned_spent_of_neutral h

/-- The addresses are stored with what is left after signing. -/
theorem persistAgreement_leaves (pda : String) (agreementId : Bytes 16) :
    LeavesAs draftId mark (some ⟨pubkey, id⟩) (persistAgreement pda agreementId id).run
      (mark.cost draftId ⟨pubkey, id⟩ .payment + mark.cost draftId ⟨pubkey, id⟩ .draft) 0 := by
  refine leaves_run_bind (Nat.zero_le _)
    (leavesAs_orFail (leaves_issue fun step hop => spent_setAgreement hop)) fun _ => ?_
  rw [← Nat.zero_add (mark.cost draftId ⟨pubkey, id⟩ .payment)]
  exact leavesAs_orFail (leaves_issue fun step hop => spent_setAgreementPda hop)

/-- Building the transaction costs one signature. -/
theorem buildCreateAgreementTx_leaves (args : CreateAgreementArgs) (creator : Pubkey)
    (balance : ℕ) :
    LeavesAs draftId mark (some ⟨pubkey, id⟩) (buildCreateAgreementTx args creator).run
      (balance + mark.cost draftId ⟨pubkey, id⟩ .sign) balance := by
  refine leaves_run_bind (Nat.le_add_right _ _)
    (leavesAs_of_neutral (issues_run_bind (issues_orFail (issues_issue.mpr rfl)) fun _ => trivial))
    fun _ => ?_
  refine leaves_run_bind (Nat.le_add_right _ _) (leavesAs_of_neutral issues_okOr) fun argsData => ?_
  refine leaves_run_bind (Nat.le_add_right _ _)
    (leavesAs_of_neutral (issues_orFail (issues_issue.mpr rfl))) fun blockhash => ?_
  exact leavesAs_orFail (leaves_issue fun step hop => spent_vaultSign hop)

/-- Reading a draft that passes earns the right to submit it. -/
theorem getDraftRow_earns :
    Solvent perform (fun step => earned draftId (step.tag (some ⟨pubkey, id⟩)))
      (fun step => spent draftId mark (step.tag (some ⟨pubkey, id⟩))) (getDraftRow id).run 0
      fun r rest => ∀ row, r = .ok row → row.creatorPubkey = pubkey → row.paid = true →
        row.status = .readyToSubmit → id = draftId → 1 ≤ rest := by
  intro w answer w' _
  refine ⟨?_, ?_⟩
  · simp [spent, Step.tag, Mark.marks]
  · rcases answer with failure | _ | row
    · intro row hrow
      cases hrow
    · intro row hrow
      cases hrow
    · intro row' hrow hcreator hpaid hready hid
      obtain rfl : row' = row := (Except.ok.inj hrow).symm
      simp [earned, spent, Step.tag, admits, Mark.marks, hcreator, hpaid, hready, hid]

theorem creator_of_ensure {creator : String} {u : Unit}
    (h : ensureCreatorOnly (some pubkey) creator = .ok u) : creator = pubkey := by
  unfold ensureCreatorOnly at h
  by_cases hpubkey : pubkey = creator
  · exact hpubkey.symm
  · simp [hpubkey] at h

variable {α β : Type} {call : Option Submission} {balance : ℕ}
  {Φ : Except AppError β → ℕ → Prop}

theorem solvent_ofExcept_bind {earns spends : BackendStep → ℕ} {r : Except AppError α}
    {f : α → Handler β} (herror : ∀ e, Φ (.error e) balance)
    (hok : ∀ a, r = .ok a → Solvent perform earns spends (f a).run balance Φ) :
    Solvent perform earns spends (Handler.ofExcept r >>= f).run balance Φ := by
  cases r with
  | ok a => exact hok a rfl
  | error e => exact herror e

/-- A call that is let through has earned the right to submit. -/
theorem admitSubmission_earns (auth : AuthUserWithWallet) (req : SubmitDraftRequest) :
    Solvent perform (fun step => earned draftId (step.tag (some ⟨auth.pubkey, id⟩)))
      (fun step => spent draftId mark (step.tag (some ⟨auth.pubkey, id⟩)))
      (admitSubmission auth id req).run 0
      fun r rest => ∀ a, r = .ok a → (if id = draftId then 1 else 0) ≤ rest := by
  refine solvent_ofExcept_bind (fun _ _ h => nomatch h) fun _ _ => ?_
  refine solvent_ofExcept_bind (fun _ _ h => nomatch h) fun storageBackend _ => ?_
  refine solvent_run_bind.mpr (getDraftRow_earns.mono fun r rest hrest => ?_)
  cases r with
  | error e => exact fun _ h => nomatch h
  | ok draft =>
      refine solvent_ofExcept_bind (fun _ _ h => nomatch h) fun _ hcreator => ?_
      have hquery : (Handler.query (.account (.hasEmail auth.userId))).run.Issues Op.Neutral :=
        issues_query.mpr rfl
      refine solvent_run_bind.mpr ((solvent_of_issues rest hquery
        fun _ h => earned_spent_of_neutral h).mono fun r rest' hsame => ?_)
      cases r with
      | error e => exact fun _ h => nomatch h
      | ok hasEmail =>
          refine solvent_ofExcept_bind (fun _ _ h => nomatch h) fun _ hgates => ?_
          obtain ⟨hpaid, hready⟩ := paid_ready_of_gates hgates
          intro _ _
          rw [hsame]
          split
          · exact hrest draft rfl (creator_of_ensure hcreator) hpaid hready ‹_›
          · exact Nat.zero_le _

/-- A call of `submit_draft` is solvent from zero. -/
theorem submitDraft_solvent (auth : AuthUserWithWallet) (req : SubmitDraftRequest) :
    LeavesAs draftId mark (some ⟨auth.pubkey, id⟩) (submitDraft env auth id req).run 0 0 := by
  refine solvent_run_bind.mpr ((admitSubmission_earns auth req).mono fun r rest hrest => ?_)
  cases r with
  | error e => exact Nat.zero_le _
  | ok admitted =>
      obtain ⟨storageBackend, draft⟩ := admitted
      have hdue := hrest _ rfl
      rw [← Mark.cost_sum draftId mark ⟨auth.pubkey, id⟩] at hdue
      refine Leaves.of_le ?_ hdue
      have hzero := Nat.zero_le
      refine leaves_run_bind (hzero _) (leavesAs_of_neutral (issues_query.mpr rfl)) fun _ => ?_
      refine leaves_run_bind (hzero _) (leavesAs_of_neutral issues_okOr) fun payload => ?_
      refine leaves_run_bind (hzero _) (leavesAs_of_neutral issues_okOr) fun creator => ?_
      refine leaves_run_bind (hzero _) (leavesAs_of_neutral (issues_ask.mpr rfl))
        fun agreementId => ?_
      refine leaves_run_bind (hzero _) (leavesAs_of_neutral issues_okOr) fun contentHash => ?_
      refine leaves_run_bind (hzero _) (buildCreateAgreementTx_leaves _ _ _) fun transaction => ?_
      exact leaves_run_bind (hzero _) (persistAgreement_leaves _ _) fun _ => hzero _

/-- The programs of the backend are solvent from zero. -/
theorem taggedEntry_solvent
    {p : Program (Option Submission × Op) (TaggedAns (Option Submission) Op.Ans) Unit}
    (hp : TaggedEntry env p) :
    Solvent (performTagged (Option Submission) perform) (earned draftId) (spent draftId mark) p 0
      fun _ _ => True := by
  cases hp with
  | submit auth id req =>
      refine solvent_tag (solvent_bind.mpr ?_)
      exact (submitDraft_solvent auth req).mono fun _ _ _ => trivial
  | other p hp hother =>
      rcases entry_persists hp with ⟨auth, id, req, rfl⟩ | hfree
      · exact absurd rfl (hother auth id req)
      refine solvent_tag ((solvent_of_issues 0 hfree fun step hop => ⟨rfl, ?_⟩).mono
        fun _ _ _ => trivial)
      exact spent_eq_zero hop fun _ _ _ _ => rfl

end Credit

/-! ## Runs with one admitted submission -/

/-- The creator and the agreement that a submission of the draft has the vault sign for. -/
def signedFor (draftId : Uuid) : TaggedStep → Option (Pubkey × Bytes 16)
  | ⟨_, (some call, .vaultSign args creator _), .ok _, _⟩ =>
      if call.draftId = draftId then some (creator, args.agreementId) else none
  | _ => none

/-- No address is stored for the draft. -/
structure Unsubmitted (draftId : Uuid) (db : Db) : Prop where
  draft : db.storedPda draftId = none
  payment : ∀ payment ∈ db.payments.rows, payment.draftId = draftId → payment.agreementPda = none

/-- All signatures for the draft are for one agreement, and stored addresses are not replaced. -/
structure SubmittedOnce (draftId : Uuid) (steps : List TaggedStep) : Prop where
  signed : ∀ first ∈ steps.filterMap (signedFor draftId),
    ∀ second ∈ steps.filterMap (signedFor draftId), first = second
  draft : ∀ step ∈ steps, ∀ pda, step.pre.db.storedPda draftId = some pda →
    step.post.db.storedPda draftId = some pda
  payment : ∀ step ∈ steps, ∀ id payment pda, step.pre.db.payment? id = some payment →
    payment.draftId = draftId → payment.agreementPda = some pda →
    ∃ payment', step.post.db.payment? id = some payment' ∧ payment'.agreementPda = some pda

section Runs

variable {env : Env} {w w' : World} {steps : List TaggedStep} {draftId : Uuid}

/-- Each of the marked steps is taken at most as often as a call was admitted. -/
theorem marked_le_admitted (hrun : TaggedRun env w steps w') (mark : Mark) :
    steps.countP (fun step => mark.marks draftId step.op) ≤ steps.countP (admits draftId) := by
  obtain ⟨threads, hpool⟩ := hrun
  calc steps.countP (fun step => mark.marks draftId step.op)
      = (steps.map (spent draftId mark)).sum := (sum_map_ite _ steps).symm
    _ ≤ (steps.map (earned draftId)).sum := hpool.solvent fun p hp => taggedEntry_solvent hp
    _ = steps.countP (admits draftId) := sum_map_ite _ steps

/-- A signature for the draft is a marked step. -/
theorem marks_of_signedFor {step : TaggedStep} (h : (signedFor draftId step).isSome = true) :
    Mark.sign.marks draftId step.op = true := by
  unfold signedFor at h
  split at h
  · rename_i w₁ call args creator blockhash transaction w₂
    by_cases hcall : call.draftId = draftId
    · exact decide_eq_true hcall
    · rw [if_neg hcall] at h
      cases h
  · cases h

theorem signed_once (honce : steps.countP (fun step => Mark.sign.marks draftId step.op) ≤ 1) :
    ∀ first ∈ steps.filterMap (signedFor draftId),
      ∀ second ∈ steps.filterMap (signedFor draftId), first = second := by
  have hlength : (steps.filterMap (signedFor draftId)).length ≤ 1 := by
    rw [List.length_filterMap_eq_countP]
    exact (List.countP_mono_left fun step _ h => marks_of_signedFor h).trans honce
  generalize steps.filterMap (signedFor draftId) = signed at hlength
  match signed, hlength with
  | [], _ => simp
  | [only], _ => simp

/-- A step that does not store the address of the draft keeps it. -/
theorem storedPda_tagged {step : TaggedStep}
    (h : step.Valid (performTagged (Option Submission) perform))
    (hmark : Mark.draft.marks draftId step.op = false) :
    step.post.db.storedPda draftId = step.pre.db.storedPda draftId := by
  have hvalid : step.untag.Valid perform := h
  refine storedPda_step hvalid fun pda agreementId hop => ?_
  obtain ⟨pre, ⟨call, op⟩, answer, post⟩ := step
  obtain rfl : op = .sql (.draft (.setAgreement pda agreementId draftId)) := hop
  simp [Mark.marks] at hmark

/-- A step that is not marked does not store an address on the draft's payments. -/
theorem not_links_of_marks {step : TaggedStep} {payment : Payment}
    (hmark : Mark.payment.marks draftId step.op = false) (hdraft : payment.draftId = draftId)
    (pda : String) : step.untag.op ≠ .sql (.payment (.setAgreementPda pda payment.draftId)) := by
  intro hop
  obtain ⟨pre, ⟨call, op⟩, answer, post⟩ := step
  obtain rfl : op = .sql (.payment (.setAgreementPda pda payment.draftId)) := hop
  simp [Mark.marks, hdraft] at hmark

/-- If no payment of the draft has an address, then none has one after a step that is not marked. -/
theorem unlinked_tagged {step : TaggedStep}
    (h : step.Valid (performTagged (Option Submission) perform))
    (hmark : Mark.payment.marks draftId step.op = false)
    (hpre : ∀ payment ∈ step.pre.db.payments.rows, payment.draftId = draftId →
      payment.agreementPda = none) :
    ∀ payment ∈ step.post.db.payments.rows, payment.draftId = draftId →
      payment.agreementPda = none := by
  have hvalid : step.untag.Valid perform := h
  obtain ⟨f, hrows, hchange⟩ := payment_step hvalid
  intro payment' hmem hdraft
  obtain ⟨payment, hpayment, rfl⟩ := List.mem_map.mp (hrows ▸ hmem)
  have hsame : payment.draftId = draftId := (hchange payment hpayment).fixed.2.symm.trans hdraft
  rw [(hchange payment hpayment).agreementPda_eq (not_links_of_marks hmark hsame)]
  exact hpre payment hpayment hsame

/-- **One submission.**  In every interleaving in which a single call of `submit_draft` at most
reads the draft paid and ready, one agreement at most is signed for the draft, and the addresses
stored on it and on its payments are never replaced. -/
theorem submitted_once_of_admitted_once (hrun : TaggedRun env w steps w')
    (hinit : Unsubmitted draftId w.db) (honce : steps.countP (admits draftId) ≤ 1) :
    SubmittedOnce draftId steps := by
  have hmarked : ∀ mark : Mark, steps.countP (fun step => mark.marks draftId step.op) ≤ 1 :=
    fun mark => (marked_le_admitted hrun mark).trans honce
  obtain ⟨threads, hpool⟩ := hrun
  refine ⟨signed_once (hmarked .sign), ?_, ?_⟩
  · -- before the address is stored there is none, and no other step changes it
    have hnone := hpool.chain.before_marked (fun w => w.db.storedPda draftId = none) hinit.draft
      (fun step hvalid hmark hpre => (storedPda_tagged hvalid hmark).trans hpre) (hmarked .draft)
    intro step hmem pda hpre
    by_cases hmark : Mark.draft.marks draftId step.op = true
    · rw [hnone step hmem hmark] at hpre
      cases hpre
    · rwa [storedPda_tagged (hpool.chain.valid step hmem) (by simpa using hmark)]
  · have hnone := hpool.chain.before_marked (fun w => ∀ payment ∈ w.db.payments.rows,
        payment.draftId = draftId → payment.agreementPda = none) hinit.payment
      (fun step hvalid hmark hpre => unlinked_tagged hvalid hmark hpre) (hmarked .payment)
    intro step hmem id payment pda hpre hdraft hpda
    by_cases hmark : Mark.payment.marks draftId step.op = true
    · rw [hnone step hmem hmark payment (Db.payment?_eq_some.mp hpre).1 hdraft] at hpda
      cases hpda
    · have hvalid : step.untag.Valid perform := hpool.chain.valid step hmem
      obtain ⟨payment', hpost, hchange⟩ := payment?_step hvalid hpre
      refine ⟨payment', hpost, ?_⟩
      rw [hchange.agreementPda_eq (not_links_of_marks (by simpa using hmark) hdraft), hpda]

end Runs

/-! ## Two submissions -/

/-- A submission of the document. -/
def sampleSubmission : SubmitDraftRequest :=
  ⟨String.ofList (List.replicate 64 '0'), "ipfs://document", "ipfs"⟩

/-- A draft of Bob's that is paid and ready, and its payment. -/
def paidDraftDb : Db :=
  { accountsDb with
    drafts := ⟨[{ sampleDraft with
      draftPayload := (Agreement.DraftPayload.mk "Agreement" 1000 [⟨some aliceKey, none⟩]).toValue
      agreementPda := none }], by decide⟩
    payments := ⟨[{ samplePayment with status := .confirmed, confirmedAt := some 0 }], by decide⟩ }

theorem paidDraftDb_unsubmitted : Unsubmitted 2 paidDraftDb :=
  ⟨by decide +kernel, by decide +kernel⟩

/-- The users submit the draft, each call taking the given number of turns. -/
def submissions (calls : List (AuthUserWithWallet × ℕ)) :
    List (Move (Option Submission × Op) (TaggedAns (Option Submission) Op.Ans) World) :=
  calls.map (fun call =>
    .start ((Handler.logged (submitDraft sampleEnv call.1 2 sampleSubmission)).tag
    (some ⟨call.1.pubkey, 2⟩))) ++
  calls.zipIdx.flatMap fun call => List.replicate call.1.2
    (.run call.2 fun op w => cooperate 0 op.2 w)

theorem submissions_run (calls : List (AuthUserWithWallet × ℕ))
    (test : List TaggedStep → Bool)
    (h : (replay (performTagged (Option Submission) perform) [] ⟨World.ofDb paidDraftDb, []⟩
      (submissions calls)).any (fun result => test result.1) = true) :
    ∃ steps w', TaggedRun sampleEnv (World.ofDb paidDraftDb) steps w' ∧ test steps = true := by
  obtain ⟨⟨steps, pool⟩, hreplay, htest⟩ := (Option.any_eq_true _ _).mp h
  refine ⟨steps, pool.world, ⟨pool.threads, replay_run (fun p hp => ?_) .refl hreplay⟩, htest⟩
  rcases List.mem_append.mp hp with hp | hp
  · obtain ⟨call, -, hcall⟩ := List.mem_map.mp hp
    rw [← Move.start.inj hcall]
    exact .submit ..
  · obtain ⟨call, -, hcall⟩ := List.mem_flatMap.mp hp
    cases (List.mem_replicate.mp hcall).2

/-- Bob submits his draft, and Alice tries to. -/
theorem submitted_once_of_one_creator :
    ∃ steps w', TaggedRun sampleEnv (World.ofDb paidDraftDb) steps w' ∧
      (steps.filterMap (signedFor 2)).length = 1 ∧ SubmittedOnce 2 steps := by
  obtain ⟨steps, w', hrun, htest⟩ := submissions_run [(bob, 9), (alice, 1)]
    (fun steps => steps.countP (admits 2) ≤ 1 ∧ (steps.filterMap (signedFor 2)).length = 1)
    (by decide +kernel)
  obtain ⟨honce, hsigned⟩ := of_decide_eq_true htest
  exact ⟨steps, w', hrun, hsigned,
    submitted_once_of_admitted_once hrun paidDraftDb_unsubmitted honce⟩

theorem submitted_draft_signed_twice :
    ¬ ∀ (env : Env) (w w' : World) (steps : List TaggedStep) (draftId : Uuid),
      TaggedRun env w steps w' → Unsubmitted draftId w.db → SubmittedOnce draftId steps := by
  intro hclaim
  obtain ⟨steps, w', hrun, htest⟩ := submissions_run [(bob, 9), (bob, 9)]
    (fun steps => (steps.filterMap (signedFor 2)).any fun first =>
      (steps.filterMap (signedFor 2)).any fun second => first ≠ second)
    (by decide +kernel)
  obtain ⟨first, hfirst, htest⟩ := List.any_eq_true.mp htest
  obtain ⟨second, hsecond, hne⟩ := List.any_eq_true.mp htest
  exact of_decide_eq_true hne
    ((hclaim sampleEnv _ w' steps 2 hrun paidDraftDb_unsubmitted).signed first hfirst
      second hsecond)

end PactumCodex
