import PactumCodex.Steps
import PactumCodex.System

/-!
# The rows of `agreement_drafts` and `party_invitations` along a run

Rows are never removed, and new ones are appended.  A draft keeps its id, its
creator and its payload, and stays paid once it is; only the transaction of
`accept_invite` rewrites its party slots or makes it ready.  An invitation keeps
everything but its status and its reminders.

`drafts_step` and `invitations_step` are the row rules: they say of any step how the
old rows are found again (`DraftKept`, `InvitationKept`), that others are added only by
the operations that store some, and that steps outside a transaction keep the slots
as well (`SlotsKept`).  `draft?_step` and `draft?_step_back` are the same for one draft.
-/

namespace PactumCodex

open Interaction Relational

/-! ## Drafts -/

/-- What every step keeps of a draft. -/
structure DraftKept (draft draft' : Draft) : Prop where
  id : draft'.id = draft.id
  creatorPubkey : draft'.creatorPubkey = draft.creatorPubkey
  draftPayload : draft'.draftPayload = draft.draftPayload
  paid : draft.paid → draft'.paid

/-- What steps outside a transaction keep as well. -/
structure SlotsKept (draft draft' : Draft) : Prop where
  partySlots : draft'.partySlots = draft.partySlots
  status : draft'.status = draft.status ∨ draft'.status = .discarded

theorem DraftKept.refl (draft : Draft) : DraftKept draft draft := ⟨rfl, rfl, rfl, fun h => h⟩

theorem DraftKept.trans {a b c : Draft} (hab : DraftKept a b) (hbc : DraftKept b c) :
    DraftKept a c :=
  ⟨hbc.id.trans hab.id, hbc.creatorPubkey.trans hab.creatorPubkey,
    hbc.draftPayload.trans hab.draftPayload, fun h => hbc.paid (hab.paid h)⟩

theorem SlotsKept.refl (draft : Draft) : SlotsKept draft draft := ⟨rfl, Or.inl rfl⟩

/-- What a statement on drafts keeps. -/
theorem DraftStmt.exec_kept {s : DraftStmt} {out : s.Out} {db : Db}
    {drafts : Table Draft DraftsValid} (h : s.exec out db = some drafts) :
    RowsKept ((Op.sql (.draft s)).creates = true) (fun d d' => DraftKept d d' ∧ SlotsKept d d')
      db.drafts.rows drafts.rows := by
  have hrefl : ∀ draft, DraftKept draft draft ∧ SlotsKept draft draft :=
    fun draft => ⟨.refl draft, .refl draft⟩
  cases s with
  | insert => rw [rows_of_commit h]; exact rowsKept_append hrefl _ rfl
  | creatorOf => exact rowsKept_of_provided h hrefl
  | rowOf => exact rowsKept_of_provided h hrefl
  | discard =>
      exact rowsKept_of_commit h hrefl fun _ _ _ => ⟨⟨rfl, rfl, rfl, fun h => h⟩, ⟨rfl, Or.inr rfl⟩⟩
  | setStorage =>
      exact rowsKept_of_commit h hrefl fun _ _ _ => ⟨⟨rfl, rfl, rfl, fun h => h⟩, ⟨rfl, Or.inl rfl⟩⟩
  | setAgreement =>
      exact rowsKept_of_commit h hrefl fun _ _ _ => ⟨⟨rfl, rfl, rfl, fun h => h⟩, ⟨rfl, Or.inl rfl⟩⟩
  | setPaid =>
      exact rowsKept_of_commit h hrefl fun _ _ _ =>
        ⟨⟨rfl, rfl, rfl, fun _ => rfl⟩, ⟨rfl, Or.inl rfl⟩⟩

/-- The draft with other slots or another readiness. -/
def Resolved (draft draft' : Draft) : Prop :=
  draft' = { draft with
    partySlots := draft'.partySlots, status := draft'.status, readyAt := draft'.readyAt }

/-- A write of a transaction changes the slots and the readiness of one draft, or no draft. -/
theorem TxWrite.apply_drafts {write : TxWrite} {db db' : Db} (h : write.apply db = some db') :
    db'.drafts = db.drafts ∨ ∃ id f, (∀ draft, Resolved draft (f draft)) ∧
      db'.drafts.rows = updateWhere (fun draft => draft.id = id) f db.drafts.rows := by
  cases write with
  | acceptInvitation id =>
      obtain ⟨invitations, -, rfl⟩ := Option.map_eq_some_iff.mp h
      exact .inl rfl
  | resolveReady partySlots readyAt id =>
      obtain ⟨drafts, hcommit, rfl⟩ := Option.map_eq_some_iff.mp h
      refine .inr ⟨id, _, fun draft => ?_, rows_of_commit hcommit⟩
      rfl
  | resolve partySlots id =>
      obtain ⟨drafts, hcommit, rfl⟩ := Option.map_eq_some_iff.mp h
      refine .inr ⟨id, _, fun draft => ?_, rows_of_commit hcommit⟩
      rfl

theorem Resolved.kept {draft draft' : Draft} (h : Resolved draft draft') :
    DraftKept draft draft' := by
  rw [h]
  exact ⟨rfl, rfl, rfl, fun hpaid => hpaid⟩

/-- What a write of a transaction keeps of the drafts. -/
theorem TxWrite.apply_kept {write : TxWrite} {db db' : Db} (h : write.apply db = some db') :
    RowsKept False DraftKept db.drafts.rows db'.drafts.rows := by
  rcases TxWrite.apply_drafts h with hsame | ⟨id, f, hf, hrows⟩
  · rw [hsame]
    exact rowsKept_refl .refl
  · rw [hrows]
    exact rowsKept_updateWhere .refl fun draft _ _ => (hf draft).kept

/-- What the writes of a transaction keep of a table, if each of them keeps it. -/
theorem foldlM_apply_rowsKept {ρ : Type} {rows : Db → List ρ} {R : ρ → ρ → Prop}
    (hrefl : ∀ row, R row row) (htrans : ∀ a b c, R a b → R b c → R a c)
    (hwrites : ∀ (write : TxWrite) {db db' : Db}, write.apply db = some db' →
      RowsKept False R (rows db) (rows db'))
    {writes : List TxWrite} {db db' : Db} (h : writes.foldlM TxWrite.apply db = some db') :
    RowsKept False R (rows db) (rows db') :=
  foldlM_related (fun db db' => RowsKept False R (rows db) (rows db'))
    (fun _ => rowsKept_refl hrefl) (fun _ _ _ hfirst hsecond => hfirst.trans htrans hsecond)
    (fun write _ _ _ hwrite => hwrites write hwrite) h

theorem foldlM_apply_kept {writes : List TxWrite} {db db' : Db}
    (h : writes.foldlM TxWrite.apply db = some db') :
    RowsKept False DraftKept db.drafts.rows db'.drafts.rows :=
  foldlM_apply_rowsKept .refl (fun _ _ _ => .trans) (fun _ => TxWrite.apply_kept) h

/-- **Row rule for drafts.** -/
theorem drafts_step {step : BackendStep} (h : step.Valid perform) :
    RowsKept (step.op.creates = true)
      (fun d d' => DraftKept d d' ∧ (step.op.inTransaction = false → SlotsKept d d'))
      step.pre.db.drafts.rows step.post.db.drafts.rows := by
  have hrefl : ∀ draft, DraftKept draft draft ∧
      (step.op.inTransaction = false → SlotsKept draft draft) :=
    fun draft => ⟨.refl draft, fun _ => .refl draft⟩
  obtain hsame | ⟨s, out, hexecutes, hexec⟩ | ⟨writes, ⟨id, hop⟩, hwrites⟩ := (stored_step h).1
  · rw [hsame]
    exact rowsKept_refl hrefl
  · rw [hexecutes]
    exact (DraftStmt.exec_kept hexec).mono id fun _ _ hkept => ⟨hkept.1, fun _ => hkept.2⟩
  · refine (foldlM_apply_kept hwrites).mono False.elim fun _ _ hkept => ⟨hkept, fun hfree => ?_⟩
    rw [hop] at hfree
    cases hfree

/-- An update of a row that keeps its id. -/
theorem draft?_updateWhere {db : Db} {drafts : Table Draft DraftsValid} {p : Draft → Bool}
    {f : Draft → Draft} (h : commit (updateWhere p f db.drafts.rows) = some drafts)
    (hf : ∀ draft, (f draft).id = draft.id) {id : Uuid} {draft : Draft}
    (hdraft : db.draft? id = some draft) :
    ({ db with drafts } : Db).draft? id = some (if p draft then f draft else draft) := by
  obtain ⟨hmem, rfl⟩ := Db.draft?_eq_some.mp hdraft
  refine Db.draft?_eq_some.mpr ⟨?_, ?_⟩
  · show _ ∈ drafts.rows
    rw [rows_of_commit h]
    exact mem_updateWhere.mpr ⟨draft, hmem, rfl⟩
  · split
    · exact hf draft
    · rfl

/-- A draft is found again after a step. -/
theorem draft?_step {step : BackendStep} (h : step.Valid perform) {id : Uuid} {draft : Draft}
    (hpre : step.pre.db.draft? id = some draft) :
    ∃ draft', step.post.db.draft? id = some draft' ∧ DraftKept draft draft' ∧
      (step.op.inTransaction = false → SlotsKept draft draft') := by
  obtain ⟨hmem, hid⟩ := Db.draft?_eq_some.mp hpre
  obtain ⟨draft', hmem', hkept, hslots⟩ := (drafts_step h).exists_mem hmem
  exact ⟨draft', Db.draft?_eq_some.mpr ⟨hmem', hkept.id.trans hid⟩, hkept, hslots⟩

/-- Drafts are stored by `create_agreement` only. -/
theorem draft?_step_back {step : BackendStep} (h : step.Valid perform)
    (hop : step.op.creates = false) {id : Uuid} (hpost : (step.post.db.draft? id).isSome) :
    (step.pre.db.draft? id).isSome := by
  obtain ⟨draft', hdraft'⟩ := Option.isSome_iff_exists.mp hpost
  obtain ⟨hmem', hid⟩ := Db.draft?_eq_some.mp hdraft'
  obtain ⟨draft, hmem, hkept, -⟩ := (drafts_step h).exists_mem_back (by simp [hop]) hmem'
  exact Option.isSome_iff_exists.mpr
    ⟨draft, Db.draft?_eq_some.mpr ⟨hmem, hkept.id.symm.trans hid⟩⟩

/-! ## Invitations -/

/-- What every step keeps of an invitation. -/
structure InvitationKept (invitation invitation' : Invitation) : Prop where
  id : invitation'.id = invitation.id
  draftId : invitation'.draftId = invitation.draftId
  token : invitation'.token = invitation.token
  pending : invitation'.status = .pending → invitation.status = .pending

theorem InvitationKept.refl (invitation : Invitation) : InvitationKept invitation invitation :=
  ⟨rfl, rfl, rfl, fun h => h⟩

theorem InvitationKept.trans {a b c : Invitation} (hab : InvitationKept a b)
    (hbc : InvitationKept b c) : InvitationKept a c :=
  ⟨hbc.id.trans hab.id, hbc.draftId.trans hab.draftId, hbc.token.trans hab.token,
    fun h => hab.pending (hbc.pending h)⟩

/-- What a statement on invitations keeps. -/
theorem InvitationStmt.exec_kept {s : InvitationStmt} {out : s.Out} {db : Db}
    {invitations : Table Invitation InvitationsValid} (h : s.exec out db = some invitations) :
    RowsKept ((Op.sql (.invitation s)).stores = true) InvitationKept db.invitations.rows
      invitations.rows := by
  cases s with
  | insert =>
      simp only [exec, Option.ite_none_right_eq_some] at h
      rw [rows_of_commit h.2]
      exact rowsKept_append .refl _ rfl
  | insertReturning =>
      simp only [exec, Option.ite_none_right_eq_some] at h
      rw [rows_of_commit h.2]
      exact rowsKept_append .refl _ rfl
  | expiredOf => exact rowsKept_of_provided h .refl
  | expireStale =>
      simp only [exec, Option.ite_none_right_eq_some] at h
      exact rowsKept_of_commit h.2 .refl fun _ _ _ => ⟨rfl, rfl, rfl, by simp⟩
  | remindersDue => exact rowsKept_of_provided h .refl
  | markReminded =>
      exact rowsKept_of_commit h .refl fun _ _ _ => ⟨rfl, rfl, rfl, fun h => h⟩

/-- What a write of a transaction keeps of the invitations. -/
theorem TxWrite.apply_invitations {write : TxWrite} {db db' : Db} (h : write.apply db = some db') :
    RowsKept False InvitationKept db.invitations.rows db'.invitations.rows := by
  cases write with
  | acceptInvitation id =>
      obtain ⟨invitations, hcommit, rfl⟩ := Option.map_eq_some_iff.mp h
      exact rowsKept_of_commit hcommit .refl fun _ _ _ => ⟨rfl, rfl, rfl, by simp⟩
  | resolveReady | resolve =>
      obtain ⟨drafts, -, rfl⟩ := Option.map_eq_some_iff.mp h
      exact rowsKept_refl .refl

theorem foldlM_apply_invitations {writes : List TxWrite} {db db' : Db}
    (h : writes.foldlM TxWrite.apply db = some db') :
    RowsKept False InvitationKept db.invitations.rows db'.invitations.rows :=
  foldlM_apply_rowsKept .refl (fun _ _ _ => .trans) (fun _ => TxWrite.apply_invitations) h

/-- **Row rule for invitations.** -/
theorem invitations_step {step : BackendStep} (h : step.Valid perform) :
    RowsKept (step.op.stores = true) InvitationKept step.pre.db.invitations.rows
      step.post.db.invitations.rows := by
  obtain hsame | ⟨s, out, hexecutes, hexec⟩ | ⟨writes, -, hwrites⟩ := (stored_step h).2
  · rw [hsame]
    exact rowsKept_refl .refl
  · rw [hexecutes]
    exact InvitationStmt.exec_kept hexec
  · exact (foldlM_apply_invitations hwrites).mono False.elim fun _ _ h => h

/-! ## Identifiers and transactions -/

/-- Generated identifiers are remembered. -/
theorem uuids_step {step : BackendStep} (h : step.Valid perform) :
    ∀ id ∈ step.pre.uuids, id ∈ step.post.uuids := by
  cases Step.effect h with
  | executed s out w w' _ _ _ huuids _ =>
      intro id hid
      rw [huuids]
      exact List.mem_append_right _ hid
  | committed id tx w w' _ _ huuids _ =>
      intro id hid
      rw [huuids]
      exact hid
  | silent step _ huuids => exact huuids

/-- Transactions are changed by their own operations only. -/
theorem txs_step {step : BackendStep} (h : step.Valid perform)
    (hop : step.op.inTransaction = false) : step.post.txs = step.pre.txs := by
  obtain ⟨w, op, ans, w'⟩ := step
  change perform op ans w = some w' at h
  cases op with
  | sql s =>
      cases ans with
      | ok out =>
          obtain ⟨-, -, db, -, rfl⟩ := performSql_eq_some.mp h
          rfl
      | error e => rw [show w' = w from (Option.some.inj h).symm]
  | begin => simp [Op.inTransaction] at hop
  | tx id s => simp [Op.inTransaction] at hop
  | commit id => simp [Op.inTransaction] at hop
  | rollback id => simp [Op.inTransaction] at hop
  | dbNow =>
      obtain ⟨-, rfl⟩ := provided_eq_some.mp h
      rfl
  | newUuid =>
      obtain ⟨-, rfl⟩ := provided_eq_some.mp h
      rfl
  | _ => rw [show w' = w from (Option.some.inj h).symm]

end PactumCodex
