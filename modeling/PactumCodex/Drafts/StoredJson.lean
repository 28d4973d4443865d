import PactumCodex.Drafts.Lifecycle
import PactumCodex.Drafts.Locks
import PactumCodex.Replay

/-!
# The JSON columns of a stored draft are read back

`create_agreement` encodes the payload and the party slots of a draft,
`accept_invite` decodes, changes and encodes the slots again, and `submit_draft`
decodes the payload; each of them with its own copy of the types.  However
requests are interleaved, both columns of a draft hold encodings, and so do the
writes that open transactions have buffered (`Encoded`).  A decoder that is given
one of them gets what was written, and does not fail.

## Strategy

* `accept_invite` computes what it writes from what it has read, so its writes are
  encodings whatever it has read (`entry_encodesSlots`).  No other program writes
  slots of a stored draft.
* A buffered write reaches the draft by the commit of its transaction, later than
  it was issued.  So the invariant has to speak of open transactions as well:
  `tx_writes_step` says where their writes come from, and `slots_step` what a step
  does to the slots of the draft.
* `Encoded.chain` is the induction along a run; it adds the lists that the steps
  write to those that the column may hold.

What a handler reads of the draft under its lock is then one of these
(`Encoded.decodes`), and the round trips of the codecs apply.
-/

namespace PactumCodex

open Interaction Relational Handlers Handlers.Invite

/-! ## What is written -/

/-- The party slots that a write stores, with the draft. -/
def TxWrite.slots : TxWrite → Option (Uuid × Json)
  | .acceptInvitation _ => none
  | .resolveReady partySlots _ id => some (id, partySlots)
  | .resolve partySlots id => some (id, partySlots)

/-- The party slots that an operation writes, with the draft. -/
def Op.slots : Op → Option (Uuid × Json)
  | .tx _ (.write write) => write.slots
  | _ => none

/-- An operation writes party slots as `accept_invite` encodes them. -/
def Op.EncodesSlots (op : Op) : Prop :=
  ∀ id json, op.slots = some (id, json) → ∃ slots, json = slotsToValue slots

/-- The entries that a step writes into the party slots of the draft. -/
def entriesWritten (draftId : Uuid) (step : BackendStep) : Option (List DraftPartyEntry) :=
  step.op.slots.bind fun (id, json) => if id = draftId then slotsFromValue json else none

section Issues

theorem encodesSlots_of_not_tx {op : Op} (h : op.inTransaction = false) : op.EncodesSlots := by
  intro id json hslots
  cases op with
  | tx => cases h
  | _ => cases hslots

theorem slotsWrite_slots (slots : List DraftPartyEntry) (now : ℤ) (draftId : Uuid) :
    (slotsWrite slots now draftId).slots = some (draftId, slotsToValue slots) := by
  unfold slotsWrite
  split <;> rfl

theorem acceptInTx_encodesSlots (auth : AuthUserWithWallet) (token : String) (now : ℤ) (tx : ℕ) :
    (acceptInTx auth token now tx).run.Issues Op.EncodesSlots := by
  unfold acceptInTx txQuery
  refine issues_run_bind (issues_orFail_issue.mpr fun _ _ h => by cases h) fun _ => ?_
  refine issues_run_bind issues_okOr fun invite => ?_
  refine issues_run_bind issues_ofExcept fun _ => ?_
  refine issues_run_bind (issues_orFail_issue.mpr fun _ _ h => by cases h) fun _ => ?_
  refine issues_run_bind issues_okOr fun draft => ?_
  refine issues_run_bind issues_okOr fun _ => ?_
  refine issues_run_bind issues_okOr fun slots => ?_
  refine issues_run_bind (issues_orFail_issue.mpr fun _ _ h => by cases h) fun _ => ?_
  refine issues_run_bind (issues_orFail_issue.mpr fun id json h => ?_) fun _ => trivial
  have hslots : some (invite.draftId, slotsToValue slots) = some (id, json) :=
    (slotsWrite_slots ..).symm.trans h
  exact ⟨slots, (Prod.mk.inj (Option.some.inj hslots)).2.symm⟩

/-- All programs write party slots as encodings. -/
theorem entry_encodesSlots {env : Env} {p : Backend Unit} (hp : Entry env p) :
    p.Issues Op.EncodesSlots := by
  have hfree : ∀ {q : Backend Unit}, (q.Issues fun op => op.inTransaction = false) →
      q.Issues Op.EncodesSlots := fun h => h.mono fun _ => encodesSlots_of_not_tx
  have hbegin : Op.EncodesSlots .begin := fun _ _ h => by cases h
  have hnow : Op.EncodesSlots .utcNow := encodesSlots_of_not_tx rfl
  rcases entry_single hp with ⟨auth, req, rfl⟩ | ⟨auth, token, rfl⟩ | hsingle
  · exact hfree (issues_logged ((createAgreement_issues ..).mono fun _ h => h.1.inTransaction))
  · refine issues_logged ?_
    unfold acceptInvite
    refine issues_run_bind (issues_ask.mpr hnow) fun now => ?_
    refine issues_run_bind (issues_orFail (issues_issue.mpr hbegin)) fun tx => ?_
    refine issues_run_bind (issues_rollbackOnError (acceptInTx_encodesSlots ..)
      fun _ _ h => by cases h) fun acceptance => ?_
    refine issues_run_bind (issues_orFail (issues_issue.mpr fun _ _ h => by cases h)) fun _ => ?_
    split
    · exact ((notifyReady_issues ..).mono fun _ h =>
        encodesSlots_of_not_tx h.steady.inTransaction)
    · trivial
  · exact hfree (hsingle.mono fun _ h => h.1)

end Issues

/-! ## What is stored -/

section Stored

variable {step : BackendStep}

/-- A transaction has the writes that it had before, and the one that the step buffers. -/
theorem tx_writes_step (h : step.Valid perform) {tx' : Tx} (htx' : tx' ∈ step.post.txs)
    {write : TxWrite} (hwrite : write ∈ tx'.writes) :
    (∃ tx ∈ step.pre.txs, write ∈ tx.writes) ∨ ∃ id, step.op = .tx id (.write write) := by
  by_cases hop : step.op.inTransaction = false
  · have htxs := txs_step h hop
    exact .inl ⟨tx', htxs ▸ htx', hwrite⟩
  obtain ⟨w, op, ans, w'⟩ := step
  change perform op ans w = some w' at h
  have hdropped : ∀ {id : ℕ}, tx' ∈ w.txs.filter (fun other => other.id ≠ id) →
      ∃ tx ∈ w.txs, write ∈ tx.writes :=
    fun hmem => ⟨tx', List.mem_of_mem_filter hmem, hwrite⟩
  cases op with
  | begin =>
      cases ans with
      | ok id =>
          obtain ⟨rfl, rfl⟩ := provided_eq_some.mp h
          rcases List.mem_cons.mp htx' with rfl | hmem
          · cases hwrite
          · exact .inl ⟨tx', hmem, hwrite⟩
      | error e =>
          obtain rfl : w = w' := Option.some.inj h
          exact .inl ⟨tx', htx', hwrite⟩
  | tx id s =>
      cases ans with
      | ok out =>
          obtain ⟨tx, new, hfind, rfl, hid, hwrites, -⟩ := performTx_effect h
          -- the transaction of the statement, or one of the others
          rcases mem_setTx htx' with rfl | ⟨hmem, -⟩
          · rw [hwrites] at hwrite
            rcases List.mem_append.mp hwrite with hold | hnew
            · exact .inl ⟨tx, List.mem_of_find?_eq_some hfind, hold⟩
            · cases s with
              | write change =>
                  rw [TxStmt.writes, List.mem_singleton] at hnew
                  exact .inr ⟨id, by rw [hnew]⟩
              | _ => cases hnew
          · exact .inl ⟨tx', hmem, hwrite⟩
      | error e =>
          obtain rfl : w = w' := Option.some.inj h
          exact .inl ⟨tx', htx', hwrite⟩
  | commit id =>
      cases ans with
      | ok _ =>
          obtain ⟨-, db, -, -, rfl⟩ := performCommit_eq_some.mp h
          exact .inl (hdropped htx')
      | error e =>
          obtain rfl : w.dropTx id = w' := Option.some.inj h
          exact .inl (hdropped htx')
  | rollback id =>
      obtain rfl : w.dropTx id = w' := Option.some.inj h
      exact .inl (hdropped htx')
  | _ => exact absurd rfl hop

/-- An update of one draft leaves the slots of another, and stores the given ones. -/
theorem slots_of_update {db : Db} {drafts : Table Draft DraftsValid} {written : Uuid} {json : Json}
    {f : Draft → Draft}
    (hcommit : commit
      (updateWhere (fun draft => draft.id = written) f db.drafts.rows) = some drafts)
    (hid : ∀ draft, (f draft).id = draft.id) (hslots : ∀ draft, (f draft).partySlots = json)
    {id : Uuid} {draft : Draft} (hdraft : db.draft? id = some draft) :
    ∃ draft', ({ db with drafts } : Db).draft? id = some draft' ∧
      (draft'.partySlots = draft.partySlots ∨
        some (written, json) = some (id, draft'.partySlots)) := by
  obtain ⟨-, rfl⟩ := Db.draft?_eq_some.mp hdraft
  refine ⟨_, draft?_updateWhere hcommit hid hdraft, ?_⟩
  split
  · rename_i hwritten
    rw [hslots, of_decide_eq_true hwritten]
    exact .inr rfl
  · exact .inl rfl

/-- A write leaves the slots of a draft or stores its own. -/
theorem TxWrite.apply_slots {write : TxWrite} {db db' : Db} (h : write.apply db = some db')
    {id : Uuid} {draft : Draft} (hdraft : db.draft? id = some draft) :
    ∃ draft', db'.draft? id = some draft' ∧
      (draft'.partySlots = draft.partySlots ∨ write.slots = some (id, draft'.partySlots)) := by
  cases write with
  | acceptInvitation _ =>
      obtain ⟨invitations, -, rfl⟩ := Option.map_eq_some_iff.mp h
      exact ⟨draft, hdraft, .inl rfl⟩
  | resolveReady partySlots readyAt written =>
      obtain ⟨drafts, hcommit, rfl⟩ := Option.map_eq_some_iff.mp h
      exact slots_of_update hcommit (fun _ => rfl) (fun _ => rfl) hdraft
  | resolve partySlots written =>
      obtain ⟨drafts, hcommit, rfl⟩ := Option.map_eq_some_iff.mp h
      exact slots_of_update hcommit (fun _ => rfl) (fun _ => rfl) hdraft

theorem foldlM_apply_slots {writes : List TxWrite} {db db' : Db}
    (h : writes.foldlM TxWrite.apply db = some db') {id : Uuid} {draft : Draft}
    (hdraft : db.draft? id = some draft) :
    ∃ draft', db'.draft? id = some draft' ∧ (draft'.partySlots = draft.partySlots ∨
      ∃ write ∈ writes, write.slots = some (id, draft'.partySlots)) := by
  induction writes generalizing db draft with
  | nil =>
      obtain rfl : db = db' := by simpa using h
      exact ⟨draft, hdraft, .inl rfl⟩
  | cons write writes ih =>
      rw [List.foldlM_cons] at h
      obtain ⟨db₁, hwrite, hrest⟩ := Option.bind_eq_some_iff.mp h
      obtain ⟨draft₁, hdraft₁, hslots₁⟩ := TxWrite.apply_slots hwrite hdraft
      obtain ⟨draft', hdraft', hslots'⟩ := ih hrest hdraft₁
      refine ⟨draft', hdraft', ?_⟩
      rcases hslots' with hsame | ⟨later, hlater, hslots⟩
      · rcases hslots₁ with hfirst | hfirst
        · exact .inl (hsame.trans hfirst)
        · exact .inr ⟨write, List.mem_cons_self, by rw [hsame, hfirst]⟩
      · exact .inr ⟨later, List.mem_cons_of_mem _ hlater, hslots⟩

/-- The slots of a draft change by the writes of a transaction only. -/
theorem slots_step (h : step.Valid perform) {id : Uuid} {draft : Draft}
    (hdraft : step.pre.db.draft? id = some draft) :
    ∃ draft', step.post.db.draft? id = some draft' ∧
      (draft'.partySlots = draft.partySlots ∨
        ∃ tx ∈ step.pre.txs, ∃ write ∈ tx.writes, write.slots = some (id, draft'.partySlots)) := by
  cases Step.effect h with
  | executed s out w w' =>
      obtain ⟨draft', hdraft', -, hslots⟩ := draft?_step h hdraft
      exact ⟨draft', hdraft', .inl (hslots rfl).partySlots⟩
  | committed txId tx w w' hfind hwrites =>
      obtain ⟨draft', hdraft', hslots⟩ := foldlM_apply_slots hwrites hdraft
      refine ⟨draft', hdraft', hslots.imp_right fun ⟨write, hmem, hslots⟩ => ?_⟩
      exact ⟨tx, List.mem_of_find?_eq_some hfind, write, hmem, hslots⟩
  | silent step hdb =>
      exact ⟨draft, by rw [hdb]; exact hdraft, .inl rfl⟩

end Stored

/-! ## Encodings along a run -/

/-- The draft has the payload, its slots are the encoding of one of the lists, and so are the slots
that an open transaction is about to store. -/
structure Encoded (draftId : Uuid) (payload : Agreement.DraftPayload)
    (written : List (List DraftPartyEntry))
    (w : World) : Prop where
  row : ∃ draft slots, w.db.draft? draftId = some draft ∧ draft.draftPayload = payload.toValue ∧
    draft.partySlots = slotsToValue slots ∧ slots ∈ written
  buffered : ∀ tx ∈ w.txs, ∀ write ∈ tx.writes, ∀ json, write.slots = some (draftId, json) →
    ∃ slots ∈ written, json = slotsToValue slots

/-- A step hands JSON of the draft to a decoder that does not accept it: `accept_invite` the slots
that it has locked, or `submit_draft` the payload that it has read. -/
def failsToDecode (draftId : Uuid) : BackendStep → Bool
  | ⟨_, .tx _ (.lockDraft id), .ok (some row), _⟩ =>
      id = draftId && (slotsFromValue row.partySlots).isNone
  | ⟨_, .sql (.draft (.rowOf id)), .ok (some row), _⟩ =>
      id = draftId && (Draft.DraftPayload.fromValue row.draftPayload).isNone
  | _ => false

section Encoded

variable {draftId : Uuid} {payload : Agreement.DraftPayload} {written : List (List DraftPartyEntry)}
variable {step : BackendStep}

/-- The slots that a step writes are among those written. -/
theorem entriesWritten_of_slots {json : Json} (hencodes : step.op.EncodesSlots)
    (h : step.op.slots = some (draftId, json)) :
    ∃ slots, entriesWritten draftId step = some slots ∧ json = slotsToValue slots := by
  obtain ⟨slots, rfl⟩ := hencodes draftId json h
  refine ⟨slots, ?_, rfl⟩
  simp [entriesWritten, h]

theorem Encoded.kept (h : Encoded draftId payload written step.pre) (hvalid : step.Valid perform)
    (hencodes : step.op.EncodesSlots) :
    Encoded draftId payload (written ++ (entriesWritten draftId step).toList) step.post := by
  obtain ⟨draft, slots, hdraft, hpayload, hslots, hmem⟩ := h.row
  refine ⟨?_, fun tx htx write hwrite json hjson => ?_⟩
  · obtain ⟨draft', hdraft', hcolumn⟩ := slots_step hvalid hdraft
    obtain ⟨other, hother, hkept, -⟩ := draft?_step hvalid hdraft
    obtain rfl : other = draft' := Option.some.inj (hother.symm.trans hdraft')
    have hpayload' := hkept.draftPayload.trans hpayload
    rcases hcolumn with hsame | ⟨tx, htx, write, hwrite, hstored⟩
    · exact ⟨other, slots, hdraft', hpayload', hsame.trans hslots, List.mem_append_left _ hmem⟩
    · obtain ⟨stored, hstoredMem, hencoding⟩ := h.buffered tx htx write hwrite _ hstored
      exact ⟨other, stored, hdraft', hpayload', hencoding, List.mem_append_left _ hstoredMem⟩
  · rcases tx_writes_step hvalid htx hwrite with ⟨old, hold, hmemOld⟩ | ⟨id, hop⟩
    · obtain ⟨stored, hstoredMem, hencoding⟩ := h.buffered old hold write hmemOld json hjson
      exact ⟨stored, List.mem_append_left _ hstoredMem, hencoding⟩
    · have hopSlots : step.op.slots = some (draftId, json) := by
        rw [hop]
        exact hjson
      obtain ⟨stored, hstored, hencoding⟩ := entriesWritten_of_slots hencodes hopSlots
      exact ⟨stored, List.mem_append_right _ (by simp [hstored]), hencoding⟩

/-- Along a chain the lists written are added. -/
theorem Encoded.chain {w w' : World} {steps : List BackendStep} {entries : List DraftPartyEntry}
    (h : Encoded draftId payload [entries] w) (hchain : Chain perform w steps w')
    (hencodes : ∀ step ∈ steps, step.op.EncodesSlots) :
    Encoded draftId payload (entries :: steps.filterMap (entriesWritten draftId)) w' := by
  show Encoded draftId payload (entries :: ([] ++ steps).filterMap (entriesWritten draftId)) w'
  refine hchain.invariant_traced (fun past => Encoded draftId payload
    (entries :: past.filterMap (entriesWritten draftId))) h fun past step hmem hvalid hpre => ?_
  have hkept := hpre.kept hvalid (hencodes step hmem)
  have hwritten : (past ++ [step]).filterMap (entriesWritten draftId) =
      past.filterMap (entriesWritten draftId) ++ (entriesWritten draftId step).toList := by
    rw [List.filterMap_append]
    rfl
  rw [hwritten]
  exact hkept

/-- What is read of the draft is accepted by the decoder. -/
theorem Encoded.decodes (h : Encoded draftId payload written step.pre)
    (hvalid : step.Valid perform) : failsToDecode draftId step = false := by
  obtain ⟨draft, slots, hdraft, hpayload, hslots, -⟩ := h.row
  obtain ⟨w, op, ans, w'⟩ := step
  change perform op ans w = some w' at hvalid
  unfold failsToDecode
  -- the slots that `accept_invite` has locked, then the payload that `submit_draft` reads
  split
  · rename_i id row _ heq
    cases heq
    have hlocked : performTx _ (.lockDraft id) (some row) w = some w' := hvalid
    obtain ⟨-, -, -, -, -, -, hreturns⟩ := performTx_effect hlocked
    have hrow : some row = (w.db.draft? id).map fun draft =>
      ⟨draft.partySlots, draft.creatorPubkey⟩ := hreturns
    rw [Bool.and_eq_false_iff, decide_eq_false_iff_not]
    by_cases hid : id = draftId
    · subst hid
      rw [show w.db.draft? id = some draft from hdraft] at hrow
      have hcolumn : row.partySlots = draft.partySlots := by rw [Option.some.inj hrow]
      rw [hcolumn, hslots, slotsFromValue_slotsToValue]
      exact .inr rfl
    · exact .inl hid
  · rename_i id row _ heq
    cases heq
    obtain ⟨-, -, db, hexec, -⟩ := performSql_eq_some.mp hvalid
    obtain ⟨drafts, hdrafts, -⟩ := Option.map_eq_some_iff.mp hexec
    obtain ⟨hrow, -⟩ := provided_eq_some.mp hdrafts
    rw [Bool.and_eq_false_iff, decide_eq_false_iff_not]
    by_cases hid : id = draftId
    · subst hid
      rw [show w.db.draft? id = some draft from hdraft] at hrow
      have hcolumn : row.draftPayload = draft.draftPayload := by rw [Option.some.inj hrow]
      rw [hcolumn, hpayload, Draft.DraftPayload.fromValue_toValue]
      exact .inr rfl
    · exact .inl hid
  · rfl

end Encoded

/-! ## Drafts that were stored -/

section Runs

variable {env : Env} {auth : AuthUserWithWallet} {req : CreateAgreementRequest} {draftId : Uuid}
variable {w w₁ w₂ : World} {first steps : List BackendStep}
variable {r : Except AppError CreateAgreementResponse}

/-- A request after which there is a new draft has stored it. -/
theorem stored_of_new (hcreate : Runs perform (createAgreement env auth req).run w first r w₁)
    (hold : w.db.draft? draftId = none) (hnew : (w₁.db.draft? draftId).isSome) :
    ∃ entries, Stored env auth req w w₁ draftId entries := by
  obtain ⟨draft, hdraft⟩ := Option.isSome_iff_exists.mp hnew
  rcases createAgreement_ensures first r w₁ hcreate with ⟨hsame, -⟩ | ⟨stored, entries, hstored, -⟩
  · rw [Db.draft?, hsame.drafts, ← Db.draft?, hold] at hdraft
    cases hdraft
  · obtain ⟨hmem, hid⟩ := Db.draft?_eq_some.mp hdraft
    rw [hstored.drafts] at hmem
    rcases List.mem_append.mp hmem with hmem | hmem
    · rw [Db.draft?_eq_some.mpr ⟨hmem, hid⟩] at hold
      cases hold
    · rw [List.mem_singleton.mp hmem] at hid
      obtain rfl : stored = draftId := hid
      exact ⟨entries, hstored⟩

theorem encoded_stored {entries : List Agreement.DraftPartyEntry}
    (h : Stored env auth req w w₁ draftId entries) (hw : w.txs = []) :
    Encoded draftId ⟨req.title, req.expiresInSecs, entries⟩
      [entries.map Agreement.DraftPartyEntry.toInvite] w₁ := by
  have hdraft : w₁.db.draft? draftId =
      some (newDraft draftId auth.pubkey ⟨req.title, req.expiresInSecs, entries⟩) := by
    refine Db.draft?_eq_some.mpr ⟨?_, rfl⟩
    rw [h.drafts]
    exact List.mem_append_right _ (List.mem_singleton_self _)
  refine ⟨⟨_, _, hdraft, rfl, Agreement.slotsToValue_eq _, List.mem_singleton_self _⟩, ?_⟩
  rw [h.txs, hw]
  exact fun _ hmem => absurd hmem List.not_mem_nil

/-- The columns of the draft are the JSON that was written for the payload and the slots, and the
decoders return the same. -/
structure ReadsBack (payload : Agreement.DraftPayload) (slots : List DraftPartyEntry)
    (draft : Draft) :
    Prop where
  draftPayload : draft.draftPayload = payload.toValue
  payloadDecodes : Draft.DraftPayload.fromValue draft.draftPayload = some payload.toDraft
  partySlots : draft.partySlots = slotsToValue slots
  slotsDecode : slotsFromValue draft.partySlots = some slots

theorem Encoded.readsBack {payload : Agreement.DraftPayload} {written : List (List DraftPartyEntry)}
    (h : Encoded draftId payload written w) :
    ∃ draft slots, w.db.draft? draftId = some draft ∧ ReadsBack payload slots draft ∧
      slots ∈ written := by
  obtain ⟨draft, slots, hdraft, hpayload, hslots, hmem⟩ := h.row
  refine ⟨draft, slots, hdraft, ⟨hpayload, ?_, hslots, ?_⟩, hmem⟩
  · rw [hpayload, Draft.DraftPayload.fromValue_toValue]
  · rw [hslots, slotsFromValue_slotsToValue]

/-- **Stored drafts are read back.**  After a request that stores a draft, and whatever is
interleaved then, the payload decodes to the title, the expiry and the entries of the request, and
the slots to the entries that the request or an acceptance wrote there.  No decoder fails on what a
handler has read of the draft. -/
theorem stored_draft_reads_back (hw : w.txs = [])
    (hcreate : Runs perform (createAgreement env auth req).run w first r w₁)
    (hold : w.db.draft? draftId = none) (hnew : (w₁.db.draft? draftId).isSome)
    (hrun : SystemRun env w₁ steps w₂) :
    ∃ entries, List.Forall₂ (SlotFor env w.db) req.parties entries ∧
      (∃ draft slots, w₂.db.draft? draftId = some draft ∧
        ReadsBack ⟨req.title, req.expiresInSecs, entries⟩ slots draft ∧
        slots ∈ entries.map Agreement.DraftPartyEntry.toInvite ::
          steps.filterMap (entriesWritten draftId)) ∧
      ∀ step ∈ steps, failsToDecode draftId step = false := by
  obtain ⟨entries, hstored⟩ := stored_of_new hcreate hold hnew
  obtain ⟨threads, hpool⟩ := hrun
  have hstart := encoded_stored hstored hw
  have hissued := hpool.issued fun p hp => entry_encodesSlots hp
  refine ⟨entries, hstored.forParties, (hstart.chain hpool.chain hissued).readsBack, ?_⟩
  intro step hmem
  obtain ⟨before, after, rfl⟩ := List.append_of_mem hmem
  obtain ⟨hbefore, hvalid, -⟩ := hpool.chain.split
  have hpre := hstart.chain hbefore fun earlier hearlier =>
    hissued earlier (List.mem_append_left _ hearlier)
  exact hpre.decodes hvalid

end Runs

/-- Bob invites Alice, and she accepts. -/
theorem stored_draft_reads_back_alice :
    ∃ first r w₁ steps w₂,
      Runs perform (createAgreement sampleEnv bob (requestFor [.email "alice@pactum"])).run
        (World.ofDb accountsDb) first r w₁ ∧
      SystemRun sampleEnv w₁ steps w₂ ∧
      steps.filterMap (entriesWritten firstDraft) = [[⟨some aliceKey, none⟩]] ∧
      ∃ entries, List.Forall₂ (SlotFor sampleEnv accountsDb) [.email "alice@pactum"] entries ∧
        (∃ draft slots, w₂.db.draft? firstDraft = some draft ∧
          ReadsBack ⟨(requestFor [.email "alice@pactum"]).title,
            (requestFor [.email "alice@pactum"]).expiresInSecs, entries⟩ slots draft ∧
          slots ∈ entries.map Agreement.DraftPartyEntry.toInvite ::
            steps.filterMap (entriesWritten firstDraft)) ∧
        ∀ step ∈ steps, failsToDecode firstDraft step = false := by
  have hrun : (interpret perform (cooperate 0)
      (createAgreement sampleEnv bob (requestFor [.email "alice@pactum"])).run
        (World.ofDb accountsDb)).any (fun created =>
      (created.2.2.db.draft? firstDraft).isSome &&
      (replay perform [] ⟨created.2.2, []⟩
        (schedule [Handler.logged (acceptInvite alice firstToken)]
          (List.replicate 7 (0, cooperate 0)))).any fun accepted =>
            decide (accepted.1.filterMap (entriesWritten firstDraft) =
              [[⟨some aliceKey, none⟩]])) = true := by
    decide +kernel
  obtain ⟨⟨first, r, w₁⟩, hcreate, hrun⟩ := (Option.any_eq_true _ _).mp hrun
  rw [Bool.and_eq_true] at hrun
  obtain ⟨hnew, hreplay⟩ := hrun
  have hentry : ∀ p ∈ [Handler.logged (acceptInvite alice firstToken)], Entry sampleEnv p := by
    intro p hp
    rw [List.mem_singleton.mp hp]
    exact .acceptInvite ..
  obtain ⟨steps, w₂, hsystem, hwritten⟩ := systemRun_of_replay w₁ _
    (fun steps _ => decide (steps.filterMap (entriesWritten firstDraft) =
      [[⟨some aliceKey, none⟩]])) hentry hreplay
  have hcreated := interpret_runs hcreate
  exact ⟨first, r, w₁, steps, w₂, hcreated, hsystem, of_decide_eq_true hwritten,
    stored_draft_reads_back rfl hcreated rfl hnew hsystem⟩

end PactumCodex
