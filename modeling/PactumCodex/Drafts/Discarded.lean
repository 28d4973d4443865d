import PactumCodex.Drafts.Rows
import PactumCodex.Replay

/-!
# Discarded drafts

`delete_draft` sets the status of a draft to `discarded` and leaves its
invitations pending.  `accept_invite` does not look at the status: when the last
open slot is filled it writes `ready_to_submit`, whatever the status was.  These
two are the only statements that matter to a discarded draft.

The step lemma `isDiscarded_step_iff` is an equivalence: from a state in which the
draft is discarded, it is not discarded after a step exactly if the step commits a
write that makes it ready.  Along a chain this gives the condition for one deletion,
and along a run for all of them.  A step reveals such a commit by the writes that
its transaction has buffered (`readiesDraft`).
-/

namespace PactumCodex

open Interaction Relational

/-! ## What changes the status -/

/-- The write makes the draft ready. -/
def TxWrite.readies (id : Uuid) : TxWrite → Bool
  | resolveReady _ _ draftId => draftId = id
  | _ => false

/-- The step commits a transaction of `accept_invite` that has filled the last slot of the draft. -/
def readiesDraft (id : Uuid) : BackendStep → Bool
  | ⟨w, .commit txId, .ok _, _⟩ =>
      (w.txs.find? (·.id = txId)).any fun tx => tx.writes.any (TxWrite.readies id)
  | _ => false

/-- The step is the last statement of `delete_draft` for the draft. -/
def deletesDraft (id : Uuid) : BackendStep → Bool
  | ⟨w, .sql (.draft (.discard draftId)), .ok _, _⟩ => draftId = id && (w.db.draft? id).isSome
  | _ => false

/-- The draft exists and is discarded. -/
def IsDiscarded (id : Uuid) (db : Db) : Prop :=
  ∃ draft, db.draft? id = some draft ∧ draft.status = .discarded

/-- The status after a write of a transaction. -/
theorem TxWrite.apply_status {write : TxWrite} {db db' : Db} (h : write.apply db = some db')
    {id : Uuid} {draft : Draft} (hdraft : db.draft? id = some draft) :
    ∃ draft', db'.draft? id = some draft' ∧
      draft'.status = if write.readies id then .readyToSubmit else draft.status := by
  obtain ⟨-, hid⟩ := Db.draft?_eq_some.mp hdraft
  cases write with
  | acceptInvitation inviteId =>
      obtain ⟨invitations, -, rfl⟩ := Option.map_eq_some_iff.mp h
      exact ⟨draft, hdraft, rfl⟩
  | resolveReady partySlots readyAt draftId =>
      obtain ⟨drafts, hcommit, rfl⟩ := Option.map_eq_some_iff.mp h
      refine ⟨_, draft?_updateWhere hcommit (fun _ => rfl) hdraft, ?_⟩
      by_cases hsame : draftId = id
      · simp [readies, hsame, hid]
      · have hother : draft.id ≠ draftId := fun heq => hsame (heq.symm.trans hid)
        simp [readies, hsame, hother]
  | resolve partySlots draftId =>
      obtain ⟨drafts, hcommit, rfl⟩ := Option.map_eq_some_iff.mp h
      refine ⟨_, draft?_updateWhere hcommit (fun _ => rfl) hdraft, ?_⟩
      simp only [readies, Bool.false_eq_true, if_false]
      split <;> rfl

/-- The status after a transaction. -/
theorem foldlM_apply_status {writes : List TxWrite} {db db' : Db}
    (h : writes.foldlM TxWrite.apply db = some db') {id : Uuid} {draft : Draft}
    (hdraft : db.draft? id = some draft) :
    ∃ draft', db'.draft? id = some draft' ∧ draft'.status =
      if writes.any (TxWrite.readies id) then .readyToSubmit else draft.status := by
  induction writes generalizing db draft with
  | nil =>
      simp only [List.foldlM_nil, Option.pure_def, Option.some.injEq] at h
      subst h
      exact ⟨draft, hdraft, rfl⟩
  | cons write writes ih =>
      simp only [List.foldlM_cons, Option.bind_eq_bind, Option.bind_eq_some_iff] at h
      obtain ⟨db₁, hwrite, hrest⟩ := h
      obtain ⟨draft₁, hdraft₁, hstatus₁⟩ := TxWrite.apply_status hwrite hdraft
      obtain ⟨draft', hdraft', hstatus'⟩ := ih hrest hdraft₁
      refine ⟨draft', hdraft', ?_⟩
      rw [hstatus', hstatus₁, List.any_cons]
      cases write.readies id <;> cases writes.any (TxWrite.readies id) <;> rfl

/-- The status after a commit. -/
theorem performCommit_status {txId : ℕ} {w w' : World} (h : performCommit txId w = some w')
    {id : Uuid} {draft : Draft} (hdraft : w.db.draft? id = some draft) :
    ∃ draft', w'.db.draft? id = some draft' ∧ draft'.status =
      if readiesDraft id ⟨w, .commit txId, .ok (), w'⟩ then .readyToSubmit else draft.status := by
  obtain ⟨tx, db, hfind, hwrites, rfl⟩ := performCommit_eq_some.mp h
  obtain ⟨draft', hdraft', hstatus⟩ := foldlM_apply_status hwrites hdraft
  refine ⟨draft', hdraft', ?_⟩
  rw [hstatus, readiesDraft, hfind, Option.any_some]

/-- **Status of a discarded draft.**  It is kept by every step except a commit that makes the draft
ready. -/
theorem isDiscarded_step_iff {step : BackendStep} (h : step.Valid perform) {id : Uuid}
    (hpre : IsDiscarded id step.pre.db) :
    IsDiscarded id step.post.db ↔ readiesDraft id step = false := by
  obtain ⟨draft, hdraft, hstatus⟩ := hpre
  -- a commit applies its writes; other steps write no status but `discarded`
  by_cases hcommit : ∃ w txId w', step = ⟨w, .commit txId, .ok (), w'⟩
  · obtain ⟨w, txId, w', rfl⟩ := hcommit
    obtain ⟨draft', hdraft', hstatus'⟩ := performCommit_status h hdraft
    constructor
    · rintro ⟨draft'', hdraft'', hdiscarded⟩
      obtain rfl : draft' = draft'' := Option.some.inj (hdraft'.symm.trans hdraft'')
      by_contra hready
      rw [Bool.not_eq_false] at hready
      rw [hready, if_pos rfl] at hstatus'
      rw [hdiscarded] at hstatus'
      cases hstatus'
    · intro hready
      rw [hready] at hstatus'
      exact ⟨draft', hdraft', hstatus'.trans hstatus⟩
  · have hready : readiesDraft id step = false := by
      unfold readiesDraft
      split
      · rename_i w txId _ w'
        exact absurd ⟨w, txId, w', rfl⟩ hcommit
      · rfl
    refine ⟨fun _ => hready, fun _ => ?_⟩
    cases Step.effect h with
    | executed s out w w' _ _ _ _ _ =>
        obtain ⟨draft', hdraft', -, hslots⟩ := draft?_step h hdraft
        refine ⟨draft', hdraft', ?_⟩
        rcases (hslots rfl).status with hsame | hdiscarded
        · exact hsame.trans hstatus
        · exact hdiscarded
    | committed txId tx w w' _ _ _ _ => exact absurd ⟨w, txId, w', rfl⟩ hcommit
    | silent step hdb _ =>
        rw [hdb]
        exact ⟨draft, hdraft, hstatus⟩

/-- After the last statement of `delete_draft`, the draft is discarded. -/
theorem isDiscarded_of_deletes {step : BackendStep} (h : step.Valid perform) {id : Uuid}
    (hdeletes : deletesDraft id step = true) : IsDiscarded id step.post.db := by
  unfold deletesDraft at hdeletes
  split at hdeletes
  · rename_i w draftId _ w'
    rw [Bool.and_eq_true, decide_eq_true_eq] at hdeletes
    obtain ⟨rfl, hsome⟩ := hdeletes
    obtain ⟨draft, hdraft⟩ := Option.isSome_iff_exists.mp hsome
    have hsql : performSql (.draft (.discard draftId)) () w = some w' := h
    obtain ⟨-, -, db, hexec, rfl⟩ := performSql_eq_some.mp hsql
    obtain ⟨drafts, hcommit, rfl⟩ := Option.map_eq_some_iff.mp hexec
    refine ⟨_, draft?_updateWhere hcommit (fun _ => rfl) hdraft, ?_⟩
    rw [if_pos (decide_eq_true (Db.draft?_eq_some.mp hdraft).2)]
  · cases hdeletes

/-! ## Runs -/

/-- Whenever `delete_draft` has discarded the draft, it is discarded in all later states. -/
def StaysDiscarded (id : Uuid) (steps : List BackendStep) : Prop :=
  ∀ before step after, steps = before ++ step :: after → deletesDraft id step = true →
    ∀ later ∈ step :: after, IsDiscarded id later.post.db

/-- After a deletion of the draft, no acceptance that fills its last slot is committed. -/
def NotReadiedAfterDeletion (id : Uuid) (steps : List BackendStep) : Prop :=
  ∀ before step after, steps = before ++ step :: after → deletesDraft id step = true →
    ∀ later ∈ after, readiesDraft id later = false

/-- From a state in which the draft is discarded, it stays so exactly if no commit makes it
ready. -/
theorem isDiscarded_chain_iff {w w' : World} {steps : List BackendStep} {id : Uuid}
    (h : Chain perform w steps w') (hinit : IsDiscarded id w.db) :
    (∀ step ∈ steps, IsDiscarded id step.post.db) ↔
      ∀ step ∈ steps, readiesDraft id step = false := by
  induction h with
  | nil => simp
  | cons hvalid _ ih =>
      rw [List.forall_mem_cons, List.forall_mem_cons]
      have hstep := isDiscarded_step_iff hvalid hinit
      constructor
      · rintro ⟨hpost, hrest⟩
        exact ⟨hstep.mp hpost, (ih hpost).mp hrest⟩
      · rintro ⟨hready, hrest⟩
        have hpost := hstep.mpr hready
        exact ⟨hpost, (ih hpost).mpr hrest⟩

/-- **Discarded drafts.**  In every interleaving, a draft stays discarded after `delete_draft`
exactly if no acceptance that fills its last open slot is committed after the deletion. -/
theorem stays_discarded_iff {env : Env} {w w' : World} {steps : List BackendStep}
    (hrun : SystemRun env w steps w') (id : Uuid) :
    StaysDiscarded id steps ↔ NotReadiedAfterDeletion id steps := by
  obtain ⟨threads, hpool⟩ := hrun
  refine forall₃_congr fun before step after => forall₂_congr fun hsplit hdeletes => ?_
  obtain ⟨-, hvalid, hafter⟩ := (hsplit ▸ hpool.chain).split
  have hpost := isDiscarded_of_deletes hvalid hdeletes
  rw [List.forall_mem_cons, isDiscarded_chain_iff hafter hpost]
  exact and_iff_right hpost

/-! ## An invitation accepted after the deletion -/

/-- Bob invites somebody by email, deletes the draft, and Alice accepts the first invitation. -/
def deletionThenAcceptance (parties : List PartyInput) : List (Backend Unit) :=
  [Handler.logged (createAgreement sampleEnv bob (requestFor parties)),
    Handler.logged (deleteDraft ⟨11, some bobKey⟩ (BitVec.ofNat 128 (parties.length + 1))),
    Handler.logged (acceptInvite alice firstToken)]

theorem deletionThenAcceptance_entry (parties : List PartyInput) :
    ∀ p ∈ deletionThenAcceptance parties, Entry sampleEnv p := by
  simp only [deletionThenAcceptance, List.forall_mem_cons, List.not_mem_nil, false_implies,
    implies_true, and_true]
  exact ⟨.createAgreement .., .deleteDraft .., .acceptInvite ..⟩

/-- Each program takes the given number of turns, one after the other. -/
def inTurn (turns : List ℕ) : List (ℕ × ((op : Op) → World → op.Ans)) :=
  turns.zipIdx.flatMap fun turn => List.replicate turn.1 (turn.2, cooperate 0)

theorem discarded_draft_made_ready :
    ¬ ∀ (env : Env) (w w' : World) (steps : List BackendStep), SystemRun env w steps w' →
      ∀ id, StaysDiscarded id steps := by
  intro hclaim
  obtain ⟨steps, w', hrun, htest⟩ := systemRun_of_replay (World.ofDb accountsDb) (inTurn [9, 3, 7])
    (fun steps _ => match steps.drop 11 with
      | step :: after => deletesDraft firstDraft step && after.any fun later =>
          (later.post.db.draft? firstDraft).any fun draft => draft.status = .readyToSubmit
      | [] => false)
    (deletionThenAcceptance_entry [.email "alice@pactum"]) (by decide +kernel)
  split at htest
  · rename_i step after hdrop
    rw [Bool.and_eq_true] at htest
    obtain ⟨hdeletes, hready⟩ := htest
    obtain ⟨later, hlater, hready⟩ := List.any_eq_true.mp hready
    obtain ⟨draft, hdraft, hready⟩ := (Option.any_eq_true _ _).mp hready
    have hsplit : steps = steps.take 11 ++ step :: after := by
      rw [← hdrop, List.take_append_drop]
    obtain ⟨draft', hdraft', hdiscarded⟩ := hclaim sampleEnv _ w' steps hrun firstDraft _ step after
      hsplit hdeletes later (List.mem_cons_of_mem _ hlater)
    rw [hdraft, Option.some.injEq] at hdraft'
    rw [← hdraft', of_decide_eq_true hready] at hdiscarded
    cases hdiscarded
  · cases htest

theorem stays_discarded_iff_two_invitations :
    ∃ steps w', SystemRun sampleEnv (World.ofDb accountsDb) steps w' ∧
      (∃ step ∈ steps, deletesDraft 3 step = true) ∧ StaysDiscarded 3 steps := by
  obtain ⟨steps, w', hrun, htest⟩ := systemRun_of_replay (World.ofDb accountsDb) (inTurn [15, 3, 7])
    (fun steps _ => steps.any (deletesDraft 3) && steps.all fun step => !readiesDraft 3 step)
    (deletionThenAcceptance_entry [.email "alice@pactum", .email "carol@pactum"])
      (by decide +kernel)
  rw [Bool.and_eq_true, List.any_eq_true, List.all_eq_true] at htest
  refine ⟨steps, w', hrun, htest.1, (stays_discarded_iff hrun 3).mpr ?_⟩
  intro before step after hsplit _ later hlater
  have hmem : later ∈ steps := by
    rw [hsplit]
    exact List.mem_append_right _ (List.mem_cons_of_mem _ hlater)
  simpa using htest.2 later hmem

end PactumCodex
