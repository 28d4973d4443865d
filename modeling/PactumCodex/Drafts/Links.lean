import PactumCodex.Drafts.Lifecycle
import PactumCodex.Replay

/-!
# Invitations and the slots that wait for them

`create_agreement` stores an invitation under the identifier that a slot of the
draft refers to.  `reinvite_draft` replaces an expired invitation by a new one
with a new identifier, but leaves the slots of the draft alone, so no slot waits
for the new invitation and it can never be accepted.

## The invariant

`LinkInv past w` says of the state after the steps `past`:

* the slots of every draft refer to different invitations, and a slot with a wallet
  refers to none;
* a pending invitation that `reinvite_draft` has not stored has its slot;
* the identifiers in slots and those of reinvitations were generated, and no slot
  refers to one of a reinvitation.

Single operations preserve it since they write at most one row.
`create_agreement` and `accept_invite` write several, and are taken as whole calls
by their specifications (`LinkInv.stored`, `LinkInv.accepted`).

## What a slot is good for

With its slot an invitation can be accepted in time (`Linked`), and without one it
never is, which makes the condition exact.
-/

namespace PactumCodex

open Interaction Relational Handlers Handlers.Invite

/-! ## Slots that refer to invitations -/

/-- Different slots refer to different invitations, and such slots have no wallet. -/
structure SlotsLinked (slots : List DraftPartyEntry) : Prop where
  unresolved : Unresolved slots
  nodup : (inviteIds slots).Nodup

theorem mem_inviteIds {id : Uuid} {slots : List DraftPartyEntry} :
    id ∈ inviteIds slots ↔ ∃ slot ∈ slots, slot.inviteId = some id := List.mem_filterMap

theorem inviteIds_append (slots slots' : List DraftPartyEntry) :
    inviteIds (slots ++ slots') = inviteIds slots ++ inviteIds slots' := List.filterMap_append

theorem inviteIds_cons (slot : DraftPartyEntry) (slots : List DraftPartyEntry) :
    inviteIds (slot :: slots) = slot.inviteId.toList ++ inviteIds slots := by
  unfold inviteIds
  rw [List.filterMap_cons]
  cases slot.inviteId <;> rfl

/-- A slot that is given to a wallet refers to no invitation any more. -/
theorem inviteIds_sublist (before : List DraftPartyEntry) (slot : DraftPartyEntry)
    (after : List DraftPartyEntry) (pubkey : String) :
    (inviteIds (before ++ ⟨some pubkey, none⟩ :: after)).Sublist
      (inviteIds (before ++ slot :: after)) := by
  rw [inviteIds_append, inviteIds_append, inviteIds_cons, inviteIds_cons]
  exact List.Sublist.append_left (List.sublist_append_right _ _) _

/-- An invitation that some slot refers to is awaited by exactly one slot, and the others by
none. -/
theorem SlotsLinked.countP_awaits {slots : List DraftPartyEntry}
    (h : SlotsLinked slots) (id : Uuid) :
    slots.countP (DraftPartyEntry.awaits id) = (inviteIds slots).count id := by
  obtain ⟨hunresolved, -⟩ := h
  unfold inviteIds
  rw [List.count_filterMap]
  apply List.countP_congr
  intro slot hslot
  have hnone := hunresolved slot hslot
  unfold DraftPartyEntry.awaits
  simp only [decide_eq_true_eq, beq_iff_eq]
  constructor
  · exact fun hawaits => hawaits.2
  · exact fun hid => ⟨hnone (by rw [hid]; rfl), hid⟩

/-- A resolved slot refers to no invitation any more; the others stay. -/
theorem SlotsLinked.resolve {inviteId : Uuid} {pubkey : String}
    {slots slots' : List DraftPartyEntry}
    (h : SlotsLinked slots)
    (hresolve : resolvePartySlotPubkey inviteId pubkey slots = some slots') :
    SlotsLinked slots' ∧ (∀ id ∈ inviteIds slots', id ∈ inviteIds slots) ∧
      ∀ id ∈ inviteIds slots, id ≠ inviteId → id ∈ inviteIds slots' := by
  obtain ⟨before, slot, after, rfl, hslot, -, rfl⟩ := resolvePartySlotPubkey_eq_some hresolve
  obtain ⟨hunresolved, hnodup⟩ := h
  have hsub := inviteIds_sublist before slot after pubkey
  refine ⟨⟨?_, hnodup.sublist hsub⟩, fun id hid => hsub.subset hid, ?_⟩
  · intro other hother hsome
    rcases List.mem_append.mp hother with hother | hother
    · exact hunresolved other (List.mem_append_left _ hother) hsome
    · rcases List.mem_cons.mp hother with rfl | hother
      · cases hsome
      · exact hunresolved other (List.mem_append_right _ (List.mem_cons_of_mem _ hother)) hsome
  · intro id hid hne
    rw [inviteIds_append, inviteIds_cons, hslot] at hid
    rw [inviteIds_append, inviteIds_cons]
    simp only [List.mem_append, Option.mem_toList, Option.some.injEq,
      reduceCtorEq, false_or] at hid ⊢
    rcases hid with hid | hid | hid
    · exact Or.inl hid
    · exact absurd hid.symm hne
    · exact Or.inr hid

/-! ## The invariant -/

/-- The invitation that the step stores as `reinvite_draft` does. -/
def reinvitedBy : BackendStep → Option Uuid
  | ⟨_, .sql (.invitation (.insertReturning ..)), .ok id, _⟩ => some id
  | _ => none

/-- The invitations that `reinvite_draft` has stored. -/
def reinvited (steps : List BackendStep) : List Uuid := steps.filterMap reinvitedBy

/-- The draft of the invitation has a slot that refers to it. -/
def HasSlot (db : Db) (invitation : Invitation) : Prop :=
  ∃ draft slots, db.draft? invitation.draftId = some draft ∧
    draft.partySlots = slotsToValue slots ∧ invitation.id ∈ inviteIds slots

/-- What links drafts and invitations, after the given steps. -/
structure LinkInv (past : List BackendStep) (w : World) : Prop where
  txs : w.txs = []
  drafts : ∀ draft ∈ w.db.drafts.rows, ∃ slots, draft.partySlots = slotsToValue slots ∧
    SlotsLinked slots ∧ ∀ id ∈ inviteIds slots, id ∈ w.uuids ∧ id ∉ reinvited past
  invitations : ∀ invitation ∈ w.db.invitations.rows, invitation.status = .pending →
    invitation.id ∉ reinvited past → HasSlot w.db invitation
  generated : ∀ id ∈ reinvited past, id ∈ w.uuids

theorem reinvited_append (past steps : List BackendStep) :
    reinvited (past ++ steps) = reinvited past ++ reinvited steps := List.filterMap_append

/-- Steps that are not those of `reinvite_draft` store no such invitation. -/
theorem reinvited_eq_nil {steps : List BackendStep}
    (h : ∀ step ∈ steps, step.op.reinvites = false) :
    reinvited steps = [] := by
  unfold reinvited
  rw [List.filterMap_eq_nil_iff]
  intro step hstep
  have hop := h step hstep
  unfold reinvitedBy
  split
  · simp [Op.reinvites] at hop
  · rfl

/-- A reinvitation has a fresh identifier. -/
theorem reinvitedBy_fresh {step : BackendStep} (h : step.Valid perform) {id : Uuid}
    (hid : reinvitedBy step = some id) : id ∉ step.pre.uuids ∧ id ∈ step.post.uuids := by
  unfold reinvitedBy at hid
  split at hid
  · rename_i w draftId index enc nonce token expiresAt now id' w'
    obtain rfl : id' = id := Option.some.inj hid
    have hsql : performSql
      (.invitation (.insertReturning draftId index enc nonce token expiresAt now))
      id' w = some w' := h
    obtain ⟨-, hfresh, db, -, rfl⟩ := performSql_eq_some.mp hsql
    exact ⟨hfresh id' List.mem_cons_self, List.mem_cons_self⟩
  · cases hid

/-- Apart from `create_agreement`, only `reinvite_draft` stores invitations. -/
theorem invitation_step_back {step : BackendStep} (h : step.Valid perform)
    (hop : step.op.creates = false) {invitation' : Invitation}
    (hmem : invitation' ∈ step.post.db.invitations.rows) :
    (∃ invitation ∈ step.pre.db.invitations.rows, InvitationKept invitation invitation') ∨
      reinvitedBy step = some invitation'.id := by
  -- only a statement of `reinvite_draft` has an invitation to add
  cases hstores : step.op.reinvites with
  | false =>
      left
      refine (invitations_step h).exists_mem_back ?_ hmem
      rw [Op.stores_eq, hop, hstores]
      simp
  | true =>
      obtain ⟨w, op, ans, w'⟩ := step
      simp only [Op.reinvites] at hstores
      split at hstores
      · rename_i draftId index enc nonce token expiresAt now
        cases ans with
        | error e =>
            obtain rfl : w = w' := Option.some.inj h
            exact Or.inl ⟨invitation', hmem, .refl _⟩
        | ok id =>
            have hsql : performSql (.invitation (.insertReturning draftId index enc nonce token
              expiresAt now)) id w = some w' := h
            obtain ⟨-, -, db, hexec, rfl⟩ := performSql_eq_some.mp hsql
            obtain ⟨table, htable, rfl⟩ := Option.map_eq_some_iff.mp hexec
            unfold InvitationStmt.exec at htable
            rw [Option.ite_none_right_eq_some] at htable
            have hrows : invitation' ∈ table.rows := hmem
            rw [rows_of_commit htable.2] at hrows
            rcases List.mem_append.mp hrows with hrows | hrows
            · exact Or.inl ⟨invitation', hrows, .refl _⟩
            · rw [List.mem_singleton.mp hrows]
              exact Or.inr rfl
      · cases hstores

/-! ## One operation -/

theorem LinkInv.step {past : List BackendStep} {step : BackendStep} (h : LinkInv past step.pre)
    (hvalid : step.Valid perform) (hop : step.op.inTransaction = false)
    (hcreates : step.op.creates = false) : LinkInv (past ++ [step]) step.post := by
  have hmem : ∀ {id}, id ∈ reinvited (past ++ [step]) ↔
      id ∈ reinvited past ∨ reinvitedBy step = some id := by
    intro id
    rw [reinvited_append, List.mem_append]
    unfold reinvited
    rw [List.mem_filterMap]
    simp
  refine ⟨(txs_step hvalid hop).trans h.txs, ?_, ?_, ?_⟩
  -- a draft keeps its slots, and a reinvitation has an identifier that no slot refers to
  · intro draft' hdraft'
    obtain ⟨draft, hdraft, -, hslots⟩ :=
      (drafts_step hvalid).exists_mem_back (by simp [hcreates]) hdraft'
    obtain ⟨slots, hvalue, hlinked, hids⟩ := h.drafts draft hdraft
    refine ⟨slots, (hslots hop).partySlots.trans hvalue, hlinked, fun id hid => ?_⟩
    refine ⟨uuids_step hvalid id (hids id hid).1, fun hagain => ?_⟩
    rcases hmem.mp hagain with hagain | hagain
    · exact (hids id hid).2 hagain
    · exact (reinvitedBy_fresh hvalid hagain).1 (hids id hid).1
  -- an invitation that is still pending was there before, with its slot
  · intro invitation' hinvitation' hpending hnew
    rw [hmem, not_or] at hnew
    rcases invitation_step_back hvalid hcreates hinvitation' with
      ⟨invitation, hinvitation, hkept⟩ | hre
    · obtain ⟨draft, slots, hdraft, hvalue, hid⟩ :=
        h.invitations invitation hinvitation (hkept.pending hpending) (hkept.id ▸ hnew.1)
      obtain ⟨draft', hdraft', -, hslots⟩ := draft?_step hvalid hdraft
      refine ⟨draft', slots, hkept.draftId ▸ hdraft', (hslots hop).partySlots.trans hvalue, ?_⟩
      rw [hkept.id]
      exact hid
    · exact absurd hre hnew.2
  · intro id hid
    rcases hmem.mp hid with hid | hid
    · exact uuids_step hvalid id (h.generated id hid)
    · exact (reinvitedBy_fresh hvalid hid).2

/-! ## `create_agreement` and `accept_invite` -/

theorem LinkInv.same {past block : List BackendStep} {w w' : World} (h : LinkInv past w)
    (hblock : reinvited block = []) (hsame : SameDrafts w w') : LinkInv (past ++ block) w' := by
  have hpast : reinvited (past ++ block) = reinvited past := by
    rw [reinvited_append, hblock, List.append_nil]
  refine ⟨hsame.txs.trans h.txs, ?_, ?_, ?_⟩
  · rw [hsame.drafts, hpast]
    intro draft hdraft
    obtain ⟨slots, hvalue, hlinked, hids⟩ := h.drafts draft hdraft
    exact ⟨slots, hvalue, hlinked, fun id hid => ⟨hsame.uuids id (hids id hid).1, (hids id hid).2⟩⟩
  · rw [hsame.invitations, hpast]
    unfold HasSlot Db.draft?
    rw [hsame.drafts]
    exact h.invitations
  · rw [hpast]
    exact fun id hid => hsame.uuids id (h.generated id hid)

theorem LinkInv.stored {env : Env} {auth : AuthUserWithWallet} {req : CreateAgreementRequest}
    {past block : List BackendStep} {w w' : World} {draftId : Uuid}
    {entries : List Agreement.DraftPartyEntry} (h : LinkInv past w) (hblock : reinvited block = [])
    (hstored : Stored env auth req w w' draftId entries) : LinkInv (past ++ block) w' := by
  have hpast : reinvited (past ++ block) = reinvited past := by
    rw [reinvited_append, hblock, List.append_nil]
  have hentries := walletOrInvitation_of_slots hstored.forParties
  -- the slots are the requested entries, as `invite.rs` reads them
  set slots := entries.map Agreement.DraftPartyEntry.toInvite with hslots
  have hids : inviteIds slots = entryInviteIds entries := inviteIds_toInvite entries
  have hcolumn : Agreement.slotsToValue entries = slotsToValue slots :=
    Agreement.slotsToValue_eq entries
  have hlinked : SlotsLinked slots :=
    ⟨List.forall_mem_map.mpr fun entry hentry hsome => (hentries entry hentry).mp hsome,
      hids ▸ hstored.nodup⟩
  have hnew : w'.db.draft? draftId =
      some (newDraft draftId auth.pubkey ⟨req.title, req.expiresInSecs, entries⟩) := by
    refine Db.draft?_eq_some.mpr ⟨?_, rfl⟩
    rw [hstored.drafts]
    exact List.mem_append_right _ (List.mem_singleton_self _)
  refine ⟨hstored.txs.trans h.txs, ?_, ?_, ?_⟩
  · rw [hstored.drafts, hpast]
    intro draft hdraft
    rcases List.mem_append.mp hdraft with hdraft | hdraft
    · obtain ⟨slots, hvalue, hlinked, hids⟩ := h.drafts draft hdraft
      exact ⟨slots, hvalue, hlinked,
        fun id hid => ⟨hstored.uuids id (hids id hid).1, (hids id hid).2⟩⟩
    · -- the ids of the new slots were generated for them
      rw [List.mem_singleton.mp hdraft]
      refine ⟨slots, hcolumn, hlinked, fun id hid => ?_⟩
      rw [hids] at hid
      refine ⟨(hstored.generated id hid).1, fun hre => ?_⟩
      exact (hstored.generated id hid).2 (h.generated id hre)
  · rw [hpast]
    intro invitation hinvitation hpending hnot
    obtain ⟨added, hrows, hadded⟩ := hstored.invitations
    rw [hrows] at hinvitation
    rcases List.mem_append.mp hinvitation with hinvitation | hinvitation
    · obtain ⟨draft, slots, hdraft, hvalue, hid⟩ :=
        h.invitations invitation hinvitation hpending hnot
      obtain ⟨hmem, howner⟩ := Db.draft?_eq_some.mp hdraft
      refine ⟨draft, slots, Db.draft?_eq_some.mpr ⟨?_, howner⟩, hvalue, hid⟩
      rw [hstored.drafts]
      exact List.mem_append_left _ hmem
    · obtain ⟨howner, hid⟩ := hadded invitation hinvitation
      exact ⟨_, slots, howner ▸ hnew, hcolumn, hids ▸ hid⟩
  · rw [hpast]
    exact fun id hid => hstored.uuids id (h.generated id hid)

theorem Draft.resolve_partySlots (slots : List DraftPartyEntry) (now : ℤ) (draft : Draft) :
    (draft.resolve slots now).partySlots = slotsToValue slots := by
  unfold Draft.resolve
  split <;> rfl

theorem LinkInv.accepted {auth : AuthUserWithWallet} {token : String}
    {past block : List BackendStep} {w w' : World} {invitation : Invitation} {owner : Draft}
    {slots slots' : List DraftPartyEntry} {now : ℤ} (h : LinkInv past w)
    (hblock : reinvited block = []) (htxs : w'.txs = [])
    (huuids : ∀ id ∈ w.uuids, id ∈ w'.uuids)
    (hplan : AcceptPlan auth token w invitation owner slots slots')
    (haccepted : Accepted w w' invitation slots' now) : LinkInv (past ++ block) w' := by
  have hpast : reinvited (past ++ block) = reinvited past := by
    rw [reinvited_append, hblock, List.append_nil]
  obtain ⟨howner, hownerId⟩ := Db.draft?_eq_some.mp hplan.owner
  -- the slots that were read are those of the invariant
  obtain ⟨current, hvalue, hlinked, hids⟩ := h.drafts owner howner
  have hcurrent : current = slots := by
    have hdecoded := hplan.decoded
    rw [hvalue, slotsFromValue_slotsToValue] at hdecoded
    exact Option.some.inj hdecoded
  subst hcurrent
  obtain ⟨hlinked', hsub, hstay⟩ := hlinked.resolve hplan.resolved
  refine ⟨htxs, ?_, ?_, ?_⟩
  · -- the slots of the owner are the new ones, and other drafts keep theirs
    rw [haccepted.drafts, hpast]
    intro draft' hdraft'
    obtain ⟨draft, hdraft, rfl⟩ := mem_updateWhere.mp hdraft'
    split
    · refine ⟨slots', Draft.resolve_partySlots .., hlinked', fun id hid => ?_⟩
      exact ⟨huuids id (hids id (hsub id hid)).1, (hids id (hsub id hid)).2⟩
    · obtain ⟨slots, hvalue, hlinked, hids⟩ := h.drafts draft hdraft
      exact ⟨slots, hvalue, hlinked, fun id hid => ⟨huuids id (hids id hid).1, (hids id hid).2⟩⟩
  · -- the accepted invitation is no longer pending, and no other one loses its slot
    rw [haccepted.invitations, hpast]
    intro other' hother' hpending hnot
    obtain ⟨other, hother, rfl⟩ := mem_updateWhere.mp hother'
    by_cases hsame : other.id = invitation.id
    · rw [if_pos (decide_eq_true hsame)] at hpending
      cases hpending
    · rw [if_neg (by simpa using hsame)] at hpending hnot ⊢
      obtain ⟨draft, slots, hdraft, hvalue', hid⟩ := h.invitations other hother hpending hnot
      have hdraft' := haccepted.draft? hdraft
      by_cases hdrafts : other.draftId = invitation.draftId
      · rw [if_pos hdrafts] at hdraft'
        obtain rfl : draft = owner :=
          Option.some.inj (by rw [← hdraft, hdrafts, hplan.owner])
        refine ⟨_, slots', hdraft', Draft.resolve_partySlots .., hstay other.id ?_ hsame⟩
        have hslots : slotsToValue slots = slotsToValue current := hvalue'.symm.trans hvalue
        have hdecoded := congrArg slotsFromValue hslots
        rw [slotsFromValue_slotsToValue, slotsFromValue_slotsToValue, Option.some.injEq] at hdecoded
        rw [← hdecoded]
        exact hid
      · rw [if_neg hdrafts] at hdraft'
        exact ⟨draft, slots, hdraft', hvalue', hid⟩
  · rw [hpast]
    exact fun id hid => huuids id (h.generated id hid)

/-- **Drafts and invitations along a run.** -/
theorem LinkInv.calls {env : Env} {w w' : World} {steps : List BackendStep} (h : LinkInv [] w)
    (hcalls : Calls env w steps w') : LinkInv steps w' := by
  refine Calls.invariant LinkInv ?_ ?_ (fun past step => LinkInv.step) hcalls h
  · intro auth req past w₁ block r w₂ h hruns
    have hblock := reinvited_eq_nil fun step hstep =>
      (Stops.issued (createAgreement_issues env auth req) hruns.stops step hstep).2
    rcases createAgreement_ensures block r w₂ hruns with ⟨hsame, -⟩ | ⟨draftId, slots, hstored, -⟩
    · exact h.same hblock hsame
    · exact h.stored hblock hstored
  · intro auth token past w₁ block r w₂ h hruns
    have hblock := reinvited_eq_nil fun step hstep => Op.reinvites_of_stores
      (Stops.issued (acceptInvite_issues auth token) hruns.stops step hstep).stores
    obtain ⟨htxs, huuids, hsame | ⟨invitation, owner, slots, slots', now, hplan, haccepted⟩⟩ :=
      acceptInvite_ensures h.txs block r w₂ hruns
    · exact h.same hblock hsame.1
    · exact h.accepted hblock htxs huuids hplan haccepted

/-! ## Linked invitations -/

/-- Exactly one slot of the draft waits for the invitation, whoever presents its token in time can
get it accepted, and whenever it is accepted, this slot gets the wallet and no other slot changes.
-/
structure Linked (w : World) (invitation : Invitation) : Prop where
  slot : ∃ draft slots, w.db.draft? invitation.draftId = some draft ∧
    slotsFromValue draft.partySlots = some slots ∧
    slots.countP (DraftPartyEntry.awaits invitation.id) = 1
  succeeds : ∀ auth now, now ≤ invitation.expiresAt → ∃ steps w',
    Runs perform (acceptInvite auth invitation.token).run w (⟨w, .utcNow, now, w⟩ :: steps)
      (.ok ()) w'
  resolves : ∀ auth steps w',
    Runs perform (acceptInvite auth invitation.token).run w steps (.ok ()) w' →
      ∃ draft draft' before slot after, w.db.draft? invitation.draftId = some draft ∧
        w'.db.draft? invitation.draftId = some draft' ∧ slot.awaits invitation.id ∧
        slotsFromValue draft.partySlots = some (before ++ slot :: after) ∧
        slotsFromValue draft'.partySlots = some (before ++ ⟨some auth.pubkey, none⟩ :: after)

theorem linked_of_hasSlot {past : List BackendStep} {w : World} {invitation : Invitation}
    (h : LinkInv past w) (hmem : invitation ∈ w.db.invitations.rows)
    (hpending : invitation.status = .pending) (hslot : HasSlot w.db invitation) :
    Linked w invitation := by
  obtain ⟨draft, slots, hdraft, hvalue, hid⟩ := hslot
  have hdecoded : slotsFromValue draft.partySlots = some slots := by
    rw [hvalue, slotsFromValue_slotsToValue]
  have hfound : w.db.invitation? invitation.token = some invitation :=
    Db.invitation?_eq_some.mpr ⟨hmem, rfl⟩
  have hlinked : SlotsLinked slots := by
    obtain ⟨slots', hvalue', hlinked, -⟩ := h.drafts draft (Db.draft?_eq_some.mp hdraft).1
    rw [hvalue', slotsFromValue_slotsToValue, Option.some.injEq] at hdecoded
    exact hdecoded ▸ hlinked
  refine ⟨⟨draft, slots, hdraft, hdecoded, ?_⟩, fun auth now hnow => ?_,
    fun auth steps w' hruns => ?_⟩
  · rw [hlinked.countP_awaits]
    exact List.count_eq_one_of_mem hlinked.nodup hid
  · obtain ⟨slots', hresolved⟩ :=
      Option.isSome_iff_exists.mp (resolvePartySlotPubkey_isSome auth.pubkey hid)
    exact acceptInvite_succeeds h.txs ⟨hfound, hpending, hdraft, hdecoded, hresolved⟩ hnow
  · obtain ⟨-, -, ⟨-, hfailed⟩ | ⟨other, owner, current, slots', now, hplan, haccepted⟩⟩ :=
      acceptInvite_ensures h.txs steps _ w' hruns
    · exact absurd rfl hfailed
    -- the token and the draft determine what was found
    obtain rfl : invitation = other := Option.some.inj (hfound.symm.trans hplan.found)
    obtain rfl : draft = owner := Option.some.inj (hdraft.symm.trans hplan.owner)
    obtain rfl : slots = current := Option.some.inj (hdecoded.symm.trans hplan.decoded)
    obtain ⟨before, slot, after, rfl, hslot, -, rfl⟩ :=
      resolvePartySlotPubkey_eq_some hplan.resolved
    have hdraft' := haccepted.draft? hdraft
    rw [if_pos rfl] at hdraft'
    refine ⟨draft, _, before, slot, after, hdraft, hdraft', ?_, hdecoded, ?_⟩
    · have hnone := hlinked.unresolved slot (by simp) (by rw [hslot]; rfl)
      exact decide_eq_true ⟨hnone, hslot⟩
    · rw [Draft.resolve_partySlots, slotsFromValue_slotsToValue]

/-- **Linked invitations.**  In every state that requests and scans reach from an empty database, a
pending invitation (of a discarded draft or not) is linked to a slot exactly if it was not stored by
`reinvite_draft`. -/
theorem pending_linked_iff {env : Env} {w w' : World} {steps : List BackendStep}
    (hdrafts : w.db.drafts.rows = []) (hinvitations : w.db.invitations.rows = [])
    (htxs : w.txs = []) (hcalls : Calls env w steps w') {invitation : Invitation}
    (hmem : invitation ∈ w'.db.invitations.rows) (hpending : invitation.status = .pending) :
    Linked w' invitation ↔ invitation.id ∉ reinvited steps := by
  have hinit : LinkInv [] w := by
    refine ⟨htxs, ?_, ?_, by simp [reinvited]⟩
    · rw [hdrafts]
      simp
    · rw [hinvitations]
      simp
  have hinv := hinit.calls hcalls
  constructor
  · intro hlinked hre
    obtain ⟨draft, slots, hdraft, hdecoded, hcount⟩ := hlinked.slot
    obtain ⟨slots', hvalue, hslots, hids⟩ := hinv.drafts draft (Db.draft?_eq_some.mp hdraft).1
    rw [hvalue, slotsFromValue_slotsToValue, Option.some.injEq] at hdecoded
    subst hdecoded
    rw [hslots.countP_awaits] at hcount
    have hid : invitation.id ∈ inviteIds slots' := List.count_pos_iff.mp (by omega)
    exact (hids _ hid).2 hre
  · intro hnot
    exact linked_of_hasSlot hinv hmem hpending (hinv.invitations invitation hmem hpending hnot)

/-! ## A reinvitation -/

/-- Bob invites Alice, the invitation expires, and Bob invites her again. -/
def reinvitation : List (Backend Unit × ((op : Op) → World → op.Ans)) :=
  [(Handler.logged (createAgreement sampleEnv bob (requestFor [.email "alice@pactum"])),
    cooperate 0),
    (expireStaleInvitations, cooperate 101),
    (Handler.logged (reinviteDraft sampleEnv ⟨11, some bobKey⟩ firstDraft ⟨1⟩), cooperate 101)]

theorem reinvitation_entry : ∀ p ∈ reinvitation, Entry sampleEnv p.1 := by
  simp only [reinvitation, List.forall_mem_cons, List.not_mem_nil, false_implies, implies_true,
    and_true]
  exact ⟨.createAgreement .., .expireStaleInvitations, .reinviteDraft ..⟩

theorem reinvitation_not_linked :
    ¬ ∀ (env : Env) (w w' : World) (steps : List BackendStep), w.db.drafts.rows = [] →
      w.db.invitations.rows = [] → w.txs = [] → Calls env w steps w' → ∀ invitation draft,
        invitation ∈ w'.db.invitations.rows → invitation.status = .pending →
        w'.db.draft? invitation.draftId = some draft → draft.status ≠ .discarded →
        Linked w' invitation := by
  intro hclaim
  obtain ⟨steps, w', hcalls, htest⟩ := calls_of_interpret (World.ofDb accountsDb) reinvitation
    (fun _ w' => w'.db.invitations.rows.any fun invitation => invitation.status = .pending &&
      (w'.db.draft? invitation.draftId).any fun draft => draft.status ≠ .discarded &&
        (slotsFromValue draft.partySlots).any fun slots =>
          slots.countP (DraftPartyEntry.awaits invitation.id) = 0)
    reinvitation_entry (by decide +kernel)
  obtain ⟨invitation, hmem, htest⟩ := List.any_eq_true.mp htest
  rw [Bool.and_eq_true, decide_eq_true_eq] at htest
  obtain ⟨hpending, htest⟩ := htest
  obtain ⟨draft, hdraft, htest⟩ := (Option.any_eq_true _ _).mp htest
  rw [Bool.and_eq_true, decide_eq_true_eq] at htest
  obtain ⟨hlive, htest⟩ := htest
  obtain ⟨slots, hslots, hcount⟩ := (Option.any_eq_true _ _).mp htest
  have hlinked := hclaim sampleEnv _ w' steps rfl rfl rfl hcalls invitation draft hmem hpending
    hdraft hlive
  obtain ⟨draft', slots', hdraft', hslots', hcount'⟩ := hlinked.slot
  rw [hdraft, Option.some.injEq] at hdraft'
  rw [← hdraft', hslots, Option.some.injEq] at hslots'
  rw [← hslots', of_decide_eq_true hcount] at hcount'
  cases hcount'

theorem pending_linked_iff_first :
    ∃ steps w' invitation, Calls sampleEnv (World.ofDb accountsDb) steps w' ∧
      invitation ∈ w'.db.invitations.rows ∧ invitation.status = .pending ∧
      Linked w' invitation := by
  obtain ⟨steps, w', hcalls, htest⟩ := calls_of_interpret (World.ofDb accountsDb)
    [(Handler.logged (createAgreement sampleEnv bob (requestFor [.email "alice@pactum"])),
      cooperate 0)]
    (fun steps w' => w'.db.invitations.rows.any fun invitation => invitation.status = .pending &&
      decide (invitation.id ∉ reinvited steps))
    (List.forall_mem_cons.mpr ⟨.createAgreement .., by simp⟩) (by decide +kernel)
  obtain ⟨invitation, hmem, htest⟩ := List.any_eq_true.mp htest
  rw [Bool.and_eq_true, decide_eq_true_eq, decide_eq_true_eq] at htest
  obtain ⟨hpending, hnot⟩ := htest
  exact ⟨steps, w', invitation, hcalls, hmem, hpending,
    (pending_linked_iff rfl rfl rfl hcalls hmem hpending).mpr hnot⟩

end PactumCodex
