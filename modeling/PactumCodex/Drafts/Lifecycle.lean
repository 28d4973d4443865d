import PactumCodex.Drafts.Creation

/-!
# The life of a draft

Requests and scans that come one after the other (`Calls`).  An invariant of such
a run has to be kept by `create_agreement` and by `accept_invite` as a whole, and
by each single operation of the others (`Calls.invariant`).

The invariant of this module follows one draft.  Its payload never changes.  Its
slots are those of the payload, except that invitations have been replaced by
wallets.  Unless it was discarded, it is ready exactly if all slots have a wallet
and some of them got it by an invitation.
-/

namespace PactumCodex

open Interaction Relational Handlers Handlers.Invite

/-! ## Runs of one request after the other -/

theorem Calls.append {env : Env} {w w₁ w' : World} {first second : List BackendStep}
    (hfirst : Calls env w first w₁) (hsecond : Calls env w₁ second w') :
    Calls env w (first ++ second) w' := by
  induction hfirst with
  | nil => exact hsecond
  | cons hentry hruns _ ih =>
      rw [List.append_assoc]
      exact .cons hentry hruns (ih hsecond)

/-- **Invariant rule for requests in sequence.** -/
theorem Calls.invariant {env : Env} (Inv : List BackendStep → World → Prop)
    (hcreate : ∀ auth req past w₁ block r w₂, Inv past w₁ →
      Runs perform (createAgreement env auth req).run w₁ block r w₂ → Inv (past ++ block) w₂)
    (haccept : ∀ auth token past w₁ block r w₂, Inv past w₁ →
      Runs perform (acceptInvite auth token).run w₁ block r w₂ → Inv (past ++ block) w₂)
    (hstep : ∀ past (step : BackendStep), Inv past step.pre → step.Valid perform →
      step.op.inTransaction = false → step.op.creates = false → Inv (past ++ [step]) step.post)
    {w w' : World} {steps : List BackendStep} (h : Calls env w steps w') (hinit : Inv [] w) :
    Inv steps w' := by
  suffices hpast : ∀ past, Inv past w → Inv (past ++ steps) w' from hpast [] hinit
  clear hinit
  induction h with
  | nil =>
      intro past hinit
      simpa using hinit
  | cons hentry hruns _ ih =>
      intro past hinit
      rw [← List.append_assoc]
      apply ih
      -- two requests count as whole calls, the others step by step
      rcases entry_single hentry with ⟨auth, req, rfl⟩ | ⟨auth, token, rfl⟩ | hsingle
      · obtain ⟨r, hruns⟩ := runs_logged.mp hruns
        exact hcreate auth req past _ _ r _ hinit hruns
      · obtain ⟨r, hruns⟩ := runs_logged.mp hruns
        exact haccept auth token past _ _ r _ hinit hruns
      · have hissued := Stops.issued hsingle hruns.stops
        refine hruns.chain.invariant_traced Inv hinit fun past step hmem hvalid hpre => ?_
        exact hstep past step hpre hvalid (hissued step hmem).1 (hissued step hmem).2

/-- Between requests no transaction is open. -/
theorem Calls.txs {env : Env} {w w' : World} {steps : List BackendStep}
    (h : Calls env w steps w') (hw : w.txs = []) : w'.txs = [] := by
  refine Calls.invariant (fun _ w => w.txs = []) ?_ ?_ ?_ h hw
  · intro auth req past w₁ block r w₂ htxs hruns
    rcases createAgreement_ensures block r w₂ hruns with ⟨hsame, -⟩ | ⟨draftId, slots, hstored, -⟩
    · exact hsame.txs.trans htxs
    · exact hstored.txs.trans htxs
  · intro auth token past w₁ block r w₂ htxs hruns
    exact (acceptInvite_ensures htxs block r w₂ hruns).1
  · intro past step htxs hvalid hop _
    exact (txs_step hvalid hop).trans htxs

/-! ## Slots of a payload -/

/-- A slot is as requested, or an invitation was replaced by a wallet. -/
inductive Fills : Agreement.DraftPartyEntry → DraftPartyEntry → Prop
  | asRequested (entry : Agreement.DraftPartyEntry) : Fills entry entry.toInvite
  | accepted (inviteId : Uuid) (pubkey : String) :
      Fills ⟨none, some inviteId⟩ ⟨some pubkey, none⟩

/-- Every entry has a wallet or an invitation, and not both. -/
def WalletOrInvitation (entries : List Agreement.DraftPartyEntry) : Prop :=
  ∀ entry ∈ entries, entry.inviteId.isSome ↔ entry.pubkey = none

/-- The slots of a request are of this form. -/
theorem walletOrInvitation_of_slots {env : Env} {db : Db} {parties : List PartyInput}
    {slots : List Agreement.DraftPartyEntry} (h : List.Forall₂ (SlotFor env db) parties slots) :
    WalletOrInvitation slots := by
  induction h with
  | nil => simp [WalletOrInvitation]
  | cons hslot _ ih => exact List.forall_mem_cons.mpr ⟨hslot.invited, ih⟩

/-- A slot has no wallet exactly if a requested party has none. -/
theorem exists_open_slot_iff {env : Env} {db : Db} {parties : List PartyInput}
    {slots : List Agreement.DraftPartyEntry} (h : List.Forall₂ (SlotFor env db) parties slots) :
    (∃ slot ∈ slots, slot.pubkey = none) ↔ ∃ party ∈ parties, party.Walletless env db := by
  induction h with
  | nil => simp
  | cons hslot _ ih => rw [List.exists_mem_cons_iff, List.exists_mem_cons_iff, hslot.walletless, ih]

theorem fills_toInvite (entries : List Agreement.DraftPartyEntry) :
    List.Forall₂ Fills entries (entries.map Agreement.DraftPartyEntry.toInvite) :=
  List.forall₂_map_right_iff.mpr (List.forall₂_same.mpr fun entry _ => .asRequested entry)

/-- Resolving a slot keeps the others; before, some slot had no wallet. -/
theorem fills_resolve {inviteId : Uuid} {pubkey : String}
    {entries : List Agreement.DraftPartyEntry} {slots slots' : List DraftPartyEntry}
    (hentries : WalletOrInvitation entries) (hfills : List.Forall₂ Fills entries slots)
    (h : resolvePartySlotPubkey inviteId pubkey slots = some slots') :
    List.Forall₂ Fills entries slots' ∧ (∃ entry ∈ entries, entry.pubkey = none) ∧
      allPubkeysResolved slots = false := by
  induction hfills generalizing slots' with
  | nil => simp [resolvePartySlotPubkey] at h
  | @cons entry slot entries slots hfill hrest ih =>
      obtain ⟨hentry, hentries⟩ := List.forall_mem_cons.mp hentries
      unfold resolvePartySlotPubkey at h
      -- the slot that waits for the invitation is the first, or in the rest
      split at h
      · rename_i hslot
        obtain rfl := Option.some.inj h
        cases hfill with
        | asRequested =>
            obtain ⟨key, id⟩ := entry
            subst hslot
            obtain rfl : key = none := hentry.mp rfl
            refine ⟨.cons (.accepted inviteId pubkey) hrest, ⟨_, List.mem_cons_self, rfl⟩, ?_⟩
            simp [allPubkeysResolved]
        | accepted => simp at hslot
      · obtain ⟨rest, hresolve, rfl⟩ := Option.map_eq_some_iff.mp h
        obtain ⟨hfills, ⟨other, hother, hnone⟩, hopen⟩ := ih hentries hresolve
        refine ⟨.cons hfill hfills, ⟨other, List.mem_cons_of_mem _ hother, hnone⟩, ?_⟩
        unfold allPubkeysResolved at hopen ⊢
        rw [List.all_cons, hopen, Bool.and_false]

/-- If no entry had to be invited, the slots are the entries. -/
theorem fills_eq {entries : List Agreement.DraftPartyEntry} {slots : List DraftPartyEntry}
    (hfills : List.Forall₂ Fills entries slots) (hall : ∀ entry ∈ entries, entry.pubkey ≠ none) :
    slots = entries.map Agreement.DraftPartyEntry.toInvite := by
  induction hfills with
  | nil => rfl
  | @cons entry slot entries slots hfill _ ih =>
      obtain ⟨hentry, hentries⟩ := List.forall_mem_cons.mp hall
      cases hfill with
      | asRequested => rw [ih hentries, List.map_cons]
      | accepted => exact absurd rfl hentry

/-! ## One draft -/

/-- The draft, as it was stored with the payload and developed since. -/
structure DraftOf (payload : Agreement.DraftPayload) (slots : List DraftPartyEntry)
    (draft : Draft) :
    Prop where
  draftPayload : draft.draftPayload = payload.toValue
  partySlots : draft.partySlots = slotsToValue slots
  entries : WalletOrInvitation payload.parties
  fills : List.Forall₂ Fills payload.parties slots
  status : draft.status ≠ .discarded → (draft.status = .readyToSubmit ↔
    allPubkeysResolved slots ∧ ∃ entry ∈ payload.parties, entry.pubkey = none)

section DraftOf

variable {payload : Agreement.DraftPayload} {slots slots' : List DraftPartyEntry}
  {draft draft' : Draft}

theorem draftOf_new {id : Uuid} {creatorPubkey : String}
    (hentries : WalletOrInvitation payload.parties) :
    DraftOf payload (payload.parties.map Agreement.DraftPartyEntry.toInvite)
      (newDraft id creatorPubkey payload) := by
  refine ⟨rfl, Agreement.slotsToValue_eq _, hentries, fills_toInvite _, fun _ => ?_⟩
  constructor
  · intro h
    cases h
  · rintro ⟨hall, entry, hentry, hnone⟩
    have hsome := List.all_eq_true.mp hall _ (List.mem_map_of_mem hentry)
    rw [Agreement.DraftPartyEntry.toInvite_pubkey, hnone] at hsome
    cases hsome

/-- Operations outside a transaction. -/
theorem DraftOf.kept (h : DraftOf payload slots draft) (hkept : DraftKept draft draft')
    (hslots : SlotsKept draft draft') : DraftOf payload slots draft' := by
  refine ⟨hkept.draftPayload.trans h.draftPayload, hslots.partySlots.trans h.partySlots,
    h.entries, h.fills, fun hlive => ?_⟩
  rcases hslots.status with hstatus | hstatus
  · rw [hstatus] at hlive ⊢
    exact h.status hlive
  · exact absurd hstatus hlive

/-- An accepted invitation. -/
theorem DraftOf.resolve (h : DraftOf payload slots draft) {inviteId : Uuid} {pubkey : String}
    {now : ℤ} (hresolve : resolvePartySlotPubkey inviteId pubkey slots = some slots') :
    DraftOf payload slots' (draft.resolve slots' now) := by
  obtain ⟨hfills, hinvited, hopen⟩ := fills_resolve h.entries h.fills hresolve
  unfold Draft.resolve
  split
  · rename_i hall
    exact ⟨h.draftPayload, rfl, h.entries, hfills, fun _ =>
      ⟨fun _ => ⟨hall, hinvited⟩, fun _ => rfl⟩⟩
  · rename_i hall
    refine ⟨h.draftPayload, rfl, h.entries, hfills, fun hlive => ?_⟩
    have hbefore := h.status hlive
    rw [hopen] at hbefore
    constructor
    · intro hready
      exact absurd (hbefore.mp hready).1 (by simp)
    · intro hready
      exact absurd hready.1 hall

end DraftOf

/-- The draft after an acceptance. -/
theorem Accepted.draft? {w w' : World} {invitation : Invitation} {slots' : List DraftPartyEntry}
    {now : ℤ} (h : Accepted w w' invitation slots' now) {id : Uuid} {draft : Draft}
    (hdraft : w.db.draft? id = some draft) :
    w'.db.draft? id =
      some (if id = invitation.draftId then draft.resolve slots' now else draft) := by
  obtain ⟨hmem, rfl⟩ := Db.draft?_eq_some.mp hdraft
  refine Db.draft?_eq_some.mpr ⟨?_, ?_⟩
  · rw [h.drafts]
    exact mem_updateWhere.mpr ⟨draft, hmem, by simp⟩
  · unfold Draft.resolve
    split
    · split <;> rfl
    · rfl

/-- No transaction is open, and the draft with the given id developed from the payload. -/
structure Tracks (payload : Agreement.DraftPayload) (id : Uuid) (w : World) : Prop where
  txs : w.txs = []
  draft : ∃ draft slots, w.db.draft? id = some draft ∧ DraftOf payload slots draft

theorem Tracks.same {payload : Agreement.DraftPayload} {id : Uuid} {w w' : World}
    (h : Tracks payload id w)
    (hsame : SameDrafts w w') : Tracks payload id w' := by
  obtain ⟨htxs, draft, slots, hdraft, hof⟩ := h
  refine ⟨hsame.txs.trans htxs, draft, slots, ?_, hof⟩
  rw [Db.draft?, hsame.drafts]
  exact hdraft

/-- **One draft along a run.** -/
theorem Tracks.calls {env : Env} {payload : Agreement.DraftPayload} {id : Uuid} {w w' : World}
    {steps : List BackendStep} (h : Tracks payload id w) (hcalls : Calls env w steps w') :
    Tracks payload id w' := by
  refine Calls.invariant (fun _ w => Tracks payload id w) ?_ ?_ ?_ hcalls h
  -- another draft may be stored
  · intro auth req past w₁ block r w₂ h hruns
    rcases createAgreement_ensures block r w₂ hruns with ⟨hsame, -⟩ | ⟨draftId, slots, hstored, -⟩
    · exact h.same hsame
    · obtain ⟨htxs, draft, slots, hdraft, hof⟩ := h
      obtain ⟨hmem, hid⟩ := Db.draft?_eq_some.mp hdraft
      refine ⟨hstored.txs.trans htxs, draft, slots, Db.draft?_eq_some.mpr ⟨?_, hid⟩, hof⟩
      rw [hstored.drafts]
      exact List.mem_append_left _ hmem
  · intro auth token past w₁ block r w₂ h hruns
    obtain ⟨htxs, -, hsame | ⟨invitation, owner, slots, slots', now, hplan, haccepted⟩⟩ :=
      acceptInvite_ensures h.txs block r w₂ hruns
    · exact h.same hsame.1
    · obtain ⟨-, draft, current, hdraft, hof⟩ := h
      refine ⟨htxs, _, if id = invitation.draftId then slots' else current,
        haccepted.draft? hdraft, ?_⟩
      split
      · rename_i hid
        obtain rfl : draft = owner := Option.some.inj (by rw [← hdraft, hid, hplan.owner])
        have hslots : current = slots := by
          have hdecoded := hplan.decoded
          rw [hof.partySlots, slotsFromValue_slotsToValue] at hdecoded
          exact Option.some.inj hdecoded
        exact hof.resolve (hslots ▸ hplan.resolved)
      · exact hof
  · intro past step h hvalid hop _
    obtain ⟨htxs, draft, slots, hdraft, hof⟩ := h
    obtain ⟨draft', hdraft', hkept, hslots⟩ := draft?_step hvalid hdraft
    exact ⟨(txs_step hvalid hop).trans htxs, draft', slots, hdraft', hof.kept hkept (hslots hop)⟩

/-- A draft that was just stored. -/
theorem tracks_stored {env : Env} {auth : AuthUserWithWallet} {req : CreateAgreementRequest}
    {w w' : World} {draftId : Uuid} {slots : List Agreement.DraftPartyEntry}
    (h : Stored env auth req w w' draftId slots) (htxs : w.txs = []) :
    Tracks ⟨req.title, req.expiresInSecs, slots⟩ draftId w' := by
  have hof : DraftOf ⟨req.title, req.expiresInSecs, slots⟩
      (slots.map Agreement.DraftPartyEntry.toInvite)
      (newDraft draftId auth.pubkey ⟨req.title, req.expiresInSecs, slots⟩) :=
    draftOf_new (walletOrInvitation_of_slots h.forParties)
  refine ⟨h.txs.trans htxs, _, _, Db.draft?_eq_some.mpr ⟨?_, rfl⟩, hof⟩
  rw [h.drafts]
  exact List.mem_append_right _ (List.mem_singleton_self _)

end PactumCodex
