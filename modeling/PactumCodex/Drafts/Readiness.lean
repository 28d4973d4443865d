import PactumCodex.Drafts.Lifecycle
import PactumCodex.Replay

/-!
# When a draft is ready

`create_agreement` stores every draft as `awaiting_party_wallets`, also one whose
parties all have a wallet, and only `accept_invite` makes a draft ready.  So a
draft for which nobody had to be invited stays in the first status, although all
of its slots are resolved.
-/

namespace PactumCodex

open Interaction Relational Handlers Handlers.Invite

/-- Every slot of the draft holds a wallet. -/
def AllResolved (draft : Draft) : Prop :=
  ∃ slots, slotsFromValue draft.partySlots = some slots ∧ allPubkeysResolved slots

/-- The draft is ready exactly if every slot holds a wallet. -/
def ReadyIffResolved (draft : Draft) : Prop :=
  draft.status = .readyToSubmit ↔ AllResolved draft

/-- In the run from `w` to `w'`, the draft was stored by a request handled in `w₁`. -/
def CreatedBy (env : Env) (w w' : World) (draftId : Uuid) (req : CreateAgreementRequest)
    (w₁ : World) : Prop :=
  ∃ past auth block r w₂ future, Calls env w past w₁ ∧
    Runs perform (createAgreement env auth req).run w₁ block r w₂ ∧
    w₁.db.draft? draftId = none ∧ (w₂.db.draft? draftId).isSome ∧ Calls env w₂ future w'

/-- A program that does not create drafts leaves no new ones. -/
theorem draft?_back {α : Type} {p : Backend α} {w w' : World} {a : α} {steps : List BackendStep}
    (hp : p.Issues fun op => op.creates = false) (hruns : Runs perform p w steps a w') {id : Uuid}
    (h : (w'.db.draft? id).isSome) : (w.db.draft? id).isSome := by
  by_contra hnone
  have hissued := Stops.issued hp hruns.stops
  have hinv := hruns.chain.invariant (fun w => ¬ (w.db.draft? id).isSome) hnone
    fun step hmem hvalid hpre hpost => hpre (draft?_step_back hvalid (hissued step hmem) hpost)
  exact hinv.1 h

/-- A draft that was not there at first was stored by some request. -/
theorem exists_createdBy {env : Env} {w w' : World} {steps : List BackendStep}
    (h : Calls env w steps w') {id : Uuid} (hbefore : w.db.draft? id = none)
    (hafter : (w'.db.draft? id).isSome) : ∃ req w₁, CreatedBy env w w' id req w₁ := by
  induction h with
  | nil =>
      rw [hbefore] at hafter
      cases hafter
  | @cons w w₂ w' first rest p hentry hruns hcalls ih =>
      by_cases hmid : w₂.db.draft? id = none
      · obtain ⟨req, w₁, past, auth, block, r, w₃, future, hpast, hcreate⟩ := ih hmid hafter
        exact ⟨req, w₁, first ++ past, auth, block, r, w₃, future, .cons hentry hruns hpast,
          hcreate⟩
      · have hsome := Option.isSome_iff_ne_none.mpr hmid
        have hnone : ¬ (w.db.draft? id).isSome := by simp [hbefore]
        -- the first program has stored the draft
        rcases entry_single hentry with ⟨auth, req, rfl⟩ | ⟨auth, token, rfl⟩ | hsingle
        · obtain ⟨r, hruns⟩ := runs_logged.mp hruns
          exact ⟨req, w, [], auth, first, r, w₂, rest, .nil w, hruns, hbefore, hsome, hcalls⟩
        · obtain ⟨r, hruns⟩ := runs_logged.mp hruns
          have hissues := (acceptInvite_issues auth token).mono fun _ h =>
            Op.creates_of_stores h.stores
          exact absurd (draft?_back hissues hruns hsome) hnone
        · exact absurd (draft?_back (hsingle.mono fun _ h => h.2) hruns hsome) hnone

/-- What became of a draft that a request has stored. -/
theorem CreatedBy.draftOf {env : Env} {w w' w₁ : World} {id : Uuid} {req : CreateAgreementRequest}
    (h : CreatedBy env w w' id req w₁) (hw : w.txs = []) {draft : Draft}
    (hdraft : w'.db.draft? id = some draft) :
    ∃ entries slots, List.Forall₂ (SlotFor env w₁.db) req.parties entries ∧
      DraftOf ⟨req.title, req.expiresInSecs, entries⟩ slots draft := by
  obtain ⟨past, auth, block, r, w₂, future, hpast, hruns, hnone, hsome, hfuture⟩ := h
  rcases createAgreement_ensures block r w₂ hruns with ⟨hsame, -⟩ | ⟨draftId, entries, hstored, -⟩
  · rw [Db.draft?, hsame.drafts] at hsome
    rw [Db.draft?] at hnone
    rw [hnone] at hsome
    cases hsome
  · obtain rfl : id = draftId := by
      obtain ⟨row, hrow⟩ := Option.isSome_iff_exists.mp hsome
      obtain ⟨hmem, rfl⟩ := Db.draft?_eq_some.mp hrow
      rw [hstored.drafts] at hmem
      rcases List.mem_append.mp hmem with hmem | hmem
      · rw [Db.draft?_eq_some.mpr ⟨hmem, rfl⟩] at hnone
        cases hnone
      · rw [List.mem_singleton.mp hmem]
        rfl
    obtain ⟨-, draft', slots, hdraft', hof⟩ :=
      (tracks_stored hstored (hpast.txs hw)).calls hfuture
    obtain rfl : draft' = draft := Option.some.inj (hdraft'.symm.trans hdraft)
    exact ⟨entries, slots, hstored.forParties, hof⟩

/-- A draft is ready exactly if it is resolved, if and only if somebody had to be invited. -/
theorem DraftOf.readyIffResolved {payload : Agreement.DraftPayload} {slots : List DraftPartyEntry}
    {draft : Draft} (h : DraftOf payload slots draft) (hlive : draft.status ≠ .discarded) :
    ReadyIffResolved draft ↔ ∃ entry ∈ payload.parties, entry.pubkey = none := by
  have hresolved : AllResolved draft ↔ allPubkeysResolved slots := by
    unfold AllResolved
    rw [h.partySlots, slotsFromValue_slotsToValue]
    simp
  unfold ReadyIffResolved
  rw [h.status hlive, hresolved]
  constructor
  · intro hiff
    by_contra hnone
    -- nobody was invited, so the slots are the requested ones and all have a wallet
    have hall : ∀ entry ∈ payload.parties, entry.pubkey ≠ none :=
      fun entry hentry hnull => hnone ⟨entry, hentry, hnull⟩
    have hslots : allPubkeysResolved slots = true := by
      rw [fills_eq h.fills hall]
      refine List.all_eq_true.mpr (List.forall_mem_map.mpr fun entry hentry => ?_)
      exact Option.isSome_iff_ne_none.mpr (hall entry hentry)
    exact hnone (hiff.mpr hslots).2
  · intro hinvited
    exact ⟨fun hready => hready.1, fun hslots => ⟨hslots, hinvited⟩⟩

/-- **Readiness.**  In every state reached by requests and scans, every draft goes back to a request
that stored it; unless the draft is discarded, it is ready exactly if all its slots hold a wallet,
if and only if that request named a party by an email without a wallet. -/
theorem ready_iff_resolved_iff {env : Env} {w w' : World} {steps : List BackendStep}
    (hdrafts : w.db.drafts.rows = []) (htxs : w.txs = []) (hcalls : Calls env w steps w')
    {id : Uuid} {draft : Draft} (hdraft : w'.db.draft? id = some draft)
    (hlive : draft.status ≠ .discarded) :
    (∃ req w₁, CreatedBy env w w' id req w₁) ∧ ∀ req w₁, CreatedBy env w w' id req w₁ →
      (ReadyIffResolved draft ↔ ∃ party ∈ req.parties, party.Walletless env w₁.db) := by
  constructor
  · have hbefore : w.db.draft? id = none := by
      rw [Db.draft?, hdrafts]
      rfl
    exact exists_createdBy hcalls hbefore (by rw [hdraft]; rfl)
  · intro req w₁ hcreated
    obtain ⟨entries, slots, hfor, hof⟩ := hcreated.draftOf htxs hdraft
    rw [hof.readyIffResolved hlive]
    exact exists_open_slot_iff hfor

/-! ## A draft without invitations -/

/-- Bob has used up the free tier. -/
def exhaustedDb : Db := { accountsDb with counts := ⟨[⟨11, 1⟩], by decide⟩ }

theorem resolved_draft_stays_awaiting :
    ¬ ∀ (env : Env) (w w' : World) (steps : List BackendStep), w.db.drafts.rows = [] → w.txs = [] →
      Calls env w steps w' → ∀ id draft, w'.db.draft? id = some draft → draft.status ≠ .discarded →
        ReadyIffResolved draft := by
  intro hclaim
  obtain ⟨steps, w', hcalls, htest⟩ := calls_of_interpret (World.ofDb exhaustedDb)
    [(Handler.logged (createAgreement sampleEnv bob (requestFor [.pubkey aliceKey])), cooperate 0)]
    (fun _ w' => (w'.db.draft? 1).any fun draft => draft.status = .awaitingPartyWallets ∧
      (slotsFromValue draft.partySlots).any allPubkeysResolved)
    (List.forall_mem_cons.mpr ⟨.createAgreement .., by simp⟩) (by decide +kernel)
  obtain ⟨draft, hdraft, htest⟩ := (Option.any_eq_true _ _).mp htest
  obtain ⟨hstatus, hslots⟩ := of_decide_eq_true htest
  obtain ⟨slots, hslots, hall⟩ := (Option.any_eq_true _ _).mp hslots
  have hready := (hclaim sampleEnv _ w' steps rfl rfl hcalls 1 draft hdraft (by simp [hstatus])).mpr
    ⟨slots, hslots, hall⟩
  rw [hstatus] at hready
  cases hready

theorem ready_iff_resolved_iff_accepted :
    ∃ steps w' draft, Calls sampleEnv (World.ofDb accountsDb) steps w' ∧
      w'.db.draft? firstDraft = some draft ∧ draft.status = .readyToSubmit ∧
      ∃ req w₁, CreatedBy sampleEnv (World.ofDb accountsDb) w' firstDraft req w₁ ∧
        (ReadyIffResolved draft ↔ ∃ party ∈ req.parties, party.Walletless sampleEnv w₁.db) := by
  obtain ⟨steps, w', hcalls, htest⟩ := calls_of_interpret (World.ofDb accountsDb)
    [(Handler.logged (createAgreement sampleEnv bob (requestFor [.email "alice@pactum"])),
      cooperate 0),
      (Handler.logged (acceptInvite alice firstToken), cooperate 0)]
    (fun _ w' => (w'.db.draft? firstDraft).any fun draft => draft.status = .readyToSubmit)
    (List.forall_mem_cons.mpr ⟨.createAgreement .., List.forall_mem_cons.mpr
      ⟨.acceptInvite .., by simp⟩⟩) (by decide +kernel)
  obtain ⟨draft, hdraft, hready⟩ := (Option.any_eq_true _ _).mp htest
  have hready := of_decide_eq_true hready
  obtain ⟨⟨req, w₁, hcreated⟩, hiff⟩ :=
    ready_iff_resolved_iff rfl rfl hcalls hdraft (by simp [hready])
  exact ⟨steps, w', draft, hcalls, hdraft, hready, req, w₁, hcreated, hiff req w₁ hcreated⟩

end PactumCodex
