import PactumCodex.Drafts.Acceptance

/-!
# What `create_agreement` stores

If `create_agreement` stores a draft, there is one slot for each requested
party, in the order of the request.  A slot has a wallet, or it refers to an
invitation if no wallet is known for the email.  The invitations stored with the
draft are among those referred to, and their identifiers were never used before.

## Strategy

`ScanInv` is the invariant of the loop over the parties: after some of them the
slots are those of these parties, the rows to be inserted are those the slots
refer to, and all identifiers are new and different.  The loop looks up accounts
and generates identifiers, so drafts and invitations are still those from
before.

`Stored` is what is left of it when the draft has been inserted.  The insertions of
the invitations follow one by one and each of them may fail, so what is stored of
them is a part (`Invited`); the draft is there in any case.
-/

namespace PactumCodex

open Interaction Relational Handlers.Agreement

/-! ## Requested parties and slots -/

/-- The index of an email under the configured key. -/
def Env.emailIndex (env : Env) (email : String) : List UInt8 :=
  env.crates.hmacIndex email
    ((hexToBytes32 env.config.encryptionIndexKey).getD (Vector.replicate 32 0))

/-- The party is named by an email that no wallet belongs to. -/
def PartyInput.Walletless (env : Env) (db : Db) : PartyInput → Prop
  | .pubkey _ => False
  | .email address => ∀ contact ∈ db.contacts.rows,
      contact.emailIndex = some (env.emailIndex address) →
        ∀ wallet ∈ db.wallets.rows, wallet.userId ≠ contact.userId

instance (env : Env) (db : Db) : (party : PartyInput) → Decidable (party.Walletless env db)
  | .pubkey _ => inferInstanceAs (Decidable False)
  | .email address => inferInstanceAs (Decidable (∀ contact ∈ db.contacts.rows,
      contact.emailIndex = some (env.emailIndex address) →
        ∀ wallet ∈ db.wallets.rows, wallet.userId ≠ contact.userId))

/-- The invitations that the entries refer to. -/
def entryInviteIds (entries : List DraftPartyEntry) : List Uuid :=
  entries.filterMap DraftPartyEntry.inviteId

theorem inviteIds_toInvite (entries : List DraftPartyEntry) :
    inviteIds (entries.map DraftPartyEntry.toInvite) = entryInviteIds entries := by
  unfold inviteIds entryInviteIds
  rw [List.filterMap_map]
  rfl

/-- The slot of a requested party: a wallet, or an invitation if there is none yet. -/
structure SlotFor (env : Env) (db : Db) (party : PartyInput) (slot : DraftPartyEntry) : Prop where
  invited : slot.inviteId.isSome ↔ slot.pubkey = none
  walletless : slot.pubkey = none ↔ party.Walletless env db

/-- A lookup of an email without result means that no wallet belongs to it. -/
theorem walletless_of_lookup {env : Env} {db : Db} {key : Bytes 32} {email : String}
    {result : Option String} (hkey : hexToBytes32 env.config.encryptionIndexKey = some key)
    (h : AccountStmt.Returns db (.walletOfEmail (env.crates.hmacIndex email key)) result) :
    result = none ↔ (PartyInput.email email).Walletless env db := by
  have hindex : env.emailIndex email = env.crates.hmacIndex email key := by
    rw [Env.emailIndex, hkey]
    rfl
  simp only [PartyInput.Walletless, hindex]
  cases result with
  | none =>
      have hnone : _ = [] := h
      simp only [List.flatMap_eq_nil_iff, List.map_eq_nil_iff, List.filter_eq_nil_iff,
        List.mem_filter, decide_eq_true_eq, and_imp] at hnone
      exact ⟨fun _ => hnone, fun _ => rfl⟩
  | some pubkey =>
      have hsome : pubkey ∈ _ := h
      obtain ⟨contact, hcontact, hwallet⟩ := List.mem_flatMap.mp hsome
      obtain ⟨wallet, hwallet, -⟩ := List.mem_map.mp hwallet
      rw [List.mem_filter, decide_eq_true_eq] at hcontact hwallet
      refine ⟨fun h => absurd h (by simp), fun hless => ?_⟩
      exact absurd hwallet.2 (hless contact hcontact.1 hcontact.2 wallet hwallet.1)

theorem hexToBytes32_of_decode {text : String} {key : Bytes 32}
    (h : decodeHexKey32 text = .ok key) : hexToBytes32 text = some key := by
  unfold decodeHexKey32 at h
  split at h
  · rename_i key' hdecode
    rw [hdecode, Except.ok.inj h]
  · cases h

/-- The lookup of an email, while the accounts are still those of `w`. -/
theorem walletless_of_query {env : Env} {w w₁ w₂ : World} {key : Bytes 32} {email : String}
    {result : Option String} (hkey : hexToBytes32 env.config.encryptionIndexKey = some key)
    (hsame : SameDrafts w w₁)
    (h : performSql (.account (.walletOfEmail (env.crates.hmacIndex email key))) result
      w₁ = some w₂) :
    (result = none ↔ (PartyInput.email email).Walletless env w.db) ∧ SameDrafts w₁ w₂ := by
  refine ⟨?_, ?_⟩
  · obtain ⟨-, -, db, hexec, -⟩ := performSql_eq_some.mp h
    have hless := walletless_of_lookup hkey (provided_eq_some.mp hexec).1
    unfold PartyInput.Walletless at hless ⊢
    rwa [hsame.accounts.1, hsame.accounts.2] at hless
  · have hperform : perform (.sql (.account (.walletOfEmail _))) (.ok result) w₁ = some w₂ := h
    exact sameDrafts_of_perform hperform rfl

/-! ## The loop over the parties -/

/-- The state of the loop, started in `w`, after the given parties, when the world is `w'`. -/
structure ScanInv (env : Env) (w w' : World) (parties : List PartyInput) (scan : PartyScan) :
    Prop where
  same : SameDrafts w w'
  slots : List.Forall₂ (SlotFor env w.db) parties scan.partySlots
  rows : scan.invitationRows.map InvitationInsertRow.id = entryInviteIds scan.partySlots
  nodup : (entryInviteIds scan.partySlots).Nodup
  generated : ∀ id ∈ entryInviteIds scan.partySlots, id ∈ w'.uuids ∧ id ∉ w.uuids

section Scan

variable {env : Env} {w w₁ w₂ : World} {parties : List PartyInput} {scan : PartyScan}

theorem scanInv_start (env : Env) (w : World) : ScanInv env w w [] ⟨true, [], []⟩ :=
  ⟨SameDrafts.refl w, .nil, rfl, by simp [entryInviteIds], by simp [entryInviteIds]⟩

/-- Operations on other tables do not matter to the loop. -/
theorem ScanInv.world (h : ScanInv env w w₁ parties scan) (hsame : SameDrafts w₁ w₂) :
    ScanInv env w w₂ parties scan :=
  ⟨h.same.trans hsame, h.slots, h.rows, h.nodup,
    fun id hid => ⟨hsame.uuids id (h.generated id hid).1, (h.generated id hid).2⟩⟩

/-- A party with a wallet. -/
theorem ScanInv.addPubkey (h : ScanInv env w w₁ parties scan) {party : PartyInput}
    {pubkey : String} (hslot : SlotFor env w.db party ⟨some pubkey, none⟩) :
    ScanInv env w w₁ (parties ++ [party])
      { scan with partySlots := scan.partySlots ++ [⟨some pubkey, none⟩] } := by
  have hids : entryInviteIds (scan.partySlots ++ [⟨some pubkey, none⟩]) =
      entryInviteIds scan.partySlots := by
    simp [entryInviteIds]
  refine ⟨h.same, List.rel_append h.slots (.cons hslot .nil), ?_, ?_, ?_⟩
  · rw [hids]
    exact h.rows
  · rw [hids]
    exact h.nodup
  · rw [hids]
    exact h.generated

/-- A party that is invited. -/
theorem ScanInv.addInvitation (h : ScanInv env w w₁ parties scan) (hsame : SameDrafts w₁ w₂)
    {party : PartyInput} {row : InvitationInsertRow}
    (hslot : SlotFor env w.db party ⟨none, some row.id⟩) (hfresh : row.id ∉ w₁.uuids)
    (hgenerated : row.id ∈ w₂.uuids) :
    ScanInv env w w₂ (parties ++ [party])
      ⟨false, scan.partySlots ++ [⟨none, some row.id⟩], scan.invitationRows ++ [row]⟩ := by
  have hids : entryInviteIds (scan.partySlots ++ [⟨none, some row.id⟩]) =
      entryInviteIds scan.partySlots ++ [row.id] := by
    simp [entryInviteIds]
  refine ⟨h.same.trans hsame, List.rel_append h.slots (.cons hslot .nil), ?_, ?_, ?_⟩
  · rw [hids, List.map_append, h.rows]
    rfl
  · rw [hids, List.nodup_append]
    refine ⟨h.nodup, List.nodup_singleton _, fun id hid id' hid' heq => ?_⟩
    rw [List.mem_singleton] at hid'
    exact hfresh (hid' ▸ heq ▸ (h.generated id hid).1)
  · rw [hids]
    intro id hid
    rcases List.mem_append.mp hid with hid | hid
    · exact ⟨hsame.uuids id (h.generated id hid).1, (h.generated id hid).2⟩
    · rw [List.mem_singleton] at hid
      subst hid
      exact ⟨hgenerated, fun hused => hfresh (h.same.uuids _ hused)⟩

theorem resolveParties_ensures {key indexKey : Bytes 32} {invitedAt expiresAt : ℤ}
    (hkey : hexToBytes32 env.config.encryptionIndexKey = some indexKey) {rest : List PartyInput}
    (h : ScanInv env w w₁ parties scan) :
    Ensures perform (resolveParties env key indexKey invitedAt expiresAt rest scan).run w₁
      (Outcome (fun scan' w₂ => ScanInv env w w₂ (parties ++ rest) scan') (SameDrafts w)) := by
  induction rest generalizing scan w₁ parties with
  | nil =>
      rw [List.append_nil]
      exact ensures_ret h
  | cons party rest ih =>
      rw [List.append_cons]
      cases party with
      | pubkey pubkey =>
          have hslot : SlotFor env w.db (.pubkey pubkey) ⟨some pubkey, none⟩ :=
            ⟨by simp, by simp [PartyInput.Walletless]⟩
          exact ih (h.addPubkey hslot)
      | email email =>
          refine ensures_query_bind (fun resolved w₂ hquery => ?_) h.same
          -- contacts and wallets are still those of the start
          obtain ⟨hless, h₂⟩ := walletless_of_query hkey h.same hquery
          cases resolved with
          | some pubkey =>
              have hslot : SlotFor env w.db (.email email) ⟨some pubkey, none⟩ :=
                ⟨by simp, by simpa using hless⟩
              exact ih ((h.world h₂).addPubkey hslot)
          | none =>
              -- the party is invited under an id that was not used before
              refine ensures_ask_bind fun inviteId w₃ hid => ?_
              obtain ⟨hfresh, hw₃⟩ := provided_eq_some.mp hid
              have h₃ : SameDrafts w₂ w₃ := sameDrafts_of_perform hid rfl
              refine ensures_ask_bind fun token w₄ htoken => ?_
              obtain rfl : w₃ = w₄ := Option.some.inj htoken
              refine ensures_run_bind (Ψ := fun _ w₅ => w₅ = w₃)
                (ensures_orFail (ensures_issue fun answer w₅ hencrypt => ?_)) ?_ ?_
              · obtain rfl : w₃ = w₅ := Option.some.inj hencrypt
                cases answer <;> rfl
              · rintro ⟨emailEnc, emailNonce⟩ w₅ rfl
                have hslot : SlotFor env w.db (.email email) ⟨none, some inviteId⟩ :=
                  ⟨by simp, by simpa using hless⟩
                have hgenerated : inviteId ∈ w₅.uuids := by
                  rw [hw₃]
                  exact List.mem_cons_self
                let row : InvitationInsertRow := ⟨inviteId, env.crates.hmacIndex email indexKey,
                  emailEnc, emailNonce, token, emailHint email, invitedAt, expiresAt⟩
                have hscan : ScanInv env w w₅ (parties ++ [.email email])
                    ⟨false, scan.partySlots ++ [⟨none, some row.id⟩],
                      scan.invitationRows ++ [row]⟩ :=
                  (h.world h₂).addInvitation h₃ hslot hfresh hgenerated
                exact ih hscan
              · rintro e w₅ rfl
                exact (h.same.trans h₂).trans h₃

end Scan

/-! ## The stored draft -/

/-- Only pending invitations of the draft, with the given identifiers, are added to `w`. -/
structure Invited (draftId : Uuid) (ids : List Uuid) (w w' : World) : Prop where
  drafts : w'.db.drafts = w.db.drafts
  invitations : ∃ added, w'.db.invitations.rows = w.db.invitations.rows ++ added ∧
    ∀ invitation ∈ added, invitation.draftId = draftId ∧ invitation.id ∈ ids
  txs : w'.txs = w.txs
  uuids : ∀ id ∈ w.uuids, id ∈ w'.uuids

theorem Invited.refl (draftId : Uuid) (ids : List Uuid) (w : World) : Invited draftId ids w w :=
  ⟨rfl, ⟨[], by simp, by simp⟩, rfl, fun _ h => h⟩

theorem Invited.insert {draftId : Uuid} {ids : List Uuid} {w w₁ w₂ : World}
    (h : Invited draftId ids w w₁) {id : Uuid} (hid : id ∈ ids) {index enc nonce : List UInt8}
    {token : String} {expiresAt now : ℤ} {out : Unit}
    (hinsert : performSql (.invitation (.insert id draftId index enc nonce token expiresAt now))
      out w₁ = some w₂) : Invited draftId ids w w₂ := by
  obtain ⟨-, -, db, hexec, rfl⟩ := performSql_eq_some.mp hinsert
  obtain ⟨table, htable, rfl⟩ := Option.map_eq_some_iff.mp hexec
  unfold InvitationStmt.exec at htable
  rw [Option.ite_none_right_eq_some] at htable
  obtain ⟨added, hrows, hadded⟩ := h.invitations
  refine ⟨h.drafts,
    ⟨added ++ [InvitationStmt.newRow id draftId index enc nonce token expiresAt now],
    ?_, ?_⟩, h.txs, h.uuids⟩
  · rw [rows_of_commit htable.2, hrows, List.append_assoc]
  · intro invitation hmem
    rcases List.mem_append.mp hmem with hmem | hmem
    · exact hadded invitation hmem
    · rw [List.mem_singleton.mp hmem]
      exact ⟨rfl, hid⟩

theorem insertInvitations_ensures {draftId : Uuid} {ids : List Uuid} {w w₁ : World}
    {rows : List InvitationInsertRow} (hrows : ∀ row ∈ rows, row.id ∈ ids)
    (h : Invited draftId ids w w₁) :
    Ensures perform (insertInvitations draftId rows).run w₁
      fun _ w₂ => Invited draftId ids w w₂ := by
  induction rows generalizing w₁ with
  | nil => exact ensures_ret h
  | cons row rows ih =>
      rw [List.forall_mem_cons] at hrows
      refine ensures_ask_bind fun now w₂ hnow => ?_
      obtain ⟨-, rfl⟩ := provided_eq_some.mp hnow
      have h₂ : Invited draftId ids w { w₁ with clock := now } :=
        ⟨h.drafts, h.invitations, h.txs, h.uuids⟩
      exact ensures_query_bind (fun out w₃ hinsert => ih hrows.2 (h₂.insert hrows.1 hinsert)) h₂

/-- The draft as it is stored. -/
def newDraft (id : Uuid) (creatorPubkey : String) (payload : DraftPayload) : Draft where
  id
  creatorPubkey
  draftPayload := payload.toValue
  partySlots := slotsToValue payload.parties
  status := .awaitingPartyWallets
  readyAt := none
  paid := false
  storageUri := none
  storageUploaded := false
  agreementPda := none
  agreementId := none

/-- `create_agreement` has stored a draft for the request; some of its invitations may be missing
if it failed later. -/
structure Stored (env : Env) (auth : AuthUserWithWallet) (req : CreateAgreementRequest)
    (w w' : World) (draftId : Uuid) (slots : List DraftPartyEntry) : Prop where
  fresh : draftId ∉ w.uuids
  forParties : List.Forall₂ (SlotFor env w.db) req.parties slots
  drafts : w'.db.drafts.rows =
    w.db.drafts.rows ++ [newDraft draftId auth.pubkey ⟨req.title, req.expiresInSecs, slots⟩]
  invitations : ∃ added, w'.db.invitations.rows = w.db.invitations.rows ++ added ∧
    ∀ invitation ∈ added, invitation.draftId = draftId ∧ invitation.id ∈ entryInviteIds slots
  nodup : (entryInviteIds slots).Nodup
  generated : ∀ id ∈ entryInviteIds slots, id ∈ w'.uuids ∧ id ∉ w.uuids
  txs : w'.txs = w.txs
  uuids : ∀ id ∈ w.uuids, id ∈ w'.uuids

/-- The response names a stored draft. -/
def CreateAgreementResponse.Stores (draftId : Uuid) :
    Except AppError CreateAgreementResponse → Prop
  | .ok (.awaitingPartyWallets id _) => id = draftId
  | _ => False

instance (draftId : Uuid) : DecidablePred (CreateAgreementResponse.Stores draftId)
  | .ok (.awaitingPartyWallets id _) => inferInstanceAs (Decidable (id = draftId))
  | .ok (.submitted ..) => .isFalse id
  | .error _ => .isFalse id

theorem CreateAgreementResponse.Stores.eq_ok {draftId : Uuid}
    {r : Except AppError CreateAgreementResponse} (h : CreateAgreementResponse.Stores draftId r) :
    ∃ pendingInvitations, r = .ok (.awaitingPartyWallets draftId pendingInvitations) := by
  cases r with
  | error e => exact h.elim
  | ok response =>
      cases response with
      | submitted => exact h.elim
      | awaitingPartyWallets id pendingInvitations =>
          obtain rfl : id = draftId := h
          exact ⟨pendingInvitations, rfl⟩

theorem storeDraft_ensures {env : Env} {auth : AuthUserWithWallet} {req : CreateAgreementRequest}
    {w w₁ : World} {scan : PartyScan} (h : ScanInv env w w₁ req.parties scan) :
    Ensures perform (storeDraft auth req scan.partySlots scan.invitationRows).run w₁ fun r w' =>
      (SameDrafts w w' ∧ ∀ d, ¬ CreateAgreementResponse.Stores d r) ∨
        ∃ draftId, Stored env auth req w w' draftId scan.partySlots ∧
          ∀ d, CreateAgreementResponse.Stores d r → d = draftId := by
  unfold storeDraft
  refine ensures_query_bind (fun draftId w₂ hinsert => ?_) (Or.inl ⟨h.same, fun _ h => h⟩)
  obtain ⟨-, hfresh, db, hexec, rfl⟩ := performSql_eq_some.mp hinsert
  obtain ⟨drafts, hdrafts, rfl⟩ := Option.map_eq_some_iff.mp hexec
  have hids : ∀ row ∈ scan.invitationRows, row.id ∈ entryInviteIds scan.partySlots := by
    intro row hrow
    rw [← h.rows]
    exact List.mem_map_of_mem hrow
  have hstored : ∀ {w₃}, Invited draftId (entryInviteIds scan.partySlots)
      { w₁ with db := { w₁.db with drafts }, uuids := draftId :: w₁.uuids } w₃ →
        Stored env auth req w w₃ draftId scan.partySlots := by
    intro w₃ h₃
    have huuids : ∀ id ∈ w₁.uuids, id ∈ w₃.uuids :=
      fun id hid => h₃.uuids id (List.mem_cons_of_mem _ hid)
    refine ⟨fun hused => ?_, h.slots, ?_, ?_, h.nodup, fun id hid => ?_, h₃.txs.trans h.same.txs,
      fun id hid => huuids id (h.same.uuids id hid)⟩
    · exact hfresh draftId List.mem_cons_self (h.same.uuids draftId hused)
    · rw [h₃.drafts, ← h.same.drafts]
      exact rows_of_commit hdrafts
    · rw [← h.same.invitations]
      exact h₃.invitations
    · exact ⟨huuids id (h.generated id hid).1, (h.generated id hid).2⟩
  -- whether all of the invitations are inserted or some, the draft is stored
  refine ensures_run_bind (insertInvitations_ensures hids (Invited.refl ..)) ?_ ?_
  · intro _ w₃ h₃
    exact ensures_ret (Or.inr ⟨draftId, hstored h₃, fun d hd => hd.symm⟩)
  · intro e w₃ h₃
    exact Or.inr ⟨draftId, hstored h₃, fun d hd => hd.elim⟩

theorem submitDirectly_ensures {env : Env} {auth : AuthUserWithWallet}
    {req : CreateAgreementRequest} {slots : List DraftPartyEntry} {w : World} :
    Ensures perform (submitDirectly env auth req slots).run w fun r w' =>
      SameDrafts w w' ∧ ∀ d, ¬ CreateAgreementResponse.Stores d r := by
  refine Ensures.and (ensures_sameDrafts ?_) ?_
  · unfold submitDirectly buildCreateAgreementTx calculateVaultDeposit
    refine issues_run_bind issues_okOr fun _ => issues_run_bind (issues_ask.mpr rfl) fun _ => ?_
    refine issues_run_bind (issues_run_bind (issues_run_bind ?_ fun _ => trivial) fun _ => ?_)
      fun _ => trivial
    · exact issues_orFail (issues_issue.mpr rfl)
    · refine issues_run_bind issues_okOr fun _ => ?_
      refine issues_run_bind (issues_orFail (issues_issue.mpr rfl)) fun _ => ?_
      exact issues_orFail (issues_issue.mpr rfl)
  · unfold submitDirectly
    refine ensures_okOr_bind (fun _ _ => ensures_ask_bind fun _ _ _ => ?_) fun _ h => h
    refine ensures_run_bind (Ψ := fun _ _ => True) (fun _ _ _ _ => trivial) ?_ fun _ _ _ _ h => h
    exact fun _ _ _ => ensures_ret fun _ h => h

/-- **Specification of `create_agreement`.**  It stores a draft for the request, or changes
neither drafts nor invitations and says nothing of a draft. -/
theorem createAgreement_ensures {env : Env} {auth : AuthUserWithWallet}
    {req : CreateAgreementRequest} {w : World} :
    Ensures perform (createAgreement env auth req).run w fun r w' =>
      (SameDrafts w w' ∧ ∀ d, ¬ CreateAgreementResponse.Stores d r) ∨
        ∃ draftId slots, Stored env auth req w w' draftId slots ∧
          ∀ d, CreateAgreementResponse.Stores d r → d = draftId := by
  have hfailed : ∀ {w'} {e : AppError}, SameDrafts w w' →
      (SameDrafts w w' ∧ ∀ d, ¬ CreateAgreementResponse.Stores d (.error e)) ∨
        ∃ draftId slots, Stored env auth req w w' draftId slots ∧
          ∀ d, CreateAgreementResponse.Stores d (.error e) → d = draftId :=
    fun hsame => Or.inl ⟨hsame, fun _ h => h⟩
  unfold createAgreement
  refine ensures_ofExcept_bind (fun _ _ => ?_) fun _ _ => hfailed (SameDrafts.refl w)
  refine ensures_ofExcept_bind (fun key _ => ?_) fun _ _ => hfailed (SameDrafts.refl w)
  refine ensures_ofExcept_bind (fun indexKey hindex => ?_) fun _ _ => hfailed (SameDrafts.refl w)
  have hkey := hexToBytes32_of_decode hindex
  refine ensures_query_bind (fun freeUsed w₁ hquery => ?_) (hfailed (SameDrafts.refl w))
  have h₁ : SameDrafts w w₁ := by
    have hperform : perform (.sql (.count (.freeUsed auth.userId))) (.ok freeUsed) w = some w₁ :=
      hquery
    exact sameDrafts_of_perform hperform rfl
  refine ensures_ask_bind fun invitedAt w₂ hnow => ?_
  obtain rfl : w₁ = w₂ := Option.some.inj hnow
  refine ensures_okOr_bind (fun expiry _ => ?_) (hfailed h₁)
  have hstart : ScanInv env w w₁ [] ⟨true, [], []⟩ := (scanInv_start env w).world h₁
  refine ensures_run_bind (resolveParties_ensures hkey hstart) ?_ fun e w₃ h₃ => hfailed h₃
  intro scan w₃ h₃
  rw [List.nil_append] at h₃
  -- without invited parties and within the free tier nothing is stored
  split
  · refine submitDirectly_ensures.mono fun r w₄ h₄ => Or.inl ⟨h₃.same.trans h₄.1, h₄.2⟩
  · refine (storeDraft_ensures h₃).mono fun r w₄ h₄ => ?_
    rcases h₄ with h₄ | ⟨draftId, h₄, hd⟩
    · exact Or.inl h₄
    · exact Or.inr ⟨draftId, scan.partySlots, h₄, hd⟩

end PactumCodex
