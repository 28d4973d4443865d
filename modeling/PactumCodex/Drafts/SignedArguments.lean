import PactumCodex.Drafts.Creation
import PactumCodex.Drafts.FailedRequests
import PactumCodex.SolanaTypes

/-!
# What the vault signs

`create_agreement` and `submit_draft` have the vault sign a transaction whose
arguments come from the request, from the accounts and, for a submission, from the
payload of the draft.  No value is checked on the way against the rules of the
program, so the arguments follow the rules just if the values do.

## Strategy

`SigningInput` are the values before they are converted: the texts of the parties,
the title, the expiry as it was requested.  `SigningInput.Gives` says that arguments
are made of them.

* The programs only read until they build the transaction (`Inspects`), so what they
  sign can be stated over the database in which they start (`SignsWith`).
* `resolveParties_texts` is the invariant of the loop over the parties: each slot has
  the text of its party, the given key or the wallet found for the email.
* `createAgreement_signsWith` and `submitDraft_signsWith` say what the values are on
  each of the two paths.

The conversions keep everything the program checks of the arguments, as far as the
values are in the range of their types (`SigningInput.Gives.withinRules_iff`).
-/

namespace PactumCodex

open Interaction Relational Handlers

/-! ## Values -/

/-- The values of which the arguments are made: the texts of the parties, and the wallet of the
creator. -/
structure SigningInput where
  title : String
  storageUri : String
  expiresInSecs : UInt64
  parties : List (Option String)
  creator : String

/-- The keys among the texts. -/
def SigningInput.keys (crates : Crates) (input : SigningInput) : List Pubkey :=
  (input.parties.filterMap id).filterMap crates.pubkeyFromStr

/-- The arguments are made of the values. -/
structure SigningInput.Gives (crates : Crates) (input : SigningInput) (args : CreateAgreementArgs)
    (creator : Pubkey) : Prop where
  title : args.title = input.title
  storageUri : args.storageUri = input.storageUri
  expiresInSecs : args.expiresInSecs = input.expiresInSecs.toInt64
  parties : args.parties = input.keys crates
  creator : crates.pubkeyFromStr input.creator = some creator

/-! ## Steps that sign -/

/-- The vault is asked to sign. -/
def Op.signs : Op → Bool
  | .vaultSign .. => true
  | _ => false

/-- The vault signs a transaction with the arguments. -/
def Signs (args : CreateAgreementArgs) (creator : Pubkey) (step : BackendStep) : Prop :=
  ∃ blockhash transaction,
    step = ⟨step.pre, .vaultSign args creator blockhash, .ok transaction, step.post⟩

/-- Nothing is signed, or what is signed is made of one input. -/
def SignsFor (crates : Crates) (ok : SigningInput → Prop) (steps : List BackendStep) : Prop :=
  (∀ step ∈ steps, step.op.signs = false) ∨ ∃ input, ok input ∧
    ∀ step ∈ steps, ∀ args creator, Signs args creator step → input.Gives crates args creator

/-- The same of all runs of a program from a database. -/
def SignsWith {α : Type} (crates : Crates) (ok : SigningInput → Prop) (x : Handler α) (db : Db) :
    Prop :=
  ∀ w steps r w', w.db = db → Runs perform x.run w steps r w' → SignsFor crates ok steps

/-- The program reads, and has nothing signed. -/
def Inspects {α : Type} (x : Handler α) : Prop :=
  x.run.Issues fun op => op.quiet = true ∧ op.signs = false

section Signs

variable {α β : Type} {crates : Crates} {ok : SigningInput → Prop} {db : Db}
variable {x : Handler α} {f : α → Handler β}

theorem Inspects.readsOnly (hx : Inspects x) : ReadsOnly x := hx.mono fun _ h => h.1

theorem Inspects.free (hx : Inspects x) : x.run.Issues fun op => op.signs = false :=
  hx.mono fun _ h => h.2

theorem not_signs_of_free {args : CreateAgreementArgs} {creator : Pubkey} {step : BackendStep}
    (h : step.op.signs = false) : ¬ Signs args creator step := by
  rintro ⟨blockhash, transaction, hstep⟩
  rw [hstep] at h
  cases h

theorem SignsFor.append {first second : List BackendStep}
    (hfirst : ∀ step ∈ first, step.op.signs = false) (h : SignsFor crates ok second) :
    SignsFor crates ok (first ++ second) := by
  rcases h with hfree | ⟨input, hinput, hgives⟩
  · exact Or.inl (List.forall_mem_append.mpr ⟨hfirst, hfree⟩)
  · refine Or.inr ⟨input, hinput, List.forall_mem_append.mpr ⟨fun step hstep args creator hsigns =>
      ?_, hgives⟩⟩
    exact absurd hsigns (not_signs_of_free (hfirst step hstep))

theorem SignsFor.append_free {first second : List BackendStep} (h : SignsFor crates ok first)
    (hsecond : ∀ step ∈ second, step.op.signs = false) : SignsFor crates ok (first ++ second) := by
  rcases h with hfree | ⟨input, hinput, hgives⟩
  · exact Or.inl (List.forall_mem_append.mpr ⟨hfree, hsecond⟩)
  · refine Or.inr ⟨input, hinput, List.forall_mem_append.mpr ⟨hgives, fun step hstep args creator
      hsigns => ?_⟩⟩
    exact absurd hsigns (not_signs_of_free (hsecond step hstep))

theorem signsWith_free (hx : x.run.Issues fun op => op.signs = false) : SignsWith crates ok x db :=
  fun _ _ _ _ _ hrun => Or.inl (hrun.stops.issued hx)

theorem signsWith_free_bind (hx : x.run.Issues fun op => op.signs = false)
    (hf : ∀ a db', SignsWith crates ok (f a) db') : SignsWith crates ok (x >>= f) db := by
  intro w steps r w' _ hrun
  rcases runs_bind_cases hrun with ⟨e, rfl, hfirst⟩ | ⟨a, w₁, first, second, rfl, hfirst, hsecond⟩
  · exact Or.inl (hfirst.stops.issued hx)
  · exact (hf a w₁.db w₁ second r w' rfl hsecond).append (hfirst.stops.issued hx)

/-- What a part reads is known when the rest is started, on the same database. -/
theorem signsWith_inspects_bind (hx : Inspects x)
    (hf : ∀ a, (∃ w first w₁, w.db = db ∧ Runs perform x.run w first (.ok a) w₁) →
      SignsWith crates ok (f a) db) : SignsWith crates ok (x >>= f) db := by
  intro w steps r w' hw hrun
  rcases runs_bind_cases hrun with ⟨e, rfl, hfirst⟩ | ⟨a, w₁, first, second, rfl, hfirst, hsecond⟩
  · exact Or.inl (hfirst.stops.issued hx.free)
  · have hdb : w₁.db = db := (hx.readsOnly.runs hfirst).2.trans hw
    exact (hf a ⟨w, first, w₁, hw, hfirst⟩ w₁ second r w' hdb hsecond).append
      (hfirst.stops.issued hx.free)

theorem signsWith_bind_free (hx : SignsWith crates ok x db)
    (hf : ∀ a, (f a).run.Issues fun op => op.signs = false) : SignsWith crates ok (x >>= f) db := by
  intro w steps r w' hw hrun
  rcases runs_bind_cases hrun with ⟨e, rfl, hfirst⟩ | ⟨a, w₁, first, second, rfl, hfirst, hsecond⟩
  · exact hx w steps _ w' hw hfirst
  · exact (hx w first _ w₁ hw hfirst).append_free (hsecond.stops.issued (hf a))

theorem SignsWith.mono {ok' : SigningInput → Prop} (h : SignsWith crates ok x db)
    (himp : ∀ input, ok input → ok' input) : SignsWith crates ok' x db := by
  intro w steps r w' hw hrun
  rcases h w steps r w' hw hrun with hfree | ⟨input, hinput, hgives⟩
  · exact Or.inl hfree
  · exact Or.inr ⟨input, himp input hinput, hgives⟩

/-- The transaction is built from the arguments it is given. -/
theorem signsWith_build {args : CreateAgreementArgs} {creator : Pubkey} {input : SigningInput}
    (hinput : ok input) (h : input.Gives crates args creator) :
    SignsWith crates ok (buildCreateAgreementTx args creator) db := by
  intro w steps r w' _ hrun
  refine Or.inr ⟨input, hinput, fun step hstep args' creator' hsigns => ?_⟩
  have hbuilds := hrun.stops.issued (buildCreateAgreementTx_issues args creator) step hstep
  obtain ⟨blockhash, transaction, heq⟩ := hsigns
  rw [heq] at hbuilds
  cases hbuilds
  exact h

end Signs

/-! ## The texts of the parties -/

/-- The text a requested party stands for: the given key, or the wallet found for the email. -/
def Resolves (env : Env) (db : Db) : PartyInput → Option String → Prop
  | .pubkey pubkey, text => text = some pubkey
  | .email email, text => AccountStmt.Returns db (.walletOfEmail (env.emailIndex email)) text

/-- The loop over the parties has put the text of each party into its slot. -/
structure Scanned (env : Env) (db : Db) (parties : List PartyInput) (scan : PartyScan) : Prop where
  texts : List.Forall₂ (Resolves env db) parties
    (scan.partySlots.map Agreement.DraftPartyEntry.pubkey)
  resolved : scan.allPartiesResolved = true → ∀ slot ∈ scan.partySlots, slot.pubkey.isSome

section Scan

variable {env : Env} {db : Db} {parties : List PartyInput} {scan : PartyScan}

theorem Scanned.addText (h : Scanned env db parties scan) {party : PartyInput} {pubkey : String}
    (hparty : Resolves env db party (some pubkey)) : Scanned env db (parties ++ [party])
      { scan with partySlots := scan.partySlots ++ [⟨some pubkey, none⟩] } := by
  refine ⟨?_, fun hall => ?_⟩
  · rw [List.map_append]
    exact List.rel_append h.texts (.cons hparty .nil)
  · exact List.forall_mem_append.mpr ⟨h.resolved hall, by simp⟩

theorem Scanned.addInvitation (h : Scanned env db parties scan) {party : PartyInput}
    (hparty : Resolves env db party none) (row : InvitationInsertRow) :
    Scanned env db (parties ++ [party])
      ⟨false, scan.partySlots ++ [⟨none, some row.id⟩], scan.invitationRows ++ [row]⟩ := by
  refine ⟨?_, fun hall => by cases hall⟩
  rw [List.map_append]
  exact List.rel_append h.texts (.cons hparty .nil)

/-- The lookup of an email. -/
theorem resolves_of_query {w w' : World} {indexKey : Bytes 32} {email : String}
    {result : Option String} (hkey : hexToBytes32 env.config.encryptionIndexKey = some indexKey)
    (h : performSql (.account (.walletOfEmail (env.crates.hmacIndex email indexKey))) result w =
      some w') : Resolves env w.db (.email email) result := by
  obtain ⟨-, -, db, hexec, -⟩ := performSql_eq_some.mp h
  have hindex : env.emailIndex email = env.crates.hmacIndex email indexKey := by
    rw [Env.emailIndex, hkey]
    rfl
  rw [Resolves, hindex]
  exact (provided_eq_some.mp hexec).1

theorem resolveParties_texts {key indexKey : Bytes 32} {invitedAt expiresAt : ℤ} {w : World}
    (hkey : hexToBytes32 env.config.encryptionIndexKey = some indexKey) {rest : List PartyInput}
    (h : Scanned env w.db parties scan) :
    Ensures perform (resolveParties env key indexKey invitedAt expiresAt rest scan).run w
      (Outcome (fun scan' _ => Scanned env w.db (parties ++ rest) scan') fun _ => True) := by
  induction rest generalizing scan w parties with
  | nil =>
      rw [List.append_nil]
      exact ensures_ret h
  | cons party rest ih =>
      rw [List.append_cons]
      cases party with
      | pubkey pubkey => exact ih (h.addText rfl)
      -- the wallet of the email, or an invitation, which leaves the slot without a text
      | email email =>
          refine ensures_query_bind (fun resolved w₁ hquery => ?_) trivial
          have hparty := resolves_of_query hkey hquery
          obtain rfl := world_of_select rfl hquery
          cases resolved with
          | some pubkey => exact ih (h.addText hparty)
          | none =>
              refine ensures_ask_bind fun inviteId w₂ hid => ?_
              have h₂ : w₂.db = w₁.db := db_of_ask (.inr (.inl rfl)) hid
              refine ensures_ask_bind fun token w₃ htoken => ?_
              obtain rfl : w₂ = w₃ := Option.some.inj htoken
              refine ensures_run_bind (Ψ := fun _ w₄ => w₄ = w₂)
                (ensures_orFail (ensures_issue fun answer w₄ hencrypt => ?_)) ?_
                fun _ _ _ => trivial
              · obtain rfl : w₂ = w₄ := Option.some.inj hencrypt
                cases answer <;> rfl
              · rintro ⟨emailEnc, emailNonce⟩ w₄ rfl
                rw [← h₂] at h hparty ⊢
                exact ih (h.addInvitation hparty ⟨inviteId, env.crates.hmacIndex email indexKey,
                  emailEnc, emailNonce, token, emailHint email, invitedAt, expiresAt⟩)

end Scan

/-! ## The two requests -/

/-- The values of a request that is submitted directly. -/
def DirectInput (env : Env) (auth : AuthUserWithWallet) (req : CreateAgreementRequest) (db : Db)
    (input : SigningInput) : Prop :=
  ∃ texts, List.Forall₂ (Resolves env db) req.parties texts ∧
    input = ⟨req.title, "ipfs://placeholder", req.expiresInSecs, texts, auth.pubkey⟩

/-- The values of the submission of a draft: those of its payload. -/
def SubmittedInput (auth : AuthUserWithWallet) (draftId : Uuid) (req : SubmitDraftRequest) (db : Db)
    (input : SigningInput) : Prop :=
  ∃ draft payload, db.draft? draftId = some draft ∧
    Draft.DraftPayload.fromValue draft.draftPayload = some payload ∧
    input = ⟨payload.title, req.storageUri, payload.expiresInSecs,
      payload.parties.map Draft.DraftPartyEntry.pubkey, auth.pubkey⟩

section Requests

variable {env : Env} {auth : AuthUserWithWallet} {db : Db}

theorem insertInvitations_free (draftId : Uuid) (rows : List InvitationInsertRow) :
    (insertInvitations draftId rows).run.Issues fun op => op.signs = false := by
  induction rows with
  | nil => trivial
  | cons invite rest ih =>
      refine issues_run_bind (issues_ask.mpr rfl) fun now => ?_
      exact issues_run_bind (issues_query.mpr rfl) fun _ => ih

theorem storeDraft_free (req : CreateAgreementRequest) (slots : List Agreement.DraftPartyEntry)
    (rows : List InvitationInsertRow) :
    (storeDraft auth req slots rows).run.Issues fun op => op.signs = false := by
  unfold storeDraft
  refine issues_run_bind (issues_query.mpr rfl) fun draftId => ?_
  exact issues_run_bind (insertInvitations_free ..) fun _ => trivial

theorem resolveParties_inspects (key indexKey : Bytes 32) (invitedAt expiresAt : ℤ)
    (parties : List PartyInput) (scan : PartyScan) :
    Inspects (resolveParties env key indexKey invitedAt expiresAt parties scan) :=
  (resolveParties_issues ..).mono fun _ h => ⟨quiet_of_resolves h, by cases h <;> rfl⟩

theorem admitSubmission_inspects (draftId : Uuid) (req : SubmitDraftRequest) :
    Inspects (admitSubmission auth draftId req) :=
  (admitSubmission_issues ..).mono fun _ h => ⟨quiet_of_admits h, by cases h <;> rfl⟩

/-- A request that is submitted directly has its own values signed. -/
theorem submitDirectly_signsWith (req : CreateAgreementRequest)
    (slots : List Agreement.DraftPartyEntry) :
    SignsWith env.crates (· = ⟨req.title, "ipfs://placeholder", req.expiresInSecs,
      slots.map Agreement.DraftPartyEntry.pubkey, auth.pubkey⟩)
        (submitDirectly env auth req slots) db := by
  unfold submitDirectly
  refine signsWith_inspects_bind issues_okOr fun creator ⟨_, _, _, _, hcreator⟩ => ?_
  have hcreator := (runs_okOr_ok.mp hcreator).1
  refine signsWith_inspects_bind (issues_ask.mpr ⟨rfl, rfl⟩) fun agreementId _ => ?_
  refine signsWith_bind_free (signsWith_build rfl ?_) fun _ => trivial
  exact ⟨rfl, rfl, rfl, rfl, hcreator⟩

theorem createAgreement_signsWith (req : CreateAgreementRequest) :
    SignsWith env.crates (DirectInput env auth req db) (createAgreement env auth req) db := by
  unfold createAgreement
  refine signsWith_inspects_bind issues_ofExcept fun _ _ => ?_
  refine signsWith_inspects_bind issues_ofExcept fun key _ => ?_
  refine signsWith_inspects_bind issues_ofExcept fun indexKey ⟨_, _, _, _, hkey⟩ => ?_
  have hkey := hexToBytes32_of_decode (runs_ofExcept.mp hkey).1.symm
  refine signsWith_inspects_bind (issues_query.mpr ⟨rfl, rfl⟩) fun freeUsed _ => ?_
  refine signsWith_inspects_bind (issues_ask.mpr ⟨rfl, rfl⟩) fun invitedAt _ => ?_
  refine signsWith_inspects_bind issues_okOr fun expiry _ => ?_
  refine signsWith_inspects_bind (resolveParties_inspects ..)
    fun scan ⟨w, first, w₁, hw, hresolve⟩ => ?_
  have hstart : Scanned env w.db [] ⟨true, [], []⟩ := ⟨.nil, by simp⟩
  have hscan : Scanned env w.db req.parties scan :=
    resolveParties_texts hkey hstart first (.ok scan) w₁ hresolve
  rw [hw] at hscan
  split
  · refine (submitDirectly_signsWith req scan.partySlots).mono ?_
    rintro _ rfl
    exact ⟨_, hscan.texts, rfl⟩
  · exact signsWith_free (storeDraft_free ..)

/-- A submission has the values of the draft signed. -/
theorem submitDraft_signsWith (draftId : Uuid) (req : SubmitDraftRequest) :
    SignsWith env.crates (SubmittedInput auth draftId req db) (submitDraft env auth draftId req)
      db := by
  unfold submitDraft
  refine signsWith_inspects_bind (admitSubmission_inspects ..)
    fun ⟨storageBackend, row⟩ ⟨w, first, w₁, hw, hadmit⟩ => ?_
  obtain ⟨draft, hdraft, -, hrow⟩ := admitSubmission_ready hadmit
  rw [hw] at hdraft
  refine signsWith_free_bind (issues_query.mpr rfl) fun _ db' => ?_
  refine signsWith_inspects_bind issues_okOr fun payload ⟨_, _, _, _, hpayload⟩ => ?_
  have hpayload := (runs_okOr_ok.mp hpayload).1
  refine signsWith_inspects_bind issues_okOr fun creator ⟨_, _, _, _, hcreator⟩ => ?_
  have hcreator := (runs_okOr_ok.mp hcreator).1
  refine signsWith_inspects_bind (issues_ask.mpr ⟨rfl, rfl⟩) fun agreementId _ => ?_
  refine signsWith_inspects_bind issues_okOr fun contentHash _ => ?_
  refine signsWith_bind_free (signsWith_build
    ⟨draft, payload, hdraft, hrow ▸ hpayload, rfl⟩ ?_) fun transaction => ?_
  · exact ⟨rfl, rfl, rfl, rfl, hcreator⟩
  · refine issues_run_bind ?_ fun _ => trivial
    exact issues_run_bind (issues_query.mpr rfl) fun _ => issues_query.mpr rfl

end Requests

/-! ## The rules of the program -/

/-- What the program checks of the arguments, and that the expiry is the requested one. -/
structure WithinRules (requested : UInt64) (creator : Pubkey) (args : CreateAgreementArgs) :
    Prop where
  requested : args.expiresInSecs.toInt = requested.toNat
  expiry : 1 ≤ args.expiresInSecs.toInt ∧ args.expiresInSecs.toInt ≤ maxExpirySeconds
  distinct : args.parties.Nodup
  creator : creator ∈ args.parties
  count : args.parties.length ≤ maxParties
  title : args.title.utf8ByteSize ≤ maxTitleLen
  storageUri : args.storageUri.utf8ByteSize ≤ maxUriLen

/-- The same of the values. -/
structure SigningInput.Conforms (crates : Crates) (input : SigningInput) : Prop where
  expiry : 1 ≤ input.expiresInSecs.toNat ∧ input.expiresInSecs.toNat ≤ maxExpirySeconds
  distinct : (input.keys crates).Nodup
  creator : ∀ creator, crates.pubkeyFromStr input.creator = some creator →
    creator ∈ input.keys crates
  count : (input.keys crates).length ≤ maxParties
  title : input.title.utf8ByteSize ≤ maxTitleLen
  storageUri : input.storageUri.utf8ByteSize ≤ maxUriLen

theorem toInt_toInt64 {n : UInt64} (h : n.toNat < 2 ^ 63) : n.toInt64.toInt = n.toNat :=
  BitVec.toInt_eq_toNat_of_lt (by rw [show n.toInt64.toBitVec.toNat = n.toNat from rfl]; omega)

/-- The arguments are within the rules if the values are: nothing else is put in. -/
theorem SigningInput.Gives.withinRules_iff {crates : Crates} {input : SigningInput}
    {args : CreateAgreementArgs} {creator : Pubkey} (h : input.Gives crates args creator) :
    WithinRules input.expiresInSecs creator args ↔ input.Conforms crates := by
  constructor
  -- the expiry of the arguments is the requested one, so no conversion has cut it off
  · intro hrules
    have hrequested := hrules.requested
    have hexpiry := hrules.expiry
    rw [hrequested] at hexpiry
    refine ⟨⟨by omega, by omega⟩, ?_, fun creator' hcreator => ?_, ?_, ?_, ?_⟩
    · rw [← h.parties]
      exact hrules.distinct
    · obtain rfl : creator = creator' := Option.some.inj (h.creator.symm.trans hcreator)
      rw [← h.parties]
      exact hrules.creator
    · rw [← h.parties]
      exact hrules.count
    · rw [← h.title]
      exact hrules.title
    · rw [← h.storageUri]
      exact hrules.storageUri
  · intro hconforms
    obtain ⟨hmin, hmax⟩ := hconforms.expiry
    have hrequested : args.expiresInSecs.toInt = input.expiresInSecs.toNat := by
      rw [h.expiresInSecs]
      apply toInt_toInt64
      rw [maxExpirySeconds] at hmax
      omega
    refine ⟨hrequested, ⟨by omega, by omega⟩, ?_, ?_, ?_, ?_, ?_⟩
    · rw [h.parties]
      exact hconforms.distinct
    · rw [h.parties]
      exact hconforms.creator creator h.creator
    · rw [h.parties]
      exact hconforms.count
    · rw [h.title]
      exact hconforms.title
    · rw [h.storageUri]
      exact hconforms.storageUri

/-! ### Runs that sign -/

/-- A request that can have a transaction built. -/
inductive BuildRequest : Type
  | create (req : CreateAgreementRequest)
  | submit (draftId : Uuid) (req : SubmitDraftRequest)

/-- The request is handled in the steps, with some result. -/
def BuildRequest.Handled (env : Env) (auth : AuthUserWithWallet)
    (request : BuildRequest) (w : World)
    (steps : List BackendStep) (w' : World) : Prop :=
  match request with
  | create req => ∃ r, Runs perform (createAgreement env auth req).run w steps r w'
  | submit draftId req => ∃ r, Runs perform (submitDraft env auth draftId req).run w steps r w'

/-- The values of which the arguments are made. -/
def BuildRequest.Input (env : Env) (auth : AuthUserWithWallet) (request : BuildRequest) (db : Db)
    (input : SigningInput) : Prop :=
  match request with
  | create req => DirectInput env auth req db input
  | submit draftId req => SubmittedInput auth draftId req db input

theorem BuildRequest.signsFor {env : Env} {auth : AuthUserWithWallet} {request : BuildRequest}
    {w w' : World} {steps : List BackendStep} (h : request.Handled env auth w steps w') :
    SignsFor env.crates (request.Input env auth w.db) steps := by
  cases request with
  | create req =>
      obtain ⟨r, hrun⟩ := h
      exact createAgreement_signsWith req w steps r w' rfl hrun
  | submit draftId req =>
      obtain ⟨r, hrun⟩ := h
      exact submitDraft_signsWith draftId req w steps r w' rfl hrun

/-- What a request has signed is within the rules just if its values conform to them. -/
theorem signed_within_rules_iff {env : Env} {auth : AuthUserWithWallet} {request : BuildRequest}
    {w w' : World} {steps : List BackendStep} (h : request.Handled env auth w steps w')
    (hsigns : ∃ step ∈ steps, ∃ args creator, Signs args creator step) :
    ∃ input, request.Input env auth w.db input ∧
      ((∀ step ∈ steps, ∀ args creator, Signs args creator step →
        WithinRules input.expiresInSecs creator args) ↔ input.Conforms env.crates) := by
  obtain ⟨step, hstep, args, creator, hsigned⟩ := hsigns
  rcases BuildRequest.signsFor h with hfree | ⟨input, hinput, hgives⟩
  · exact absurd hsigned (not_signs_of_free (hfree step hstep))
  refine ⟨input, hinput, fun hrules => ?_, fun hconforms step' hstep' args' creator' hsigned' => ?_⟩
  · exact (hgives step hstep args creator hsigned).withinRules_iff.mp
      (hrules step hstep args creator hsigned)
  · exact (hgives step' hstep' args' creator' hsigned').withinRules_iff.mpr hconforms

/-! ### A request without its creator -/

/-- The step signs arguments that satisfy the test. -/
def signsSuch (test : CreateAgreementArgs → Pubkey → Bool) : BackendStep → Bool
  | ⟨_, .vaultSign args creator _, .ok _, _⟩ => test args creator
  | _ => false

theorem signs_of_signsSuch {test : CreateAgreementArgs → Pubkey → Bool} {step : BackendStep}
    (h : signsSuch test step = true) :
    ∃ args creator, Signs args creator step ∧ test args creator = true := by
  unfold signsSuch at h
  split at h
  · rename_i w args creator blockhash transaction w'
    exact ⟨args, creator, ⟨blockhash, transaction, rfl⟩, h⟩
  · cases h

/-- Bob requests an agreement of the given parties, and it is submitted directly. -/
theorem direct_run (parties : List PartyInput) (test : CreateAgreementArgs → Pubkey → Bool)
    (h : (interpret perform (cooperate 0) (createAgreement sampleEnv bob (requestFor parties)).run
      (World.ofDb accountsDb)).any (fun result => result.1.any (signsSuch test)) = true) :
    ∃ steps w', (BuildRequest.create (requestFor parties)).Handled sampleEnv bob
        (World.ofDb accountsDb) steps w' ∧
      ∃ step ∈ steps, ∃ args creator, Signs args creator step ∧ test args creator = true := by
  obtain ⟨steps, r, w', hrun, htest⟩ := runs_of_interpret (World.ofDb accountsDb) (cooperate 0)
    (fun steps _ _ => steps.any (signsSuch test)) h
  obtain ⟨step, hstep, hsigns⟩ := List.any_eq_true.mp htest
  exact ⟨steps, w', ⟨r, hrun⟩, step, hstep, signs_of_signsSuch hsigns⟩

theorem signed_within_rules_both :
    ∃ steps w', (BuildRequest.create (requestFor [.pubkey bobKey, .pubkey aliceKey])).Handled
        sampleEnv bob (World.ofDb accountsDb) steps w' ∧
      ∃ input, (BuildRequest.create (requestFor [.pubkey bobKey, .pubkey aliceKey])).Input sampleEnv
          bob accountsDb input ∧
        ((∀ step ∈ steps, ∀ args creator, Signs args creator step →
          WithinRules input.expiresInSecs creator args) ↔ input.Conforms sampleEnv.crates) := by
  obtain ⟨steps, w', hhandled, step, hstep, args, creator, hsigns, -⟩ :=
    direct_run [.pubkey bobKey, .pubkey aliceKey] (fun _ _ => true) (by decide +kernel)
  exact ⟨steps, w', hhandled,
    signed_within_rules_iff hhandled ⟨step, hstep, args, creator, hsigns⟩⟩

/-- The vault signs for an agreement in which Bob, who creates it, is no party. -/
theorem signed_without_creator :
    ¬ ∀ (env : Env) (auth : AuthUserWithWallet) (request : BuildRequest) (w w' : World)
      (steps : List BackendStep) (input : SigningInput), request.Handled env auth w steps w' →
        request.Input env auth w.db input → ∀ step ∈ steps, ∀ args creator,
          Signs args creator step → WithinRules input.expiresInSecs creator args := by
  intro hclaim
  obtain ⟨steps, w', hhandled, step, hstep, args, creator, hsigns, htest⟩ :=
    direct_run [.pubkey aliceKey] (fun args creator => creator ∉ args.parties) (by decide +kernel)
  have hinput : (BuildRequest.create (requestFor [.pubkey aliceKey])).Input sampleEnv bob
      accountsDb ⟨"Agreement", "ipfs://placeholder", 1000, [some aliceKey], bobKey⟩ :=
    ⟨[some aliceKey], .cons rfl .nil, rfl⟩
  exact of_decide_eq_true htest
    (hclaim _ _ _ _ w' steps _ hhandled hinput step hstep args creator hsigns).creator

end PactumCodex
