import PactumCodex.Drafts.SignedArguments

/-!
# The parties of a new agreement

Each party of a request stands for a text, the given key or the wallet found for the
email, and the texts are decoded only when the transaction is built.  A text that
does not decode is dropped: the agreement is signed without the party, or the
draft is stored, and the request succeeds.
-/

namespace PactumCodex

open Interaction Relational Handlers

/-- A request is answered as its parties demand: a submitted agreement has one key for each party,
in their order, and no text that cannot be decoded is accepted. -/
structure AnswersParties (crates : Crates) (texts : List (Option String))
    (response : CreateAgreementResponse) (steps : List BackendStep) : Prop where
  signed : ∀ transaction agreementPda, response = .submitted transaction agreementPda →
    (∃ step ∈ steps, ∃ args creator, Signs args creator step) ∧
      ∀ step ∈ steps, ∀ args creator, Signs args creator step →
        args.parties.map some = texts.map (·.bind crates.pubkeyFromStr)
  rejected : ∀ text, some text ∈ texts → (crates.pubkeyFromStr text).isSome

/-- Texts that all decode lose nothing. -/
theorem map_some_keys {crates : Crates} {texts : List (Option String)}
    (hresolved : ∀ text ∈ texts, text.isSome)
    (hdecodes : ∀ text, some text ∈ texts → (crates.pubkeyFromStr text).isSome) :
    ((texts.filterMap id).filterMap crates.pubkeyFromStr).map some =
      texts.map (·.bind crates.pubkeyFromStr) := by
  induction texts with
  | nil => rfl
  | cons text texts ih =>
      rw [List.forall_mem_cons] at hresolved
      obtain ⟨pubkey, rfl⟩ := Option.isSome_iff_exists.mp hresolved.1
      obtain ⟨key, hkey⟩ := Option.isSome_iff_exists.mp (hdecodes pubkey List.mem_cons_self)
      have htail := ih hresolved.2 fun text htext => hdecodes text (List.mem_cons_of_mem _ htext)
      show ((pubkey :: texts.filterMap id).filterMap crates.pubkeyFromStr).map some = _
      rw [List.filterMap_cons_some hkey, List.map_cons, List.map_cons, htail, Option.bind_some,
        hkey]

/-! ## Requests that succeed -/

section Success

variable {env : Env} {auth : AuthUserWithWallet} {req : CreateAgreementRequest}
variable {w w' : World} {steps : List BackendStep} {response : CreateAgreementResponse}

/-- A part that reads can be taken off a run that succeeds. -/
theorem inspects_bind_ok {α β : Type} {x : Handler α} {f : α → Handler β} {b : β} {db : Db}
    (hx : Inspects x) (hw : w.db = db) (h : Runs perform (x >>= f).run w steps (.ok b) w') :
    ∃ a w₁ first second, steps = first ++ second ∧ w₁.db = db ∧
      (∀ step ∈ first, step.op.signs = false) ∧ Runs perform x.run w first (.ok a) w₁ ∧
        Runs perform (f a).run w₁ second (.ok b) w' := by
  obtain ⟨a, w₁, first, second, rfl, hfirst, hsecond⟩ := runs_bind_ok.mp h
  exact ⟨a, w₁, first, second, rfl, (hx.readsOnly.runs hfirst).2.trans hw,
    hfirst.stops.issued hx.free, hfirst, hsecond⟩

/-- A built transaction is signed. -/
theorem buildCreateAgreementTx_signed {args : CreateAgreementArgs} {creator : Pubkey}
    {transaction : String}
    (h : Runs perform (buildCreateAgreementTx args creator).run w steps (.ok transaction) w') :
    ∃ step ∈ steps, Signs args creator step := by
  obtain ⟨pre, blockhash, hstep⟩ := buildCreateAgreementTx_ok h
  exact ⟨_, hstep, blockhash, transaction, rfl⟩

/-- A request that is submitted directly has a transaction signed. -/
theorem submitDirectly_signed {slots : List Agreement.DraftPartyEntry}
    (h : Runs perform (submitDirectly env auth req slots).run w steps (.ok response) w') :
    ∃ step ∈ steps, ∃ args creator, Signs args creator step := by
  unfold submitDirectly at h
  obtain ⟨creator, w₁, first, rest, rfl, -, h⟩ := runs_bind_ok.mp h
  obtain ⟨agreementId, w₂, second, rest, rfl, -, h⟩ := runs_bind_ok.mp h
  obtain ⟨transaction, w₃, third, fourth, rfl, hbuild, -⟩ := runs_bind_ok.mp h
  obtain ⟨step, hstep, hsigns⟩ := buildCreateAgreementTx_signed hbuild
  refine ⟨step, ?_, _, _, hsigns⟩
  exact List.mem_append_right _ (List.mem_append_right _ (List.mem_append_left _ hstep))

theorem storeDraft_response {slots : List Agreement.DraftPartyEntry}
    {rows : List InvitationInsertRow}
    (h : Runs perform (storeDraft auth req slots rows).run w steps (.ok response) w') :
    ∃ draftId pendingInvitations, response = .awaitingPartyWallets draftId pendingInvitations := by
  unfold storeDraft at h
  obtain ⟨draftId, w₁, first, rest, rfl, -, h⟩ := runs_bind_ok.mp h
  obtain ⟨-, w₂, second, rest, rfl, -, h⟩ := runs_bind_ok.mp h
  exact ⟨draftId, _, Except.ok.inj h.2.1⟩

/-- A request that succeeds has resolved its parties, and then submitted the agreement, if all of
them have a wallet, or stored a draft. -/
theorem createAgreement_ok
    (h : Runs perform (createAgreement env auth req).run w steps (.ok response) w') :
    ∃ scan w₁ first second, steps = first ++ second ∧ (∀ step ∈ first, step.op.signs = false) ∧
      Scanned env w.db req.parties scan ∧
      (scan.allPartiesResolved = true ∧ Runs perform
          (submitDirectly env auth req scan.partySlots).run w₁ second (.ok response) w' ∨
        Runs perform (storeDraft auth req scan.partySlots scan.invitationRows).run w₁ second
          (.ok response) w') := by
  unfold createAgreement at h
  obtain ⟨_, w₁, s₁, rest, rfl, h₁, hfree₁, -, h⟩ := inspects_bind_ok issues_ofExcept rfl h
  obtain ⟨key, w₂, s₂, rest, rfl, h₂, hfree₂, -, h⟩ := inspects_bind_ok issues_ofExcept h₁ h
  obtain ⟨indexKey, w₃, s₃, rest, rfl, h₃, hfree₃, hkey, h⟩ :=
    inspects_bind_ok issues_ofExcept h₂ h
  have hkey := hexToBytes32_of_decode (runs_ofExcept.mp hkey).1.symm
  obtain ⟨freeUsed, w₄, s₄, rest, rfl, h₄, hfree₄, -, h⟩ :=
    inspects_bind_ok (issues_query.mpr ⟨rfl, rfl⟩) h₃ h
  obtain ⟨invitedAt, w₅, s₅, rest, rfl, h₅, hfree₅, -, h⟩ :=
    inspects_bind_ok (issues_ask.mpr ⟨rfl, rfl⟩) h₄ h
  obtain ⟨expiry, w₆, s₆, rest, rfl, h₆, hfree₆, -, h⟩ := inspects_bind_ok issues_okOr h₅ h
  obtain ⟨scan, w₇, s₇, rest, rfl, h₇, hfree₇, hresolve, h⟩ :=
    inspects_bind_ok (resolveParties_inspects ..) h₆ h
  have hstart : Scanned env w₆.db [] ⟨true, [], []⟩ := ⟨.nil, by simp⟩
  have hscan : Scanned env w₆.db req.parties scan :=
    resolveParties_texts hkey hstart s₇ (.ok scan) w₇ hresolve
  rw [h₆] at hscan
  -- up to the scan the request only reads, so the accounts are those of the start
  refine ⟨scan, w₇, s₁ ++ (s₂ ++ (s₃ ++ (s₄ ++ (s₅ ++ (s₆ ++ s₇))))), rest, by simp, ?_, hscan, ?_⟩
  · simp only [List.forall_mem_append]
    exact ⟨hfree₁, hfree₂, hfree₃, hfree₄, hfree₅, hfree₆, hfree₇⟩
  · split at h
    · rename_i hdirect
      exact Or.inl ⟨hdirect.1, h⟩
    · exact Or.inr h

/-- A request that succeeds is answered as its parties demand just if all their texts decode. -/
theorem parties_answered_iff
    (h : Runs perform (createAgreement env auth req).run w steps (.ok response) w') :
    ∃ texts, List.Forall₂ (Resolves env w.db) req.parties texts ∧
      (AnswersParties env.crates texts response steps ↔
        ∀ text, some text ∈ texts → (env.crates.pubkeyFromStr text).isSome) := by
  obtain ⟨scan, w₁, first, second, rfl, hfirst, hscan, hrest⟩ := createAgreement_ok h
  refine ⟨_, hscan.texts, fun hanswers => hanswers.rejected, fun hdecodes => ⟨?_, hdecodes⟩⟩
  rintro transaction agreementPda rfl
  rcases hrest with ⟨hall, hsubmit⟩ | hstore
  · obtain ⟨step, hstep, args, creator, hsigns⟩ := submitDirectly_signed hsubmit
    refine ⟨⟨step, List.mem_append_right _ hstep, args, creator, hsigns⟩, ?_⟩
    have hfor := submitDirectly_signsWith req scan.partySlots w₁ second _ w' rfl hsubmit
    rcases hfor.append hfirst with hfree | ⟨input, rfl, hgives⟩
    · exact absurd hsigns (not_signs_of_free (hfree step (List.mem_append_right _ hstep)))
    · intro step' hstep' args' creator' hsigns'
      have hresolved : ∀ text ∈ scan.partySlots.map Agreement.DraftPartyEntry.pubkey, text.isSome :=
        List.forall_mem_map.mpr (hscan.resolved hall)
      rw [(hgives step' hstep' args' creator' hsigns').parties]
      exact map_some_keys hresolved hdecodes
  · obtain ⟨draftId, pendingInvitations, hresponse⟩ := storeDraft_response hstore
    cases hresponse

end Success

/-! ## A key that does not decode -/

theorem parties_answered_both :
    ∃ steps response w' texts, Runs perform
        (createAgreement sampleEnv bob (requestFor [.pubkey bobKey, .pubkey aliceKey])).run
        (World.ofDb accountsDb) steps (.ok response) w' ∧
      List.Forall₂ (Resolves sampleEnv accountsDb) [.pubkey bobKey, .pubkey aliceKey] texts ∧
      (AnswersParties sampleEnv.crates texts response steps ↔
        ∀ text, some text ∈ texts → (sampleEnv.crates.pubkeyFromStr text).isSome) := by
  obtain ⟨steps, response, w', hrun⟩ := @ok_of_interpret _
    (createAgreement sampleEnv bob (requestFor [.pubkey bobKey, .pubkey aliceKey]))
    (World.ofDb accountsDb) (cooperate 0) (by decide +kernel)
  obtain ⟨texts, htexts, hanswers⟩ := parties_answered_iff hrun
  exact ⟨steps, response, w', texts, hrun, htexts, hanswers⟩

/-- The request is answered although one of its keys is no key. -/
theorem undecodable_party_accepted :
    ¬ ∀ (env : Env) (auth : AuthUserWithWallet) (req : CreateAgreementRequest) (w w' : World)
      (steps : List BackendStep) (response : CreateAgreementResponse)
      (texts : List (Option String)),
      Runs perform (createAgreement env auth req).run w steps (.ok response) w' →
        List.Forall₂ (Resolves env w.db) req.parties texts →
        AnswersParties env.crates texts response steps := by
  intro hclaim
  obtain ⟨steps, response, w', hrun⟩ := @ok_of_interpret _
    (createAgreement sampleEnv bob (requestFor [.pubkey bobKey, .pubkey "not-a-key"]))
    (World.ofDb accountsDb) (cooperate 0) (by decide +kernel)
  have hanswers := hclaim _ _ _ _ w' steps response [some bobKey, some "not-a-key"] hrun
    (.cons rfl (.cons rfl .nil))
  exact absurd (hanswers.rejected "not-a-key" (by simp)) (by decide +kernel)

end PactumCodex
