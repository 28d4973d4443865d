import PactumCodex.Agreements.Reports
import PactumCodex.Drafts.ReadyNotices

/-!
# Notices about agreements

The listener tells the parties of an agreement what an event has reported, by
notifications in the queue and by WebSocket events.  It takes the parties from the
event, or reads them from their rows while other programs run; rows stay, and so
do wallets (`PartiesKept`).  `agreement_notices_reach_parties`: whoever is told of
an agreement is told what an event has reported, and is a party by then.

## What is told

`InstructionType.eventTypes` and `InstructionType.wsEvents` list what each
instruction is told as.  `Tells event step` is the contract of a step: a WebSocket
event goes to the holder of the wallet of a party and is one of the event's; a
notification names a party as its recipient, except that the notification of a
vote names the signer whether or not it has a row.

## Strategy

* Handlers are verified while others keep the parties (`Informs`).  Whoever is told
  was found in the event or in a row before, and has a row: a signer because the
  signature was stored, the parties of a new agreement because their rows have
  just been inserted.
* All other programs tell nobody of an agreement; an acceptance tells the creator
  that a draft is ready, which is the one exception (`Actor.tells`).
* A party row at the time of the step goes back to the start of the run or to an
  event detected since (`KnownParty`).
-/

namespace PactumCodex

open Interaction Relational

/-! ## What is told, and to whom -/

/-- The notifications of an instruction, by their `event_type`. -/
def InstructionType.eventTypes : InstructionType → List String
  | .createAgreement => ["AgreementCreated"]
  | .signAgreement => ["Signed", "Completed"]
  | .cancelAgreement => ["Cancelled"]
  | .expireAgreement => ["Expired"]
  | .voteRevoke => ["RevokeVote"]

/-- The WebSocket events of an instruction. -/
def InstructionType.wsEvents (agreementPda : String) : InstructionType → List WsEvent
  | .createAgreement => [.agreementCreated agreementPda]
  | .signAgreement => [.agreementSigned agreementPda, .agreementCompleted agreementPda]
  | .cancelAgreement => [.agreementCancelled agreementPda]
  | .expireAgreement => [.agreementExpired agreementPda]
  | .voteRevoke => [.agreementRevokeVote agreementPda]

/-- The agreement has a row for the party. -/
def World.HasParty (w : World) (agreementPda partyPubkey : String) : Prop :=
  ∃ creatorPubkey, w.Says (.created agreementPda creatorPubkey partyPubkey)

/-- The step tells parties of the agreement what the event reports. -/
structure Tells (event : ParsedEvent) (step : BackendStep) : Prop where
  valid : step.Valid perform
  pushed : ∀ userId wsEvent, step.op = .sendToUser userId wsEvent →
    wsEvent ∈ event.instruction.wsEvents event.agreementPda ∧
      ∃ party, step.pre.HasParty event.agreementPda party ∧ step.pre.Holder party userId
  queued : ∀ s : NotificationStmt, step.op = .sql (.notification s) →
    s.eventType ∈ event.instruction.eventTypes ∧ s.agreementPda = some event.agreementPda ∧
      (step.pre.HasParty event.agreementPda s.recipientPubkey ∨
        event.instruction = .voteRevoke ∧ s.recipientPubkey = event.signer.getD "unknown")

theorem tells_of_silent {event : ParsedEvent} {step : BackendStep} (hvalid : step.Valid perform)
    (h : step.op.tells = false) : Tells event step := by
  refine ⟨hvalid, fun userId wsEvent hop => ?_, fun s hop => ?_⟩ <;>
  · rw [hop] at h
    cases h

/-- Agreements keep their parties, and wallets their users. -/
structure PartiesKept (w w' : World) : Prop where
  parties : ∀ agreementPda party, w.HasParty agreementPda party → w'.HasParty agreementPda party
  holders : ∀ pubkey userId, w.Holder pubkey userId → w'.Holder pubkey userId

theorem PartiesKept.refl (w : World) : PartiesKept w w := ⟨fun _ _ h => h, fun _ _ h => h⟩

theorem PartiesKept.trans (w₁ w₂ w₃ : World) (h : PartiesKept w₁ w₂) (h' : PartiesKept w₂ w₃) :
    PartiesKept w₁ w₃ :=
  ⟨fun pda party hparty => h'.parties pda party (h.parties pda party hparty),
    fun pubkey userId hholder => h'.holders pubkey userId (h.holders pubkey userId hholder)⟩

theorem partiesKept_step {step : BackendStep} (h : step.Valid perform) :
    PartiesKept step.pre step.post :=
  ⟨fun _ _ ⟨creator, hsaid⟩ => ⟨creator, says_kept h rfl hsaid⟩,
    fun _ _ hholder => hholder.of_wallets (accounts_step h).2⟩

theorem Tells.kept {event : ParsedEvent} {step : BackendStep} (h : Tells event step) :
    PartiesKept step.pre step.post :=
  partiesKept_step h.valid

/-! ## The listener -/

section Listener

variable {event : ParsedEvent} {w : World}

/-- The program tells parties what the event reports, while the others keep the parties. -/
abbrev Informs {α : Type} (event : ParsedEvent) (p : Backend α) (w : World)
    (Φ : α → World → Prop) : Prop :=
  Assures perform PartiesKept (fun _ => True) (Tells event) p w Φ

/-- A program keeps the parties that it started with. -/
theorem Informs.keeps {α : Type} {p : Backend α} {Φ : α → World → Prop}
    (h : Informs event p w Φ) : Informs event p w fun _ w' => PartiesKept w w' :=
  (h.related .refl .trans fun _ h => h.kept).mono fun _ _ h => h.2

theorem informs_of_silent {α : Type} {p : Backend α}
    (hp : p.Issues fun op => op.tells = false) : Informs event p w fun _ w' => PartiesKept w w' :=
  Informs.keeps (assures_of_issues hp fun _ hop hvalid _ => tells_of_silent hvalid hop)

/-- A statement that tells nobody anything. -/
theorem informs_query {s : Stmt} {w : World} (hs : (Op.sql s).tells = false) :
    Informs event (Handler.query s).run w fun _ w' => PartiesKept w w' :=
  informs_of_silent (issues_query.mpr hs)

theorem tells_queued {eventType recipient : String} {now : ℤ} {w' : World}
    {answer : Except Failure Uuid}
    (hvalid : perform (.sql (.notification ⟨eventType, some event.agreementPda, recipient, now⟩))
      answer w = some w')
    (heventType : eventType ∈ event.instruction.eventTypes)
    (hrecipient : w.HasParty event.agreementPda recipient ∨
      event.instruction = .voteRevoke ∧ recipient = event.signer.getD "unknown") :
    Tells event ⟨w, .sql (.notification ⟨eventType, some event.agreementPda, recipient, now⟩),
      answer, w'⟩ := by
  refine ⟨hvalid, nofun, fun s hop => ?_⟩
  simp only [Op.sql.injEq, Stmt.notification.injEq] at hop
  subst hop
  exact ⟨heventType, rfl, hrecipient⟩

theorem enqueueNotification_informs {eventType recipient : String}
    (heventType : eventType ∈ event.instruction.eventTypes)
    (hrecipient : w.HasParty event.agreementPda recipient ∨
      event.instruction = .voteRevoke ∧ recipient = event.signer.getD "unknown") :
    Informs event (Handler.logged
      (enqueueNotification eventType (some event.agreementPda) recipient)) w
      fun _ w' => PartiesKept w w' := by
  refine Informs.keeps (Φ := fun _ _ => True) (assures_bind.mpr ?_)
  refine assures_run_bind.mpr ((informs_of_silent (issues_ask.mpr rfl)).mono fun r w₁ hw₁ => ?_)
  cases r with
  | error e => trivial
  | ok now =>
      refine assures_run_bind.mpr (assures_bind.mpr ?_)
      intro w₂ hw₂ answer w₃ hperform _
      have hrecipient₂ := hrecipient.imp_left fun h => hw₂.parties _ _ (hw₁.parties _ _ h)
      refine ⟨tells_queued hperform heventType hrecipient₂, ?_⟩
      cases answer <;> trivial

theorem enqueueAll_informs {eventType : String} {parties : List String}
    (heventType : eventType ∈ event.instruction.eventTypes)
    (hparties : ∀ party ∈ parties, w.HasParty event.agreementPda party) :
    Informs event (enqueueAll eventType event.agreementPda parties) w
      fun _ w' => PartiesKept w w' := by
  induction parties generalizing w with
  | nil => exact .refl w
  | cons party rest ih =>
      rw [List.forall_mem_cons] at hparties
      refine assures_bind.mpr ((enqueueNotification_informs heventType
        (Or.inl hparties.1)).mono fun _ w₁ hw₁ => ?_)
      refine (ih fun party hmem => hw₁.parties _ _ (hparties.2 party hmem)).mono fun _ w₂ hw₂ => ?_
      exact hw₁.trans _ _ _ hw₂

/-- The owner of a wallet, if it was found. -/
theorem lookupUserId_informs {pubkey : String} :
    Informs event (lookupUserId pubkey) w fun userId w' => PartiesKept w w' ∧
      ∀ user, userId = some user → w'.Holder pubkey user := by
  refine assures_bind.mpr ?_
  intro w₁ hw₁ answer w₂ hperform _
  have hvalid : Step.Valid perform
    (⟨w₁, .sql (.account (.userOf pubkey)), answer, w₂⟩ : BackendStep) := hperform
  have hkept : PartiesKept w w₂ := hw₁.trans _ _ _ (partiesKept_step hvalid)
  refine ⟨tells_of_silent hvalid rfl, ?_⟩
  cases answer with
  | error f => exact ⟨hkept, nofun⟩
  | ok userId =>
      refine ⟨hkept, fun user huser => ?_⟩
      obtain rfl := world_of_select rfl hperform
      obtain ⟨-, -, _, hexec, -⟩ := performSql_eq_some.mp hperform
      exact (provided_eq_some.mp hexec).1.symm.trans huser

theorem broadcast_informs {wsEvent : WsEvent} {parties : List String}
    (hevent : wsEvent ∈ event.instruction.wsEvents event.agreementPda)
    (hparties : ∀ party ∈ parties, w.HasParty event.agreementPda party) :
    Informs event (broadcast wsEvent parties) w fun _ w' => PartiesKept w w' := by
  refine Informs.keeps (Φ := fun _ _ => True) ?_
  induction parties generalizing w with
  | nil => trivial
  | cons party rest ih =>
      rw [List.forall_mem_cons] at hparties
      refine assures_bind.mpr (lookupUserId_informs.mono ?_)
      rintro userId w₁ ⟨hw₁, hholder⟩
      have hrest : ∀ w₂, PartiesKept w₁ w₂ → ∀ party ∈ rest,
          w₂.HasParty event.agreementPda party := fun w₂ hw₂ party hmem =>
        hw₂.parties _ _ (hw₁.parties _ _ (hparties.2 party hmem))
      cases userId with
      | none => exact ih (hrest w₁ (.refl w₁))
      | some user =>
          refine assures_bind.mpr ?_
          intro w₂ hw₂ delivered w₃ hperform _
          obtain rfl : w₂ = w₃ := Option.some.inj hperform
          refine ⟨⟨hperform, fun userId wsEvent' hop => ?_, nofun⟩, ih (hrest w₂ hw₂)⟩
          simp only [Op.sendToUser.injEq] at hop
          obtain ⟨rfl, rfl⟩ := hop
          refine ⟨hevent, party, ?_, hw₂.holders _ _ (hholder user rfl)⟩
          exact hw₂.parties _ _ (hw₁.parties _ _ hparties.1)

/-- The parties that the rows of an agreement name. -/
theorem partiesOf_informs {agreementPda : String} :
    Informs event (Handler.query (.party (.partiesOf agreementPda))).run w
      (OnOk fun parties w' => PartiesKept w w' ∧
        ∀ party ∈ parties, w'.HasParty agreementPda party) := by
  refine assures_query.mpr fun w₁ hw₁ => ⟨fun parties w₂ hperform _ => ?_, fun _ => ?_⟩
  · obtain rfl := world_of_select rfl hperform
    have hvalid : Step.Valid perform (⟨w₂, .sql (.party (.partiesOf agreementPda)), .ok parties,
      w₂⟩ : BackendStep) := hperform
    refine ⟨tells_of_silent hvalid rfl, hw₁, fun party hmem => ?_⟩
    obtain ⟨-, -, _, hexec, -⟩ := performSql_eq_some.mp hperform
    obtain ⟨table, hexec, -⟩ := Option.map_eq_some_iff.mp hexec
    obtain ⟨row, hrow, rfl⟩ := List.mem_map.mp ((provided_eq_some.mp hexec).1.mem_iff.mp hmem)
    obtain ⟨hrow, hpda⟩ := List.mem_filter.mp hrow
    exact ⟨row.creatorPubkey, row, hrow, of_decide_eq_true hpda, rfl, rfl⟩
  · exact ⟨tells_of_silent (show Step.Valid perform _ from rfl) rfl, trivial⟩

/-- A signature that has an effect is the one of a party. -/
theorem sign_informs {now : ℤ} {agreementPda signer : String} :
    Informs event (Handler.query (.party (.sign now agreementPda signer))).run w
      (OnOk fun result w' => result ≠ none → w'.HasParty agreementPda signer) := by
  refine assures_query.mpr fun w₁ _ => ⟨fun result w₂ hperform _ => ?_, fun _ => ?_⟩
  · have hvalid : Step.Valid perform (⟨w₁, .sql (.party (.sign now agreementPda signer)),
      .ok result, w₂⟩ : BackendStep) := hperform
    refine ⟨tells_of_silent hvalid rfl, fun hresult => ?_⟩
    obtain ⟨-, -, _, hexec, -⟩ := performSql_eq_some.mp hperform
    obtain ⟨table, hexec, -⟩ := Option.map_eq_some_iff.mp hexec
    obtain ⟨hfound, -⟩ := (Option.ite_none_right_eq_some ..).mp hexec
    cases hrow : w₁.db.parties.rows.find? fun party =>
        party.agreementPda = agreementPda ∧ party.partyPubkey = signer with
    | none => exact absurd (hfound.trans (by rw [hrow]; rfl)) hresult
    | some row =>
        obtain ⟨hpda, hsigner⟩ : row.agreementPda = agreementPda ∧ row.partyPubkey = signer := by
          simpa using List.find?_some hrow
        exact (partiesKept_step hvalid).parties agreementPda signer
          ⟨row.creatorPubkey, row, List.mem_of_find?_eq_some hrow, hpda, rfl, hsigner⟩
  · exact ⟨tells_of_silent (show Step.Valid perform _ from rfl) rfl, trivial⟩

/-- After an insertion the party has a row, a new one or one that was there. -/
theorem hasParty_of_insert {step : BackendStep} {party agreementPda creator : String} {now : ℤ}
    (hvalid : step.Valid perform)
    (hexecutes : Executes step (.party (.insert party agreementPda creator now)) ()) :
    step.post.HasParty agreementPda party := by
  have hrows := partyRows_of_executes agreementPda hvalid hexecutes
  have hparty : ∃ row ∈ step.post.partyRows agreementPda, row.partyPubkey = party := by
    rw [hrows]
    by_cases hfresh : ∀ row ∈ step.pre.partyRows agreementPda, row.partyPubkey ≠ party
    · rw [PartyStmt.onRows, if_pos ⟨rfl, hfresh⟩]
      exact ⟨_, List.mem_append_right _ (List.mem_singleton_self _), rfl⟩
    · rw [PartyStmt.onRows, if_neg fun h => hfresh h.2]
      simpa using hfresh
  obtain ⟨row, hrow, hparty⟩ := hparty
  obtain ⟨hmem, hpda⟩ := mem_partyRows.mp hrow
  exact ⟨row.creatorPubkey, row, hmem, hpda, rfl, hparty⟩

/-- Once the parties are inserted, each of them has a row. -/
theorem insertParties_informs {agreementPda creator : String} {parties : List String} :
    Informs event (insertParties agreementPda creator parties).run w
      (OnOk fun _ w' => ∀ party ∈ parties, w'.HasParty agreementPda party) := by
  induction parties generalizing w with
  | nil => exact nofun
  | cons party rest ih =>
      refine assures_run_bind.mpr ((informs_of_silent (issues_ask.mpr rfl)).mono fun r w₁ _ => ?_)
      cases r with
      | error e => trivial
      | ok now =>
          refine assures_query_bind fun w₂ hw₂ => ⟨fun out w₃ hperform _ => ?_, fun _ => ?_⟩
          · have hvalid : Step.Valid perform (⟨w₂, .sql (.party (.insert party agreementPda creator
              now)), .ok out, w₃⟩ : BackendStep) := hperform
            have hinserted : w₃.HasParty agreementPda party := hasParty_of_insert hvalid rfl
            refine ⟨tells_of_silent hvalid rfl, ?_⟩
            have hrest := (ih (w := w₃)).related .refl .trans fun _ h => h.kept
            refine hrest.mono fun r w₄ => ?_
            rintro ⟨hr, hw₄⟩
            cases r with
            | error e => trivial
            | ok _ => exact List.forall_mem_cons.mpr ⟨hw₄.parties _ _ hinserted, hr⟩
          · exact ⟨tells_of_silent (show Step.Valid perform _ from rfl) rfl, trivial⟩

/-! ### Events -/

theorem announceTo_informs {eventType : String} {wsEvent : WsEvent} {parties : List String}
    (heventType : eventType ∈ event.instruction.eventTypes)
    (hevent : wsEvent ∈ event.instruction.wsEvents event.agreementPda)
    (hparties : ∀ party ∈ parties, w.HasParty event.agreementPda party) :
    Informs event (do
      (ExceptT.lift (enqueueAll eventType event.agreementPda parties) : Handler Unit)
      ExceptT.lift (broadcast wsEvent parties) : Handler Unit).run w (OnOk fun _ _ => True) := by
  refine assures_ok_bind (assures_run_lift (enqueueAll_informs heventType hparties))
    fun _ w₁ hw₁ => assures_run_lift ((broadcast_informs hevent fun party hmem => ?_).mono
      fun _ _ _ => trivial)
  exact hw₁.parties _ _ (hparties party hmem)

theorem handleCreateAgreement_informs (hcreate : event.instruction = .createAgreement) :
    Informs event (handleCreateAgreement event).run w (OnOk fun _ _ => True) := by
  rw [handleCreateAgreement_eq]
  refine assures_ok_bind insertParties_informs fun _ w₁ hparties => ?_
  refine announceTo_informs ?_ ?_ hparties <;> rw [hcreate] <;> exact List.mem_singleton_self _

theorem handleSignAgreement_informs (hsign : event.instruction = .signAgreement) :
    Informs event (handleSignAgreement event).run w (OnOk fun _ _ => True) := by
  rw [handleSignAgreement_eq]
  refine assures_run_bind.mpr ((informs_of_silent (issues_ask.mpr rfl)).mono fun r w₁ _ => ?_)
  cases r with
  | error e => trivial
  | ok now =>
      refine assures_ok_bind sign_informs fun result w₂ hresult => ?_
      cases result with
      | none => trivial
      | some party =>
          -- the signature was stored, so the signer is a party, and stays one
          have hsigner := hresult nofun
          refine assures_run_bind.mpr ((informs_query rfl).mono fun r w₃ hw₃ => ?_)
          cases r with
          | error e => trivial
          | ok unsignedCount =>
              have hsigner₃ := hw₃.parties _ _ hsigner
              refine assures_ok_bind (assures_run_lift (enqueueNotification_informs ?_
                (Or.inl hsigner₃))) fun _ w₄ _ => ?_
              · rw [hsign]
                split <;> decide
              refine assures_ok_bind partiesOf_informs fun parties w₅ hparties => ?_
              refine assures_run_lift ((broadcast_informs ?_ hparties.2).mono fun _ _ _ => trivial)
              rw [hsign]
              split
              · exact List.mem_cons_of_mem _ (List.mem_singleton_self _)
              · exact List.mem_cons_self

theorem handleCancellation_informs {status : PartyStatus}
    (heventType : cancellationEventType status ∈ event.instruction.eventTypes)
    (hevent : cancellationEvent status event.agreementPda ∈
      event.instruction.wsEvents event.agreementPda) :
    Informs event (handleCancellation event status).run w (OnOk fun _ _ => True) := by
  rw [handleCancellation_eq]
  refine assures_run_bind.mpr ((informs_query rfl).mono fun r w₁ _ => ?_)
  cases r with
  | error e => trivial
  | ok _ =>
      refine assures_ok_bind partiesOf_informs fun parties w₂ hparties => ?_
      refine assures_ok_bind (assures_run_lift (enqueueAll_informs heventType hparties.2))
        fun _ w₃ hw₃ => ?_
      refine assures_ok_bind (assures_run_lift (broadcast_informs hevent fun party hmem => ?_))
        fun _ w₄ _ => ?_
      · exact hw₃.parties _ _ (hparties.2 party hmem)
      -- the refund is not announced
      refine assures_run_lift ((informs_of_silent (issues_logged ?_)).mono fun _ _ _ => trivial)
      refine issues_run_bind (issues_query.mpr rfl) fun paymentId => ?_
      cases paymentId with
      | none => trivial
      | some id =>
          exact issues_run_bind (issues_ask.mpr rfl) fun now => issues_query.mpr rfl

theorem handleVoteRevoke_informs (hvote : event.instruction = .voteRevoke) :
    Informs event (handleVoteRevoke event).run w (OnOk fun _ _ => True) := by
  refine assures_ok_bind (assures_run_lift (enqueueNotification_informs ?_ (Or.inr ⟨hvote, rfl⟩)))
    fun _ w₁ _ => ?_
  · rw [hvote]
    exact List.mem_singleton_self _
  refine assures_ok_bind partiesOf_informs fun parties w₂ hparties => ?_
  refine assures_run_lift ((broadcast_informs ?_ hparties.2).mono fun _ _ _ => trivial)
  rw [hvote]
  exact List.mem_singleton_self _

theorem handleEvent_informs (event : ParsedEvent) (w : World) :
    Informs event (handleEvent event).run w (OnOk fun _ _ => True) := by
  unfold handleEvent
  split
  · exact handleCreateAgreement_informs ‹_›
  · exact handleSignAgreement_informs ‹_›
  · rename_i hcancel
    refine handleCancellation_informs ?_ ?_ <;> rw [hcancel] <;> exact List.mem_singleton_self _
  · rename_i hexpire
    refine handleCancellation_informs ?_ ?_ <;> rw [hexpire] <;> exact List.mem_singleton_self _
  · exact handleVoteRevoke_informs ‹_›

end Listener

/-! ## All programs -/

/-- Of agreements the step tells parties what has been reported, if anything; that a draft is ready
is told by acceptances only. -/
structure Actor.Tells (env : Env) (actor : Actor) (step : BackendStep) : Prop where
  valid : step.Valid perform
  tells : step.op.tells = true →
    (∃ response event, actor = .invocation (.processNotification response) ∧
      detectedEvent env response = some event ∧ PactumCodex.Tells event step) ∨
    (∃ auth token, actor = .invocation (.acceptInvite auth token) ∧ step.op.announcesReady = true)

theorem acceptInvite_tells (auth : AuthUserWithWallet) (token : String) :
    (acceptInvite auth token).run.Issues fun op => op.tells = true → op.announcesReady = true := by
  unfold acceptInvite
  refine issues_run_bind (issues_ask.mpr nofun) fun now => ?_
  refine issues_run_bind (issues_orFail (issues_issue.mpr nofun)) fun tx => ?_
  refine issues_run_bind (issues_rollbackOnError ((acceptInTx_issues ..).mono fun _ h => ?_)
    nofun) fun acceptance => ?_
  · obtain ⟨s, rfl⟩ := h
    exact nofun
  refine issues_run_bind (issues_orFail (issues_issue.mpr nofun)) fun _ => ?_
  split
  · unfold notifyReady
    refine issues_run_bind (issues_query.mpr nofun) fun userId => ?_
    cases userId with
    | none => trivial
    | some userId =>
        refine issues_run_bind (issues_ask.mpr fun _ => rfl) fun delivered => ?_
        cases delivered with
        | true => trivial
        | false =>
            refine issues_run_bind (issues_ask.mpr nofun) fun now => ?_
            exact issues_run_bind (issues_query.mpr fun _ => rfl) fun _ => trivial
  · trivial

theorem Invocation.tells_cases (call : Invocation) :
    (∃ response, call = .processNotification response) ∨
      (∃ auth token, call = .acceptInvite auth token) ∨
      (.pushes ∉ call.privileges ∧ .notifies ∉ call.privileges) := by
  cases call <;> simp [Invocation.privileges, listenerPrivileges]

theorem Actor.tells (env : Env) (actor : Actor) (w : World) :
    Assures perform PartiesKept (fun _ => True) (actor.Tells env) (actor.program env) w
      fun _ _ => True := by
  have hsilent : ∀ {actor : Actor}, (actor.program env).Issues (fun op => op.tells = false) →
      Assures perform PartiesKept (fun _ => True) (actor.Tells env) (actor.program env) w
        fun _ _ => True := fun hp => assures_of_issues hp fun step hop hvalid _ =>
    ⟨hvalid, fun htells => absurd (hop.symm.trans htells) nofun⟩
  cases actor with
  | expireDueAgreements vaultKey =>
      have hmute := (expireDueAgreements_mute env vaultKey).mono fun _ h => h.tells
      exact hsilent (Program.issues_bind hmute fun _ => trivial)
  | invocation call =>
      rcases call.tells_cases with ⟨response, rfl⟩ | ⟨auth, token, rfl⟩ | ⟨hpushes, hnotifies⟩
      · show Assures _ _ _ _ (PactumCodex.processNotification env response) w _
        unfold PactumCodex.processNotification
        split
        · rename_i event hdetected
          refine assures_bind.mpr (((handleEvent_informs event w).weaken ?_).mono
            fun _ _ _ => trivial)
          exact fun step hstep =>
            ⟨hstep.valid, fun _ => Or.inl ⟨response, event, rfl, hdetected, hstep⟩⟩
        · trivial
      · refine assures_of_issues (issues_logged (acceptInvite_tells auth token)) ?_
        exact fun step hop hvalid _ => ⟨hvalid, fun htells => Or.inr ⟨auth, token, rfl, hop htells⟩⟩
      · exact hsilent ((call.has env).mono fun _ h => Op.tells_of_has h hpushes hnotifies)

/-- The party is known from the rows at the start of the run, or from an event detected since. -/
def KnownParty (env : Env) (w : World) (steps : List ActorStep) (agreementPda party : String) :
    Prop :=
  ∃ creator, w.Says (.created agreementPda creator party) ∨
    ReportedBy env (.created agreementPda creator party) steps

/-- **Notices.**  A user who is told of an agreement over the WebSocket is told what a detected
event reports, and has the wallet of a party that was known before.  The recipient of a queued
notification is such a party too, or the signer of a vote to revoke.  The other notices tell that a
draft is ready. -/
theorem agreement_notices_reach_parties {env : Env} {w w' : World} {before after : List ActorStep}
    {step : ActorStep} (hrun : ActorRun env w (before ++ step :: after) w') :
    (∀ userId wsEvent, step.op.2 = .sendToUser userId wsEvent →
      (∃ text, wsEvent = .draftReady text) ∨
      ∃ event party, Detected env event (before ++ [step]) ∧
        wsEvent ∈ event.instruction.wsEvents event.agreementPda ∧ step.pre.Holder party userId ∧
        KnownParty env w before event.agreementPda party) ∧
    (∀ s : NotificationStmt, step.op.2 = .sql (.notification s) →
      s.eventType = "DraftReadyToSubmit" ∨
      ∃ event, Detected env event (before ++ [step]) ∧
        s.eventType ∈ event.instruction.eventTypes ∧ s.agreementPda = some event.agreementPda ∧
        (KnownParty env w before event.agreementPda s.recipientPubkey ∨
          event.instruction = .voteRevoke ∧ s.recipientPubkey = event.signer.getD "unknown")) := by
  have hmem : step ∈ before ++ step :: after := List.mem_append_right _ List.mem_cons_self
  have htells := hrun.assured PartiesKept.refl PartiesKept.trans
    (fun _ _ h => partiesKept_step h.valid) (fun actor w₁ => actor.tells env w₁) step hmem
  have hrecords := hrun.issued fun actor => actor.records env
  have hknown : ∀ agreementPda party, step.pre.HasParty agreementPda party →
      KnownParty env w before agreementPda party := by
    rintro agreementPda party ⟨creator, hsaid⟩
    exact ⟨creator, says_of_chain hrun.chain.split.1 (fun step hmem =>
      hrecords step (List.mem_append_left _ hmem)) hsaid⟩
  have hdetected : ∀ {response event}, step.op.1 = .invocation (.processNotification response) →
      detectedEvent env response = some event → Detected env event (before ++ [step]) :=
    fun hactor hevent =>
      ⟨step, List.mem_append_right _ (List.mem_singleton_self _), _, hactor, hevent⟩
  -- the WebSocket events, then the notifications; both may also be about a draft that is ready
  refine ⟨fun userId wsEvent hop => ?_, fun s hop => ?_⟩
  · rcases htells.tells (congrArg Op.tells hop) with
      ⟨response, event, hactor, hevent, htold⟩ | ⟨auth, token, -, hready⟩
    · obtain ⟨hevents, party, hparty, hholder⟩ := htold.pushed userId wsEvent hop
      exact Or.inr ⟨event, party, hdetected hactor hevent, hevents, hholder, hknown _ _ hparty⟩
    · have hready := (congrArg Op.announcesReady hop).symm.trans hready
      cases wsEvent with
      | draftReady text => exact Or.inl ⟨text, rfl⟩
      | _ => cases hready
  · rcases htells.tells (congrArg Op.tells hop) with
      ⟨response, event, hactor, hevent, htold⟩ | ⟨auth, token, -, hready⟩
    · obtain ⟨htypes, hpda, hrecipient⟩ := htold.queued s hop
      exact Or.inr ⟨event, hdetected hactor hevent, htypes, hpda, hrecipient.imp_left (hknown _ _)⟩
    · exact Or.inl (of_decide_eq_true ((congrArg Op.announcesReady hop).symm.trans hready))

/-- Alice is told that the agreement was cancelled. -/
theorem agreement_notices_reach_parties_cancelled :
    ∃ before step after w',
      ActorRun sampleEnv (World.ofDb soleSignerDb) (before ++ step :: after) w' ∧
      step.op.2.privilege = .pushes ∧
      ((∀ userId wsEvent, step.op.2 = .sendToUser userId wsEvent →
        (∃ text, wsEvent = .draftReady text) ∨
        ∃ event party, Detected sampleEnv event (before ++ [step]) ∧
          wsEvent ∈ event.instruction.wsEvents event.agreementPda ∧
          step.pre.Holder party userId ∧
          KnownParty sampleEnv (World.ofDb soleSignerDb) before event.agreementPda party) ∧
      (∀ s : NotificationStmt, step.op.2 = .sql (.notification s) →
        s.eventType = "DraftReadyToSubmit" ∨
        ∃ event, Detected sampleEnv event (before ++ [step]) ∧
          s.eventType ∈ event.instruction.eventTypes ∧ s.agreementPda = some event.agreementPda ∧
          (KnownParty sampleEnv (World.ofDb soleSignerDb) before event.agreementPda
              s.recipientPubkey ∨
            event.instruction = .voteRevoke ∧
              s.recipientPubkey = event.signer.getD "unknown"))) := by
  obtain ⟨steps, w', hrun, htest⟩ := actorRun_of_replay (World.ofDb soleSignerDb)
    [.invocation (.processNotification cancelNotification)] (List.replicate 6 (0, cooperate 1))
    (fun steps _ => steps.any fun step => step.op.2.privilege = .pushes) (by decide +kernel)
  obtain ⟨step, hmem, hpushes⟩ := List.any_eq_true.mp htest
  obtain ⟨before, after, rfl⟩ := List.append_of_mem hmem
  exact ⟨before, step, after, w', hrun, of_decide_eq_true hpushes,
    agreement_notices_reach_parties hrun⟩

end PactumCodex
