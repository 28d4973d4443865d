import PactumCodex.Payments.Rows
import PactumCodex.Replay

/-!
# Notifications of failed transactions

A notification of the log subscription says in its field `err` whether the
transaction failed.  `connect_and_stream` forwards the other fields only, so a
failed transaction is handled like a successful one: whether it changes the
tables depends on the event its log lines describe and on the rows that this
event touches.

## Harmless events

`Harmless db event` says of each kind of event that the tables hold nothing it
could change: no row of the signer, no party and no confirmed payment of the
agreement.  Handling such an event leaves the tables alone in every execution
(`handleEvent_leaves`); `Leaves` is this property of a program, also while others
run that do the same.

## All other events

For an event that is not harmless an execution is constructed that changes a
table, up to the point where it has (`CanReach`): handlers go on after an error,
so it does not matter what comes later.  Each handler is taken to its first write
(`handleCreateAgreement_reaches` and the following), and the statements before it
are given answers the database can give.

`notification_harmless_iff` combines both directions.
-/

namespace PactumCodex

open Interaction Relational

/-- The tables of the event listener have not changed. -/
structure SameTables (w w' : World) : Prop where
  parties : w'.db.parties = w.db.parties
  payments : w'.db.payments = w.db.payments
  notifications : w'.db.notifications = w.db.notifications

theorem SameTables.refl (w : World) : SameTables w w := ⟨rfl, rfl, rfl⟩

theorem SameTables.trans {w₁ w₂ w₃ : World} (h₁ : SameTables w₁ w₂) (h₂ : SameTables w₂ w₃) :
    SameTables w₁ w₃ :=
  ⟨h₂.parties.trans h₁.parties, h₂.payments.trans h₁.payments,
    h₂.notifications.trans h₁.notifications⟩

theorem SameTables.of_db_eq {w w' : World} (h : w'.db = w.db) : SameTables w w' := by
  refine ⟨?_, ?_, ?_⟩ <;> rw [h]

/-- The party row is the one of the event's signer. -/
def Party.isSigner (event : ParsedEvent) (party : Party) : Bool :=
  party.agreementPda = event.agreementPda ∧ party.partyPubkey = event.signer.getD "unknown"

/-- The event finds nothing to change. -/
def Harmless (db : Db) (event : ParsedEvent) : Prop :=
  match event.instruction with
  | .createAgreement => event.parties = []
  | .signAgreement => ∀ party ∈ db.parties.rows, party.isSigner event = false
  | .cancelAgreement | .expireAgreement =>
      (∀ party ∈ db.parties.rows, party.agreementPda ≠ event.agreementPda) ∧
        ∀ payment ∈ db.payments.rows, payment.status = .confirmed →
          payment.agreementPda ≠ some event.agreementPda
  | .voteRevoke => False

/-! ## Harmless events -/

/-- From `w` on, the program leaves the tables alone, even if others run that do the same. -/
abbrev Leaves {α : Type} (p : Backend α) (w : World) (Φ : α → World → Prop) : Prop :=
  Assures perform SameTables (fun _ => True) (fun step => SameTables step.pre step.post) p w Φ

/-- A program that leaves the tables alone does so in every execution. -/
theorem Leaves.sameTables {α : Type} {p : Backend α} {w w' : World} {steps : List BackendStep}
    {Φ : α → World → Prop} (h : Leaves p w Φ) (hstops : Stops perform p w steps w') :
    SameTables w w' := by
  have hsteps := Assures.of_stops h SameTables.refl hstops fun _ _ => trivial
  exact (hstops.chain.invariant (SameTables w) (SameTables.refl w) fun step hmem _ hpre =>
    hpre.trans (hsteps step hmem)).1

theorem leaves_dbNow {w : World} :
    Leaves (Handler.ask .dbNow).run w fun _ w' => SameTables w w' := by
  intro w₁ hw₁ now w₂ hperform _
  obtain ⟨-, rfl⟩ := provided_eq_some.mp hperform
  exact ⟨⟨rfl, rfl, rfl⟩, ⟨hw₁.parties, hw₁.payments, hw₁.notifications⟩⟩

/-- A statement on party rows that leaves them alone, and what it then returns. -/
theorem leaves_partyQuery {s : PartyStmt} {w : World} {Φ : s.Out → Prop}
    (h : ∀ db : Db, db.parties = w.db.parties → ∀ out parties, s.exec out db = some parties →
      parties = db.parties ∧ Φ out) :
    Leaves (Handler.query (.party s)).run w fun r w' =>
      SameTables w w' ∧ ∀ out, r = .ok out → Φ out := by
  refine assures_query.mpr fun w₁ hw₁ => ⟨fun out w₂ hperform _ => ?_, fun _ => ?_⟩
  · obtain ⟨-, -, db, hexec, rfl⟩ := performSql_eq_some.mp hperform
    obtain ⟨parties, hparties, rfl⟩ := Option.map_eq_some_iff.mp hexec
    obtain ⟨hsame, hout⟩ := h w₁.db hw₁.parties out parties hparties
    have htables : SameTables w₁
      { w₁ with db := { w₁.db with parties }, uuids := [] ++ w₁.uuids } :=
      ⟨hsame, rfl, rfl⟩
    refine ⟨htables, hw₁.trans htables, fun out' h => ?_⟩
    rw [Except.ok.injEq] at h
    exact h ▸ hout
  · exact ⟨SameTables.refl w₁, hw₁, by simp⟩

theorem handleSignAgreement_leaves {event : ParsedEvent} {w : World}
    (h : ∀ party ∈ w.db.parties.rows, party.isSigner event = false) :
    Leaves (handleSignAgreement event).run w fun _ _ => True := by
  refine assures_run_bind.mpr (leaves_dbNow.mono fun now w₁ hw₁ => ?_)
  rcases now with _ | now
  · trivial
  refine assures_run_bind.mpr ((leaves_partyQuery (Φ := fun out => out = none) ?_).mono ?_)
  · intro db hdb out parties hexec
    have hnone : ∀ party ∈ db.parties.rows, party.isSigner event = false := by
      rw [hdb, hw₁.parties]
      exact h
    simp only [PartyStmt.exec, Option.ite_none_right_eq_some] at hexec
    obtain ⟨rfl, hcommit⟩ := hexec
    refine ⟨Table.ext ?_, ?_⟩
    · rw [rows_of_commit hcommit]
      exact updateWhere_eq_self hnone
    · rw [Option.map_eq_none_iff, List.find?_eq_none]
      intro party hparty
      simpa [Party.isSigner] using hnone party hparty
  · rintro r w₂ ⟨-, hnone⟩
    rcases r with _ | signed
    · trivial
    rw [hnone signed rfl]
    trivial

theorem initiateRefundIfEligible_leaves {agreementPda : String} {w : World}
    (h : ∀ payment ∈ w.db.payments.rows, payment.status = .confirmed →
      payment.agreementPda ≠ some agreementPda) :
    Leaves (initiateRefundIfEligible agreementPda).run w fun _ _ => True := by
  refine assures_run_bind.mpr (assures_query.mpr fun w₁ hw₁ => ⟨fun out w₂ hperform _ => ?_, ?_⟩)
  · rcases out with _ | id
    · obtain ⟨-, hdb⟩ := db_of_select hperform rfl
      exact ⟨SameTables.of_db_eq hdb, trivial⟩
    · obtain ⟨payment, hpayment, hstatus, hpda⟩ := confirmedOf_returns hperform
      obtain ⟨-, hdb⟩ := db_of_select hperform rfl
      have hmem := (Db.payment?_eq_some.mp hpayment).1
      rw [hdb, hw₁.payments] at hmem
      exact absurd hpda (h payment hmem hstatus)
  · exact fun _ => ⟨SameTables.refl w₁, trivial⟩

theorem handleCancellation_leaves {event : ParsedEvent} {status : PartyStatus} {w : World}
    (hparties : ∀ party ∈ w.db.parties.rows, party.agreementPda ≠ event.agreementPda)
    (hpayments : ∀ payment ∈ w.db.payments.rows, payment.status = .confirmed →
      payment.agreementPda ≠ some event.agreementPda) :
    Leaves (handleCancellation event status).run w fun _ _ => True := by
  refine assures_run_bind.mpr ((leaves_partyQuery (Φ := fun _ => True) ?_).mono ?_)
  · intro db hdb out parties hexec
    refine ⟨Table.ext ?_, trivial⟩
    rw [rows_of_commit hexec]
    refine updateWhere_eq_self fun party hparty => ?_
    rw [hdb] at hparty
    simpa using hparties party hparty
  rintro r w₁ ⟨hw₁, -⟩
  rcases r with _ | _
  · trivial
  refine assures_run_bind.mpr ((leaves_partyQuery (Φ := fun out => out = []) ?_).mono ?_)
  · intro db hdb out parties hexec
    obtain ⟨hperm, rfl⟩ := provided_eq_some.mp hexec
    refine ⟨rfl, ?_⟩
    have hnone : db.parties.rows.filter (·.agreementPda = event.agreementPda) = [] := by
      rw [List.filter_eq_nil_iff, hdb, hw₁.parties]
      simpa using hparties
    rw [hnone] at hperm
    exact List.perm_nil.mp hperm
  rintro r w₂ ⟨hw₂, hnil⟩
  rcases r with _ | parties
  · trivial
  obtain rfl := hnil parties rfl
  -- without parties, nothing is enqueued and nobody is notified
  change Leaves (liftM (Handler.logged (initiateRefundIfEligible event.agreementPda)) :
    Handler Unit).run w₂ _
  refine assures_bind.mpr (assures_bind.mpr ?_)
  refine (initiateRefundIfEligible_leaves ?_).mono fun _ _ _ => trivial
  rw [hw₂.payments, hw₁.payments]
  exact hpayments

theorem handleEvent_leaves {event : ParsedEvent} {w : World} (h : Harmless w.db event) :
    Leaves (handleEvent event).run w fun _ _ => True := by
  unfold Harmless at h
  unfold handleEvent
  cases hinstruction : event.instruction with
  | createAgreement =>
      simp only [hinstruction] at h
      unfold handleCreateAgreement
      rw [h]
      trivial
  | signAgreement =>
      simp only [hinstruction] at h
      exact handleSignAgreement_leaves h
  | cancelAgreement =>
      simp only [hinstruction] at h
      exact handleCancellation_leaves h.1 h.2
  | expireAgreement =>
      simp only [hinstruction] at h
      exact handleCancellation_leaves h.1 h.2
  | voteRevoke => simp [hinstruction] at h

/-! ## Executions up to a point -/

section CanReach

variable {α β : Type} {w w₁ : World} {Φ : World → Prop}

/-- The program can be stopped in a world with the given property. -/
def CanReach (p : Backend α) (w : World) (Φ : World → Prop) : Prop :=
  ∃ steps w', Stops perform p w steps w' ∧ Φ w'

theorem canReach_of_runs {p : Backend α} {a : α} {w' : World} {steps : List BackendStep}
    (h : Runs perform p w steps a w') (hΦ : Φ w') : CanReach p w Φ :=
  ⟨steps, w', h.stops, hΦ⟩

theorem canReach_bind_left {p : Backend α} {f : α → Backend β} (h : CanReach p w Φ) :
    CanReach (p >>= f) w Φ := by
  obtain ⟨steps, w', hstops, hΦ⟩ := h
  exact ⟨steps, w', stops_bind_left hstops, hΦ⟩

theorem canReach_run_bind_left {x : Handler α} {f : α → Handler β} (h : CanReach x.run w Φ) :
    CanReach (x >>= f).run w Φ := by
  rw [run_bind_eq]
  exact canReach_bind_left h

theorem canReach_run_bind_right {x : Handler α} {f : α → Handler β} {a : α}
    {first : List BackendStep} (hfirst : Runs perform x.run w first (.ok a) w₁)
    (h : CanReach (f a).run w₁ Φ) : CanReach (x >>= f).run w Φ := by
  obtain ⟨second, w', hstops, hΦ⟩ := h
  rw [run_bind_eq]
  exact ⟨first ++ second, w', stops_bind_right hfirst hstops, hΦ⟩

theorem canReach_logged {x : Handler α} (h : CanReach x.run w Φ) :
    CanReach (Handler.logged x) w Φ :=
  canReach_bind_left h

/-- A statement on party rows can succeed. -/
theorem runs_partyQuery {s : PartyStmt} {out : s.Out} {parties : Table Party PartiesValid}
    (h : s.exec out w.db = some parties) :
    ∃ steps, Runs perform (Handler.query (.party s)).run w steps (.ok out)
      { w with db := { w.db with parties } } := by
  refine ⟨_, runs_query_ok.mpr ⟨performSql_eq_some.mpr ⟨rfl, ?_, _, ?_, rfl⟩, rfl⟩⟩
  · simp [Stmt.generated]
  · exact Option.map_eq_some_iff.mpr ⟨parties, h, rfl⟩

/-- A statement on payments can succeed. -/
theorem runs_paymentQuery {s : PaymentStmt} {out : s.Out} {payments : Table Payment PaymentsValid}
    (h : s.exec out w.db = some payments) :
    ∃ steps, Runs perform (Handler.query (.payment s)).run w steps (.ok out)
      { w with db := { w.db with payments } } := by
  refine ⟨_, runs_query_ok.mpr ⟨performSql_eq_some.mpr ⟨rfl, ?_, _, ?_, rfl⟩, rfl⟩⟩
  · simp [Stmt.generated]
  · exact Option.map_eq_some_iff.mpr ⟨payments, h, rfl⟩

theorem runs_dbNow (w : World) (now : ℤ) (h : w.clock ≤ now) :
    ∃ steps, Runs perform (Handler.ask .dbNow).run w steps (.ok now) { w with clock := now } :=
  ⟨_, runs_ask_ok.mpr ⟨provided_eq_some.mpr ⟨h, rfl⟩, rfl⟩⟩

end CanReach

/-! ## Events that change something -/

/-- An identifier that was never generated and is not in the queue. -/
def Unused (id : Uuid) (w : World) : Prop :=
  id ∉ w.uuids ∧ ∀ row ∈ w.db.notifications.rows, row.id ≠ id

/-- The queue has grown by one. -/
def Enqueued (w w' : World) : Prop :=
  w'.db.notifications.rows.length = w.db.notifications.rows.length + 1

theorem Enqueued.not_sameTables {w w' : World} (h : Enqueued w w') : ¬ SameTables w w' := by
  intro hsame
  rw [Enqueued, hsame.notifications] at h
  omega

theorem enqueueNotification_reaches (eventType agreementPda recipient : String) {id : Uuid}
    {w : World} (hid : Unused id w) :
    CanReach (enqueueNotification eventType (some agreementPda) recipient).run w (Enqueued w) := by
  have hvalid : NotificationsValid (w.db.notifications.rows ++
      [⟨id, eventType, agreementPda, recipient, .pending, 0, 0⟩]) := by
    unfold NotificationsValid
    rw [List.map_append, List.map_singleton, List.nodup_append]
    refine ⟨w.db.notifications.valid, List.nodup_singleton id, ?_⟩
    simp only [List.mem_map, List.mem_singleton]
    rintro _ ⟨row, hrow, rfl⟩ _ rfl
    exact hid.2 row hrow
  have hperform : performSql (.notification ⟨eventType, some agreementPda, recipient, 0⟩) id w =
      some { w with
        db := { w.db with notifications := ⟨_, hvalid⟩ }, uuids := id :: w.uuids } := by
    refine performSql_eq_some.mpr ⟨rfl, by simpa [Stmt.generated] using hid.1, _, ?_, rfl⟩
    exact Option.map_eq_some_iff.mpr ⟨_, commit_of_valid hvalid, rfl⟩
  have hnow : Runs perform (Handler.ask .utcNow).run w [⟨w, .utcNow, (0 : ℤ), w⟩] (.ok (0 : ℤ)) w :=
    runs_ask_ok.mpr ⟨rfl, rfl⟩
  refine canReach_run_bind_right hnow ?_
  refine canReach_run_bind_left (canReach_of_runs (runs_query_ok.mpr ⟨hperform, rfl⟩) ?_)
  simp [Enqueued]

theorem enqueueAll_reaches (eventType agreementPda : String) {parties : List String} {id : Uuid}
    {w : World} (hparties : parties ≠ []) (hid : Unused id w) :
    CanReach (enqueueAll eventType agreementPda parties) w (Enqueued w) := by
  obtain ⟨party, rest, rfl⟩ := List.exists_cons_of_ne_nil hparties
  exact canReach_bind_left (canReach_logged (enqueueNotification_reaches _ _ _ hid))

/-- All party rows of an event can be stored. -/
theorem insertParties_runs (agreementPda creator : String) (parties : List String) (w : World) :
    ∃ steps w', Runs perform (insertParties agreementPda creator parties).run w steps (.ok ()) w' ∧
      w'.db.notifications = w.db.notifications ∧ w'.uuids = w.uuids := by
  induction parties generalizing w with
  | nil => exact ⟨[], w, ⟨rfl, rfl, rfl⟩, rfl, rfl⟩
  | cons party rest ih =>
      obtain ⟨parties', hexec⟩ : ∃ parties',
          (PartyStmt.insert party agreementPda creator w.clock).exec () w.db = some parties' := by
        by_cases hconflict : ∃ row ∈ w.db.parties.rows,
            row.partyPubkey = party ∧ row.agreementPda = agreementPda
        · exact ⟨_, if_pos hconflict⟩
        · refine ⟨_, (if_neg hconflict).trans (commit_of_valid ?_)⟩
          unfold PartiesValid
          rw [List.map_append, List.map_singleton, List.nodup_append]
          refine ⟨w.db.parties.valid, List.nodup_singleton _, ?_⟩
          simp only [List.mem_map, List.mem_singleton]
          rintro _ ⟨row, hrow, rfl⟩ _ rfl heq
          exact hconflict ⟨row, hrow, (Prod.mk.inj heq).1, (Prod.mk.inj heq).2⟩
      obtain ⟨first, hfirst⟩ := runs_dbNow w w.clock le_rfl
      obtain ⟨second, hsecond⟩ := runs_partyQuery hexec
      obtain ⟨third, w', hthird, hqueue, huuids⟩ :=
        ih { w with db := { w.db with parties := parties' } }
      refine ⟨first ++ (second ++ third), w', ?_, hqueue, huuids⟩
      refine runs_bind_ok.mpr ⟨_, _, first, _, rfl, hfirst, ?_⟩
      exact runs_bind_ok.mpr ⟨_, _, second, third, rfl, hsecond, hthird⟩

theorem handleCreateAgreement_reaches {event : ParsedEvent} {id : Uuid} {w : World}
    (hparties : event.parties ≠ []) (hid : Unused id w) :
    CanReach (handleCreateAgreement event).run w fun w' => ¬ SameTables w w' := by
  obtain ⟨steps, w₁, hinsert, hqueue, huuids⟩ := insertParties_runs event.agreementPda
    (event.creator.getD "unknown") event.parties w
  have hid₁ : Unused id w₁ := by
    rw [Unused, hqueue, huuids]
    exact hid
  refine canReach_run_bind_right hinsert (canReach_run_bind_left (canReach_bind_left ?_))
  obtain ⟨rest, w', hstops, henqueued⟩ :=
    enqueueAll_reaches "AgreementCreated" event.agreementPda hparties hid₁
  refine ⟨rest, w', hstops, Enqueued.not_sameTables ?_⟩
  rw [Enqueued, ← hqueue]
  exact henqueued

/-- An update that leaves the key columns alone breaks no constraint. -/
theorem partiesValid_updateWhere {p : Party → Bool} {f : Party → Party} {rows : List Party}
    (h : PartiesValid rows)
    (hkey : ∀ row, ((f row).partyPubkey, (f row).agreementPda) =
      (row.partyPubkey, row.agreementPda)) :
    PartiesValid (updateWhere p f rows) := by
  unfold PartiesValid
  rw [map_updateWhere hkey]
  exact h

theorem handleSignAgreement_reaches {event : ParsedEvent} {party : Party} {w : World}
    (hparty : party ∈ w.db.parties.rows) (hsigner : party.isSigner event) :
    CanReach (handleSignAgreement event).run w fun w' => ¬ SameTables w w' := by
  -- sign at a time that differs from the one stored
  obtain ⟨now, hclock, hdiffers⟩ : ∃ now, w.clock ≤ now ∧ party.signedAt ≠ some now := by
    refine ⟨max w.clock (party.signedAt.getD 0) + 1, by omega, fun heq => ?_⟩
    have hprevious := congrArg (Option.getD · 0) heq
    simp only [Option.getD_some] at hprevious
    omega
  have hvalid : PartiesValid (updateWhere (·.isSigner event) ({ · with signedAt := some now })
      w.db.parties.rows) :=
    partiesValid_updateWhere w.db.parties.valid fun _ => rfl
  have hexec : (PartyStmt.sign now event.agreementPda (event.signer.getD "unknown")).exec
      ((w.db.parties.rows.find? (·.isSigner event)).map Party.partyPubkey) w.db =
        some ⟨_, hvalid⟩ :=
    (if_pos rfl).trans (commit_of_valid hvalid)
  obtain ⟨first, hfirst⟩ := runs_dbNow w now hclock
  obtain ⟨second, hsecond⟩ := runs_partyQuery (w := { w with clock := now }) hexec
  refine canReach_run_bind_right hfirst (canReach_run_bind_left (canReach_of_runs hsecond ?_))
  intro hsame
  have hsigned : { party with signedAt := some now } ∈ w.db.parties.rows := by
    rw [← hsame.parties]
    exact mem_updateWhere.mpr ⟨party, hparty, by rw [if_pos hsigner]⟩
  have heq := eq_of_key_eq w.db.parties.valid hparty hsigned rfl
  exact hdiffers (congrArg Party.signedAt heq)

/-- The refund of a confirmed payment can be queued. -/
theorem initiateRefundIfEligible_reaches {agreementPda : String} {payment : Payment} {w : World}
    (hmem : payment ∈ w.db.payments.rows) (hstatus : payment.status = .confirmed)
    (hpda : payment.agreementPda = some agreementPda) :
    CanReach (initiateRefundIfEligible agreementPda).run w fun w' =>
      w'.db.payments ≠ w.db.payments := by
  have hread : (PaymentStmt.confirmedOf agreementPda).exec (some payment.id) w.db =
      some w.db.payments := by
    refine provided_eq_some.mpr ⟨List.mem_map_of_mem ?_, rfl⟩
    simp [hmem, hstatus, hpda]
  have hvalid : PaymentsValid (updateWhere (·.id = payment.id) (·.queueRefund w.clock)
      w.db.payments.rows) :=
    paymentsValid_updateWhere w.db.payments.valid (fun _ => rfl) (fun _ => rfl) fun _ => rfl
  have hwrite : (PaymentStmt.initiateRefund w.clock payment.id).exec () w.db = some ⟨_, hvalid⟩ :=
    commit_of_valid hvalid
  obtain ⟨first, hfirst⟩ := runs_paymentQuery hread
  obtain ⟨second, hsecond⟩ := runs_dbNow w w.clock le_rfl
  obtain ⟨third, hthird⟩ := runs_paymentQuery hwrite
  refine canReach_run_bind_right hfirst (canReach_run_bind_right hsecond
    (canReach_of_runs hthird ?_))
  intro hsame
  have hqueued : payment.queueRefund w.clock ∈ w.db.payments.rows := by
    rw [← hsame]
    exact mem_updateWhere.mpr ⟨payment, hmem, by simp⟩
  have heq := congrArg Payment.status (eq_of_key_eq w.db.payments.valid.1 hmem hqueued rfl)
  rw [hstatus] at heq
  cases heq

theorem handleCancellation_reaches {event : ParsedEvent} {status : PartyStatus} {id : Uuid}
    {w : World} (hid : Unused id w)
    (h : (∃ party ∈ w.db.parties.rows, party.agreementPda = event.agreementPda) ∨
      ∃ payment ∈ w.db.payments.rows, payment.status = .confirmed ∧
        payment.agreementPda = some event.agreementPda) :
    CanReach (handleCancellation event status).run w fun w' => ¬ SameTables w w' := by
  have hvalid : PartiesValid (updateWhere (·.agreementPda = event.agreementPda)
      ({ · with status }) w.db.parties.rows) :=
    partiesValid_updateWhere w.db.parties.valid fun _ => rfl
  have hupdate : (PartyStmt.setStatus status event.agreementPda).exec () w.db = some ⟨_, hvalid⟩ :=
    commit_of_valid hvalid
  obtain ⟨first, hfirst⟩ := runs_partyQuery hupdate
  refine canReach_run_bind_right hfirst ?_
  let w₁ : World := { w with db := { w.db with parties := ⟨_, hvalid⟩ } }
  -- the update keeps the key columns, so the parties are found with their new status
  let parties := (w₁.db.parties.rows.filter (·.agreementPda = event.agreementPda)).map
    Party.partyPubkey
  have hread : (PartyStmt.partiesOf event.agreementPda).exec parties w₁.db =
      some w₁.db.parties := provided_eq_some.mpr ⟨List.Perm.refl _, rfl⟩
  obtain ⟨second, hsecond⟩ := runs_partyQuery hread
  refine canReach_run_bind_right hsecond ?_
  by_cases hnil : parties = []
  · -- no party row, so the event has a confirmed payment
    have hpayment := h.resolve_left fun ⟨party, hmem, hpda⟩ => by
      have hupdated : { party with status } ∈ w₁.db.parties.rows :=
        mem_updateWhere.mpr ⟨party, hmem, by simp [hpda]⟩
      have hin : party.partyPubkey ∈ parties := by
        refine List.mem_map.mpr ⟨_, List.mem_filter.mpr ⟨hupdated, ?_⟩, rfl⟩
        simp [hpda]
      rw [hnil] at hin
      simp at hin
    obtain ⟨payment, hmem, hstatus, hpda⟩ := hpayment
    rw [hnil]
    change CanReach (liftM (Handler.logged (initiateRefundIfEligible event.agreementPda)) :
      Handler Unit).run w₁ _
    refine canReach_bind_left (canReach_logged ?_)
    obtain ⟨rest, w', hstops, hpayments⟩ :=
      initiateRefundIfEligible_reaches (w := w₁) hmem hstatus hpda
    exact ⟨rest, w', hstops, fun hsame => hpayments hsame.payments⟩
  -- somebody is told about it, which is an insertion into the queue
  · refine canReach_run_bind_left (canReach_bind_left ?_)
    obtain ⟨rest, w', hstops, henqueued⟩ := enqueueAll_reaches (w := w₁)
      (cancellationEventType status) event.agreementPda hnil hid
    exact ⟨rest, w', hstops, Enqueued.not_sameTables henqueued⟩

/-- An event that is not harmless can change a table. -/
theorem handleEvent_reaches {event : ParsedEvent} {id : Uuid} {w : World} (hid : Unused id w)
    (h : ¬ Harmless w.db event) :
    CanReach (handleEvent event).run w fun w' => ¬ SameTables w w' := by
  unfold Harmless at h
  unfold handleEvent
  have hcancel : ¬ ((∀ party ∈ w.db.parties.rows, party.agreementPda ≠ event.agreementPda) ∧
      ∀ payment ∈ w.db.payments.rows, payment.status = .confirmed →
        payment.agreementPda ≠ some event.agreementPda) →
      (∃ party ∈ w.db.parties.rows, party.agreementPda = event.agreementPda) ∨
        ∃ payment ∈ w.db.payments.rows, payment.status = .confirmed ∧
          payment.agreementPda = some event.agreementPda := by
    intro hnot
    rw [Classical.not_and_iff_not_or_not] at hnot
    push Not at hnot
    exact hnot
  -- for each instruction, the row that the event touches
  cases hinstruction : event.instruction with
  | createAgreement =>
      simp only [hinstruction] at h
      exact handleCreateAgreement_reaches h hid
  | signAgreement =>
      simp only [hinstruction] at h
      push Not at h
      obtain ⟨party, hparty, hsigner⟩ := h
      exact handleSignAgreement_reaches hparty (by simpa using hsigner)
  | cancelAgreement =>
      simp only [hinstruction] at h
      exact handleCancellation_reaches hid (hcancel h)
  | expireAgreement =>
      simp only [hinstruction] at h
      exact handleCancellation_reaches hid (hcancel h)
  | voteRevoke =>
      refine canReach_run_bind_left (canReach_bind_left (canReach_logged ?_))
      obtain ⟨steps, w', hstops, henqueued⟩ := enqueueNotification_reaches "RevokeVote"
        event.agreementPda (event.signer.getD "unknown") hid
      exact ⟨steps, w', hstops, henqueued.not_sameTables⟩

/-- **Failed transactions.**  Whatever the field `err` of a notification says, all executions of
its processing, finished or not, leave party rows, payments and the queue unchanged exactly if no
event is detected in its logs, or the event finds nothing to change. -/
theorem notification_harmless_iff {env : Env} {response : RpcLogsResponse} {w : World} {id : Uuid}
    (hid : Unused id w) :
    (∀ steps w', Stops perform (processNotification env response) w steps w' → SameTables w w') ↔
      ∀ event, detectedEvent env response = some event → Harmless w.db event := by
  unfold processNotification
  constructor
  · intro hsame event hevent
    by_contra hharmful
    obtain ⟨steps, w', hstops, hchanged⟩ := handleEvent_reaches hid hharmful
    refine hchanged (hsame steps w' ?_)
    rw [hevent]
    exact stops_bind_left hstops
  · intro hharmless steps w' hstops
    cases hevent : detectedEvent env response with
    | none =>
        rw [hevent] at hstops
        obtain ⟨-, rfl⟩ := hstops
        exact SameTables.refl w'
    | some event =>
        rw [hevent] at hstops
        have hleaves := handleEvent_leaves (hharmless event hevent)
        have hlogged : Leaves (Handler.logged (handleEvent event)) w fun _ _ => True :=
          assures_bind.mpr (hleaves.mono fun _ _ _ => trivial)
        exact hlogged.sameTables hstops

/-! ## A failed cancellation -/

/-- The notification of a `CancelAgreement` transaction that failed on chain. -/
def failedCancellation : RpcLogsResponse := { cancelNotification with err := some (.str "failed") }

theorem failed_cancellation_changes_tables :
    ¬ ∀ (env : Env) (response : RpcLogsResponse) (w w' : World) (steps : List BackendStep),
      response.err.isSome → Runs perform (processNotification env response) w steps () w' →
        SameTables w w' := by
  intro hclaim
  obtain ⟨steps, _, w', hrun, htest⟩ :=
    runs_of_interpret (p := processNotification sampleEnv failedCancellation)
      (World.ofDb (onePaymentDb linkedPayment)) (cooperate 0)
      (fun _ _ w' => decide (w'.db.notifications.rows.length = 1)) (by decide +kernel)
  have hsame := hclaim sampleEnv failedCancellation _ w' steps rfl hrun
  have hlength := of_decide_eq_true htest
  rw [hsame.notifications] at hlength
  revert hlength
  decide

/-- All party rows and the confirmed payment are of agreement `B`; a payment of `A` is pending. -/
def otherAgreementDb : Db :=
  { onePaymentDb linkedPayment with
    parties :=
      ⟨[⟨aliceKey, "B", bobKey, .pendingSignatures, none, 0, 0, "Agreement"⟩,
        ⟨bobKey, "B", bobKey, .pendingSignatures, some 0, 0, 0, "Agreement"⟩], by decide⟩
    payments :=
      ⟨[linkedPayment,
        { samplePayment with
          id := 2, status := .confirmed, tokenReferencePubkey := some "second",
          agreementPda := some "B" }], by decide⟩ }

theorem notification_harmless_iff_other_agreement :
    Unused 5 (World.ofDb otherAgreementDb) ∧
      detectedEvent sampleEnv failedCancellation =
        some ⟨.cancelAgreement, "A", none, none, []⟩ ∧
      ∀ steps w', Stops perform (processNotification sampleEnv failedCancellation)
        (World.ofDb otherAgreementDb) steps w' → SameTables (World.ofDb otherAgreementDb) w' := by
  have hid : Unused 5 (World.ofDb otherAgreementDb) := ⟨by decide, by decide⟩
  have hdetected : detectedEvent sampleEnv failedCancellation =
      some ⟨.cancelAgreement, "A", none, none, []⟩ := by decide +kernel
  refine ⟨hid, hdetected, (notification_harmless_iff hid).mpr fun event hevent => ?_⟩
  rw [hdetected, Option.some.injEq] at hevent
  subst hevent
  exact ⟨by decide, by decide⟩

end PactumCodex
