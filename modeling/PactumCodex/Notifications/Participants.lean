import PactumCodex.Notifications.Messaging

/-!
# The participants of the messaging system

A notification worker delivers jobs that wait in the queue, to the holder of the
wallet they name (`Delivers`).  `Participates` says what a step of any participant
is: the backend tells parties what was reported, a worker delivers, and what is
around them tells nobody anything.  All of them keep the parties, the holders of
wallets and the pending jobs (`MessagingKept`), which is what each relies on.

## A worker

`run_delivering` is the contract of a worker in the world of its own: while others
keep the queue and the holders, each step is silent or delivers a job that is in
the queue.  The proof goes along the worker's text.  What it has looked up before
a delivery (the job, the user of its wallet) is still true when it delivers,
because the others keep it.

## All participants

The contracts of the backend and of the worker are about their own worlds.  They
are carried over to the common one by `assures_embed`
(`participant_participates`).  Three facts about single steps are then used in
every history:

* `Participates.kept`: parties, holders and pending jobs are kept;
* `Participates.records`: a party row says something new only if a statement of
  the backend records it;
* `Participates.queue`: a job of the queue was there before, or the backend has
  inserted it.
-/

namespace PactumCodex

open Interaction Relational

/-! ## What a worker does -/

/-- The wallet belongs to the user. -/
def NotifyWorld.Holder (v : NotifyWorld) (pubkey : String) (userId : Uuid) : Prop :=
  (lookup Wallet.pubkey pubkey v.wallets.rows).map Wallet.userId = some userId

/-- The queue keeps its pending jobs, and wallets their users. -/
structure NotifyKept (v v' : NotifyWorld) : Prop where
  pending : KeepsPending v.notifications.rows v'.notifications.rows
  holders : ∀ pubkey userId, v.Holder pubkey userId → v'.Holder pubkey userId

theorem NotifyKept.refl (v : NotifyWorld) : NotifyKept v v := ⟨.refl _, fun _ _ h => h⟩

theorem NotifyKept.trans (v₁ v₂ v₃ : NotifyWorld) (h : NotifyKept v₁ v₂) (h' : NotifyKept v₂ v₃) :
    NotifyKept v₁ v₃ :=
  ⟨h.pending.trans h'.pending, fun pubkey userId hholder =>
    h'.holders pubkey userId (h.holders pubkey userId hholder)⟩

/-- The operation reads the tables, writes the row of a job, or does nothing. -/
def NotifyOp.isSilent : NotifyOp → Bool
  | .sql _ => true
  | .utcNow => true
  | .decrypt .. => true
  | .takeUp _ => true
  | .finish _ => true
  | _ => false

/-- A step of a worker: it is silent, or delivers a job of the queue. -/
inductive Delivers : NotifyStep → Prop
  | silent {step : NotifyStep} : step.op.isSilent = true → Delivers step
  | pushed {v v' : NotifyWorld} {job : NotificationJob} {userId : Uuid} {delivered : Bool} :
      Queued v job → v.Holder job.recipientPubkey userId →
      Delivers ⟨v, .sendToUser userId (buildWsEvent job), delivered, v'⟩
  | mailed {v v' : NotifyWorld} {job : NotificationJob} {recipient : String}
      {event : NotificationEvent} {answer : Except Failure Unit} :
      Queued v job → NotificationEvent.ofType job.eventType = some event →
      Delivers ⟨v, .sendEmail recipient event job.agreementPda, answer, v'⟩

/-- A statement of the worker writes the queue only, and of a row no more than its attempts. -/
theorem tables_of_sql {s : NotifyStmt} {out : s.Out} {v v' : NotifyWorld}
    (h : performNotifySql s out v = some v') : v'.wallets = v.wallets ∧
      ∀ row ∈ v'.notifications.rows, ∃ n, { row with attempts := n } ∈ v.notifications.rows := by
  obtain ⟨haccepted, hexec⟩ := performNotifySql_eq_some.mp h
  cases s with
  | markSent now id =>
      rw [not_accepted_markSent] at haccepted
      cases haccepted
  | incrementAttempts id =>
      obtain ⟨-, hcommit⟩ := Option.ite_none_right_eq_some.mp hexec
      obtain ⟨notifications, hrows, rfl⟩ := Option.map_eq_some_iff.mp hcommit
      refine ⟨rfl, fun row hrow => ?_⟩
      rw [rows_of_commit hrows] at hrow
      obtain ⟨old, hold, rfl⟩ := mem_updateWhere.mp hrow
      refine ⟨old.attempts, ?_⟩
      split <;> exact hold
  | _ =>
      obtain ⟨-, rfl⟩ := provided_eq_some.mp hexec
      exact ⟨rfl, fun row hrow => ⟨row.attempts, hrow⟩⟩

theorem Delivers.tables {step : NotifyStep} (hvalid : step.Valid performNotify)
    (h : Delivers step) : step.post.wallets = step.pre.wallets ∧
      ∀ row ∈ step.post.notifications.rows,
        ∃ n, { row with attempts := n } ∈ step.pre.notifications.rows := by
  have hsame : ∀ v : NotifyWorld, ∀ row ∈ v.notifications.rows,
      ∃ n, { row with attempts := n } ∈ v.notifications.rows := fun v row hrow => ⟨_, hrow⟩
  -- the silent operations first, then the two ways of delivering
  cases h with
  | @silent step hsilent =>
      obtain ⟨v, op, answer, v'⟩ := step
      change performNotify op answer v = some v' at hvalid
      cases op with
      | sql s =>
          cases answer with
          | ok out => exact tables_of_sql hvalid
          | error f =>
              cases hvalid
              exact ⟨rfl, hsame v⟩
      | utcNow | decrypt | takeUp | finish =>
          cases hvalid
          exact ⟨rfl, hsame v⟩
      | _ => cases hsilent
  | @pushed v v' job userId delivered _ _ =>
      change performNotify (.sendToUser userId (buildWsEvent job)) delivered v = some v' at hvalid
      obtain ⟨-, rfl⟩ := provided_eq_some.mp hvalid
      exact ⟨rfl, hsame v⟩
  | @mailed v v' job recipient event answer _ _ =>
      change performNotify (.sendEmail recipient event job.agreementPda) answer
        v = some v' at hvalid
      cases answer <;>
      · obtain ⟨-, rfl⟩ := provided_eq_some.mp hvalid
        exact ⟨rfl, hsame _⟩

theorem Delivers.kept {step : NotifyStep} (hvalid : step.Valid performNotify)
    (h : Delivers step) : NotifyKept step.pre step.post := by
  refine ⟨(queueEffect_of_step hvalid).keepsPending, fun pubkey userId hholder => ?_⟩
  unfold NotifyWorld.Holder
  rwa [(h.tables hvalid).1]

section Worker

open NotificationWorker

variable {env : Env} {v : NotifyWorld} {job : NotificationJob}

/-- The program delivers jobs of the queue, while the others keep the queue and the holders. -/
abbrev Delivering {α : Type} (p : NotifyProgram α) (v : NotifyWorld) (Φ : α → NotifyWorld → Prop) :
    Prop :=
  Assures performNotify NotifyKept (fun _ => True)
    (fun step => step.Valid performNotify ∧ Delivers step) p v Φ

/-- A program keeps what it started with. -/
theorem Delivering.keeps {α : Type} {p : NotifyProgram α} {Φ : α → NotifyWorld → Prop}
    (h : Delivering p v Φ) : Delivering p v fun _ v' => NotifyKept v v' :=
  (h.related .refl .trans fun _ h => h.2.kept h.1).mono fun _ _ h => h.2

theorem Queued.kept {v' : NotifyWorld} (h : Queued v job) (hkept : NotifyKept v v') :
    Queued v' job :=
  h.of_keepsPending hkept.pending

end Worker

/-! ## What a participant does -/

/-- Agreements keep their parties, wallets their users, and the queue its pending jobs. -/
structure MessagingKept (w w' : MessagingWorld) : Prop where
  parties : PartiesKept w.backend w'.backend
  pending : KeepsPending w.backend.db.notifications.rows w'.backend.db.notifications.rows

theorem MessagingKept.refl (w : MessagingWorld) : MessagingKept w w := ⟨.refl _, .refl _⟩

theorem MessagingKept.trans (w₁ w₂ w₃ : MessagingWorld) (h : MessagingKept w₁ w₂)
    (h' : MessagingKept w₂ w₃) : MessagingKept w₁ w₃ :=
  ⟨h.parties.trans _ _ _ h'.parties, h.pending.trans h'.pending⟩

theorem MessagingKept.notify {w w' : MessagingWorld} (h : MessagingKept w w') :
    NotifyKept w.notify w'.notify :=
  ⟨h.pending, h.parties.holders⟩

/-- The operation is neither one of the backend nor one of a worker. -/
def MessagingOp.isAround : MessagingOp → Bool
  | .linkWallet _ => true
  | .writeContacts .. => true
  | .notify (.session action) => !action.isSend
  | .notify (.provider _) => true
  | _ => false

/-- What a participant does in a step. -/
inductive Participates (env : Env) :
    Participant → Step MessagingOp MessagingOp.Ans MessagingWorld → Prop
  | backend {actor : Actor} {op : Op} {answer : op.Ans} {w w' : MessagingWorld} :
      actor.Tells env ⟨w.backend, op, answer, w'.backend⟩ →
      Participates env (.backend actor) ⟨w, .backend op, answer, w'⟩
  | worker {cycles : ℕ} {op : NotifyOp} {answer : op.Ans} {w w' : MessagingWorld} :
      Delivers ⟨w.notify, op, answer, w'.notify⟩ →
      Participates env (.worker cycles) ⟨w, .notify op, answer, w'⟩
  /-- wallets are added, contacts change, a session or the provider takes a step -/
  | around {t : Participant} {step : Step MessagingOp MessagingOp.Ans MessagingWorld} :
      step.post.backend.db.parties = step.pre.backend.db.parties →
      step.post.backend.db.notifications = step.pre.backend.db.notifications →
      (∀ pubkey userId, step.pre.backend.Holder pubkey userId →
        step.post.backend.Holder pubkey userId) →
      step.op.isAround = true → Participates env t step

section Participants

variable {env : Env} {w w' : MessagingWorld}

variable {t : Participant} {step : Step MessagingOp MessagingOp.Ans MessagingWorld}

theorem Participates.kept (hvalid : step.Valid performMessaging) (h : Participates env t step) :
    MessagingKept step.pre step.post := by
  cases h with
  | @backend actor op answer w₁ w₂ htells =>
      refine ⟨partiesKept_step htells.valid, ?_⟩
      rcases notifications_of_backend htells.valid with hsame | ⟨s, id, -, hexec⟩
      · rw [show w₂.backend.db.notifications = w₁.backend.db.notifications from hsame]
        exact .refl _
      · obtain ⟨agreementPda, -, hrows⟩ := rows_of_insertion hexec
        rw [show w₂.backend.db.notifications.rows =
          w₁.backend.db.notifications.rows ++ _ from hrows]
        exact (QueueEffect.enqueued _ rfl).keepsPending
  | @worker cycles op answer w₁ w₂ hdelivers =>
      have hnotify : Step.Valid performNotify (⟨w₁.notify, op, answer, w₂.notify⟩ : NotifyStep) :=
        notifyMessaging.performs_lift hvalid
      have hkept := hdelivers.kept hnotify
      obtain ⟨v, -, hw₂⟩ := Option.map_eq_some_iff.mp (show Option.map _ _ = some w₂ from hvalid)
      refine ⟨⟨fun agreementPda party hparty => ?_, hkept.holders⟩, hkept.pending⟩
      rw [← hw₂]
      exact hparty
  | around hparties hnotifications hholders =>
      refine ⟨⟨fun agreementPda party hparty => ?_, hholders⟩, ?_⟩
      · unfold World.HasParty World.Says
        rwa [hparties]
      · rw [hnotifications]
        exact .refl _

/-- A party row says something new only if a statement of the backend records it. -/
theorem Participates.records (hvalid : step.Valid performMessaging) (h : Participates env t step)
    {happening : Happening} (hsaid : step.post.backend.Says happening) :
    step.pre.backend.Says happening ∨
      ∃ op, step.op = .backend op ∧ op.records = some happening := by
  cases h with
  | @backend actor op answer w₁ w₂ htells =>
      exact (says_step htells.valid hsaid).imp_right fun hrecords => ⟨op, rfl, hrecords⟩
  | @worker cycles op answer w₁ w₂ _ =>
      obtain ⟨v, -, hw₂⟩ := Option.map_eq_some_iff.mp (show Option.map _ _ = some w₂ from hvalid)
      rw [← hw₂] at hsaid
      exact Or.inl hsaid
  | around hparties =>
      unfold World.Says at hsaid
      rw [hparties] at hsaid
      exact Or.inl hsaid

/-- A row of the queue was there, up to its attempts, or is inserted by the backend. -/
theorem Participates.queue (hvalid : step.Valid performMessaging) (h : Participates env t step)
    {row : Notification} (hrow : row ∈ step.post.backend.db.notifications.rows) :
    (∃ n, { row with attempts := n } ∈ step.pre.backend.db.notifications.rows) ∨
      ∃ s : NotificationStmt, step.op = .backend (.sql (.notification s)) ∧
        row.eventType = s.eventType ∧ s.agreementPda = some row.agreementPda ∧
        row.recipientPubkey = s.recipientPubkey := by
  cases h with
  | @backend actor op answer w₁ w₂ htells =>
      rcases notifications_of_backend htells.valid with hsame | ⟨s, id, hexecutes, hexec⟩
      · rw [show w₂.backend.db.notifications = w₁.backend.db.notifications from hsame] at hrow
        exact Or.inl ⟨row.attempts, hrow⟩
      · obtain ⟨agreementPda, hpda, hrows⟩ := rows_of_insertion hexec
        rw [show w₂.backend.db.notifications.rows =
          w₁.backend.db.notifications.rows ++ _ from hrows] at hrow
        rcases List.mem_append.mp hrow with hrow | hrow
        · exact Or.inl ⟨row.attempts, hrow⟩
        · rw [List.mem_singleton.mp hrow]
          have hop : op = .sql (.notification s) := congrArg Step.op hexecutes
          exact Or.inr ⟨s, congrArg MessagingOp.backend hop, rfl, hpda, rfl⟩
  | @worker cycles op answer w₁ w₂ hdelivers =>
      have hnotify : Step.Valid performNotify (⟨w₁.notify, op, answer, w₂.notify⟩ : NotifyStep) :=
        notifyMessaging.performs_lift hvalid
      exact Or.inl ((hdelivers.tables hnotify).2 row hrow)
  | around _ hnotifications =>
      rw [hnotifications] at hrow
      exact Or.inl ⟨row.attempts, hrow⟩

end Participants

end PactumCodex
