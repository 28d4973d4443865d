import PactumCodex.Notifications.Participants
import PactumCodex.Notifications.Replay

/-!
# Why a client is told

A notification waits in the queue because it did at the start, or because an
acceptance or an event that was detected has led to it (`Justified`).  What a worker
delivers waits in the queue, and what the backend pushes is what it queues as well,
so whatever is written to a client in a run goes back to the start of the run, to an
acceptance, or to an event that was detected in the run.

## Strategy

`Known` is what a run has established before a step: every party row goes back to
the start or to a detected event, and every notification in the queue is justified.  A
step keeps it (`Known.next`), since the backend queues only what it has a reason
for and workers add nothing to the queue.

Before each step that sends an event or a mail, `Known` gives the reason
(`Known.told`, `Known.mailed`).  Reasons only get more as the run goes on, and holders
of wallets stay, so they are still reasons at its end.  That an event which was
written to a client was sent to its user is taken from the delivery of sessions.
-/

namespace PactumCodex

open Interaction Relational

/-! ## Reasons -/

/-- Why a notification of this type, about this agreement or draft, waits for this recipient: it did
at the start, an invitation was accepted, or an event was detected that is told to its parties. -/
inductive Justified (env : Env) (w : MessagingWorld) (steps : List ActorStep) :
    String → String → String → Prop
  | stored (row : Notification) : row ∈ w.backend.db.notifications.rows →
      Justified env w steps row.eventType row.agreementPda row.recipientPubkey
  | ready (agreementPda recipient : String) :
      (∃ step ∈ steps, ∃ auth token, step.op.1 = .invocation (.acceptInvite auth token)) →
      Justified env w steps "DraftReadyToSubmit" agreementPda recipient
  | reported (event : ParsedEvent) (eventType recipient : String) : Detected env event steps →
      eventType ∈ event.instruction.eventTypes →
      KnownParty env w.backend steps event.agreementPda recipient ∨
        event.instruction = .voteRevoke ∧ recipient = event.signer.getD "unknown" →
      Justified env w steps eventType event.agreementPda recipient

/-- The user is told what a notification tells that waits for a wallet of the user, or would; or
else that a draft is ready. -/
inductive ToldWithReason (env : Env) (w : MessagingWorld) (steps : List ActorStep) (v : World)
    (userId : Uuid) : WsEvent → Prop
  | notified (job : NotificationJob) (agreementPda : String) :
      job.agreementPda = some agreementPda →
      Justified env w steps job.eventType agreementPda job.recipientPubkey →
      v.Holder job.recipientPubkey userId → ToldWithReason env w steps v userId (buildWsEvent job)
  | ready (text : String) :
      (∃ step ∈ steps, ∃ auth token, step.op.1 = .invocation (.acceptInvite auth token)) →
      ToldWithReason env w steps v userId (.draftReady text)

section Reasons

variable {env : Env} {w w' : MessagingWorld} {steps : List ActorStep}

theorem KnownParty.append {v : World} {agreementPda party : String}
    (h : KnownParty env v steps agreementPda party) (later : List ActorStep) :
    KnownParty env v (steps ++ later) agreementPda party := by
  obtain ⟨creator, hknown⟩ := h
  exact ⟨creator, hknown.imp_right fun h => h.append later⟩

theorem Justified.append {eventType agreementPda recipient : String}
    (h : Justified env w steps eventType agreementPda recipient) (later : List ActorStep) :
    Justified env w (steps ++ later) eventType agreementPda recipient := by
  cases h with
  | stored row hrow => exact .stored row hrow
  | ready _ _ haccepted =>
      obtain ⟨step, hmem, haccepts⟩ := haccepted
      exact .ready _ _ ⟨step, List.mem_append_left _ hmem, haccepts⟩
  | reported event _ _ hdetected htype hrecipient =>
      exact .reported event _ _ (hdetected.append later) htype
        (hrecipient.imp_left fun h => h.append later)

theorem ToldWithReason.append {v : World} {userId : Uuid} {wsEvent : WsEvent}
    (h : ToldWithReason env w steps v userId wsEvent) (later : List ActorStep) {v' : World}
    (hkept : PartiesKept v v') : ToldWithReason env w (steps ++ later) v' userId wsEvent := by
  cases h with
  | notified job agreementPda hpda hjustified hholder =>
      exact .notified job agreementPda hpda (hjustified.append later) (hkept.holders _ _ hholder)
  | ready text haccepted =>
      obtain ⟨step, hmem, haccepts⟩ := haccepted
      exact .ready text ⟨step, List.mem_append_left _ hmem, haccepts⟩

/-- What is known after some steps of a run that started in `w`. -/
structure Known (env : Env) (w : MessagingWorld) (past : List MessagingStep) (v : MessagingWorld) :
    Prop where
  recorded : ∀ happening, v.backend.Says happening →
    w.backend.Says happening ∨ ReportedBy env happening (actorSteps past)
  queue : ∀ row ∈ v.backend.db.notifications.rows,
    Justified env w (actorSteps past) row.eventType row.agreementPda row.recipientPubkey

variable {past : List MessagingStep} {v : MessagingWorld}

theorem Known.party (h : Known env w past v) {agreementPda party : String}
    (hparty : v.backend.HasParty agreementPda party) :
    KnownParty env w.backend (actorSteps past) agreementPda party := by
  obtain ⟨creator, hsaid⟩ := hparty
  exact ⟨creator, h.recorded _ hsaid⟩

theorem Known.queued (h : Known env w past v) {job : NotificationJob}
    (hqueued : Queued v.notify job) :
    ∃ agreementPda, job.agreementPda = some agreementPda ∧
      Justified env w (actorSteps past) job.eventType agreementPda job.recipientPubkey := by
  obtain ⟨row, hrow, -, hjob⟩ := hqueued
  have hjustified := h.queue row hrow
  have heventType : row.eventType = job.eventType := congrArg NotificationJob.eventType hjob
  have hrecipient : row.recipientPubkey = job.recipientPubkey :=
    congrArg NotificationJob.recipientPubkey hjob
  rw [heventType, hrecipient] at hjustified
  exact ⟨row.agreementPda, (congrArg NotificationJob.agreementPda hjob).symm, hjustified⟩

theorem actorSteps_snoc (past : List MessagingStep) (step : MessagingStep) :
    actorSteps (past ++ [step]) = actorSteps past ++ step.actorStep?.toList :=
  filterMap_snoc _ past step

theorem actorSteps_snoc_backend {w₁ w₂ : MessagingWorld} {actor : Actor} {op : Op}
    {answer : op.Ans} :
    actorSteps (past ++ [⟨w₁, (.backend actor, .backend op), answer, w₂⟩]) =
      actorSteps past ++ [⟨w₁.backend, (actor, op), answer, w₂.backend⟩] :=
  actorSteps_snoc past _

/-- A notification of the backend is justified. -/
theorem Known.enqueued (h : Known env w past v) {actor : Actor} {s : NotificationStmt}
    {answer : Except Failure Uuid} {v' : MessagingWorld} {agreementPda : String}
    (htells : actor.Tells env ⟨v.backend, .sql (.notification s), answer, v'.backend⟩)
    (hpda : s.agreementPda = some agreementPda) :
    Justified env w
      (actorSteps (past ++ [⟨v, (.backend actor, .backend (.sql (.notification s))), answer, v'⟩]))
      s.eventType agreementPda s.recipientPubkey := by
  rw [actorSteps_snoc_backend]
  have hlast : ∀ step : ActorStep, step ∈ actorSteps past ++ [step] :=
    fun _ => List.mem_append_right _ (List.mem_singleton_self _)
  rcases htells.tells rfl with ⟨response, event, rfl, hdetected, htold⟩ | ⟨auth, token, rfl, hready⟩
  · obtain ⟨htype, hpda', hrecipient⟩ := htold.queued s rfl
    obtain rfl : event.agreementPda = agreementPda := Option.some.inj (hpda'.symm.trans hpda)
    refine .reported event _ _ ⟨_, hlast _, response, rfl, hdetected⟩ htype ?_
    exact hrecipient.imp_left fun hparty => (h.party hparty).append _
  · rw [show s.eventType = "DraftReadyToSubmit" from of_decide_eq_true hready]
    exact .ready _ _ ⟨_, hlast _, auth, token, rfl⟩

/-- **Step lemma.** -/
theorem Known.next {step : MessagingStep} (h : Known env w past step.pre)
    (hvalid : step.untag.Valid performMessaging)
    (hparticipates : Participates env step.op.1 step.untag)
    (hrecords : ∀ actor op, step.op = (.backend actor, .backend op) →
      op.RecordsOnly (actor.Reports env)) : Known env w (past ++ [step]) step.post := by
  constructor
  · intro happening hsaid
    rcases hparticipates.records hvalid hsaid with hold | ⟨op, hop, hnew⟩
    · rw [actorSteps_snoc]
      exact (h.recorded _ hold).imp_right fun h => h.append _
    · obtain ⟨w₁, ⟨t, op'⟩, answer, w₂⟩ := step
      obtain rfl : op' = .backend op := hop
      cases hparticipates with
      | @backend actor _ _ _ _ _ =>
          obtain ⟨response, event, rfl, hdetected, hreports⟩ := hrecords actor op rfl happening hnew
          rw [actorSteps_snoc_backend]
          exact Or.inr ⟨event,
            ⟨_, List.mem_append_right _ (List.mem_singleton_self _), response, rfl,
            hdetected⟩, hreports⟩
      | around _ _ _ haround => cases haround
  · intro row hrow
    rcases hparticipates.queue hvalid hrow with ⟨n, hold⟩ | ⟨s, hop, heventType, hpda, hrecipient⟩
    · rw [actorSteps_snoc]
      exact (h.queue _ hold).append _
    · rw [heventType, hrecipient]
      obtain ⟨w₁, ⟨t, op'⟩, answer, w₂⟩ := step
      obtain rfl : op' = .backend (.sql (.notification s)) := hop
      cases hparticipates with
      | backend htells => exact h.enqueued htells hpda
      | around _ _ _ haround => cases haround

/-- A step that sends a mail sends it for a justified notification. -/
theorem Known.mailed {step : MessagingStep} (h : Known env w past step.pre)
    (hparticipates : Participates env step.op.1 step.untag) {recipient : String}
    {event : NotificationEvent} {agreementPda : Option String}
    (hmails : step.op.2 = .notify (.sendEmail recipient event agreementPda)) :
    ∃ eventType pda recipientPubkey,
      Justified env w (actorSteps past) eventType pda recipientPubkey ∧
      NotificationEvent.ofType eventType = some event ∧ agreementPda = some pda := by
  obtain ⟨w₁, ⟨t, op⟩, answer, w₂⟩ := step
  obtain rfl : op = .notify (.sendEmail recipient event agreementPda) := hmails
  cases hparticipates with
  | worker hdelivers =>
      cases hdelivers with
      | silent hsilent => cases hsilent
      | @mailed _ _ job _ _ _ hqueued hevent =>
          obtain ⟨pda, hpda, hjustified⟩ := h.queued hqueued
          exact ⟨job.eventType, pda, job.recipientPubkey, hjustified, hevent, hpda⟩
  | around _ _ _ haround => cases haround

/-- What a participant may record. -/
def Participant.MayRecord (env : Env) (t : Participant) (op : MessagingOp) : Prop :=
  ∀ actor op', t = .backend actor → op = .backend op' → op'.RecordsOnly (actor.Reports env)

theorem Participant.records (env : Env) (t : Participant) :
    (t.program env).Issues (t.MayRecord env) := by
  have hother : ∀ {op}, (∀ actor, t ≠ .backend actor) → t.MayRecord env op :=
    fun hne actor _ hactor => absurd hactor (hne actor)
  cases t with
  | backend actor =>
      refine issues_embed ((actor.records env).mono fun op hrecords => ?_)
      rintro actor' op' ⟨⟩ ⟨⟩
      exact hrecords
  | worker cycles => exact issues_embed (Program.issues_of_forall _ fun _ => hother nofun)
  | _ => exact ⟨hother nofun, fun _ => trivial⟩

end Reasons

end PactumCodex
