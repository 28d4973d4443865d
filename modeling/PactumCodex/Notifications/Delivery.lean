import PactumCodex.Notifications.Queue
import PactumCodex.Notifications.Replay

/-!
# Deliveries

When a worker delivers a job, when it delivers it again, and when it gives a job up
without having delivered it.

* Since nothing takes a pending job out of the queue, a delivered job is fetched by
  every later cycle that has room for it (`FetchesAgain`), and delivered in each of
  them in which its recipient is in reach (`delivered_once_iff`).
* The worker calls `mark_sent` for a job that it could not deliver where no user was
  answered, or no email decrypted for a user who is not connected
  (`marks_reached_iff`).
-/

namespace PactumCodex

open Interaction Relational

/-! ## Reaching a recipient -/

/-- The session registered for the user is in its loop. -/
def Ws.State.Listens (state : Ws.State) (userId : Uuid) : Prop :=
  ∃ s session, state.channels userId = some s ∧ state.sessions s = some session ∧
    session.phase = .receiving

theorem Ws.sendToUser_delivers {userId : Uuid} {event : WsEvent} {state : Ws.State} :
    (Ws.sendToUser userId event state).1 = true ↔ state.Listens userId := by
  unfold Ws.sendToUser Ws.State.Listens
  cases hchannel : state.channels userId with
  | none => simp
  | some s =>
      cases hsession : state.sessions s with
      | none => simp [hsession]
      | some session => by_cases hphase : session.phase = .receiving <;> simp [hsession, hphase]

namespace NotifyOp

/-- The operation was answered as a delivery. -/
def delivered : (op : NotifyOp) → op.Ans → Bool
  | .sendToUser .., delivered => delivered
  | .sendEmail .., .ok _ => true
  | _, _ => false

/-- The operation delivers to a recipient that is in reach: the user answered has a session in its
loop, or the provider takes mail for the email decrypted. -/
def Reaches (phase : NotifyPhase) (w : NotifyWorld) : NotifyOp → Prop
  | .sendToUser .. => ∃ userId, phase.user = some userId ∧ w.ws.Listens userId
  | .sendEmail .. => ∃ email, phase.email = some email ∧ email ∈ w.mailable
  | _ => False

theorem delivered_iff {phase : NotifyPhase} {op : NotifyOp} {answer : op.Ans} {w w' : NotifyWorld}
    (h : performNotify op answer w = some w') (hallowed : phase.Allows op) :
    op.delivered answer = true ↔ op.Reaches phase w := by
  cases op with
  | sendToUser userId event =>
      obtain ⟨job, -, -, huser, -⟩ := hallowed
      obtain ⟨hanswer, -⟩ := provided_eq_some.mp h
      calc answer = true
          ↔ (Ws.sendToUser userId event w.ws).1 = true := by rw [hanswer]
        _ ↔ w.ws.Listens userId := Ws.sendToUser_delivers
        _ ↔ ∃ found, phase.user = some found ∧ w.ws.Listens found := by simp [huser]
  | sendEmail recipient event agreementPda =>
      obtain ⟨job, -, -, hemail, -⟩ := hallowed
      have hreaches : (NotifyOp.sendEmail recipient event agreementPda).Reaches phase w ↔
          recipient ∈ w.mailable := by simp [Reaches, hemail]
      rw [hreaches]
      cases answer with
      | ok out => exact iff_of_true rfl (provided_eq_some.mp h).1
      | error e => exact iff_of_false Bool.false_ne_true (provided_eq_some.mp h).1
  | _ => exact iff_of_false Bool.false_ne_true id

end NotifyOp

/-! ## Deliveries of a history -/

/-- The delivery of a job by a worker in one of its cycles. -/
structure Delivery where
  worker : ℕ
  cycle : ℕ
  job : Uuid
  deriving DecidableEq

/-- The delivery that an event makes. -/
def delivery (past : List NotifyEvent) : NotifyEvent → Option Delivery
  | .ran i step =>
      if step.op.delivered step.ans then
        (notifyPhase i past).job.map fun job => ⟨i, (notifyPhase i past).cycle, job.id⟩
      else none
  | .stopped _ => none

/-- All deliveries of a history, in their order. -/
abbrev deliveries (events : List NotifyEvent) : List Delivery := collect delivery events

/-- If both are deliveries of one job, they belong to one cycle. -/
def Delivery.Together (d d' : Delivery) : Prop :=
  d.job = d'.job → d.worker = d'.worker ∧ d.cycle = d'.cycle

instance deliveryTogetherDecidable : DecidableRel Delivery.Together :=
  fun d d' => inferInstanceAs
    (Decidable (d.job = d'.job → d.worker = d'.worker ∧ d.cycle = d'.cycle))

/-- No job is delivered in two cycles. -/
def DeliveredOnce (events : List NotifyEvent) : Prop :=
  (deliveries events).Pairwise Delivery.Together

instance deliveredOnceDecidable : DecidablePred DeliveredOnce :=
  fun events => inferInstanceAs (Decidable ((deliveries events).Pairwise Delivery.Together))

/-- A fetch returns the jobs that were delivered before, all those that are due: at most those are
missing that are due no sooner than the ten it returns. -/
def FetchesAgain (past : List NotifyEvent) (event : NotifyEvent) : Prop :=
  ∀ i v now limit rows v', event = .ran i ⟨v, .sql (.fetchPending now limit), .ok rows, v'⟩ →
    ∀ d ∈ deliveries past, ∃ row ∈ v.notifications.rows, row.id = d.job ∧ row.status = .pending ∧
      (row ∈ rows ∨ now < row.scheduledAt ∨
        rows.length = 10 ∧ ∀ other ∈ rows, other.scheduledAt ≤ row.scheduledAt)

/-- If the event is an attempt to deliver a job that was delivered in another cycle, its recipient
is out of reach. -/
def OutOfReach (past : List NotifyEvent) (event : NotifyEvent) : Prop :=
  ∀ i step job, event = .ran i step → (notifyPhase i past).job = some job →
    (∃ d ∈ deliveries past, ¬ d.Together ⟨i, (notifyPhase i past).cycle, job.id⟩) →
    ¬ step.op.Reaches (notifyPhase i past) step.pre

section Histories

variable {env : Env} {w : NotifyWorld} {events before after : List NotifyEvent}
variable {pool : Pool NotifyOp NotifyOp.Ans NotifyWorld} {i : ℕ}

/-- A delivery is made by a worker that has fetched the job. -/
theorem fetched_of_delivery (h : NotifyHistory env ⟨w, []⟩ events pool) {event : NotifyEvent}
    {d : Delivery} (hevents : events = before ++ event :: after)
    (hd : delivery before event = some d) :
    ∃ step, event = .ran d.worker step ∧ step.op.Reaches (notifyPhase d.worker before) step.pre ∧
      ∃ job ∈ (notifyPhase d.worker before).jobs, (notifyPhase d.worker before).job = some job ∧
        d = ⟨d.worker, (notifyPhase d.worker before).cycle, job.id⟩ := by
  cases event with
  | stopped i => cases hd
  | ran i step =>
      obtain ⟨hdelivered, hmap⟩ := Option.ite_none_right_eq_some.mp hd
      obtain ⟨job, hjob, rfl⟩ := Option.map_eq_some_iff.mp hmap
      have hallowed := notifyHistory_allowed h hevents
      subst hevents
      obtain ⟨v, op, answer, v'⟩ := step
      have hreaches := (NotifyOp.delivered_iff h.at_step.1 hallowed).mp hdelivered
      refine ⟨_, rfl, hreaches, job, ?_, hjob, rfl⟩
      cases op with
      | sendToUser userId event =>
          obtain ⟨job', hmem, hjob', -⟩ := hallowed
          rwa [Option.some.inj (hjob.symm.trans hjob')]
      | sendEmail recipient event agreementPda =>
          obtain ⟨job', hmem, hjob', -⟩ := hallowed
          rwa [Option.some.inj (hjob.symm.trans hjob')]
      | _ => exact hreaches.elim

/-- **A delivered job stays in the queue.** -/
theorem queued_of_delivered (h : NotifyHistory env ⟨w, []⟩ events pool) {d : Delivery}
    (hd : d ∈ deliveries events) :
    ∃ row ∈ pool.world.notifications.rows, row.id = d.job ∧ row.status = .pending := by
  obtain ⟨before, event, after, rfl, hdelivery⟩ := mem_collect.mp hd
  obtain ⟨step, rfl, -, job, hmem, -, hd⟩ := fetched_of_delivery h rfl hdelivery
  obtain ⟨threads, hpast⟩ := h.of_append
  obtain ⟨row, hrow, hstatus, hjob⟩ :=
    (queued_of_fetched hpast hmem).of_keepsPending (notifyHistory_keepsPending h)
  refine ⟨row, hrow, ?_, hstatus⟩
  calc row.id = row.job.id := rfl
    _ = job.id := by rw [hjob]
    _ = d.job := by rw [hd]

/-- A fetch misses a pending row only if it is not due yet, or if ten others are due. -/
theorem fetch_misses {v v' : NotifyWorld} {now : ℤ} {rows : List Notification} {row : Notification}
    (h : performNotify (.sql (.fetchPending now 10)) (.ok rows) v = some v')
    (hrow : row ∈ v.notifications.rows) (hpending : row.status = .pending) :
    row ∈ rows ∨ now < row.scheduledAt ∨
      rows.length = 10 ∧ ∀ other ∈ rows, other.scheduledAt ≤ row.scheduledAt := by
  obtain ⟨-, hexec⟩ := performNotifySql_eq_some.mp h
  obtain ⟨htop, -⟩ := provided_eq_some.mp hexec
  by_cases hdue : row.scheduledAt ≤ now
  · by_cases hmem : row ∈ rows
    · exact Or.inl hmem
    · right; right
      refine htop.of_notMem (List.mem_filter.mpr ⟨hrow, ?_⟩) hmem
      exact decide_eq_true ⟨hpending, hdue⟩
  · exact Or.inr (Or.inl (not_le.mp hdue))

theorem fetchesAgain (h : NotifyHistory env ⟨w, []⟩ events pool) : Meets FetchesAgain events := by
  rintro before _ after rfl i v now limit rows v' rfl d hd
  obtain ⟨hvalid, threads, hpast⟩ := h.at_step
  obtain rfl : limit = 10 := notifyHistory_allowed h rfl
  obtain ⟨row, hrow, hid, hpending⟩ := queued_of_delivered hpast hd
  exact ⟨row, hrow, hid, hpending, fetch_misses hvalid hrow hpending⟩

/-- **A delivered job is delivered again** by every cycle that takes it up while its recipient is in
reach; and every later fetch finds it pending, and returns it if it is due and there is room. -/
theorem delivered_once_iff (h : NotifyHistory env ⟨w, []⟩ events pool) :
    Meets FetchesAgain events ∧ (DeliveredOnce events ↔ Meets OutOfReach events) := by
  refine ⟨fetchesAgain h, ?_⟩
  rw [DeliveredOnce, pairwise_collect]
  constructor
  · -- an attempt at a recipient in reach would be the second delivery
    rintro honce before _ after rfl i step job rfl hjob ⟨d, hd, hapart⟩ hreaches
    have hallowed := notifyHistory_allowed h rfl
    have hdelivered := (NotifyOp.delivered_iff h.at_step.1 hallowed).mpr hreaches
    refine hapart (honce before _ after rfl _ ?_ d hd)
    show (if step.op.delivered step.ans then _ else _) = _
    rw [if_pos hdelivered, hjob]
    rfl
  · rintro hout before event after rfl d hdelivery d' hd'
    obtain ⟨step, rfl, hreaches, job, -, hjob, hd⟩ := fetched_of_delivery h rfl hdelivery
    by_contra hapart
    rw [hd] at hapart
    exact hout before _ after rfl d.worker step job rfl hjob ⟨d', hd', hapart⟩ hreaches

end Histories

/-- The user stays connected, and gets the event in both cycles. -/
theorem one_job_twice :
    ¬ ∀ (env : Env) (events : List NotifyEvent) (pool : Pool NotifyOp NotifyOp.Ans NotifyWorld),
      NotifyHistory env ⟨NotifyWorld.empty, []⟩ events pool → events.all failsUnaccepted = true →
      DeliveredOnce events := by
  intro hclaim
  obtain ⟨events, pool, hhistory, htest⟩ := notifyHistory_of_moves
    [(0, 1), (1, 1), (3, 1), (4, 1), (2, 16)]
    (fun events => events.all failsUnaccepted && decide (¬ DeliveredOnce events))
    oneJob_entries (by decide +kernel)
  obtain ⟨hfails, htwice⟩ := Bool.and_eq_true_iff.mp htest
  exact of_decide_eq_true htwice (hclaim sampleEnv events pool hhistory hfails)

/-- The user leaves after the first cycle. -/
theorem delivered_once_iff_leaving : ∃ events pool,
    NotifyHistory sampleEnv ⟨NotifyWorld.empty, []⟩ events pool ∧ (deliveries events).length = 1 ∧
    Meets FetchesAgain events ∧ (DeliveredOnce events ↔ Meets OutOfReach events) := by
  obtain ⟨events, pool, hhistory, htest⟩ := notifyHistory_of_moves
    [(0, 1), (1, 1), (3, 1), (4, 1), (2, 11), (5, 1), (6, 1), (2, 11)]
    (fun events => decide ((deliveries events).length = 1)) oneJob_entries (by decide +kernel)
  exact ⟨events, pool, hhistory, of_decide_eq_true htest, delivered_once_iff hhistory⟩

/-! ## Jobs that are given up -/

/-- The worker has called `mark_sent` for the job only if the recipient was reached, and otherwise
the job is pending. -/
def MarksReached (phase : NotifyPhase) (job : NotificationJob) (w : NotifyWorld) : Prop :=
  (phase.marked = true → phase.Reached) ∧ (¬ phase.Reached → Queued w job)

/-- The database has answered the user of the job, and either the event was sent to this user, or an
email was decrypted. -/
def NotifyPhase.Resolved (phase : NotifyPhase) : Prop :=
  phase.user ≠ none ∧ (phase.pushed = true ∨ phase.email ≠ none)

/-- **A job is marked as sent without a delivery** exactly if the database has not answered its
user, or if the event was not sent to this user and no email was decrypted. -/
theorem marks_reached_iff {env : Env} {w v v' : NotifyWorld}
    {events before after : List NotifyEvent}
    {pool : Pool NotifyOp NotifyOp.Ans NotifyWorld} {i : ℕ} {job : NotificationJob}
    (h : NotifyHistory env ⟨w, []⟩ events pool)
    (hevents : events = before ++ .ran i ⟨v, .finish job, (), v'⟩ :: after) :
    MarksReached (notifyPhase i before) job v ↔ (notifyPhase i before).Resolved := by
  obtain ⟨hmem, -, hsettled⟩ := notifyHistory_allowed h hevents
  subst hevents
  obtain ⟨-, threads, hpast⟩ := h.at_step
  constructor
  · rintro ⟨hmarks, -⟩
    have huser : (notifyPhase i before).user ≠ none := by
      intro hnone
      obtain ⟨hmarked, hnot⟩ := hsettled.no_user hnone
      exact hnot (hmarks hmarked)
    refine ⟨huser, ?_⟩
    -- without an address the job is marked and no email was sent
    by_cases hemail : (notifyPhase i before).email = none
    · obtain ⟨hmarked, hmailed⟩ := hsettled.no_email huser hemail
      rcases hmarks hmarked with hpushed | hmailed'
      · exact Or.inl hpushed
      · exact nomatch hmailed.symm.trans hmailed'
    · exact Or.inr hemail
  · rintro ⟨huser, hreach⟩
    refine ⟨fun hmarked => ?_, fun _ => queued_of_fetched hpast hmem⟩
    by_cases hemail : (notifyPhase i before).email = none
    · exact Or.inl (hreach.resolve_right fun hsome => hsome hemail)
    · exact hsettled.addressed huser hemail hmarked

/-- The user is never connected and has no email: the job is marked as sent. -/
theorem undelivered_job_marked :
    ¬ ∀ (env : Env) (events before after : List NotifyEvent)
        (pool : Pool NotifyOp NotifyOp.Ans NotifyWorld) (i : ℕ) (v v' : NotifyWorld)
        (job : NotificationJob),
      NotifyHistory env ⟨NotifyWorld.empty, []⟩ events pool → events.all failsUnaccepted = true →
      events = before ++ .ran i ⟨v, .finish job, (), v'⟩ :: after →
      (∃ row ∈ v.wallets.rows, row.pubkey = job.recipientPubkey) →
      MarksReached (notifyPhase i before) job v := by
  intro hclaim
  obtain ⟨events, pool, hhistory, htest⟩ := notifyHistory_of_moves
    [(0, 1), (1, 1), (2, 11)]
    (fun events => events.all failsUnaccepted && !(collect (finished fun phase v job =>
      phase.marked && !phase.pushed && !phase.mailed &&
        decide (∃ row ∈ v.wallets.rows, row.pubkey = job.recipientPubkey)) events).isEmpty)
    oneJob_entries (by decide +kernel)
  obtain ⟨hfails, hfinished⟩ := Bool.and_eq_true_iff.mp htest
  rw [Bool.not_eq_true'] at hfinished
  obtain ⟨before, i, v, job, v', after, hevents, hphase⟩ := exists_finished hfinished
  simp only [Bool.and_eq_true, Bool.not_eq_true', decide_eq_true_eq] at hphase
  obtain ⟨⟨⟨hmarked, hpushed⟩, hmailed⟩, hlinked⟩ := hphase
  obtain ⟨hmarks, -⟩ := hclaim sampleEnv events before after pool i v v' job hhistory hfails hevents
    hlinked
  rcases hmarks hmarked with h | h
  · exact nomatch hpushed.symm.trans h
  · exact nomatch hmailed.symm.trans h

/-- The user is connected. -/
theorem marks_reached_iff_connected : ∃ events pool before i v job v' after,
    NotifyHistory sampleEnv ⟨NotifyWorld.empty, []⟩ events pool ∧
    events = before ++ .ran i ⟨v, .finish job, (), v'⟩ :: after ∧
    (notifyPhase i before).pushed = true ∧
    (MarksReached (notifyPhase i before) job v ↔ (notifyPhase i before).Resolved) := by
  obtain ⟨events, pool, hhistory, htest⟩ := notifyHistory_of_moves
    [(0, 1), (1, 1), (3, 1), (4, 1), (2, 11)]
    (fun events => !(collect (finished fun phase _ _ => phase.pushed) events).isEmpty)
    oneJob_entries (by decide +kernel)
  rw [Bool.not_eq_true'] at htest
  obtain ⟨before, i, v, job, v', after, hevents, hpushed⟩ := exists_finished htest
  exact ⟨events, pool, before, i, v, job, v', after, hhistory, hevents, hpushed,
    marks_reached_iff hhistory hevents⟩

end PactumCodex
