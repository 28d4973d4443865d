import PactumCodex.Notifications.Runs

/-!
# The notification queue

A step counts an attempt, inserts a pending job, or leaves the queue alone
(`queueEffect_of_step`): the `UPDATE` of `mark_sent` names the column `sent_at`,
which `notification_queue` does not have, so it is never executed.  A pending job
therefore stays pending in every history (`History.keepsPending`), and so do the jobs
that a worker has fetched (`queued_of_fetched`).

The rest of the backend does to the queue what `enqueue` does (`enqueue_of_backend`).
-/

namespace PactumCodex

open Interaction Relational

/-! ## Effects on the queue -/

/-- What a step can do to the rows of the queue. -/
inductive QueueEffect (rows : List Notification) : List Notification → Prop
  | same : QueueEffect rows rows
  | counted (id : Uuid) : QueueEffect rows
      (updateWhere (·.id = id) (fun row => { row with attempts := row.attempts + 1 }) rows)
  | enqueued (row : Notification) : row.status = .pending → QueueEffect rows (rows ++ [row])

/-- The table has no column `sent_at`. -/
theorem not_accepted_markSent (now : ℤ) (id : Uuid) :
    (NotifyStmt.markSent now id).accepted = false := by
  show (["status", "sent_at", "id"].all fun column =>
    column ∈ NotifyTable.notificationQueue.columns) = false
  decide

theorem performNotifySql_eq_some {s : NotifyStmt} {out : s.Out} {w w' : NotifyWorld} :
    performNotifySql s out w = some w' ↔ s.accepted = true ∧ s.exec out w = some w' :=
  Option.ite_none_right_eq_some

theorem queueEffect_of_sql {s : NotifyStmt} {out : s.Out} {w w' : NotifyWorld}
    (h : performNotifySql s out w = some w') :
    QueueEffect w.notifications.rows w'.notifications.rows := by
  obtain ⟨haccepted, hexec⟩ := performNotifySql_eq_some.mp h
  cases s with
  | markSent now id =>
      -- the column that it sets does not exist
      rw [not_accepted_markSent] at haccepted
      cases haccepted
  | incrementAttempts id =>
      obtain ⟨-, hcommit⟩ := Option.ite_none_right_eq_some.mp hexec
      obtain ⟨notifications, hrows, rfl⟩ := Option.map_eq_some_iff.mp hcommit
      rw [rows_of_commit hrows]
      exact .counted id
  | _ =>
      obtain ⟨-, rfl⟩ := provided_eq_some.mp hexec
      exact .same

/-- The row that an insertion adds. -/
theorem rows_of_insertion {s : NotificationStmt} {id : Uuid} {db : Db}
    {notifications : Table Notification NotificationsValid}
    (h : s.exec id db = some notifications) : ∃ agreementPda, s.agreementPda = some agreementPda ∧
      notifications.rows = db.notifications.rows ++
        [⟨id, s.eventType, agreementPda, s.recipientPubkey, .pending, 0, s.scheduledAt⟩] := by
  unfold NotificationStmt.exec at h
  split at h
  · cases h
  · rename_i agreementPda hpda
    exact ⟨agreementPda, hpda, rows_of_commit h⟩

theorem queueEffect_of_enqueue {s : NotificationStmt} {id : Uuid} {w w' : NotifyWorld}
    (h : performEnqueue s id w = some w') :
    QueueEffect w.notifications.rows w'.notifications.rows := by
  obtain ⟨notifications, hexec, rfl⟩ := Option.map_eq_some_iff.mp h
  obtain ⟨agreementPda, -, hrows⟩ := rows_of_insertion hexec
  rw [show notifications.rows = w.notifications.rows ++ _ from hrows]
  exact .enqueued _ rfl

theorem queueEffect_of_step {step : NotifyStep} (h : step.Valid performNotify) :
    QueueEffect step.pre.notifications.rows step.post.notifications.rows := by
  obtain ⟨w, op, answer, w'⟩ := step
  change performNotify op answer w = some w' at h
  cases op with
  | sql s =>
      cases answer with
      | ok out => exact queueEffect_of_sql h
      | error e =>
          obtain rfl := Option.some.inj h
          exact .same
  | sendToUser userId event =>
      obtain ⟨-, rfl⟩ := provided_eq_some.mp h
      exact .same
  | sendEmail recipient event agreementPda =>
      cases answer <;>
      · obtain ⟨-, rfl⟩ := provided_eq_some.mp h
        exact .same
  | enqueue s => exact queueEffect_of_enqueue h
  | session action =>
      obtain ⟨ws, -, rfl⟩ := Option.map_eq_some_iff.mp h
      exact .same
  | _ =>
      obtain rfl := Option.some.inj h
      exact .same

/-! ## Pending jobs -/

/-- Pending rows stay, up to their number of attempts. -/
def KeepsPending (rows rows' : List Notification) : Prop :=
  ∀ row ∈ rows, row.status = .pending → ∃ n, { row with attempts := n } ∈ rows'

theorem KeepsPending.refl (rows : List Notification) : KeepsPending rows rows :=
  fun row hrow _ => ⟨row.attempts, hrow⟩

theorem KeepsPending.trans {rows rows₁ rows₂ : List Notification} (h : KeepsPending rows rows₁)
    (h' : KeepsPending rows₁ rows₂) : KeepsPending rows rows₂ := by
  intro row hrow hpending
  obtain ⟨n, hn⟩ := h row hrow hpending
  exact h' { row with attempts := n } hn hpending

theorem QueueEffect.keepsPending {rows rows' : List Notification} (h : QueueEffect rows rows') :
    KeepsPending rows rows' := by
  intro row hrow hpending
  cases h with
  | same => exact ⟨row.attempts, hrow⟩
  | enqueued new hnew => exact ⟨row.attempts, List.mem_append_left _ hrow⟩
  | counted id =>
      by_cases hid : row.id = id
      · exact ⟨row.attempts + 1, mem_updateWhere.mpr ⟨row, hrow, by simp [hid]⟩⟩
      · exact ⟨row.attempts, mem_updateWhere.mpr ⟨row, hrow, by simp [hid]⟩⟩

/-- The job is pending in the queue. -/
def Queued (w : NotifyWorld) (job : NotificationJob) : Prop :=
  ∃ row ∈ w.notifications.rows, row.status = .pending ∧
    row.job = { job with attempts := row.attempts }

theorem Queued.of_keepsPending {w w' : NotifyWorld} {job : NotificationJob} (h : Queued w job)
    (hkeeps : KeepsPending w.notifications.rows w'.notifications.rows) : Queued w' job := by
  obtain ⟨row, hrow, hpending, hjob⟩ := h
  obtain ⟨n, hn⟩ := hkeeps row hrow hpending
  refine ⟨_, hn, hpending, ?_⟩
  calc ({ row with attempts := n } : Notification).job
      = { row.job with attempts := n } := rfl
    _ = { job with attempts := n } := by rw [hjob]

section Histories

variable {env : Env} {w : NotifyWorld} {events before after : List NotifyEvent}
variable {pool : Pool NotifyOp NotifyOp.Ans NotifyWorld} {i : ℕ}

/-- **A pending job stays pending**, whatever the programs do. -/
theorem notifyHistory_keepsPending (h : NotifyHistory env ⟨w, []⟩ (before ++ after) pool) :
    KeepsPending (worldAfter w before).notifications.rows pool.world.notifications.rows :=
  h.preserved (P := fun v =>
    KeepsPending (worldAfter w before).notifications.rows v.notifications.rows)
    (fun _ _ _ _ _ hvalid hpre => hpre.trans (queueEffect_of_step hvalid).keepsPending)
    (KeepsPending.refl _)

/-- What a fetch returns is pending. -/
theorem pending_of_fetch {v v' : NotifyWorld} {now : ℤ} {limit : ℕ} {rows : List Notification}
    (h : performNotify (.sql (.fetchPending now limit)) (.ok rows) v = some v') :
    v' = v ∧ ∀ row ∈ rows, row ∈ v.notifications.rows ∧ row.status = .pending := by
  obtain ⟨-, hexec⟩ := performNotifySql_eq_some.mp h
  obtain ⟨htop, rfl⟩ := provided_eq_some.mp hexec
  refine ⟨rfl, fun row hrow => ?_⟩
  obtain ⟨hmem, hdue⟩ := List.mem_filter.mp (htop.subperm.subset hrow)
  exact ⟨hmem, (of_decide_eq_true hdue).1⟩

/-- A job comes into the hands of a worker by a fetch. -/
theorem fetch_of_next {phase : NotifyPhase} {op : NotifyOp} {answer : op.Ans}
    {job : NotificationJob}
    {v v' : NotifyWorld} (h : job ∈ (phase.next op answer).jobs) (hnot : job ∉ phase.jobs) :
    ∃ now limit rows, (⟨v, op, answer, v'⟩ : NotifyStep) =
      ⟨v, .sql (.fetchPending now limit), .ok rows, v'⟩ ∧ job ∈ rows.map Notification.job := by
  unfold NotifyPhase.next at h
  split at h
  case h_1 now limit rows => exact ⟨now, limit, rows, rfl, h⟩
  -- the branch on whether a user was looked up before keeps the jobs
  case h_3 => split at h <;> exact absurd h hnot
  all_goals exact absurd h hnot

/-- The jobs that a worker has fetched are pending in the queue. -/
theorem queued_of_fetched (h : NotifyHistory env ⟨w, []⟩ events pool) {job : NotificationJob}
    (hjob : job ∈ (notifyPhase i events).jobs) : Queued pool.world job := by
  obtain ⟨before, _, after, rfl, ⟨v, op, answer, v'⟩, rfl, hnot, hnext⟩ :=
    occurs_of_phase (P := fun phase : NotifyPhase => job ∈ phase.jobs) List.not_mem_nil
      (fun _ hmem => hmem) hjob
  obtain ⟨now, limit, rows, hstep, hmem⟩ := @fetch_of_next _ _ _ _ v v' hnext hnot
  obtain ⟨hvalid, threads, hpast⟩ := h.at_step
  rw [hstep] at hvalid
  obtain ⟨row, hrow, rfl⟩ := List.mem_map.mp hmem
  obtain ⟨-, hpending⟩ := pending_of_fetch hvalid
  obtain ⟨hrow, hstatus⟩ := hpending row hrow
  have hqueued : Queued (worldAfter w before) row.job := by
    rw [← hpast.world_eq]
    exact ⟨row, hrow, hstatus, rfl⟩
  exact hqueued.of_keepsPending (notifyHistory_keepsPending h)

end Histories

/-! ## The rest of the backend -/

/-- A step of the backend leaves the queue alone, or inserts a notification. -/
theorem notifications_of_backend {step : BackendStep} (h : step.Valid perform) :
    step.post.db.notifications = step.pre.db.notifications ∨
      ∃ s id, Executes step (.notification s) id ∧
        s.exec id step.pre.db = some step.post.db.notifications := by
  cases Step.effect h with
  | silent _ hdb => exact Or.inl (congrArg Db.notifications hdb)
  | committed id tx v v' _ hdb =>
      left
      rw [foldlM_apply_frame hdb]
  | executed s out v v' _ _ hexec =>
      cases s with
      | notification s =>
          obtain ⟨notifications, hnotifications, hdb⟩ := Option.map_eq_some_iff.mp hexec
          rw [← hdb]
          exact Or.inr ⟨s, out, rfl, hnotifications⟩
      | account s =>
          obtain ⟨-, hdb⟩ := provided_eq_some.mp hexec
          exact Or.inl (congrArg Db.notifications hdb)
      | _ =>
          obtain ⟨table, -, hdb⟩ := Option.map_eq_some_iff.mp hexec
          exact Or.inl (congrArg Db.notifications hdb).symm

/-- **The backend only inserts into the queue.**  What a step of the handlers and workers does to
the queue is nothing, or the effect of `enqueue` in a world with this queue. -/
theorem enqueue_of_backend {step : BackendStep} (h : step.Valid perform) (w : NotifyWorld)
    (hw : w.notifications = step.pre.db.notifications) :
    step.post.db.notifications = step.pre.db.notifications ∨ ∃ s id w',
      performNotify (.enqueue s) id w = some w' ∧
        w'.notifications = step.post.db.notifications := by
  refine (notifications_of_backend h).imp_right ?_
  rintro ⟨s, id, -, hexec⟩
  have hsame : s.exec id { Db.empty with notifications := w.notifications } =
      some step.post.db.notifications := by
    rw [hw]
    exact hexec
  refine ⟨s, id, { w with notifications := step.post.db.notifications }, ?_, rfl⟩
  show (s.exec id { Db.empty with notifications := w.notifications }).map _ = _
  rw [hsame]
  rfl

end PactumCodex
