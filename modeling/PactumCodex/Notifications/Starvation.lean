import PactumCodex.Notifications.Delivery

/-!
# Starvation in the notification queue

A fetch takes the ten pending jobs that are due first, and no job ever leaves the
queue.  So the number of pending jobs before a given time never falls
(`ahead_step`), and once there are ten of them no cycle that begins later fetches
or delivers a job of that time or after it.

That a job is never settled comes from the statement that should do it, which names
a column that no migration declares.  A fetch returns a job only if fewer than ten
pending ones come before it (`ahead_lt_of_fetch`), and a job in the hands of a
worker was fetched by it (`fetched_since`), so what was not fetched is not taken up
either.
-/

namespace PactumCodex

open Interaction Relational

/-- The pending jobs that are scheduled before a time. -/
def ahead (t : ℤ) (rows : List Notification) : ℕ :=
  rows.countP fun row => row.status = .pending ∧ row.scheduledAt < t

theorem QueueEffect.ahead_le {rows rows' : List Notification} (h : QueueEffect rows rows') (t : ℤ) :
    ahead t rows ≤ ahead t rows' := by
  cases h with
  | same => exact le_rfl
  | enqueued row _ =>
      unfold ahead
      rw [List.countP_append]
      exact Nat.le_add_right _ _
  | counted id =>
      -- an attempt changes neither the status nor the time
      have hsame : ahead t (updateWhere (·.id = id)
          (fun row => { row with attempts := row.attempts + 1 }) rows) = ahead t rows := by
        unfold ahead updateWhere
        rw [List.countP_map]
        refine List.countP_congr fun row _ => ?_
        simp only [Function.comp_apply]
        split <;> rfl
      rw [hsame]

theorem ahead_step {step : NotifyStep} (h : step.Valid performNotify) (t : ℤ) :
    ahead t step.pre.notifications.rows ≤ ahead t step.post.notifications.rows :=
  (queueEffect_of_step h).ahead_le t

/-- Fewer than ten pending jobs are scheduled before a job that a fetch returns. -/
theorem ahead_lt_of_fetch {v v' : NotifyWorld} {now : ℤ} {rows : List Notification}
    (h : performNotify (.sql (.fetchPending now 10)) (.ok rows) v = some v') {row : Notification}
    (hrow : row ∈ rows) : ahead row.scheduledAt v.notifications.rows < 10 := by
  obtain ⟨-, hexec⟩ := performNotifySql_eq_some.mp h
  obtain ⟨htop, -⟩ := provided_eq_some.mp hexec
  have hdue : row.scheduledAt ≤ now := by
    have hmem := htop.subperm.subset hrow
    exact (of_decide_eq_true (List.mem_filter.mp hmem).2).2
  calc ahead row.scheduledAt v.notifications.rows
      = (v.notifications.rows.filter fun row => row.status = .pending ∧
        row.scheduledAt ≤ now).countP
          (·.scheduledAt < row.scheduledAt) := by
        unfold ahead
        rw [List.countP_filter]
        refine List.countP_congr fun other _ => ?_
        simp only [decide_eq_true_eq, Bool.and_eq_true]
        -- what is scheduled before the row is due as well
        exact ⟨fun ⟨hpending, hlt⟩ => ⟨hlt, hpending, (hlt.trans_le hdue).le⟩,
          fun ⟨hlt, hpending, _⟩ => ⟨hpending, hlt⟩⟩
    _ = rows.countP (·.scheduledAt < row.scheduledAt) := (htop.countP_lt hrow).symm
    _ < rows.length := by
        refine lt_of_le_of_ne (List.countP_le_length) fun hall => ?_
        have hlt := List.countP_eq_length.mp hall row hrow
        simp at hlt
    _ ≤ 10 := by
        rw [htop.length]
        exact Nat.min_le_left _ _

section Histories

variable {env : Env} {w : NotifyWorld} {before after : List NotifyEvent}
variable {pool : Pool NotifyOp NotifyOp.Ans NotifyWorld} {i : ℕ}

/-- A job in the hands of a worker was there before, or a later fetch of the worker has returned
it. -/
theorem fetched_since {job : NotificationJob}
    (hjob : job ∈ (notifyPhase i (before ++ after)).jobs) :
    job ∈ (notifyPhase i before).jobs ∨ ∃ past v now limit rows v' later,
      after = past ++ .ran i ⟨v, .sql (.fetchPending now limit), .ok rows, v'⟩ :: later ∧
        job ∈ rows.map Notification.job := by
  induction after using List.reverseRecOn with
  | nil => exact Or.inl (by simpa using hjob)
  | append_singleton past event ih =>
      by_cases hpast : job ∈ (notifyPhase i (before ++ past)).jobs
      · refine (ih hpast).imp_right ?_
        rintro ⟨past', v, now, limit, rows, v', later, rfl, hmem⟩
        exact ⟨past', v, now, limit, rows, v', later ++ [event], by simp, hmem⟩
      · right
        rw [← List.append_assoc] at hjob
        cases event with
        | stopped j =>
            rw [notifyPhase, phase_stopped] at hjob
            split at hjob <;> exact absurd hjob hpast
        | ran j step =>
            rw [notifyPhase, phase_ran] at hjob
            by_cases hij : j = i
            · subst hij
              rw [if_pos rfl] at hjob
              obtain ⟨v, op, answer, v'⟩ := step
              obtain ⟨now, limit, rows, hstep, hmem⟩ := @fetch_of_next _ _ _ _ v v' hjob hpast
              exact ⟨past, v, now, limit, rows, v', [], by rw [hstep], hmem⟩
            · rw [if_neg hij] at hjob
              exact absurd hjob hpast

/-- The jobs before a time are still there at every later step. -/
theorem ahead_at_step {step : NotifyStep} {past later : List NotifyEvent}
    (h : NotifyHistory env ⟨w, []⟩ (before ++ after) pool)
    (hafter : after = past ++ .ran i step :: later)
    (t : ℤ) :
    ahead t (worldAfter w before).notifications.rows ≤ ahead t step.pre.notifications.rows := by
  subst hafter
  rw [← List.append_assoc] at h
  obtain ⟨-, threads, hpast⟩ := h.at_step
  exact hpast.monotone (fun v => ahead t v.notifications.rows) fun step hvalid =>
    ahead_step hvalid t

/-- What a fetch that comes later returns is scheduled before `t`, if ten jobs are. -/
theorem scheduled_of_fetch {t : ℤ} (h : NotifyHistory env ⟨w, []⟩ (before ++ after) pool)
    (hahead : 10 ≤ ahead t (worldAfter w before).notifications.rows) {past later : List NotifyEvent}
    {v v' : NotifyWorld} {now : ℤ} {limit : ℕ} {rows : List Notification}
    (hafter : after = past ++ .ran i ⟨v, .sql (.fetchPending now limit), .ok rows, v'⟩ :: later) :
    ∀ row ∈ rows, row.scheduledAt < t := by
  intro row hrow
  have hmany := hahead.trans (ahead_at_step h hafter t)
  subst hafter
  rw [← List.append_assoc] at h
  obtain rfl : limit = 10 := notifyHistory_allowed h rfl
  have hfew := ahead_lt_of_fetch h.at_step.1 hrow
  by_contra hlate
  have hmono : ahead t v.notifications.rows ≤ ahead row.scheduledAt v.notifications.rows :=
    List.countP_mono_left fun other _ hother => by
      simp only [decide_eq_true_eq] at hother ⊢
      exact ⟨hother.1, hother.2.trans_le (not_lt.mp hlate)⟩
  exact absurd (hmany.trans hmono) (not_le.mpr hfew)

/-- The jobs scheduled at `t` or later get no further than they are after `before`. -/
structure Starved (t : ℤ) (before after : List NotifyEvent) : Prop where
  /-- No later fetch returns one of them. -/
  fetch : ∀ past i v now limit rows v' later,
    after = past ++ .ran i ⟨v, .sql (.fetchPending now limit), .ok rows, v'⟩ :: later →
      ∀ row ∈ rows, row.scheduledAt < t
  /-- Only a worker that already has one of them delivers it. -/
  delivery : ∀ past i step later job, after = past ++ .ran i step :: later →
    step.op.delivered step.ans = true → (notifyPhase i (before ++ past)).job = some job →
      t ≤ job.scheduledAt → job ∈ (notifyPhase i before).jobs

/-- **Starvation.**  Once ten pending jobs are scheduled before a time, no job of that time or later
is fetched or delivered any more, except by a cycle that has fetched it already. -/
theorem late_jobs_starve {t : ℤ} (h : NotifyHistory env ⟨w, []⟩ (before ++ after) pool)
    (hahead : 10 ≤ ahead t (worldAfter w before).notifications.rows) : Starved t before after := by
  refine ⟨fun past i v now limit rows v' later hafter => scheduled_of_fetch h hahead hafter, ?_⟩
  intro past i step later job hafter hdelivered hjob hlate
  have hevents : before ++ after = (before ++ past) ++ .ran i step :: later := by simp [hafter]
  have hdelivery : delivery (before ++ past) (.ran i step) =
      some ⟨i, (notifyPhase i (before ++ past)).cycle, job.id⟩ := by
    show (if step.op.delivered step.ans then _ else _) = _
    rw [if_pos hdelivered, hjob]
    rfl
  obtain ⟨step', hstep, -, job', hmem, hjob', -⟩ := fetched_of_delivery h hevents hdelivery
  obtain rfl : job = job' := Option.some.inj (hjob.symm.trans hjob')
  rcases fetched_since hmem with hbefore | ⟨past', v, now, limit, rows, v', later', hpast, hrow⟩
  · exact hbefore
  · obtain ⟨row, hfound, rfl⟩ := List.mem_map.mp hrow
    have hafter' : after = past' ++ .ran i ⟨v, .sql (.fetchPending now limit), .ok rows, v'⟩ ::
        (later' ++ .ran i step :: later) := by simp [hafter, hpast]
    exact absurd (scheduled_of_fetch h hahead hafter' row hfound) (not_lt.mpr hlate)

end Histories

/-- Ten jobs for a linked wallet are pending, and an eleventh a second later. -/
def fullQueue : List Notification :=
  (List.range 11).map fun n =>
    ⟨BitVec.ofNat 128 n, "Signed", "agreement", aliceKey, .pending, 0, if n < 10 then -1 else 0⟩

def fullQueueWorld : NotifyWorld :=
  { NotifyWorld.empty with
    notifications := ⟨fullQueue, by decide⟩
    wallets := ⟨[⟨2, aliceKey⟩], by decide⟩ }

/-- The worker is done with its second cycle, and the eleventh job was not taken up. -/
theorem late_jobs_starve_eleventh : ∃ events pool,
    NotifyHistory sampleEnv ⟨fullQueueWorld, []⟩ ([] ++ events) pool ∧
    (notifyPhase 0 events).cycle = 2 ∧ (notifyPhase 0 events).jobs.length = 10 ∧
    Starved 0 [] events := by
  have hrecord : (record performNotify [] ⟨fullQueueWorld, []⟩
      (notifyMoves [NotificationWorker.run sampleEnv 2] [(0, 94)])).any (fun result =>
        decide ((notifyPhase 0 result.1).cycle = 2 ∧
          (notifyPhase 0 result.1).jobs.length = 10)) = true := by
    decide +kernel
  have hentry : ∀ p, .start p ∈ notifyMoves [NotificationWorker.run sampleEnv 2] [(0, 94)] →
      NotifyEntry sampleEnv p := by
    intro p hp
    rw [List.mem_singleton.mp (mem_of_start_mem hp)]
    exact .worker 2
  obtain ⟨events, pool, hhistory, htest⟩ := exists_history_of_record
    (fun events _ =>
      decide ((notifyPhase 0 events).cycle = 2 ∧ (notifyPhase 0 events).jobs.length = 10))
    hentry hrecord
  have hhistory : NotifyHistory sampleEnv ⟨fullQueueWorld, []⟩ ([] ++ events) pool := hhistory
  obtain ⟨hcycle, hjobs⟩ := of_decide_eq_true htest
  exact ⟨events, pool, hhistory, hcycle, hjobs, late_jobs_starve hhistory (by decide)⟩

end PactumCodex
