import PactumCodex.Workers.Health
import Mathlib.Order.Basic

/-!
# The process health only escalates

`Healthy < Degraded < RuntimeFailed < StartupFailed`.  In the states that the
process can be in, every report raises its health by a severity that depends on
the report alone: where a worker skips a report because its own status is
degraded already, the health is not `Healthy` any more.

## The invariant

`Process.Consistent` relates the status of the workers to the health: an impaired
worker shows in the health, and the health is at most `RuntimeFailed` once the
workers have been spawned.  A report keeps it, because a worker becomes impaired
only by a report that asks for `Degraded` at least (`status_report`).

## All reports

With `current_report` the health after a list of reports is the supremum of their
severities, so it does not depend on their order (`healthAfter_perm`) and only grows
(`healthAfter_le_append`).  Only the end of a critical task asks for more than
`Degraded`, which is why the process fails exactly if one of them has ended
(`runtimeFailed_iff`).
-/

namespace PactumCodex

open Transition

theorem ProcessHealth.encode_injective :
    Function.Injective fun h : ProcessHealth => (ProcessHealthState.encode h).toNat := by
  intro h h' heq
  revert heq
  cases h <;> cases h' <;> decide

/-- The order of the encoding. -/
instance : LinearOrder ProcessHealth := LinearOrder.lift' _ ProcessHealth.encode_injective

/-- The task of the worker has ended, in one way or another. -/
def WorkerLifecycle.Ended (lifecycle : WorkerLifecycle) : Prop :=
  lifecycle = .exited ∨ lifecycle = .panicked ∨ lifecycle = .cancelled

theorem observedLifecycle_ended (result : TaskResult) : result.observedLifecycle.Ended := by
  cases result
  · exact .inl rfl
  · exact .inr (.inl rfl)
  · exact .inr (.inr rfl)

/-! ## The operations on the atomic -/

section Atomic

variable {processHealth : ProcessHealthState} {health : ProcessHealth}

@[simp] theorem current_set : (processHealth.set health).current = health := by
  cases health <;> rfl

@[simp] theorem current_markRuntimeFailed :
    processHealth.markRuntimeFailed.current = .runtimeFailed :=
  current_set

/-- The exchange only replaces `Healthy`. -/
@[simp] theorem current_markDegraded :
    processHealth.markDegraded.current = processHealth.current ⊔ .degraded := by
  unfold ProcessHealthState.markDegraded ProcessHealthState.compareExchange
  split
  · rename_i hhealthy
    rw [ProcessHealthState.current, ProcessHealthState.current, hhealthy]
    decide
  · rename_i hne
    have hle : .degraded ≤ processHealth.current := by
      rw [ProcessHealthState.current, ProcessHealthState.decode, if_neg hne]
      split
      · decide
      split <;> decide
    exact (sup_eq_left.mpr hle).symm

/-- The health that a critical or a non-critical worker leaves behind. -/
def failureSeverity : WorkerCriticality → ProcessHealth
  | .critical => .runtimeFailed
  | .nonCritical => .degraded

theorem current_recordRuntimeFailure {criticality : WorkerCriticality}
    (h : processHealth.current ≤ .runtimeFailed) :
    (recordRuntimeFailure criticality processHealth).current =
      processHealth.current ⊔ failureSeverity criticality := by
  cases criticality with
  | nonCritical => exact current_markDegraded
  | critical => exact current_markRuntimeFailed.trans (sup_eq_right.mpr h).symm

/-- A transition that is skipped finds a health that is not `Healthy`. -/
theorem current_transitionToDegraded {status : WorkerStatus}
    (h : status ≠ .healthy → .degraded ≤ processHealth.current) :
    (transitionToDegraded status processHealth).2.current = processHealth.current ⊔ .degraded := by
  unfold transitionToDegraded
  split
  · rename_i hdegraded
    exact (sup_eq_left.mpr (h (by simp [hdegraded]))).symm
  · exact current_markDegraded

end Atomic

/-! ## One report -/

def CycleEvent.severity : CycleEvent → ProcessHealth
  | .queryFailed | .rowFailed => .degraded
  | .done => .healthy

/-- The health that a report asks for. -/
def Report.severity {ω : Type} (criticality : ω → WorkerCriticality) : Report ω → ProcessHealth
  | .lost _ => .degraded
  | .recovered _ => .healthy
  | .cycle _ event => event.severity
  | .balances _ low => if low then .degraded else .healthy
  | .taskEnded worker _ => failureSeverity (criticality worker)

/-- The states that the process can be in. -/
structure Process.Consistent {ω : Type} (s : Process ω) : Prop where
  le_runtimeFailed : s.processHealth.current ≤ .runtimeFailed
  of_impaired : ∀ worker, s.status worker ≠ .healthy → .degraded ≤ s.processHealth.current

theorem healthy_le (health : ProcessHealth) : .healthy ≤ health := by
  cases health <;> decide

@[simp] theorem sup_healthy (health : ProcessHealth) : health ⊔ .healthy = health :=
  sup_eq_left.mpr (healthy_le health)

theorem failureSeverity_le (criticality : WorkerCriticality) :
    failureSeverity criticality ≤ .runtimeFailed := by
  cases criticality <;> decide

theorem degraded_le_failureSeverity (criticality : WorkerCriticality) :
    .degraded ≤ failureSeverity criticality := by
  cases criticality <;> decide

/-- Only the end of a task asks for more than `Degraded`. -/
theorem severity_cases {ω : Type} {criticality : ω → WorkerCriticality} (r : Report ω) :
    r.severity criticality ≤ .degraded ∨ ∃ worker result, r = .taskEnded worker result := by
  cases r with
  | lost worker => exact .inl le_rfl
  | recovered worker => exact .inl (healthy_le _)
  | cycle worker event =>
      cases event with
      | queryFailed => exact .inl le_rfl
      | rowFailed => exact .inl le_rfl
      | done => exact .inl (healthy_le _)
  | balances worker low =>
      cases low with
      | false => exact .inl (healthy_le _)
      | true => exact .inl le_rfl
  | taskEnded worker result => exact .inr ⟨worker, result, rfl⟩

theorem severity_le {ω : Type} {criticality : ω → WorkerCriticality} (r : Report ω) :
    r.severity criticality ≤ .runtimeFailed := by
  obtain hle | ⟨worker, result, rfl⟩ := severity_cases r
  · exact hle.trans (by decide)
  · exact failureSeverity_le _

theorem runtimeFailed_le_severity_iff {ω : Type} {criticality : ω → WorkerCriticality}
    {r : Report ω} : .runtimeFailed ≤ r.severity criticality ↔
      ∃ worker result, r = .taskEnded worker result ∧ criticality worker = .critical := by
  constructor
  · intro h
    obtain hle | ⟨worker, result, rfl⟩ := severity_cases r
    · exact absurd (h.trans hle) (by decide)
    · refine ⟨worker, result, rfl, ?_⟩
      rw [Report.severity] at h
      cases hworker : criticality worker with
      | critical => rfl
      | nonCritical =>
          rw [hworker] at h
          exact absurd h (by decide)
  · rintro ⟨worker, result, rfl, hworker⟩
    rw [Report.severity, hworker]
    exact le_rfl

section Step

variable {ω : Type} [DecidableEq ω] {criticality : ω → WorkerCriticality} {s : Process ω}
variable {worker : ω}

/-- A worker that goes on healthily does not impair any worker. -/
theorem status_goOn_healthy {processHealth : ProcessHealthState} (other : ω) :
    (s.goOn worker (.healthy, processHealth)).status other = .healthy ∨
      (s.goOn worker (.healthy, processHealth)).status other = s.status other := by
  by_cases h : other = worker
  · subst h
    exact .inl (Function.update_self ..)
  · exact .inr (Function.update_of_ne h ..)

/-- A report raises the health by its severity. -/
theorem current_report (h : s.Consistent) (r : Report ω) :
    (s.report criticality r).processHealth.current =
      s.processHealth.current ⊔ r.severity criticality := by
  have hdisabled {worker : ω} (hstatus : s.status worker = .disabled) :
      .degraded ≤ s.processHealth.current := h.of_impaired worker (by simp [hstatus])
  cases r with
  | lost worker => exact current_transitionToDegraded (h.of_impaired worker)
  | recovered worker => exact (sup_healthy _).symm
  | cycle worker event =>
      by_cases hstatus : s.status worker = .disabled
      · -- the cycle is skipped
        rw [Process.report, if_pos hstatus]
        cases event with
        | queryFailed => exact (sup_eq_left.mpr (hdisabled hstatus)).symm
        | rowFailed => exact (sup_eq_left.mpr (hdisabled hstatus)).symm
        | done => exact (sup_healthy _).symm
      · rw [Process.report, if_neg hstatus]
        cases event with
        | queryFailed => exact current_markDegraded
        | rowFailed => exact current_markDegraded
        | done => exact (sup_healthy _).symm
  | balances worker low =>
      by_cases hstatus : s.status worker = .disabled
      · rw [Process.report, if_pos hstatus]
        cases low with
        | false => exact (sup_healthy _).symm
        | true => exact (sup_eq_left.mpr (hdisabled hstatus)).symm
      · rw [Process.report, if_neg hstatus]
        cases low with
        | false => exact (sup_healthy _).symm
        | true => exact current_markDegraded
  | taskEnded worker result => exact current_recordRuntimeFailure h.le_runtimeFailed

/-- A worker becomes impaired only by a report that asks for `Degraded` at least. -/
theorem status_report (r : Report ω) (other : ω) :
    (s.report criticality r).status other = .healthy ∨
      (s.report criticality r).status other = s.status other ∨
      .degraded ≤ r.severity criticality := by
  -- a report concerns its worker; the others keep their status
  cases r with
  | lost worker => exact .inr (.inr le_rfl)
  | recovered worker =>
      have hhealthy : transitionToHealthy (s.status worker) = .healthy := by
        unfold transitionToHealthy
        split
        · assumption
        · rfl
      rw [Process.report, hhealthy]
      exact (status_goOn_healthy other).imp_right .inl
  | cycle worker event =>
      by_cases hstatus : s.status worker = .disabled
      · rw [Process.report, if_pos hstatus]
        exact .inr (.inl rfl)
      · rw [Process.report, if_neg hstatus]
        cases event with
        | queryFailed => exact .inr (.inr le_rfl)
        | rowFailed => exact .inr (.inr le_rfl)
        | done => exact (status_goOn_healthy other).imp_right .inl
  | balances worker low =>
      by_cases hstatus : s.status worker = .disabled
      · rw [Process.report, if_pos hstatus]
        exact .inr (.inl rfl)
      · rw [Process.report, if_neg hstatus]
        cases low with
        | false => exact (status_goOn_healthy other).imp_right .inl
        | true => exact .inr (.inr le_rfl)
  | taskEnded worker result => exact .inr (.inl rfl)

theorem consistent_report (h : s.Consistent) (r : Report ω) :
    (s.report criticality r).Consistent where
  le_runtimeFailed := by
    rw [current_report h]
    exact sup_le h.le_runtimeFailed (severity_le r)
  of_impaired := by
    intro other hother
    rw [current_report h]
    obtain hhealthy | hsame | hsevere := status_report r other
    · exact absurd hhealthy hother
    · exact le_sup_of_le_left (h.of_impaired other (hsame ▸ hother))
    · exact le_sup_of_le_right hsevere

/-- The reports escalate the process health. -/
theorem reports_escalate (criticality : ω → WorkerCriticality) :
    Escalates Process.Consistent (Process.report criticality)
      (fun s => s.processHealth.current) (Report.severity criticality) where
  inv_step _ r h := consistent_report h r
  level_step _ r h := current_report h r

/-- The tasks that have ended are the ones whose end was reported. -/
theorem lifecycle_report (r : Report ω) : ((s.report criticality r).lifecycle worker).Ended ↔
    (∃ result, r = .taskEnded worker result) ∨ (s.lifecycle worker).Ended := by
  have hgoOn (other : ω) (next : WorkerStatus × ProcessHealthState) :
      (s.goOn other next).lifecycle = s.lifecycle := rfl
  cases r with
  | lost other => simp [Process.report, hgoOn]
  | recovered other => simp [Process.report, hgoOn]
  | cycle other event =>
      rw [Process.report]
      split
      · simp
      · cases event <;> simp [Process.cycle, hgoOn]
  | balances other low =>
      rw [Process.report]
      split
      · simp
      · simp [hgoOn]
  | taskEnded other result =>
      by_cases h : worker = other
      · subst h
        simp [Process.report, observedLifecycle_ended]
      · simp [Process.report, Function.update_of_ne h, Ne.symm h]

end Step

/-! ## All reports -/

@[simp] theorem current_spawned {ω : Type} {lifecycle : ω → WorkerLifecycle} :
    (Process.spawned lifecycle).processHealth.current = .healthy := rfl

theorem consistent_spawned {ω : Type} {lifecycle : ω → WorkerLifecycle} :
    (Process.spawned lifecycle).Consistent where
  le_runtimeFailed := by
    rw [current_spawned]
    exact healthy_le _
  of_impaired := fun _ h => absurd rfl h

section Run

variable {ω : Type} [DecidableEq ω] {criticality : ω → WorkerCriticality} {s : Process ω}
variable {lifecycle : ω → WorkerLifecycle} {worker : ω} {reports : List (Report ω)}

theorem lifecycle_reports : ((s.reports criticality reports).lifecycle worker).Ended ↔
    (∃ result, .taskEnded worker result ∈ reports) ∨ (s.lifecycle worker).Ended := by
  unfold Process.reports
  induction reports generalizing s with
  | nil => simp
  | cons r reports ih =>
      rw [List.foldl_cons, ih, lifecycle_report, ← or_assoc, or_comm (b := ∃ result, r = _),
        ← exists_or]
      simp only [List.mem_cons, eq_comm (b := r)]

/-- The process after the reports. -/
def processAfter (criticality : ω → WorkerCriticality) (lifecycle : ω → WorkerLifecycle)
    (reports : List (Report ω)) : Process ω :=
  (Process.spawned lifecycle).reports criticality reports

/-- The health after the reports. -/
def healthAfter (criticality : ω → WorkerCriticality) (lifecycle : ω → WorkerLifecycle)
    (reports : List (Report ω)) : ProcessHealth :=
  (processAfter criticality lifecycle reports).processHealth.current

theorem consistent_processAfter : (processAfter criticality lifecycle reports).Consistent :=
  (reports_escalate criticality).inv_run consistent_spawned

theorem le_healthAfter_iff {health : ProcessHealth} :
    health ≤ healthAfter criticality lifecycle reports ↔
      health ≤ .healthy ∨ ∃ r ∈ reports, health ≤ r.severity criticality :=
  (reports_escalate criticality).le_run_iff consistent_spawned

theorem healthAfter_le_append {later : List (Report ω)} :
    healthAfter criticality lifecycle reports ≤
      healthAfter criticality lifecycle (reports ++ later) := by
  unfold healthAfter processAfter Process.reports
  rw [List.foldl_append]
  exact (reports_escalate criticality).level_le_run consistent_processAfter

theorem healthAfter_le : healthAfter criticality lifecycle reports ≤ .runtimeFailed :=
  consistent_processAfter.le_runtimeFailed

/-- A task has ended exactly if its end was reported. -/
theorem ended_iff (hspawned : ∀ worker, ¬ (lifecycle worker).Ended) :
    ((processAfter criticality lifecycle reports).lifecycle worker).Ended ↔
      ∃ result, .taskEnded worker result ∈ reports :=
  lifecycle_reports.trans (or_iff_left (hspawned worker))

/-- The process fails exactly if a critical worker has ended. -/
theorem runtimeFailed_iff (hspawned : ∀ worker, ¬ (lifecycle worker).Ended) :
    healthAfter criticality lifecycle reports = .runtimeFailed ↔
      ∃ worker, criticality worker = .critical ∧
        ((processAfter criticality lifecycle reports).lifecycle worker).Ended :=
  calc healthAfter criticality lifecycle reports = .runtimeFailed
    _ ↔ .runtimeFailed ≤ healthAfter criticality lifecycle reports :=
        ⟨fun h => h.ge, fun h => le_antisymm healthAfter_le h⟩
    _ ↔ ∃ r ∈ reports, .runtimeFailed ≤ r.severity criticality :=
        le_healthAfter_iff.trans (or_iff_right (by decide))
    _ ↔ ∃ worker, criticality worker = .critical ∧
          ((processAfter criticality lifecycle reports).lifecycle worker).Ended := by
        simp only [runtimeFailed_le_severity_iff, ended_iff hspawned]
        grind

/-- An impaired worker shows in the health of the process. -/
theorem healthAfter_ne_healthy (hspawned : ∀ worker, ¬ (lifecycle worker).Ended)
    (h : (processAfter criticality lifecycle reports).status worker ≠ .healthy ∨
      ((processAfter criticality lifecycle reports).lifecycle worker).Ended) :
    healthAfter criticality lifecycle reports ≠ .healthy := by
  intro hhealthy
  have hdegraded : .degraded ≤ healthAfter criticality lifecycle reports := by
    obtain himpaired | hended := h
    · exact consistent_processAfter.of_impaired worker himpaired
    · obtain ⟨result, hresult⟩ := (ended_iff hspawned).mp hended
      exact le_healthAfter_iff.mpr (.inr ⟨_, hresult, degraded_le_failureSeverity _⟩)
  exact absurd (hdegraded.trans_eq hhealthy) (by decide)

theorem healthAfter_perm {reports' : List (Report ω)} (hperm : reports.Perm reports') :
    healthAfter criticality lifecycle reports = healthAfter criticality lifecycle reports' :=
  (reports_escalate criticality).level_perm consistent_spawned hperm

/-- `GET /health` answers that the process has failed exactly if a critical worker has ended. -/
theorem healthResponse_failed_iff (hspawned : ∀ worker, ¬ (lifecycle worker).Ended) :
    (healthResponse (healthAfter criticality lifecycle reports)).1 = 503 ↔
      ∃ worker, criticality worker = .critical ∧
        ((processAfter criticality lifecycle reports).lifecycle worker).Ended := by
  rw [← runtimeFailed_iff hspawned]
  have hle : healthAfter criticality lifecycle reports ≤ .runtimeFailed := healthAfter_le
  cases hhealth : healthAfter criticality lifecycle reports with
  | healthy => simp [healthResponse]
  | degraded => simp [healthResponse]
  | runtimeFailed => simp [healthResponse]
  | startupFailed => exact absurd (hhealth.ge.trans hle) (by decide)

/-- **Process health.**  Over the reports in any order, the health rises from `Healthy` to at most
`RuntimeFailed`, which it is exactly if a critical worker has ended; it is not `Healthy` while any
worker is degraded, disabled or ended; and any other order leads to the same health. -/
theorem process_health_escalates (hspawned : ∀ worker, ¬ (lifecycle worker).Ended)
    (reports : List (Report ω)) :
    (∀ earlier later, reports = earlier ++ later →
      healthAfter criticality lifecycle earlier ≤ healthAfter criticality lifecycle reports) ∧
    healthAfter criticality lifecycle reports ≤ .runtimeFailed ∧
    (healthAfter criticality lifecycle reports = .runtimeFailed ↔
      ∃ worker, criticality worker = .critical ∧
        ((processAfter criticality lifecycle reports).lifecycle worker).Ended) ∧
    (∀ worker, (processAfter criticality lifecycle reports).status worker = .degraded ∨
        (processAfter criticality lifecycle reports).status worker = .disabled ∨
        ((processAfter criticality lifecycle reports).lifecycle worker).Ended →
      healthAfter criticality lifecycle reports ≠ .healthy) ∧
    ∀ reports', reports.Perm reports' →
      healthAfter criticality lifecycle reports = healthAfter criticality lifecycle reports' := by
  refine ⟨?_, healthAfter_le, runtimeFailed_iff hspawned, fun worker h => ?_,
    fun reports' => healthAfter_perm⟩
  · rintro earlier later rfl
    exact healthAfter_le_append
  · have himpaired : (processAfter criticality lifecycle reports).status worker ≠ .healthy ∨
        ((processAfter criticality lifecycle reports).lifecycle worker).Ended := by
      obtain hdegraded | hdisabled | hended := h
      · exact .inl (by simp [hdegraded])
      · exact .inl (by simp [hdisabled])
      · exact .inr hended
    exact healthAfter_ne_healthy hspawned himpaired

/-- The listener is lost and comes back, the keeper trips its breaker and panics. -/
theorem process_health_escalates_keeper :
    healthAfter RuntimeWorker.criticality (fun _ => .running)
      [.lost .eventListener, .recovered .eventListener] ≠ .runtimeFailed ∧
    healthAfter RuntimeWorker.criticality (fun _ => .running)
      [.lost .eventListener, .recovered .eventListener, .balances .keeper true,
        .taskEnded .keeper .panic] = .runtimeFailed := by
  have hspawned (worker : RuntimeWorker) : ¬ WorkerLifecycle.running.Ended := by
    simp [WorkerLifecycle.Ended]
  exact ⟨by decide, (process_health_escalates hspawned _).2.2.1.mpr ⟨.keeper, rfl, .inr (.inl rfl)⟩⟩

end Run

end PactumCodex
