import PactumCodex.Lib.Escalation
import PactumCodex.Workers.RefundWorker
import Mathlib.Logic.Function.Basic

/-!
# The health of the process

`ProcessHealthState` of `state.rs`, `workers/policy.rs`, the supervisor of
`workers/supervisor.rs` and the places where the workers report about their
health.  Only the health is shared: a report changes what belongs to its worker
and carries out at most one operation on the atomic, so that it is one step of
the process.  Log output is left out.
-/

namespace PactumCodex

/-! ## `state.rs` -/

inductive ProcessHealth : Type
  | healthy
  | degraded
  | runtimeFailed
  | startupFailed
  deriving DecidableEq, Repr

/-- The value of the `AtomicU8`. -/
structure ProcessHealthState where
  state : UInt8
  deriving DecidableEq

namespace ProcessHealthState

def HEALTHY : UInt8 := 0
def DEGRADED : UInt8 := 1
def RUNTIME_FAILED : UInt8 := 2
def STARTUP_FAILED : UInt8 := 3

def encode : ProcessHealth → UInt8
  | .healthy => HEALTHY
  | .degraded => DEGRADED
  | .runtimeFailed => RUNTIME_FAILED
  | .startupFailed => STARTUP_FAILED

def decode (value : UInt8) : ProcessHealth :=
  if value = HEALTHY then .healthy
  else if value = DEGRADED then .degraded
  else if value = RUNTIME_FAILED then .runtimeFailed
  else .startupFailed

def new (initial : ProcessHealth) : ProcessHealthState := ⟨encode initial⟩

def current (processHealth : ProcessHealthState) : ProcessHealth := decode processHealth.state

def set (_ : ProcessHealthState) (next : ProcessHealth) : ProcessHealthState := ⟨encode next⟩

/-- `AtomicU8::compare_exchange`. -/
def compareExchange (processHealth : ProcessHealthState) (expected next : UInt8) :
    ProcessHealthState :=
  if processHealth.state = expected then ⟨next⟩ else processHealth

def markDegraded (processHealth : ProcessHealthState) : ProcessHealthState :=
  processHealth.compareExchange HEALTHY DEGRADED

def markRuntimeFailed (processHealth : ProcessHealthState) : ProcessHealthState :=
  processHealth.set .runtimeFailed

end ProcessHealthState

/-! ## `workers/policy.rs` -/

inductive WorkerCriticality : Type
  | critical
  | nonCritical
  deriving DecidableEq, Repr

inductive DegradationReason : Type
  | rpcUnavailable
  | retryBackoff
  | circuitBreakerTripped
  | panicRecovered
  deriving DecidableEq, Repr

/-- Suggested worker status for this degradation reason. -/
def DegradationReason.suggestedStatus : DegradationReason → WorkerStatus
  | .rpcUnavailable | .retryBackoff => .degraded
  | .circuitBreakerTripped | .panicRecovered => .disabled

/-! ## `workers/supervisor.rs` -/

inductive WorkerLifecycle : Type
  | starting
  | running
  | exited
  | panicked
  | cancelled
  deriving DecidableEq, Repr

/-- What awaiting the task of a worker returns. -/
inductive TaskResult : Type
  | ok
  | panic
  | cancelled
  deriving DecidableEq, Repr

def TaskResult.observedLifecycle : TaskResult → WorkerLifecycle
  | .ok => .exited
  | .panic => .panicked
  | .cancelled => .cancelled

def recordRuntimeFailure (criticality : WorkerCriticality) (processHealth : ProcessHealthState) :
    ProcessHealthState :=
  match criticality with
  | .nonCritical => processHealth.markDegraded
  | .critical => processHealth.markRuntimeFailed

/-! ## The workers -/

/-- `transition_to_degraded` of the event listener and the notification worker. -/
def transitionToDegraded (status : WorkerStatus) (processHealth : ProcessHealthState) :
    WorkerStatus × ProcessHealthState :=
  if status = .degraded then (status, processHealth) else (.degraded, processHealth.markDegraded)

/-- `transition_to_healthy` of the same workers, which does not touch the process health. -/
def transitionToHealthy (status : WorkerStatus) : WorkerStatus :=
  if status = .healthy then status else .healthy

def statusForReason (processHealth : ProcessHealthState) (reason : DegradationReason) :
    WorkerStatus × ProcessHealthState :=
  let status := reason.suggestedStatus
  if status = .degraded then (status, processHealth.markDegraded) else (status, processHealth)

/-- `report_degraded` of the refund worker and the expiry worker. -/
def reportDegraded (processHealth : ProcessHealthState) (reason : DegradationReason) :
    WorkerStatus × ProcessHealthState :=
  statusForReason processHealth reason

/-- `circuit_breaker_status`, given whether the balance of the vault is below the threshold. -/
def circuitBreakerStatus (low : Bool) : Option (WorkerStatus × DegradationReason) :=
  if low then
    let reason := DegradationReason.circuitBreakerTripped
    some (reason.suggestedStatus, reason)
  else none

/-- `check_hot_wallet_balances` of the keeper.  A balance that could not be read is not low. -/
def checkHotWalletBalances (processHealth : ProcessHealthState) (low : Bool) :
    WorkerStatus × ProcessHealthState :=
  match circuitBreakerStatus low with
  | some (status, _) => (status, processHealth.markDegraded)
  | none => (.healthy, processHealth)

/-! ## The process -/

/-- The shared health, the `status` of each worker and its entry in the map of the supervisor. -/
structure Process (ω : Type) where
  processHealth : ProcessHealthState
  status : ω → WorkerStatus
  lifecycle : ω → WorkerLifecycle

/-- What happens in a cycle of the refund worker or the expiry worker. -/
inductive CycleEvent : Type
  /-- The query for the rows fails, which ends the cycle with the reported status. -/
  | queryFailed
  /-- The work on a row fails, and the cycle goes on. -/
  | rowFailed
  /-- The cycle ends after its last row. -/
  | done
  deriving DecidableEq, Repr

/-- The reports of the workers and of the supervisor. -/
inductive Report (ω : Type) : Type
  /-- The connection or the job queue is gone. -/
  | lost (worker : ω)
  /-- The connection or the job queue is back. -/
  | recovered (worker : ω)
  | cycle (worker : ω) (event : CycleEvent)
  /-- The third scan of the keeper. -/
  | balances (worker : ω) (low : Bool)
  /-- The task of the worker has ended, and its supervisor records it. -/
  | taskEnded (worker : ω) (result : TaskResult)
  deriving DecidableEq

section Process

variable {ω : Type} [DecidableEq ω]

/-- A worker goes on with a new status and leaves the process health behind. -/
def Process.goOn (s : Process ω) (worker : ω) : WorkerStatus × ProcessHealthState → Process ω
  | (status, processHealth) =>
      { s with processHealth, status := Function.update s.status worker status }

def Process.cycle (s : Process ω) (worker : ω) : CycleEvent → Process ω
  | .queryFailed => s.goOn worker (reportDegraded s.processHealth .rpcUnavailable)
  | .rowFailed => { s with processHealth := (reportDegraded s.processHealth .retryBackoff).2 }
  | .done => s.goOn worker (.healthy, s.processHealth)

/-- A report changes the process.  A worker that has disabled itself skips its cycles. -/
def Process.report (criticality : ω → WorkerCriticality) (s : Process ω) : Report ω → Process ω
  | .lost worker => s.goOn worker (transitionToDegraded (s.status worker) s.processHealth)
  | .recovered worker => s.goOn worker (transitionToHealthy (s.status worker), s.processHealth)
  | .cycle worker event => if s.status worker = .disabled then s else s.cycle worker event
  | .balances worker low =>
      if s.status worker = .disabled then s
      else s.goOn worker (checkHotWalletBalances s.processHealth low)
  | .taskEnded worker result =>
      { s with
        processHealth := recordRuntimeFailure (criticality worker) s.processHealth
        lifecycle := Function.update s.lifecycle worker result.observedLifecycle }

/-- The process after a list of reports. -/
def Process.reports (criticality : ω → WorkerCriticality) (s : Process ω)
    (reports : List (Report ω)) : Process ω :=
  reports.foldl (Process.report criticality) s

/-- The process once `main` has set the health and spawned the workers. -/
def Process.spawned (lifecycle : ω → WorkerLifecycle) : Process ω where
  processHealth := (ProcessHealthState.new .startupFailed).set .healthy
  status := fun _ => .healthy
  lifecycle

end Process

/-! ## `main.rs` and `router.rs` -/

/-- The workers of `spawn_runtime_workers`. -/
inductive RuntimeWorker : Type
  | eventListener
  | keeper
  | notificationWorker
  | refundWorker
  | expiryWorker
  deriving DecidableEq, Repr

def RuntimeWorker.criticality : RuntimeWorker → WorkerCriticality
  | .keeper => .critical
  | .eventListener | .notificationWorker | .refundWorker | .expiryWorker => .nonCritical

structure HealthResponse where
  status : String
  processAlive : Bool
  workers : String
  deriving DecidableEq

/-- The status code and the body of `GET /health`. -/
def healthResponse : ProcessHealth → ℕ × HealthResponse
  | .healthy => (200, ⟨"healthy", true, "ready"⟩)
  | .degraded => (200, ⟨"degraded", true, "degraded"⟩)
  | .startupFailed => (503, ⟨"startup-failed", false, "unavailable"⟩)
  | .runtimeFailed => (503, ⟨"runtime-failed", true, "failed"⟩)

end PactumCodex
