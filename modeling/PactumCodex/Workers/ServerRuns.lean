import PactumCodex.Auth.Runs
import PactumCodex.Workers.Loops

/-!
# The loops run the scans

The system of `System.lean` starts every scan of a worker at any time.  The server
starts the loops, which decide when to scan.  Every program of the server is
composed of programs of the system and of authentication
(`ServerEntry.backend_composed`, `ServerEntry.auth_composed`), so that seen from
the tables of either part a history of the server is one of its runs, and what is
proved about these holds in the server.
-/

namespace PactumCodex

open Interaction

/-! ## Operations of the server itself -/

/-- The operation belongs to neither part. -/
def ServerOp.own : ServerOp → Bool
  | .backend _ => false
  | .auth _ => false
  | _ => true

theorem ServerOp.backend?_of_own {op : ServerOp} (h : op.own = true) (answer : op.Ans) :
    op.backend? answer = none := by
  cases op with
  | backend op => cases h
  | _ => rfl

theorem ServerOp.auth?_of_own {op : ServerOp} (h : op.own = true) (answer : op.Ans) :
    op.auth? answer = none := by
  cases op with
  | auth op => cases h
  | _ => rfl

section Own

variable (env : Env) (keeper : KeeperConfig)

theorem checkHotWalletBalances_own :
    (Keeper.checkHotWalletBalances env keeper).Issues fun op => op.own = true := by
  unfold Keeper.checkHotWalletBalances
  refine Program.issues_bind (Program.issues_issue rfl) fun balance => ?_
  rcases balance with _ | _ | vaultSol
  · trivial
  · trivial
  · dsimp only
    split
    · trivial
    · split
      · trivial
      · exact Program.issues_bind (Program.issues_issue rfl) fun _ => trivial

theorem sweepStablecoins_own (stablecoins : List StablecoinInfo) :
    (Keeper.sweepStablecoins env keeper stablecoins).Issues fun op => op.own = true := by
  induction stablecoins with
  | nil => trivial
  | cons stablecoin rest ih =>
      unfold Keeper.sweepStablecoins
      split
      · exact ih
      · exact Program.issues_bind (Program.issues_issue rfl) fun _ => ih

theorem sweepTreasuryExcess_own :
    (Keeper.sweepTreasuryExcess env keeper).Issues fun op => op.own = true := by
  unfold Keeper.sweepTreasuryExcess
  refine Program.issues_bind (Program.issues_issue rfl) fun now => ?_
  refine Program.issues_bind (Program.issues_issue rfl) fun result => ?_
  split
  · split
    · trivial
    · refine Program.issues_bind (sweepStablecoins_own env keeper _) fun _ => ?_
      refine Program.issues_bind (Program.issues_issue rfl) fun now => ?_
      exact Program.issues_bind (Program.issues_issue rfl) fun _ => trivial
  · trivial

end Own

/-! ## Composition -/

section Composition

variable {Op₁ : Type} {Ans₁ : Op₁ → Type} {W₁ : Type}
variable {perform₁ : (op : Op₁) → Ans₁ op → W₁ → Option W₁}
variable {E : Embedding perform₁ performServer} {Part : Program Op₁ Ans₁ Unit → Prop}
variable {env : Env} {keeper : KeeperConfig}

variable (E Part env) in
/-- What the loops are made of can be seen from a part of the server. -/
structure Visible : Prop where
  own : ∀ {α : Type} {p : ServerProgram α}, (p.Issues fun op => op.own = true) → Composes E Part p
  call : ∀ call : Invocation, Composes E Part ((call.program env).embed onBackend)
  refunds : Composes E Part ((processPendingRefunds env).embed onBackend)
  cleanup : Composes E Part (cleanupExpiredAuthRecords.embed onAuth)

theorem Visible.cycle (h : Visible E Part env) : Composes E Part (Keeper.cycle env keeper) := by
  unfold Keeper.cycle
  refine composes_bind (h.call .sendInvitationReminders) fun _ => ?_
  refine composes_bind (h.call .expireStaleInvitations) fun _ => ?_
  refine composes_bind (h.own (checkHotWalletBalances_own env keeper)) fun status => ?_
  split
  · exact composes_pure
  · refine composes_bind ?_ fun _ => composes_pure
    refine composes_bind (h.own (sweepTreasuryExcess_own env keeper)) fun _ => ?_
    refine composes_bind (h.call .expireTimedOutPayments) fun _ => ?_
    exact composes_bind (h.call .reconcileLatePayments) fun _ => h.cleanup

theorem Visible.keeperRun (h : Visible E Part env) (ticks : ℕ) (status : WorkerStatus) :
    Composes E Part (Keeper.run env keeper ticks status) := by
  induction ticks generalizing status with
  | zero => exact composes_pure
  | succ ticks ih =>
      unfold Keeper.run
      refine composes_bind (h.own (Program.issues_issue rfl)) fun _ => ?_
      split
      · exact ih status
      · exact composes_bind h.cycle fun status => ih status

theorem Visible.refundRun (h : Visible E Part env) (ticks : ℕ) (status : WorkerStatus) :
    Composes E Part (RefundWorker.run env ticks status) := by
  induction ticks generalizing status with
  | zero => exact composes_pure
  | succ ticks ih =>
      unfold RefundWorker.run
      refine composes_bind (h.own (Program.issues_issue rfl)) fun _ => ?_
      split
      · exact ih status
      · exact composes_bind h.refunds fun status => ih status

theorem Visible.entry (h : Visible E Part env) {p : ServerProgram Unit}
    (hp : ServerEntry env keeper p) : Composed E Part p none := by
  cases hp with
  | serve call _ => exact (h.call call).composed
  | keeper ticks => exact (h.keeperRun ticks .healthy).composed
  | refundWorker ticks => exact (h.refundRun ticks .healthy).composed

end Composition

/-- Seen from the backend, the loops run its programs. -/
theorem backend_visible (env : Env) : Visible backendPart (Entry env) env where
  own := fun hp => composes_of_issues (hp.mono fun _ hop => ServerOp.backend?_of_own hop)
  call := fun call => composes_embed_unit (call.entry env)
  refunds := composes_embed .processPendingRefunds
  cleanup := composes_of_issues (issues_embed (Program.issues_of_forall _ fun _ _ => rfl))

/-- Seen from authentication, the loops run the cleanup. -/
theorem auth_visible (env : Env) : Visible authPart (AuthEntry env) env where
  own := fun hp => composes_of_issues (hp.mono fun _ hop => ServerOp.auth?_of_own hop)
  call := fun _ => composes_of_issues (issues_embed (Program.issues_of_forall _ fun _ _ => rfl))
  refunds := composes_of_issues (issues_embed (Program.issues_of_forall _ fun _ _ => rfl))
  cleanup := composes_embed_unit .cleanup

/-! ## The result -/

/-- **The server runs the system.**  In any history of requests, notifications, keeper loops and
refund loops, the backend's steps are a run of the system, from the backend's tables at the start to
those at the end, and the steps on the authentication records are a run of authentication. -/
theorem server_runs_system {env : Env} {keeper : KeeperConfig} {w : ServerWorld}
    {events : List ServerEvent} {pool : Pool ServerOp ServerOp.Ans ServerWorld}
    (h : ServerHistory env keeper w events pool) :
    SystemRun env w.backend (events.filterMap backendPart.project) pool.world.backend ∧
      ∃ threads, PoolRun performAuth (AuthEntry env) ⟨w.auth, []⟩
        (events.filterMap authPart.project) ⟨pool.world.auth, threads⟩ :=
  ⟨h.project fun _ hp => (backend_visible env).entry hp,
    h.project fun _ hp => (auth_visible env).entry hp⟩

/-- The step deletes expired refresh tokens. -/
def deletesTokens (step : Step AuthOp AuthOp.Ans AuthWorld) : Bool :=
  match step.op with
  | .sql (.deleteTokensBefore _) => true
  | _ => false

/-- A keeper that gets three ticks, the second of which trips it: it has expired payments, and has
cleaned up the authentication records. -/
theorem server_runs_system_three_ticks : ∃ steps w' authSteps pool,
    SystemRun sampleEnv (World.ofDb (onePaymentDb samplePayment)) steps w' ∧
      steps.any (fun step => decide (step.op.privilege = .expiresPayments)) = true ∧
      PoolRun performAuth (AuthEntry sampleEnv) ⟨AuthWorld.ofDb AuthDb.empty, []⟩ authSteps pool ∧
      authSteps.any deletesTokens = true := by
  obtain ⟨events, pool, hhistory, htest⟩ := serverHistory_of_moves sampleEnv sampleKeeper
    (ServerWorld.ofDb (onePaymentDb samplePayment)) threeTicks
    (fun events _ => ((events.filterMap backendPart.project).any fun step =>
      decide (step.op.privilege = .expiresPayments)) &&
        (events.filterMap authPart.project).any deletesTokens)
    (fun _ => threeTicks_entry) (by decide +kernel)
  rw [Bool.and_eq_true] at htest
  obtain ⟨hsystem, threads, hauth⟩ := server_runs_system hhistory
  exact ⟨_, _, _, _, hsystem, htest.1, hauth, htest.2⟩

end PactumCodex
