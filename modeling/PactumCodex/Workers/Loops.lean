import PactumCodex.Audit
import PactumCodex.Auth.Replay
import PactumCodex.Lib.Embedding
import PactumCodex.Replay
import PactumCodex.Workers.Health

/-!
# The loops of the keeper and of the refund worker

`run` of `workers/keeper.rs` with its seven scans in their order, the hot-wallet
check (scan 3) and the treasury sweep (scan 4), and `run` of
`workers/refund_worker.rs`.  Both are infinite loops; the programs here take any
number of ticks and can be cut off anywhere.

The scans on invitations, payments and authentication records are programs of
the backend and of authentication.  A `ServerWorld` holds the worlds of both and
the row of `sweep_config`, and `ServerEntry` lists what is started on it:
requests, notifications of the log subscription and the two loops.  Log output
and the process health are left out, and so are the requests that change
accounts, which the backend only reads.
-/

namespace PactumCodex

open Interaction Relational

/-! ## Operations -/

/-- An operation of a program of the server. -/
inductive ServerOp : Type
  | backend (op : Op)
  | auth (op : AuthOp)
  /-- `extract(epoch from now())` in the query for the sweep -/
  | dbNow
  /-- `chrono::Utc::now().timestamp()` -/
  | utcNow
  /-- `interval.tick().await` in the loop of a worker -/
  | tick (worker : RuntimeWorker)
  /-- `rpc.get_balance`, in a blocking task; `none` if the task failed -/
  | getBalance (key : Pubkey)
  /-- `rpc.get_token_account_balance` of the associated account, in a blocking task, and the text of
  the amount -/
  | tokenBalance (owner mint : Pubkey)
  /-- `SELECT NOT EXISTS(SELECT 1 FROM sweep_config WHERE last_sweep_at > now - 86400)` -/
  | sweepDue (now : ℚ)
  /-- `INSERT INTO sweep_config (id, last_sweep_at) VALUES (1, now) ON CONFLICT (id) DO UPDATE` -/
  | markSwept (now : ℤ)

/-- The answer of an operation. -/
@[reducible] def ServerOp.Ans : ServerOp → Type
  | backend op => op.Ans
  | auth op => op.Ans
  | dbNow => ℚ
  | utcNow => ℤ
  | tick _ => Unit
  | getBalance _ => Option (Except Failure UInt64)
  | tokenBalance .. => Option (Except Failure String)
  | sweepDue _ => Except Failure Bool
  | markSwept _ => Except Failure Unit

/-- The tables of the backend and of authentication, and `last_sweep_at` in the only row of
`sweep_config`. -/
structure ServerWorld where
  backend : World
  auth : AuthWorld
  lastSweepAt : ℤ

/-- The meaning of the operations.  The query for the sweep reads the database clock no earlier than
the other programs have; the backend's readings are in whole seconds. -/
def performServer : (op : ServerOp) → op.Ans → ServerWorld → Option ServerWorld
  | .backend op, answer, w => (perform op answer w.backend).map fun backend => { w with backend }
  | .auth op, answer, w => (performAuth op answer w.auth).map fun auth => { w with auth }
  | .dbNow, now, w => provided (w.backend.clock ≤ wholeSeconds now ∧ w.auth.clock ≤ now) w
  | .utcNow, _, w => some w
  | .tick _, _, w => some w
  | .getBalance _, _, w => some w
  | .tokenBalance .., _, w => some w
  | .sweepDue now, .ok due, w => provided (due = !decide (w.lastSweepAt > now - 86400)) w
  | .sweepDue _, .error _, w => some w
  | .markSwept now, .ok _, w => some { w with lastSweepAt := now }
  | .markSwept _, .error _, w => some w

/-- A program of the server. -/
abbrev ServerProgram (α : Type) := Program ServerOp ServerOp.Ans α

/-- A step of a program of the server. -/
abbrev ServerStep := Step ServerOp ServerOp.Ans ServerWorld

/-! ## The parts of the server -/

/-- An operation of the backend, with its answer. -/
def ServerOp.backend? : (op : ServerOp) → op.Ans → Option (Σ op : Op, op.Ans)
  | .backend op, answer => some ⟨op, answer⟩
  | _, _ => none

/-- An operation of authentication, with its answer. -/
def ServerOp.auth? : (op : ServerOp) → op.Ans → Option (Σ op : AuthOp, op.Ans)
  | .auth op, answer => some ⟨op, answer⟩
  | _, _ => none

section Parts

variable {op : ServerOp} {answer : op.Ans} {w w' : ServerWorld}

theorem performs_backend {op' : Op} {answer' : op'.Ans}
    (hpart : op.backend? answer = some ⟨op', answer'⟩)
    (h : performServer op answer w = some w') :
    perform op' answer' w.backend = some w'.backend := by
  cases op with
  | backend op =>
      cases hpart
      obtain ⟨backend, hbackend, rfl⟩ := Option.map_eq_some_iff.mp h
      exact hbackend
  | _ => cases hpart

theorem performs_auth {op' : AuthOp} {answer' : op'.Ans}
    (hpart : op.auth? answer = some ⟨op', answer'⟩)
    (h : performServer op answer w = some w') : performAuth op' answer' w.auth = some w'.auth := by
  cases op with
  | auth op =>
      cases hpart
      obtain ⟨auth, hauth, rfl⟩ := Option.map_eq_some_iff.mp h
      exact hauth
  | _ => cases hpart

theorem leaves_backend (hpart : op.backend? answer = none)
    (h : performServer op answer w = some w') : w'.backend = w.backend := by
  cases op with
  | backend op => cases hpart
  | auth op =>
      obtain ⟨auth, -, rfl⟩ := Option.map_eq_some_iff.mp h
      rfl
  | dbNow =>
      obtain ⟨-, rfl⟩ := provided_eq_some.mp h
      rfl
  | sweepDue now =>
      cases answer with
      | error _ => cases h; rfl
      | ok due =>
          obtain ⟨-, rfl⟩ := provided_eq_some.mp h
          rfl
  | markSwept now => cases answer <;> cases h <;> rfl
  | _ => cases h; rfl

theorem leaves_auth (hpart : op.auth? answer = none)
    (h : performServer op answer w = some w') : w'.auth = w.auth := by
  cases op with
  | auth op => cases hpart
  | backend op =>
      obtain ⟨backend, -, rfl⟩ := Option.map_eq_some_iff.mp h
      rfl
  | dbNow =>
      obtain ⟨-, rfl⟩ := provided_eq_some.mp h
      rfl
  | sweepDue now =>
      cases answer with
      | error _ => cases h; rfl
      | ok due =>
          obtain ⟨-, rfl⟩ := provided_eq_some.mp h
          rfl
  | markSwept now => cases answer <;> cases h <;> rfl
  | _ => cases h; rfl

end Parts

/-- The operations of the backend, carried out by the server. -/
def onBackend : Lifting perform performServer where
  lift := .backend
  answer := fun _ answer => answer
  view := ServerWorld.backend
  performs_lift := fun h => performs_backend rfl h

/-- The operations of authentication, carried out by the server. -/
def onAuth : Lifting performAuth performServer where
  lift := .auth
  answer := fun _ answer => answer
  view := ServerWorld.auth
  performs_lift := fun h => performs_auth rfl h

/-- The backend in the server. -/
def backendPart : Embedding perform performServer where
  toLifting := onBackend
  part := ServerOp.backend?
  part_lift := fun _ _ => rfl
  performs := performs_backend
  leaves := leaves_backend

/-- Authentication in the server. -/
def authPart : Embedding performAuth performServer where
  toLifting := onAuth
  part := ServerOp.auth?
  part_lift := fun _ _ => rfl
  performs := performs_auth
  leaves := leaves_auth

/-! ## The keeper -/

/-- What the keeper reads besides `Env`. -/
structure KeeperConfig where
  vault : Pubkey
  treasury : Pubkey
  treasurySweepDest : String
  /-- `vault_sol as f64 / 1_000_000_000.0 < vault_min_sol_circuit_breaker` -/
  vaultIsLow : UInt64 → Bool

namespace Keeper

variable (env : Env) (keeper : KeeperConfig)

/-- Scan 3.  A balance that cannot be read is not low. -/
def checkHotWalletBalances : ServerProgram WorkerStatus := do
  match ← Program.issue (ServerOp.getBalance keeper.vault) with
  | some (.ok vaultSol) =>
      match circuitBreakerStatus (keeper.vaultIsLow vaultSol) with
      | some (status, _) => return status
      | none =>
          match env.crates.pubkeyFromStr env.config.stablecoinRegistry.usdc.mint with
          | none => return .healthy
          | some usdcMint =>
              -- the balance only decides about a warning
              let _ ← Program.issue (ServerOp.tokenBalance keeper.treasury usdcMint)
              return .healthy
  | _ => return .healthy

def shouldSweepFromQueryResult : Except Failure Bool → Option Bool
  | .ok should => some should
  | .error _ => none

/-- The loop of scan 4: the amounts that would be swept are only logged. -/
def sweepStablecoins : List StablecoinInfo → ServerProgram Unit
  | [] => pure ()
  | stablecoin :: rest => do
      match env.crates.pubkeyFromStr stablecoin.mint with
      | none => sweepStablecoins rest
      | some mint =>
          let _ ← Program.issue (ServerOp.tokenBalance keeper.treasury mint)
          sweepStablecoins rest

/-- Scan 4. -/
def sweepTreasuryExcess : ServerProgram Unit := do
  let now ← Program.issue ServerOp.dbNow
  let result ← Program.issue (ServerOp.sweepDue now)
  match shouldSweepFromQueryResult result with
  | some true =>
      match env.crates.pubkeyFromStr keeper.treasurySweepDest with
      | none => return ()
      | some _ =>
          let registry := env.config.stablecoinRegistry
          sweepStablecoins env keeper [registry.usdc, registry.usdt, registry.pyusd]
          let now ← Program.issue ServerOp.utcNow
          let _ ← Program.issue (ServerOp.markSwept now)
          return ()
  | _ => return ()

/-- The scans after the check of the balances. -/
def housekeeping : ServerProgram Unit := do
  sweepTreasuryExcess env keeper
  expireTimedOutPayments.embed onBackend
  (reconcileLatePayments env).embed onBackend
  cleanupExpiredAuthRecords.embed onAuth

/-- One iteration of the loop of a keeper that is not disabled. -/
def cycle : ServerProgram WorkerStatus := do
  (sendInvitationReminders env).embed onBackend
  expireStaleInvitations.embed onBackend
  let status ← checkHotWalletBalances env keeper
  if status = .disabled then return status
  else do
    housekeeping env keeper
    return status

/-- The loop of the keeper. -/
def run : ℕ → WorkerStatus → ServerProgram Unit
  | 0, _ => pure ()
  | ticks + 1, status => do
      Program.issue (ServerOp.tick .keeper)
      if status = .disabled then run ticks status
      else do
        let status ← cycle env keeper
        run ticks status

end Keeper

/-! ## The refund worker -/

/-- The loop of the refund worker. -/
def RefundWorker.run (env : Env) : ℕ → WorkerStatus → ServerProgram Unit
  | 0, _ => pure ()
  | ticks + 1, status => do
      Program.issue (ServerOp.tick .refundWorker)
      if status = .disabled then RefundWorker.run env ticks status
      else do
        let status ← (processPendingRefunds env).embed onBackend
        RefundWorker.run env ticks status

/-! ## The server -/

/-- The invocation is started by the loop of a worker. -/
def Invocation.scheduled : Invocation → Bool
  | .sendInvitationReminders => true
  | .expireStaleInvitations => true
  | .expireTimedOutPayments => true
  | .reconcileLatePayments => true
  | .processPendingRefunds => true
  | _ => false

/-- The programs of the server. -/
inductive ServerEntry (env : Env) (keeper : KeeperConfig) : ServerProgram Unit → Prop
  | serve (call : Invocation) : call.scheduled = false →
      ServerEntry env keeper ((call.program env).embed onBackend)
  | keeper (ticks : ℕ) : ServerEntry env keeper (Keeper.run env keeper ticks .healthy)
  | refundWorker (ticks : ℕ) : ServerEntry env keeper (RefundWorker.run env ticks .healthy)

/-- An event of a history of the server. -/
abbrev ServerEvent := Event ServerOp ServerOp.Ans ServerWorld

/-- Histories of the server. -/
abbrev ServerHistory (env : Env) (keeper : KeeperConfig) (w : ServerWorld)
    (events : List ServerEvent) (pool : Pool ServerOp ServerOp.Ans ServerWorld) : Prop :=
  History performServer (ServerEntry env keeper) ⟨w, []⟩ events pool

/-! ## Replays -/

/-- A vault is low below 0.5 SOL. -/
def sampleKeeper : KeeperConfig where
  vault := Vector.replicate 32 1
  treasury := Vector.replicate 32 2
  treasurySweepDest := aliceKey
  vaultIsLow vaultSol := vaultSol < 500000000

/-- The answer of every operation: all statements and calls succeed, `now` is the time of all
clocks, and accounts hold `balance`. -/
def cooperateServer (now : ℤ) (balance : UInt64) : (op : ServerOp) → ServerWorld → op.Ans
  | .backend op, w => cooperate now op w.backend
  | .auth op, w => cooperateAuth now now op w.auth
  | .dbNow, _ => now
  | .utcNow, _ => now
  | .tick _, _ => ()
  | .getBalance _, _ => some (.ok balance)
  | .tokenBalance .., _ => some (.ok (toString balance))
  | .sweepDue now, w => .ok !decide (w.lastSweepAt > now - 86400)
  | .markSwept _, _ => .ok ()

/-- The server at its first start, with the given tables of the backend. -/
def ServerWorld.ofDb (db : Db) : ServerWorld := ⟨World.ofDb db, AuthWorld.ofDb AuthDb.empty, 0⟩

/-- Recorded schedules are histories of the server. -/
theorem serverHistory_of_moves (env : Env) (keeper : KeeperConfig) (w : ServerWorld)
    (moves : List (Move ServerOp ServerOp.Ans ServerWorld))
    (test : List ServerEvent → ServerWorld → Bool)
    (hentry : ∀ p, .start p ∈ moves → ServerEntry env keeper p)
    (h : (record performServer [] ⟨w, []⟩ moves).any
      (fun result => test result.1 result.2.world) = true) :
    ∃ events pool, ServerHistory env keeper w events pool ∧ test events pool.world = true :=
  exists_history_of_record (fun events pool => test events pool.world) hentry h

/-- A keeper that gets three ticks; from its second cycle on the balance of the vault is low. -/
def threeTicks : List (Move ServerOp ServerOp.Ans ServerWorld) :=
  [Keeper.run sampleEnv sampleKeeper 3 .healthy].map .start ++
    [(22, cooperateServer 100000 1000000000), (7, cooperateServer 100060 1000)].flatMap
      fun turn => List.replicate turn.1 (.run 0 turn.2)

theorem threeTicks_entry {p : ServerProgram Unit} (hp : .start p ∈ threeTicks) :
    ServerEntry sampleEnv sampleKeeper p := by
  obtain rfl := List.mem_singleton.mp (mem_of_start_mem hp)
  exact .keeper 3

end PactumCodex
