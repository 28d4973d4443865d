import PactumCodex.Workers.Loops

/-!
# The circuit breaker and the daily sweep

Several servers can run a keeper on the same database, and each keeper decides
from its own readings.  What a loop may do depends on what it has read before:
`ServerPhase` is how far it is in its cycle, `ServerPhase.Allows` what it may do
there, and the programs of the server conform (`ServerEntry.conforms`).

`KeeperDiscipline` collects what follows for every history:

* `tripped`: a keeper that has read a low balance of the vault only waits for
  further ticks;
* `guarded`: payments are expired and reconciled, authentication records cleaned
  up and sweeps considered only after a reading in the same cycle that was
  sufficient, or could not be read at all;
* `swept`, `daily`: a sweep is marked only by a keeper that has asked in the same
  cycle and found it due, hence a day after the last mark, unless it asked before
  another keeper marked;
* `confined`: in the backend a keeper does no more than its scans;
* `refunds`, `paid`: the refund worker selects the pending refunds right after
  each of its ticks, and refunds are paid and recorded in its cycles only.

Each field is read off the phases.  `since_of_phase` turns "the program is in this
phase" into "the program has taken that step, and nothing that ends the phase
since", and the `*_of_next` lemmas say which steps lead into a phase.
-/

namespace PactumCodex

open Interaction Relational

/-! ## Phases -/

/-- What only keepers do in the backend before and after the check of the balances. -/
abbrev patrolPrivileges : List Privilege := [.mails, .remindsInvitations, .expiresInvitations]

abbrev housekeepingPrivileges : List Privilege := [.expiresPayments, .reconciles]

/-- What only refund workers do. -/
abbrev refundPrivileges : List Privilege := [.pays, .recordsRefund]

/-- What is done by loops only. -/
abbrev loopPrivileges : List Privilege :=
  patrolPrivileges ++ housekeepingPrivileges ++ refundPrivileges

/-- How far a program is. -/
inductive ServerPhase : Type
  /-- it serves a call, or is between the cycles of the refund worker -/
  | outside
  /-- a keeper that has not read the balance of the vault in this cycle -/
  | patrolling
  /-- a keeper that has not found it too low -/
  | cleared
  /-- the same, and a sweep was due -/
  | sweeping (now : ℚ)
  /-- a keeper that has found it too low -/
  | tripped
  /-- a refund worker whose cycle has just begun -/
  | polling
  /-- a refund worker that has selected the pending refunds -/
  | refunding
  deriving DecidableEq

/-- The answer is a low balance. -/
def KeeperConfig.readsLow (keeper : KeeperConfig) : (op : ServerOp) → op.Ans → Bool
  | .getBalance _, some (.ok vaultSol) => keeper.vaultIsLow vaultSol
  | _, _ => false

namespace ServerPhase

/-- The phase after an operation. -/
def next (keeper : KeeperConfig) : ServerPhase → (op : ServerOp) → op.Ans → ServerPhase
  | .tripped, _, _ => .tripped
  | _, .tick .keeper, _ => .patrolling
  | _, .tick .refundWorker, _ => .polling
  | _, .tick _, _ => .outside
  | .patrolling, .getBalance key, answer =>
      if keeper.readsLow (.getBalance key) answer then .tripped else .cleared
  | .cleared, .sweepDue now, .ok true => .sweeping now
  | .sweeping _, .markSwept _, _ => .cleared
  | .polling, .backend (.sql (.payment .pendingRefunds)), _ => .refunding
  | phase, _, _ => phase

end ServerPhase

/-- Before the check of the balances. -/
inductive ServerOp.Patrols : ServerOp → Prop
  | backend {op : Op} : op.Has patrolPrivileges → Patrols (.backend op)
  | getBalance (key : Pubkey) : Patrols (.getBalance key)

/-- After the check of the balances. -/
inductive ServerOp.Housekeeps : ServerOp → Prop
  | backend {op : Op} : op.Has housekeepingPrivileges → Housekeeps (.backend op)
  | auth (op : AuthOp) : Housekeeps (.auth op)
  | dbNow : Housekeeps .dbNow
  | utcNow : Housekeeps .utcNow
  | tokenBalance (owner mint : Pubkey) : Housekeeps (.tokenBalance owner mint)
  | sweepDue (now : ℚ) : Housekeeps (.sweepDue now)
  | tick : Housekeeps (.tick .keeper)

/-- Outside of the loops. -/
inductive ServerOp.Serves : ServerOp → Prop
  | backend {op : Op} : op.privilege ∉ loopPrivileges → Serves (.backend op)
  | tick (worker : RuntimeWorker) : Serves (.tick worker)

/-- After the selection of the pending refunds. -/
inductive ServerOp.Refunds : ServerOp → Prop
  | backend {op : Op} : op.Has refundPrivileges → Refunds (.backend op)
  | tick : Refunds (.tick .refundWorker)

/-- The operations a program may issue. -/
def ServerPhase.Allows : ServerPhase → ServerOp → Prop
  | .outside, op => op.Serves
  | .patrolling, op => op.Patrols
  | .cleared, op => op.Housekeeps
  | .sweeping _, op => op.Housekeeps ∨ ∃ now, op = .markSwept now
  | .tripped, op => op = .tick .keeper
  | .polling, op => op = .backend (.sql (.payment .pendingRefunds))
  | .refunding, op => op.Refunds

/-- A keeper that has not found the balance too low. -/
inductive ServerPhase.Cleared : ServerPhase → Prop
  | cleared : Cleared .cleared
  | sweeping (now : ℚ) : Cleared (.sweeping now)

/-! ## Conformance -/

section Conformance

variable {env : Env} {keeper : KeeperConfig} {α : Type}

/-- The program conforms, starting in the given phase. -/
abbrev ServerConforms (keeper : KeeperConfig) (p : ServerProgram α) (phase : ServerPhase)
    (Φ : α → ServerPhase → Prop) : Prop :=
  Conforms (ServerPhase.next keeper) ServerPhase.Allows p phase Φ

/-- The backend's operations that a phase allows do not lead out of it. -/
theorem embed_conforms {privileged : Op → Prop} {Keeps : ServerPhase → Prop} {phase : ServerPhase}
    {p : Backend α} (hp : p.Issues privileged)
    (hallows : ∀ phase, Keeps phase → ∀ op, privileged op → phase.Allows (.backend op))
    (hkeeps : ∀ phase, Keeps phase → phase ≠ .polling) (hphase : Keeps phase) :
    ServerConforms keeper (p.embed onBackend) phase fun _ phase => Keeps phase := by
  have hquiet : ∀ phase op, Keeps phase → (∃ op', op = .backend op' ∧ privileged op') →
      phase.Allows op ∧ ∀ answer, Keeps (phase.next keeper op answer) := by
    rintro phase op hphase ⟨op', rfl, hop⟩
    refine ⟨hallows phase hphase op' hop, fun answer => ?_⟩
    have hsame : phase.next keeper (.backend op') answer = phase := by
      cases phase with
      | polling => exact absurd rfl (hkeeps _ hphase)
      | _ => rfl
    rw [hsame]
    exact hphase
  refine conforms_keeping (issues_embed ?_) hquiet hphase
  exact hp.mono fun op hop => ⟨op, rfl, hop⟩

/-- A scan before the check. -/
theorem patrol_conforms {p : Backend α} (hp : p.Issues (Op.Has patrolPrivileges)) :
    ServerConforms keeper (p.embed onBackend) .patrolling fun _ phase => phase = .patrolling := by
  refine embed_conforms hp ?_ ?_ rfl
  · rintro _ rfl op hop
    exact .backend hop
  · rintro _ rfl
    exact nofun

theorem ServerPhase.Cleared.allows {phase : ServerPhase} (h : phase.Cleared) {op : ServerOp}
    (hop : op.Housekeeps) : phase.Allows op := by
  cases h with
  | cleared => exact hop
  | sweeping now => exact Or.inl hop

/-- A scan after the check. -/
theorem housekeeping_conforms {phase : ServerPhase} {p : Backend α}
    (hp : p.Issues (Op.Has housekeepingPrivileges)) (hphase : phase.Cleared) :
    ServerConforms keeper (p.embed onBackend) phase fun _ phase => phase.Cleared :=
  embed_conforms hp (fun _ h _ hop => h.allows (.backend hop))
    (fun _ h => by cases h <;> exact nofun) hphase

/-- What is done outside of the keeper. -/
theorem serving_conforms {p : Backend α} {privileges : List Privilege}
    (hp : p.Issues (Op.Has privileges))
    (hserves : (Privilege.reads :: privileges).all
      fun privilege => privilege ∉ loopPrivileges) :
    ServerConforms keeper (p.embed onBackend) .outside fun _ phase => phase = .outside := by
  refine embed_conforms hp ?_ ?_ rfl
  · rintro _ rfl op hop
    exact .backend (of_decide_eq_true (List.all_eq_true.mp hserves _ hop))
  · rintro _ rfl
    exact nofun

/-- A keeper is disabled when it has tripped, and otherwise in one of the given phases. -/
def StatusFits (working : ServerPhase → Prop) (status : WorkerStatus) (phase : ServerPhase) :
    Prop :=
  if status = .disabled then phase = .tripped else working phase

theorem checkHotWalletBalances_conforms :
    ServerConforms keeper (Keeper.checkHotWalletBalances env keeper) .patrolling
      (StatusFits (· = .cleared)) := by
  unfold Keeper.checkHotWalletBalances
  refine conforms_issue_bind.mpr ⟨.getBalance _, fun balance => ?_⟩
  rcases balance with _ | _ | vaultSol
  · rfl
  · rfl
  · cases hlow : keeper.vaultIsLow vaultSol with
    | true =>
        have hphase : ServerPhase.patrolling.next keeper (.getBalance keeper.vault)
            (some (.ok vaultSol)) = .tripped := by
          simp [ServerPhase.next, KeeperConfig.readsLow, hlow]
        rw [hphase]
        simp [circuitBreakerStatus, StatusFits, DegradationReason.suggestedStatus, hlow]
    | false =>
        have hphase : ServerPhase.patrolling.next keeper (.getBalance keeper.vault)
            (some (.ok vaultSol)) = .cleared := by
          simp [ServerPhase.next, KeeperConfig.readsLow, hlow]
        rw [hphase]
        simp only [circuitBreakerStatus, hlow, Bool.false_eq_true, if_false]
        split
        · rfl
        · exact conforms_issue_bind.mpr ⟨.tokenBalance .., fun _ => rfl⟩

theorem sweepStablecoins_conforms (now : ℚ) (stablecoins : List StablecoinInfo) :
    ServerConforms keeper (Keeper.sweepStablecoins env keeper stablecoins) (.sweeping now)
      fun _ phase => phase = .sweeping now := by
  induction stablecoins with
  | nil => rfl
  | cons stablecoin rest ih =>
      unfold Keeper.sweepStablecoins
      split
      · exact ih
      · exact conforms_issue_bind.mpr ⟨Or.inl (.tokenBalance ..), fun _ => ih⟩

theorem sweepTreasuryExcess_conforms :
    ServerConforms keeper (Keeper.sweepTreasuryExcess env keeper) .cleared
      fun _ phase => phase.Cleared := by
  unfold Keeper.sweepTreasuryExcess
  refine conforms_issue_bind.mpr ⟨.dbNow, fun now => ?_⟩
  refine conforms_issue_bind.mpr ⟨.sweepDue now, fun result => ?_⟩
  rcases result with _ | _ | _
  · exact .cleared
  · exact .cleared
  · simp only [Keeper.shouldSweepFromQueryResult]
    split
    · exact .sweeping now
    · refine conforms_bind.mpr ((sweepStablecoins_conforms now _).mono ?_)
      rintro _ _ rfl
      refine conforms_issue_bind.mpr ⟨Or.inl .utcNow, fun sweptAt => ?_⟩
      exact conforms_issue_bind.mpr ⟨Or.inr ⟨sweptAt, rfl⟩, fun _ => .cleared⟩

theorem cleanup_conforms {phase : ServerPhase} (hphase : phase.Cleared) :
    ServerConforms keeper (cleanupExpiredAuthRecords.embed onAuth) phase
      fun _ phase => phase.Cleared := by
  have hquiet : ∀ phase op, ServerPhase.Cleared phase → (∃ op', op = .auth op') →
      phase.Allows op ∧ ∀ answer, (phase.next keeper op answer).Cleared := by
    rintro phase op hphase ⟨op', rfl⟩
    refine ⟨hphase.allows (.auth op'), fun answer => ?_⟩
    cases hphase with
    | cleared => exact .cleared
    | sweeping now => exact .sweeping now
  exact conforms_keeping (issues_embed (Program.issues_of_forall _ fun op => ⟨op, rfl⟩)) hquiet
    hphase

theorem cycle_conforms : ServerConforms keeper (Keeper.cycle env keeper) .patrolling
    (StatusFits ServerPhase.Cleared) := by
  unfold Keeper.cycle
  refine conforms_bind.mpr ((patrol_conforms ((sendInvitationReminders_has env).mono
    fun _ h => h.mono (by simp))).mono ?_)
  rintro _ _ rfl
  refine conforms_bind.mpr ((patrol_conforms (expireStaleInvitations_has.mono
    fun _ h => h.mono (by simp))).mono ?_)
  rintro _ _ rfl
  refine conforms_bind.mpr (checkHotWalletBalances_conforms.mono fun status phase hstatus => ?_)
  -- a keeper that trips ends its cycle here
  by_cases hdisabled : status = .disabled
  · rw [if_pos hdisabled]
    rw [StatusFits, if_pos hdisabled] at hstatus
    subst hstatus hdisabled
    rfl
  · rw [if_neg hdisabled]
    rw [StatusFits, if_neg hdisabled] at hstatus
    subst hstatus
    refine conforms_bind.mpr ?_
    suffices hrest : ServerConforms keeper (Keeper.housekeeping env keeper) .cleared
        fun _ phase => phase.Cleared from
      hrest.mono fun _ phase hphase => by rwa [conforms_pure, StatusFits, if_neg hdisabled]
    unfold Keeper.housekeeping
    refine conforms_bind.mpr (sweepTreasuryExcess_conforms.mono fun _ phase hphase => ?_)
    refine conforms_bind.mpr ((housekeeping_conforms (expireTimedOutPayments_has.mono
      fun _ h => h.mono (by simp)) hphase).mono fun _ phase hphase => ?_)
    refine conforms_bind.mpr ((housekeeping_conforms ((reconcileLatePayments_has env).mono
      fun _ h => h.mono (by simp)) hphase).mono fun _ phase hphase => ?_)
    exact cleanup_conforms hphase

/-- The phases in which a keeper starts a cycle. -/
def ServerPhase.Waits (phase : ServerPhase) : Prop := phase = .outside ∨ phase.Cleared

theorem keeper_conforms (ticks : ℕ) {status : WorkerStatus} {phase : ServerPhase}
    (hphase : StatusFits ServerPhase.Waits status phase) :
    ServerConforms keeper (Keeper.run env keeper ticks status) phase fun _ _ => True := by
  induction ticks generalizing status phase with
  | zero => trivial
  | succ ticks ih =>
      unfold Keeper.run
      -- a disabled keeper waits for the next tick
      by_cases hdisabled : status = .disabled
      · have htripped : phase = .tripped := by rwa [StatusFits, if_pos hdisabled] at hphase
        subst htripped
        refine conforms_issue_bind.mpr ⟨rfl, fun _ => ?_⟩
        rw [if_pos hdisabled]
        exact ih hphase
      · have hwaits : phase.Waits := by rwa [StatusFits, if_neg hdisabled] at hphase
        have hallows : phase.Allows (.tick .keeper) := by
          rcases hwaits with rfl | hcleared
          · exact .tick .keeper
          · exact hcleared.allows .tick
        have hnext : phase.next keeper (.tick .keeper) () = .patrolling := by
          rcases hwaits with rfl | _ | _ <;> rfl
        refine conforms_issue_bind.mpr ⟨hallows, fun _ => ?_⟩
        rw [if_neg hdisabled, hnext]
        refine conforms_bind.mpr (cycle_conforms.mono fun status phase hstatus => ih ?_)
        unfold StatusFits at hstatus ⊢
        split
        · rwa [if_pos ‹_›] at hstatus
        · rw [if_neg ‹_›] at hstatus
          exact Or.inr hstatus

/-- What is done after the selection of the pending refunds. -/
theorem refunding_conforms {p : Backend α} (hp : p.Issues (Op.Has refundPrivileges)) :
    ServerConforms keeper (p.embed onBackend) .refunding fun _ phase => phase = .refunding := by
  refine embed_conforms hp ?_ ?_ rfl
  · rintro _ rfl op hop
    exact .backend hop
  · rintro _ rfl
    exact nofun

/-- The refund worker is never disabled, and a cycle begins with its query. -/
theorem processPendingRefunds_conforms :
    ServerConforms keeper ((processPendingRefunds env).embed onBackend) .polling
      fun status phase => status ≠ .disabled ∧ phase = .refunding := by
  unfold processPendingRefunds
  rw [Program.embed_bind]
  refine conforms_bind.mpr (conforms_issue.mpr ⟨rfl, fun rows => ?_⟩)
  cases rows with
  | error _ => exact ⟨nofun, rfl⟩
  | ok rows =>
      dsimp only
      rw [Program.embed_bind]
      refine conforms_bind.mpr ((refunding_conforms (refundRows_has env rows)).mono ?_)
      rintro _ _ rfl
      exact ⟨nofun, rfl⟩

/-- The loop starts outside of a cycle, and every later tick comes at the end of one. -/
theorem refundWorker_conforms (ticks : ℕ) {status : WorkerStatus} (hstatus : status ≠ .disabled)
    {phase : ServerPhase} (hphase : phase = .outside ∨ phase = .refunding) :
    ServerConforms keeper (RefundWorker.run env ticks status) phase fun _ _ => True := by
  induction ticks generalizing status phase with
  | zero => trivial
  | succ ticks ih =>
      unfold RefundWorker.run
      have hallows : phase.Allows (.tick .refundWorker) := by
        rcases hphase with rfl | rfl
        · exact .tick .refundWorker
        · exact .tick
      have hnext : phase.next keeper (.tick .refundWorker) () = .polling := by
        rcases hphase with rfl | rfl <;> rfl
      refine conforms_issue_bind.mpr ⟨hallows, fun _ => ?_⟩
      rw [if_neg hstatus, hnext]
      refine conforms_bind.mpr (processPendingRefunds_conforms.mono ?_)
      rintro status _ ⟨hstatus, rfl⟩
      exact ih hstatus (Or.inr rfl)

theorem ServerEntry.conforms {p : ServerProgram Unit} (hp : ServerEntry env keeper p) :
    ServerConforms keeper p .outside fun _ _ => True := by
  cases hp with
  | serve call hserved =>
      refine (serving_conforms (call.has env) ?_).mono fun _ _ _ => trivial
      cases call <;> first | rfl | cases hserved
  | keeper ticks => exact keeper_conforms ticks (Or.inl rfl)
  | refundWorker ticks => exact refundWorker_conforms ticks (by decide) (Or.inl rfl)

end Conformance

/-! ## What the steps say -/

/-- The balance of the vault was sufficient, or could not be read. -/
def KeeperConfig.Passes (keeper : KeeperConfig) (op : ServerOp) (answer : op.Ans) : Prop :=
  (∃ key, op = .getBalance key) ∧ keeper.readsLow op answer = false

/-- A sweep was due at `asked`. -/
def SweepDue (asked : ℚ) : (op : ServerOp) → op.Ans → Prop
  | .sweepDue now, .ok true => now = asked
  | _, _ => False

/-- When a sweep is marked, if it is. -/
def ServerOp.marks : (op : ServerOp) → op.Ans → Option ℤ
  | .markSwept now, .ok _ => some now
  | _, _ => none

/-- Done after the check of the balances only. -/
def ServerOp.guarded : ServerOp → Bool
  | .backend op => decide (op.privilege ∈ housekeepingPrivileges)
  | .auth _ => true
  | .sweepDue _ => true
  | .markSwept _ => true
  | _ => false

/-- A refund is paid, or recorded as paid. -/
def ServerOp.paysRefund : ServerOp → Bool
  | .backend op => decide (op.privilege ∈ refundPrivileges)
  | _ => false

/-- A tick of the refund worker. -/
def TicksRefunds (op : ServerOp) (_ : op.Ans) : Prop := op = .tick .refundWorker

/-- The phases of a cycle of the refund worker. -/
def ServerPhase.InRefunds (phase : ServerPhase) : Prop := phase = .polling ∨ phase = .refunding

section Steps

variable {keeper : KeeperConfig} {phase : ServerPhase} {op : ServerOp} {answer : op.Ans}
variable {step : ServerStep}

/-- A keeper is cleared by its check, until the next tick. -/
theorem cleared_of_next (h : (phase.next keeper op answer).Cleared) :
    (phase.Cleared ∧ op ≠ .tick .keeper) ∨ keeper.Passes op answer := by
  unfold ServerPhase.next at h
  split at h
  case h_5 key answer =>
    right
    split at h
    · cases h
    · exact ⟨⟨key, rfl⟩, eq_false_of_ne_true ‹_›⟩
  case h_6 => exact Or.inl ⟨.cleared, nofun⟩
  case h_7 => exact Or.inl ⟨.sweeping _, nofun⟩
  case h_9 htick _ _ _ _ =>
    left
    refine ⟨h, ?_⟩
    rintro rfl
    exact htick _ _ rfl HEq.rfl
  all_goals cases h

/-- A keeper sweeps when that was due, until the mark or the next tick. -/
theorem sweeping_of_next {asked : ℚ} (h : phase.next keeper op answer = .sweeping asked) :
    (phase = .sweeping asked ∧ op ≠ .tick .keeper ∧ ∀ now, op ≠ .markSwept now) ∨
      SweepDue asked op answer := by
  unfold ServerPhase.next at h
  split at h
  case h_5 key answer =>
    split at h
    · cases h
    · cases h
  case h_6 now =>
    right
    exact ServerPhase.sweeping.inj h
  case h_9 htick _ _ hmark _ =>
    left
    subst h
    refine ⟨rfl, ?_, ?_⟩
    · rintro rfl
      exact htick _ _ rfl HEq.rfl
    · rintro now rfl
      exact hmark asked now _ rfl rfl HEq.rfl
  all_goals cases h

/-- A cycle of the refund worker begins with its tick and ends with the next one. -/
theorem inRefunds_of_next (h : (phase.next keeper op answer).InRefunds) :
    (phase.InRefunds ∧ ∀ worker, op ≠ .tick worker) ∨ TicksRefunds op answer := by
  unfold ServerPhase.next at h
  split at h
  case h_3 => exact Or.inr rfl
  case h_5 key answer =>
    split at h <;> rcases h with h | h <;> cases h
  case h_8 => exact Or.inl ⟨Or.inl rfl, nofun⟩
  case h_9 htick _ _ _ _ =>
    left
    refine ⟨h, ?_⟩
    rintro worker rfl
    exact htick worker _ rfl HEq.rfl
  all_goals rcases h with h | h <;> cases h

theorem not_guarded {op' : Op} {privileges : List Privilege} (h : op'.Has privileges)
    (hprivileges : (Privilege.reads :: privileges).all
      fun privilege => privilege ∉ housekeepingPrivileges) :
    (ServerOp.backend op').guarded = false :=
  decide_eq_false (of_decide_eq_true (List.all_eq_true.mp hprivileges _ h))

theorem cleared_of_guarded (h : phase.Allows op) (hop : op.guarded = true) : phase.Cleared := by
  cases phase with
  | cleared => exact .cleared
  | sweeping now => exact .sweeping now
  | outside =>
      cases h with
      | backend hserves =>
          have hloop := List.mem_append_right patrolPrivileges (of_decide_eq_true hop)
          exact absurd (List.mem_append_left _ hloop) hserves
      | tick worker => cases hop
  | patrolling =>
      cases h with
      | backend hpatrol => exact absurd ((not_guarded hpatrol rfl).symm.trans hop) nofun
      | getBalance key => cases hop
  | tripped => cases h; cases hop
  | polling => cases h; cases hop
  | refunding =>
      cases h with
      | backend hrefund => exact absurd ((not_guarded hrefund rfl).symm.trans hop) nofun
      | tick => cases hop

/-- Only refund workers have the privileges of a refund. -/
theorem inRefunds_of_paysRefund (h : phase.Allows op) (hop : op.paysRefund = true) :
    phase.InRefunds := by
  have hprivilege : ∀ op', op = .backend op' → op'.privilege ∈ refundPrivileges := by
    rintro op' rfl
    exact of_decide_eq_true hop
  -- no other phase allows these privileges
  have hforeign : ∀ op' privileges, op = .backend op' → op'.Has privileges →
      (Privilege.reads :: privileges).all (fun privilege => privilege ∉ refundPrivileges) →
      phase.InRefunds := fun op' privileges hop' hhas hprivileges =>
    absurd (hprivilege op' hop') (of_decide_eq_true (List.all_eq_true.mp hprivileges _ hhas))
  have hhousekeeps : op.Housekeeps → phase.InRefunds := by
    rintro (hhas | _ | _ | _ | _ | _ | _)
    · exact hforeign _ _ rfl hhas rfl
    all_goals cases hop
  cases phase with
  | outside =>
      cases h with
      | backend hserves =>
          exact absurd (List.mem_append_right _ (hprivilege _ rfl)) hserves
      | tick worker => cases hop
  | patrolling =>
      cases h with
      | backend hhas => exact hforeign _ _ rfl hhas rfl
      | getBalance key => cases hop
  | cleared => exact hhousekeeps h
  | sweeping now =>
      rcases h with h | ⟨_, rfl⟩
      · exact hhousekeeps h
      · cases hop
  | tripped => cases h; cases hop
  | polling => exact Or.inl rfl
  | refunding => exact Or.inr rfl

theorem sweeping_of_mark {now : ℤ} (h : phase.Allows (.markSwept now)) :
    ∃ asked, phase = .sweeping asked := by
  cases phase with
  | sweeping asked => exact ⟨asked, rfl⟩
  | _ => cases h

theorem lastSweepAt_kept (h : step.Valid performServer) (hmarks : step.op.marks step.ans = none) :
    step.post.lastSweepAt = step.pre.lastSweepAt := by
  obtain ⟨w, op, answer, w'⟩ := step
  change performServer op answer w = some w' at h
  cases op with
  | backend op =>
      obtain ⟨backend, -, rfl⟩ := Option.map_eq_some_iff.mp h
      rfl
  | auth op =>
      obtain ⟨auth, -, rfl⟩ := Option.map_eq_some_iff.mp h
      rfl
  | dbNow =>
      obtain ⟨-, rfl⟩ := provided_eq_some.mp h
      rfl
  | sweepDue now =>
      cases answer with
      | error _ => cases h; rfl
      | ok due =>
          obtain ⟨-, rfl⟩ := provided_eq_some.mp h
          rfl
  | markSwept now =>
      cases answer with
      | error _ => cases h; rfl
      | ok _ => cases hmarks
  | _ => cases h; rfl

theorem lastSweepAt_marked {now : ℤ} (h : step.Valid performServer)
    (hmarks : step.op.marks step.ans = some now) : step.post.lastSweepAt = now := by
  obtain ⟨w, op, answer, w'⟩ := step
  change performServer op answer w = some w' at h
  cases op with
  | markSwept now' =>
      cases answer with
      | error _ => cases hmarks
      | ok _ =>
          cases h
          exact Option.some.inj hmarks
  | _ => cases hmarks

theorem SweepDue.spaced {asked : ℚ} (hdue : SweepDue asked step.op step.ans)
    (h : step.Valid performServer) : (step.pre.lastSweepAt : ℚ) + 86400 ≤ asked := by
  obtain ⟨w, op, answer, w'⟩ := step
  change performServer op answer w = some w' at h
  cases op with
  | sweepDue now =>
      rcases answer with _ | _ | _
      · cases hdue
      · cases hdue
      · obtain ⟨hlast, -⟩ := provided_eq_some.mp h
        have hnow : now = asked := hdue
        have hspaced : ¬ w.lastSweepAt > now - 86400 := of_decide_eq_false (by simpa using hlast)
        show (w.lastSweepAt : ℚ) + 86400 ≤ asked
        rw [hnow, not_lt] at hspaced
        exact le_sub_iff_add_le.mp hspaced
  | _ => cases hdue

end Steps

/-! ## The discipline -/

/-- Neither the next cycle nor the mark of a sweep. -/
def ServerOp.Sweeps (op : ServerOp) : Prop := op ≠ .tick .keeper ∧ ∀ now, op ≠ .markSwept now

/-- What holds of the keepers and the refund workers in a history. -/
structure KeeperDiscipline (keeper : KeeperConfig) (events : List ServerEvent) : Prop where
  /-- A keeper that has read a low balance only waits for further ticks. -/
  tripped : ∀ before i step after, events = before ++ .ran i step :: after →
    keeper.readsLow step.op step.ans = true →
    ∀ step', .ran i step' ∈ after → step'.op = .tick .keeper
  /-- Housekeeping is done by keepers that have passed their check in the same cycle. -/
  guarded : ∀ before i step after, events = before ++ .ran i step :: after →
    step.op.guarded = true → Since keeper.Passes (· ≠ .tick .keeper) i before
  /-- A sweep is marked once by a keeper that has seen in the same cycle that it was due. -/
  swept : ∀ before i step after now, events = before ++ .ran i step :: after →
    step.op = .markSwept now → ∃ asked, Since (SweepDue asked) ServerOp.Sweeps i before
  /-- Of two marks in a row, the second is due a day after the first, or another keeper has asked
  before the first. -/
  daily : ∀ before i first between j second after (now now' : ℤ),
    events = before ++ .ran i first :: (between ++ .ran j second :: after) →
    first.op.marks first.ans = some now → second.op.marks second.ans = some now' →
    (∀ k step, .ran k step ∈ between → step.op.marks step.ans = none) →
    ∃ asked, (Since (SweepDue asked) ServerOp.Sweeps j between ∧ now + 86400 ≤ asked) ∨
      (i ≠ j ∧ Since (SweepDue asked) ServerOp.Sweeps j before)
  /-- In the backend a keeper does no more than its scans. -/
  confined : ∀ before i tick after, events = before ++ .ran i tick :: after →
    tick.op = .tick .keeper → ∀ step op, .ran i step ∈ after → step.op = .backend op →
    op.Has (patrolPrivileges ++ housekeepingPrivileges)
  /-- The refund worker selects the pending refunds right after each tick. -/
  refunds : ∀ before i tick between step after,
    events = before ++ .ran i tick :: (between ++ .ran i step :: after) →
    tick.op = .tick .refundWorker → (∀ step', .ran i step' ∉ between) →
    step.op = .backend (.sql (.payment .pendingRefunds))
  /-- Refunds are paid and recorded in the cycles of a refund worker. -/
  paid : ∀ before i step after, events = before ++ .ran i step :: after →
    step.op.paysRefund = true → Since TicksRefunds (∀ worker, · ≠ .tick worker) i before

section Discipline

variable {env : Env} {keeper : KeeperConfig} {w : ServerWorld} {events : List ServerEvent}
variable {pool : Pool ServerOp ServerOp.Ans ServerWorld}

/-- How far a program is in a history; a stop changes nothing. -/
abbrev serverPhase (keeper : KeeperConfig) (i : ℕ) (events : List ServerEvent) : ServerPhase :=
  phase (ServerPhase.next keeper) id .outside i events

theorem ServerHistory.allows (h : ServerHistory env keeper w events pool)
    {before after : List ServerEvent} {i : ℕ} {step : ServerStep}
    (hevents : events = before ++ .ran i step :: after) :
    (serverPhase keeper i before).Allows step.op :=
  History.step_allowed (fun _ => trivial) (fun _ => ServerEntry.conforms) h hevents

/-- A step of a program takes it to its next phase. -/
theorem serverPhase_ran {i : ℕ} {before : List ServerEvent} {step : ServerStep} :
    serverPhase keeper i (before ++ [.ran i step]) =
      (serverPhase keeper i before).next keeper step.op step.ans := by
  rw [serverPhase, phase_ran, if_pos rfl]

/-- What a program keeps in its later steps. -/
theorem ServerHistory.lasts (h : ServerHistory env keeper w events pool) {Q : ServerPhase → Prop}
    (hnext : ∀ phase op answer, ServerPhase.Allows phase op → Q phase →
      Q (phase.next keeper op answer))
    {before after : List ServerEvent} {i : ℕ} {step step' : ServerStep}
    (hevents : events = before ++ .ran i step :: after)
    (hQ : Q (serverPhase keeper i (before ++ [.ran i step]))) (hstep' : .ran i step' ∈ after) :
    ∃ phase, Q phase ∧ phase.Allows step'.op := by
  obtain ⟨between, rest, rfl⟩ := List.append_of_mem hstep'
  have hsplit : events = (before ++ [.ran i step]) ++ between ++ .ran i step' :: rest := by
    rw [hevents]
    simp
  refine ⟨_, ?_, h.allows hsplit⟩
  rw [hsplit] at h
  obtain ⟨threads, hpast⟩ := h.of_append
  exact hpast.phase_lasts (fun _ => trivial) (fun _ => ServerEntry.conforms) hnext (fun _ h => h) hQ

theorem readsLow_trips {phase : ServerPhase} {op : ServerOp} {answer : op.Ans}
    (h : phase.Allows op) (hlow : keeper.readsLow op answer = true) :
    phase.next keeper op answer = .tripped := by
  cases op with
  | getBalance key =>
      cases phase with
      | patrolling => exact if_pos hlow
      | sweeping now => rcases h with h | ⟨_, h⟩ <;> cases h
      | _ => cases h
  | _ => cases hlow

/-- The phases of a keeper. -/
def ServerPhase.Keeps : ServerPhase → Prop
  | .outside | .polling | .refunding => False
  | _ => True

theorem ServerPhase.Keeps.next {phase : ServerPhase} {op : ServerOp} {answer : op.Ans}
    (hallows : phase.Allows op) (h : phase.Keeps) : (phase.next keeper op answer).Keeps := by
  -- a keeper never gets the ticks of another worker
  have hforeign : ∀ worker, worker ≠ .keeper → op ≠ .tick worker := by
    rintro worker hworker rfl
    cases phase with
    | outside | polling | refunding => exact h.elim
    | sweeping now =>
        rcases hallows with hallows | ⟨_, hallows⟩ <;> cases hallows
        exact hworker rfl
    | cleared | tripped =>
        cases hallows
        exact hworker rfl
    | patrolling => cases hallows
  unfold ServerPhase.next
  split
  case h_3 => exact absurd rfl (hforeign .refundWorker nofun)
  case h_4 worker _ hkeeper _ _ => exact absurd rfl (hforeign worker hkeeper)
  case h_5 => split <;> trivial
  case h_8 => exact h.elim
  case h_9 => exact h
  all_goals trivial

theorem ServerPhase.Keeps.confined {phase : ServerPhase} {op : Op} (h : phase.Keeps)
    (hallows : phase.Allows (.backend op)) :
    op.Has (patrolPrivileges ++ housekeepingPrivileges) := by
  cases phase with
  | outside | polling | refunding => exact h.elim
  | patrolling =>
      cases hallows with
      | backend hop => exact hop.mono (List.subset_append_left _ _)
  | cleared =>
      cases hallows with
      | backend hop => exact hop.mono (List.subset_append_right _ _)
  | sweeping now =>
      rcases hallows with hallows | ⟨_, hallows⟩
      · cases hallows with
        | backend hop => exact hop.mono (List.subset_append_right _ _)
      · cases hallows
  | tripped => cases hallows

theorem keeps_of_tick {phase : ServerPhase} {op : ServerOp} {answer : op.Ans}
    (h : op = .tick .keeper) : (phase.next keeper op answer).Keeps := by
  subst h
  cases phase <;> trivial

/-- A refund worker polls after its tick. -/
theorem polling_of_tick {phase : ServerPhase} {op : ServerOp} {answer : op.Ans}
    (hallows : phase.Allows op) (h : op = .tick .refundWorker) :
    phase.next keeper op answer = .polling := by
  subst h
  cases phase with
  | outside | refunding => rfl
  | sweeping now => rcases hallows with hallows | ⟨_, hallows⟩ <;> cases hallows
  | _ => cases hallows

/-- The phase of a program that takes no steps stays as it is. -/
theorem serverPhase_idle {i : ℕ} {before between : List ServerEvent}
    (hidle : ∀ step, .ran i step ∉ between) :
    serverPhase keeper i (before ++ between) = serverPhase keeper i before := by
  induction between using List.reverseRecOn with
  | nil => rw [List.append_nil]
  | append_singleton past event ih =>
      have hpast := ih fun step hstep => hidle step (List.mem_append_left _ hstep)
      rw [← List.append_assoc, serverPhase]
      cases event with
      | stopped j =>
          rw [phase_stopped, id_eq, ite_self]
          exact hpast
      | ran j step =>
          have hne : j ≠ i := by
            rintro rfl
            exact hidle step (List.mem_append_right _ List.mem_cons_self)
          rw [phase_ran, if_neg hne]
          exact hpast

/-- Between a mark and the next one, the time of the last sweep is that of the mark. -/
theorem ServerHistory.lastSweepAt (h : ServerHistory env keeper w events pool)
    {before between after : List ServerEvent} {i j : ℕ} {mark step : ServerStep} {now : ℤ}
    (hevents : events = before ++ .ran i mark :: (between ++ .ran j step :: after))
    (hmark : mark.op.marks mark.ans = some now)
    (hbetween : ∀ k step, .ran k step ∈ between → step.op.marks step.ans = none) :
    step.Valid performServer ∧ step.pre.lastSweepAt = now := by
  have hsplit : events = ((before ++ [.ran i mark]) ++ between) ++ .ran j step :: after := by
    rw [hevents]
    simp
  have hvalid : mark.Valid performServer := by
    rw [hevents] at h
    exact h.at_step.1
  rw [hsplit] at h
  obtain ⟨hstep, threads, hpast⟩ := h.at_step
  refine ⟨hstep, ?_⟩
  refine hpast.preserved (P := fun w => w.lastSweepAt = now) ?_ ?_
  · rintro past k step' later rfl hvalid' hpre
    exact (lastSweepAt_kept hvalid' (hbetween k step' (by simp))).trans hpre
  · rw [worldAfter_snoc]
    exact lastSweepAt_marked hvalid hmark

theorem ServerHistory.swept (h : ServerHistory env keeper w events pool)
    {before after : List ServerEvent} {i : ℕ} {step : ServerStep} {now : ℤ}
    (hevents : events = before ++ .ran i step :: after) (hmark : step.op = .markSwept now) :
    ∃ asked, Since (SweepDue asked) ServerOp.Sweeps i before := by
  have hallows := h.allows hevents
  rw [hmark] at hallows
  obtain ⟨asked, hphase⟩ := sweeping_of_mark hallows
  refine ⟨asked, ?_⟩
  refine since_of_phase (Q := fun phase => phase = ServerPhase.sweeping asked) ?_ ?_ ?_ hphase
  · exact nofun
  · exact fun _ h => h
  · exact fun _ _ _ => sweeping_of_next

theorem op_of_marks {op : ServerOp} {answer : op.Ans} {now : ℤ} (h : op.marks answer = some now) :
    op = .markSwept now := by
  cases op with
  | markSwept now' =>
      cases answer with
      | error _ => cases h
      | ok _ => rw [Option.some.inj h]
  | _ => cases h

theorem not_due_of_marks {op : ServerOp} {answer : op.Ans} {now : ℤ} {asked : ℚ}
    (h : op.marks answer = some now) : ¬ SweepDue asked op answer := by
  cases op with
  | markSwept now' => exact id
  | _ => cases h

theorem ServerHistory.daily (h : ServerHistory env keeper w events pool)
    {before between after : List ServerEvent} {i j : ℕ} {first second : ServerStep} {now now' : ℤ}
    (hevents : events = before ++ .ran i first :: (between ++ .ran j second :: after))
    (hfirst : first.op.marks first.ans = some now)
    (hsecond : second.op.marks second.ans = some now')
    (hbetween : ∀ k step, .ran k step ∈ between → step.op.marks step.ans = none) :
    ∃ asked, (Since (SweepDue asked) ServerOp.Sweeps j between ∧ now + 86400 ≤ asked) ∨
      (i ≠ j ∧ Since (SweepDue asked) ServerOp.Sweeps j before) := by
  have hsplit : events = (before ++ .ran i first :: between) ++ .ran j second :: after := by
    rw [hevents]
    simp
  obtain ⟨asked, past, ask, rest, hask, hdue, hsweeps⟩ := h.swept hsplit (op_of_marks hsecond)
  refine ⟨asked, ?_⟩
  rcases positions_trichotomy hask with ⟨-, hsame⟩ | ⟨between', rfl⟩ | ⟨between', rfl⟩
  · -- to mark is not to ask
    obtain ⟨rfl, rfl⟩ := Event.ran.inj hsame
    exact absurd hdue (not_due_of_marks hfirst)
  · -- the second keeper asked after the first mark, and saw its time
    left
    rw [List.append_assoc, List.cons_append, List.append_cancel_left_eq, List.cons.injEq] at hask
    obtain ⟨-, rfl⟩ := hask
    rw [List.append_assoc, List.cons_append] at hevents
    obtain ⟨hvalid, hlast⟩ := h.lastSweepAt hevents hfirst fun k step hstep =>
      hbetween k step (List.mem_append_left _ hstep)
    have hspaced := hdue.spaced hvalid
    rw [hlast] at hspaced
    exact ⟨⟨between', ask, rest, rfl, hdue, hsweeps⟩, hspaced⟩
  · -- the second keeper asked before the first mark, which therefore is not its own
    right
    rw [List.append_assoc, List.cons_append, List.append_cancel_left_eq, List.cons.injEq] at hask
    obtain ⟨-, rfl⟩ := hask
    constructor
    · rintro rfl
      exact (hsweeps first (by simp)).2 now (op_of_marks hfirst)
    · exact ⟨past, ask, between', rfl, hdue, fun step hstep =>
        hsweeps step (List.mem_append_left _ hstep)⟩

/-- **Keepers are disciplined.** -/
theorem keeper_discipline (h : ServerHistory env keeper w events pool) :
    KeeperDiscipline keeper events where
  tripped before i step after hevents hlow step' hstep' := by
    have htripped : serverPhase keeper i (before ++ [.ran i step]) = .tripped := by
      rw [serverPhase_ran]
      exact readsLow_trips (h.allows hevents) hlow
    obtain ⟨_, rfl, hallows⟩ := h.lasts (Q := (· = .tripped)) (by rintro _ op answer - rfl; rfl)
      hevents htripped hstep'
    exact hallows
  guarded before i step after hevents hguarded := by
    refine since_of_phase ?_ ?_ ?_ (cleared_of_guarded (h.allows hevents) hguarded)
    · exact nofun
    · exact fun _ h => h
    · exact fun _ _ _ => cleared_of_next
  swept before i step after now hevents hmark := h.swept hevents hmark
  daily before i first between j second after now now' hevents := h.daily hevents
  confined before i tick after hevents htick step op hstep hop := by
    have hkeeps : (serverPhase keeper i (before ++ [.ran i tick])).Keeps := by
      rw [serverPhase_ran]
      exact keeps_of_tick htick
    obtain ⟨phase, hphase, hallows⟩ := h.lasts (fun _ _ _ h h' => h'.next h) hevents hkeeps hstep
    rw [hop] at hallows
    exact hphase.confined hallows
  refunds before i tick between step after hevents htick hidle := by
    have hpolling : serverPhase keeper i (before ++ [.ran i tick]) = .polling := by
      rw [serverPhase_ran]
      exact polling_of_tick (h.allows hevents) htick
    have hsplit : events = ((before ++ [.ran i tick]) ++ between) ++ .ran i step :: after := by
      rw [hevents]
      simp
    have hallows := h.allows hsplit
    rw [serverPhase_idle hidle, hpolling] at hallows
    exact hallows
  paid before i step after hevents hpays := by
    refine since_of_phase ?_ ?_ ?_ (inRefunds_of_paysRefund (h.allows hevents) hpays)
    · exact (·.elim nofun nofun)
    · exact fun _ h => h
    · exact fun _ _ _ => inRefunds_of_next

end Discipline

/-- A keeper that marks a sweep in its first cycle and trips in its second. -/
theorem keeper_discipline_three_ticks : ∃ events, ∃ pool : Pool ServerOp ServerOp.Ans ServerWorld,
    (pool.world.lastSweepAt = 100000 ∧ events.any (fun event => match event with
      | .ran _ step => sampleKeeper.readsLow step.op step.ans
      | .stopped _ => false) = true) ∧ KeeperDiscipline sampleKeeper events := by
  obtain ⟨events, pool, hhistory, htest⟩ := serverHistory_of_moves sampleEnv sampleKeeper
    (ServerWorld.ofDb (onePaymentDb samplePayment)) threeTicks
    (fun events w => decide (w.lastSweepAt = 100000) && events.any fun event => match event with
      | .ran _ step => sampleKeeper.readsLow step.op step.ans
      | .stopped _ => false)
    (fun _ => threeTicks_entry) (by decide +kernel)
  rw [Bool.and_eq_true, decide_eq_true_iff] at htest
  exact ⟨events, pool, htest, keeper_discipline hhistory⟩

end PactumCodex
