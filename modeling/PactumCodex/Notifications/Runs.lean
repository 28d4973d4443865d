import PactumCodex.Lib.History
import PactumCodex.Steps
import PactumCodex.Workers.NotificationWorker

/-!
# Runs of the notification worker

Histories of any number of notification workers, interleaved with insertions into
the queue, with writes to the tables of wallets and contacts, and with steps of the
WebSocket sessions and of the email provider.

`NotifyPhase` is what a worker has done so far, `Allows` the discipline it keeps:
it delivers and settles the job it has taken up, to the user it was answered and the
address it has decrypted.  The worker conforms to it (`NotifyEntry.conforms`).
-/

namespace PactumCodex

open Interaction Relational

/-- A program that a history may start. -/
inductive NotifyEntry (env : Env) : NotifyProgram Unit → Prop
  | worker (n : ℕ) : NotifyEntry env (NotificationWorker.run env n)
  | enqueue (s : NotificationStmt) : NotifyEntry env (.ask (.enqueue s) fun _ => .ret ())
  | accounts (wallets : Table Wallet WalletsValid)
      (contacts : Table UserContact UserContactsValid) :
      NotifyEntry env (.ask (.accounts wallets contacts) fun _ => .ret ())
  | session (action : Ws.Action) : NotifyEntry env (.ask (.session action) fun _ => .ret ())
  | provider (mailable : List String) :
      NotifyEntry env (.ask (.provider mailable) fun _ => .ret ())

/-- A history of these programs. -/
abbrev NotifyHistory (env : Env) := History performNotify (NotifyEntry env)

/-- A step, or the stop of a program. -/
abbrev NotifyEvent := Event NotifyOp NotifyOp.Ans NotifyWorld

/-- A step of such a program. -/
abbrev NotifyStep := Step NotifyOp NotifyOp.Ans NotifyWorld

/-! ## Phases -/

/-- What a worker has done so far. -/
structure NotifyPhase where
  /-- the number of its cycle -/
  cycle : ℕ
  /-- the jobs it has fetched in this cycle -/
  jobs : List NotificationJob
  /-- the job it has taken up last -/
  job : Option NotificationJob
  /-- `lookup_user_id` is done for this job -/
  looked : Bool
  /-- the user that the database has answered there -/
  user : Option Uuid
  /-- the email that was decrypted -/
  email : Option String
  /-- the WebSocket event of the job was sent -/
  pushed : Bool
  /-- the email of the job was sent -/
  mailed : Bool
  /-- it has called `mark_sent` for the job -/
  marked : Bool

namespace NotifyPhase

def start : NotifyPhase := ⟨0, [], none, false, none, none, false, false, false⟩

/-- A job has just been taken up. -/
def takingUp (phase : NotifyPhase) (job : NotificationJob) : NotifyPhase :=
  ⟨phase.cycle, phase.jobs, some job, false, none, none, false, false, false⟩

/-- The phase after an operation. -/
def next (phase : NotifyPhase) : (op : NotifyOp) → op.Ans → NotifyPhase
  | .sql (.fetchPending ..), .ok rows =>
      { start with cycle := phase.cycle + 1, jobs := rows.map Notification.job }
  | .sql (.markSent ..), _ => { phase with marked := true }
  | .sql (.userOfWallet _), answer =>
      -- `lookup_user_email` selects the user once more
      if phase.looked then phase else { phase with looked := true, user := answer.toOption.join }
  | .decrypt .., .ok email => { phase with email := some email }
  | .takeUp job, _ => phase.takingUp job
  | .sendToUser .., delivered => { phase with pushed := delivered }
  | .sendEmail .., .ok _ => { phase with mailed := true }
  | _, _ => phase

/-- The recipient of the job was reached. -/
def Reached (phase : NotifyPhase) : Prop := phase.pushed = true ∨ phase.mailed = true

/-- How a worker leaves a job: marked as sent if there is no user or no address, and otherwise only
if the recipient was reached. -/
structure Settled (phase : NotifyPhase) : Prop where
  no_user : phase.user = none → phase.marked = true ∧ ¬ phase.Reached
  no_email : phase.user ≠ none → phase.email = none → phase.marked = true ∧ phase.mailed = false
  addressed : phase.user ≠ none → phase.email ≠ none → phase.marked = true → phase.Reached

/-- The operations a program may issue. -/
def Allows (phase : NotifyPhase) : NotifyOp → Prop
  | .sql (.fetchPending _ limit) => limit = 10
  | .sql (.markSent _ id) => ∃ job, phase.job = some job ∧ job.id = id
  | .sql (.incrementAttempts id) => ∃ job, phase.job = some job ∧ job.id = id
  | .takeUp job => job ∈ phase.jobs
  | .sendToUser userId event => ∃ job ∈ phase.jobs, phase.job = some job ∧
      phase.user = some userId ∧ event = buildWsEvent job
  | .sendEmail recipient event agreementPda => ∃ job ∈ phase.jobs, phase.job = some job ∧
      phase.email = some recipient ∧ NotificationEvent.ofType job.eventType = some event ∧
      agreementPda = job.agreementPda
  | .finish job => job ∈ phase.jobs ∧ phase.job = some job ∧ phase.Settled
  | _ => True

/-- Programs conform in a phase, and end with the given property. -/
abbrev Keeps {α : Type} (p : NotifyProgram α) (phase : NotifyPhase)
    (Φ : α → NotifyPhase → Prop) : Prop := Conforms next Allows p phase Φ

end NotifyPhase

/-- What program `i` has done in the events. -/
abbrev notifyPhase (i : ℕ) (events : List NotifyEvent) : NotifyPhase :=
  phase NotifyPhase.next id NotifyPhase.start i events

/-! ## The worker keeps the discipline -/

section Worker

open NotificationWorker NotifyPhase

variable {env : Env} {s : NotifyPhase} {job : NotificationJob}

theorem lookupUserId_keeps {pubkey : String} (h : s.looked = false) :
    Keeps (NotificationWorker.lookupUserId pubkey) s
      fun r s' => s' = { s with looked := true, user := r } := by
  refine conforms_issue_bind.mpr ⟨trivial, fun answer => ?_⟩
  have hnext : s.next (.sql (.userOfWallet pubkey)) answer =
      { s with looked := true, user := answer.toOption.join } := if_neg (by simp [h])
  rw [hnext]
  cases answer <;> rfl

theorem lookupUserId_again {pubkey : String} (h : s.looked = true) :
    Keeps (NotificationWorker.lookupUserId pubkey) s fun _ s' => s' = s := by
  refine conforms_issue_bind.mpr ⟨trivial, fun answer => ?_⟩
  have hnext : s.next (.sql (.userOfWallet pubkey)) answer = s := if_pos h
  rw [hnext]
  cases answer <;> rfl

/-- What the lookup of an email leads to. -/
def Found (s : NotifyPhase) (r : Option (String × List UInt8)) (s' : NotifyPhase) : Prop :=
  (r = none ∧ s' = s) ∨ ∃ email emailNonce, r = some (email, emailNonce) ∧
    s' = { s with email := some email }

theorem decryptEmail_keeps (emailEnc emailNonce : List UInt8) :
    Keeps (decryptEmail env emailEnc emailNonce) s (Found s) := by
  unfold decryptEmail
  split
  · refine conforms_issue_bind.mpr ⟨trivial, fun answer => ?_⟩
    cases answer with
    | ok email => exact Or.inr ⟨email, emailNonce, rfl, rfl⟩
    | error e => exact Or.inl ⟨rfl, rfl⟩
  · exact Or.inl ⟨rfl, rfl⟩

theorem lookupUserEmail_keeps {pubkey : String} (h : s.looked = true) :
    Keeps (lookupUserEmail env pubkey) s (Found s) := by
  refine conforms_bind.mpr ((lookupUserId_again h).mono fun found s' hs => ?_)
  rw [hs]
  cases found with
  | none => exact Or.inl ⟨rfl, rfl⟩
  | some userId =>
      refine conforms_issue_bind.mpr ⟨trivial, fun answer => ?_⟩
      rcases answer with e | _ | ⟨emailEnc, _ | emailNonce⟩
      · exact Or.inl ⟨rfl, rfl⟩
      · exact Or.inl ⟨rfl, rfl⟩
      · exact Or.inl ⟨rfl, rfl⟩
      · exact decryptEmail_keeps emailEnc emailNonce

theorem incrementAttempts_keeps (hjob : s.job = some job) :
    Keeps (incrementAttempts job.id) s fun _ s' => s' = s := by
  refine ⟨⟨job, hjob, rfl⟩, fun answer => ?_⟩
  cases answer <;> rfl

theorem markOrCount_keeps (hjob : s.job = some job) :
    Keeps (markOrCount job.id) s fun _ s' => s' = { s with marked := true } := by
  unfold markOrCount markSent
  refine conforms_bind.mpr ⟨trivial, fun now => ⟨⟨job, hjob, rfl⟩, fun answer => ?_⟩⟩
  cases answer with
  | ok out => rfl
  | error e =>
      show Keeps (incrementAttempts job.id >>= fun _ => pure ()) { s with marked := true } _
      exact conforms_bind.mpr (incrementAttempts_keeps hjob)

/-- What the email half of a delivery leads to. -/
def EmailOutcome (s : NotifyPhase) (r : Option Bool) (s' : NotifyPhase) : Prop :=
  (s' = s ∧ r = some true) ∨ ∃ email,
    (s' = { s with email := some email } ∧ r ≠ some true) ∨
      s' = { s with email := some email, mailed := true } ∧ r = some true

theorem emailJob_keeps {email : String} (hmem : job ∈ s.jobs) (hjob : s.job = some job)
    (hemail : s.email = some email) :
    Keeps (emailJob job email (NotificationEvent.ofType job.eventType)) s fun r s' =>
      (s' = s ∧ r ≠ some true) ∨ s' = { s with mailed := true } ∧ r = some true := by
  cases hevent : NotificationEvent.ofType job.eventType with
  | none => exact Or.inl ⟨rfl, by simp⟩
  | some event =>
      refine conforms_issue_bind.mpr ⟨⟨job, hmem, hjob, hemail, hevent, rfl⟩, fun answer => ?_⟩
      cases answer with
      | ok out => exact Or.inr ⟨rfl, rfl⟩
      | error e => exact Or.inl ⟨rfl, by simp⟩

theorem deliverEmail_keeps (hmem : job ∈ s.jobs) (hjob : s.job = some job) (h : s.looked = true) :
    Keeps (deliverEmail env job) s (EmailOutcome s) := by
  refine conforms_bind.mpr ((lookupUserEmail_keeps h).mono ?_)
  rintro _ s' (⟨rfl, hs⟩ | ⟨email, emailNonce, rfl, hs⟩)
  · exact Or.inl ⟨hs, rfl⟩
  · rw [hs]
    have hkeeps := @emailJob_keeps { s with email := some email } job email hmem hjob rfl
    exact hkeeps.mono fun _ _ hlast => Or.inr ⟨email, hlast⟩

/-- The phase at the end of a job: the job is settled, and the worker is still in the same cycle. -/
structure Handled (s : NotifyPhase) (job : NotificationJob) (s' : NotifyPhase) : Prop where
  cycle : s'.cycle = s.cycle
  jobs : s'.jobs = s.jobs
  job : s'.job = some job
  settled : s'.Settled

theorem deliver_keeps (hmem : job ∈ s.jobs) (userId : Uuid) :
    Keeps (deliver env job userId) { s.takingUp job with looked := true, user := some userId }
      fun _ s' => Handled s job s' := by
  refine conforms_issue_bind.mpr ⟨⟨job, hmem, rfl, rfl, rfl⟩, fun delivered => ?_⟩
  have hemail := @deliverEmail_keeps env
    { s.takingUp job with looked := true, user := some userId, pushed := delivered }
      job hmem rfl rfl
  -- the email half first; its outcome and the push decide about the mark
  refine conforms_bind.mpr (hemail.mono ?_)
  rintro r s' (⟨rfl, rfl⟩ | ⟨email, ⟨rfl, hr⟩ | ⟨rfl, rfl⟩⟩)
  · -- no address: the job counts as sent, whether or not the event was
    show Conforms next Allows (if delivered || true then _ else _) _ _
    rw [Bool.or_true, if_pos rfl]
    refine (markOrCount_keeps rfl).mono ?_
    rintro _ s' rfl
    exact ⟨rfl, rfl, rfl, nofun, fun _ _ => ⟨rfl, rfl⟩, fun _ h => absurd rfl h⟩
  · cases r with
    | none => exact ⟨rfl, rfl, rfl, nofun, nofun, fun _ _ => nofun⟩
    | some emailSent =>
        obtain rfl : emailSent = false := by simpa using hr
        show Conforms next Allows (if delivered || false then _ else _) _ _
        cases delivered with
        -- the event was pushed, so the job is marked although the mail failed
        | true =>
            rw [Bool.or_false, if_pos rfl]
            refine (markOrCount_keeps rfl).mono ?_
            rintro _ s' rfl
            exact ⟨rfl, rfl, rfl, nofun, nofun, fun _ _ _ => Or.inl rfl⟩
        | false =>
            rw [Bool.or_false, if_neg Bool.false_ne_true]
            refine conforms_bind.mpr ((incrementAttempts_keeps rfl).mono ?_)
            rintro _ s' rfl
            exact ⟨rfl, rfl, rfl, nofun, nofun, fun _ _ => nofun⟩
  · show Conforms next Allows (if delivered || true then _ else _) _ _
    rw [Bool.or_true, if_pos rfl]
    refine (markOrCount_keeps rfl).mono ?_
    rintro _ s' rfl
    exact ⟨rfl, rfl, rfl, nofun, nofun, fun _ _ _ => Or.inr rfl⟩

theorem processJob_keeps (hjob : job ∈ s.jobs) :
    Keeps (processJob env job) s fun _ s' => s'.jobs = s.jobs := by
  refine conforms_issue_bind.mpr ⟨hjob, fun _ => conforms_bind.mpr ?_⟩
  refine (lookupUserId_keeps rfl).mono fun user s' hs => ?_
  rw [hs]
  have hhandled : Keeps (handleJob env job user) { s.takingUp job with looked := true, user }
      fun _ s' => Handled s job s' := by
    cases user with
    | some userId => exact deliver_keeps hjob userId
    | none =>
        -- nobody is tried, and the job is marked all the same
        refine (markOrCount_keeps rfl).mono ?_
        rintro _ s' rfl
        refine ⟨rfl, rfl, rfl, fun _ => ⟨rfl, ?_⟩, fun h => absurd rfl h, fun h => absurd rfl h⟩
        rintro (h | h) <;> cases h
  refine conforms_bind.mpr (hhandled.mono fun _ s' h => ?_)
  exact ⟨⟨h.jobs ▸ hjob, h.job, h.settled⟩, fun _ => h.jobs⟩

theorem processJobs_keeps {jobs : List NotificationJob} (hjobs : ∀ job ∈ jobs, job ∈ s.jobs) :
    Keeps (processJobs env jobs) s fun _ _ => True := by
  induction jobs generalizing s with
  | nil => trivial
  | cons job jobs ih =>
      obtain ⟨hjob, hrest⟩ := List.forall_mem_cons.mp hjobs
      refine conforms_bind.mpr ((processJob_keeps hjob).mono fun _ s' hs => ?_)
      refine ih fun job' hjob' => ?_
      rw [hs]
      exact hrest job' hjob'

theorem cycle_keeps : Keeps (cycle env) s fun _ _ => True := by
  refine ⟨trivial, fun now => ⟨rfl, fun answer => ?_⟩⟩
  cases answer with
  | ok rows => exact processJobs_keeps fun job hjob => hjob
  | error e => trivial

theorem run_keeps (n : ℕ) : Keeps (run env n) s fun _ _ => True := by
  induction n generalizing s with
  | zero => trivial
  | succ n ih => exact conforms_bind.mpr (cycle_keeps.mono fun _ _ _ => ih)

/-- **All programs keep the discipline.** -/
theorem NotifyEntry.conforms (p : NotifyProgram Unit) (h : NotifyEntry env p) :
    Keeps p start fun _ _ => True := by
  cases h with
  | worker n => exact run_keeps n
  | _ => exact ⟨trivial, fun _ => trivial⟩

end Worker

section Histories

variable {env : Env} {w : NotifyWorld} {events before after : List NotifyEvent}
variable {pool : Pool NotifyOp NotifyOp.Ans NotifyWorld} {i : ℕ} {step : NotifyStep}

theorem notifyHistory_allowed (h : NotifyHistory env ⟨w, []⟩ events pool)
    (hevents : events = before ++ .ran i step :: after) : (notifyPhase i before).Allows step.op :=
  h.step_allowed (fun _ => trivial) NotifyEntry.conforms hevents

end Histories

end PactumCodex
