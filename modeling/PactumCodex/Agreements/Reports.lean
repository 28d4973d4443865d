import PactumCodex.Agreements.Listener
import PactumCodex.Audit
import PactumCodex.Workers.ExpiryWorker

/-!
# Reported agreements

What the backend knows of agreements, it knows from the log subscription.  A
party row says that the agreement was created, that the party has signed, that
the agreement was cancelled or has expired (`Party.Says`), and a detected event
may report the same (`ParsedEvent.Reports`).  `agreement_records_reported`:
whatever programs run, whatever a row says was said before the run or was
reported since.

Beside the invocations of the backend, cycles of the expiry worker run here; they
write party rows too.

## Strategy

* `says_step`: a row says nothing new, unless a statement records it.
* `Actor.records`: whoever records something handles an event that reports it.  Of
  the invocations only notifications write party rows at all, which their
  privileges show, and the expiry worker only locks them.
* `says_of_chain` puts both together along a run.

In the other direction a creation and a signature are never taken back
(`says_kept`), while the way an agreement has ended may be written over.
-/

namespace PactumCodex

open Interaction Relational

/-! ## Programs -/

/-- An invocation of the backend, or a cycle of the expiry worker. -/
inductive Actor : Type
  | invocation (call : Invocation)
  | expireDueAgreements (vaultKey : Pubkey)

def Actor.program (env : Env) : Actor → Backend Unit
  | .invocation call => call.program env
  | .expireDueAgreements vaultKey =>
      PactumCodex.expireDueAgreements env vaultKey >>= fun _ => pure ()

/-- A step that shows who takes it. -/
abbrev ActorStep := Step (Actor × Op) (TaggedAns Actor Op.Ans) World

/-- Runs of any interleaving of invocations and cycles of the expiry worker. -/
abbrev ActorRun (env : Env) (w : World) (steps : List ActorStep) (w' : World) : Prop :=
  TaggedPoolRun perform (Actor.program env) w steps w'

/-- The event was detected in a notification that is being handled in the run. -/
def Detected (env : Env) (event : ParsedEvent) (steps : List ActorStep) : Prop :=
  ∃ step ∈ steps, ∃ response, step.op.1 = .invocation (.processNotification response) ∧
    detectedEvent env response = some event

theorem Detected.append {env : Env} {event : ParsedEvent} {steps : List ActorStep}
    (h : Detected env event steps) (later : List ActorStep) :
    Detected env event (steps ++ later) := by
  obtain ⟨step, hmem, hdetected⟩ := h
  exact ⟨step, List.mem_append_left _ hmem, hdetected⟩

/-! ## Records -/

/-- Something that happens to an agreement. -/
inductive Happening : Type
  | created (agreementPda creatorPubkey partyPubkey : String)
  | signed (agreementPda partyPubkey : String)
  | cancelled (agreementPda : String)
  | expired (agreementPda : String)

/-- The party row says that this has happened. -/
def Party.Says (row : Party) : Happening → Prop
  | .created agreementPda creatorPubkey partyPubkey => row.agreementPda = agreementPda ∧
      row.creatorPubkey = creatorPubkey ∧ row.partyPubkey = partyPubkey
  | .signed agreementPda partyPubkey => row.agreementPda = agreementPda ∧
      row.partyPubkey = partyPubkey ∧ row.signedAt ≠ none
  | .cancelled agreementPda => row.agreementPda = agreementPda ∧ row.status = .cancelled
  | .expired agreementPda => row.agreementPda = agreementPda ∧ row.status = .expired

/-- Some party row says that this has happened. -/
def World.Says (w : World) (happening : Happening) : Prop :=
  ∃ row ∈ w.db.parties.rows, row.Says happening

/-- The event reports that this has happened. -/
def ParsedEvent.Reports (event : ParsedEvent) : Happening → Prop
  | .created agreementPda creatorPubkey partyPubkey => event.instruction = .createAgreement ∧
      event.agreementPda = agreementPda ∧ event.creator.getD "unknown" = creatorPubkey ∧
      partyPubkey ∈ event.parties
  | .signed agreementPda partyPubkey => event.instruction = .signAgreement ∧
      event.agreementPda = agreementPda ∧ event.signer.getD "unknown" = partyPubkey
  | .cancelled agreementPda => event.instruction = .cancelAgreement ∧
      event.agreementPda = agreementPda
  | .expired agreementPda => event.instruction = .expireAgreement ∧
      event.agreementPda = agreementPda

/-- What a statement puts into the rows that they may not have said before. -/
def PartyStmt.records : PartyStmt → Option Happening
  | .insert partyPubkey agreementPda creatorPubkey _ =>
      some (.created agreementPda creatorPubkey partyPubkey)
  | .sign _ agreementPda signer => some (.signed agreementPda signer)
  | .setStatus .cancelled agreementPda => some (.cancelled agreementPda)
  | .setStatus .expired agreementPda => some (.expired agreementPda)
  | _ => none

/-- What an operation records. -/
def Op.records : Op → Option Happening
  | .sql (.party s) => s.records
  | _ => none

section Records

variable {happening : Happening}

/-- An updated row says what it said, and what the statement records. -/
theorem PartyStmt.onRow_says {s : PartyStmt} {row : Party} (h : (s.onRow row).Says happening) :
    row.Says happening ∨ s.records = some happening := by
  cases s with
  | sign now agreementPda signer =>
      simp only [onRow] at h
      split at h
      · rename_i hmatched
        obtain ⟨hpda, hsigner⟩ := hmatched
        cases happening with
        | signed agreementPda' party' =>
            obtain ⟨rfl, rfl, -⟩ := h
            exact Or.inr (by rw [records, ← hpda, ← hsigner])
        | created | cancelled | expired => exact Or.inl h
      · exact Or.inl h
  | setStatus status agreementPda =>
      simp only [onRow] at h
      split at h
      · rename_i hpda
        cases happening with
        | created | signed => exact Or.inl h
        | cancelled | expired =>
            obtain ⟨rfl, rfl⟩ := h
            exact Or.inr (by rw [records, ← hpda])
      · exact Or.inl h
  -- the status that the lock writes says nothing
  | lockForExpiry | unlockFromExpiry =>
      simp only [onRow] at h
      split at h
      · cases happening with
        | created | signed => exact Or.inl h
        | cancelled | expired => cases h.2
      · exact Or.inl h
  | insert | unsignedCount | partiesOf | due => exact Or.inl h

/-- **Step lemma.**  A row says nothing new, unless a statement records it. -/
theorem says_step {step : BackendStep} (h : step.Valid perform)
    (hsaid : step.post.Says happening) :
    step.pre.Says happening ∨ step.op.records = some happening := by
  obtain ⟨row, hrow, hsaid⟩ := hsaid
  have hmem : row ∈ step.post.partyRows row.agreementPda := mem_partyRows.mpr ⟨hrow, rfl⟩
  have hold : ∀ old ∈ step.pre.partyRows row.agreementPda, old.Says happening →
      step.pre.Says happening := fun old hmem hold => ⟨old, (mem_partyRows.mp hmem).1, hold⟩
  rcases partyRows_step row.agreementPda h with hsame | ⟨s, out, hexecutes, hrows⟩
  · exact Or.inl (hold row (hsame ▸ hmem) hsaid)
  · have hrecords : step.op.records = s.records := by rw [hexecutes]; rfl
    rw [hrows] at hmem
    rw [hrecords]
    have hupdated : row ∈ (step.pre.partyRows row.agreementPda).map s.onRow →
        step.pre.Says happening ∨ s.records = some happening := by
      intro hmem
      obtain ⟨old, hmem, heq⟩ := List.mem_map.mp hmem
      rw [← heq] at hsaid
      exact (PartyStmt.onRow_says hsaid).imp_left (hold old hmem)
    -- an insertion adds a row; every other statement updates them in place
    cases s with
    | insert party agreementPda creator now =>
        simp only [PartyStmt.onRows] at hmem
        split at hmem
        · rcases List.mem_append.mp hmem with hmem | hmem
          · exact Or.inl (hold row hmem hsaid)
          · -- the new row says that it was created, and nothing else
            rw [List.mem_singleton.mp hmem] at hsaid
            refine Or.inr ?_
            cases happening with
            | created agreementPda' creator' party' =>
                obtain ⟨rfl, rfl, rfl⟩ := hsaid
                rfl
            | signed => exact absurd rfl hsaid.2.2
            | cancelled | expired => cases hsaid.2
        · exact Or.inl (hold row hmem hsaid)
    | _ => exact hupdated hmem

end Records

/-- What is never taken back.  The way an agreement has ended may be written over. -/
def Happening.lasts : Happening → Bool
  | .created .. => true
  | .signed .. => true
  | .cancelled _ => false
  | .expired _ => false

theorem PartyStmt.says_onRow {s : PartyStmt} {row : Party} {happening : Happening}
    (hlasts : happening.lasts = true) (h : row.Says happening) : (s.onRow row).Says happening := by
  cases happening with
  | created agreementPda creatorPubkey partyPubkey =>
      cases s with
      | sign | setStatus | lockForExpiry | unlockFromExpiry =>
          simp only [onRow]
          split <;> exact h
      | insert | unsignedCount | partiesOf | due => exact h
  | signed agreementPda partyPubkey =>
      cases s with
      | sign now agreementPda' signer =>
          simp only [onRow]
          split
          · exact ⟨h.1, h.2.1, Option.some_ne_none _⟩
          · exact h
      | setStatus | lockForExpiry | unlockFromExpiry =>
          simp only [onRow]
          split <;> exact h
      | insert | unsignedCount | partiesOf | due => exact h
  | cancelled | expired => cases hlasts

/-- A creation and a signature that are recorded stay so. -/
theorem says_kept {step : BackendStep} (h : step.Valid perform) {happening : Happening}
    (hlasts : happening.lasts = true) (hsaid : step.pre.Says happening) :
    step.post.Says happening := by
  obtain ⟨row, hrow, hsaid⟩ := hsaid
  have hmem : row ∈ step.pre.partyRows row.agreementPda := mem_partyRows.mpr ⟨hrow, rfl⟩
  rcases partyRows_step row.agreementPda h with hsame | ⟨s, out, -, hrows⟩
  · exact ⟨row, (mem_partyRows.mp (hsame ▸ hmem)).1, hsaid⟩
  · have hupdated : s.onRow row ∈
        s.onRows row.agreementPda (step.pre.partyRows row.agreementPda) := by
      cases s with
      | insert party agreementPda creator now =>
          obtain ⟨extra, hextra, -⟩ := onRows_insert row.agreementPda party agreementPda creator now
            (step.pre.partyRows row.agreementPda)
          rw [hextra]
          exact List.mem_append_left _ hmem
      | _ => exact List.mem_map_of_mem hmem
    rw [← hrows] at hupdated
    exact ⟨s.onRow row, (mem_partyRows.mp hupdated).1, PartyStmt.says_onRow hlasts hsaid⟩

/-! ## Who records, and who tells -/

/-- The operation tells somebody something. -/
def Op.tells : Op → Bool
  | .sendToUser .. => true
  | .sql (.notification _) => true
  | _ => false

/-- The operation neither records nor tells anything. -/
structure Op.Mute (op : Op) : Prop where
  records : op.records = none
  tells : op.tells = false

theorem Op.Has.privilege_mem {privileges : List Privilege} {privilege : Privilege} {op : Op}
    (h : op.Has privileges) (hop : op.privilege = privilege) (hreads : privilege ≠ .reads) :
    privilege ∈ privileges :=
  (List.mem_cons.mp h).elim (fun h => absurd (hop.symm.trans h) hreads) fun h => hop ▸ h

theorem Op.records_of_has {privileges : List Privilege} {op : Op} (h : op.Has privileges)
    (hwrites : .writesParties ∉ privileges) : op.records = none := by
  unfold Op.records
  split
  · rename_i s
    cases s <;> first | rfl | exact (hwrites (h.privilege_mem rfl nofun)).elim
  · rfl

theorem Op.tells_of_has {privileges : List Privilege} {op : Op} (h : op.Has privileges)
    (hpushes : .pushes ∉ privileges) (hnotifies : .notifies ∉ privileges) : op.tells = false := by
  unfold Op.tells
  split
  · exact (hpushes (h.privilege_mem rfl nofun)).elim
  · exact (hnotifies (h.privilege_mem rfl nofun)).elim
  · rfl

theorem submitExpireTransaction_mute (env : Env) (vaultKey : Pubkey)
    (agreementPda creatorPubkey : String) :
    (submitExpireTransaction env vaultKey agreementPda creatorPubkey).run.Issues Op.Mute := by
  refine issues_run_bind issues_okOr fun creator => ?_
  refine issues_run_bind issues_okOr fun pda => ?_
  refine issues_run_bind ?_ fun data => ?_
  · refine issues_run_bind (issues_ask.mpr ⟨rfl, rfl⟩) fun fetched => ?_
    exact issues_run_bind issues_okOr fun _ => issues_okOr
  refine issues_run_bind issues_okOr fun agreementId => ?_
  refine issues_run_bind ?_ fun tx => ?_
  · refine issues_run_bind (issues_orFail (issues_issue.mpr ⟨rfl, rfl⟩)) fun _ => ?_
    exact issues_orFail (issues_issue.mpr ⟨rfl, rfl⟩)
  exact issues_run_bind (issues_ask.mpr ⟨rfl, rfl⟩) fun submitted => issues_ofExcept

/-- The expiry worker only locks party rows. -/
theorem expireDueAgreements_mute (env : Env) (vaultKey : Pubkey) :
    (expireDueAgreements env vaultKey).Issues Op.Mute := by
  refine Program.issues_bind (issues_issue.mpr ⟨rfl, rfl⟩) fun now => ?_
  refine Program.issues_bind (issues_sql.mpr ⟨rfl, rfl⟩) fun answer => ?_
  cases answer with
  | error e => trivial
  | ok rows =>
      refine Program.issues_bind ?_ fun _ => trivial
      induction rows with
      | nil => trivial
      | cons row rest ih =>
          refine Program.issues_bind (Program.issues_bind ?_ fun locked => ?_) fun _ => ih
          · refine Program.issues_bind (issues_sql.mpr ⟨rfl, rfl⟩) fun answer => ?_
            cases answer <;> trivial
          rcases locked with e | _ | _
          · trivial
          · trivial
          refine Program.issues_bind (issues_issue.mpr ⟨rfl, rfl⟩) fun _ => ?_
          refine Program.issues_bind (submitExpireTransaction_mute ..) fun submitted => ?_
          refine Program.issues_bind (issues_issue.mpr ⟨rfl, rfl⟩) fun _ => ?_
          cases submitted with
          | ok _ => trivial
          | error _ => exact Program.issues_bind (issues_sql.mpr ⟨rfl, rfl⟩) fun _ => trivial

/-- What an operation records is among the given happenings. -/
def Op.RecordsOnly (allowed : Happening → Prop) (op : Op) : Prop :=
  ∀ happening, op.records = some happening → allowed happening

theorem Op.recordsOnly_of_none {allowed : Happening → Prop} {op : Op} (h : op.records = none) :
    op.RecordsOnly allowed := fun _ hrecords => absurd (h.symm.trans hrecords) nofun

theorem Op.recordsOnly_of_not_writes {allowed : Happening → Prop} {op : Op}
    (h : op.writesParties = false) : op.RecordsOnly allowed := by
  refine Op.recordsOnly_of_none ?_
  unfold Op.records
  split
  · rename_i s
    cases s <;> first | rfl | cases h
  · rfl

theorem insertParties_records {allowed : Happening → Prop} (agreementPda creator : String)
    {parties : List String}
    (hallowed : ∀ party ∈ parties, allowed (.created agreementPda creator party)) :
    (insertParties agreementPda creator parties).run.Issues (Op.RecordsOnly allowed) := by
  induction parties with
  | nil => trivial
  | cons party rest ih =>
      rw [List.forall_mem_cons] at hallowed
      refine issues_run_bind (issues_ask.mpr (Op.recordsOnly_of_none rfl)) fun now => ?_
      refine issues_run_bind (issues_query.mpr ?_) fun _ => ih hallowed.2
      rintro happening ⟨rfl⟩
      exact hallowed.1

theorem handleCancellation_records (event : ParsedEvent) (status : PartyStatus) :
    (handleCancellation event status).run.Issues (Op.RecordsOnly fun happening =>
      (PartyStmt.setStatus status event.agreementPda).records = some happening) := by
  rw [handleCancellation_eq]
  refine issues_run_bind (issues_query.mpr fun _ h => h) fun _ => ?_
  exact (announceCancellation_announces event status).mono fun _ h =>
    Op.recordsOnly_of_not_writes h.writesParties

/-- The listener records what the event reports. -/
theorem handleEvent_records (event : ParsedEvent) :
    (handleEvent event).run.Issues (Op.RecordsOnly event.Reports) := by
  unfold handleEvent
  split
  · rename_i hcreate
    rw [handleCreateAgreement_eq]
    refine issues_run_bind (insertParties_records _ _ fun party hparty => ?_) fun _ => ?_
    · exact ⟨hcreate, rfl, rfl, hparty⟩
    · exact (announceCreation_announces event).mono fun _ h =>
        Op.recordsOnly_of_not_writes h.writesParties
  · rename_i hsign
    rw [handleSignAgreement_eq]
    refine issues_run_bind (issues_ask.mpr (Op.recordsOnly_of_none rfl)) fun now => ?_
    refine issues_run_bind (issues_query.mpr ?_) fun result => ?_
    · rintro happening ⟨rfl⟩
      exact ⟨hsign, rfl, rfl⟩
    · exact (afterSignature_quiet event result).mono fun _ h => Op.recordsOnly_of_not_writes h
  · rename_i hcancel
    refine (handleCancellation_records event .cancelled).mono fun op h happening hrecords => ?_
    obtain ⟨rfl⟩ := h happening hrecords
    exact ⟨hcancel, rfl⟩
  · rename_i hexpire
    refine (handleCancellation_records event .expired).mono fun op h happening hrecords => ?_
    obtain ⟨rfl⟩ := h happening hrecords
    exact ⟨hexpire, rfl⟩
  · exact (handleVoteRevoke_announces event).mono fun _ h =>
      Op.recordsOnly_of_not_writes h.writesParties

/-- The actor handles an event that reports this. -/
def Actor.Reports (env : Env) (actor : Actor) (happening : Happening) : Prop :=
  ∃ response event, actor = .invocation (.processNotification response) ∧
    detectedEvent env response = some event ∧ event.Reports happening

theorem Invocation.writesParties_iff {call : Invocation} :
    .writesParties ∈ call.privileges ↔ ∃ response, call = .processNotification response := by
  cases call <;> simp [Invocation.privileges, listenerPrivileges]

theorem Actor.records (env : Env) (actor : Actor) :
    (actor.program env).Issues (Op.RecordsOnly (actor.Reports env)) := by
  cases actor with
  | expireDueAgreements vaultKey =>
      refine Program.issues_bind ((expireDueAgreements_mute env vaultKey).mono fun _ h => ?_)
        fun _ => trivial
      exact Op.recordsOnly_of_none h.records
  | invocation call =>
      by_cases hwrites : .writesParties ∈ call.privileges
      · obtain ⟨response, rfl⟩ := Invocation.writesParties_iff.mp hwrites
        show (PactumCodex.processNotification env response).Issues _
        unfold PactumCodex.processNotification
        split
        · rename_i event hdetected
          refine issues_logged ((handleEvent_records event).mono fun _ h happening hrecords => ?_)
          exact ⟨response, event, rfl, hdetected, h happening hrecords⟩
        · trivial
      · exact (call.has env).mono fun _ h => Op.recordsOnly_of_none (Op.records_of_has h hwrites)

/-- Some event detected in the run reports this. -/
def ReportedBy (env : Env) (happening : Happening) (steps : List ActorStep) : Prop :=
  ∃ event, Detected env event steps ∧ event.Reports happening

theorem ReportedBy.append {env : Env} {happening : Happening} {steps : List ActorStep}
    (h : ReportedBy env happening steps) (later : List ActorStep) :
    ReportedBy env happening (steps ++ later) := by
  obtain ⟨event, hdetected, hreports⟩ := h
  exact ⟨event, hdetected.append later, hreports⟩

/-- **Run lemma.** -/
theorem says_of_chain {env : Env} {w w' : World} {steps : List ActorStep}
    (hchain : Chain (performTagged Actor perform) w steps w')
    (hrecords : ∀ step ∈ steps, step.op.2.RecordsOnly (step.op.1.Reports env))
    {happening : Happening} (hsaid : w'.Says happening) :
    w.Says happening ∨ ReportedBy env happening steps := by
  have hinit : w.Says happening → w.Says happening ∨ ReportedBy env happening [] := Or.inl
  refine hchain.invariant_traced
    (fun before v => v.Says happening → w.Says happening ∨ ReportedBy env happening before) hinit
    (fun before step hmem hvalid hbefore hsaid => ?_) hsaid
  rcases says_step (show Step.Valid perform step.untag from hvalid) hsaid with hold | hnew
  · exact (hbefore hold).imp_right fun h => h.append [step]
  · obtain ⟨response, event, hactor, hdetected, hreports⟩ := hrecords step hmem happening hnew
    have hlast : step ∈ before ++ [step] := List.mem_append_right _ (List.mem_singleton_self _)
    exact Or.inr ⟨event, ⟨step, hlast, response, hactor, hdetected⟩, hreports⟩

/-- What lasts is said to the end of a chain. -/
theorem says_to_end {w w' : World} {steps : List ActorStep} {happening : Happening}
    (hchain : Chain (performTagged Actor perform) w steps w') (hlasts : happening.lasts = true)
    (hsaid : w.Says happening) : w'.Says happening := by
  refine (hchain.invariant (fun v => v.Says happening) hsaid fun step _ hvalid => ?_).1
  exact says_kept (show Step.Valid perform step.untag from hvalid) hlasts

/-- **Records.**  Whatever a party row says at the end of a run was said at its start, or an event
that was detected in the run reports it; and no creation or signature that a row says at the start
or at any later moment is taken back. -/
theorem agreement_records_reported {env : Env} {w w' : World} {steps : List ActorStep}
    (hrun : ActorRun env w steps w') (happening : Happening) :
    (w'.Says happening → w.Says happening ∨ ReportedBy env happening steps) ∧
    (happening.lasts = true → (w.Says happening → w'.Says happening) ∧
      ∀ step ∈ steps, step.post.Says happening → w'.Says happening) := by
  refine ⟨says_of_chain hrun.chain (hrun.issued fun actor => actor.records env), fun hlasts =>
    ⟨says_to_end hrun.chain hlasts, fun step hmem hsaid => ?_⟩⟩
  -- the rest of the run starts with the step
  obtain ⟨before, after, rfl⟩ := List.append_of_mem hmem
  exact says_to_end hrun.chain.split.2.2 hlasts hsaid

/-- A schedule of actors is a run. -/
theorem actorRun_of_replay (w : World) (actors : List Actor)
    (turns : List (ℕ × ((op : Op) → World → op.Ans))) (test : List ActorStep → World → Bool)
    (h : (replay (performTagged Actor perform) [] ⟨w, []⟩
      (taggedSchedule (Actor.program sampleEnv) actors turns)).any
        (fun result => test result.1 result.2.world) = true) :
    ∃ steps w', ActorRun sampleEnv w steps w' ∧ test steps w' = true :=
  taggedPoolRun_of_replay actors turns test h

/-- An agreement with Alice as its only party, who has an account. -/
def soleSignerDb : Db :=
  { Db.empty with
    parties := (onePaymentDb samplePayment).parties
    wallets := ⟨[⟨12, aliceKey⟩], by decide⟩ }

/-- The agreement is cancelled while the expiry worker holds its lock. -/
theorem agreement_records_reported_cancelled :
    ∃ steps w', ActorRun sampleEnv (World.ofDb soleSignerDb) steps w' ∧ w'.Says (.cancelled "A") ∧
      ((w'.Says (.cancelled "A") → (World.ofDb soleSignerDb).Says (.cancelled "A") ∨
          ReportedBy sampleEnv (.cancelled "A") steps) ∧
        ((Happening.cancelled "A").lasts = true →
          ((World.ofDb soleSignerDb).Says (.cancelled "A") → w'.Says (.cancelled "A")) ∧
            ∀ step ∈ steps, step.post.Says (.cancelled "A") → w'.Says (.cancelled "A"))) := by
  obtain ⟨steps, w', hrun, htest⟩ := actorRun_of_replay (World.ofDb soleSignerDb)
    [.expireDueAgreements (Vector.replicate 32 0),
      .invocation (.processNotification cancelNotification)]
    (List.replicate 3 (0, cooperate 1) ++ List.replicate 4 (1, cooperate 1))
    (fun _ w' => w'.db.parties.rows.any fun row =>
      row.agreementPda = "A" ∧ row.status = .cancelled) (by decide +kernel)
  obtain ⟨row, hrow, hsaid⟩ := List.any_eq_true.mp htest
  obtain ⟨hpda, hstatus⟩ := of_decide_eq_true hsaid
  exact ⟨steps, w', hrun, ⟨row, hrow, hpda, hstatus⟩, agreement_records_reported hrun _⟩

end PactumCodex
