import PactumCodex.Agreements.ExpiryRuns

/-!
# The deadline of an agreement

`create_agreement` asks for a signing window, and the transaction carries it to
the chain.  The event of the creation does not carry it back: the party rows get
`expires_at = now + 2592000`, whatever window was asked for.

`DueAt` is what the rows of an agreement say about its deadline.  The first row is
inserted when the event is processed; no statement changes `expires_at`, and rows
inserted later are due later, because the database clock never runs back.  So
`expire_due_agreements` selects the agreement 30 days after its event.

## Strategy

* `clock_step`: no operation turns the clock back, so a row is inserted with a time
  from the start of the event on (`insertParties_insertsLate`).
* `dueAt_step` and `dueAt_poolRun`: what the rows say is kept by every step that
  inserts rows late, hence in every interleaving.
* `cycle_selects`: a cycle selects in the world it starts in, and submits only for
  agreements it has selected.
* `expiresAfter_iff`: so the worker follows a deadline exactly if the rows do.

The condition for the window compares the requested deadline with the one in the
rows, to the second.
-/

namespace PactumCodex

open Interaction Relational

/-! ## What is promised -/

/-- The time at which an event is processed: the first reading of the database clock. -/
def processedAt (steps : List BackendStep) : Option ℤ :=
  steps.findSome? fun
    | ⟨_, .dbNow, now, _⟩ => some now
    | _ => none

/-- The agreement waits for signatures. -/
def AwaitsSignatures (agreementPda : String) (w : World) : Prop :=
  ∀ row ∈ w.partyRows agreementPda, row.status = .pendingSignatures

/-- A cycle of the expiry worker, finished or not, selects the agreement exactly if its deadline has
passed, and does not submit a transaction for it before. -/
def ExpiresAfter (env : Env) (vaultKey : Pubkey) (agreementPda : String)
    (deadline : ℤ) (w : World) :
    Prop :=
  ∀ steps w', Stops perform (expireDueAgreements env vaultKey) w steps w' →
    ∀ now rows, (∃ step ∈ steps, Executes step (.party (.due now)) rows) →
      ((∃ creator, (agreementPda, creator) ∈ rows) ↔ deadline < now) ∧
      ((∃ step ∈ steps, ∃ creator, step.op = .expireCall agreementPda creator) → deadline < now)

/-! ## The clock -/

/-- The database clock never runs back. -/
theorem clock_step {step : BackendStep} (h : step.Valid perform) :
    step.pre.clock ≤ step.post.clock := by
  obtain ⟨w, op, ans, w'⟩ := step
  change perform op ans w = some w' at h
  show w.clock ≤ w'.clock
  have hsame : ∀ {w'' : World}, w'' = w' → w''.clock = w.clock → w.clock ≤ w'.clock := by
    rintro _ rfl hclock
    exact hclock.ge
  -- only reading the clock moves it, and never back
  cases op with
  | sql s =>
      cases ans with
      | ok out =>
          obtain ⟨-, -, db, -, hw⟩ := performSql_eq_some.mp h
          exact hsame hw.symm rfl
      | error e => exact hsame (Option.some.inj h) rfl
  | begin =>
      cases ans with
      | ok id => exact hsame (provided_eq_some.mp h).2.symm rfl
      | error e => exact hsame (Option.some.inj h) rfl
  | tx id s =>
      cases ans with
      | ok out =>
          obtain ⟨tx, tx', -, rfl, -⟩ := performTx_effect h
          exact le_rfl
      | error e => exact hsame (Option.some.inj h) rfl
  | commit id =>
      cases ans with
      | ok out =>
          obtain ⟨-, db, -, -, rfl⟩ := performCommit_eq_some.mp h
          exact le_rfl
      | error e => exact hsame (Option.some.inj h) rfl
  | dbNow =>
      obtain ⟨hle, hw⟩ := provided_eq_some.mp h
      rw [hw]
      exact hle
  | newUuid => exact hsame (provided_eq_some.mp h).2.symm rfl
  | _ => exact hsame (Option.some.inj h) rfl

/-- The clock has not run back from one world to the other. -/
def Later (w w' : World) : Prop := w.clock ≤ w'.clock

theorem Later.refl (w : World) : Later w w := le_refl w.clock

theorem Later.trans (w₁ w₂ w₃ : World) (h₁ : Later w₁ w₂) (h₂ : Later w₂ w₃) : Later w₁ w₃ :=
  le_trans h₁ h₂

/-- The step is one of the backend, and inserts party rows only with times from `start` on. -/
structure InsertsFrom (start : ℤ) (step : BackendStep) : Prop where
  valid : step.Valid perform
  insert : ∀ party pda creator now out,
    Executes step (.party (.insert party pda creator now)) out → start ≤ now

theorem InsertsFrom.later {start : ℤ} (step : BackendStep) (h : InsertsFrom start step) :
    Later step.pre step.post := clock_step h.valid

/-- The operation inserts a party row. -/
def Op.insertsParty : Op → Bool
  | .sql (.party (.insert ..)) => true
  | _ => false

theorem insertsFrom_of_not {start : ℤ} {step : BackendStep} (hop : step.op.insertsParty = false)
    (h : step.Valid perform) : InsertsFrom start step := by
  refine ⟨h, ?_⟩
  intro party pda creator now out hexecutes
  rw [hexecutes] at hop
  cases hop

/-- The program inserts party rows only with times from `start` on, whatever others do. -/
abbrev InsertsLate {α : Type} (start : ℤ) (p : Backend α) (w : World)
    (Φ : α → World → Prop) : Prop :=
  Assures perform Later (fun _ => True) (InsertsFrom start) p w Φ

theorem insertsLate_of_issues {α : Type} {start : ℤ} {p : Backend α} {w : World}
    (hp : p.Issues fun op => op.insertsParty = false) : InsertsLate start p w fun _ _ => True :=
  assures_of_issues hp fun _ hop hvalid _ => insertsFrom_of_not hop hvalid

/-- Every row is inserted with a reading of the clock taken just before. -/
theorem insertParties_insertsLate {start : ℤ} {pda creator : String} {parties : List String}
    {w : World} (hstart : start ≤ w.clock) :
    InsertsLate start (insertParties pda creator parties).run w fun _ w' => start ≤ w'.clock := by
  induction parties generalizing w with
  | nil => exact hstart
  | cons party rest ih =>
      refine assures_run_bind.mpr ?_
      intro w₁ hw₁ now w₂ hperform _
      have hvalid : Step.Valid perform (⟨w₁, .dbNow, now, w₂⟩ : BackendStep) := hperform
      refine ⟨insertsFrom_of_not rfl hvalid, ?_⟩
      obtain ⟨hle, rfl⟩ := provided_eq_some.mp hperform
      have hnow : start ≤ now := (hstart.trans hw₁).trans hle
      show InsertsLate start (Handler.query (.party (.insert party pda creator now)) >>= fun _ =>
        insertParties pda creator rest).run _ _
      refine assures_query_bind fun w₃ hw₃ => ⟨fun out w₄ hinsert _ => ⟨⟨hinsert, ?_⟩, ?_⟩, ?_⟩
      · intro party' pda' creator' now' out' hexecutes
        have hop : Op.sql (.party (.insert party pda creator now)) =
            .sql (.party (.insert party' pda' creator' now')) := congrArg Step.op hexecutes
        cases hop
        exact hnow
      · have hvalid₄ : Step.Valid perform (⟨w₃, .sql _, .ok out, w₄⟩ : BackendStep) := hinsert
        exact ih ((hnow.trans hw₃).trans (clock_step hvalid₄))
      · intro _
        refine ⟨⟨rfl, ?_⟩, hnow.trans hw₃⟩
        intro party' pda' creator' now' out' hexecutes
        simp [Executes] at hexecutes

/-! ## The programs -/

theorem insertsParty_of_byListener {op : Op} (h : op.ByListener fun _ => True) :
    op.insertsParty = false := by
  unfold Op.insertsParty
  split
  · exact absurd trivial h.1.2
  · rfl

theorem insertsParty_of_silent {op : Op} (h : op.writesParties = false) :
    op.insertsParty = false := by
  unfold Op.insertsParty
  split
  · cases h
  · rfl

theorem handleCreateAgreement_insertsLate {start : ℤ} {event : ParsedEvent} {w : World}
    (hstart : start ≤ w.clock) :
    InsertsLate start (handleCreateAgreement event).run w fun _ _ => True := by
  rw [handleCreateAgreement_eq]
  refine assures_run_bind.mpr ((insertParties_insertsLate hstart).mono fun r w₁ _ => ?_)
  cases r with
  | error e => trivial
  | ok _ =>
      exact insertsLate_of_issues ((announceCreation_announces event).mono fun _ h =>
        insertsParty_of_silent h.writesParties)

theorem handleEvent_insertsLate {start : ℤ} {event : ParsedEvent} {w : World}
    (hstart : start ≤ w.clock) : InsertsLate start (handleEvent event).run w fun _ _ => True := by
  by_cases hcreate : event.instruction = .createAgreement
  · rw [handleEvent, hcreate]
    exact handleCreateAgreement_insertsLate hstart
  · have hother := @handleEvent_byListener (fun _ => True) event fun h => absurd h hcreate
    exact insertsLate_of_issues (hother.mono fun _ => insertsParty_of_byListener)

/-- An operation of the loop over the selected rows: it inserts and selects nothing, and calls
`submit_expire_transaction` for these rows only. -/
structure Op.ForRows (rows : List (String × String)) (op : Op) : Prop where
  insertsParty : op.insertsParty = false
  selects : ∀ now, op ≠ .sql (.party (.due now))
  calls : ∀ pda creator, op = .expireCall pda creator → (pda, creator) ∈ rows

theorem Op.ForRows.mono {rows rows' : List (String × String)} {op : Op} (h : op.ForRows rows)
    (hsub : rows ⊆ rows') : op.ForRows rows' :=
  ⟨h.insertsParty, h.selects, fun pda creator hcall => hsub (h.calls pda creator hcall)⟩

theorem submitExpireTransaction_issues (env : Env) (vaultKey : Pubkey)
    (agreementPda creatorPubkey : String) :
    (submitExpireTransaction env vaultKey agreementPda creatorPubkey).run.Issues
      (Op.ForRows []) := by
  refine issues_run_bind issues_okOr fun creator => ?_
  refine issues_run_bind issues_okOr fun pda => ?_
  refine issues_run_bind ?_ fun data => ?_
  · refine issues_run_bind (issues_ask.mpr ⟨rfl, nofun, nofun⟩) fun fetched => ?_
    exact issues_run_bind issues_okOr fun _ => issues_okOr
  refine issues_run_bind issues_okOr fun agreementId => ?_
  refine issues_run_bind ?_ fun tx => ?_
  · refine issues_run_bind (issues_orFail (issues_issue.mpr ⟨rfl, nofun, nofun⟩)) fun _ => ?_
    exact issues_orFail (issues_issue.mpr ⟨rfl, nofun, nofun⟩)
  refine issues_run_bind (issues_ask.mpr ⟨rfl, nofun, nofun⟩) fun submitted => ?_
  exact issues_ofExcept

theorem expireAgreementRows_issues (env : Env) (vaultKey : Pubkey) (rows : List (String × String)) :
    (expireAgreementRows env vaultKey rows).Issues (Op.ForRows rows) := by
  induction rows with
  | nil => trivial
  | cons row rest ih =>
      obtain ⟨agreementPda, creatorPubkey⟩ := row
      refine Program.issues_bind ?_ fun _ => ih.mono fun op h => h.mono (List.subset_cons_self _ _)
      refine Program.issues_bind ?_ fun locked => ?_
      · refine Program.issues_bind (issues_sql.mpr ⟨rfl, nofun, nofun⟩) fun answer => ?_
        cases answer <;> trivial
      rcases locked with e | taken
      · trivial
      cases taken with
      | false => trivial
      | true =>
          refine Program.issues_bind (issues_issue.mpr ⟨rfl, nofun, ?_⟩) fun _ => ?_
          · intro pda creator hcall
            cases hcall
            exact List.mem_cons_self
          refine Program.issues_bind ((submitExpireTransaction_issues ..).mono fun op h =>
            h.mono (List.nil_subset _)) fun submitted => ?_
          refine Program.issues_bind (issues_issue.mpr ⟨rfl, nofun, nofun⟩) fun _ => ?_
          cases submitted with
          | ok _ => trivial
          | error _ =>
              exact Program.issues_bind (issues_sql.mpr ⟨rfl, nofun, nofun⟩) fun _ => trivial

theorem expireDueAgreements_issues (env : Env) (vaultKey : Pubkey) :
    (expireDueAgreements env vaultKey).Issues fun op => op.insertsParty = false := by
  refine Program.issues_bind (issues_issue.mpr rfl) fun now => ?_
  refine Program.issues_bind (issues_sql.mpr rfl) fun answer => ?_
  cases answer with
  | error e => trivial
  | ok rows =>
      exact Program.issues_bind ((expireAgreementRows_issues env vaultKey rows).mono fun _ h =>
        h.insertsParty) fun _ => trivial

/-- The programs that touch party rows insert them with times from `start` on. -/
theorem ExpiryEntry.insertsLate {fixed : String → Prop} {start : ℤ} {p : Backend Unit} {w : World}
    (hp : ExpiryEntry fixed p) (hstart : start ≤ w.clock) :
    InsertsLate start p w fun _ _ => True := by
  cases hp with
  | worker env vaultKey =>
      exact insertsLate_of_issues
        (Program.issues_bind (expireDueAgreements_issues env vaultKey) fun _ => trivial)
  | listener event _ =>
      exact assures_bind.mpr ((handleEvent_insertsLate hstart).mono fun _ _ _ => trivial)

/-! ## What the rows say -/

/-- The first row of the agreement is due at the deadline, and none is due before. -/
structure DueAt (agreementPda : String) (deadline : ℤ) (w : World) : Prop where
  first : ∃ row ∈ w.partyRows agreementPda, row.expiresAt = deadline
  all : ∀ row ∈ w.partyRows agreementPda, deadline ≤ row.expiresAt

section Rows

variable {agreementPda : String} {start : ℤ} {w w' : World} {steps : List BackendStep}

/-- No update changes the deadline of a row. -/
theorem PartyStmt.onRow_expiresAt (s : PartyStmt) (row : Party) :
    (s.onRow row).expiresAt = row.expiresAt := by
  cases s <;> simp only [onRow] <;> split <;> rfl

/-- A statement keeps what the rows say, if it inserts no row from before `start`. -/
theorem dueAt_step {step : BackendStep} (h : InsertsFrom start step)
    (hpre : DueAt agreementPda (start + 2592000) step.pre) :
    DueAt agreementPda (start + 2592000) step.post := by
  rcases partyRows_step agreementPda h.valid with hsame | ⟨s, out, hexecutes, hrows⟩
  · exact ⟨hsame ▸ hpre.first, hsame ▸ hpre.all⟩
  have hmap : step.post.partyRows agreementPda = (step.pre.partyRows agreementPda).map s.onRow →
      DueAt agreementPda (start + 2592000) step.post := by
    intro hrows
    obtain ⟨row, hrow, hdue⟩ := hpre.first
    refine ⟨⟨s.onRow row, ?_, ?_⟩, fun row' hrow' => ?_⟩
    · rw [hrows]
      exact List.mem_map_of_mem hrow
    · rw [s.onRow_expiresAt, hdue]
    · rw [hrows] at hrow'
      obtain ⟨row, hrow, rfl⟩ := List.mem_map.mp hrow'
      rw [s.onRow_expiresAt]
      exact hpre.all row hrow
  -- an insertion may add a row; every other statement maps over the rows
  cases s with
  | insert party pda creator now =>
      simp only [PartyStmt.onRows] at hrows
      split at hrows
      · have hnow := h.insert party pda creator now out hexecutes
        obtain ⟨row, hrow, hdue⟩ := hpre.first
        refine ⟨⟨row, hrows ▸ List.mem_append_left _ hrow, hdue⟩, fun row' hrow' => ?_⟩
        rw [hrows] at hrow'
        rcases List.mem_append.mp hrow' with hrow' | hrow'
        · exact hpre.all row' hrow'
        · rw [List.mem_singleton.mp hrow']
          show start + 2592000 ≤ now + 2592000
          omega
      · exact ⟨hrows ▸ hpre.first, hrows ▸ hpre.all⟩
  | _ => exact hmap hrows

/-- Along a chain, too. -/
theorem dueAt_chain (h : Chain perform w steps w')
    (hsteps : ∀ step ∈ steps, InsertsFrom start step)
    (hinit : DueAt agreementPda (start + 2592000) w) :
    DueAt agreementPda (start + 2592000) w' :=
  (h.invariant (DueAt agreementPda (start + 2592000)) hinit fun step hmem _ hpre =>
    dueAt_step (hsteps step hmem) hpre).1

theorem later_of_chain (h : Chain perform w steps w') : Later w w' :=
  h.related Later.refl Later.trans fun _ => clock_step

/-- A program that inserts rows late keeps what the rows say. -/
theorem dueAt_runs {α : Type} {p : Backend α} {r : α} (h : Runs perform p w steps r w')
    (hp : InsertsLate start p w fun _ _ => True)
    (hinit : DueAt agreementPda (start + 2592000) w) :
    DueAt agreementPda (start + 2592000) w' :=
  dueAt_chain h.chain (hp.of_stops Later.refl h.stops fun _ _ => trivial) hinit

/-- In every interleaving of expiry cycles and of the handling of events, too. -/
theorem dueAt_poolRun {fixed : String → Prop} {pool : Pool Op Op.Ans World}
    (h : PoolRun perform (ExpiryEntry fixed) ⟨w, []⟩ steps pool) (hstart : start ≤ w.clock)
    (hinit : DueAt agreementPda (start + 2592000) w) :
    DueAt agreementPda (start + 2592000) pool.world := by
  have hentry : ∀ p, ExpiryEntry fixed p → ∀ w₁, Later w w₁ →
      InsertsLate start p w₁ fun _ _ => True := fun p hp w₁ hw₁ => hp.insertsLate (hstart.trans hw₁)
  have hsteps :=
    PoolRun.assured Later.refl Later.trans InsertsFrom.later hentry h fun _ _ => trivial
  exact dueAt_chain h.chain hsteps.1 hinit

/-- The event of the creation gives the first row its deadline. -/
theorem dueAt_of_created {event : ParsedEvent} (hnew : w.partyRows event.agreementPda = [])
    (hparties : event.parties ≠ [])
    (h : Runs perform (handleCreateAgreement event).run w steps (.ok ()) w') :
    ∃ now, processedAt steps = some now ∧ now ≤ w'.clock ∧
      DueAt event.agreementPda (now + 2592000) w' := by
  obtain ⟨party, rest, hcons⟩ := List.exists_cons_of_ne_nil hparties
  rw [handleCreateAgreement_eq, hcons] at h
  obtain ⟨_, w₃, inserting, announcing, rfl, hinsert, hannounce⟩ := runs_bind_ok.mp h
  obtain ⟨now, w₁, reading, first, rfl, hnow, hfirst⟩ := runs_bind_ok.mp hinsert
  obtain ⟨_, w₂, insertion, others, rfl, hquery, hothers⟩ := runs_bind_ok.mp hfirst
  obtain ⟨hperform, rfl⟩ := runs_ask_ok.mp hnow
  have hclock₁ : now ≤ w₁.clock := by rw [(provided_eq_some.mp hperform).2]
  have hclock₂ : now ≤ w₂.clock := hclock₁.trans (later_of_chain hquery.chain)
  have hclock₃ : now ≤ w₃.clock := hclock₂.trans (later_of_chain hothers.chain)
  refine ⟨now, rfl, hclock₃.trans (later_of_chain hannounce.chain), ?_⟩
  -- the first row is the only one after its insertion
  have hrow : DueAt event.agreementPda (now + 2592000) w₂ := by
    have hempty : w₁.partyRows event.agreementPda = [] := by
      rw [partyRows_dbNow event.agreementPda hnow, hnew]
    have hrows := partyRows_partyQuery event.agreementPda hquery
    rw [hempty, PartyStmt.onRows, if_pos ⟨rfl, by simp⟩, List.nil_append] at hrows
    refine ⟨⟨_, hrows ▸ List.mem_singleton_self _, rfl⟩, fun row hrow => ?_⟩
    rw [hrows] at hrow
    rw [List.mem_singleton.mp hrow]
  have hthird := dueAt_runs hothers
    ((insertParties_insertsLate hclock₂).mono fun _ _ _ => trivial) hrow
  exact dueAt_runs hannounce (insertsLate_of_issues ((announceCreation_announces event).mono
    fun _ h => insertsParty_of_silent h.writesParties)) hthird

/-! ## Selection -/

/-- The rows that the worker selects. -/
theorem due_returns {now : ℤ} {rows : List (String × String)}
    (h : performSql (.party (.due now)) rows w = some w') :
    (∃ creator, (agreementPda, creator) ∈ rows) ↔
      ∃ row ∈ w.partyRows agreementPda, row.status = .pendingSignatures ∧ row.expiresAt < now := by
  obtain ⟨-, -, db, hexec, -⟩ := performSql_eq_some.mp h
  obtain ⟨parties, hexec, -⟩ := Option.map_eq_some_iff.mp hexec
  have hperm := (provided_eq_some.mp hexec).1
  simp only [hperm.mem_iff, List.mem_dedup, List.mem_map, List.mem_filter, mem_partyRows,
    Prod.mk.injEq, decide_eq_true_eq]
  constructor
  · rintro ⟨creator, row, ⟨hmem, hdue⟩, hpda, -⟩
    exact ⟨row, ⟨hmem, hpda⟩, hdue⟩
  · rintro ⟨row, ⟨hmem, hpda⟩, hdue⟩
    exact ⟨row.creatorPubkey, row, ⟨hmem, hdue⟩, hpda, rfl⟩

/-- An agreement that awaits signatures is selected once its first row is due. -/
theorem selected_iff {deadline now : ℤ} {rows : List (String × String)}
    (hdue : DueAt agreementPda deadline w) (hawaits : AwaitsSignatures agreementPda w)
    (h : performSql (.party (.due now)) rows w = some w') :
    (∃ creator, (agreementPda, creator) ∈ rows) ↔ deadline < now := by
  rw [due_returns h]
  constructor
  · rintro ⟨row, hrow, -, hexpired⟩
    exact (hdue.all row hrow).trans_lt hexpired
  · intro hpast
    obtain ⟨row, hrow, hfirst⟩ := hdue.first
    exact ⟨row, hrow, hawaits row hrow, hfirst ▸ hpast⟩

/-- A cycle selects in the world it starts in, and submits for what it has selected. -/
theorem cycle_selects {env : Env} {vaultKey : Pubkey} {now : ℤ} {rows : List (String × String)}
    (h : Stops perform (expireDueAgreements env vaultKey) w steps w')
    (hselects : ∃ step ∈ steps, Executes step (.party (.due now)) rows) :
    (∃ w₁, performSql (.party (.due now)) rows w = some w₁) ∧
      ∀ step ∈ steps, ∀ pda creator, step.op = .expireCall pda creator → (pda, creator) ∈ rows := by
  obtain ⟨selecting, hselecting, hexecutes⟩ := hselects
  rcases h with ⟨rfl, -⟩ | ⟨hostNow, w₁, afterClock, hclock, rfl, hrest⟩
  · cases hselecting
  -- reading the clock of the host changes nothing
  obtain rfl : w = w₁ := Option.some.inj hclock
  rcases List.mem_cons.mp hselecting with rfl | hselecting
  · simp [Executes] at hexecutes
  rcases hrest with ⟨rfl, -⟩ | ⟨answer, w₂, loop, hperform, rfl, hloop⟩
  · cases hselecting
  have hissued : ∀ rows', answer = .ok rows' → ∀ step ∈ loop, step.op.ForRows rows' := by
    rintro rows' rfl
    have hrows : Stops perform (expireAgreementRows env vaultKey rows' >>= fun _ =>
        (pure .healthy : Backend WorkerStatus)) w₂ loop w' := hloop
    refine hrows.issued (Program.issues_bind (expireAgreementRows_issues env vaultKey rows') ?_)
    exact fun _ => trivial
  cases answer with
  | error e =>
      obtain ⟨rfl, -⟩ := hloop
      rw [List.mem_singleton.mp hselecting] at hexecutes
      simp [Executes] at hexecutes
  | ok rows' =>
      have hloop := hissued rows' rfl
      rcases List.mem_cons.mp hselecting with rfl | hselecting
      · simp only [Executes, Step.mk.injEq, Op.sql.injEq, Stmt.party.injEq, PartyStmt.due.injEq,
          true_and, and_true] at hexecutes
        obtain ⟨rfl, hrows⟩ := hexecutes
        obtain rfl : rows' = rows := Except.ok.inj (eq_of_heq hrows)
        refine ⟨⟨w₂, hperform⟩, ?_⟩
        intro step hstep pda creator hcall
        rcases List.mem_cons.mp hstep with rfl | hstep
        · cases hcall
        rcases List.mem_cons.mp hstep with rfl | hstep
        · cases hcall
        exact (hloop step hstep).calls pda creator hcall
      · have hop : selecting.op = .sql (.party (.due now)) := congrArg Step.op hexecutes
        exact absurd hop ((hloop selecting hselecting).selects now)

/-- The selection of a cycle can be any that the database returns. -/
theorem exists_selection (env : Env) (vaultKey : Pubkey) (w : World) (now : ℤ) :
    ∃ steps rows, Stops perform (expireDueAgreements env vaultKey) w steps w ∧
      (∃ step ∈ steps, Executes step (.party (.due now)) rows) ∧
      performSql (.party (.due now)) rows w = some w := by
  obtain ⟨rows, hperform⟩ : ∃ rows, performSql (.party (.due now)) rows w = some w := by
    refine ⟨PartyStmt.result w (.due now), ?_⟩
    simp [performSql, Stmt.unblocked, Stmt.generated, Stmt.exec, PartyStmt.exec, provided,
      PartyStmt.result]
  refine ⟨[⟨w, .utcNow, now, w⟩, ⟨w, .sql (.party (.due now)), .ok rows, w⟩], rows, ?_, ?_,
    hperform⟩
  · exact .inr ⟨now, w, _, rfl, rfl, .inr ⟨.ok rows, w, [], hperform, rfl, Stops.refl _ _⟩⟩
  · exact ⟨_, List.mem_cons_of_mem _ (List.mem_singleton_self _), rfl⟩

/-- The worker follows a deadline exactly if the rows do. -/
theorem expiresAfter_iff {env : Env} {vaultKey : Pubkey} {deadline due : ℤ}
    (hdue : DueAt agreementPda due w) (hawaits : AwaitsSignatures agreementPda w) :
    ExpiresAfter env vaultKey agreementPda deadline w ↔ deadline = due := by
  constructor
  · intro hexpires
    have hall : ∀ now, due < now ↔ deadline < now := by
      intro now
      obtain ⟨steps, rows, hstops, hselects, hperform⟩ := exists_selection env vaultKey w now
      rw [← selected_iff hdue hawaits hperform]
      exact (hexpires steps w hstops now rows hselects).1
    have hbefore := hall (deadline + 1)
    have hafter := hall (due + 1)
    omega
  · rintro rfl steps w' hstops now rows hselects
    obtain ⟨⟨w₁, hperform⟩, hcalls⟩ := cycle_selects hstops hselects
    have hselected := selected_iff hdue hawaits hperform
    refine ⟨hselected, ?_⟩
    rintro ⟨step, hstep, creator, hcall⟩
    exact hselected.mp ⟨creator, hcalls step hstep _ creator hcall⟩

end Rows

/-! ## The window that was asked for -/

/-- In every world that the expiry cycles and the handling of events lead to after the creation,
as long as the agreement awaits signatures, the worker follows the deadline of the request. -/
def KeepsWindow (env : Env) (vaultKey : Pubkey) (req : CreateAgreementRequest) (event : ParsedEvent)
    (handling : List BackendStep) (w : World) : Prop :=
  ∀ steps pool, PoolRun perform (ExpiryEntry fun _ => False) ⟨w, []⟩ steps pool →
    AwaitsSignatures event.agreementPda pool.world →
      ExpiresAfter env vaultKey event.agreementPda
        ((processedAt handling).getD 0 + req.expiresInSecs.toNat) pool.world

theorem awaitsSignatures_of_created {event : ParsedEvent} {w w' : World} {steps : List BackendStep}
    (hnew : w.partyRows event.agreementPda = [])
    (h : Runs perform (handleCreateAgreement event).run w steps (.ok ()) w') :
    AwaitsSignatures event.agreementPda w' ∧
      (event.parties = [] → w'.partyRows event.agreementPda = []) := by
  obtain ⟨extra, hrows, hextra, -⟩ := handleCreateAgreement_partyRows event.agreementPda h
  rw [hnew, List.nil_append] at hrows
  rw [AwaitsSignatures, hrows]
  refine ⟨fun row hrow => (hextra row hrow).2.1, fun hparties => ?_⟩
  apply List.eq_nil_iff_forall_not_mem.mpr
  intro row hrow
  have hmem := (hextra row hrow).1
  rw [hparties] at hmem
  cases hmem

/-- **The deadline of an agreement.**  An agreement was asked for with some signing window, and its
creation is processed.  The expiry worker follows the deadline that the window gives, in every
state that is reached while the agreement awaits signatures, exactly if the window is 30 days
and the event names a party. -/
theorem keepsWindow_iff {env : Env} {vaultKey : Pubkey} {req : CreateAgreementRequest}
    {event : ParsedEvent} {w w' : World} {handling : List BackendStep}
    (hnew : w.partyRows event.agreementPda = [])
    (hrun : Runs perform (handleCreateAgreement event).run w handling (.ok ()) w') :
    KeepsWindow env vaultKey req event handling w' ↔
      req.expiresInSecs.toNat = 2592000 ∧ event.parties ≠ [] := by
  obtain ⟨hawaits, hempty⟩ := awaitsSignatures_of_created hnew hrun
  by_cases hparties : event.parties = []
  · -- without a party there is no row to select
    refine iff_of_false (fun hkeeps => ?_) fun h => h.2 hparties
    have hexpires := hkeeps [] ⟨w', []⟩ .refl hawaits
    obtain ⟨steps, rows, hstops, hselects, hperform⟩ := exists_selection env vaultKey w'
      ((processedAt handling).getD 0 + req.expiresInSecs.toNat + 1)
    have hselected := (hexpires steps w' hstops _ rows hselects).1.mpr (by omega)
    obtain ⟨row, hrow, -⟩ := (due_returns hperform).mp hselected
    rw [hempty hparties] at hrow
    cases hrow
  · obtain ⟨now, hnow, hclock, hdue⟩ := dueAt_of_created hnew hparties hrun
    have hwindow : (processedAt handling).getD 0 + (req.expiresInSecs.toNat : ℤ) = now + 2592000 ↔
        req.expiresInSecs.toNat = 2592000 := by
      rw [hnow, Option.getD_some]
      omega
    constructor
    · intro hkeeps
      have hexpires := hkeeps [] ⟨w', []⟩ .refl hawaits
      exact ⟨hwindow.mp ((expiresAfter_iff hdue hawaits).mp hexpires), hparties⟩
    · rintro ⟨hsame, -⟩ steps pool hpool hawaits'
      exact (expiresAfter_iff (dueAt_poolRun hpool hclock hdue) hawaits').mpr (hwindow.mpr hsame)

/-- A request for an agreement with Alice, and its event. -/
def windowRequest (expiresInSecs : UInt64) : CreateAgreementRequest :=
  ⟨"Agreement", [.pubkey aliceKey], expiresInSecs⟩
def windowEvent : ParsedEvent := createdEvent "A" [aliceKey]

theorem exists_handling : ∃ handling w', Runs perform (handleCreateAgreement windowEvent).run
    (World.ofDb accountsDb) handling (.ok ()) w' := by
  obtain ⟨steps, ⟨⟩, w', hrun⟩ := ok_of_interpret (World.ofDb accountsDb) (cooperate 0)
    (show (interpret perform (cooperate 0) (handleCreateAgreement windowEvent).run
      (World.ofDb accountsDb)).any (fun result => result.2.1.isOk) = true by decide +kernel)
  exact ⟨steps, w', hrun⟩

theorem keepsWindow_month : ∃ handling w',
    Runs perform (handleCreateAgreement windowEvent).run (World.ofDb accountsDb)
      handling (.ok ()) w' ∧
      KeepsWindow sampleEnv (Vector.replicate 32 0) (windowRequest 2592000) windowEvent
        handling w' := by
  obtain ⟨handling, w', hrun⟩ := exists_handling
  exact ⟨handling, w', hrun,
    (keepsWindow_iff rfl hrun).mpr ⟨by decide, by simp [windowEvent, createdEvent]⟩⟩

theorem short_window_not_kept :
    ¬ ∀ (env : Env) (vaultKey : Pubkey) (req : CreateAgreementRequest) (event : ParsedEvent)
        (w w' : World) (handling : List BackendStep),
      validateInviteWindow env.config.inviteExpirySeconds req.expiresInSecs = .ok () →
      w.partyRows event.agreementPda = [] →
      Runs perform (handleCreateAgreement event).run w handling (.ok ()) w' →
        KeepsWindow env vaultKey req event handling w' := by
  intro hclaim
  obtain ⟨handling, w', hrun⟩ := exists_handling
  have hnew : (World.ofDb accountsDb).partyRows windowEvent.agreementPda = [] := rfl
  have hkeeps := hclaim sampleEnv (Vector.replicate 32 0) (windowRequest 1000) windowEvent _ w'
    handling (by decide) hnew hrun
  have hawaits := (awaitsSignatures_of_created hnew hrun).1
  obtain ⟨now, hnow, -, hdue⟩ := dueAt_of_created hnew (by simp [windowEvent, createdEvent]) hrun
  have hsame := (expiresAfter_iff hdue hawaits).mp (hkeeps [] ⟨w', []⟩ .refl hawaits)
  rw [hnow, Option.getD_some] at hsame
  have hwindow : (windowRequest 1000).expiresInSecs.toNat = 1000 := rfl
  omega

end PactumCodex
