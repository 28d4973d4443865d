import PactumCodex.World

/-!
# What a single step does

Every step of the backend either executes one SQL statement, commits one
transaction, or leaves the database alone (`Step.effect`).  The tables are
touched by their own statements only, and a commit touches drafts and
invitations only.

All invariants of later modules are derived from these lemmas, so that they argue
about the statements on one table and never split the operations again:

* `payments_step`, `parties_step` and `counts_step` for tables that no transaction
  writes;
* `stored_step` for drafts and invitations, which are also written by commits;
* `accounts_step` for the accounts, which the backend reads only.

Operations that do not write are `quiet`, whatever their answer is, and
`db_of_quiet_chain` says that the database stays as it is while only such
operations are performed.
-/

namespace PactumCodex

open Interaction Relational

/-- The step executes the statement with the given result. -/
def Executes (step : BackendStep) (s : Stmt) (out : s.Out) : Prop :=
  step = ⟨step.pre, .sql s, .ok out, step.post⟩

/-- The effect of a step on the database. -/
inductive Effect : BackendStep → Prop
  | executed (s : Stmt) (out : s.Out) (w w' : World) :
      s.unblocked w.db w.txs → (∀ id ∈ s.generated out, id ∉ w.uuids) →
      s.exec out w.db = some w'.db → w'.uuids = s.generated out ++ w.uuids → w'.txs = w.txs →
      Effect ⟨w, .sql s, .ok out, w'⟩
  | committed (id : ℕ) (tx : Tx) (w w' : World) :
      w.txs.find? (·.id = id) = some tx → tx.writes.foldlM TxWrite.apply w.db = some w'.db →
      w'.uuids = w.uuids → w'.txs = w.txs.filter (fun other => other.id ≠ id) →
      Effect ⟨w, .commit id, .ok (), w'⟩
  | silent (step : BackendStep) : step.post.db = step.pre.db →
      (∀ id ∈ step.pre.uuids, id ∈ step.post.uuids) → Effect step

/-- A statement that succeeded was not blocked, generated fresh identifiers and has its effect. -/
theorem performSql_eq_some {s : Stmt} {out : s.Out} {w w' : World} :
    performSql s out w = some w' ↔
      s.unblocked w.db w.txs ∧ (∀ id ∈ s.generated out, id ∉ w.uuids) ∧
        ∃ db, s.exec out w.db = some db ∧
          w' = { w with db, uuids := s.generated out ++ w.uuids } := by
  unfold performSql
  rw [Option.ite_none_right_eq_some, and_assoc, Option.map_eq_some_iff]
  simp only [@eq_comm _ _ w', List.all_eq_true, decide_eq_true_eq]

theorem effect_sql {s : Stmt} {out : s.Out} {w w' : World} (h : performSql s out w = some w') :
    Effect ⟨w, .sql s, .ok out, w'⟩ := by
  obtain ⟨hunblocked, hfresh, db, hexec, rfl⟩ := performSql_eq_some.mp h
  exact .executed s out w _ hunblocked hfresh hexec rfl rfl

/-- The writes of a statement of the transaction. -/
def TxStmt.writes : TxStmt → List TxWrite
  | .write change => [change]
  | _ => []

/-- What a statement of the transaction returns. -/
def TxStmt.Returns (db : Db) : (s : TxStmt) → s.Out → Prop
  | .lockInvitation token, out =>
      out = (db.invitation? token).map fun row => ⟨row.id, row.draftId, row.status, row.expiresAt⟩
  | .lockDraft id, out => out = (db.draft? id).map fun row => ⟨row.partySlots, row.creatorPubkey⟩
  | .write _, _ => True

/-- A statement of a transaction reads the database and adds its writes to the transaction. -/
theorem performTx_effect {id : ℕ} {s : TxStmt} {out : s.Out} {w w' : World}
    (h : performTx id s out w = some w') :
    ∃ tx tx' : Tx, w.txs.find? (·.id = id) = some tx ∧ w' = w.setTx tx' ∧ tx'.id = tx.id ∧
      tx'.writes = tx.writes ++ s.writes ∧ s.Returns w.db out := by
  unfold performTx at h
  split at h
  · cases h
  · rename_i tx hfind
    refine ⟨tx, ?_⟩
    cases s with
    | lockInvitation token =>
        simp only [Option.ite_none_right_eq_some, Option.some.injEq] at h
        obtain ⟨⟨hout, -⟩, rfl⟩ := h
        exact ⟨_, hfind, rfl, rfl, (List.append_nil _).symm, hout⟩
    | lockDraft draftId =>
        simp only [Option.ite_none_right_eq_some, Option.some.injEq] at h
        obtain ⟨⟨hout, -⟩, rfl⟩ := h
        exact ⟨_, hfind, rfl, rfl, (List.append_nil _).symm, hout⟩
    | write change =>
        simp only [Option.some.injEq] at h
        exact ⟨_, hfind, h.symm, rfl, rfl, trivial⟩

theorem performTx_silent {id : ℕ} {s : TxStmt} {out : s.Out} {w w' : World}
    (h : performTx id s out w = some w') : w'.db = w.db ∧ w'.uuids = w.uuids := by
  obtain ⟨tx, tx', -, rfl, -⟩ := performTx_effect h
  exact ⟨rfl, rfl⟩

/-- A commit applies the writes of its transaction and closes it. -/
theorem performCommit_eq_some {id : ℕ} {w w' : World} : performCommit id w = some w' ↔
    ∃ tx db, w.txs.find? (·.id = id) = some tx ∧ tx.writes.foldlM TxWrite.apply w.db = some db ∧
      w' = { w with db, txs := w.txs.filter fun other => other.id ≠ id } := by
  unfold performCommit
  cases hfind : w.txs.find? (·.id = id) with
  | none => simp
  | some tx => simp [eq_comm]

theorem effect_commit {id : ℕ} {w w' : World} (h : performCommit id w = some w') :
    Effect ⟨w, .commit id, .ok (), w'⟩ := by
  obtain ⟨tx, db, hfind, hwrites, rfl⟩ := performCommit_eq_some.mp h
  exact .committed id tx w _ hfind hwrites rfl rfl

/-- Every step has one of the three effects. -/
theorem Step.effect {step : BackendStep} (h : step.Valid perform) : Effect step := by
  obtain ⟨w, op, ans, w'⟩ := step
  have hsilent : ∀ {w'' : World}, w'' = w' → w''.db = w.db → (∀ id ∈ w.uuids, id ∈ w''.uuids) →
      Effect ⟨w, op, ans, w'⟩ := by
    intro w'' heq hdb huuids
    exact .silent _ (heq ▸ hdb) (heq ▸ huuids)
  change perform op ans w = some w' at h
  -- a statement that has failed is like any other operation without effect
  cases op with
  | sql s =>
      cases ans with
      | ok out => exact effect_sql h
      | error e => exact hsilent (Option.some.inj h) rfl fun _ hid => hid
  | tx id s =>
      cases ans with
      | ok out =>
          obtain ⟨hdb, huuids⟩ := performTx_silent h
          exact hsilent rfl hdb fun _ hid => huuids ▸ hid
      | error e => exact hsilent (Option.some.inj h) rfl fun _ hid => hid
  | commit id =>
      cases ans with
      | ok out => exact effect_commit h
      | error e => exact hsilent (Option.some.inj h) rfl fun _ hid => hid
  | begin =>
      cases ans with
      | ok id =>
          obtain ⟨-, hw⟩ := provided_eq_some.mp h
          exact hsilent hw.symm rfl fun _ hid => hid
      | error e => exact hsilent (Option.some.inj h) rfl fun _ hid => hid
  | dbNow =>
      obtain ⟨-, hw⟩ := provided_eq_some.mp h
      exact hsilent hw.symm rfl fun _ hid => hid
  | newUuid =>
      obtain ⟨-, hw⟩ := provided_eq_some.mp h
      exact hsilent hw.symm rfl fun _ hid => List.mem_cons_of_mem _ hid
  | _ => exact hsilent (Option.some.inj h) rfl fun _ hid => hid

/-- An executed statement has its effect. -/
theorem exec_of_executes {step : BackendStep} {s : Stmt} {out : s.Out}
    (h : step.Valid perform) (hstep : Executes step s out) :
    s.exec out step.pre.db = some step.post.db := by
  obtain ⟨w, op, ans, w'⟩ := step
  obtain ⟨rfl, hans⟩ : op = .sql s ∧ ans ≍ (Except.ok out : Except Failure s.Out) := by
    simpa [Executes] using hstep
  obtain rfl := eq_of_heq hans
  obtain ⟨-, -, db, hexec, hw⟩ := performSql_eq_some.mp h
  rw [hexec, show w'.db = db from congrArg World.db hw]

/-! ## Tables a commit does not touch -/

theorem TxWrite.apply_frame {db db' : Db} {write : TxWrite} (h : write.apply db = some db') :
    db' = { db with drafts := db'.drafts, invitations := db'.invitations } := by
  cases write <;>
    · simp only [TxWrite.apply, Option.map_eq_some_iff] at h
      obtain ⟨table, -, rfl⟩ := h
      rfl

/-- A transaction writes drafts and invitations only. -/
theorem foldlM_apply_frame {writes : List TxWrite} {db db' : Db}
    (h : writes.foldlM TxWrite.apply db = some db') :
    db' = { db with drafts := db'.drafts, invitations := db'.invitations } := by
  refine foldlM_related
    (fun db db' => db' = { db with drafts := db'.drafts, invitations := db'.invitations })
    (fun _ => rfl) ?_ (fun _ _ _ _ hwrite => TxWrite.apply_frame hwrite) h
  intro db₁ db₂ db₃ hfirst hsecond
  rw [hfirst] at hsecond
  exact hsecond

/-- A statement writes the tables it is about; a commit writes none of these three. -/
theorem tables_step {step : BackendStep} (h : step.Valid perform) :
    (step.post.db.payments = step.pre.db.payments ∨ ∃ (s : PaymentStmt) (out : s.Out),
      Executes step (.payment s) out ∧ s.exec out step.pre.db = some step.post.db.payments) ∧
    (step.post.db.parties = step.pre.db.parties ∨ ∃ (s : PartyStmt) (out : s.Out),
      Executes step (.party s) out ∧ s.exec out step.pre.db = some step.post.db.parties) ∧
    (step.post.db.counts = step.pre.db.counts ∨ ∃ (s : CountStmt) (out : s.Out),
      Executes step (.count s) out ∧ s.exec out step.pre.db = some step.post.db.counts) := by
  cases Step.effect h with
  | executed s out w w' _ _ hexec _ _ =>
      -- the statements on each of the three tables, then those on other tables
      cases s with
      | payment s =>
          obtain ⟨payments, hexec, hdb⟩ := Option.map_eq_some_iff.mp hexec
          refine ⟨Or.inr ⟨s, out, rfl, ?_⟩, Or.inl ?_, Or.inl ?_⟩
          · rw [hexec, ← hdb]
          · rw [← hdb]
          · rw [← hdb]
      | party s =>
          obtain ⟨parties, hexec, hdb⟩ := Option.map_eq_some_iff.mp hexec
          refine ⟨Or.inl ?_, Or.inr ⟨s, out, rfl, ?_⟩, Or.inl ?_⟩
          · rw [← hdb]
          · rw [hexec, ← hdb]
          · rw [← hdb]
      | count s =>
          obtain ⟨counts, hexec, hdb⟩ := Option.map_eq_some_iff.mp hexec
          refine ⟨Or.inl ?_, Or.inl ?_, Or.inr ⟨s, out, rfl, ?_⟩⟩
          · rw [← hdb]
          · rw [← hdb]
          · rw [hexec, ← hdb]
      | account s =>
          obtain ⟨-, hdb⟩ := provided_eq_some.mp hexec
          exact ⟨Or.inl (by rw [hdb]), Or.inl (by rw [hdb]), Or.inl (by rw [hdb])⟩
      | _ =>
          simp only [Stmt.exec, Option.map_eq_some_iff] at hexec
          obtain ⟨table, -, hdb⟩ := hexec
          exact ⟨Or.inl (by rw [← hdb]), Or.inl (by rw [← hdb]), Or.inl (by rw [← hdb])⟩
  | committed id tx w w' _ hwrites _ _ =>
      have hframe := foldlM_apply_frame hwrites
      exact ⟨Or.inl (by rw [hframe]), Or.inl (by rw [hframe]), Or.inl (by rw [hframe])⟩
  | silent step hdb _ => exact ⟨Or.inl (by rw [hdb]), Or.inl (by rw [hdb]), Or.inl (by rw [hdb])⟩

/-- Payments are written by statements on payments only. -/
theorem payments_step {step : BackendStep} (h : step.Valid perform) :
    step.post.db.payments = step.pre.db.payments ∨ ∃ (s : PaymentStmt) (out : s.Out),
      Executes step (.payment s) out ∧ s.exec out step.pre.db = some step.post.db.payments :=
  (tables_step h).1

/-- Party rows are written by statements on party rows only. -/
theorem parties_step {step : BackendStep} (h : step.Valid perform) :
    step.post.db.parties = step.pre.db.parties ∨ ∃ (s : PartyStmt) (out : s.Out),
      Executes step (.party s) out ∧ s.exec out step.pre.db = some step.post.db.parties :=
  (tables_step h).2.1

/-- Counters are written by statements on counters only. -/
theorem counts_step {step : BackendStep} (h : step.Valid perform) :
    step.post.db.counts = step.pre.db.counts ∨ ∃ (s : CountStmt) (out : s.Out),
      Executes step (.count s) out ∧ s.exec out step.pre.db = some step.post.db.counts :=
  (tables_step h).2.2

/-- The step commits a transaction with these writes. -/
def CommitsWrites (step : BackendStep) (writes : List TxWrite) : Prop :=
  (∃ id, step.op = .commit id) ∧ writes.foldlM TxWrite.apply step.pre.db = some step.post.db

/-- Drafts and invitations are written by the statements on them and by commits. -/
theorem stored_step {step : BackendStep} (h : step.Valid perform) :
    (step.post.db.drafts = step.pre.db.drafts ∨
      (∃ (s : DraftStmt) (out : s.Out), Executes step (.draft s) out ∧
        s.exec out step.pre.db = some step.post.db.drafts) ∨
      ∃ writes, CommitsWrites step writes) ∧
    (step.post.db.invitations = step.pre.db.invitations ∨
      (∃ (s : InvitationStmt) (out : s.Out), Executes step (.invitation s) out ∧
        s.exec out step.pre.db = some step.post.db.invitations) ∨
      ∃ writes, CommitsWrites step writes) := by
  cases Step.effect h with
  | executed s out w w' _ _ hexec _ _ =>
      cases s with
      | draft s =>
          obtain ⟨drafts, hexec, hdb⟩ := Option.map_eq_some_iff.mp hexec
          refine ⟨Or.inr (Or.inl ⟨s, out, rfl, ?_⟩), Or.inl ?_⟩
          · rw [hexec, ← hdb]
          · rw [← hdb]
      | invitation s =>
          obtain ⟨invitations, hexec, hdb⟩ := Option.map_eq_some_iff.mp hexec
          refine ⟨Or.inl ?_, Or.inr (Or.inl ⟨s, out, rfl, ?_⟩)⟩
          · rw [← hdb]
          · rw [hexec, ← hdb]
      | account s =>
          obtain ⟨-, hdb⟩ := provided_eq_some.mp hexec
          exact ⟨Or.inl (by rw [hdb]), Or.inl (by rw [hdb])⟩
      | _ =>
          simp only [Stmt.exec, Option.map_eq_some_iff] at hexec
          obtain ⟨table, -, hdb⟩ := hexec
          exact ⟨Or.inl (by rw [← hdb]), Or.inl (by rw [← hdb])⟩
  -- a commit may write both tables
  | committed id tx w w' _ hwrites _ _ =>
      have hcommits : CommitsWrites ⟨w, .commit id, .ok (), w'⟩ tx.writes := ⟨⟨id, rfl⟩, hwrites⟩
      exact ⟨Or.inr (Or.inr ⟨_, hcommits⟩), Or.inr (Or.inr ⟨_, hcommits⟩)⟩
  | silent step hdb _ => exact ⟨Or.inl (by rw [hdb]), Or.inl (by rw [hdb])⟩

/-- Contacts and wallets are never written. -/
theorem accounts_step {step : BackendStep} (h : step.Valid perform) :
    step.post.db.contacts = step.pre.db.contacts ∧ step.post.db.wallets = step.pre.db.wallets := by
  cases Step.effect h with
  | executed s out w w' _ _ hexec _ _ =>
      cases s with
      | account s =>
          obtain ⟨-, hdb⟩ := provided_eq_some.mp hexec
          rw [hdb]
          exact ⟨rfl, rfl⟩
      | _ =>
          simp only [Stmt.exec, Option.map_eq_some_iff] at hexec
          obtain ⟨table, -, hdb⟩ := hexec
          rw [← hdb]
          exact ⟨rfl, rfl⟩
  | committed id tx w w' _ hwrites _ _ =>
      have hframe := foldlM_apply_frame hwrites
      rw [hframe]
      exact ⟨rfl, rfl⟩
  | silent step hdb _ =>
      rw [hdb]
      exact ⟨rfl, rfl⟩

/-- The party row stays with its party, its agreement and its creator. -/
structure PartyKept (party party' : Party) : Prop where
  partyPubkey : party'.partyPubkey = party.partyPubkey
  agreementPda : party'.agreementPda = party.agreementPda
  creatorPubkey : party'.creatorPubkey = party.creatorPubkey

/-- No statement moves a party row, or deletes one. -/
theorem PartyStmt.exec_fixed {s : PartyStmt} {out : s.Out} {db : Db}
    {parties : Table Party PartiesValid} (h : s.exec out db = some parties) :
    RowsKept True PartyKept db.parties.rows parties.rows := by
  have hrefl : ∀ party : Party, PartyKept party party := fun _ => ⟨rfl, rfl, rfl⟩
  cases s with
  | insert partyPubkey agreementPda creatorPubkey now =>
      simp only [PartyStmt.exec] at h
      split at h
      · rw [Option.some.inj h]
        exact rowsKept_refl hrefl
      · rw [rows_of_commit h]
        exact rowsKept_append hrefl _ trivial
  | sign | lockForExpiry =>
      simp only [PartyStmt.exec, Option.ite_none_right_eq_some] at h
      exact rowsKept_of_commit h.2 hrefl fun _ _ _ => ⟨rfl, rfl, rfl⟩
  | setStatus | unlockFromExpiry =>
      exact rowsKept_of_commit h hrefl fun _ _ _ => ⟨rfl, rfl, rfl⟩
  | unsignedCount | partiesOf | due => exact rowsKept_of_provided h hrefl

/-- No statement moves a party row to another agreement, or deletes one. -/
theorem PartyStmt.exec_kept {s : PartyStmt} {out : s.Out} {db : Db}
    {parties : Table Party PartiesValid} (h : s.exec out db = some parties) :
    RowsKept True (fun party party' : Party => party'.agreementPda = party.agreementPda)
      db.parties.rows parties.rows :=
  (PartyStmt.exec_fixed h).mono id fun _ _ hkept => hkept.agreementPda

/-- A party row is still there after a step. -/
theorem partyRow_step {step : BackendStep} (h : step.Valid perform) {party : Party}
    (hparty : party ∈ step.pre.db.parties.rows) :
    ∃ party' ∈ step.post.db.parties.rows, PartyKept party party' := by
  rcases parties_step h with hsame | ⟨s, out, -, hexec⟩
  · exact ⟨party, hsame ▸ hparty, rfl, rfl, rfl⟩
  · exact (PartyStmt.exec_fixed hexec).exists_mem hparty

/-- An agreement keeps its party rows. -/
theorem party_step {step : BackendStep} (h : step.Valid perform) {party : Party}
    (hparty : party ∈ step.pre.db.parties.rows) :
    ∃ party' ∈ step.post.db.parties.rows, party'.agreementPda = party.agreementPda := by
  rcases parties_step h with hsame | ⟨s, out, -, hexec⟩
  · exact ⟨party, hsame ▸ hparty, rfl⟩
  · exact (PartyStmt.exec_kept hexec).exists_mem hparty

/-! ## Steps that write nothing -/

/-- The statement is a `SELECT`. -/
def Stmt.selects : Stmt → Bool
  | draft (.creatorOf _) => true
  | draft (.rowOf _) => true
  | invitation (.expiredOf ..) => true
  | invitation (.remindersDue _) => true
  | payment (.expiredSince _) => true
  | payment (.confirmedOf _) => true
  | payment .pendingRefunds => true
  | count (.freeUsed _) => true
  | party (.unsignedCount _) => true
  | party (.partiesOf _) => true
  | party (.due _) => true
  | account _ => true
  | _ => false

/-- The step may change the database: a statement that succeeded, or a commit. -/
def writesDb : BackendStep → Bool
  | ⟨_, .sql s, .ok _, _⟩ => !s.selects
  | ⟨_, .commit _, .ok _, _⟩ => true
  | _ => false

/-- The operation does not write to the database, whatever its answer. -/
def Op.quiet : Op → Bool
  | .sql s => s.selects
  | .commit _ => false
  | _ => true

theorem writesDb_of_quiet {step : BackendStep} (h : step.op.quiet = true) :
    writesDb step = false := by
  obtain ⟨w, op, ans, w'⟩ := step
  cases op with
  | sql s =>
      cases ans with
      | ok out => exact congrArg Bool.not h
      | error e => rfl
  | commit id => cases h
  | _ => rfl

/-- A `SELECT` leaves the world as it is. -/
theorem world_of_select {s : Stmt} {out : s.Out} {w w' : World} (hselects : s.selects = true)
    (h : performSql s out w = some w') : w' = w := by
  obtain ⟨-, -, db, hexec, rfl⟩ := performSql_eq_some.mp h
  have hsame : db = w.db ∧ s.generated out = [] := by
    cases s with
    | account s => exact ⟨(provided_eq_some.mp hexec).2, rfl⟩
    | notification s => cases hselects
    | draft s | invitation s | payment s | count s | party s =>
        obtain ⟨table, htable, rfl⟩ := Option.map_eq_some_iff.mp hexec
        cases s <;> first
          | exact ⟨by rw [(provided_eq_some.mp htable).2], rfl⟩
          | cases hselects
  rw [hsame.1, hsame.2]
  rfl

theorem db_of_quiet {step : BackendStep} (h : step.Valid perform) (hquiet : writesDb step = false) :
    step.post.db = step.pre.db := by
  cases Step.effect h with
  | executed s out w w' hunblocked hfresh hexec huuids htxs =>
      have hselects : s.selects = true := by simpa [writesDb] using hquiet
      rw [world_of_select hselects h]
  | committed => cases hquiet
  | silent step hdb _ => exact hdb

/-- Without a writing step, the database stays as it is. -/
theorem db_of_quiet_chain {w w' : World} {steps : List BackendStep} (h : Chain perform w steps w')
    (hquiet : ∀ step ∈ steps, writesDb step = false) : w'.db = w.db := by
  induction h with
  | nil => rfl
  | @cons step steps w' hvalid _ ih =>
      rw [List.forall_mem_cons] at hquiet
      rw [ih hquiet.2, db_of_quiet hvalid hquiet.1]

end PactumCodex
