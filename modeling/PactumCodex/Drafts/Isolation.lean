import PactumCodex.Drafts.ConcurrentAcceptance

/-!
# Acceptances among everything else

The transactions of `accept_invite` are interleaved with all programs of the
backend.  A single statement never writes a row that a transaction has locked
(`untouched_sql`), so the argument about concurrent acceptances carries over:
in every run of the backend, a commit has the effect of an acceptance that runs
alone (`SystemRun.commits`).
-/

namespace PactumCodex

open Interaction Relational

/-! ## Statements leave locked rows alone -/

section Untouched

variable {w w' : World} {id : ℕ} {db : Db}

/-- A statement on drafts leaves the drafts alone whose lock it does not take. -/
theorem DraftStmt.exec_unlocked {s : DraftStmt} {out : s.Out} {drafts : Table Draft DraftsValid}
    (h : s.exec out db = some drafts) {draftId : Uuid} {row : Draft}
    (hrow : db.draft? draftId = some row) (hfree : row.id ∉ s.locks) :
    ({ db with drafts } : Db).draft? draftId = some row := by
  cases s with
  | insert =>
      obtain ⟨hmem, hid⟩ := Db.draft?_eq_some.mp hrow
      refine Db.draft?_eq_some.mpr ⟨?_, hid⟩
      show row ∈ drafts.rows
      rw [rows_of_commit h]
      exact List.mem_append_left _ hmem
  | creatorOf | rowOf =>
      obtain ⟨-, rfl⟩ := provided_eq_some.mp h
      exact hrow
  | discard | setStorage | setAgreement | setPaid =>
      exact draft?_update_other h (fun _ => rfl) hrow (by simpa [locks] using hfree)

/-- An update of the invitations keeps a row that it does not concern. -/
theorem invitation?_update_other {invitations : Table Invitation InvitationsValid}
    {p : Invitation → Bool} {f : Invitation → Invitation} {token : String} {row : Invitation}
    (hcommit : commit (updateWhere p f db.invitations.rows) = some invitations)
    (hf : ∀ invitation, (f invitation).token = invitation.token)
    (hrow : db.invitation? token = some row) (hfree : p row = false) :
    ({ db with invitations } : Db).invitation? token = some row := by
  show lookup Invitation.token token invitations.rows = some row
  have hlookup : lookup Invitation.token token db.invitations.rows = some row := hrow
  rw [rows_of_commit hcommit, lookup_updateWhere hf, hlookup, Option.map_some, hfree]
  rfl

/-- A statement on invitations leaves the invitations alone whose lock it does not take. -/
theorem InvitationStmt.exec_unlocked {s : InvitationStmt} {out : s.Out}
    {invitations : Table Invitation InvitationsValid} (h : s.exec out db = some invitations)
    {token : String} {row : Invitation} (hrow : db.invitation? token = some row)
    (hfree : row.id ∉ s.locks db) :
    ({ db with invitations } : Db).invitation? token = some row := by
  obtain ⟨hmem, htoken⟩ := Db.invitation?_eq_some.mp hrow
  have hinsert : ∀ fresh, commit (db.invitations.rows ++ [fresh]) = some invitations →
      ({ db with invitations } : Db).invitation? token = some row := by
    intro fresh hcommit
    refine Db.invitation?_eq_some.mpr ⟨?_, htoken⟩
    show row ∈ invitations.rows
    rw [rows_of_commit hcommit]
    exact List.mem_append_left _ hmem
  cases s with
  | insert | insertReturning =>
      simp only [exec, Option.ite_none_right_eq_some] at h
      exact hinsert _ h.2
  | expiredOf | remindersDue =>
      obtain ⟨-, rfl⟩ := provided_eq_some.mp h
      exact hrow
  | expireStale now =>
      simp only [exec, Option.ite_none_right_eq_some] at h
      refine invitation?_update_other h.2 (fun _ => rfl) hrow
        (Bool.eq_false_iff.mpr fun hstale => ?_)
      -- a stale row is one whose lock the statement takes
      exact hfree (List.mem_map.mpr ⟨row, List.mem_filter.mpr ⟨hmem, hstale⟩, rfl⟩)
  | markReminded now invId =>
      exact invitation?_update_other h (fun _ => rfl) hrow (by simpa [locks] using hfree)

/-- A statement that is not blocked leaves the rows alone that open transactions have locked. -/
theorem untouched_sql {s : Stmt} {out : s.Out} (hunblocked : s.unblocked w.db w.txs)
    (hexec : s.exec out w.db = some w'.db) (htxs : w'.txs = w.txs) : Untouched id w w' := by
  have htx : ∀ tx, w.tx? id = some tx → w'.tx? id = some tx := by
    intro tx htx
    rw [World.tx?, htxs]
    exact htx
  have hopen : ∀ tx, w.tx? id = some tx → tx ∈ w.txs := fun tx htx => List.mem_of_find?_eq_some htx
  -- a statement changes only rows that it takes, and those nobody has locked
  cases s with
  | draft s =>
      obtain ⟨drafts, hexec, hdb⟩ := Option.map_eq_some_iff.mp hexec
      refine ⟨htx, fun _ _ token row hrow _ => ?_, fun tx hfind draftId row hrow hlocked => ?_⟩
      · rw [← hdb]
        exact hrow
      · rw [← hdb]
        refine s.exec_unlocked hexec hrow fun htaken => ?_
        have hfree := List.all_eq_true.mp (List.all_eq_true.mp hunblocked row.id htaken) tx
          (hopen tx hfind)
        exact of_decide_eq_true hfree hlocked
  | invitation s =>
      obtain ⟨invitations, hexec, hdb⟩ := Option.map_eq_some_iff.mp hexec
      refine ⟨htx, fun tx hfind token row hrow hlocked => ?_, fun _ _ draftId row hrow _ => ?_⟩
      · rw [← hdb]
        refine s.exec_unlocked hexec hrow fun htaken => ?_
        have hfree := List.all_eq_true.mp (List.all_eq_true.mp hunblocked row.id htaken) tx
          (hopen tx hfind)
        exact of_decide_eq_true hfree hlocked
      · rw [← hdb]
        exact hrow
  | account s =>
      obtain ⟨-, hdb⟩ := provided_eq_some.mp hexec
      refine ⟨htx, fun _ _ token row hrow _ => ?_, fun _ _ draftId row hrow _ => ?_⟩
      · rw [hdb]
        exact hrow
      · rw [hdb]
        exact hrow
  | _ =>
      obtain ⟨table, -, hdb⟩ := Option.map_eq_some_iff.mp hexec
      refine ⟨htx, fun _ _ token row hrow _ => ?_, fun _ _ draftId row hrow _ => ?_⟩
      · rw [← hdb]
        exact hrow
      · rw [← hdb]
        exact hrow

/-- A step outside transactions leaves the rows alone that open transactions have locked. -/
theorem untouched_step {step : BackendStep} (h : step.Valid perform)
    (hop : step.op.inTransaction = false) : Untouched id step.pre step.post := by
  cases Step.effect h with
  | executed s out w w' hunblocked _ hexec _ htxs => exact untouched_sql hunblocked hexec htxs
  | committed => cases hop
  | silent step hdb _ =>
      refine ⟨fun tx htx => ?_, fun _ _ token row hrow _ => ?_, fun _ _ draftId row hrow _ => ?_⟩
      · rw [World.tx?, txs_step h hop]
        exact htx
      · rw [hdb]
        exact hrow
      · rw [hdb]
        exact hrow

end Untouched

/-! ## All programs -/

/-- A commit has the effect of a call of `accept_invite` that runs alone. -/
def CommitsAlone (step : BackendStep) : Prop :=
  step.op.commits step.ans = true → ∃ call : AcceptCall, call.Guarantees step

/-- A commit that fails drops its transaction. -/
theorem db_of_failed_commit {step : BackendStep} (h : step.Valid perform)
    (hop : ∃ id, step.op = .commit id) (hfailed : step.op.commits step.ans = false) :
    step.post.db = step.pre.db := by
  obtain ⟨w, op, answer, w'⟩ := step
  obtain ⟨id, rfl⟩ := hop
  cases answer with
  | ok _ => cases hfailed
  | error _ =>
      have hdrop : w.dropTx id = w' := Option.some.inj h
      rw [← hdrop]
      rfl

/-- Steps outside transactions respect the open ones. -/
theorem respects_of_outside {step : BackendStep} (hop : step.op.inTransaction = false)
    (hvalid : step.Valid perform) (hlocked : Locked step.pre) :
    Respects Locked Started Untouched CommitsAlone none step := by
  refine ⟨fun hcommits => ?_, hlocked.same (txs_step hvalid hop) (nextTx_step hvalid),
    fun other _ _ => untouched_step hvalid hop⟩
  obtain ⟨w, op, answer, w'⟩ := step
  cases op <;> cases hop <;> cases hcommits

theorem entry_secures {env : Env} {p : Backend Unit} (hp : Entry env p) (w : World) :
    Secures perform Locked Started Untouched CommitsAlone p none w fun _ _ _ => True := by
  have hsingle : p.Issues (fun op => op.inTransaction = false) →
      Secures perform Locked Started Untouched CommitsAlone p none w fun _ _ _ => True :=
    fun hissues => secures_of_issues hissues fun _ => respects_of_outside
  rcases entry_single hp with ⟨auth, req, rfl⟩ | ⟨auth, token, rfl⟩ | hissues
  · exact hsingle (issues_logged ((createAgreement_issues ..).mono fun _ h => h.1.inTransaction))
  · refine secures_bind
      (((acceptInvite_secures ⟨auth, token⟩ w).weaken ?_).mono fun _ _ _ _ => trivial)
    exact fun step hguarantee _ => ⟨⟨auth, token⟩, hguarantee⟩
  · exact hsingle (hissues.mono fun _ h => h.1)

/-- **Isolation.**  In every run of the backend a commit has the effect of an acceptance that runs
alone. -/
theorem SystemRun.commits {env : Env} {w w' : World} {steps : List BackendStep} (hw : w.txs = [])
    (hrun : SystemRun env w steps w') : ∀ step ∈ steps, CommitsAlone step := by
  obtain ⟨threads, hpool⟩ := hrun
  have hstarted : ∀ (op : Op) (answer : op.Ans) (w w' : World) (id : ℕ),
      perform op answer w = some w' → Started w id → Started w' id := by
    intro op answer w w' id hperform hid
    have hvalid : Step.Valid perform (⟨w, op, answer, w'⟩ : BackendStep) := hperform
    exact lt_of_lt_of_le hid (nextTx_step hvalid)
  exact (hpool.secured (locked_of_nil hw) Untouched.trans Untouched.refl hstarted
    fun _ hp w => entry_secures hp w).1

end PactumCodex
