import PactumCodex.Drafts.Acceptance
import PactumCodex.Lib.Ownership

/-!
# Row locks

Open transactions lock the rows they have selected `FOR UPDATE`.  `Locked` is the
invariant of the transactions that `accept_invite` uses: no row is locked twice,
and a transaction buffers writes only of rows that it has locked.  So the commit
of one transaction leaves the rows that another one has locked as they are
(`Untouched`).

Each kind of step has one lemma about the invariant and one about the rows of
others:

* a statement of a transaction locks further rows, after waiting for those who
  have them, or buffers a write of a locked one (`Locked.performTx`);
* a transaction begins without locks (`Locked.begin`), and its end releases them
  (`Locked.release`);
* a commit writes what was buffered, which are rows of its own (`Locked.commit`);
* steps outside transactions change neither drafts nor invitations here
  (`untouched_of_sameDrafts`).
-/

namespace PactumCodex

open Interaction Relational

/-! ## Transactions -/

/-- The open transaction with a given number. -/
def World.tx? (w : World) (id : ℕ) : Option Tx := lookup Tx.id id w.txs

/-- The transaction has locked the row that is written. -/
def TxWrite.Covered (tx : Tx) : TxWrite → Prop
  | acceptInvitation id => id ∈ tx.invitations
  | resolveReady _ _ id => id ∈ tx.drafts
  | resolve _ id => id ∈ tx.drafts

/-- Different transactions hold different rows; `rows` are those a transaction holds. -/
def ExclusiveLocks (rows : Tx → List Uuid) (txs : List Tx) : Prop :=
  ∀ tx ∈ txs, ∀ other ∈ txs, other.id ≠ tx.id → ∀ row ∈ rows tx, row ∉ rows other

/-- The discipline of the open transactions. -/
structure Locked (w : World) : Prop where
  ids : (w.txs.map Tx.id).Nodup
  started : ∀ tx ∈ w.txs, tx.id < w.nextTx
  invitations : ExclusiveLocks Tx.invitations w.txs
  drafts : ExclusiveLocks Tx.drafts w.txs
  covered : ∀ tx ∈ w.txs, ∀ write ∈ tx.writes, write.Covered tx

/-- The transaction and the rows it has locked are the same in both worlds. -/
structure Untouched (id : ℕ) (w w' : World) : Prop where
  tx : ∀ tx, w.tx? id = some tx → w'.tx? id = some tx
  invitation : ∀ tx, w.tx? id = some tx → ∀ token row, w.db.invitation? token = some row →
    row.id ∈ tx.invitations → w'.db.invitation? token = some row
  draft : ∀ tx, w.tx? id = some tx → ∀ draftId row, w.db.draft? draftId = some row →
    row.id ∈ tx.drafts → w'.db.draft? draftId = some row

theorem Untouched.refl (id : ℕ) (w : World) : Untouched id w w :=
  ⟨fun _ h => h, fun _ _ _ _ h _ => h, fun _ _ _ _ h _ => h⟩

theorem Untouched.trans (id : ℕ) (w₁ w₂ w₃ : World) (h₁ : Untouched id w₁ w₂)
    (h₂ : Untouched id w₂ w₃) : Untouched id w₁ w₃ where
  tx tx htx := h₂.tx tx (h₁.tx tx htx)
  invitation tx htx token row hrow hmem :=
    h₂.invitation tx (h₁.tx tx htx) token row (h₁.invitation tx htx token row hrow hmem) hmem
  draft tx htx draftId row hrow hmem :=
    h₂.draft tx (h₁.tx tx htx) draftId row (h₁.draft tx htx draftId row hrow hmem) hmem

section Discipline

variable {w w' : World} {id other : ℕ} {tx tx' : Tx}

theorem Locked.mem (h : Locked w) (htx : w.tx? id = some tx) : tx ∈ w.txs ∧ tx.id = id :=
  (lookup_eq_some h.ids).mp htx

/-- Without open transactions nothing is locked. -/
theorem locked_of_nil (h : w.txs = []) : Locked w :=
  ⟨by simp [h], by simp [h], by simp [h, ExclusiveLocks], by simp [h, ExclusiveLocks], by simp [h]⟩

/-! ### Steps outside transactions -/

theorem Locked.same (h : Locked w) (htxs : w'.txs = w.txs) (hnext : w.nextTx ≤ w'.nextTx) :
    Locked w' where
  ids := htxs ▸ h.ids
  started tx hmem := lt_of_lt_of_le (h.started tx (htxs ▸ hmem)) hnext
  invitations := htxs ▸ h.invitations
  drafts := htxs ▸ h.drafts
  covered := htxs ▸ h.covered

theorem untouched_of_sameDrafts (h : SameDrafts w w') : Untouched id w w' := by
  refine ⟨fun tx htx => ?_, fun tx _ token row hrow _ => ?_, fun tx _ draftId row hrow _ => ?_⟩
  · rw [World.tx?, h.txs]
    exact htx
  · rw [Db.invitation?, h.invitations]
    exact hrow
  · rw [Db.draft?, h.drafts]
    exact hrow

/-! ### Statements of a transaction -/

theorem tx?_setTx (w : World) (tx : Tx) (id : ℕ) : (w.setTx tx).tx? id =
    (w.tx? id).map fun other => if other.id = tx.id then tx else other := by
  have hsame : ∀ other : Tx, (if other.id = tx.id then tx else other).id = other.id := by
    intro other
    split
    · exact (‹_› : other.id = tx.id).symm
    · rfl
  simp only [World.tx?, World.setTx, lookup, List.find?_map, Function.comp_def, hsame]

theorem mem_setTx {x : Tx} (h : x ∈ (w.setTx tx').txs) :
    x = tx' ∨ (x ∈ w.txs ∧ x.id ≠ tx'.id) := by
  obtain ⟨old, hmem, rfl⟩ := List.mem_map.mp h
  split
  · exact Or.inl rfl
  · exact Or.inr ⟨hmem, ‹_›⟩

theorem ExclusiveLocks.setTx {rows : Tx → List Uuid} (h : ExclusiveLocks rows w.txs)
    (hrows : ∀ other ∈ w.txs, other.id ≠ tx'.id → ∀ row ∈ rows tx', row ∉ rows other) :
    ExclusiveLocks rows (w.setTx tx').txs := by
  intro x hx y hy hne row hrow
  rcases mem_setTx hx with hxtx | ⟨hxmem, hxid⟩
  · rcases mem_setTx hy with hytx | ⟨hymem, hyid⟩
    · exact absurd (hytx.trans hxtx.symm ▸ rfl) hne
    · exact hrows y hymem hyid row (hxtx ▸ hrow)
  · rcases mem_setTx hy with hytx | ⟨hymem, -⟩
    · exact fun hrow' => hrows x hxmem hxid row (hytx ▸ hrow') hrow
    · exact h x hxmem y hymem hne row hrow

/-- A statement of a transaction locks further rows, or buffers a write of a locked one. -/
theorem Locked.setTx (h : Locked w) (htx : w.tx? id = some tx) (hid : tx'.id = id)
    (hinvitations : ∀ other ∈ w.txs, other.id ≠ id → ∀ row ∈ tx'.invitations,
      row ∉ other.invitations)
    (hdrafts : ∀ other ∈ w.txs, other.id ≠ id → ∀ row ∈ tx'.drafts, row ∉ other.drafts)
    (hcovered : ∀ write ∈ tx'.writes, write.Covered tx') : Locked (w.setTx tx') := by
  subst hid
  obtain ⟨hmem, hid⟩ := h.mem htx
  refine ⟨?_, ?_, h.invitations.setTx hinvitations, h.drafts.setTx hdrafts, ?_⟩
  · have hids : (w.setTx tx').txs.map Tx.id = w.txs.map Tx.id := by
      rw [World.setTx, List.map_map]
      refine List.map_congr_left fun other _ => ?_
      simp only [Function.comp_apply]
      split
      · exact (‹_› : other.id = tx'.id).symm
      · rfl
    rw [hids]
    exact h.ids
  · intro x hx
    rcases mem_setTx hx with rfl | ⟨hx, -⟩
    · exact hid ▸ h.started tx hmem
    · exact h.started x hx
  · intro x hx
    rcases mem_setTx hx with rfl | ⟨hx, -⟩
    · exact hcovered
    · exact h.covered x hx

theorem untouched_setTx (hid : tx'.id = id) (hother : other ≠ id) :
    Untouched other w (w.setTx tx') := by
  refine ⟨fun tx htx => ?_, fun _ _ _ _ hrow _ => hrow, fun _ _ _ _ hrow _ => hrow⟩
  have htxid : tx.id = other := by simpa using List.find?_some htx
  rw [tx?_setTx, htx, Option.map_some, if_neg]
  rw [htxid, hid]
  exact hother

/-- The transaction after one of its statements. -/
def TxStmt.extend (db : Db) (tx : Tx) : TxStmt → Tx
  | .lockInvitation token =>
      { tx with invitations := (db.invitation? token).toList.map Invitation.id ++ tx.invitations }
  | .lockDraft id => { tx with drafts := (db.draft? id).toList.map Draft.id ++ tx.drafts }
  | .write change => { tx with writes := tx.writes ++ [change] }

/-- The statement writes only what the transaction has locked. -/
def TxStmt.Covered (tx : Tx) : TxStmt → Prop
  | .write change => change.Covered tx
  | _ => True

theorem TxStmt.extend_id (db : Db) (tx : Tx) (s : TxStmt) : (s.extend db tx).id = tx.id := by
  cases s <;> rfl

/-- What was locked stays locked. -/
theorem TxWrite.Covered.extend {change : TxWrite} (h : change.Covered tx) (db : Db) (s : TxStmt) :
    change.Covered (s.extend db tx) := by
  have hinvitations : ∀ row ∈ tx.invitations, row ∈ (s.extend db tx).invitations := by
    intro row hrow
    cases s with
    | lockInvitation token => exact List.mem_append_right _ hrow
    | lockDraft id => exact hrow
    | write change => exact hrow
  have hdrafts : ∀ row ∈ tx.drafts, row ∈ (s.extend db tx).drafts := by
    intro row hrow
    cases s with
    | lockInvitation token => exact hrow
    | lockDraft id => exact List.mem_append_right _ hrow
    | write change => exact hrow
  cases change with
  | acceptInvitation row => exact hinvitations row h
  | resolveReady slots readyAt row => exact hdrafts row h
  | resolve slots row => exact hdrafts row h

/-- **Statements of a transaction.**  A statement that succeeds reads the rows as they are, waits
for other transactions to release them, and keeps the discipline. -/
theorem Locked.performTx {s : TxStmt} {out : s.Out} (h : Locked w) (htx : w.tx? id = some tx)
    (hcovered : s.Covered tx) (hperform : performTx id s out w = some w') :
    w' = w.setTx (s.extend w.db tx) ∧ s.Returns w.db out ∧ Locked w' := by
  obtain ⟨hmem, hid⟩ := h.mem htx
  have hfind : w.txs.find? (·.id = id) = some tx := htx
  -- the rows locked before are locked by nobody else
  have hinvitations : ∀ other ∈ w.txs, other.id ≠ id → ∀ row ∈ tx.invitations,
      row ∉ other.invitations :=
    fun other hother hne => h.invitations tx hmem other hother (hid ▸ hne)
  have hdrafts : ∀ other ∈ w.txs, other.id ≠ id → ∀ row ∈ tx.drafts, row ∉ other.drafts :=
    fun other hother hne => h.drafts tx hmem other hother (hid ▸ hne)
  have hwrites : ∀ change ∈ tx.writes, change.Covered (s.extend w.db tx) :=
    fun change hchange => (h.covered tx hmem change hchange).extend w.db s
  have hextend := (s.extend_id w.db tx).trans hid
  unfold PactumCodex.performTx at hperform
  simp only [hfind] at hperform
  cases s with
  | lockInvitation token =>
      simp only [Option.ite_none_right_eq_some, Option.some.injEq] at hperform
      obtain ⟨⟨hout, hfree⟩, rfl⟩ := hperform
      refine ⟨rfl, hout, h.setTx htx hextend ?_ hdrafts hwrites⟩
      intro other hother hne row hrow
      rcases List.mem_append.mp hrow with hrow | hrow
      · obtain ⟨invitation, hinvitation, rfl⟩ := List.mem_map.mp hrow
        rw [Option.mem_toList.mp hinvitation] at hfree
        have hthis := List.all_eq_true.mp hfree other hother
        simpa [hne] using hthis
      · exact hinvitations other hother hne row hrow
  | lockDraft draftId =>
      simp only [Option.ite_none_right_eq_some, Option.some.injEq] at hperform
      obtain ⟨⟨hout, hfree⟩, rfl⟩ := hperform
      refine ⟨rfl, hout, h.setTx htx hextend hinvitations ?_ hwrites⟩
      intro other hother hne row hrow
      rcases List.mem_append.mp hrow with hrow | hrow
      · obtain ⟨draft, hdraft, rfl⟩ := List.mem_map.mp hrow
        rw [Option.mem_toList.mp hdraft] at hfree
        have hthis := List.all_eq_true.mp hfree other hother
        simpa [hne] using hthis
      · exact hdrafts other hother hne row hrow
  | write change =>
      simp only [Option.some.injEq] at hperform
      refine ⟨hperform.symm, trivial, hperform ▸ h.setTx htx hextend hinvitations hdrafts ?_⟩
      intro written hwritten
      rcases List.mem_append.mp hwritten with hwritten | hwritten
      · exact hwrites written hwritten
      · rw [List.mem_singleton.mp hwritten]
        exact hcovered.extend w.db (.write change)

theorem tx?_setTx_self (htx : w.tx? id = some tx) (hid : tx'.id = id) :
    (w.setTx tx').tx? id = some tx' := by
  have htxid : tx.id = id := by simpa using List.find?_some htx
  rw [tx?_setTx, htx, Option.map_some, if_pos]
  rw [htxid, hid]

/-! ### Begin and end -/

theorem ExclusiveLocks.cons {rows : Tx → List Uuid} {txs : List Tx} (h : ExclusiveLocks rows txs)
    (hnone : rows tx = []) : ExclusiveLocks rows (tx :: txs) := by
  intro x hx y hy hne row hrow
  rcases List.mem_cons.mp hx with rfl | hxmem
  · rw [hnone] at hrow
    cases hrow
  · rcases List.mem_cons.mp hy with rfl | hymem
    · rw [hnone]
      exact List.not_mem_nil
    · exact h x hxmem y hymem hne row hrow

theorem Locked.begin (h : Locked w) (htxs : w'.txs = ⟨w.nextTx, [], [], []⟩ :: w.txs)
    (hnext : w'.nextTx = w.nextTx + 1) : Locked w' := by
  refine ⟨?_, ?_, htxs ▸ h.invitations.cons rfl, htxs ▸ h.drafts.cons rfl, ?_⟩
  · rw [htxs, List.map_cons, List.nodup_cons]
    refine ⟨fun hmem => ?_, h.ids⟩
    obtain ⟨tx, htx, hid⟩ := List.mem_map.mp hmem
    exact absurd hid (h.started tx htx).ne
  · rw [htxs, hnext]
    refine List.forall_mem_cons.mpr ⟨Nat.lt_succ_self _, fun tx htx => ?_⟩
    exact Nat.lt_succ_of_lt (h.started tx htx)
  · rw [htxs]
    exact List.forall_mem_cons.mpr ⟨by simp, h.covered⟩

theorem untouched_begin (htxs : w'.txs = ⟨w.nextTx, [], [], []⟩ :: w.txs) (hdb : w'.db = w.db)
    (hother : other < w.nextTx) : Untouched other w w' := by
  refine ⟨fun tx htx => ?_, fun _ _ _ _ hrow _ => ?_, fun _ _ _ _ hrow _ => ?_⟩
  · rw [World.tx?, htxs, lookup, List.find?_cons_of_neg]
    · exact htx
    · simpa using hother.ne'
  · rw [hdb]
    exact hrow
  · rw [hdb]
    exact hrow

/-- The end of a transaction releases its locks. -/
theorem Locked.release (h : Locked w) (htxs : w'.txs = w.txs.filter fun tx => tx.id ≠ id)
    (hnext : w'.nextTx = w.nextTx) : Locked w' := by
  have hmem : ∀ tx ∈ w'.txs, tx ∈ w.txs := by
    intro tx htx
    rw [htxs] at htx
    exact List.mem_of_mem_filter htx
  refine ⟨?_, fun tx htx => hnext ▸ h.started tx (hmem tx htx),
    fun tx htx other hother => h.invitations tx (hmem tx htx) other (hmem other hother),
    fun tx htx other hother => h.drafts tx (hmem tx htx) other (hmem other hother),
    fun tx htx => h.covered tx (hmem tx htx)⟩
  rw [htxs]
  exact h.ids.sublist (List.filter_sublist.map _)

theorem tx?_release (htxs : w'.txs = w.txs.filter fun tx => tx.id ≠ id) (hother : other ≠ id)
    (htx : w.tx? other = some tx) : w'.tx? other = some tx := by
  rw [World.tx?, htxs, lookup, List.find?_filter, ← htx]
  unfold World.tx? lookup
  congr 1
  funext tx
  by_cases htx : tx.id = other
  · simp [htx, hother]
  · simp [htx]

theorem untouched_dropTx (hother : other ≠ id) : Untouched other w (w.dropTx id) :=
  ⟨fun _ htx => tx?_release rfl hother htx, fun _ _ _ _ hrow _ => hrow, fun _ _ _ _ hrow _ => hrow⟩

/-! ### Commit -/

/-- Rows that the transaction has not locked are the same. -/
structure Unwritten (tx : Tx) (db db' : Db) : Prop where
  invitation : ∀ token row, db.invitation? token = some row → row.id ∉ tx.invitations →
    db'.invitation? token = some row
  draft : ∀ id row, db.draft? id = some row → row.id ∉ tx.drafts → db'.draft? id = some row

theorem Unwritten.trans {db₁ db₂ db₃ : Db} (h₁ : Unwritten tx db₁ db₂) (h₂ : Unwritten tx db₂ db₃) :
    Unwritten tx db₁ db₃ where
  invitation token row hrow hfree :=
    h₂.invitation token row (h₁.invitation token row hrow hfree) hfree
  draft id row hrow hfree := h₂.draft id row (h₁.draft id row hrow hfree) hfree

/-- An update of another draft. -/
theorem draft?_update_other {db : Db} {drafts : Table Draft DraftsValid} {f : Draft → Draft}
    {written draftId : Uuid} {row : Draft}
    (hcommit : commit (updateWhere (·.id = written) f db.drafts.rows) = some drafts)
    (hf : ∀ draft, (f draft).id = draft.id) (hrow : db.draft? draftId = some row)
    (hfree : row.id ≠ written) : ({ db with drafts } : Db).draft? draftId = some row := by
  rw [draft?_updateWhere hcommit hf hrow, if_neg]
  simpa using hfree

theorem TxWrite.apply_unwritten {change : TxWrite} {db db' : Db} (hcovered : change.Covered tx)
    (h : change.apply db = some db') : Unwritten tx db db' := by
  cases change with
  | acceptInvitation written =>
      obtain ⟨invitations, hcommit, rfl⟩ := Option.map_eq_some_iff.mp h
      refine ⟨fun token row hrow hfree => ?_, fun _ _ hrow _ => hrow⟩
      show lookup Invitation.token token invitations.rows = some row
      have hlookup : lookup Invitation.token token db.invitations.rows = some row := hrow
      have hne : row.id ≠ written := fun hsame => hfree (hsame ▸ hcovered)
      rw [rows_of_commit hcommit, lookup_updateWhere, hlookup, Option.map_some, if_neg]
      · simpa using hne
      · exact fun _ => rfl
  | resolveReady slots readyAt written =>
      obtain ⟨drafts, hcommit, rfl⟩ := Option.map_eq_some_iff.mp h
      refine ⟨fun _ _ hrow _ => hrow, fun draftId row hrow hfree => ?_⟩
      exact draft?_update_other hcommit (fun _ => rfl) hrow fun hsame => hfree (hsame ▸ hcovered)
  | resolve slots written =>
      obtain ⟨drafts, hcommit, rfl⟩ := Option.map_eq_some_iff.mp h
      refine ⟨fun _ _ hrow _ => hrow, fun draftId row hrow hfree => ?_⟩
      exact draft?_update_other hcommit (fun _ => rfl) hrow fun hsame => hfree (hsame ▸ hcovered)

theorem foldlM_apply_unwritten {writes : List TxWrite} {db db' : Db}
    (hcovered : ∀ change ∈ writes, change.Covered tx)
    (h : writes.foldlM TxWrite.apply db = some db') : Unwritten tx db db' := by
  refine foldlM_related (Unwritten tx) (fun db => ?_) (fun _ _ _ => Unwritten.trans)
    (fun change hchange _ _ => TxWrite.apply_unwritten (hcovered change hchange)) h
  exact ⟨fun _ _ hrow _ => hrow, fun _ _ hrow _ => hrow⟩

/-- **Commits.**  A commit applies the writes of its transaction, and leaves the rows that others
have locked alone. -/
theorem Locked.commit (h : Locked w) (htx : w.tx? id = some tx)
    (hcommit : performCommit id w = some w') :
    tx.writes.foldlM TxWrite.apply w.db = some w'.db ∧ Locked w' ∧
      ∀ other, other ≠ id → Untouched other w w' := by
  obtain ⟨hmem, hid⟩ := h.mem htx
  obtain ⟨tx', db, hfind, hwrites, rfl⟩ := performCommit_eq_some.mp hcommit
  obtain rfl : tx = tx' := Option.some.inj (htx.symm.trans hfind)
  refine ⟨hwrites, h.release rfl rfl, fun other hother => ?_⟩
  have hunwritten := foldlM_apply_unwritten (h.covered tx hmem) hwrites
  -- a row locked by the other transaction is not locked by the one that commits
  refine ⟨fun _ htx' => tx?_release rfl hother htx', fun tx' htx' token row hrow hlocked => ?_,
    fun tx' htx' draftId row hrow hlocked => ?_⟩
  · obtain ⟨hmem', hid'⟩ := h.mem htx'
    refine hunwritten.invitation token row hrow ?_
    exact h.invitations tx' hmem' tx hmem (by rw [hid, hid']; exact hother.symm) row.id hlocked
  · obtain ⟨hmem', hid'⟩ := h.mem htx'
    refine hunwritten.draft draftId row hrow ?_
    exact h.drafts tx' hmem' tx hmem (by rw [hid, hid']; exact hother.symm) row.id hlocked

end Discipline

/-- Transactions are numbered in the order in which they begin. -/
theorem nextTx_step {step : BackendStep} (h : step.Valid perform) :
    step.pre.nextTx ≤ step.post.nextTx := by
  obtain ⟨w, op, answer, w'⟩ := step
  change perform op answer w = some w' at h
  show w.nextTx ≤ w'.nextTx
  have hsame : ∀ {w₁ : World}, some w₁ = some w' → w₁.nextTx = w.nextTx → w.nextTx ≤ w'.nextTx := by
    intro w₁ heq hnext
    rw [← Option.some.inj heq, hnext]
  cases op with
  | sql s =>
      cases answer with
      | ok out =>
          obtain ⟨-, -, db, -, rfl⟩ := performSql_eq_some.mp h
          exact le_rfl
      | error e => exact hsame h rfl
  | begin =>
      cases answer with
      | ok id =>
          obtain ⟨-, rfl⟩ := provided_eq_some.mp h
          exact Nat.le_succ _
      | error e => exact hsame h rfl
  | tx id s =>
      cases answer with
      | ok out =>
          obtain ⟨tx, tx', -, rfl, -⟩ := performTx_effect h
          exact le_rfl
      | error e => exact hsame h rfl
  | commit id =>
      cases answer with
      | ok out =>
          obtain ⟨-, db, -, -, rfl⟩ := performCommit_eq_some.mp h
          exact le_rfl
      | error e => exact hsame h rfl
  | dbNow => exact hsame (congrArg some (provided_eq_some.mp h).2.symm) rfl
  | newUuid => exact hsame (congrArg some (provided_eq_some.mp h).2.symm) rfl
  | _ => exact hsame h rfl

end PactumCodex
