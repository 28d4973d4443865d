import PactumCodex.Drafts.Rows
import PactumCodex.Lib.Interleaved
import PactumCodex.Payments.FreeTier

/-!
# Concurrent uses of the free tier

`initiate_payment` reads the counter, marks the draft as paid and counts the use
in three separate statements, and does not look at whether the draft is paid
already.  When all requests have ended, the counter equals the number of the
user's paid drafts, within the tier, exactly if no request has marked a draft
that was paid before, or one too many (`free_tier_exact_iff`).

## Two sums

* The counter grows by the uses that are counted, and the paid drafts by the drafts
  that become paid (`paidDrafts_chain`).
* A request counts exactly the drafts it marks: marking earns what counting spends,
  and a request that has ended is balanced (`counted_eq_marked`).

So the counter equals the number of paid drafts if and only if every mark was on
an unpaid draft.  That all these drafts belong to the user is read before the mark
and does not change (`initiatePayment_marksOwn`).

The bound follows the order of the steps: the uses counted so far are at most the
drafts marked so far, which stay within the tier as long as each of them was
within it when it was marked.
-/

namespace PactumCodex

open Interaction Relational

/-! ## Paid drafts -/

/-- The number of drafts of a user that are marked as paid; only the free tier marks them. -/
def Db.paidDrafts (db : Db) (pubkey : String) : ℕ :=
  db.drafts.rows.countP fun draft => draft.creatorPubkey = pubkey ∧ draft.paid

/-- The step marks a draft of the user that was not paid before. -/
def marksUnpaid (pubkey : String) (step : BackendStep) : Bool :=
  (markedPaid step).any fun id => (step.pre.db.draft? id).any fun draft =>
    draft.creatorPubkey = pubkey ∧ draft.paid = false

section PaidDrafts

variable {pubkey : String} {db db' : Db}

/-- What counts of a draft. -/
def Draft.account (draft : Draft) : String × Bool := (draft.creatorPubkey, draft.paid)

theorem paidDrafts_eq_of_accounts
    (h : db'.drafts.rows.map Draft.account = db.drafts.rows.map Draft.account) :
    db'.paidDrafts pubkey = db.paidDrafts pubkey := by
  have hcount : ∀ db : Db, db.paidDrafts pubkey =
      (db.drafts.rows.map Draft.account).countP fun account => account.1 = pubkey ∧ account.2 := by
    intro db
    rw [List.countP_map]
    rfl
  rw [hcount, hcount, h]

theorem setPaid_paidDrafts {id : Uuid}
    (h : (DraftStmt.setPaid id).exec () db = some db'.drafts) :
    db'.paidDrafts pubkey = db.paidDrafts pubkey +
      if (db.draft? id).any fun draft => draft.creatorPubkey = pubkey ∧ draft.paid = false
        then 1 else 0 := by
  have hcount := countP_updateWhere_key (k := id) db.drafts.valid
    (fun draft => draft.creatorPubkey = pubkey ∧ draft.paid) ({ · with paid := true })
  rw [← rows_of_commit h] at hcount
  unfold Db.paidDrafts Db.draft?
  cases hlookup : lookup Draft.id id db.drafts.rows with
  | none => simpa [hlookup] using hcount
  | some draft =>
      rw [hlookup] at hcount
      by_cases hcreator : draft.creatorPubkey = pubkey
      · cases hpaid : draft.paid <;> simp [hcreator, hpaid] at hcount ⊢ <;> omega
      · simpa [hcreator] using hcount

/-- A statement other than `setPaid` marks no draft as paid. -/
theorem DraftStmt.exec_paidDrafts {s : DraftStmt} {out : s.Out} (hs : ∀ id, s ≠ .setPaid id)
    (h : s.exec out db = some db'.drafts) : db'.paidDrafts pubkey = db.paidDrafts pubkey := by
  cases s with
  | insert => simp [Db.paidDrafts, rows_of_commit h]
  | creatorOf => rw [Db.paidDrafts, (provided_eq_some.mp h).2, Db.paidDrafts]
  | rowOf => rw [Db.paidDrafts, (provided_eq_some.mp h).2, Db.paidDrafts]
  | discard =>
      refine paidDrafts_eq_of_accounts ?_
      rw [rows_of_commit h, map_updateWhere]
      exact fun _ => rfl
  | setStorage =>
      refine paidDrafts_eq_of_accounts ?_
      rw [rows_of_commit h, map_updateWhere]
      exact fun _ => rfl
  | setAgreement =>
      refine paidDrafts_eq_of_accounts ?_
      rw [rows_of_commit h, map_updateWhere]
      exact fun _ => rfl
  | setPaid id => exact absurd rfl (hs id)

theorem TxWrite.apply_accounts {write : TxWrite} (h : write.apply db = some db') :
    db'.drafts.rows.map Draft.account = db.drafts.rows.map Draft.account := by
  rcases TxWrite.apply_drafts h with hsame | ⟨id, f, hf, hrows⟩
  · rw [hsame]
  · rw [hrows, map_updateWhere]
    intro draft
    rw [hf draft]
    rfl

theorem foldlM_apply_accounts {writes : List TxWrite}
    (h : writes.foldlM TxWrite.apply db = some db') :
    db'.drafts.rows.map Draft.account = db.drafts.rows.map Draft.account :=
  foldlM_related
    (fun db db' : Db => db'.drafts.rows.map Draft.account = db.drafts.rows.map Draft.account)
    (fun _ => rfl) (fun _ _ _ hfirst hsecond => hsecond.trans hfirst)
    (fun _ _ _ _ hwrite => TxWrite.apply_accounts hwrite) h

/-- A step other than `setPaid` marks no draft as paid. -/
theorem paidDrafts_step_of_not {step : BackendStep} (h : step.Valid perform)
    (hmarked : markedPaid step = none) :
    step.post.db.paidDrafts pubkey = step.pre.db.paidDrafts pubkey := by
  obtain hsame | ⟨s, out, hexecutes, hdrafts⟩ | ⟨writes, -, hwrites⟩ :=
    (stored_step h).1
  · exact paidDrafts_eq_of_accounts (by rw [hsame])
  · refine DraftStmt.exec_paidDrafts (fun id hs => ?_) hdrafts
    subst hs
    rw [hexecutes] at hmarked
    cases hmarked
  · exact paidDrafts_eq_of_accounts (foldlM_apply_accounts hwrites)

theorem executes_of_markedPaid {step : BackendStep} {id : Uuid} (h : markedPaid step = some id) :
    Executes step (.draft (.setPaid id)) () := by
  unfold markedPaid at h
  split at h
  · obtain rfl := Option.some.inj h
    rfl
  · cases h

/-- A step adds to the paid drafts of a user what it marks. -/
theorem paidDrafts_step {step : BackendStep} (h : step.Valid perform) (pubkey : String) :
    step.post.db.paidDrafts pubkey =
      step.pre.db.paidDrafts pubkey + if marksUnpaid pubkey step then 1 else 0 := by
  cases hmarked : markedPaid step with
  | none =>
      rw [paidDrafts_step_of_not h hmarked, marksUnpaid, hmarked]
      rfl
  | some id =>
      have hexec := exec_of_executes h (executes_of_markedPaid hmarked)
      obtain ⟨drafts, hexec, hdb⟩ := Option.map_eq_some_iff.mp hexec
      have hdrafts : (DraftStmt.setPaid id).exec () step.pre.db = some step.post.db.drafts := by
        rw [hexec, ← hdb]
      rw [setPaid_paidDrafts hdrafts, marksUnpaid, hmarked]
      rfl

theorem paidDrafts_chain {w w' : World} {steps : List BackendStep} (h : Chain perform w steps w')
    (pubkey : String) :
    w'.db.paidDrafts pubkey = w.db.paidDrafts pubkey + steps.countP (marksUnpaid pubkey) := by
  induction h with
  | nil => simp
  | @cons step steps w' hvalid _ ih =>
      rw [ih, paidDrafts_step hvalid, List.countP_cons]
      omega

end PaidDrafts

/-! ## What a request earns and spends -/

/-- A step that marks a draft has to be followed by one that counts it. -/
def marked (step : BackendStep) : ℕ := if (markedPaid step).isSome then 1 else 0

/-- The step attempts to count a use of the free tier. -/
def attemptsCount (userId : Uuid) (step : BackendStep) : Bool :=
  countsUse userId step || failsToCount userId step

def attempted (userId : Uuid) (step : BackendStep) : ℕ := if attemptsCount userId step then 1 else 0

section Balance

variable {env : Env} {auth : AuthUserWithWallet} {draftId userId : Uuid}

theorem neutral_of_not_grants {step : BackendStep} (h : step.op.grants = false) :
    marked step = 0 ∧ attempted userId step = 0 := by
  refine ⟨?_, if_neg fun hattempts => ?_⟩
  · rw [marked, markedPaid_of_not_grants h]
    rfl
  · rw [attemptsCount, countsUse_of_not_grants h, Bool.false_or] at hattempts
    unfold failsToCount at hattempts
    split at hattempts
    · cases h
    · cases hattempts

/-- Marking and counting go together. -/
theorem grantFreeTier_balanced :
    Solvent perform marked (attempted userId) (grantFreeTier userId draftId).run 0
      fun _ rest => rest = 0 := by
  intro w answer w' _
  refine ⟨Nat.zero_le _, ?_⟩
  cases answer with
  | error failure => rfl
  | ok out =>
      intro w₁ answer w₂ _
      cases answer <;>
        simp [marked, markedPaid, attempted, attemptsCount, countsUse, failsToCount] <;> rfl

theorem initiatePayment_balanced (req : InitiatePaymentRequest) :
    Solvent perform marked (attempted auth.userId) (initiatePayment env auth draftId req).run 0
      fun _ rest => rest = 0 := by
  have hskip : ∀ {α : Type} {x : Handler α} {f : α → Handler InitiatePaymentResponse},
      x.run.Issues (fun op => op.grants = false) →
      (∀ a, Solvent perform marked (attempted auth.userId) (f a).run 0 fun _ rest => rest = 0) →
      Solvent perform marked (attempted auth.userId) (x >>= f).run 0 fun _ rest => rest = 0 :=
    fun hx hf => solvent_neutral_bind (fun _ => neutral_of_not_grants) (fun _ => rfl) hx hf
  unfold initiatePayment
  refine hskip (issues_query.mpr rfl) fun found => ?_
  refine hskip issues_okOr fun creator => ?_
  refine hskip issues_ensure fun _ => ?_
  refine hskip (issues_query.mpr rfl) fun used => ?_
  split
  · exact grantFreeTier_balanced
  · exact solvent_of_issues 0 (requestPayment_grantFree ..) fun _ => neutral_of_not_grants

/-- In an interleaving of requests in which counting does not fail, as many uses are counted as
drafts are marked. -/
theorem counted_eq_marked {requests : List (Uuid × InitiatePaymentRequest)} {w w' : World}
    {steps : List BackendStep}
    (hrun : Interleaved perform (requests.map fun request =>
      Handler.logged (initiatePayment env auth request.1 request.2)) w steps w')
    (hcounted : UsesCounted auth.userId steps) :
    steps.countP (countsUse auth.userId) = steps.countP fun step => (markedPaid step).isSome := by
  have hsame : steps.countP (countsUse auth.userId) = steps.countP (attemptsCount auth.userId) := by
    refine List.countP_congr fun step hmem => ?_
    rw [attemptsCount, hcounted step hmem, Bool.or_false]
  have hsum : (steps.map (attempted auth.userId)).sum = (steps.map marked).sum := by
    refine hrun.balanced fun p hp => ?_
    obtain ⟨request, -, rfl⟩ := List.mem_map.mp hp
    exact solvent_bind.mpr ((initiatePayment_balanced request.2).mono fun _ _ hrest => hrest)
  calc steps.countP (countsUse auth.userId)
      = (steps.map (attempted auth.userId)).sum := hsame.trans (sum_map_ite _ steps).symm
    _ = (steps.map marked).sum := hsum
    _ = steps.countP fun step => (markedPaid step).isSome := sum_map_ite _ steps

end Balance

/-! ## Whose drafts are marked -/

/-- The draft belongs to the user with the given wallet. -/
def Owns (pubkey : String) (id : Uuid) (w : World) : Prop :=
  ∃ draft, w.db.draft? id = some draft ∧ draft.creatorPubkey = pubkey

/-- Drafts keep their creators. -/
def KeepsCreators (w w' : World) : Prop := ∀ pubkey id, Owns pubkey id w → Owns pubkey id w'

theorem KeepsCreators.refl (w : World) : KeepsCreators w w := fun _ _ h => h

theorem KeepsCreators.trans (w₁ w₂ w₃ : World) (h₁ : KeepsCreators w₁ w₂)
    (h₂ : KeepsCreators w₂ w₃) : KeepsCreators w₁ w₃ :=
  fun pubkey id h => h₂ pubkey id (h₁ pubkey id h)

/-- A step that marks a draft marks one of the user's. -/
structure MarksOwn (pubkey : String) (step : BackendStep) : Prop where
  valid : step.Valid perform
  owns : ∀ id, markedPaid step = some id → Owns pubkey id step.pre

theorem keepsCreators_step {step : BackendStep} (h : step.Valid perform) :
    KeepsCreators step.pre step.post := by
  rintro pubkey id ⟨draft, hdraft, hcreator⟩
  obtain ⟨draft', hdraft', hkept, -⟩ := draft?_step h hdraft
  exact ⟨draft', hdraft', hkept.creatorPubkey.trans hcreator⟩

section Ownership

variable {env : Env} {auth : AuthUserWithWallet} {draftId : Uuid}

theorem marksOwn_of_not_grants {step : BackendStep} (h : step.op.grants = false)
    (hvalid : step.Valid perform) : MarksOwn auth.pubkey step := by
  refine ⟨hvalid, fun id hmarked => ?_⟩
  rw [markedPaid_of_not_grants h] at hmarked
  cases hmarked

/-- Reading the creator of a draft shows whose it is. -/
theorem owns_of_query {found : Option String} {w w' : World} {creator : String}
    (h : performSql (.draft (.creatorOf draftId)) found w = some w')
    (hcreator : found = some creator) (hauth : creator = auth.pubkey) :
    Owns auth.pubkey draftId w := by
  obtain ⟨-, -, db, hexec, -⟩ := performSql_eq_some.mp h
  obtain ⟨drafts, hexec, -⟩ := Option.map_eq_some_iff.mp hexec
  have hresult := (provided_eq_some.mp hexec).1
  rw [hcreator] at hresult
  obtain ⟨draft, hdraft, rfl⟩ := Option.map_eq_some_iff.mp hresult.symm
  exact ⟨draft, hdraft, hauth⟩

/-- `initiate_payment` marks a draft after it has seen that the user created it. -/
theorem initiatePayment_marksOwn (req : InitiatePaymentRequest) (w : World) :
    Assures perform KeepsCreators (fun _ => True) (MarksOwn auth.pubkey)
      (initiatePayment env auth draftId req).run w fun _ _ => True := by
  have hvalid : ∀ {w w' : World} {s : Stmt} {out : s.Out}, performSql s out w = some w' →
      Step.Valid perform (⟨w, .sql s, .ok out, w'⟩ : BackendStep) := fun h => h
  have hfailed : ∀ {w : World} {s : Stmt}, MarksOwn auth.pubkey ⟨w, .sql s, .error .failed, w⟩ := by
    intro w s
    refine ⟨rfl, fun id hmarked => ?_⟩
    unfold markedPaid at hmarked
    split at hmarked
    · rename_i heq
      cases heq
    · cases hmarked
  unfold initiatePayment
  refine assures_query_bind fun w₁ _ => ⟨fun found w₂ hfound _ => ?_, fun _ => ⟨hfailed, trivial⟩⟩
  refine ⟨marksOwn_of_not_grants rfl (hvalid hfound),
    assures_okOr_bind (fun creator hcreator => ?_) trivial⟩
  refine assures_ensure_bind (fun hauth => ?_) trivial
  -- the draft is the user's, and stays so
  have howns : Owns auth.pubkey draftId w₂ :=
    keepsCreators_step (hvalid hfound) _ _ (owns_of_query hfound hcreator hauth)
  refine assures_query_bind fun w₃ h₃ => ⟨fun used w₄ hused _ => ?_, fun _ => ⟨hfailed, trivial⟩⟩
  refine ⟨marksOwn_of_not_grants rfl (hvalid hused), ?_⟩
  have howns₄ : Owns auth.pubkey draftId w₄ :=
    keepsCreators_step (hvalid hused) _ _ (h₃ _ _ howns)
  split
  · refine assures_query_bind fun w₅ h₅ => ⟨fun out w₆ hpaid _ => ?_, fun _ => ⟨hfailed, trivial⟩⟩
    refine ⟨⟨hvalid hpaid, fun id hmarked => ?_⟩, ?_⟩
    · obtain rfl : draftId = id := Option.some.inj hmarked
      exact h₅ _ _ howns₄
    refine assures_query_bind fun w₇ _ => ⟨fun out w₈ hcount _ => ?_, fun _ => ⟨hfailed, trivial⟩⟩
    refine ⟨⟨hvalid hcount, fun id hmarked => ?_⟩, trivial⟩
    cases hmarked
  · exact assures_of_issues (requestPayment_grantFree ..) fun _ h hvalid _ =>
      marksOwn_of_not_grants h hvalid

/-- In every interleaving of requests of the user, only drafts of the user are marked. -/
theorem marksOwn_of_interleaved {requests : List (Uuid × InitiatePaymentRequest)} {w w' : World}
    {steps : List BackendStep}
    (hrun : Interleaved perform (requests.map fun request =>
      Handler.logged (initiatePayment env auth request.1 request.2)) w steps w') :
    ∀ step ∈ steps, MarksOwn auth.pubkey step := by
  have hpool : ∃ threads, PoolRun perform (fun p => ∃ draftId req,
      p = Handler.logged (initiatePayment env auth draftId req)) ⟨w, []⟩ steps ⟨w', threads⟩ := by
    refine hrun.poolRun fun p hp => ?_
    obtain ⟨request, -, rfl⟩ := List.mem_map.mp hp
    exact ⟨request.1, request.2, rfl⟩
  obtain ⟨threads, hpool⟩ := hpool
  refine (PoolRun.assured KeepsCreators.refl KeepsCreators.trans
    (fun _ hstep => keepsCreators_step hstep.valid) ?_ hpool fun _ _ => trivial).1
  rintro p ⟨draftId, req, rfl⟩ w₁ _
  exact assures_bind.mpr ((initiatePayment_marksOwn req w₁).mono fun _ _ _ => trivial)

end Ownership

/-! ## The counter and the paid drafts -/

/-- At the end the counter equals the number of paid drafts, and it has never exceeded the tier. -/
structure FreeTierExact (auth : AuthUserWithWallet) (tier : ℕ) (steps : List BackendStep)
    (w' : World) :
    Prop where
  counted : w'.db.freeUsed auth.userId = w'.db.paidDrafts auth.pubkey
  bounded : w'.db.freeUsed auth.userId ≤ tier ∧
    ∀ step ∈ steps, step.pre.db.freeUsed auth.userId ≤ tier

/-- A draft is marked only if it is not paid yet and fewer drafts of the user are paid than the
tier allows. -/
def MarksWithinTier (pubkey : String) (tier : ℕ) (step : BackendStep) : Prop :=
  ∀ id, markedPaid step = some id →
    (∃ draft, step.pre.db.draft? id = some draft ∧ draft.paid = false) ∧
      step.pre.db.paidDrafts pubkey < tier

section Exactness

variable {env : Env} {auth : AuthUserWithWallet} {w w' : World} {steps : List BackendStep}

/-- The step of a user that marks a draft marks an unpaid one exactly if it adds to the paid
ones. -/
theorem marksUnpaid_iff {pubkey : String} {step : BackendStep} (hown : MarksOwn pubkey step)
    {id : Uuid} (hmarked : markedPaid step = some id) :
    marksUnpaid pubkey step = true ↔
      ∃ draft, step.pre.db.draft? id = some draft ∧ draft.paid = false := by
  obtain ⟨draft, hdraft, hcreator⟩ := hown.owns id hmarked
  simp [marksUnpaid, hmarked, hdraft, hcreator]

theorem markedPaid_of_marksUnpaid {pubkey : String} {step : BackendStep}
    (h : marksUnpaid pubkey step = true) : (markedPaid step).isSome = true := by
  unfold marksUnpaid at h
  cases hmarked : markedPaid step with
  | none =>
      rw [hmarked] at h
      cases h
  | some id => rfl

/-- If as many drafts become paid as are marked, then every step that marks a draft makes it
paid. -/
theorem marksUnpaid_of_count {pubkey : String}
    (h : steps.countP (fun step => (markedPaid step).isSome) ≤ steps.countP (marksUnpaid pubkey)) :
    ∀ step ∈ steps, (markedPaid step).isSome = true → marksUnpaid pubkey step = true := by
  have hsub : (steps.filter (marksUnpaid pubkey)).Sublist
      (steps.filter fun step => (markedPaid step).isSome) :=
    List.monotone_filter_right steps fun _ => markedPaid_of_marksUnpaid
  rw [List.countP_eq_length_filter, List.countP_eq_length_filter] at h
  have heq := hsub.eq_of_length_le h
  intro step hmem hmarked
  have hfilter : step ∈ steps.filter fun step => (markedPaid step).isSome :=
    List.mem_filter.mpr ⟨hmem, hmarked⟩
  rw [← heq] at hfilter
  exact (List.mem_filter.mp hfilter).2

/-- **Concurrent use of the free tier.**  Requests of one user, interleaved in any way, leave the
counter equal to the number of paid drafts and within the tier, exactly if every draft was unpaid
when it was marked, with fewer paid drafts than the tier allows. -/
theorem free_tier_exact_iff {requests : List (Uuid × InitiatePaymentRequest)}
    (hrun : Interleaved perform (requests.map fun request =>
      Handler.logged (initiatePayment env auth request.1 request.2)) w steps w')
    (hstart : w.db.freeUsed auth.userId = w.db.paidDrafts auth.pubkey)
    (htier : w.db.paidDrafts auth.pubkey ≤ env.config.platformFeeFreeTier.toNat)
    (hcounted : UsesCounted auth.userId steps) :
    FreeTierExact auth env.config.platformFeeFreeTier.toNat steps w' ↔
      ∀ step ∈ steps, MarksWithinTier auth.pubkey env.config.platformFeeFreeTier.toNat step := by
  have hown := marksOwn_of_interleaved hrun
  have hbalance := counted_eq_marked hrun hcounted
  have hused := freeUsed_chain hrun.chain auth.userId
  have hpaid := paidDrafts_chain hrun.chain auth.pubkey
  constructor
  · intro hexact
    have hall : ∀ step ∈ steps, (markedPaid step).isSome = true →
        marksUnpaid auth.pubkey step = true := by
      refine marksUnpaid_of_count ?_
      have hcount := hexact.counted
      rw [hused, hpaid, hstart] at hcount
      push_cast at hcount
      omega
    intro step hmem id hmarked
    have hunpaid := hall step hmem (by rw [hmarked]; rfl)
    refine ⟨(marksUnpaid_iff (hown step hmem) hmarked).mp hunpaid, ?_⟩
    -- the marked draft is one of those that are paid at the end
    obtain ⟨before, after, rfl⟩ := List.append_of_mem hmem
    obtain ⟨-, hvalid, hafter⟩ := hrun.chain.split
    have hpost := paidDrafts_step hvalid auth.pubkey
    rw [if_pos hunpaid] at hpost
    have hend := paidDrafts_chain hafter auth.pubkey
    have hbound := hexact.bounded.1
    rw [hexact.counted] at hbound
    omega
  · intro hwithin
    have hall : steps.countP (marksUnpaid auth.pubkey) =
        steps.countP fun step => (markedPaid step).isSome := by
      refine List.countP_congr fun step hmem => ⟨markedPaid_of_marksUnpaid, fun hmarked => ?_⟩
      obtain ⟨id, hid⟩ := Option.isSome_iff_exists.mp hmarked
      exact (marksUnpaid_iff (hown step hmem) hid).mpr (hwithin step hmem id hid).1
    have hcount : w'.db.freeUsed auth.userId = w'.db.paidDrafts auth.pubkey := by
      rw [hused, hpaid, hstart, hbalance, hall]
      push_cast
      rfl
    have hbound : w'.db.paidDrafts auth.pubkey ≤ env.config.platformFeeFreeTier.toNat := by
      refine (hrun.chain.invariant
        (fun w => w.db.paidDrafts auth.pubkey ≤ env.config.platformFeeFreeTier.toNat) htier ?_).1
      intro step hmem hvalid hpre
      rw [paidDrafts_step hvalid]
      split
      · obtain ⟨id, hid⟩ := Option.isSome_iff_exists.mp (markedPaid_of_marksUnpaid ‹_›)
        exact (hwithin step hmem id hid).2
      · exact hpre
    refine ⟨hcount, by omega, fun step hmem => ?_⟩
    -- the counter never goes down
    obtain ⟨before, after, rfl⟩ := List.append_of_mem hmem
    obtain ⟨-, hvalid, hafter⟩ := hrun.chain.split
    have hlater := freeUsed_chain (.cons hvalid hafter) auth.userId
    omega

end Exactness

/-! ## Two requests -/

/-- Two drafts of Bob's that are not paid. -/
def unpaidDraftsDb : Db :=
  { accountsDb with
    drafts := ⟨[{ sampleDraft with paid := false }, { sampleDraft with id := 3, paid := false }],
      by decide⟩ }

/-- Bob initiates the payment of the given drafts; the turns of the requests are given. -/
theorem interleaved_requests (env : Env) (drafts : List Uuid) (turns : List ℕ)
    (test : List BackendStep → World → Bool)
    (h : (interleave perform (cooperate 0) (drafts.map fun id =>
      Handler.logged (initiatePayment env bob id ⟨"usdc"⟩)) (World.ofDb unpaidDraftsDb) turns).any
        (fun result => test result.1 result.2) = true) :
    ∃ (requests : List (Uuid × InitiatePaymentRequest)) (steps : List BackendStep) (w' : World),
      Interleaved perform (requests.map fun request =>
        Handler.logged (initiatePayment env bob request.1 request.2)) (World.ofDb unpaidDraftsDb)
        steps w' ∧ test steps w' = true := by
  obtain ⟨⟨steps, w'⟩, hinterleave, htest⟩ := (Option.any_eq_true _ _).mp h
  refine ⟨drafts.map fun id => (id, ⟨"usdc"⟩), steps, w', ?_, htest⟩
  rw [List.map_map]
  exact interleaved_of_interleave hinterleave

/-- The environment of the examples, with two free agreements. -/
def twoFreeEnv : Env := { sampleEnv with config := { sampleConfig with platformFeeFreeTier := 2 } }

/-- Two requests for different drafts, both within the tier. -/
theorem free_tier_exact_iff_two_drafts :
    ∃ (requests : List (Uuid × InitiatePaymentRequest)) (steps : List BackendStep) (w' : World),
      Interleaved perform (requests.map fun request =>
        Handler.logged (initiatePayment twoFreeEnv bob request.1 request.2))
        (World.ofDb unpaidDraftsDb) steps w' ∧
      w'.db.freeUsed bob.userId = 2 ∧
      FreeTierExact bob twoFreeEnv.config.platformFeeFreeTier.toNat steps w' := by
  obtain ⟨requests, steps, w', hrun, htest⟩ := interleaved_requests twoFreeEnv [2, 3]
    [0, 0, 1, 1, 0, 1, 1, 0]
    (fun steps w' => w'.db.freeUsed bob.userId = 2 ∧
      (∀ step ∈ steps, failsToCount bob.userId step = false) ∧
      ∀ step ∈ steps, (markedPaid step).all fun id =>
        ((step.pre.db.draft? id).any fun (draft : Draft) => draft.paid = false) ∧
          step.pre.db.paidDrafts bob.pubkey < 2)
    (by decide +kernel)
  obtain ⟨hused, hcounted, hmarks⟩ := of_decide_eq_true htest
  refine ⟨requests, steps, w', hrun, hused, ?_⟩
  refine (free_tier_exact_iff hrun (by decide) (by decide) hcounted).mpr fun step hmem id hid => ?_
  have hstep := hmarks step hmem
  rw [hid, Option.all_some, decide_eq_true_eq] at hstep
  obtain ⟨draft, hdraft, hunpaid⟩ := (Option.any_eq_true _ _).mp hstep.1
  exact ⟨⟨draft, hdraft, of_decide_eq_true hunpaid⟩, hstep.2⟩

/-- Two requests for one draft both read the counter before one of them counts. -/
theorem draft_counted_twice :
    ¬ ∀ (env : Env) (auth : AuthUserWithWallet) (requests : List (Uuid × InitiatePaymentRequest))
      (w w' : World) (steps : List BackendStep),
      Interleaved perform (requests.map fun request =>
        Handler.logged (initiatePayment env auth request.1 request.2)) w steps w' →
      w.db.freeUsed auth.userId = w.db.paidDrafts auth.pubkey →
      w.db.paidDrafts auth.pubkey ≤ env.config.platformFeeFreeTier.toNat →
      UsesCounted auth.userId steps →
        FreeTierExact auth env.config.platformFeeFreeTier.toNat steps w' := by
  intro hclaim
  obtain ⟨requests, steps, w', hrun, htest⟩ := interleaved_requests sampleEnv [2, 2]
    [0, 0, 1, 1, 0, 0, 1, 1]
    (fun steps w' => w'.db.freeUsed bob.userId = 2 ∧ w'.db.paidDrafts bob.pubkey = 1 ∧
      ∀ step ∈ steps, failsToCount bob.userId step = false)
    (by decide +kernel)
  obtain ⟨hused, hpaid, hcounted⟩ := of_decide_eq_true htest
  have hexact := hclaim sampleEnv bob requests _ w' steps hrun (by decide) (by decide) hcounted
  have hcount := hexact.counted
  rw [hused, hpaid] at hcount
  cases hcount

end PactumCodex
