import PactumCodex.Auth.Wallets

/-!
# One user for an identity

The OAuth callback looks an identity up, decides on a user, and binds the identity
to this user in three statements, and the last one overwrites a binding that
was made in between.  So all calls answer the same user for an identity, and its
row keeps its user, exactly as long as no call binds an identity that it found
unbound after somebody else has bound it (`bound_once_iff`).

The row of an identity carries this: a call that found the identity bound, or
has bound it, has seen the row (`rowSeen_of_binds`), and rows stay.

## What a call answers

In a history the answers of calls are not visible, only their steps.  After it has
bound the identity, the last thing that a call does before it answers a user is to
store the email of the identity for this user; `ResolvesTo` is this step.  That it
is the right one is proved about the program: in every execution the user who is
returned is the one to whom the program has resolved the identity
(`returned_iff_resolvesTo`).

## Strategy

`RowSeen` is an invariant over the programs: each of them that has found or made a
binding finds it in the row, as long as the steps keep to the condition.  Then the
users that calls resolve the identity to are all that of the row, and conversely a
step that violates the condition changes the user of the row.
-/

namespace PactumCodex

open Interaction Relational

/-! ## Bindings that stay -/

/-- A call that found the identity unbound binds it while it is unbound, or bound to the user that
the call has found by email. -/
def BindsUnbound (provider : OAuthProvider) (providerId : String) (past : List AuthEvent)
    (event : AuthEvent) : Prop :=
  ∀ i v userId v',
    event = .ran i ⟨v, .sql (.upsertOAuth userId provider.asStr providerId), .ok (), v'⟩ →
    (accountPhase i past).bound = none →
    ∀ row ∈ v.db.oauthAccounts.rows, row.provider = provider.asStr → row.providerId = providerId →
      (accountPhase i past).sameEmail = some row.userId

/-- A call stores the email of the identity for the user, which is the last thing it does before it
answers this user. -/
def ResolvesTo (provider : OAuthProvider) (providerId : String) (userId : Uuid)
    (past : List AuthEvent)
    (event : AuthEvent) : Prop :=
  ∃ i v emailEnc emailNonce emailIndex now v',
    event = .ran i ⟨v, .sql (.upsertEmail userId emailEnc emailNonce emailIndex now), .ok (), v'⟩ ∧
    (accountPhase i past).resolved = some ⟨userId, provider.asStr, providerId⟩

/-- What is expected of an identity in a history that starts in the world `w`. -/
structure BoundOnce (w : AuthWorld) (provider : OAuthProvider) (providerId : String)
    (events : List AuthEvent) : Prop where
  one_user : ∀ userId userId', Occurs (ResolvesTo provider providerId userId) events →
    Occurs (ResolvesTo provider providerId userId') events → userId = userId'
  kept : ∀ before between after, events = before ++ between ++ after →
    ∀ userId, ⟨userId, provider.asStr, providerId⟩ ∈ (worldAfter w before).db.oauthAccounts.rows →
      ⟨userId, provider.asStr, providerId⟩
        ∈ (worldAfter w (before ++ between)).db.oauthAccounts.rows

/-! ## What a call answers -/

section Answers

variable {env : Env} {provider : OAuthProvider} {providerId email : String}

/-- The phase of a program, and the users to whom it has resolved the identity. -/
abbrev ResolvingPhase := AccountPhase × List Uuid

/-- Follow a program, and note the users to whom it resolves the identity. -/
def ResolvingPhase.next (provider : OAuthProvider) (providerId : String) (state : ResolvingPhase) :
    (op : AuthOp) → op.Ans → ResolvingPhase
  | .sql (.upsertEmail userId emailEnc emailNonce emailIndex now), .ok out =>
      (state.1.next (.sql (.upsertEmail userId emailEnc emailNonce emailIndex now)) (.ok out),
        if state.1.resolved = some ⟨userId, provider.asStr, providerId⟩ then userId :: state.2
        else state.2)
  | op, answer => (state.1.next op answer, state.2)

/-- The result is a user exactly if this user is noted. -/
def Noted (r : Except AppError OAuthUserResolution) (users : List Uuid) : Prop :=
  ∀ userId, r = .ok (.user userId) ↔ userId ∈ users

theorem noted_nil {r : Except AppError OAuthUserResolution}
    (h : ∀ userId, r ≠ .ok (.user userId)) : Noted r [] :=
  fun userId => ⟨fun heq => absurd heq (h userId), nofun⟩

/-- The rest of a call, from the binding of the identity on, notes the user or fails. -/
theorem upsertEmailContact_resolves {userId : Uuid} {phase : AccountPhase}
    (hresolved : phase.resolved = some ⟨userId, provider.asStr, providerId⟩) :
    Conforms (ResolvingPhase.next provider providerId) (fun _ _ => True)
      (upsertEmailContact env userId email).run (phase, [])
      fun r state => (r.isOk = true ∧ state.2 = [userId]) ∨ (r.isOk = false ∧ state.2 = []) := by
  unfold upsertEmailContact
  cases decodeHexKey32 env.config.encryptionKey with
  | error e => exact Or.inr ⟨rfl, rfl⟩
  | ok key =>
      cases decodeHexKey32 env.config.encryptionIndexKey with
      | error e => exact Or.inr ⟨rfl, rfl⟩
      | ok idxKey =>
          refine conforms_orFail_bind.mpr ⟨trivial, fun encrypted => ⟨?_, ?_⟩⟩
          · rintro ⟨emailEnc, nonce⟩ rfl
            refine conforms_ask_bind.mpr ⟨trivial, fun now => ?_⟩
            refine conforms_orFail.mpr ⟨trivial, fun answer => ⟨?_, ?_⟩⟩
            · rintro out rfl
              exact Or.inl ⟨rfl, if_pos hresolved⟩
            · rintro e rfl
              exact Or.inr ⟨rfl, rfl⟩
          · rintro e rfl
            exact Or.inr ⟨rfl, rfl⟩

theorem userOfIdentity_resolves {emailIndex : List UInt8} {existing : Option Uuid}
    {phase : AccountPhase} :
    Conforms (ResolvingPhase.next provider providerId) (fun _ _ => True)
      (userOfIdentity provider emailIndex existing).run (phase, []) fun _ state =>
        state.2 = [] := by
  cases existing with
  | some userId => rfl
  | none =>
      refine conforms_orFail_bind.mpr ⟨trivial, fun answer => ⟨?_, fun _ _ => ?_⟩⟩
      · rintro found rfl
        cases found with
        | some userId => rfl
        | none =>
            refine conforms_orFail.mpr ⟨trivial, fun answer => ⟨?_, fun _ _ => ?_⟩⟩
            · rintro userId rfl
              rfl
            · rfl
      · rfl

theorem bindIdentity_resolves {emailIndex : List UInt8} {existing : Option Uuid}
    {phase : AccountPhase} :
    Conforms (ResolvingPhase.next provider providerId) (fun _ _ => True)
      (bindIdentity env provider providerId email existing emailIndex).run (phase, [])
      fun r state => Noted r state.2 := by
  refine conforms_run_bind.mpr (userOfIdentity_resolves.mono ?_)
  rintro (e | userId) ⟨phase₁, users⟩ rfl
  · exact noted_nil nofun
  refine conforms_orFail_bind.mpr ⟨trivial, fun answer => ⟨?_, ?_⟩⟩
  · rintro out rfl
    refine conforms_run_bind.mpr ((upsertEmailContact_resolves rfl).mono ?_)
    rintro (e | out') ⟨phase₂, users⟩ (⟨hok, rfl⟩ | ⟨hok, rfl⟩)
    · cases hok
    · exact noted_nil nofun
    · intro userId'
      rw [List.mem_singleton]
      constructor
      · exact fun heq => (OAuthUserResolution.user.inj (Except.ok.inj heq)).symm
      · rintro rfl
        rfl
    · cases hok
  · rintro e rfl
    exact noted_nil nofun

theorem resolveOrCreateOAuthUser_resolves {phase : AccountPhase} :
    Conforms (ResolvingPhase.next provider providerId) (fun _ _ => True)
      (resolveOrCreateOAuthUser env provider providerId email).run (phase, [])
      fun r state => Noted r state.2 := by
  refine conforms_orFail_bind.mpr ⟨trivial, fun answer => ⟨?_, fun _ _ => noted_nil nofun⟩⟩
  rintro found rfl
  cases decodeHexKey32 env.config.encryptionIndexKey with
  | error e => exact noted_nil nofun
  | ok idxKey =>
      refine conforms_orFail_bind.mpr ⟨trivial, fun answer => ⟨?_, fun _ _ => noted_nil nofun⟩⟩
      rintro conflicting rfl
      split
      · exact noted_nil nofun
      · exact bindIdentity_resolves

/-- One step notes the user that it resolves the identity to. -/
theorem noted_step {i : ℕ} {past : List AuthEvent} {state : ResolvingPhase} {step : AuthStep}
    {userId : Uuid} (hphase : state.1 = accountPhase i past) :
    (state.next provider providerId step.op step.ans).1 = state.1.next step.op step.ans ∧
      (userId ∈ (state.next provider providerId step.op step.ans).2 ↔
        userId ∈ state.2 ∨ ResolvesTo provider providerId userId past (.ran i step)) := by
  obtain ⟨v, op, answer, v'⟩ := step
  -- only the storing of an email resolves anything
  have hother : (∀ userId' emailEnc emailNonce emailIndex now,
      op ≠ .sql (.upsertEmail userId' emailEnc emailNonce emailIndex now)) →
      ¬ ResolvesTo provider providerId userId past (.ran i ⟨v, op, answer, v'⟩) := by
    rintro hne ⟨j, u, emailEnc, emailNonce, emailIndex, now, u', heq, -⟩
    cases heq
    exact hne _ _ _ _ _ rfl
  cases op with
  | sql s =>
      cases s with
      | upsertEmail userId' emailEnc emailNonce emailIndex now =>
          cases answer with
          | error e =>
              refine ⟨rfl, (or_iff_left ?_).symm⟩
              rintro ⟨j, u, _, _, _, _, u', heq, -⟩
              cases heq
          | ok out =>
              have hevent : ResolvesTo provider providerId userId past (.ran i
                  ⟨v, .sql (.upsertEmail userId' emailEnc emailNonce emailIndex now), .ok out,
                    v'⟩) ↔
                  userId = userId' ∧
                    state.1.resolved = some ⟨userId, provider.asStr, providerId⟩ := by
                rw [hphase]
                constructor
                · rintro ⟨j, u, _, _, _, _, u', heq, hresolved⟩
                  cases heq
                  exact ⟨rfl, hresolved⟩
                · rintro ⟨rfl, hresolved⟩
                  exact ⟨i, v, _, _, _, _, v', rfl, hresolved⟩
              refine ⟨rfl, ?_⟩
              rw [hevent]
              show userId ∈ (if _ then _ else _) ↔ _
              split
              · rename_i hresolved
                rw [List.mem_cons, or_comm]
                refine or_congr_right ⟨?_, And.left⟩
                rintro rfl
                exact ⟨rfl, hresolved⟩
              · rename_i hresolved
                refine (or_iff_left ?_).symm
                rintro ⟨rfl, h⟩
                exact hresolved h
      | _ => exact ⟨rfl, (or_iff_left (hother (by simp))).symm⟩
  | _ => exact ⟨rfl, (or_iff_left (hother (by simp))).symm⟩

/-- A program has resolved the identity to the users that are noted. -/
theorem noted_iff {i : ℕ} {steps : List AuthStep} {userId : Uuid} :
    (phase (ResolvingPhase.next provider providerId) id (AccountPhase.start, []) i
        (steps.map (.ran i))).1 = accountPhase i (steps.map (.ran i)) ∧
      (userId ∈ (phase (ResolvingPhase.next provider providerId) id (AccountPhase.start, []) i
          (steps.map (.ran i))).2 ↔
        Occurs (ResolvesTo provider providerId userId) (steps.map (.ran i))) := by
  induction steps using List.reverseRecOn with
  | nil =>
      refine ⟨rfl, nofun, ?_⟩
      rintro ⟨before, event, after, hevents, -⟩
      simp at hevents
  | append_singleton steps step ih =>
      obtain ⟨hphase, hnoted⟩ := ih
      obtain ⟨hnext, hmem⟩ := @noted_step provider providerId i _ _ step userId hphase
      rw [List.map_append, List.map_singleton, occurs_snoc, ← hnoted, phase_ran, if_pos rfl,
        accountPhase, phase_ran, if_pos rfl, ← accountPhase, ← hphase]
      exact ⟨hnext, hmem⟩

/-- A call answers a user exactly if it resolves the identity to this user. -/
theorem returned_iff_resolvesTo {perform : (op : AuthOp) → op.Ans → AuthWorld → Option AuthWorld}
    {v v' : AuthWorld} {steps : List AuthStep} {r : Except AppError OAuthUserResolution}
    (h : Runs perform (resolveOrCreateOAuthUser env provider providerId email).run v steps r v')
    (i : ℕ) (userId : Uuid) : r = .ok (.user userId) ↔
      Occurs (ResolvesTo provider providerId userId) (steps.map (.ran i)) :=
  (resolveOrCreateOAuthUser_resolves.of_runs h i userId).trans noted_iff.2

end Answers

section Rows

variable {env : Env} {provider : OAuthProvider} {providerId : String} {userId : Uuid}
variable {w v v' : AuthWorld} {op : AuthOp} {answer : op.Ans} {i : ℕ} {past : List AuthEvent}

/-- An identity has one user. -/
theorem user_unique {userId' : Uuid}
    (h : ⟨userId, provider.asStr, providerId⟩ ∈ v.db.oauthAccounts.rows)
    (h' : ⟨userId', provider.asStr, providerId⟩ ∈ v.db.oauthAccounts.rows) : userId = userId' :=
  congrArg OAuthAccount.userId (eq_of_key_eq v.db.oauthAccounts.valid h h' rfl)

/-- After an identity is bound, its row holds the user. -/
theorem row_of_upsertOAuth
    (h : performAuth (.sql (.upsertOAuth userId provider.asStr providerId)) (.ok ()) v = some v') :
    ⟨userId, provider.asStr, providerId⟩ ∈ v'.db.oauthAccounts.rows := by
  have hbound : ∃ row ∈ oauthAccountsAfter (.sql (.upsertOAuth userId provider.asStr providerId))
      (.ok ()) v.db.oauthAccounts.rows, row = ⟨userId, provider.asStr, providerId⟩ := by
    refine exists_mem_upsertRow rfl fun old hold => ?_
    obtain ⟨hprovider, hproviderId⟩ := of_decide_eq_true hold
    rw [← hprovider, ← hproviderId]
  obtain ⟨row, hrow, rfl⟩ := hbound
  rwa [(accountEffect_of_valid h).oauthAccounts]

/-- A binding stays, unless the step binds the identity to somebody else. -/
theorem row_kept (hvalid : performAuth op answer v = some v')
    (hsame : ∀ userId', (⟨v, op, answer, v'⟩ : AuthStep) =
      ⟨v, .sql (.upsertOAuth userId' provider.asStr providerId), .ok (), v'⟩ → userId' = userId)
    (hrow : ⟨userId, provider.asStr, providerId⟩ ∈ v.db.oauthAccounts.rows) :
    ⟨userId, provider.asStr, providerId⟩ ∈ v'.db.oauthAccounts.rows := by
  by_cases hbinds : ∃ userId', (⟨v, op, answer, v'⟩ : AuthStep) =
      ⟨v, .sql (.upsertOAuth userId' provider.asStr providerId), .ok (), v'⟩
  · obtain ⟨userId', hstep⟩ := hbinds
    obtain rfl := hsame userId' hstep
    cases hstep
    exact row_of_upsertOAuth hvalid
  · rw [(accountEffect_of_valid hvalid).oauthAccounts]
    unfold oauthAccountsAfter
    split
    · rename_i userId' provider' providerId' _
      refine mem_upsertRow_of_unmatched hrow (decide_eq_false ?_)
      rintro ⟨rfl, rfl⟩
      exact hbinds ⟨userId', rfl⟩
    · exact hrow

end Rows

/-! ## What a call has seen -/

/-- What a program has found or made the binding of the identity, it is. -/
structure RowSeen (provider : OAuthProvider) (providerId : String) (phase : AccountPhase)
    (w : AuthWorld) : Prop where
  bound : ∀ userId, phase.identity = some (provider.asStr, providerId) → phase.bound = some userId →
    ⟨userId, provider.asStr, providerId⟩ ∈ w.db.oauthAccounts.rows
  resolved : ∀ userId, phase.resolved = some ⟨userId, provider.asStr, providerId⟩ →
    ⟨userId, provider.asStr, providerId⟩ ∈ w.db.oauthAccounts.rows

section Runs

variable {env : Env} {provider : OAuthProvider} {providerId : String} {userId : Uuid}
variable {w v v' : AuthWorld} {op : AuthOp} {answer : op.Ans} {i : ℕ} {past events : List AuthEvent}
variable {pool : Pool AuthOp AuthOp.Ans AuthWorld}

/-- An allowed step binds the identity to the user it is bound to already, if there is one. -/
theorem binds_same {phase : AccountPhase} {userId' : Uuid}
    (hseen : RowSeen provider providerId phase v)
    (hallowed : phase.Allows env (.sql (.upsertOAuth userId' provider.asStr providerId)))
    (hunbound : phase.bound = none → ∀ row ∈ v.db.oauthAccounts.rows,
      row.provider = provider.asStr →
      row.providerId = providerId → phase.sameEmail = some row.userId)
    (hrow : ⟨userId, provider.asStr, providerId⟩ ∈ v.db.oauthAccounts.rows) : userId' = userId := by
  obtain ⟨-, hidentity, hbound | ⟨hnone, hsource⟩⟩ := hallowed
  · exact user_unique (hseen.bound userId' hidentity hbound) hrow
  · have hfound := hunbound hnone _ hrow rfl rfl
    rcases hsource with hsame | ⟨hnot, -⟩
    · exact Option.some.inj (hsame.symm.trans hfound)
    · exact nomatch hnot.symm.trans hfound

/-- A step shows a program the row that is there. -/
theorem rowSeen_next {phase : AccountPhase} (hvalid : performAuth op answer v = some v')
    (hseen : RowSeen provider providerId phase v)
    (hkept : ∀ userId, ⟨userId, provider.asStr, providerId⟩ ∈ v.db.oauthAccounts.rows →
      ⟨userId, provider.asStr, providerId⟩ ∈ v'.db.oauthAccounts.rows) :
    RowSeen provider providerId (phase.next op answer) v' := by
  unfold AccountPhase.next
  split
  case h_9 =>
    -- the identity is looked up
    refine ⟨fun userId hidentity hfound => ?_, fun userId hresolved =>
      hkept userId (hseen.resolved userId hresolved)⟩
    obtain ⟨rfl, rfl⟩ := Prod.mk.inj (Option.some.inj hidentity)
    obtain rfl := hfound
    exact hkept userId (userOfOAuth_some hvalid)
  case h_11 =>
    -- the identity is bound
    refine ⟨fun userId hidentity hbound => hkept userId (hseen.bound userId hidentity hbound),
      fun userId hresolved => ?_⟩
    obtain ⟨rfl, rfl, rfl⟩ := OAuthAccount.mk.inj (Option.some.inj hresolved)
    exact row_of_upsertOAuth hvalid
  all_goals
    exact ⟨fun userId hidentity hbound => hkept userId (hseen.bound userId hidentity hbound),
      fun userId hresolved => hkept userId (hseen.resolved userId hresolved)⟩

/-- A step that keeps to the condition leaves the row of the identity as it is. -/
theorem row_kept_of_binds (hvalid : performAuth op answer v = some v')
    (hallowed : (accountPhase i past).Allows env op)
    (hbinds : BindsUnbound provider providerId past (.ran i ⟨v, op, answer, v'⟩))
    (hseen : RowSeen provider providerId (accountPhase i past) v)
    (hrow : ⟨userId, provider.asStr, providerId⟩ ∈ v.db.oauthAccounts.rows) :
    ⟨userId, provider.asStr, providerId⟩ ∈ v'.db.oauthAccounts.rows := by
  refine row_kept hvalid (fun userId' hstep => ?_) hrow
  cases hstep
  exact binds_same hseen hallowed (hbinds i v userId' v' rfl) hrow

/-- **Run lemma.**  Programs have seen the row that is there. -/
theorem rowSeen_of_binds (h : AuthHistory env ⟨w, []⟩ events pool)
    (hbinds : Meets (BindsUnbound provider providerId) events) (i : ℕ) :
    RowSeen provider providerId (accountPhase i events) pool.world := by
  refine accountHistory_invariant (BindsUnbound provider providerId)
    (fun past w' => ∀ i, RowSeen provider providerId (accountPhase i past) w') ?_ ?_ ?_ h hbinds i
  · exact fun i => ⟨fun _ => nofun, fun _ => nofun⟩
  · intro past j step hvalid hallowed hcond hpast i
    have hkept : ∀ userId, ⟨userId, provider.asStr, providerId⟩ ∈ step.pre.db.oauthAccounts.rows →
        ⟨userId, provider.asStr, providerId⟩ ∈ step.post.db.oauthAccounts.rows :=
      fun userId => row_kept_of_binds hvalid hallowed hcond (hpast j)
    rw [accountPhase, phase_ran]
    -- the program of the step may see a new row; to all others it keeps the rows they have seen
    by_cases hij : j = i
    · subst hij
      rw [if_pos rfl]
      exact rowSeen_next hvalid (hpast j) hkept
    · rw [if_neg hij]
      exact ⟨fun userId hidentity hbound => hkept userId ((hpast i).bound userId hidentity hbound),
        fun userId hresolved => hkept userId ((hpast i).resolved userId hresolved)⟩
  · intro past j w' hpast i
    rw [accountPhase, phase_stopped, id, ite_self]
    exact hpast i

/-- A binding stays for the rest of the history. -/
theorem binding_stays {before after : List AuthEvent}
    (h : AuthHistory env ⟨w, []⟩ (before ++ after) pool)
    (hbinds : Meets (BindsUnbound provider providerId) (before ++ after))
    (hrow : ⟨userId, provider.asStr, providerId⟩ ∈ (worldAfter w before).db.oauthAccounts.rows) :
    ⟨userId, provider.asStr, providerId⟩ ∈ pool.world.db.oauthAccounts.rows := by
  refine h.preserved (P := fun w' : AuthWorld =>
    ⟨userId, provider.asStr, providerId⟩ ∈ w'.db.oauthAccounts.rows) ?_ hrow
  rintro past i ⟨v, op, answer, v'⟩ later rfl hvalid
  rw [← List.append_assoc] at h hbinds
  obtain ⟨-, threads, hpast⟩ := h.at_step
  exact row_kept_of_binds hvalid (accountHistory_allowed h rfl) (hbinds _ _ later rfl)
    (rowSeen_of_binds hpast hbinds.of_append i)

/-- The user that a call answers is the one of the row. -/
theorem row_of_resolvesTo {before after : List AuthEvent} {event : AuthEvent}
    (h : AuthHistory env ⟨w, []⟩ (before ++ event :: after) pool)
    (hbinds : Meets (BindsUnbound provider providerId) (before ++ event :: after))
    (hresolves : ResolvesTo provider providerId userId before event) :
    ⟨userId, provider.asStr, providerId⟩ ∈ pool.world.db.oauthAccounts.rows := by
  obtain ⟨threads, hbefore⟩ := h.of_append
  obtain ⟨i, v, emailEnc, emailNonce, emailIndex, now, v', -, hresolved⟩ := hresolves
  exact binding_stays h hbinds
    ((rowSeen_of_binds hbefore hbinds.of_append i).resolved userId hresolved)

/-- If calls bind the identity only while it is unbound, it is bound once. -/
theorem boundOnce_of_binds (h : AuthHistory env ⟨w, []⟩ events pool)
    (hbinds : Meets (BindsUnbound provider providerId) events) :
    BoundOnce w provider providerId events := by
  constructor
  · rintro userId userId' ⟨before, event, after, hevents, hresolves⟩
      ⟨before', event', after', hevents', hresolves'⟩
    have hrow := row_of_resolvesTo (hevents ▸ h) (hevents ▸ hbinds) hresolves
    exact user_unique hrow (row_of_resolvesTo (hevents' ▸ h) (hevents' ▸ hbinds) hresolves')
  · rintro before between after rfl userId hrow
    obtain ⟨threads, hbetween⟩ := h.of_append
    exact binding_stays hbetween hbinds.of_append hrow

/-- **An identity is bound once**: all calls answer the same user for it, and its row keeps this
user, exactly if no call that found it unbound binds it to somebody else than its row by then.  What
a call answers can be read off its steps. -/
theorem bound_once_iff (h : AuthHistory env ⟨w, []⟩ events pool) (hempty : w.db = AuthDb.empty)
    (hauthentic : TokensAuthentic events) :
    (BoundOnce w provider providerId events ↔ Meets (BindsUnbound provider providerId) events) ∧
    ∀ (perform : (op : AuthOp) → op.Ans → AuthWorld → Option AuthWorld) email v steps r v' i userId,
      Runs perform (resolveOrCreateOAuthUser env provider providerId email).run v steps r v' →
        (r = .ok (.user userId) ↔
          Occurs (ResolvesTo provider providerId userId) (steps.map (.ran i))) := by
  refine ⟨⟨?_, boundOnce_of_binds h⟩, fun _ _ _ _ _ _ i userId hcall =>
    returned_iff_resolvesTo hcall i userId⟩
  rintro hbound before _ after rfl i v userId v' rfl hnone row hrow hprovider hproviderId
  obtain ⟨hvalid, threads, hpast⟩ := h.at_step
  have hrow' : ⟨row.userId, provider.asStr, providerId⟩ ∈ v.db.oauthAccounts.rows := by
    rwa [← hprovider, ← hproviderId]
  have hkept := hbound.kept before
    [.ran i ⟨v, .sql (.upsertOAuth userId provider.asStr providerId), .ok (), v'⟩] after (by simp)
    row.userId (by rwa [← hpast.world_eq])
  rw [worldAfter_snoc] at hkept
  obtain rfl : userId = row.userId := user_unique (row_of_upsertOAuth hvalid) hkept
  -- the user is the one found bound, the one found by email, or one created for this call
  obtain ⟨-, -, hsome | ⟨-, hsame | ⟨-, hcreated⟩⟩⟩ := accountHistory_allowed h rfl
  · exact nomatch hsome.symm.trans hnone
  · exact hsame
  · have hsound := userSecrets_sound hpast hempty hauthentic.of_append
    exact absurd (.identity row hrow) (hsound.kept_unshared i row.userId hcreated)

end Runs

/-- The event binds Carol's identity while it is bound to somebody else. -/
def rebindsCarol : AuthEvent → Bool
  | .ran _ ⟨v, .sql (.upsertOAuth userId provider providerId), .ok _, _⟩ =>
      provider = OAuthProvider.google.asStr && providerId = "carol" &&
        v.db.oauthAccounts.rows.any fun row =>
          row.provider = provider ∧ row.providerId = providerId ∧ row.userId ≠ userId
  | _ => false

/-- Where the row of an identity is kept, nobody binds it to somebody else. -/
theorem not_rebindsCarol {env : Env} {w : AuthWorld} {events : List AuthEvent}
    {pool : Pool AuthOp AuthOp.Ans AuthWorld} (h : AuthHistory env ⟨w, []⟩ events pool)
    (hbound : BoundOnce w .google "carol" events) : events.any rebindsCarol = false := by
  by_contra hany
  obtain ⟨event, hevent, hrebinds⟩ := List.any_eq_true.mp (Bool.eq_true_of_not_eq_false hany)
  obtain ⟨before, after, rfl⟩ := List.append_of_mem hevent
  unfold rebindsCarol at hrebinds
  split at hrebinds
  · rename_i i v userId provider providerId out v'
    simp only [Bool.and_eq_true, decide_eq_true_eq, List.any_eq_true] at hrebinds
    obtain ⟨⟨rfl, rfl⟩, row, hrow, hprovider, hproviderId, hother⟩ := hrebinds
    obtain ⟨hvalid, threads, hpast⟩ := h.at_step
    have hrow' : ⟨row.userId, OAuthProvider.google.asStr, "carol"⟩ ∈ v.db.oauthAccounts.rows := by
      rwa [← hprovider, ← hproviderId]
    have hkept := hbound.kept before
      [.ran i ⟨v, .sql (.upsertOAuth userId OAuthProvider.google.asStr "carol"), .ok out, v'⟩] after
      (by simp) row.userId (by rwa [← hpast.world_eq])
    rw [worldAfter_snoc] at hkept
    exact hother (user_unique hkept (row_of_upsertOAuth hvalid))
  · cases hrebinds

/-- Two first logins of Carol. -/
def twoFirstLogins (turns : List (ℕ × ℕ)) : List (Move AuthOp AuthOp.Ans AuthWorld) :=
  turnsOf twoUsersEnv [googleLogin, googleLogin] turns (identifyUsers [] 0)

theorem two_users_for_carol :
    ¬ ∀ (env : Env) (w : AuthWorld) (events : List AuthEvent)
        (pool : Pool AuthOp AuthOp.Ans AuthWorld) (provider : OAuthProvider) (providerId : String),
      AuthHistory env ⟨w, []⟩ events pool → w.db = AuthDb.empty → TokensAuthentic events →
      BoundOnce w provider providerId events := by
  intro hclaim
  obtain ⟨events, pool, hhistory, htest⟩ := authHistory_of_moves twoUsersEnv
    -- the first one has looked for the identity and the email when the second one signs up
    (twoFirstLogins [(0, 7), (1, 18), (0, 11)])
    (fun events _ => testEach acceptsIssued [] events && events.any rebindsCarol)
    (fun p hp => turnsOf_entry hp) (by decide +kernel)
  obtain ⟨hauthentic, hrebinds⟩ := Bool.and_eq_true_iff.mp htest
  have hbound := hclaim twoUsersEnv _ events pool .google "carol" hhistory rfl
    (meets_of_testEach (fun _ _ => acceptsIssued_sound) hauthentic)
  rw [not_rebindsCarol hhistory hbound] at hrebinds
  cases hrebinds

/-- One after the other, both logins sign in the same user. -/
theorem bound_once_iff_in_turn : ∃ events pool,
    AuthHistory twoUsersEnv ⟨AuthWorld.ofDb AuthDb.empty, []⟩ events pool ∧
    events.countP (tokensFor googleLogin) = 2 ∧
    (BoundOnce (AuthWorld.ofDb AuthDb.empty) .google "carol" events ↔
      Meets (BindsUnbound .google "carol") events) := by
  obtain ⟨events, pool, hhistory, htest⟩ := authHistory_of_moves twoUsersEnv
    (twoFirstLogins [(0, 18), (1, 16)])
    (fun events _ => testEach acceptsIssued [] events &&
      decide (events.countP (tokensFor googleLogin) = 2))
    (fun p hp => turnsOf_entry hp) (by decide +kernel)
  obtain ⟨hauthentic, htokens⟩ := Bool.and_eq_true_iff.mp htest
  exact ⟨events, pool, hhistory, of_decide_eq_true htokens, (bound_once_iff hhistory rfl
    (meets_of_testEach (fun _ _ => acceptsIssued_sound) hauthentic)).1⟩

end PactumCodex
