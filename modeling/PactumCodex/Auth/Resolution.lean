import PactumCodex.Auth.Steps
import PactumCodex.Auth.Replay

/-!
# Whom a provider signs in

`resolve_or_create_oauth_user` looks for the identity in `auth_oauth`, then for
accounts with the same email at another provider, then for one with the same
email at this provider.  The emails are those that users have stored
themselves, so other users have a part in the decision: a new identity is signed
in to an account that existed before if this account holds its email
(`never_merged_iff`), and a returning identity is refused while somebody else
with another provider holds its email (`returning_login_iff`).

## One call

`Resolution` says what a call can answer, from one database state to the next:
a conflict with an account that has the email, or a user whose source is
`UserSource`.  The lookup for a conflict returns any one of the accounts with the
email, so both answers may be possible in one state.

* `resolveOrCreateOAuthUser_ensures`: a call answers nothing else, and if nothing
  fails it answers;
* `resolveOrCreateOAuthUser_reaches`: it can answer whatever is a resolution.

Both are needed, since the theorems say exactly when something is excluded: that
a condition is enough follows from the first, and that it is necessary from an
execution that the second provides.
-/

namespace PactumCodex

open Interaction Relational

/-! ## Executions in which nothing fails -/

/-- The operation has failed. -/
def AuthOp.fails : (op : AuthOp) → op.Ans → Bool
  | .sql _, .error _ => true
  | .encrypt .., .error _ => true
  | _, _ => false

/-- The meaning of the operations, if they fail only when `faults` is set. -/
abbrev performAuthIf (faults : Bool) : (op : AuthOp) → op.Ans → AuthWorld → Option AuthWorld :=
  restrict (fun op answer => faults || !op.fails answer) performAuth

section Rules

variable {faults : Bool} {v : AuthWorld} {β : Type} {s : AuthStmt}

theorem performAuthIf_true : performAuthIf true = performAuth := by
  funext op answer w
  simp [performAuthIf, restrict]

theorem ensures_authQuery {Φ : Except AppError s.Out → AuthWorld → Prop}
    (hok : ∀ out v', performAuth (.sql s) (.ok out) v = some v' → Φ (.ok out) v')
    (herror : faults = true → Φ (.error .internalError) v) :
    Ensures (performAuthIf faults) s.query.run v Φ := by
  refine ensures_run_orFail (ensures_issue fun answer v' hperform => ⟨?_, ?_⟩)
  · rintro out rfl
    exact hok out v' (restrict_eq_some.mp hperform).2
  · rintro e rfl
    obtain ⟨hgiven, hsame⟩ := restrict_eq_some.mp hperform
    obtain rfl : v = v' := Option.some.inj hsame
    exact herror (by simpa [AuthOp.fails] using hgiven)

theorem ensures_authQuery_bind {f : s.Out → AuthHandler β}
    {Φ : Except AppError β → AuthWorld → Prop}
    (hok : ∀ out v', performAuth (.sql s) (.ok out) v = some v' →
      Ensures (performAuthIf faults) (f out).run v' Φ)
    (herror : faults = true → Φ (.error .internalError) v) :
    Ensures (performAuthIf faults) (s.query >>= f).run v Φ := by
  rw [run_bind_eq]
  exact ensures_bind (ensures_authQuery hok fun hfaults => ensures_ret (herror hfaults))

theorem reaches_authQuery {Φ : Except AppError s.Out → AuthWorld → Prop}
    {v' : AuthWorld} {out : s.Out}
    (hperform : performAuth (.sql s) (.ok out) v = some v') (h : Φ (.ok out) v') :
    Reaches (performAuthIf false) s.query.run v Φ :=
  reaches_bind (reaches_issue (.ok out) (restrict_eq_some.mpr ⟨rfl, hperform⟩) (reaches_ret h))

theorem reaches_authQuery_bind {f : s.Out → AuthHandler β}
    {Φ : Except AppError β → AuthWorld → Prop}
    {v' : AuthWorld} {out : s.Out} (hperform : performAuth (.sql s) (.ok out) v = some v')
    (h : Reaches (performAuthIf false) (f out).run v' Φ) :
    Reaches (performAuthIf false) (s.query >>= f).run v Φ := by
  rw [run_bind_eq]
  exact reaches_bind (reaches_authQuery hperform h)

/-- A statement that generates no identifier succeeds where it can be executed. -/
theorem performAuth_exec {out : s.Out} {db : AuthDb} (hgenerated : s.generated out = [])
    (hexec : s.exec out v.db = some db) :
    performAuth (.sql s) (.ok out) v = some { v with db } := by
  show performAuthSql s out v = _
  rw [performAuthSql, hgenerated, hexec]
  rfl

/-- A statement that only reads answers under its condition and changes nothing. -/
theorem performAuth_read {out : s.Out} {condition : Prop} [Decidable condition] {v' : AuthWorld}
    (hgenerated : s.generated out = []) (hexec : s.exec out v.db = provided condition v.db) :
    performAuth (.sql s) (.ok out) v = some v' ↔ condition ∧ v' = v := by
  show performAuthSql s out v = some v' ↔ _
  rw [performAuthSql, hgenerated, hexec]
  by_cases hcondition : condition
  · simp only [provided, hcondition, List.all_nil, if_true, Option.map_some,
      List.nil_append, Option.some.injEq, true_and]
    exact eq_comm
  · simp [provided, hcondition]

end Rules

/-! ## What a call can answer -/

/-- The configured keys decode, and the email has the index. -/
def Indexed (env : Env) (email : String) (index : List UInt8) : Prop :=
  (∃ key, decodeHexKey32 env.config.encryptionKey = .ok key) ∧
    ∃ idxKey, decodeHexKey32 env.config.encryptionIndexKey = .ok idxKey ∧
      index = env.crates.hmacIndex email idxKey

/-- The lookup for a conflict may find none. -/
def AuthDb.PassesConflict (db : AuthDb) (provider : OAuthProvider) (index : List UInt8) : Prop :=
  (∀ row ∈ db.accountsWithEmail index, row.provider = provider.asStr) ∨
    ∃ row ∈ db.accountsWithEmail index, row.provider ≠ provider.asStr ∧
      detectEmailConflict row.provider provider.asStr = none

/-- Where the user comes from that an identity is bound to. -/
inductive UserSource (provider : OAuthProvider) (index : List UInt8) (v v' : AuthWorld) :
    Option Uuid → Uuid → Prop
  | bound (userId : Uuid) : UserSource provider index v v' (some userId) userId
  | sameEmail (row : OAuthAccount) : row ∈ v.db.accountsWithEmail index →
      row.provider = provider.asStr → UserSource provider index v v' none row.userId
  | created (userId : Uuid) : userId ∉ v.db.users.rows → userId ∈ v'.db.users.rows →
      UserSource provider index v v' none userId

/-- What a call can answer in `v`, and what it leaves in `v'`. -/
inductive Resolution (provider : OAuthProvider) (providerId : String) (index : List UInt8)
    (v v' : AuthWorld) : OAuthUserResolution → Prop
  | conflict (row : OAuthAccount) (details : EmailConflictDetails) :
      row ∈ v.db.accountsWithEmail index →
      detectEmailConflict row.provider provider.asStr = some details →
      Resolution provider providerId index v v' (.conflict details)
  | user (existing : Option Uuid) (userId : Uuid) : v.db.PassesConflict provider index →
      existing = (lookup (fun row : OAuthAccount => (row.provider, row.providerId))
        (provider.asStr, providerId) v.db.oauthAccounts.rows).map OAuthAccount.userId →
      UserSource provider index v v' existing userId →
      Resolution provider providerId index v v' (.user userId)

section Ensures

variable {faults : Bool} {env : Env} {v : AuthWorld} {provider : OAuthProvider}
variable {providerId email : String} {index : List UInt8}

/-- A user that is inserted was not there. -/
theorem created_of_insertUser {userId : Uuid} {v' : AuthWorld}
    (h : performAuth (.sql .insertUser) (.ok userId) v = some v') :
    userId ∉ v.db.users.rows ∧ userId ∈ v'.db.users.rows := by
  have hrows : v'.db.users.rows = v.db.users.rows ++ [userId] := (accountEffect_of_valid h).users
  have hnodup := v'.db.users.valid
  rw [UsersValid, hrows, List.nodup_append] at hnodup
  refine ⟨fun hmem => hnodup.2.2 userId hmem userId (List.mem_singleton_self _) rfl, ?_⟩
  rw [hrows]
  exact List.mem_append_right _ (List.mem_singleton_self _)

/-- An email is stored only if the keys decode. -/
theorem upsertEmailContact_ensures {userId : Uuid} :
    Ensures (performAuthIf faults) (upsertEmailContact env userId email).run v fun r v' =>
      v'.db.users.rows = v.db.users.rows ∧ (r = .ok () → ∃ index, Indexed env email index) ∧
        (faults = false → (∃ index, Indexed env email index) → r = .ok ()) := by
  refine ensures_run_ofExcept_bind (fun key hkey => ?_) fun x hx => ⟨rfl, nofun, ?_⟩
  · refine ensures_run_ofExcept_bind (fun idxKey hidx => ?_) fun x hx => ⟨rfl, nofun, ?_⟩
    · have hindexed : ∃ index, Indexed env email index := ⟨_, ⟨key, hkey⟩, idxKey, hidx, rfl⟩
      refine ensures_run_orFail_bind (ensures_issue fun answer v₁ hencrypt => ?_)
      obtain ⟨hgiven, hsame⟩ := restrict_eq_some.mp hencrypt
      obtain rfl : v = v₁ := Option.some.inj hsame
      refine ⟨?_, ?_⟩
      · rintro ⟨emailEnc, nonce⟩ rfl
        refine ensures_run_ask_bind fun now v₂ hnow => ?_
        have hclock := (accountEffect_of_valid (restrict_eq_some.mp hnow).2).users
        refine ensures_authQuery (fun _ v₃ hupsert => ⟨?_, fun _ => hindexed, fun _ _ => rfl⟩)
          fun hfaults => ⟨hclock, nofun, ?_⟩
        · exact (accountEffect_of_valid hupsert).users.trans hclock
        · rintro rfl
          cases hfaults
      · rintro e rfl
        refine ⟨rfl, nofun, ?_⟩
        rintro rfl
        cases hgiven
    · rintro - ⟨index, -, idxKey, hidx, -⟩
      exact nomatch hx.symm.trans hidx
  · rintro - ⟨index, ⟨key, hkey⟩, -⟩
    exact nomatch hx.symm.trans hkey

/-- What a resolved user is for the identity. -/
theorem userOfIdentity_ensures {existing : Option Uuid} :
    Ensures (performAuthIf faults) (userOfIdentity provider index existing).run v fun r v' =>
      (∀ userId, r = .ok userId → UserSource provider index v v' existing userId) ∧
        (faults = false → ∃ userId, r = .ok userId) := by
  cases existing with
  | some userId =>
      refine ensures_ret ⟨fun userId' heq => ?_, fun _ => ⟨userId, rfl⟩⟩
      rw [← Except.ok.inj heq]
      exact .bound userId
  | none =>
      refine ensures_authQuery_bind (fun found v₁ hread => ?_) fun hfaults => ⟨nofun, ?_⟩
      · obtain ⟨hfound, rfl⟩ := (performAuth_read rfl rfl).mp hread
        -- an account with the email at this provider, or a new user
        cases found with
        | some userId =>
            refine ensures_ret ⟨fun userId' heq => ?_, fun _ => ⟨userId, rfl⟩⟩
            obtain ⟨row, hrow, rfl⟩ := List.mem_map.mp hfound
            obtain ⟨hemail, hprovider⟩ := List.mem_filter.mp hrow
            rw [← Except.ok.inj heq]
            exact .sameEmail row hemail (of_decide_eq_true hprovider)
        | none =>
            refine ensures_authQuery
              (fun userId v₂ hinsert => ⟨fun userId' heq => ?_, fun _ => ⟨userId, rfl⟩⟩)
              fun hfaults => ⟨nofun, ?_⟩
            · obtain ⟨hnew, hcreated⟩ := created_of_insertUser hinsert
              rw [← Except.ok.inj heq]
              exact .created userId hnew hcreated
            · rintro rfl
              cases hfaults
      · rintro rfl
        cases hfaults

/-- The source of a user stays what it was. -/
theorem UserSource.of_users {v' v'' : AuthWorld} {existing : Option Uuid} {userId : Uuid}
    (h : UserSource provider index v v' existing userId)
    (husers : v''.db.users.rows = v'.db.users.rows) :
    UserSource provider index v v'' existing userId := by
  cases h with
  | bound userId => exact .bound userId
  | sameEmail row hemail hprovider => exact .sameEmail row hemail hprovider
  | created userId hnew hcreated => exact .created userId hnew (husers ▸ hcreated)

theorem bindIdentity_ensures {existing : Option Uuid} :
    Ensures (performAuthIf faults)
      (bindIdentity env provider providerId email existing index).run v fun r v' =>
        (∀ resolution, r = .ok resolution → (∃ index, Indexed env email index) ∧
          ∃ userId, resolution = .user userId ∧ UserSource provider index v v' existing userId) ∧
        (faults = false → (∃ index, Indexed env email index) →
          ∃ resolution, r = .ok resolution) := by
  refine ensures_run_bind userOfIdentity_ensures (fun userId v₁ huser => ?_) fun e v₁ hfailed => ?_
  · have hsource := huser.1 userId rfl
    refine ensures_authQuery_bind (fun _ v₂ hbind => ?_) fun hfaults => ⟨nofun, ?_⟩
    · have hbound := (accountEffect_of_valid hbind).users
      refine ensures_run_bind upsertEmailContact_ensures (fun _ v₃ hstored => ?_)
        fun e v₃ hstored => ?_
      · refine ensures_ret ⟨fun resolution heq => ⟨hstored.2.1 rfl, ?_⟩, fun _ _ => ⟨_, rfl⟩⟩
        rw [← Except.ok.inj heq]
        exact ⟨userId, rfl, hsource.of_users (hstored.1.trans hbound)⟩
      · refine ⟨nofun, fun hfaults hkeys => ?_⟩
        exact nomatch hstored.2.2 hfaults hkeys
    · rintro rfl
      cases hfaults
  · refine ⟨nofun, fun hfaults _ => ?_⟩
    obtain ⟨userId, heq⟩ := hfailed.2 hfaults
    cases heq

theorem Indexed.index_eq {idxKey : Bytes 32} (h : Indexed env email index)
    (hidx : decodeHexKey32 env.config.encryptionIndexKey = .ok idxKey) :
    env.crates.hmacIndex email idxKey = index := by
  obtain ⟨-, idxKey', hidx', rfl⟩ := h
  rw [Except.ok.inj (hidx.symm.trans hidx')]

/-- Where no conflict is detected, the lookup may find none. -/
theorem passesConflict_of_fetch {conflicting : Option String}
    (hfetch : FetchOptional (((v.db.accountsWithEmail index).filter fun row =>
      row.provider ≠ provider.asStr).map OAuthAccount.provider) conflicting)
    (hnone : (conflicting.bind fun existing =>
      detectEmailConflict existing provider.asStr) = none) :
    v.db.PassesConflict provider index := by
  cases conflicting with
  | none =>
      refine Or.inl fun row hrow => ?_
      by_contra hne
      have hempty := List.filter_eq_nil_iff.mp (List.map_eq_nil_iff.mp hfetch) row hrow
      exact hempty (decide_eq_true hne)
  | some existing =>
      obtain ⟨row, hrow, rfl⟩ := List.mem_map.mp hfetch
      obtain ⟨hemail, hprovider⟩ := List.mem_filter.mp hrow
      exact Or.inr ⟨row, hemail, of_decide_eq_true hprovider, hnone⟩

/-- **Every user that is answered is a resolution**, and if nothing fails and the keys decode, there
is an answer. -/
theorem resolveOrCreateOAuthUser_ensures :
    Ensures (performAuthIf faults) (resolveOrCreateOAuthUser env provider providerId email).run v
      fun r v' => (∀ userId, r = .ok (.user userId) → ∃ index, Indexed env email index ∧
          Resolution provider providerId index v v' (.user userId)) ∧
        (faults = false → ∀ index, Indexed env email index →
          ∃ resolution, r = .ok resolution ∧
            Resolution provider providerId index v v' resolution) := by
  refine ensures_authQuery_bind (fun found v₁ hread => ?_) fun hfaults => ⟨nofun, ?_⟩
  · obtain ⟨hfound, rfl⟩ := (performAuth_read rfl rfl).mp hread
    refine ensures_run_ofExcept_bind (fun idxKey hidx => ?_) fun x hx => ⟨nofun, ?_⟩
    · refine ensures_authQuery_bind (fun conflicting v₂ hread => ?_) fun hfaults => ⟨nofun, ?_⟩
      · obtain ⟨hfetch, rfl⟩ := (performAuth_read rfl rfl).mp hread
        split
        · rename_i details hdetected
          obtain ⟨existing, rfl, hdetected⟩ := Option.bind_eq_some_iff.mp hdetected
          obtain ⟨row, hrow, rfl⟩ := List.mem_map.mp hfetch
          refine ensures_ret ⟨nofun, fun _ index hindexed => ⟨_, rfl, ?_⟩⟩
          rw [← hindexed.index_eq hidx]
          exact .conflict row details (List.mem_filter.mp hrow).1 hdetected
        · -- no conflict is answered: the identity gets a user
          rename_i hnone
          have hpasses := passesConflict_of_fetch hfetch hnone
          refine bindIdentity_ensures.mono fun r v' hbound => ⟨?_, fun hfaults index hindexed => ?_⟩
          · rintro userId rfl
            obtain ⟨⟨index, hindexed⟩, userId', heq, hsource⟩ := hbound.1 _ rfl
            obtain rfl := OAuthUserResolution.user.inj heq
            rw [hindexed.index_eq hidx] at hpasses hsource
            exact ⟨index, hindexed, .user found userId hpasses hfound hsource⟩
          · obtain ⟨resolution, rfl⟩ := hbound.2 hfaults ⟨index, hindexed⟩
            obtain ⟨-, userId, rfl, hsource⟩ := hbound.1 _ rfl
            rw [hindexed.index_eq hidx] at hpasses hsource
            exact ⟨_, rfl, .user found userId hpasses hfound hsource⟩
      · rintro rfl
        cases hfaults
    · rintro - index ⟨-, idxKey, hidx, -⟩
      exact nomatch hx.symm.trans hidx
  · rintro rfl
    cases hfaults

end Ensures

/-! ## What a call can reach -/

/-- The identities of `auth_oauth` belong to users. -/
def AuthDb.References (db : AuthDb) : Prop :=
  ∀ row ∈ db.oauthAccounts.rows, row.userId ∈ db.users.rows

instance authReferencesDecidable : DecidablePred AuthDb.References :=
  fun _ => inferInstanceAs (Decidable (∀ row ∈ _, _))

section Reaches

variable {env : Env} {v : AuthWorld} {provider : OAuthProvider} {providerId email : String}
variable {index : List UInt8} {userId : Uuid}

/-- An identity can be bound to a user. -/
theorem upsertOAuth_succeeds (provider : OAuthProvider) (providerId : String)
    (huser : userId ∈ v.db.users.rows) : ∃ oauthAccounts,
    performAuth (.sql (.upsertOAuth userId provider.asStr providerId)) (.ok ()) v =
      some { v with db := { v.db with oauthAccounts } } := by
  have hvalid : OAuthAccountsValid (upsertRow
      (fun row => row.provider = provider.asStr ∧ row.providerId = providerId) ({ · with userId })
      ⟨userId, provider.asStr, providerId⟩ v.db.oauthAccounts.rows) := by
    refine nodup_map_upsertRow v.db.oauthAccounts.valid (fun _ => rfl) fun old _ hkey => ?_
    exact decide_eq_true (Prod.mk.inj hkey)
  refine ⟨⟨_, hvalid⟩, performAuth_exec rfl ?_⟩
  rw [AuthStmt.exec, if_pos huser]
  exact congrArg _ (commit_of_valid hvalid)

/-- An email can be stored for a user. -/
theorem upsertEmail_succeeds (emailEnc emailNonce emailIndex : List UInt8) (now : ℚ)
    (huser : userId ∈ v.db.users.rows) : ∃ contacts,
    performAuth (.sql (.upsertEmail userId emailEnc emailNonce emailIndex now)) (.ok ()) v =
      some { v with db := { v.db with contacts } } := by
  have hvalid : UserContactsValid (upsertRow (·.userId = userId)
      ({ · with
        emailEnc := some emailEnc
        emailNonce := some emailNonce
        emailIndex := some emailIndex
        updatedAt := wholeSeconds now })
      (AuthStmt.newContact userId emailEnc emailNonce emailIndex now) v.db.contacts.rows) :=
    nodup_map_upsertRow v.db.contacts.valid (fun _ => rfl) fun old _ hkey => decide_eq_true hkey
  refine ⟨⟨_, hvalid⟩, performAuth_exec rfl ?_⟩
  rw [AuthStmt.exec, if_pos huser]
  exact congrArg _ (commit_of_valid hvalid)

theorem upsertEmailContact_reaches (hindexed : Indexed env email index)
    (huser : userId ∈ v.db.users.rows) :
    Reaches (performAuthIf false) (upsertEmailContact env userId email).run v fun r _ =>
      r = .ok () := by
  obtain ⟨⟨key, hkey⟩, idxKey, hidx, -⟩ := hindexed
  unfold upsertEmailContact
  rw [hkey, hidx]
  -- any answer of the encryption will do
  refine reaches_run_orFail_bind (reaches_issue (.ok ([], [])) rfl ⟨_, rfl, ?_⟩)
  have hnow : performAuthIf false .dbNow v.clock v = some v :=
    restrict_eq_some.mpr ⟨rfl, provided_eq_some.mpr ⟨le_refl _, rfl⟩⟩
  refine reaches_run_ask_bind v.clock hnow ?_
  obtain ⟨contacts, hupsert⟩ :=
    upsertEmail_succeeds [] [] (env.crates.hmacIndex email idxKey) v.clock huser
  exact reaches_authQuery hupsert rfl

/-- A user that is bound or has the email can be the one of the identity. -/
theorem userOfIdentity_reaches {existing : Option Uuid}
    (hsource : existing = some userId ∨ existing = none ∧
      ∃ row ∈ v.db.accountsWithEmail index, row.provider = provider.asStr ∧ row.userId = userId) :
    Reaches (performAuthIf false) (userOfIdentity provider index existing).run v fun r v' =>
      r = .ok userId ∧ v' = v := by
  rcases hsource with rfl | ⟨rfl, row, hrow, hprovider, rfl⟩
  · exact reaches_ret ⟨rfl, rfl⟩
  · have hfound : FetchOptional (((v.db.accountsWithEmail index).filter fun row =>
        row.provider = provider.asStr).map OAuthAccount.userId) (some row.userId) :=
      List.mem_map_of_mem (List.mem_filter.mpr ⟨hrow, decide_eq_true hprovider⟩)
    exact reaches_authQuery_bind ((performAuth_read rfl rfl).mpr ⟨hfound, rfl⟩)
      (reaches_ret ⟨rfl, rfl⟩)

theorem bindIdentity_reaches {existing : Option Uuid} (hindexed : Indexed env email index)
    (huser : userId ∈ v.db.users.rows)
    (hsource : existing = some userId ∨ existing = none ∧
      ∃ row ∈ v.db.accountsWithEmail index, row.provider = provider.asStr ∧ row.userId = userId) :
    Reaches (performAuthIf false)
      (bindIdentity env provider providerId email existing index).run v fun r _ =>
        r = .ok (.user userId) := by
  obtain ⟨steps, r, v₁, hrun, rfl, rfl⟩ := userOfIdentity_reaches hsource
  refine reaches_run_bind ⟨steps, _, v₁, hrun, userId, rfl, ?_⟩
  obtain ⟨oauthAccounts, hbind⟩ := upsertOAuth_succeeds provider providerId huser
  refine reaches_authQuery_bind hbind ?_
  obtain ⟨steps, r, v₂, hrun, rfl⟩ := upsertEmailContact_reaches hindexed
    (v := { v₁ with db := { v₁.db with oauthAccounts } }) huser
  exact reaches_run_bind ⟨steps, _, v₂, hrun, (), rfl, reaches_ret rfl⟩

/-- A call answers a conflict that its lookup finds, and binds the identity where it finds none. -/
theorem resolveOrCreateOAuthUser_reaches {conflicting : Option String}
    {Φ : Except AppError OAuthUserResolution → AuthWorld → Prop}
    (hindexed : Indexed env email index)
    (hfetch : FetchOptional (((v.db.accountsWithEmail index).filter fun row =>
      row.provider ≠ provider.asStr).map OAuthAccount.provider) conflicting)
    (hconflict : ∀ details,
      (conflicting.bind fun existing => detectEmailConflict existing provider.asStr) =
        some details →
      Φ (.ok (.conflict details)) v)
    (hnone : (conflicting.bind fun existing => detectEmailConflict existing provider.asStr) = none →
      Reaches (performAuthIf false) (bindIdentity env provider providerId email
        ((lookup (fun row : OAuthAccount => (row.provider, row.providerId))
          (provider.asStr, providerId) v.db.oauthAccounts.rows).map OAuthAccount.userId)
            index).run v Φ) :
    Reaches (performAuthIf false)
      (resolveOrCreateOAuthUser env provider providerId email).run v Φ := by
  obtain ⟨-, idxKey, hidx, rfl⟩ := hindexed
  refine reaches_authQuery_bind ((performAuth_read rfl rfl).mpr ⟨rfl, rfl⟩) ?_
  rw [hidx]
  refine reaches_authQuery_bind ((performAuth_read rfl rfl).mpr ⟨hfetch, rfl⟩) ?_
  split
  · rename_i details hdetected
    exact reaches_ret (hconflict details hdetected)
  · rename_i hnot
    exact hnone hnot

/-- An account with the email and another provider may stop a login. -/
theorem conflict_reaches {row : OAuthAccount} {details : EmailConflictDetails}
    (hindexed : Indexed env email index) (hrow : row ∈ v.db.accountsWithEmail index)
    (hdetected : detectEmailConflict row.provider provider.asStr = some details) :
    Reaches (performAuthIf false) (resolveOrCreateOAuthUser env provider providerId email).run v
      fun r _ => r = .ok (.conflict details) := by
  have hother : row.provider ≠ provider.asStr := by
    intro heq
    rw [heq, detectEmailConflict, eqIgnoreAsciiCase, if_pos (decide_eq_true rfl)] at hdetected
    cases hdetected
  have hfetch : FetchOptional (((v.db.accountsWithEmail index).filter fun row =>
      row.provider ≠ provider.asStr).map OAuthAccount.provider) (some row.provider) :=
    List.mem_map_of_mem (List.mem_filter.mpr ⟨hrow, decide_eq_true hother⟩)
  refine resolveOrCreateOAuthUser_reaches hindexed hfetch (fun details' hdetails => ?_)
    fun hnone => ?_
  · rw [Option.some.inj (hdetected.symm.trans hdetails)]
  · exact nomatch hdetected.symm.trans hnone

/-- Where no conflict need be found, the lookup may find none. -/
theorem fetch_of_passesConflict (h : v.db.PassesConflict provider index) : ∃ conflicting,
    FetchOptional (((v.db.accountsWithEmail index).filter fun row =>
      row.provider ≠ provider.asStr).map OAuthAccount.provider) conflicting ∧
    (conflicting.bind fun existing => detectEmailConflict existing provider.asStr) = none := by
  rcases h with hsame | ⟨row, hrow, hother, hnone⟩
  · refine ⟨none, List.map_eq_nil_iff.mpr (List.filter_eq_nil_iff.mpr fun row hrow => ?_), rfl⟩
    simpa using hsame row hrow
  · refine ⟨some row.provider, ?_, hnone⟩
    exact List.mem_map_of_mem (List.mem_filter.mpr ⟨hrow, decide_eq_true hother⟩)

/-- A call can sign in a user that is bound, or has the email where nobody is. -/
theorem user_reaches {existing : Option Uuid} (hindexed : Indexed env email index)
    (hpasses : v.db.PassesConflict provider index) (huser : userId ∈ v.db.users.rows)
    (hexisting : existing = (lookup (fun row : OAuthAccount => (row.provider, row.providerId))
      (provider.asStr, providerId) v.db.oauthAccounts.rows).map OAuthAccount.userId)
    (hsource : existing = some userId ∨ existing = none ∧
      ∃ row ∈ v.db.accountsWithEmail index, row.provider = provider.asStr ∧ row.userId = userId) :
    Reaches (performAuthIf false) (resolveOrCreateOAuthUser env provider providerId email).run v
      fun r _ => r = .ok (.user userId) := by
  obtain ⟨conflicting, hfetch, hnone⟩ := fetch_of_passesConflict hpasses
  refine resolveOrCreateOAuthUser_reaches hindexed hfetch (fun details hdetails => ?_) fun _ => ?_
  · exact nomatch hdetails.symm.trans hnone
  · rw [← hexisting]
    exact bindIdentity_reaches hindexed huser hsource

end Reaches

/-! ## New identities -/

/-- A call signs nobody in but a user that it creates. -/
def NeverMerges (env : Env) (provider : OAuthProvider) (providerId email : String) (v : AuthWorld) :
    Prop :=
  Ensures performAuth (resolveOrCreateOAuthUser env provider providerId email).run v fun r v' =>
    ∀ userId, r = .ok (.user userId) → userId ∉ v.db.users.rows ∧ userId ∈ v'.db.users.rows

theorem mem_oauthAccounts_of_email {db : AuthDb} {index : List UInt8} {row : OAuthAccount}
    (h : row ∈ db.accountsWithEmail index) : row ∈ db.oauthAccounts.rows := by
  obtain ⟨contact, -, hrow⟩ := List.mem_flatMap.mp h
  exact (List.mem_filter.mp hrow).1

theorem lookup_eq_none_of_new {db : AuthDb} {key : String × String}
    (hnew : ∀ row ∈ db.oauthAccounts.rows, (row.provider, row.providerId) ≠ key) :
    lookup (fun row : OAuthAccount => (row.provider, row.providerId)) key db.oauthAccounts.rows =
      none :=
  List.find?_eq_none.mpr fun row hrow => by simpa using hnew row hrow

/-- **A new identity is never signed in to an account that existed before**, exactly if no account
with its email has the same provider, wherever the lookup for a conflict can find none. -/
theorem never_merged_iff {env : Env} {provider : OAuthProvider} {providerId email : String}
    {v : AuthWorld} (hrefs : v.db.References)
    (hnew : ∀ row ∈ v.db.oauthAccounts.rows,
      (row.provider, row.providerId) ≠ (provider.asStr, providerId)) :
    NeverMerges env provider providerId email v ↔
      ∀ index, Indexed env email index → v.db.PassesConflict provider index →
        ∀ row ∈ v.db.accountsWithEmail index, row.provider ≠ provider.asStr := by
  have hunbound := lookup_eq_none_of_new hnew
  constructor
  -- an account with the email at this provider is one that can be answered
  · intro hnever index hindexed hpasses row hrow hprovider
    have huser := hrefs row (mem_oauthAccounts_of_email hrow)
    have hreaches : Reaches (performAuthIf false)
        (resolveOrCreateOAuthUser env provider providerId email).run v _ :=
      user_reaches hindexed hpasses huser rfl
        (Or.inr ⟨by rw [hunbound]; rfl, row, hrow, hprovider, rfl⟩)
    obtain ⟨steps, r, v', hrun, rfl⟩ := reaches_of_restrict hreaches
    exact (hnever steps _ v' hrun row.userId rfl).1 huser
  · intro hfree
    have hensures : Ensures (performAuthIf true)
        (resolveOrCreateOAuthUser env provider providerId email).run v _ :=
      resolveOrCreateOAuthUser_ensures
    rw [performAuthIf_true] at hensures
    refine hensures.mono fun r v' hresolved userId hr => ?_
    obtain ⟨index, hindexed, hresolution⟩ := hresolved.1 userId hr
    cases hresolution with
    | user existing userId hpasses hexisting hsource =>
        rw [hunbound] at hexisting
        subst hexisting
        cases hsource with
        | sameEmail row hrow hprovider =>
            exact absurd hprovider (hfree index hindexed hpasses row hrow)
        | created userId hnew hcreated => exact ⟨hnew, hcreated⟩

/-- The index of Carol's email. -/
def carolIndex : List UInt8 := sampleHmac "carol@example.com" (Vector.replicate 32 0)

/-- Dave has signed in with a provider, and stored Carol's email. -/
def strangerDb (provider : OAuthProvider) : AuthDb :=
  { AuthDb.empty with
    users := ⟨[2], by decide⟩
    oauthAccounts := ⟨[⟨2, provider.asStr, "dave"⟩], List.nodup_singleton _⟩
    contacts := ⟨[⟨2, some [], some [], some carolIndex, none, none, none, none, 0⟩],
      List.nodup_singleton _⟩ }

/-- A call has answered the user. -/
def answersUser (userId : Uuid) : Except AppError OAuthUserResolution → Bool
  | .ok (.user answered) => answered = userId
  | _ => false

theorem eq_of_answersUser {userId : Uuid} {r : Except AppError OAuthUserResolution}
    (h : answersUser userId r = true) : r = .ok (.user userId) := by
  unfold answersUser at h
  split at h
  · rw [of_decide_eq_true h]
  · cases h

/-- Carol's first login with Google. -/
def carolLogin : AuthHandler OAuthUserResolution :=
  resolveOrCreateOAuthUser twoUsersEnv .google "carol" "carol@example.com"

theorem carol_signed_in_as_dave :
    ¬ ∀ (env : Env) (provider : OAuthProvider) (providerId email : String) (v : AuthWorld),
      v.db.References →
      (∀ row ∈ v.db.oauthAccounts.rows,
        (row.provider, row.providerId) ≠ (provider.asStr, providerId)) →
      NeverMerges env provider providerId email v := by
  intro hclaim
  have hanswers : (interpret performAuth (identifyUsers [] 0) carolLogin.run
      (AuthWorld.ofDb (strangerDb .google))).any (fun result =>
        answersUser 2 result.2.1) = true := by
    decide +kernel
  obtain ⟨⟨steps, r, v'⟩, hrun, hr⟩ := (Option.any_eq_true _ _).mp hanswers
  have hnever := hclaim twoUsersEnv .google "carol" "carol@example.com"
    (AuthWorld.ofDb (strangerDb .google)) (by decide) (by decide)
  exact (hnever steps r v' (interpret_runs hrun) 2 (eq_of_answersUser hr)).1 (by decide)

/-- Where Dave has another provider, Carol's login is a conflict. -/
theorem never_merged_iff_conflict :
    NeverMerges twoUsersEnv .google "carol" "carol@example.com"
        (AuthWorld.ofDb (strangerDb .microsoft)) ↔
      ∀ index, Indexed twoUsersEnv "carol@example.com" index →
        (strangerDb .microsoft).PassesConflict .google index →
        ∀ row ∈ (strangerDb .microsoft).accountsWithEmail index,
          row.provider ≠ OAuthProvider.google.asStr :=
  never_merged_iff (by decide) (by decide)

/-! ## Returning identities -/

/-- If nothing fails, a call answers the user. -/
def ReturnsUser (env : Env) (provider : OAuthProvider) (providerId email : String) (userId : Uuid)
    (v : AuthWorld) : Prop :=
  Reaches (performAuthIf false) (resolveOrCreateOAuthUser env provider providerId email).run v
      (fun r _ => r = .ok (.user userId)) ∧
    Ensures (performAuthIf false) (resolveOrCreateOAuthUser env provider providerId email).run v
      (fun r _ => r = .ok (.user userId))

/-- Two states hold the same rows of the user to whom an identity is bound. -/
structure AgreeOnUser (account : OAuthAccount) (v v' : AuthWorld) : Prop where
  bound : account ∈ v.db.oauthAccounts.rows
  identities : v.db.oauthAccounts.rows.filter (fun row => row.userId = account.userId) =
    v'.db.oauthAccounts.rows.filter fun row => row.userId = account.userId
  contacts : v.db.contacts.rows.filter (fun row => row.userId = account.userId) =
    v'.db.contacts.rows.filter fun row => row.userId = account.userId

/-- No account with the email causes a conflict. -/
def AuthDb.Unopposed (db : AuthDb) (provider : OAuthProvider) (index : List UInt8) : Prop :=
  ∀ row ∈ db.accountsWithEmail index, detectEmailConflict row.provider provider.asStr = none

theorem AgreeOnUser.bound_right {account : OAuthAccount} {v v' : AuthWorld}
    (h : AgreeOnUser account v v') : account ∈ v'.db.oauthAccounts.rows := by
  have hmem : account ∈ v.db.oauthAccounts.rows.filter fun row => row.userId = account.userId :=
    List.mem_filter.mpr ⟨h.bound, decide_eq_true rfl⟩
  rw [h.identities] at hmem
  exact (List.mem_filter.mp hmem).1

theorem AuthDb.Unopposed.passes {db : AuthDb} {provider : OAuthProvider} {index : List UInt8}
    (h : db.Unopposed provider index) : db.PassesConflict provider index := by
  by_cases hsame : ∀ row ∈ db.accountsWithEmail index, row.provider = provider.asStr
  · exact Or.inl hsame
  · obtain ⟨row, hrow, hother⟩ : ∃ row ∈ db.accountsWithEmail index,
      row.provider ≠ provider.asStr := by
      simpa using hsame
    exact Or.inr ⟨row, hrow, hother, h row hrow⟩

/-- A returning identity is signed in to its user exactly if no account with its email causes a
conflict. -/
theorem returnsUser_iff {env : Env} {provider : OAuthProvider} {email : String} {v : AuthWorld}
    {account : OAuthAccount} (hprovider : account.provider = provider.asStr)
    (hbound : account ∈ v.db.oauthAccounts.rows) (hrefs : v.db.References) :
    ReturnsUser env provider account.providerId email account.userId v ↔
      ∃ index, Indexed env email index ∧ v.db.Unopposed provider index := by
  have hlookup : (lookup (fun row : OAuthAccount => (row.provider, row.providerId))
      (provider.asStr, account.providerId) v.db.oauthAccounts.rows).map OAuthAccount.userId =
        some account.userId := by
    rw [(lookup_eq_some v.db.oauthAccounts.valid).mpr ⟨hbound, by rw [hprovider]⟩]
    rfl
  have hensures : Ensures (performAuthIf false)
      (resolveOrCreateOAuthUser env provider account.providerId email).run v _ :=
    resolveOrCreateOAuthUser_ensures
  constructor
  -- an account that conflicts could be the one that the lookup finds
  · rintro ⟨⟨steps, _, v', hrun, rfl⟩, hreturns⟩
    obtain ⟨index, hindexed, -⟩ := (hensures steps _ v' hrun).1 account.userId rfl
    refine ⟨index, hindexed, fun row hrow => ?_⟩
    cases hdetected : detectEmailConflict row.provider provider.asStr with
    | none => rfl
    | some details =>
        have hreaches : Reaches (performAuthIf false)
            (resolveOrCreateOAuthUser env provider account.providerId email).run v _ :=
          conflict_reaches hindexed hrow hdetected
        obtain ⟨steps, _, v', hrun, rfl⟩ := hreaches
        cases hreturns steps _ v' hrun
  · rintro ⟨index, hindexed, hunopposed⟩
    refine ⟨user_reaches hindexed hunopposed.passes (hrefs account hbound) rfl (Or.inl hlookup), ?_⟩
    refine hensures.mono fun r v' hresolved => ?_
    obtain ⟨resolution, rfl, hresolution⟩ := hresolved.2 rfl index hindexed
    cases hresolution with
    | conflict row details hrow hdetected =>
        exact nomatch hdetected.symm.trans (hunopposed row hrow)
    | user existing userId hpasses hexisting hsource =>
        obtain rfl := hexisting.trans hlookup
        cases hsource with
        | bound => rfl

/-- **A returning identity is signed in to its user** in two states that agree on the rows of this
user, exactly if in neither of them an account with its email causes a conflict. -/
theorem returning_login_iff {env : Env} {provider : OAuthProvider} {email : String}
    {v v' : AuthWorld} {account : OAuthAccount} (hprovider : account.provider = provider.asStr)
    (hagree : AgreeOnUser account v v') (hrefs : v.db.References) (hrefs' : v'.db.References) :
    (ReturnsUser env provider account.providerId email account.userId v ∧
        ReturnsUser env provider account.providerId email account.userId v') ↔
      ∃ index, Indexed env email index ∧ v.db.Unopposed provider index ∧
        v'.db.Unopposed provider index := by
  rw [returnsUser_iff hprovider hagree.bound hrefs,
    returnsUser_iff hprovider hagree.bound_right hrefs']
  constructor
  · rintro ⟨⟨index, hindexed, hunopposed⟩, index', hindexed', hunopposed'⟩
    obtain ⟨-, idxKey, hidx, rfl⟩ := hindexed
    rw [← hindexed'.index_eq hidx] at hunopposed'
    exact ⟨_, ⟨hindexed'.1, idxKey, hidx, rfl⟩, hunopposed, hunopposed'⟩
  · rintro ⟨index, hindexed, hunopposed, hunopposed'⟩
    exact ⟨⟨index, hindexed, hunopposed⟩, index, hindexed, hunopposed'⟩

/-- Carol's identity is bound to the user 3; Dave may have stored her email. -/
def returningDb (daveIndex : Option (List UInt8)) : AuthDb :=
  { AuthDb.empty with
    users := ⟨[2, 3], by decide⟩
    oauthAccounts := ⟨[⟨2, "microsoft", "dave"⟩, ⟨3, "google", "carol"⟩], by decide⟩
    contacts := ⟨[⟨2, some [], some [], daveIndex, none, none, none, none, 0⟩,
      ⟨3, some [], some [], some carolIndex, none, none, none, none, 0⟩], by
        show ([2, 3] : List Uuid).Nodup
        decide⟩ }

/-- A call has answered a conflict. -/
def answersConflict : Except AppError OAuthUserResolution → Bool
  | .ok (.conflict _) => true
  | _ => false

theorem dave_blocks_carol :
    ¬ ∀ (env : Env) (provider : OAuthProvider) (email : String) (v v' : AuthWorld)
        (account : OAuthAccount), account.provider = provider.asStr → AgreeOnUser account v v' →
      v.db.References → v'.db.References →
      ReturnsUser env provider account.providerId email account.userId v ∧
        ReturnsUser env provider account.providerId email account.userId v' := by
  intro hclaim
  have hanswers : (interpret (performAuthIf false) (identifyUsers [] 0) carolLogin.run
      (AuthWorld.ofDb (returningDb (some carolIndex)))).any
        (fun result => answersConflict result.2.1) = true := by
    decide +kernel
  obtain ⟨⟨steps, r, v'⟩, hrun, hr⟩ := (Option.any_eq_true _ _).mp hanswers
  have hreturns := hclaim twoUsersEnv .google "carol@example.com"
    (AuthWorld.ofDb (returningDb none)) (AuthWorld.ofDb (returningDb (some carolIndex)))
    ⟨3, "google", "carol"⟩ rfl ⟨by decide, by decide, by decide⟩ (by decide) (by decide)
  rw [hreturns.2.2 steps r v' (interpret_runs hrun)] at hr
  cases hr

/-- Carol returns before and after Dave has deleted his email. -/
theorem returning_login_iff_deleted :
    (ReturnsUser twoUsersEnv .google "carol" "carol@example.com" 3
        (AuthWorld.ofDb (returningDb none)) ∧
      ReturnsUser twoUsersEnv .google "carol" "carol@example.com" 3
        (AuthWorld.ofDb (returningDb (some [])))) ↔
      ∃ index, Indexed twoUsersEnv "carol@example.com" index ∧
        (returningDb none).Unopposed .google index ∧
        (returningDb (some [])).Unopposed .google index :=
  returning_login_iff rfl
    (show AgreeOnUser ⟨3, "google", "carol"⟩ _ _ from ⟨by decide, by decide, by decide⟩)
    (by decide) (by decide)

end PactumCodex
