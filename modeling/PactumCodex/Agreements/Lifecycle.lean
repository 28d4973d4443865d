import PactumCodex.Agreements.Listener
import PactumCodex.Lib.Trace

/-!
# The replica of the on-chain lifecycle

`Lifecycle` is the state of an agreement as its events tell it: the parties, who
of them has signed, and whether the agreement was cancelled or expired.  The rows
of `agreement_parties` are meant to be a replica of it.  The signatures always
agree; the status column does not, because no handler writes 'Completed'.

`Follows` is what the rows do have in common with the lifecycle: one row for each
party, `signed_at` for those who have signed, and the status that is stored in
fact (`Lifecycle.storedStatus`).  Every event that the lifecycle allows keeps this
(`Follows.handle`), and events of other agreements do not touch the rows, so it
holds after any events that are handled without a failure (`Listens.follows`).

The stored status is the one of the lifecycle unless the agreement is completed
(`storedStatus_text_iff`), and this is exactly when the rows are a replica.
-/

namespace PactumCodex

open Interaction Relational Transition

/-! ## The lifecycle -/

/-- How an agreement can end without being completed. -/
inductive Closing : Type
  | cancelled
  | expired
  deriving DecidableEq, Repr

/-- The state of an agreement that was created. -/
structure Lifecycle where
  parties : List String
  signedBy : List String
  closing : Option Closing
  deriving DecidableEq, Repr

namespace Lifecycle

/-- Every party has signed. -/
def FullySigned (a : Lifecycle) : Prop := ∀ party ∈ a.parties, party ∈ a.signedBy

instance decidableFullySigned (a : Lifecycle) : Decidable a.FullySigned :=
  inferInstanceAs (Decidable (∀ party ∈ a.parties, party ∈ a.signedBy))

/-- The status of the agreement, as the API spells it. -/
def status (a : Lifecycle) : String :=
  match a.closing with
  | some .cancelled => "Cancelled"
  | some .expired => "Expired"
  | none => if a.FullySigned then "Completed" else "PendingSignatures"

/-- The agreement after an event; `none` if the event cannot occur. -/
def handle (a : Lifecycle) (event : ParsedEvent) : Option Lifecycle :=
  match event.instruction with
  | .signAgreement =>
      match event.signer with
      | some signer =>
          if signer ∈ a.parties ∧ signer ∉ a.signedBy then
            some { a with signedBy := signer :: a.signedBy }
          else none
      | none => none
  | .cancelAgreement => if a.FullySigned then none else some { a with closing := some .cancelled }
  | .expireAgreement => if a.FullySigned then none else some { a with closing := some .expired }
  | _ => none

end Lifecycle

/-- One event of any agreement, seen from the agreement with the given address: it is created
once, and the other events come later. -/
def lifecycleStep (agreementPda : String) (state : Option Lifecycle) (event : ParsedEvent) :
    Option (Option Lifecycle) :=
  if event.agreementPda ≠ agreementPda then some state
  else
    match state with
    | none =>
        if event.instruction = .createAgreement then some (some ⟨event.parties, [], none⟩) else none
    | some a => (a.handle event).map some

/-! ## The replica -/

/-- The rows carry the lifecycle's status, and `signed_at` for exactly the parties that signed. -/
def Replicates (rows : List Party) : Option Lifecycle → Prop
  | none => rows = []
  | some a => (∀ row ∈ rows, row.status.text = a.status) ∧
      ∀ party, party ∈ a.signedBy ↔ ∃ row ∈ rows, row.partyPubkey = party ∧ row.signedAt.isSome

/-- The status that the rows carry in fact. -/
def Lifecycle.storedStatus (a : Lifecycle) : PartyStatus :=
  match a.closing with
  | some .cancelled => .cancelled
  | some .expired => .expired
  | none => .pendingSignatures

/-- What the rows do follow: one row for each party, and who has signed. -/
structure Follows (rows : List Party) (a : Lifecycle) : Prop where
  parties : ∀ party, party ∈ a.parties ↔ ∃ row ∈ rows, row.partyPubkey = party
  status : ∀ row ∈ rows, row.status = a.storedStatus
  signed : ∀ row ∈ rows, row.signedAt.isSome ↔ row.partyPubkey ∈ a.signedBy
  signedBy : ∀ party ∈ a.signedBy, party ∈ a.parties

/-- The same for an agreement that may not be created yet. -/
def FollowsState (rows : List Party) : Option Lifecycle → Prop
  | none => rows = []
  | some a => Follows rows a

/-! ## Events -/

section Events

variable {agreementPda : String} {event : ParsedEvent} {rows rows' : List Party} {a : Lifecycle}

/-- Events of other agreements do not touch the rows. -/
theorem EventEffect.of_other (h : EventEffect agreementPda event rows rows')
    (hrows : ∀ row ∈ rows, row.agreementPda = agreementPda)
    (hother : event.agreementPda ≠ agreementPda) : rows' = rows := by
  have hmap : ∀ f : Party → Party, (∀ row, row.agreementPda = agreementPda → f row = row) →
      rows.map f = rows := by
    intro f hf
    exact (List.map_congr_left fun row hrow => hf row (hrows row hrow)).trans (List.map_id' rows)
  rcases h.cases with ⟨-, extra, rfl, -, hnone⟩ | ⟨-, now, rfl⟩ | ⟨status, rfl⟩ | rfl
  · rw [hnone hother, List.append_nil]
  · exact hmap _ fun row hrow => if_neg fun h => hother (h.1.symm.trans hrow)
  · exact hmap _ fun row hrow => if_neg fun h => hother (h.symm.trans hrow)
  · rfl

/-- Rows right after their creation. -/
theorem Follows.created {parties : List String} (hnew : NewRows parties rows)
    (hcomplete : ∀ party ∈ parties, ∃ row ∈ rows, row.partyPubkey = party) :
    Follows rows ⟨parties, [], none⟩ where
  parties party := by
    refine ⟨hcomplete party, ?_⟩
    rintro ⟨row, hrow, rfl⟩
    exact (hnew row hrow).1
  status row hrow := (hnew row hrow).2.1
  signed row hrow := by simp [(hnew row hrow).2.2]
  signedBy := nofun

/-- A signature is stored in the signer's row. -/
theorem Follows.sign {now : ℤ} {signer : String} (h : Follows rows a)
    (hrows : ∀ row ∈ rows, row.agreementPda = agreementPda) (hsigner : signer ∈ a.parties) :
    Follows ((PartyStmt.sign now agreementPda signer).onRows agreementPda rows)
      { a with signedBy := signer :: a.signedBy } where
  parties party := by simp [PartyStmt.onRows, h.parties party]
  status := by
    simp only [PartyStmt.onRows, List.forall_mem_map]
    intro row hrow
    simp only [PartyStmt.onRow]
    split <;> exact h.status row hrow
  signed := by
    simp only [PartyStmt.onRows, List.forall_mem_map]
    intro row hrow
    by_cases hparty : row.partyPubkey = signer
    · simp [PartyStmt.onRow, hrows row hrow, hparty]
    · simp [PartyStmt.onRow, hparty, h.signed row hrow]
  signedBy := List.forall_mem_cons.mpr ⟨hsigner, h.signedBy⟩

/-- A cancellation or expiry is stored in every row. -/
theorem Follows.close {closing : Closing} {status : PartyStatus} (h : Follows rows a)
    (hrows : ∀ row ∈ rows, row.agreementPda = agreementPda)
    (hstatus : status = ({ a with closing := some closing } : Lifecycle).storedStatus) :
    Follows ((PartyStmt.setStatus status agreementPda).onRows agreementPda rows)
      { a with closing := some closing } where
  parties party := by simp [PartyStmt.onRows, h.parties party]
  status := by
    simp only [PartyStmt.onRows, List.forall_mem_map]
    intro row hrow
    simp [PartyStmt.onRow, hrows row hrow, hstatus]
  signed := by
    simp only [PartyStmt.onRows, List.forall_mem_map]
    intro row hrow
    simp [PartyStmt.onRow, hrows row hrow, h.signed row hrow]
  signedBy := h.signedBy

/-- The rows follow every event that the lifecycle allows. -/
theorem Follows.handle {a' : Lifecycle} (h : Follows rows a)
    (hrows : ∀ row ∈ rows, row.agreementPda = agreementPda)
    (hpda : event.agreementPda = agreementPda)
    (hhandle : a.handle event = some a') (heffect : EventEffect agreementPda event rows rows') :
    Follows rows' a' := by
  unfold Lifecycle.handle at hhandle
  unfold EventEffect at heffect
  cases hinstruction : event.instruction with
  | signAgreement =>
      simp only [hinstruction, hpda] at hhandle heffect
      obtain ⟨now, rfl⟩ := heffect
      cases hsigner : event.signer with
      | none => simp [hsigner] at hhandle
      | some signer =>
          simp only [hsigner, Option.ite_none_right_eq_some, Option.some.injEq] at hhandle
          obtain ⟨⟨hparty, -⟩, rfl⟩ := hhandle
          exact h.sign hrows hparty
  | cancelAgreement =>
      simp only [hinstruction, hpda, Option.ite_none_left_eq_some,
        Option.some.injEq] at hhandle heffect
      obtain ⟨-, rfl⟩ := hhandle
      rw [heffect]
      exact h.close hrows rfl
  | expireAgreement =>
      simp only [hinstruction, hpda, Option.ite_none_left_eq_some,
        Option.some.injEq] at hhandle heffect
      obtain ⟨-, rfl⟩ := hhandle
      rw [heffect]
      exact h.close hrows rfl
  -- an agreement is created once, and votes do not belong to this lifecycle
  | createAgreement => simp [hinstruction] at hhandle
  | voteRevoke => simp [hinstruction] at hhandle

/-- The stored status is the lifecycle's, unless the agreement is completed. -/
theorem storedStatus_text_iff :
    a.storedStatus.text = a.status ↔ (a.FullySigned → a.closing ≠ none) := by
  unfold Lifecycle.storedStatus Lifecycle.status
  rcases hclosing : a.closing with _ | _ | _
  · by_cases hsigned : a.FullySigned
    · simp [hsigned, PartyStatus.text]
    · simp [hsigned, PartyStatus.text]
  · simp [PartyStatus.text]
  · simp [PartyStatus.text]

theorem Follows.signedBy_iff (h : Follows rows a) (party : String) :
    party ∈ a.signedBy ↔ ∃ row ∈ rows, row.partyPubkey = party ∧ row.signedAt.isSome := by
  constructor
  · intro hsigned
    obtain ⟨row, hrow, rfl⟩ := (h.parties party).mp (h.signedBy party hsigned)
    exact ⟨row, hrow, rfl, (h.signed row hrow).mpr hsigned⟩
  · rintro ⟨row, hrow, rfl, hsigned⟩
    exact (h.signed row hrow).mp hsigned

theorem Follows.allSigned_iff (h : Follows rows a) :
    (∀ row ∈ rows, row.signedAt.isSome) ↔ a.FullySigned := by
  constructor
  · intro hall party hparty
    obtain ⟨row, hrow, rfl⟩ := (h.parties party).mp hparty
    exact (h.signed row hrow).mp (hall row hrow)
  · intro hsigned row hrow
    exact (h.signed row hrow).mpr (hsigned _ ((h.parties _).mpr ⟨row, hrow, rfl⟩))

theorem Follows.replica_iff (h : Follows rows a) :
    Replicates rows (some a) ↔ (a.FullySigned → a.parties = [] ∨ a.closing ≠ none) := by
  constructor
  · rintro ⟨hstatus, -⟩ hsigned
    cases hparties : a.parties with
    | nil => exact Or.inl rfl
    | cons party rest =>
        obtain ⟨row, hrow, -⟩ := (h.parties party).mp (hparties ▸ List.mem_cons_self)
        refine Or.inr (storedStatus_text_iff.mp ?_ hsigned)
        rw [← h.status row hrow]
        exact hstatus row hrow
  · intro hcond
    refine ⟨fun row hrow => ?_, h.signedBy_iff⟩
    rw [h.status row hrow, storedStatus_text_iff]
    intro hsigned
    refine (hcond hsigned).resolve_left fun hnil => ?_
    have hparty := (h.parties row.partyPubkey).mpr ⟨row, hrow, rfl⟩
    rw [hnil] at hparty
    exact List.not_mem_nil hparty

end Events

/-! ## Runs of the listener -/

/-- Without failures, the rows follow the lifecycle of the agreement. -/
theorem Listens.follows {agreementPda : String} {w w' : World}
    {history : List (ParsedEvent × List BackendStep)} {start state : Option Lifecycle}
    (hlistens : Listens w history w') (hstart : FollowsState (w.partyRows agreementPda) start)
    (hfaultless : ∀ entry ∈ history, ∀ step ∈ entry.2, stmtFailed step = false)
    (htrace : Trace (lifecycleStep agreementPda) start (history.map Prod.fst) state) :
    FollowsState (w'.partyRows agreementPda) state := by
  induction hlistens generalizing state with
  | nil =>
      obtain rfl := trace_nil.mp htrace
      exact hstart
  | @snoc w₁ w' history event steps _ hrun ih =>
      rw [List.map_append, List.map_singleton, trace_snoc] at htrace
      obtain ⟨before, hbefore, hstep⟩ := htrace
      have hfollows := ih (fun entry hmem => hfaultless entry (List.mem_append_left _ hmem))
        hbefore
      have hnone : ¬ ∃ step ∈ steps, stmtFailed step := by
        rintro ⟨step, hmem, hfailed⟩
        have hok :=
          hfaultless (event, steps) (List.mem_append_right _ (List.mem_singleton_self _)) step
          hmem
        rw [hok] at hfailed
        cases hfailed
      obtain ⟨r, hhandled⟩ := runs_logged.mp hrun
      have heffect := (handleEvent_partyRows agreementPda hhandled).resolve_right fun h => hnone h.2
      have hrows : ∀ row ∈ w₁.partyRows agreementPda, row.agreementPda = agreementPda :=
        fun row hrow => (mem_partyRows.mp hrow).2
      unfold lifecycleStep at hstep
      split at hstep
      · -- an event of another agreement
        rename_i hother
        obtain rfl := Option.some.inj hstep
        rw [heffect.of_other hrows hother]
        exact hfollows
      · rename_i hpda
        rw [ne_eq, not_not] at hpda
        cases before with
        | none =>
            -- the agreement is created
            simp only [Option.ite_none_right_eq_some, Option.some.injEq] at hstep
            obtain ⟨hcreate, rfl⟩ := hstep
            rw [handleEvent, hcreate] at hhandled
            rw [EventEffect, hcreate] at heffect
            obtain ⟨extra, hextra, hnew, -⟩ := heffect
            rw [show w₁.partyRows agreementPda = [] from hfollows, List.nil_append] at hextra
            refine Follows.created (hextra ▸ hnew) ?_
            rw [← hpda]
            refine (handleCreateAgreement_complete hhandled).resolve_right ?_
            rintro ⟨party, creator, now, hmem⟩
            exact hnone ⟨_, hmem, rfl⟩
        | some a =>
            -- the agreement exists, and the event is one of its transitions
            obtain ⟨a', hhandle, rfl⟩ := Option.map_eq_some_iff.mp hstep
            exact Follows.handle hfollows hrows hpda hhandle heffect

/-- **Replica.**  After any events that the lifecycle allows, the rows of an agreement replicate its
state if and only if it is not completed. -/
theorem replicates_iff {agreementPda : String} {w w' : World}
    {history : List (ParsedEvent × List BackendStep)} {state : Option Lifecycle}
    (hlistens : Listens w history w') (hstart : w.partyRows agreementPda = [])
    (hfaultless : ∀ entry ∈ history, ∀ step ∈ entry.2, stmtFailed step = false)
    (htrace : Trace (lifecycleStep agreementPda) none (history.map Prod.fst) state) :
    Replicates (w'.partyRows agreementPda) state ↔
      ∀ a, state = some a → a.FullySigned → a.parties = [] ∨ a.closing ≠ none := by
  have hnone : FollowsState (w.partyRows agreementPda) none := hstart
  have hfollows := hlistens.follows hnone hfaultless htrace
  cases state with
  | none => exact ⟨fun _ => nofun, fun _ => hfollows⟩
  | some a =>
      simp only [Option.some.injEq, forall_eq']
      exact Follows.replica_iff hfollows

/-- An agreement of Alice and Bob. -/
def twoPartyEvents : List ParsedEvent :=
  [createdEvent "A" [aliceKey, bobKey], signedEvent "A" aliceKey, signedEvent "A" bobKey]

theorem twoPartyEvents_trace : Trace (lifecycleStep "A") none twoPartyEvents
    (some ⟨[aliceKey, bobKey], [bobKey, aliceKey], none⟩) := by
  unfold Trace
  decide +kernel

/-- The events are handled without a failure. -/
theorem twoPartyEvents_listens : ∃ history w', Listens (World.ofDb Db.empty) history w' ∧
    history.map Prod.fst = twoPartyEvents ∧
    ∀ entry ∈ history, ∀ step ∈ entry.2, stmtFailed step = false := by
  obtain ⟨history, w', hlistens, htest⟩ := listens_of_test (World.ofDb Db.empty)
    (twoPartyEvents.map fun event => (event, cooperate 0))
    (fun history _ => history.map Prod.fst = twoPartyEvents &&
      history.all fun entry => entry.2.all fun step => !stmtFailed step) (by decide +kernel)
  simp only [Bool.and_eq_true, decide_eq_true_eq, List.all_eq_true, Bool.not_eq_true'] at htest
  exact ⟨history, w', hlistens, htest⟩

theorem replicates_iff_two_parties : ∃ history w', Listens (World.ofDb Db.empty) history w' ∧
    history.map Prod.fst = twoPartyEvents ∧
    (Replicates (w'.partyRows "A") (some ⟨[aliceKey, bobKey], [bobKey, aliceKey], none⟩) ↔
      ∀ a, some (⟨[aliceKey, bobKey], [bobKey, aliceKey], none⟩ : Lifecycle) = some a →
        a.FullySigned → a.parties = [] ∨ a.closing ≠ none) := by
  obtain ⟨history, w', hlistens, hevents, hfaultless⟩ := twoPartyEvents_listens
  refine ⟨history, w', hlistens, hevents, replicates_iff hlistens rfl hfaultless ?_⟩
  rw [hevents]
  exact twoPartyEvents_trace

/-- The rows of a completed agreement stay 'PendingSignatures'. -/
theorem completed_agreement_stays_pending :
    ¬ ∀ (agreementPda : String) (w w' : World) (history : List (ParsedEvent × List BackendStep))
      (state : Option Lifecycle), Listens w history w' → w.partyRows agreementPda = [] →
      (∀ entry ∈ history, ∀ step ∈ entry.2, stmtFailed step = false) →
      Trace (lifecycleStep agreementPda) none (history.map Prod.fst) state →
      Replicates (w'.partyRows agreementPda) state := by
  intro hclaim
  obtain ⟨history, w', hlistens, hevents, hfaultless⟩ := twoPartyEvents_listens
  have htrace : Trace (lifecycleStep "A") none (history.map Prod.fst) _ :=
    hevents ▸ twoPartyEvents_trace
  have hnone : FollowsState (World.partyRows (World.ofDb Db.empty) "A") none := rfl
  have hfollows := hlistens.follows hnone hfaultless htrace
  have hreplicates := hclaim "A" _ _ _ _ hlistens rfl hfaultless htrace
  rw [Follows.replica_iff hfollows] at hreplicates
  exact absurd hreplicates (by decide)

end PactumCodex
