import Mathlib.Data.Set.Basic

/-!
# Names that only their creator knows

Numbered programs create names, learn names from a common store, and share names
they know.  A program may keep one name to itself after creating it.  As long as
everything it shares is something it knows, and not the name it keeps, nobody
else can come to know that name (`Sound.acts`): others learn only what is shared
or new.
-/

namespace Secrets

variable {κ : Type}

/-- The names used so far, what each program knows, the name it keeps to itself, and what has been
shared. -/
structure State (κ : Type) where
  used : Set κ
  known : ℕ → Set κ
  kept : ℕ → Option κ
  shared : Set κ

/-- What program `i` may do in one step. -/
structure Acts (i : ℕ) (s s' : State κ) : Prop where
  used : s.used ⊆ s'.used
  others_known : ∀ j, j ≠ i → s'.known j = s.known j
  others_kept : ∀ j, j ≠ i → s'.kept j = s.kept j
  learns : ∀ k ∈ s'.known i, k ∈ s.known i ∨ k ∈ s.shared ∨ (k ∉ s.used ∧ k ∈ s'.used)
  keeps : ∀ k, s'.kept i = some k → s.kept i = some k ∨ (k ∉ s.used ∧ k ∈ s'.used)
  shares : ∀ k ∈ s'.shared, k ∈ s.shared ∨ (k ∈ s.known i ∧ s'.kept i ≠ some k)

/-- Names in circulation are used, and a name that is kept is in nobody else's hands. -/
structure Sound (s : State κ) : Prop where
  shared_used : ∀ k ∈ s.shared, k ∈ s.used
  known_used : ∀ i, ∀ k ∈ s.known i, k ∈ s.used
  kept_used : ∀ i k, s.kept i = some k → k ∈ s.used
  kept_unshared : ∀ i k, s.kept i = some k → k ∉ s.shared
  kept_private : ∀ i k, s.kept i = some k → ∀ j, k ∈ s.known j → j = i

variable {s s' : State κ} {i : ℕ}

/-- What a step shares, somebody knew. -/
theorem Sound.used_of_shared (h : Sound s) (hacts : Acts i s s') : ∀ k ∈ s'.shared, k ∈ s.used := by
  intro k hk
  rcases hacts.shares k hk with hold | ⟨hknown, -⟩
  · exact h.shared_used k hold
  · exact h.known_used i k hknown

/-- A name that was kept before the step is not learnt in it. -/
theorem Sound.not_learnt (h : Sound s) (hacts : Acts i s s') {j : ℕ} {k : κ} (hj : j ≠ i)
    (hkept : s.kept j = some k) : k ∉ s'.known i := by
  intro hk
  rcases hacts.learns k hk with hknown | hshared | ⟨hnew, -⟩
  · exact hj (h.kept_private j k hkept i hknown).symm
  · exact h.kept_unshared j k hkept hshared
  · exact hnew (h.kept_used j k hkept)

/-- **Step lemma.**  Kept names stay with their creators. -/
theorem Sound.acts (h : Sound s) (hacts : Acts i s s') : Sound s' := by
  constructor
  case shared_used => exact fun k hk => hacts.used (h.used_of_shared hacts k hk)
  case known_used =>
    intro j k hk
    by_cases hj : j = i
    · subst hj
      rcases hacts.learns k hk with hknown | hshared | ⟨-, hused⟩
      · exact hacts.used (h.known_used j k hknown)
      · exact hacts.used (h.shared_used k hshared)
      · exact hused
    · rw [hacts.others_known j hj] at hk
      exact hacts.used (h.known_used j k hk)
  case kept_used =>
    intro j k hkept
    by_cases hj : j = i
    · subst hj
      rcases hacts.keeps k hkept with hold | ⟨-, hused⟩
      · exact hacts.used (h.kept_used j k hold)
      · exact hused
    · rw [hacts.others_kept j hj] at hkept
      exact hacts.used (h.kept_used j k hkept)
  case kept_unshared =>
    intro j k hkept hshared
    by_cases hj : j = i
    · subst hj
      rcases hacts.keeps k hkept with hold | ⟨hnew, -⟩
      · rcases hacts.shares k hshared with hbefore | ⟨-, hne⟩
        · exact h.kept_unshared j k hold hbefore
        · exact hne hkept
      · exact hnew (h.used_of_shared hacts k hshared)
    · rw [hacts.others_kept j hj] at hkept
      -- the actor shares only what it knows, and it does not know what another program keeps
      rcases hacts.shares k hshared with hbefore | ⟨hknown, -⟩
      · exact h.kept_unshared j k hkept hbefore
      · exact hj (h.kept_private j k hkept i hknown).symm
  case kept_private =>
    intro j k hkept l hknown
    by_cases hl : l = i
    · subst hl
      by_contra hne
      rw [hacts.others_kept j (Ne.symm hne)] at hkept
      exact h.not_learnt hacts (Ne.symm hne) hkept hknown
    · rw [hacts.others_known l hl] at hknown
      by_cases hj : j = i
      · subst hj
        rcases hacts.keeps k hkept with hold | ⟨hnew, -⟩
        · exact h.kept_private j k hold l hknown
        · exact absurd (h.known_used l k hknown) hnew
      · rw [hacts.others_kept j hj] at hkept
        exact h.kept_private j k hkept l hknown

end Secrets
