import Snail.Reasoning.Past

/-!
# Limiter — failures counted up to a limit

The failures of one client are counted in a window.  The window is begun anew by a reset, and by a
failure that comes when the last one counted is spent; at the limit it is closed, and nothing more
is counted until it is spent.
-/

namespace Snail.Reasoning

variable {τ : Type}

inductive Signal (τ : Type) where
  | failure (now : τ)
  | reset
  deriving DecidableEq

section
variable (limit : Nat) (spent : τ → τ → Bool)

-- the failures counted since the last reset
def countSignal (window : List τ) : Signal τ → List τ
  | .reset => []
  | .failure now =>
      match window.getLast? with
      | none => [now]
      | some last =>
          if spent last now then [now]
          else if limit ≤ window.length then window
          else window ++ [now]

def counted (signals : List (Signal τ)) : List τ := signals.foldl (countSignal limit spent) []

/-- Behind the signals, a failure at `now` is counted, and is the last one up to the limit. -/
def IsLimit (before : List (Signal τ)) (now : τ) : Prop :=
  (∀ last ∈ (counted limit spent before).getLast?,
    limit ≤ (counted limit spent before).length → spent last now = true) ∧
  (counted limit spent (before ++ [.failure now])).length = limit

variable {limit spent} {window : List τ} {now s t : τ} {signals : List (Signal τ)}

theorem counted_concat (signal : Signal τ) : counted limit spent (signals ++ [signal]) =
    countSignal limit spent (counted limit spent signals) signal := by
  unfold counted
  rw [List.foldl_append]
  rfl

-- what a failure that is counted leaves behind
def CountedBy (limit : Nat) (spent : τ → τ → Bool) (window : List τ) (now : τ) : Prop :=
  countSignal limit spent window (.failure now) = [now] ∧
      (∀ last ∈ window.getLast?, spent last now = true) ∨
    countSignal limit spent window (.failure now) = window ++ [now] ∧
      window.length < limit ∧ ∃ last ∈ window.getLast?, spent last now = false

/-- A failure is not counted, or it is the last one of the new window. -/
theorem countSignal_failure_cases (limit : Nat) (spent : τ → τ → Bool) (window : List τ) (now : τ) :
    (∃ last, window.getLast? = some last ∧ spent last now = false ∧ limit ≤ window.length ∧
      countSignal limit spent window (.failure now) = window) ∨
    (countSignal limit spent window (.failure now)).getLast? = some now ∧
      CountedBy limit spent window now := by
  unfold CountedBy countSignal
  cases hlast : window.getLast? with
  | none => exact .inr ⟨rfl, .inl ⟨rfl, by simp⟩⟩
  | some last =>
    dsimp only
    cases hspent : spent last now with
    | true =>
      rw [if_pos rfl]
      exact .inr ⟨rfl, .inl ⟨rfl, by simp [hspent]⟩⟩
    | false =>
      rw [if_neg Bool.false_ne_true]
      by_cases hfull : limit ≤ window.length
      · rw [if_pos hfull]
        exact .inl ⟨last, rfl, hspent, hfull, rfl⟩
      · rw [if_neg hfull]
        exact .inr ⟨List.getLast?_concat, .inr ⟨rfl, by omega, last, rfl, hspent⟩⟩

theorem length_counted_le (spent : τ → τ → Bool) (hlimit : 1 ≤ limit)
    (signals : List (Signal τ)) : (counted limit spent signals).length ≤ limit := by
  induction signals using List.reverseRecOn with
  | nil => exact Nat.zero_le _
  | append_singleton signals signal ih =>
    rw [counted_concat]
    cases signal with
    | reset => exact Nat.zero_le _
    | failure now =>
      rcases countSignal_failure_cases limit spent (counted limit spent signals) now with
        ⟨-, -, -, -, hsame⟩ | ⟨-, ⟨hnew, -⟩ | ⟨hmore, hshort, -⟩⟩
      · rw [hsame]
        exact ih
      · rw [hnew]
        exact hlimit
      · rw [hmore, List.length_append]
        exact hshort

/-- The window is closed at `t` by the failure `s`. -/
def ClosedBy (limit : Nat) (spent : τ → τ → Bool) (window : List τ) (s t : τ) : Prop :=
  window.getLast? = some s ∧ limit ≤ window.length ∧ spent s t = false

-- a failure is counted only where the window is not closed
theorem CountedBy.not_closedBy (h : CountedBy limit spent window now)
    (hspent : spent s now = true → spent s t = true) : ¬ ClosedBy limit spent window s t := by
  rintro ⟨hthere, hfull, hopen⟩
  rcases h with ⟨-, hall⟩ | ⟨-, hshort, -⟩
  · rw [hspent (hall s hthere)] at hopen
    cases hopen
  · omega

theorem CountedBy.isLimit_iff (h : CountedBy limit spent (counted limit spent signals) now)
    (hlimit : 1 ≤ limit) : IsLimit limit spent signals now ↔
      limit ≤ (countSignal limit spent (counted limit spent signals) (.failure now)).length := by
  have hlength := length_counted_le spent hlimit (signals ++ [.failure now])
  unfold IsLimit
  rw [counted_concat] at hlength ⊢
  constructor
  · rintro ⟨-, hlimit'⟩
    exact Nat.le_of_eq hlimit'.symm
  · intro hfull
    refine ⟨?_, Nat.le_antisymm hlength hfull⟩
    intro last hbefore hwas
    rcases h with ⟨-, hall⟩ | ⟨-, hshort, -⟩
    · exact hall last hbefore
    · omega

/-- A window is closed by the failure that was counted as the last one up to the limit, as long as
that is not spent and no reset has come since. -/
theorem closedBy_counted_iff (hlimit : 1 ≤ limit)
    (hspent : ∀ last now, .failure now ∈ signals → spent last now = true → spent last t = true) :
    ClosedBy limit spent (counted limit spent signals) s t ↔
      Since (fun before e => e = .failure s ∧ IsLimit limit spent before s) (· ≠ .reset) signals ∧
        spent s t = false := by
  induction signals using List.reverseRecOn with
  | nil =>
    constructor
    · rintro ⟨hlast, -⟩
      cases hlast
    · rintro ⟨h, -⟩
      exact absurd h not_since_nil
  | append_singleton signals signal ih =>
    have ih := ih fun last now hnow => hspent last now (List.mem_append_left _ hnow)
    rw [since_concat, counted_concat]
    cases signal with
    | reset =>
      constructor
      · rintro ⟨hlast, -⟩
        cases hlast
      · rintro ⟨⟨hreset, -⟩ | ⟨-, hreset⟩, -⟩
        · cases hreset
        · exact absurd rfl hreset
    | failure now =>
      rcases countSignal_failure_cases limit spent (counted limit spent signals) now with
        ⟨last, hlast, hopen, hfull, hsame⟩ | ⟨hlast, hcounted⟩
      · -- the window is closed: the failure is not counted
        have hnot : ¬ (Signal.failure now = .failure s ∧ IsLimit limit spent signals s) := by
          rintro ⟨he, hlimit', -⟩
          cases he
          rw [hlimit' last hlast hfull] at hopen
          cases hopen
        have hfailure : Signal.failure now ≠ .reset := by simp
        rw [hsame, ih, or_iff_right hnot, and_iff_left hfailure]
      · have hold := hcounted.not_closedBy (hspent s now (by simp))
        have hreach := hcounted.isLimit_iff hlimit
        constructor
        · rintro ⟨hs, hfull, hopen⟩
          obtain rfl : now = s := Option.some.inj (hlast.symm.trans hs)
          exact ⟨.inl ⟨rfl, hreach.mpr hfull⟩, hopen⟩
        · rintro ⟨⟨he, hlimit'⟩ | ⟨hsince, -⟩, hopen⟩
          · cases he
            exact ⟨hlast, hreach.mp hlimit', hopen⟩
          · exact absurd (ih.mpr ⟨hsince, hopen⟩) hold

end

end Snail.Reasoning
