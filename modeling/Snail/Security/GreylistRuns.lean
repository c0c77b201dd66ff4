import Snail.Security.Greylist

/-!
# GreylistRuns — greylisting as a decision for each triplet

Sequences of `check_at` calls of `crates/security/src/greylist.rs`.  What is decided for a triplet
is read off its own calls, in the run of them that no gap has broken.
-/

open Snail.Reasoning

namespace Snail.Security

/-! ## 1. Calls -/

structure GreyCall where
  ip : IpAddr
  sender : Str
  recipient : Str
  now : SystemTime

def GreyCall.key (call : GreyCall) : Triplet :=
  (maskIp call.ip, toAsciiLowercase call.sender, toAsciiLowercase call.recipient)

def GreyCall.run (config : GreylistConfig) (g : Greylist) (call : GreyCall) :
    GreyDecision × Greylist :=
  g.checkAt config call.ip call.sender call.recipient call.now

-- the entries behind the calls, from an empty list on
def greylistAfter (config : GreylistConfig) (calls : List GreyCall) : Greylist :=
  calls.foldl (fun g call => (call.run config g).2) ∅

theorem greylistAfter_concat (config : GreylistConfig) (calls : List GreyCall) (call : GreyCall) :
    greylistAfter config (calls ++ [call]) = (call.run config (greylistAfter config calls)).2 := by
  unfold greylistAfter
  rw [List.foldl_append]
  rfl

theorem Greylist.lookup_prune (config : GreylistConfig) (now : SystemTime) (g : Greylist)
    (key : Triplet) :
    (g.prune config now).lookup key = (g.lookup key).filter (GreyEntry.live config now) :=
  lookup_retain (GreyEntry.live config now) g key

/-! ## 2. The number of entries -/

-- an entry is added only where there is room
theorem length_run (config : GreylistConfig) (g : Greylist) (call : GreyCall) :
    (call.run config g).2.entries.length ≤ g.entries.length ∨
      (call.run config g).2.entries.length ≤ g.entries.length + 1 ∧
        (call.run config g).2.entries.length ≤ config.maxEntries := by
  have hpruned : (g.prune config call.now).entries.length ≤ g.entries.length :=
    length_retain_le (GreyEntry.live config call.now) g
  unfold GreyCall.run Greylist.checkAt
  dsimp only
  cases hentry : (g.prune config call.now).lookup
      (maskIp call.ip, toAsciiLowercase call.sender, toAsciiLowercase call.recipient) with
  | some e =>
    dsimp only
    rw [length_insert, hentry]
    exact .inl hpruned
  | none =>
    dsimp only
    split
    · exact .inl hpruned
    · rename_i hroom
      dsimp only
      rw [length_insert, hentry]
      exact .inr ⟨Nat.succ_le_succ hpruned, Nat.lt_of_not_le hroom⟩

theorem length_greylistAfter (config : GreylistConfig) (calls : List GreyCall) :
    (greylistAfter config calls).entries.length ≤ config.maxEntries ∧
      (greylistAfter config calls).entries.length ≤ calls.length := by
  induction calls using List.reverseRecOn with
  | nil => exact ⟨Nat.zero_le _, Nat.zero_le _⟩
  | append_singleton calls call ih =>
    rw [greylistAfter_concat, List.length_append, List.length_singleton]
    have hrun := length_run config (greylistAfter config calls) call
    omega

/-! ## 3. Runs of one triplet -/

section
variable (config : GreylistConfig)

-- the calls of an unbroken run, each with whether it was allowed
abbrev GreyRun := List (SystemTime × Bool)

def GreyRun.passed (run : GreyRun) : Bool := run.any Prod.snd

def GreyRun.ttl (run : GreyRun) : Duration :=
  if run.passed then config.passTtl else config.pendingTtl

/-- The call comes soon enough behind the last one to be of the same run. -/
def GreyRun.joins (run : GreyRun) (now : SystemTime) : Bool :=
  run.getLast?.any fun last => now.sinceEpoch < last.1.sinceEpoch + (run.ttl config : Int)

-- the run began at least the delay ago, or has been allowed before
def GreyRun.waited (run : GreyRun) (now : SystemTime) : Bool :=
  (run.head?.any fun first => first.1.sinceEpoch + (config.delay : Int) ≤ now.sinceEpoch) ||
    run.passed

/-- The next call, which goes on with the run or begins another one. -/
def GreyRun.next (run : GreyRun) (now : SystemTime) : GreyRun :=
  if run.joins config now then run ++ [(now, run.waited config now)] else [(now, false)]

-- the run that the calls made so far belong to
def currentRun (times : List SystemTime) : GreyRun := times.foldl (GreyRun.next config) []

end

section
variable {config : GreylistConfig} {run : GreyRun} {clock : Int} {entry : Option GreyEntry}
  {now : SystemTime}

-- both times that an entry may be kept for end at a time that can be represented
def Keepable (config : GreylistConfig) (now : SystemTime) : Prop :=
  (now.checkedAdd config.pendingTtl).isSome ∧ (now.checkedAdd config.passTtl).isSome

theorem Keepable.ttl (h : Keepable config now) (run : GreyRun) :
    (now.checkedAdd (run.ttl config)).isSome := by
  unfold GreyRun.ttl
  split
  · exact h.2
  · exact h.1

/-- The entry of a triplet behind a run of its calls: it holds the run, or was dropped when the run
was broken. -/
def Remembers (config : GreylistConfig) (run : GreyRun) (clock : Int) (entry : Option GreyEntry) :
    Prop :=
  (run = [] ∧ entry = none) ∨
    ∃ first last, run.head? = some first ∧ run.getLast? = some last ∧
      first.1.sinceEpoch ≤ last.1.sinceEpoch ∧ last.1.sinceEpoch ≤ clock ∧
      Keepable config last.1 ∧
      (entry = some ⟨first.1, last.1, run.passed⟩ ∨
        entry = none ∧ last.1.sinceEpoch + (run.ttl config : Int) ≤ clock)

theorem Remembers.later (h : Remembers config run clock entry) {clock' : Int}
    (hle : clock ≤ clock') : Remembers config run clock' entry := by
  rcases h with h | ⟨first, last, hfirst, hlast, hspan, hdone, hkeep, hentry⟩
  · exact .inl h
  · refine .inr ⟨first, last, hfirst, hlast, hspan, by omega, hkeep, ?_⟩
    exact hentry.imp_right fun ⟨hnone, hover⟩ => ⟨hnone, by omega⟩

theorem live_iff {first last : SystemTime × Bool} (hlast : run.getLast? = some last)
    (hkeep : Keepable config last.1) :
    GreyEntry.live config now ⟨first.1, last.1, run.passed⟩ = run.joins config now := by
  obtain ⟨d, hd⟩ := Option.isSome_iff_exists.mp (hkeep.ttl run)
  have hsum := SystemTime.sinceEpoch_checkedAdd hd
  unfold GreyEntry.live GreyRun.joins
  rw [← GreyRun.ttl, hd, hlast, Option.any_some, Option.any_some, Bool.eq_iff_iff,
    SystemTime.lt_iff, decide_eq_true_iff, hsum]

/-- Pruning: the entry stays exactly while a call would join the run. -/
theorem Remembers.prune (h : Remembers config run clock entry) (hle : clock ≤ now.sinceEpoch) :
    Remembers config run now.sinceEpoch (entry.filter (GreyEntry.live config now)) ∧
      ((entry.filter (GreyEntry.live config now)).isSome ↔ run.joins config now = true) := by
  rcases h.later hle with ⟨rfl, rfl⟩ | ⟨first, last, hfirst, hlast, hspan, hdone, hkeep, hentry⟩
  · exact ⟨.inl ⟨rfl, rfl⟩, by simp [GreyRun.joins]⟩
  · have hjoins : run.joins config now = true ↔
        now.sinceEpoch < last.1.sinceEpoch + (run.ttl config : Int) := by
      unfold GreyRun.joins
      rw [hlast, Option.any_some, decide_eq_true_iff]
    rcases hentry with rfl | ⟨rfl, hover⟩
    · rw [Option.filter_some, live_iff hlast hkeep]
      cases hj : run.joins config now with
      | true =>
        exact ⟨.inr ⟨first, last, hfirst, hlast, hspan, hdone, hkeep, .inl rfl⟩, by simp⟩
      | false =>
        have hover : last.1.sinceEpoch + (run.ttl config : Int) ≤ now.sinceEpoch := by
          rw [← Bool.not_eq_true, hjoins] at hj
          omega
        exact ⟨.inr ⟨first, last, hfirst, hlast, hspan, hdone, hkeep, .inr ⟨rfl, hover⟩⟩, by simp⟩
    · refine ⟨.inr ⟨first, last, hfirst, hlast, hspan, hdone, hkeep, .inr ⟨rfl, hover⟩⟩, ?_⟩
      rw [hjoins]
      simp
      omega

theorem passed_concat (run : GreyRun) (now : SystemTime) :
    GreyRun.passed (run ++ [(now, run.waited config now)]) = run.waited config now := by
  unfold GreyRun.passed GreyRun.waited
  rw [List.any_append, List.any_cons, List.any_nil, Bool.or_false, GreyRun.passed]
  cases run.any Prod.snd with
  | true => simp
  | false => simp

theorem retry_eq (config : GreylistConfig) {first : SystemTime × Bool} (last : SystemTime)
    (hfirst : run.head? = some first) (hle : first.1.sinceEpoch ≤ now.sinceEpoch) :
    GreyEntry.retry config now ⟨first.1, last, run.passed⟩ =
      (if run.waited config now then .allow else .defer,
        ⟨first.1, now, run.waited config now⟩) := by
  have hdelay : _ ↔ first.1.sinceEpoch + (config.delay : Int) ≤ now.sinceEpoch :=
    SystemTime.durationSince_any_le hle
  unfold GreyEntry.retry GreyRun.waited
  dsimp only
  rw [hfirst, Option.any_some]
  cases hpassed : run.passed with
  | true => simp
  | false =>
    rw [if_neg Bool.false_ne_true, Bool.or_false]
    by_cases hlong : first.1.sinceEpoch + (config.delay : Int) ≤ now.sinceEpoch
    · rw [if_pos (hdelay.mpr hlong), decide_eq_true hlong]
      rfl
    · rw [if_neg (mt hdelay.mp hlong), decide_eq_false hlong]
      rfl

-- a triplet that is remembered
theorem Remembers.retry {e : GreyEntry} (h : Remembers config run now.sinceEpoch (some e)) :
    (e.retry config now).1 = (if run.waited config now then .allow else .defer) ∧
      (run.joins config now = true → Keepable config now →
        Remembers config (run.next config now) now.sinceEpoch (some (e.retry config now).2)) := by
  rcases h with ⟨-, hnone⟩ | ⟨first, last, hfirst, hlast, hspan, hdone, -, hentry | ⟨hnone, -⟩⟩
  · cases hnone
  · cases hentry
    rw [retry_eq config last.1 hfirst (hspan.trans hdone)]
    refine ⟨rfl, ?_⟩
    intro hjoins hkeep
    rw [GreyRun.next, if_pos hjoins]
    refine .inr ⟨first, (now, run.waited config now), ?_, List.getLast?_concat,
      hspan.trans hdone, le_refl _, hkeep, .inl ?_⟩
    · rw [List.head?_append, hfirst]
      rfl
    · rw [passed_concat]
  · cases hnone

end

/-! ## 4. Whole sequences -/

section
variable {config : GreylistConfig} {g : Greylist} {call : GreyCall} {run : GreyRun} {clock : Int}

-- what the other triplets see of a call
theorem lookup_run_of_ne {key : Triplet} (h : key ≠ call.key) :
    (call.run config g).2.lookup key = (g.lookup key).filter (GreyEntry.live config call.now) := by
  rw [← Greylist.lookup_prune]
  unfold GreyCall.run Greylist.checkAt
  dsimp only
  rw [← GreyCall.key]
  cases (g.prune config call.now).lookup call.key with
  | some e => exact AList.lookup_insert_ne h
  | none =>
    dsimp only
    split
    · rfl
    · exact AList.lookup_insert_ne h

/-- A call of the triplet itself, with room for it. -/
theorem Remembers.checked (h : Remembers config run clock (g.lookup call.key))
    (hle : clock ≤ call.now.sinceEpoch)
    (hroom : (g.prune config call.now).lookup call.key = none →
      (g.prune config call.now).entries.length < config.maxEntries) :
    (call.run config g).1 =
        (if run.joins config call.now && run.waited config call.now then .allow else .defer) ∧
      (Keepable config call.now →
        Remembers config (run.next config call.now) call.now.sinceEpoch
          ((call.run config g).2.lookup call.key)) := by
  obtain ⟨hpruned, hjoins⟩ := h.prune hle
  rw [← Greylist.lookup_prune] at hpruned hjoins
  unfold GreyCall.run Greylist.checkAt
  dsimp only
  rw [← GreyCall.key]
  cases hentry : (g.prune config call.now).lookup call.key with
  | some e =>
    rw [hentry] at hpruned hjoins
    have hj : run.joins config call.now = true := hjoins.mp rfl
    dsimp only
    rw [AList.lookup_insert, hj, Bool.true_and]
    exact ⟨hpruned.retry.1, hpruned.retry.2 hj⟩
  | none =>
    rw [hentry] at hjoins
    have hj : run.joins config call.now = false := by
      rw [← Bool.not_eq_true, ← hjoins]
      simp
    dsimp only
    rw [if_neg (Nat.not_le.mpr (hroom hentry)), hj, Bool.false_and, GreyRun.next, hj]
    refine ⟨rfl, ?_⟩
    intro hkeep
    dsimp only
    rw [AList.lookup_insert]
    exact .inr ⟨(call.now, false), (call.now, false), rfl, rfl, le_refl _, le_refl _, hkeep,
      .inl rfl⟩

-- the times of the calls do not decrease
def GreySorted (calls : List GreyCall) : Prop :=
  calls.Pairwise fun a b => a.now.sinceEpoch ≤ b.now.sinceEpoch

/-- At each call of the triplet that finds no entry for it, there is room for one. -/
def BelowCapacity (config : GreylistConfig) (key : Triplet) (calls : List GreyCall) : Prop :=
  ∀ before call after, calls = before ++ call :: after → call.key = key →
    ((greylistAfter config before).prune config call.now).lookup key = none →
    ((greylistAfter config before).prune config call.now).entries.length < config.maxEntries

-- when the triplet was seen
def timesOf (key : Triplet) (calls : List GreyCall) : List SystemTime :=
  (calls.filter fun c => c.key = key).map GreyCall.now

theorem BelowCapacity.front {key : Triplet} {calls more : List GreyCall}
    (h : BelowCapacity config key (calls ++ more)) : BelowCapacity config key calls := by
  intro before call after hcalls
  exact h before call (after ++ more) (by rw [hcalls, List.append_assoc, List.cons_append])

-- there is room for as many calls as the list may have entries
theorem belowCapacity_of_length {key : Triplet} {calls : List GreyCall}
    (h : calls.length ≤ config.maxEntries) : BelowCapacity config key calls := by
  intro before call after hcalls _ _
  have hpruned : ((greylistAfter config before).prune config call.now).entries.length ≤
      before.length :=
    (length_retain_le (GreyEntry.live config call.now) _).trans (length_greylistAfter _ _).2
  rw [hcalls, List.length_append, List.length_cons] at h
  omega

theorem remembers_greylistAfter {key : Triplet} {calls : List GreyCall} (hsorted : GreySorted calls)
    (hroom : BelowCapacity config key calls)
    (hkeep : ∀ c ∈ calls, c.key = key → Keepable config c.now)
    (hdone : ∀ c ∈ calls, c.now.sinceEpoch ≤ clock) :
    Remembers config (currentRun config (timesOf key calls)) clock
      ((greylistAfter config calls).lookup key) := by
  induction calls using List.reverseRecOn generalizing clock with
  | nil => exact .inl ⟨rfl, rfl⟩
  | append_singleton calls call ih =>
    obtain ⟨hbefore, -, hlast⟩ := List.pairwise_append.mp hsorted
    have hnow := ih hbefore hroom.front (fun c hc => hkeep c (List.mem_append_left _ hc))
      fun c hc => hlast c hc call (by simp)
    refine Remembers.later ?_ (hdone call (by simp))
    rw [greylistAfter_concat]
    by_cases hkey : call.key = key
    · subst hkey
      have htimes : currentRun config (timesOf call.key (calls ++ [call])) =
          (currentRun config (timesOf call.key calls)).next config call.now := by
        unfold timesOf currentRun
        rw [List.filter_append, List.map_append, List.foldl_append,
          List.filter_cons_of_pos (by simp)]
        rfl
      rw [htimes]
      exact (hnow.checked (le_refl _) (hroom calls call [] rfl rfl)).2 (hkeep call (by simp) rfl)
    · have htimes : timesOf key (calls ++ [call]) = timesOf key calls := by
        unfold timesOf
        rw [List.filter_append, List.filter_cons_of_neg (by simpa using hkey), List.filter_nil,
          List.append_nil]
      rw [htimes, lookup_run_of_ne (Ne.symm hkey)]
      exact (hnow.prune (le_refl _)).1

/-- The list never outgrows its capacity; and with room for each first contact, a call is allowed
exactly if it goes on with a run of calls for its triplet that has waited. -/
theorem greylist_decisions (config : GreylistConfig) :
    (∀ calls, (greylistAfter config calls).entries.length ≤ config.maxEntries) ∧
      ∀ before call, GreySorted (before ++ [call]) →
        BelowCapacity config call.key (before ++ [call]) →
        (∀ c ∈ before, c.key = call.key → Keepable config c.now) →
        ((call.run config (greylistAfter config before)).1 = .allow ↔
          (currentRun config (timesOf call.key before)).joins config call.now = true ∧
            (currentRun config (timesOf call.key before)).waited config call.now = true) := by
  refine ⟨fun calls => (length_greylistAfter config calls).1, ?_⟩
  intro before call hsorted hroom hkeep
  obtain ⟨hbefore, -, hlast⟩ := List.pairwise_append.mp hsorted
  have hnow := remembers_greylistAfter hbefore hroom.front hkeep
    fun c hc => hlast c hc call (by simp)
  rw [(hnow.checked (le_refl _) (hroom before call [] rfl rfl)).1, ← Bool.and_eq_true]
  cases (currentRun config (timesOf call.key before)).joins config call.now &&
      (currentRun config (timesOf call.key before)).waited config call.now with
  | true => simp
  | false => simp

end

-- the second attempt of a sender, a minute after the first
theorem greylist_decisions_retry :
    ((⟨.v4 1#32, "a@x.org".toList, "b@y.org".toList, ⟨60, 0, by omega, by omega, by omega⟩⟩ :
        GreyCall).run .default (greylistAfter .default
      [⟨.v4 1#32, "A@x.org".toList, "b@y.org".toList, .unixEpoch⟩])).1 = .allow := by
  refine ((greylist_decisions .default).2 _ _ ?_ (belowCapacity_of_length (by decide)) ?_).mpr
    ⟨by decide, by decide⟩
  · unfold GreySorted
    decide
  · intro c hc _
    rw [List.mem_singleton.mp hc]
    exact ⟨by decide, by decide⟩

/-- A triplet that is to be remembered for longer than time lasts is forgotten at once: the retry is
deferred like the first attempt. -/
theorem endless_ttl_forgets :
    let config : GreylistConfig := ⟨.fromSecs 1, .fromSecs (2 ^ 64 - 1), .fromSecs 60, 10⟩
    let first : GreyCall := ⟨.v4 1#32, "a@x.org".toList, "b@y.org".toList, .unixEpoch⟩
    let retry : GreyCall :=
      ⟨.v4 1#32, "a@x.org".toList, "b@y.org".toList, ⟨60, 0, by omega, by omega, by omega⟩⟩
    GreySorted [first, retry] ∧ BelowCapacity config retry.key [first, retry] ∧
      (currentRun config (timesOf retry.key [first])).joins config retry.now = true ∧
      (currentRun config (timesOf retry.key [first])).waited config retry.now = true ∧
      (retry.run config (greylistAfter config [first])).1 = .defer := by
  refine ⟨?_, belowCapacity_of_length (by decide), by decide, by decide, by decide⟩
  unfold GreySorted
  decide

end Snail.Security
