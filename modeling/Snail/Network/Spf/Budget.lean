import Snail.Network.Spf.Eval

/-!
# Budget — termination and the DNS budget of an SPF evaluation

Every recursion and every group of queries stands behind a passed lookup charge.  `Covered` keeps
the account: what an evaluation asks is paid for by the charges it passes, up to a given overdraft.
-/

open Snail.Reasoning

namespace Snail.Network.Spf

def Event.isQuery : Event → Bool
  | .chargeLookup _ | .chargeVoid _ => false
  | _ => true

def Event.isTxt : Event → Bool
  | .lookupTxt _ => true
  | _ => false

def Event.isPassedLookup : Event → Bool
  | .chargeLookup passed => passed
  | _ => false

def Event.isFailedCharge : Event → Bool
  | .chargeLookup passed | .chargeVoid passed => !passed
  | _ => false

def EvalState.queries (s : EvalState) : Nat := s.log.countP Event.isQuery
def EvalState.txts (s : EvalState) : Nat := s.log.countP Event.isTxt
def EvalState.passed (s : EvalState) : Nat := s.log.countP Event.isPassedLookup

-- a charge has failed
def EvalState.Overrun (s : EvalState) : Prop := ∃ e ∈ s.log, e.isFailedCharge = true

/-! ## 1. The account -/

/-- From `s` to `s'` at most eleven queries and one TXT query are made for each charge passed,
beyond `n` queries and `t` TXT queries that are not paid for. -/
structure Covered (n t : Nat) (s s' : EvalState) : Prop where
  queries : s'.queries + 11 * s.passed ≤ s.queries + n + 11 * s'.passed
  txts : s'.txts + s.passed ≤ s.txts + t + s'.passed
  lookups : s.lookups ≤ s'.lookups
  tally : s.passed = min s.lookups maxLookups → s'.passed = min s'.lookups maxLookups
  grows : s.log <+: s'.log

theorem Covered.refl (s : EvalState) : Covered 0 0 s s where
  queries := by omega
  txts := by omega
  lookups := le_rfl
  tally := id
  grows := List.prefix_rfl

theorem Covered.trans {n t m u : Nat} {s s' s'' : EvalState} (h : Covered n t s s')
    (h' : Covered m u s' s'') : Covered (n + m) (t + u) s s'' where
  queries := by have := h.queries; have := h'.queries; omega
  txts := by have := h.txts; have := h'.txts; omega
  lookups := h.lookups.trans h'.lookups
  tally := fun ht => h'.tally (h.tally ht)
  grows := h.grows.trans h'.grows

theorem Covered.mono {n t m u : Nat} {s s' : EvalState} (h : Covered n t s s') (hn : n ≤ m)
    (ht : t ≤ u) : Covered m u s s' where
  queries := by have := h.queries; omega
  txts := by have := h.txts; omega
  lookups := h.lookups
  tally := h.tally
  grows := h.grows

theorem Covered.overrun {n t : Nat} {s s' : EvalState} (h : Covered n t s s')
    (ho : s.Overrun) : s'.Overrun := by
  rcases ho with ⟨e, he, hf⟩
  exact ⟨e, h.grows.subset he, hf⟩

theorem covered_ask {e : Event} (he : e.isPassedLookup = false) (s : EvalState) :
    Covered (if e.isQuery then 1 else 0) (if e.isTxt then 1 else 0) s (s.ask e) where
  queries := by simp [EvalState.queries, EvalState.passed, EvalState.ask, List.countP_cons, he]
  txts := by simp [EvalState.txts, EvalState.passed, EvalState.ask, List.countP_cons, he]
  lookups := le_rfl
  tally := by simp [EvalState.passed, EvalState.ask, he]
  grows := List.prefix_append _ _

theorem overrun_ask {e : Event} (he : e.isFailedCharge = false) {s : EvalState}
    (h : (s.ask e).Overrun) : s.Overrun := by
  rcases h with ⟨x, hx, hf⟩
  rcases List.mem_append.mp hx with hx | hx
  · exact ⟨x, hx, hf⟩
  · rw [List.mem_singleton.mp hx, he] at hf
    cases hf

-- a charge that fails is not counted as passed
theorem covered_charge_failed {s : EvalState} (h : ¬ s.lookups + 1 ≤ maxLookups) :
    Covered 0 0 s s.chargeLookup.2 where
  queries := by simp [EvalState.queries, EvalState.passed, EvalState.chargeLookup, h,
    Event.isQuery, Event.isPassedLookup]
  txts := by simp [EvalState.txts, EvalState.passed, EvalState.chargeLookup, h, Event.isTxt,
    Event.isPassedLookup]
  lookups := Nat.le_succ _
  tally := by
    intro ht
    have hp : s.chargeLookup.2.passed = s.passed := by
      simp [EvalState.passed, EvalState.chargeLookup, h, Event.isPassedLookup]
    have hl : s.chargeLookup.2.lookups = s.lookups + 1 := rfl
    rw [hp, hl, ht]
    omega
  grows := List.prefix_append _ _

-- a charge that passes pays for eleven queries, one of them a TXT query
theorem covered_charge_passed {s s' : EvalState} (h : s.lookups + 1 ≤ maxLookups)
    (h' : Covered 11 1 s.chargeLookup.2 s') : Covered 0 0 s s' := by
  have hp : s.chargeLookup.2.passed = s.passed + 1 := by
    simp [EvalState.passed, EvalState.chargeLookup, h, Event.isPassedLookup]
  have hq : s.chargeLookup.2.queries = s.queries := by
    simp [EvalState.queries, EvalState.chargeLookup, Event.isQuery]
  have ht : s.chargeLookup.2.txts = s.txts := by
    simp [EvalState.txts, EvalState.chargeLookup, Event.isTxt]
  have hl : s.chargeLookup.2.lookups = s.lookups + 1 := rfl
  exact {
    queries := by have := h'.queries; omega
    txts := by have := h'.txts; omega
    lookups := by have := h'.lookups; omega
    tally := fun htally => h'.tally (by omega)
    grows := (List.prefix_append _ _).trans h'.grows }

/-! ## 2. Runs that keep the account -/

/-- An evaluation that is covered and whose value is `bad` whenever a charge fails in it. -/
structure Sound {α : Type} (bad : α) (n t : Nat) (s : EvalState) (r : α × EvalState) : Prop where
  covered : Covered n t s r.2
  overrun : r.2.Overrun → s.Overrun ∨ r.1 = bad

theorem Sound.mono {α : Type} {bad : α} {n t m u : Nat} {s : EvalState} {r : α × EvalState}
    (h : Sound bad n t s r) (hn : n ≤ m) (ht : t ≤ u) : Sound bad m u s r :=
  ⟨h.covered.mono hn ht, h.overrun⟩

theorem sound_pure {α : Type} (bad a : α) (s : EvalState) : Sound bad 0 0 s (a, s) :=
  ⟨Covered.refl s, .inl⟩

-- what follows a query that is no charge
theorem Sound.after_ask {α : Type} {bad : α} {n t : Nat} {s : EvalState} {e : Event}
    {r : α × EvalState} (hp : e.isPassedLookup = false) (hf : e.isFailedCharge = false)
    (h : Sound bad n t (s.ask e) r) :
    Sound bad ((if e.isQuery then 1 else 0) + n) ((if e.isTxt then 1 else 0) + t) s r where
  covered := (covered_ask hp s).trans h.covered
  overrun := by
    intro ho
    rcases h.overrun ho with ho | ho
    · exact .inl (overrun_ask hf ho)
    · exact .inr ho

-- a query that is not for TXT records costs one
theorem Sound.after_query {α : Type} {bad : α} {n t : Nat} {s : EvalState} {e : Event}
    {r : α × EvalState} (hq : e.isQuery = true) (ht : e.isTxt = false)
    (hp : e.isPassedLookup = false) (hf : e.isFailedCharge = false)
    (h : Sound bad n t (s.ask e) r) : Sound bad (n + 1) t s r := by
  have hrun := h.after_ask hp hf
  rw [hq, ht] at hrun
  exact hrun.mono (by simp; omega) (by simp)

-- the three ways through the start of a querying mechanism
theorem EvalState.whenCharged_cases {α : Type} (s : EvalState) (target : Option Str)
    (failed : SpfResult → EvalState → α) (k : Str → EvalState → α) :
    (¬ s.lookups + 1 ≤ maxLookups ∧
      s.whenCharged target failed k = failed .permError s.chargeLookup.2) ∨
    (s.lookups + 1 ≤ maxLookups ∧ target = none ∧
      s.whenCharged target failed k = failed .permError s.chargeLookup.2) ∨
    (s.lookups + 1 ≤ maxLookups ∧ ∃ t, target = some t ∧
      s.whenCharged target failed k = k t s.chargeLookup.2) := by
  by_cases h : s.lookups + 1 ≤ maxLookups
  · cases target with
    | none => exact .inr (.inl ⟨h, rfl, by simp [EvalState.whenCharged, EvalState.chargeLookup, h]⟩)
    | some t =>
      exact .inr (.inr ⟨h, t, rfl, by simp [EvalState.whenCharged, EvalState.chargeLookup, h]⟩)
  · exact .inl ⟨h, by simp [EvalState.whenCharged, EvalState.chargeLookup, h]⟩

theorem overrun_charge_passed {s : EvalState} (h : s.lookups + 1 ≤ maxLookups)
    (ho : s.chargeLookup.2.Overrun) : s.Overrun := by
  have he : (Event.chargeLookup (decide (s.lookups + 1 ≤ maxLookups))).isFailedCharge = false := by
    simp [h, Event.isFailedCharge]
  exact overrun_ask (s := s) he ho

section Charged

variable {α : Type} {bad : α} {s : EvalState}

-- a failed evaluation of the mechanism keeps the account
theorem sound_charge_failed (h : ¬ s.lookups + 1 ≤ maxLookups) :
    Sound bad 0 0 s (bad, s.chargeLookup.2) :=
  ⟨covered_charge_failed h, fun _ => .inr rfl⟩

theorem Sound.of_charge_passed {r : α × EvalState} (h : s.lookups + 1 ≤ maxLookups)
    (hr : Sound bad 11 1 s.chargeLookup.2 r) : Sound bad 0 0 s r where
  covered := covered_charge_passed h hr.covered
  overrun := by
    intro ho
    rcases hr.overrun ho with ho | ho
    · exact .inl (overrun_charge_passed h ho)
    · exact .inr ho

end Charged

-- a querying mechanism pays for its queries with its charge
theorem sound_whenCharged {s : EvalState} {target : Option Str}
    {k : Str → EvalState → MechOutcome × EvalState}
    (hk : ∀ t s', Sound (.error .permError) 11 1 s' (k t s')) :
    Sound (.error .permError) 0 0 s (s.whenCharged target mechError k) := by
  rcases s.whenCharged_cases target mechError k with ⟨h, he⟩ | ⟨h, -, he⟩ | ⟨h, t, -, he⟩
  · rw [he]
    exact sound_charge_failed h
  · rw [he]
    exact Sound.of_charge_passed h ((sound_pure _ _ _).mono (by omega) (by omega))
  · rw [he]
    exact Sound.of_charge_passed h (hk t _)

theorem covered_chargeVoid (s : EvalState) : Covered 0 0 s s.chargeVoid.2 where
  queries := by simp [EvalState.queries, EvalState.passed, EvalState.chargeVoid, Event.isQuery,
    Event.isPassedLookup]
  txts := by simp [EvalState.txts, EvalState.passed, EvalState.chargeVoid, Event.isTxt,
    Event.isPassedLookup]
  lookups := le_rfl
  tally := by simp [EvalState.passed, EvalState.chargeVoid, Event.isPassedLookup]
  grows := List.prefix_append _ _

theorem sound_whenVoid {α : Type} {n t : Nat} {s : EvalState} (answer : List α)
    {k : EvalState → MechOutcome × EvalState}
    (hk : ∀ s', Sound (.error .permError) n t s' (k s')) :
    Sound (.error .permError) n t s (s.whenVoid answer k) := by
  unfold EvalState.whenVoid
  split
  · by_cases h : s.void + 1 ≤ maxVoid
    · have hpass : s.chargeVoid.1 = true := by simp [EvalState.chargeVoid, h]
      have hover : s.chargeVoid.2.Overrun → s.Overrun := by
        have he : (Event.chargeVoid (decide (s.void + 1 ≤ maxVoid))).isFailedCharge = false := by
          simp [h, Event.isFailedCharge]
        exact fun ho => overrun_ask (s := s) he ho
      have hrun := hk s.chargeVoid.2
      simp only [hpass, if_true]
      refine ⟨by simpa using (covered_chargeVoid s).trans hrun.covered, fun ho => ?_⟩
      rcases hrun.overrun ho with ho | ho
      · exact .inl (hover ho)
      · exact .inr ho
    · have hpass : s.chargeVoid.1 = false := by simp [EvalState.chargeVoid, h]
      simp only [hpass, Bool.false_eq_true, if_false]
      exact ⟨(covered_chargeVoid s).mono (Nat.zero_le n) (Nat.zero_le t), fun _ => .inr rfl⟩
  · exact hk s

/-! ## 3. The mechanisms -/

section Mechanisms

variable (ev : Evaluator)

theorem Evaluator.sound_aMatch (domain : Option Str) (current : Str) (v4 v6 : Nat)
    (s : EvalState) : Sound (.error .permError) 0 0 s (ev.aMatch domain current v4 v6 s) := by
  refine sound_whenCharged fun target s' => ?_
  have hvoid := sound_whenVoid (n := 10) (t := 1) (s := s'.ask (.lookupIp target))
    (answers (ev.resolver.lookupIp target))
    (k := fun s => (.ofBool ((answers (ev.resolver.lookupIp target)).any fun a =>
      ipInNet ev.ip a v4 v6), s)) fun s'' => (sound_pure _ _ s'').mono (by omega) (by omega)
  exact hvoid.after_query rfl rfl rfl rfl

theorem Evaluator.sound_existsMatch (spec current : Str) (s : EvalState) :
    Sound (.error .permError) 0 0 s (ev.existsMatch spec current s) := by
  refine sound_whenCharged fun target s' => ?_
  have hvoid := sound_whenVoid (n := 10) (t := 1) (s := s'.ask (.lookupIp target))
    (answers (ev.resolver.lookupIp target))
    (k := fun s => (.ofBool (!(answers (ev.resolver.lookupIp target)).isEmpty), s))
    fun s'' => (sound_pure _ _ s'').mono (by omega) (by omega)
  exact hvoid.after_query rfl rfl rfl rfl

-- each MX host costs one query
theorem Evaluator.sound_mxHosts (v4 v6 : Nat) (mxs : List MxRecord) (s : EvalState) :
    Sound (.error .permError) mxs.length 0 s (ev.mxHosts v4 v6 mxs s) := by
  induction mxs generalizing s with
  | nil => exact sound_pure _ _ s
  | cons mx rest ih =>
    rw [Evaluator.mxHosts]
    by_cases h : ((ev.lookupIp mx.exchange s).1.any fun a => ipInNet ev.ip a v4 v6) = true
    · have hp := sound_pure (.error .permError) MechOutcome.matched (s.ask (.lookupIp mx.exchange))
      simp only [if_pos h]
      exact (hp.mono (Nat.zero_le rest.length) le_rfl).after_query rfl rfl rfl rfl
    · simp only [if_neg h]
      exact (ih (s.ask (.lookupIp mx.exchange))).after_query rfl rfl rfl rfl

theorem Evaluator.sound_ptrNames (target : Str) (names : List Str) (s : EvalState) :
    Sound (.error .permError) names.length 0 s (ev.ptrNames target names s) := by
  induction names generalizing s with
  | nil => exact sound_pure _ _ s
  | cons name rest ih =>
    rw [Evaluator.ptrNames]
    by_cases hw : ptrWithin name target = true
    · by_cases h : (ev.lookupIp name s).1.contains ev.ip = true
      · have hp := sound_pure (.error .permError) MechOutcome.matched (s.ask (.lookupIp name))
        simp only [if_pos hw, if_pos h]
        exact (hp.mono (Nat.zero_le rest.length) le_rfl).after_query rfl rfl rfl rfl
      · simp only [if_pos hw, if_neg h]
        exact (ih (s.ask (.lookupIp name))).after_query rfl rfl rfl rfl
    · simp only [if_neg hw]
      exact (ih s).mono (by simp) le_rfl

theorem Evaluator.sound_mxMatch (domain : Option Str) (current : Str) (v4 v6 : Nat)
    (s : EvalState) : Sound (.error .permError) 0 0 s (ev.mxMatch domain current v4 v6 s) := by
  refine sound_whenCharged fun target s' => ?_
  have hlen : ((answers (ev.resolver.lookupMx target)).take maxHosts).length ≤ 10 :=
    List.length_take_le _ _
  have hvoid := sound_whenVoid (n := 10) (t := 1) (s := s'.ask (.lookupMx target))
    (answers (ev.resolver.lookupMx target))
    (k := fun s => ev.mxHosts v4 v6 ((answers (ev.resolver.lookupMx target)).take maxHosts) s)
    fun s'' => (ev.sound_mxHosts v4 v6 _ s'').mono hlen (by omega)
  exact hvoid.after_query rfl rfl rfl rfl

theorem Evaluator.sound_ptrMatch (domain : Option Str) (current : Str) (s : EvalState) :
    Sound (.error .permError) 0 0 s (ev.ptrMatch domain current s) := by
  refine sound_whenCharged fun target s' => ?_
  have hlen : ((answers (ev.resolver.reverseLookup ev.ip)).take maxHosts).length ≤ 10 :=
    List.length_take_le _ _
  have hvoid := sound_whenVoid (n := 10) (t := 1) (s := s'.ask (.reverseLookup ev.ip))
    (answers (ev.resolver.reverseLookup ev.ip))
    (k := fun s => ev.ptrNames target ((answers (ev.resolver.reverseLookup ev.ip)).take maxHosts) s)
    fun s'' => (ev.sound_ptrNames target _ s'').mono hlen (by omega)
  exact hvoid.after_query rfl rfl rfl rfl

end Mechanisms

/-! ## 4. The recursion keeps the account -/

section Recursion

variable {ev : Evaluator} {checkHost : CheckHost}

-- a lookup that goes on with the record of another domain
theorem sound_recursion {α : Type} {failed inner : SpfResult → α}
    (hrec : ∀ d s r, checkHost d s = some r → Sound .permError 1 1 s r) {target : Option Str}
    {s : EvalState} {r : α × EvalState} (hfailed : inner .permError = failed .permError)
    (h : s.whenCharged target (fun r s => some (failed r, s))
      (fun target s => (checkHost target s).map fun r => (inner r.1, r.2)) = some r) :
    Sound (failed .permError) 0 0 s r := by
  rcases s.whenCharged_cases target (fun r s => some (failed r, s))
    (fun target s => (checkHost target s).map fun r => (inner r.1, r.2)) with
    ⟨hc, he⟩ | ⟨hc, -, he⟩ | ⟨hc, target, -, he⟩
  · rw [he] at h
    cases h
    exact sound_charge_failed hc
  · rw [he] at h
    cases h
    exact Sound.of_charge_passed hc ((sound_pure _ _ _).mono (by omega) (by omega))
  · rw [he] at h
    rcases Option.map_eq_some_iff.mp h with ⟨⟨result, s'⟩, hinner, hr⟩
    have hs := hrec target _ _ hinner
    cases hr
    refine Sound.of_charge_passed hc ⟨hs.covered.mono (by omega) (by omega), fun ho => ?_⟩
    rcases hs.overrun ho with ho | ho
    · exact .inl ho
    · simp only at ho
      exact .inr (by rw [ho]; exact hfailed)

theorem Evaluator.sound_matches
    (hrec : ∀ d s r, checkHost d s = some r → Sound .permError 1 1 s r) {mech : Mechanism}
    {current : Str} {s : EvalState} {r : MechOutcome × EvalState}
    (h : ev.matches checkHost mech current s = some r) : Sound (.error .permError) 0 0 s r := by
  cases mech with
  | all =>
    cases h
    exact sound_pure _ _ s
  | ip4 net prefixLen | ip6 net prefixLen =>
    simp only [Evaluator.matches] at h
    cases hip : ev.ip with
    | v4 c | v6 c =>
      rw [hip] at h
      cases h
      exact sound_pure _ _ s
  | a domain v4 v6 =>
    cases h
    exact ev.sound_aMatch domain current v4 v6 s
  | mx domain v4 v6 =>
    cases h
    exact ev.sound_mxMatch domain current v4 v6 s
  | «include» spec =>
    exact @sound_recursion _ _ MechOutcome.error includeOutcome hrec _ _ _ rfl h
  | «exists» spec =>
    cases h
    exact ev.sound_existsMatch spec current s
  | ptr domain =>
    cases h
    exact ev.sound_ptrMatch domain current s

theorem Evaluator.sound_runDirectives
    (hrec : ∀ d s r, checkHost d s = some r → Sound .permError 1 1 s r) {current : Str}
    {directives : List Directive} {s : EvalState} {r : Option SpfResult × EvalState}
    (h : ev.runDirectives checkHost current directives s = some r) :
    Sound (some .permError) 0 0 s r := by
  induction directives generalizing s with
  | nil =>
    cases h
    exact sound_pure _ _ s
  | cons d rest ih =>
    rw [Evaluator.runDirectives] at h
    cases hm : ev.matches checkHost d.mechanism current s with
    | none => simp [hm] at h
    | some out =>
      have hs := sound_matches hrec hm
      rcases out with ⟨outcome, s'⟩
      cases outcome with
      | matched =>
        simp only [hm, Option.some.injEq] at h
        rw [← h]
        refine ⟨hs.covered, fun ho => ?_⟩
        rcases hs.overrun ho with ho | ho
        · exact .inl ho
        · cases ho
      | noMatch =>
        simp only [hm] at h
        have hr := ih h
        refine ⟨hs.covered.trans hr.covered, fun ho => ?_⟩
        rcases hr.overrun ho with ho | ho
        · rcases hs.overrun ho with ho | ho
          · exact .inl ho
          · cases ho
        · exact .inr ho
      | error result =>
        simp only [hm, Option.some.injEq] at h
        rw [← h]
        refine ⟨hs.covered, fun ho => ?_⟩
        rcases hs.overrun ho with ho | ho
        · exact .inl ho
        · cases ho
          exact .inr rfl

theorem Evaluator.sound_applyRedirect
    (hrec : ∀ d s r, checkHost d s = some r → Sound .permError 1 1 s r) {redirect : Option Str}
    {current : Str} {s : EvalState} {r : SpfResult × EvalState}
    (h : ev.applyRedirect checkHost redirect current s = some r) : Sound .permError 0 0 s r := by
  cases redirect with
  | none =>
    cases h
    exact sound_pure _ _ s
  | some spec =>
    exact @sound_recursion _ _ id redirectResult hrec _ _ _ rfl h

end Recursion

-- the ways one level of `check_host` can go
theorem Evaluator.checkHost_cases {ev : Evaluator} {fuel : Nat} {domain : Str} {s : EvalState}
    {r : SpfResult × EvalState} (h : ev.checkHost (fuel + 1) domain s = some r) :
    (spfTexts (answers (ev.resolver.lookupTxt domain)) = [] ∧
      r = (.none, s.ask (.lookupTxt domain))) ∨
    ((∃ a b l, spfTexts (answers (ev.resolver.lookupTxt domain)) = a :: b :: l) ∧
      r = (.permError, s.ask (.lookupTxt domain))) ∨
    ∃ raw, spfTexts (answers (ev.resolver.lookupTxt domain)) = [raw] ∧
      (((∃ e, SpfRecord.parse raw = .error e) ∧ r = (.permError, s.ask (.lookupTxt domain))) ∨
      ∃ record, SpfRecord.parse raw = .ok record ∧
        ((∃ res s', ev.runDirectives (ev.checkHost fuel) domain record.directives
            (s.ask (.lookupTxt domain)) = some (some res, s') ∧ r = (res, s')) ∨
        ∃ s', ev.runDirectives (ev.checkHost fuel) domain record.directives
            (s.ask (.lookupTxt domain)) = some (none, s') ∧
          ev.applyRedirect (ev.checkHost fuel) record.redirect domain s' = some r)) := by
  rw [Evaluator.checkHost] at h
  cases htexts : spfTexts (answers (ev.resolver.lookupTxt domain)) with
  | nil =>
    simp only [htexts, Option.some.injEq] at h
    exact .inl ⟨rfl, h.symm⟩
  | cons raw more =>
    cases more with
    | cons b l =>
      simp only [htexts, Option.some.injEq] at h
      exact .inr (.inl ⟨⟨raw, b, l, rfl⟩, h.symm⟩)
    | nil =>
      simp only [htexts] at h
      refine .inr (.inr ⟨raw, rfl, ?_⟩)
      cases hparse : SpfRecord.parse raw with
      | error e =>
        simp only [hparse, Option.some.injEq] at h
        exact .inl ⟨⟨e, rfl⟩, h.symm⟩
      | ok record =>
        simp only [hparse] at h
        refine .inr ⟨record, rfl, ?_⟩
        cases hdir : ev.runDirectives (ev.checkHost fuel) domain record.directives
            (s.ask (.lookupTxt domain)) with
        | none => simp [hdir] at h
        | some out =>
          rcases out with ⟨ended, s'⟩
          cases ended with
          | none =>
            simp only [hdir] at h
            exact .inr ⟨s', rfl, h⟩
          | some res =>
            simp only [hdir, Option.some.injEq] at h
            exact .inl ⟨res, s', rfl, h.symm⟩

-- one TXT query and one query are not paid for: those of the first record
theorem Evaluator.sound_checkHost {ev : Evaluator} {fuel : Nat} {domain : Str} {s : EvalState}
    {r : SpfResult × EvalState} (h : ev.checkHost fuel domain s = some r) :
    Sound .permError 1 1 s r := by
  induction fuel generalizing domain s r with
  | zero => cases h
  | succ fuel ih =>
    have hrec : ∀ d s r, ev.checkHost fuel d s = some r → Sound .permError 1 1 s r :=
      fun d s r hr => ih hr
    have hpure : ∀ res : SpfResult,
        Sound SpfResult.permError 1 1 s (res, s.ask (.lookupTxt domain)) :=
      fun res => (sound_pure SpfResult.permError res _).after_ask (e := .lookupTxt domain) rfl rfl
    rcases checkHost_cases h with ⟨-, rfl⟩ | ⟨-, rfl⟩ | ⟨raw, -, ⟨-, rfl⟩ | ⟨record, -, hrun⟩⟩
    · exact hpure _
    · exact hpure _
    · exact hpure _
    · rcases hrun with ⟨res, s', hdir, rfl⟩ | ⟨s', hdir, hred⟩
      · have hs := sound_runDirectives hrec hdir
        have hr : Sound SpfResult.permError 0 0 (s.ask (.lookupTxt domain)) (res, s') :=
          ⟨hs.covered, fun ho => (hs.overrun ho).imp_right fun he => Option.some.inj he⟩
        exact hr.after_ask (e := .lookupTxt domain) rfl rfl
      · have hs := sound_runDirectives hrec hdir
        have ha := sound_applyRedirect hrec hred
        have hr : Sound SpfResult.permError 0 0 (s.ask (.lookupTxt domain)) r := by
          refine ⟨hs.covered.trans ha.covered, fun ho => ?_⟩
          rcases ha.overrun ho with ho | ho
          · rcases hs.overrun ho with ho | ho
            · exact .inl ho
            · cases ho
          · exact .inr ho
        exact hr.after_ask (e := .lookupTxt domain) rfl rfl

/-! ## 5. Enough fuel -/

section Fuel

variable {ev : Evaluator} {checkHost : CheckHost} {n : Nat}

-- recursive calls are made only behind a passed charge
theorem EvalState.isSome_whenCharged {α : Type} {s : EvalState} (hn : n ≤ s.lookups)
    (target : Option Str) {failed : SpfResult → EvalState → Option α}
    {k : Str → EvalState → Option α} (hfailed : ∀ r s', (failed r s').isSome)
    (hk : ∀ t s', n < s'.lookups → s'.lookups ≤ maxLookups → (k t s').isSome) :
    (s.whenCharged target failed k).isSome := by
  rcases s.whenCharged_cases target failed k with ⟨-, he⟩ | ⟨-, -, he⟩ | ⟨hc, t, -, he⟩
  · rw [he]
    exact hfailed _ _
  · rw [he]
    exact hfailed _ _
  · rw [he]
    exact hk t _ (Nat.lt_succ_of_le hn) hc

theorem Evaluator.isSome_matches
    (hrec : ∀ d s, n < s.lookups → s.lookups ≤ maxLookups → (checkHost d s).isSome)
    (mech : Mechanism) (current : Str) {s : EvalState} (hn : n ≤ s.lookups) :
    (ev.matches checkHost mech current s).isSome := by
  cases mech with
  | «include» spec =>
    change (ev.includeMatch checkHost spec current s).isSome
    unfold Evaluator.includeMatch
    apply EvalState.isSome_whenCharged hn _ (fun _ _ => rfl)
    intro t s' h h'
    rw [Option.isSome_map]
    exact hrec t s' h h'
  | ip4 net prefixLen =>
    simp only [Evaluator.matches]
    cases ev.ip <;> rfl
  | ip6 net prefixLen =>
    simp only [Evaluator.matches]
    cases ev.ip <;> rfl
  | _ => rfl

theorem Evaluator.isSome_runDirectives
    (hsound : ∀ d s r, checkHost d s = some r → Sound .permError 1 1 s r)
    (hrec : ∀ d s, n < s.lookups → s.lookups ≤ maxLookups → (checkHost d s).isSome)
    (current : Str) (directives : List Directive) {s : EvalState} (hn : n ≤ s.lookups) :
    (ev.runDirectives checkHost current directives s).isSome := by
  induction directives generalizing s with
  | nil => rfl
  | cons d rest ih =>
    rw [Evaluator.runDirectives]
    cases hm : ev.matches checkHost d.mechanism current s with
    | none =>
      have := ev.isSome_matches hrec d.mechanism current hn
      rw [hm] at this
      cases this
    | some out =>
      rcases out with ⟨outcome, s'⟩
      cases outcome with
      | matched => rfl
      | noMatch => exact ih (hn.trans (sound_matches hsound hm).covered.lookups)
      | error r => rfl

theorem Evaluator.isSome_applyRedirect
    (hrec : ∀ d s, n < s.lookups → s.lookups ≤ maxLookups → (checkHost d s).isSome)
    (redirect : Option Str) (current : Str) {s : EvalState} (hn : n ≤ s.lookups) :
    (ev.applyRedirect checkHost redirect current s).isSome := by
  cases redirect with
  | none => rfl
  | some spec =>
    simp only [Evaluator.applyRedirect]
    apply EvalState.isSome_whenCharged hn _ (fun _ _ => rfl)
    intro t s' h h'
    rw [Option.isSome_map]
    exact hrec t s' h h'

-- fuel that reaches beyond the lookups still allowed is enough
theorem Evaluator.isSome_checkHost {ev : Evaluator} {fuel : Nat} (domain : Str) {s : EvalState}
    (hpos : 0 < fuel) (hfuel : maxLookups < fuel + s.lookups) :
    (ev.checkHost fuel domain s).isSome := by
  induction fuel generalizing domain s with
  | zero => cases hpos
  | succ fuel ih =>
    have hsound : ∀ d s r, ev.checkHost fuel d s = some r → Sound .permError 1 1 s r :=
      fun d s r hr => sound_checkHost hr
    have hrec : ∀ d s', s.lookups < s'.lookups → s'.lookups ≤ maxLookups →
        (ev.checkHost fuel d s').isSome := fun d s' h h' => ih d (by omega) (by omega)
    have hask : s.lookups ≤ (s.ask (.lookupTxt domain)).lookups := le_rfl
    rw [Evaluator.checkHost]
    split
    · rfl
    · rfl
    · split
      · rfl
      · rename_i record _
        have hdir := ev.isSome_runDirectives hsound hrec domain record.directives hask
        split
        · rename_i hnone
          rw [hnone] at hdir
          cases hdir
        · rfl
        · rename_i s' hdone
          exact isSome_applyRedirect hrec record.redirect domain
            (hask.trans (sound_runDirectives hsound hdone).covered.lookups)

end Fuel

/-! ## 6. More fuel changes nothing -/

section Mono

variable {ev : Evaluator} {f g : CheckHost}

theorem EvalState.whenCharged_mono {α : Type} {s : EvalState} {target : Option Str}
    {failed : SpfResult → EvalState → Option α} {k k' : Str → EvalState → Option α}
    (hk : ∀ t s' r, k t s' = some r → k' t s' = some r) {r : α}
    (h : s.whenCharged target failed k = some r) : s.whenCharged target failed k' = some r := by
  unfold EvalState.whenCharged at h ⊢
  cases target with
  | none => exact h
  | some t =>
    simp only [Option.elim_some] at h ⊢
    by_cases hc : s.chargeLookup.1 = true
    · rw [if_pos hc] at h ⊢
      exact hk t _ r h
    · rw [if_neg hc] at h ⊢
      exact h

theorem Evaluator.matches_mono (hfg : ∀ d s r, f d s = some r → g d s = some r) {mech : Mechanism}
    {current : Str} {s : EvalState} {r : MechOutcome × EvalState}
    (h : ev.matches f mech current s = some r) : ev.matches g mech current s = some r := by
  cases mech with
  | «include» spec =>
    change ev.includeMatch f spec current s = some r at h
    change ev.includeMatch g spec current s = some r
    unfold Evaluator.includeMatch at h ⊢
    refine EvalState.whenCharged_mono ?_ h
    intro t s' r hr
    rcases Option.map_eq_some_iff.mp hr with ⟨x, hx, rfl⟩
    rw [hfg _ _ _ hx]
    rfl
  | _ => exact h

theorem Evaluator.runDirectives_mono (hfg : ∀ d s r, f d s = some r → g d s = some r)
    {current : Str} {directives : List Directive} {s : EvalState}
    {r : Option SpfResult × EvalState} (h : ev.runDirectives f current directives s = some r) :
    ev.runDirectives g current directives s = some r := by
  induction directives generalizing s with
  | nil => exact h
  | cons d rest ih =>
    rw [Evaluator.runDirectives] at h ⊢
    cases hm : ev.matches f d.mechanism current s with
    | none => simp [hm] at h
    | some out =>
      rw [matches_mono hfg hm]
      rw [hm] at h
      rcases out with ⟨outcome, s'⟩
      cases outcome with
      | matched => exact h
      | noMatch => exact ih h
      | error r => exact h

theorem Evaluator.applyRedirect_mono (hfg : ∀ d s r, f d s = some r → g d s = some r)
    {redirect : Option Str} {current : Str} {s : EvalState} {r : SpfResult × EvalState}
    (h : ev.applyRedirect f redirect current s = some r) :
    ev.applyRedirect g redirect current s = some r := by
  cases redirect with
  | none => exact h
  | some spec =>
    simp only [Evaluator.applyRedirect] at h ⊢
    refine EvalState.whenCharged_mono ?_ h
    intro t s' r hr
    rcases Option.map_eq_some_iff.mp hr with ⟨x, hx, rfl⟩
    rw [hfg _ _ _ hx]
    rfl

theorem Evaluator.checkHost_succ {fuel : Nat} {domain : Str} {s : EvalState}
    {r : SpfResult × EvalState} (h : ev.checkHost fuel domain s = some r) :
    ev.checkHost (fuel + 1) domain s = some r := by
  induction fuel generalizing domain s r with
  | zero => cases h
  | succ fuel ih =>
    have hfg : ∀ d s r, ev.checkHost fuel d s = some r → ev.checkHost (fuel + 1) d s = some r :=
      fun d s r hr => ih hr
    rw [Evaluator.checkHost]
    rcases checkHost_cases h with
      ⟨htexts, rfl⟩ | ⟨⟨a, b, l, htexts⟩, rfl⟩ | ⟨raw, htexts, ⟨⟨e, hp⟩, rfl⟩ | ⟨record, hp, hrun⟩⟩
    · simp only [htexts]
    · simp only [htexts]
    · simp only [htexts, hp]
    · simp only [htexts, hp]
      rcases hrun with ⟨res, s', hdir, rfl⟩ | ⟨s', hdir, hred⟩
      · rw [runDirectives_mono hfg hdir]
      · rw [runDirectives_mono hfg hdir]
        exact applyRedirect_mono hfg hred

theorem Evaluator.checkHost_mono {fuel more : Nat} (hle : fuel ≤ more) {domain : Str}
    {s : EvalState} {r : SpfResult × EvalState} (h : ev.checkHost fuel domain s = some r) :
    ev.checkHost more domain s = some r := by
  induction more, hle using Nat.le_induction with
  | base => exact h
  | succ more _ ih => exact checkHost_succ ih

end Mono

/-! ## 7. The evaluation -/

-- the fuel of `evaluate`: one level for each lookup allowed and the first
def enoughFuel : Nat := maxLookups + 1

theorem isSome_evaluateWith (resolver : DnsResolver) (ip : IpAddr) (helo mailFrom : Str) :
    (evaluateWith enoughFuel resolver ip helo mailFrom).isSome := by
  unfold evaluateWith
  simp only
  split
  · rfl
  · exact Evaluator.isSome_checkHost _ (by decide) (by decide)

/-- `evaluate`, with the state it ends in. -/
def evaluateState (resolver : DnsResolver) (ip : IpAddr) (helo mailFrom : Str) :
    SpfResult × EvalState :=
  (evaluateWith enoughFuel resolver ip helo mailFrom).get
    (isSome_evaluateWith resolver ip helo mailFrom)

def evaluate (resolver : DnsResolver) (ip : IpAddr) (helo mailFrom : Str) : SpfResult :=
  (evaluateState resolver ip helo mailFrom).1

theorem evaluateWith_eq (resolver : DnsResolver) (ip : IpAddr) (helo mailFrom : Str) {fuel : Nat}
    (hfuel : enoughFuel ≤ fuel) :
    evaluateWith fuel resolver ip helo mailFrom =
      some (evaluateState resolver ip helo mailFrom) := by
  have hbase : evaluateWith enoughFuel resolver ip helo mailFrom =
      some (evaluateState resolver ip helo mailFrom) := (Option.some_get _).symm
  unfold evaluateWith at hbase ⊢
  simp only at hbase ⊢
  split
  · rename_i hd
    rw [if_pos hd] at hbase
    exact hbase
  · rename_i hd
    rw [if_neg hd] at hbase
    exact Evaluator.checkHost_mono hfuel hbase

-- the evaluation keeps the account from its first state on
theorem sound_evaluateState (resolver : DnsResolver) (ip : IpAddr) (helo mailFrom : Str) :
    Sound .permError 1 1 .initial (evaluateState resolver ip helo mailFrom) := by
  have h := evaluateWith_eq resolver ip helo mailFrom (le_refl enoughFuel)
  unfold evaluateWith at h
  simp only at h
  split at h
  · rw [← Option.some.inj h]
    exact (sound_pure _ _ _).mono (by omega) (by omega)
  · exact Evaluator.sound_checkHost h

/-- SPF evaluation always ends and respects its DNS budget: with enough fuel it returns one and the
same result, at most ten terms pass their lookup charge, at most eleven TXT queries and 111 queries
in all are made, and a charge that fails anywhere makes the result `PermError`. -/
theorem evaluate_respects_budget (resolver : DnsResolver) (ip : IpAddr) (helo mailFrom : Str) :
    ∃ s : EvalState,
      (∀ fuel, enoughFuel ≤ fuel → evaluateWith fuel resolver ip helo mailFrom =
        some (evaluate resolver ip helo mailFrom, s)) ∧
      s.log.countP Event.isPassedLookup ≤ 10 ∧
      s.log.countP Event.isTxt ≤ 11 ∧
      s.log.countP Event.isQuery ≤ 111 ∧
      ((∃ e ∈ s.log, e.isFailedCharge = true) →
        evaluate resolver ip helo mailFrom = .permError) := by
  have h := sound_evaluateState resolver ip helo mailFrom
  have hq := h.covered.queries
  have ht := h.covered.txts
  have htally := h.covered.tally rfl
  have hinit : EvalState.initial.queries = 0 ∧ EvalState.initial.txts = 0 ∧
      EvalState.initial.passed = 0 := ⟨rfl, rfl, rfl⟩
  have hpassed : (evaluateState resolver ip helo mailFrom).2.passed ≤ 10 := by
    rw [htally]
    exact Nat.min_le_right _ _
  refine ⟨(evaluateState resolver ip helo mailFrom).2,
    fun fuel hfuel => evaluateWith_eq resolver ip helo mailFrom hfuel, hpassed, ?_, ?_, ?_⟩
  · change (evaluateState resolver ip helo mailFrom).2.txts ≤ 11
    omega
  · change (evaluateState resolver ip helo mailFrom).2.queries ≤ 111
    omega
  · intro ho
    rcases h.overrun ho with hno | hbad
    · rcases hno with ⟨e, he, -⟩
      cases he
    · exact hbad

end Snail.Network.Spf
