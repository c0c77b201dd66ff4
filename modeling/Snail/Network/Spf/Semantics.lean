import Mathlib.Logic.Relation
import Snail.Network.Spf.Budget

/-!
# Semantics — what an SPF policy says, without counters

`Eval` is the meaning of the record published at a domain: the first directive that applies decides,
an `include` asks for the meaning of another domain, a `redirect` takes it over.  It knows neither
budgets nor an order of queries.  The evaluator is shown to agree with it whenever no charge failed.
-/

open Snail.Reasoning

namespace Snail.Network.Spf

/-! ## 1. What a mechanism tests -/

-- the two addresses agree in their first `len` bits
def SameBits {w : Nat} (net : BitVec w) (len : Nat) (ip : BitVec w) : Prop :=
  len ≤ w ∧ net.toNat / 2 ^ (w - len) = ip.toNat / 2 ^ (w - len)

-- the client lies in the network of an address of its own family
def SameNet (client net : IpAddr) (v4 v6 : Nat) : Prop :=
  match client, net with
  | .v4 c, .v4 n => SameBits n v4 c
  | .v6 c, .v6 n => SameBits n v6 c
  | _, _ => False

section

variable (ev : Evaluator)

def addresses (host : Str) : List IpAddr := answers (ev.resolver.lookupIp host)
def exchanges (domain : Str) : List MxRecord := answers (ev.resolver.lookupMx domain)
def pointers : List Str := answers (ev.resolver.reverseLookup ev.ip)
def published (domain : Str) : List Str := spfTexts (answers (ev.resolver.lookupTxt domain))

-- the domain a mechanism is about; `none` when its domain-spec has a macro error
def mechTarget (current : Str) : Mechanism → Option Str
  | .all | .ip4 .. | .ip6 .. => some current
  | .a domain .. | .mx domain .. | .ptr domain => ev.resolveTarget domain current
  | .include spec | .exists spec => ev.expand spec current

-- what a mechanism other than `include` tests of the client
def Hits : Mechanism → Str → Prop
  | .all, _ => True
  | .ip4 net len, _ => ∃ c, ev.ip = .v4 c ∧ SameBits net len c
  | .ip6 net len, _ => ∃ c, ev.ip = .v6 c ∧ SameBits net len c
  | .a _ v4 v6, target => ∃ addr ∈ addresses ev target, SameNet ev.ip addr v4 v6
  | .mx _ v4 v6, target => ∃ mx ∈ (exchanges ev target).take 10,
      ∃ addr ∈ addresses ev mx.exchange, SameNet ev.ip addr v4 v6
  | .exists _, target => addresses ev target ≠ []
  | .ptr _, target => ∃ name ∈ (pointers ev).take 10,
      ptrWithin name target = true ∧ ev.ip ∈ addresses ev name
  | .include _, _ => False

end

/-! ## 2. The meaning of a policy -/

mutual

/-- The policy of `domain` gives `result`. -/
inductive Eval (ev : Evaluator) : Str → SpfResult → Prop
  | noRecord {domain : Str} (h : published ev domain = []) : Eval ev domain .none
  | severalRecords {domain a b : Str} {l : List Str} (h : published ev domain = a :: b :: l) :
      Eval ev domain .permError
  | syntaxError {domain raw : Str} {e : NetworkError} (h : published ev domain = [raw])
      (hparse : SpfRecord.parse raw = .error e) : Eval ev domain .permError
  | matched {domain raw : Str} {record : SpfRecord} {pre post : List Directive} {d : Directive}
      (h : published ev domain = [raw]) (hparse : SpfRecord.parse raw = .ok record)
      (hsplit : record.directives = pre ++ d :: post)
      (hpre : ∀ p ∈ pre, Outcome ev domain p.mechanism .noMatch)
      (hd : Outcome ev domain d.mechanism .matched) :
      Eval ev domain (qualifierResult d.qualifier)
  | failed {domain raw : Str} {record : SpfRecord} {pre post : List Directive} {d : Directive}
      (h : published ev domain = [raw]) (hparse : SpfRecord.parse raw = .ok record)
      (hsplit : record.directives = pre ++ d :: post)
      (hpre : ∀ p ∈ pre, Outcome ev domain p.mechanism .noMatch)
      (hd : Outcome ev domain d.mechanism (.error .permError)) : Eval ev domain .permError
  | default {domain raw : Str} {record : SpfRecord} (h : published ev domain = [raw])
      (hparse : SpfRecord.parse raw = .ok record)
      (hnone : ∀ d ∈ record.directives, Outcome ev domain d.mechanism .noMatch)
      (hredirect : record.redirect = none) : Eval ev domain .neutral
  | redirectError {domain raw spec : Str} {record : SpfRecord} (h : published ev domain = [raw])
      (hparse : SpfRecord.parse raw = .ok record)
      (hnone : ∀ d ∈ record.directives, Outcome ev domain d.mechanism .noMatch)
      (hredirect : record.redirect = some spec) (hexpand : ev.expand spec domain = none) :
      Eval ev domain .permError
  | redirect {domain raw spec target : Str} {record : SpfRecord} {result : SpfResult}
      (h : published ev domain = [raw]) (hparse : SpfRecord.parse raw = .ok record)
      (hnone : ∀ d ∈ record.directives, Outcome ev domain d.mechanism .noMatch)
      (hredirect : record.redirect = some spec) (htarget : ev.expand spec domain = some target)
      (hresult : Eval ev target result) :
      Eval ev domain (if result = .none then .permError else result)

/-- A mechanism in the policy of `domain` has this outcome. -/
inductive Outcome (ev : Evaluator) : Str → Mechanism → MechOutcome → Prop
  | hit {domain target : Str} {mech : Mechanism} (ht : mechTarget ev domain mech = some target)
      (h : Hits ev mech target) : Outcome ev domain mech .matched
  | miss {domain target : Str} {mech : Mechanism} (hmech : ∀ spec, mech ≠ .include spec)
      (ht : mechTarget ev domain mech = some target) (h : ¬ Hits ev mech target) :
      Outcome ev domain mech .noMatch
  | macroError {domain : Str} {mech : Mechanism} (ht : mechTarget ev domain mech = none) :
      Outcome ev domain mech (.error .permError)
  | includePass {domain target spec : Str} (ht : ev.expand spec domain = some target)
      (h : Eval ev target .pass) : Outcome ev domain (.include spec) .matched
  | includeNoMatch {domain target spec : Str} {result : SpfResult}
      (ht : ev.expand spec domain = some target) (h : Eval ev target result)
      (hresult : result = .fail ∨ result = .softFail ∨ result = .neutral) :
      Outcome ev domain (.include spec) .noMatch
  | includeError {domain target spec : Str} {result : SpfResult}
      (ht : ev.expand spec domain = some target) (h : Eval ev target result)
      (hresult : result = .none ∨ result = .permError) :
      Outcome ev domain (.include spec) (.error .permError)

end

-- one redirect: the policy of `domain` has no directive that applies and hands over to `target`
def RedirectsTo (ev : Evaluator) (domain target : Str) : Prop :=
  ∃ raw record spec, published ev domain = [raw] ∧ SpfRecord.parse raw = .ok record ∧
    (∀ d ∈ record.directives, Outcome ev domain d.mechanism .noMatch) ∧
    record.redirect = some spec ∧ ev.expand spec domain = some target

-- the policy of `domain` holds a `+` directive that matches the client
def Authorizes (ev : Evaluator) (domain : Str) : Prop :=
  ∃ raw record d, published ev domain = [raw] ∧ SpfRecord.parse raw = .ok record ∧
    d ∈ record.directives ∧ d.qualifier = .pass ∧ Outcome ev domain d.mechanism .matched

-- a `Pass` comes from a `+` directive of the record the redirects end at
theorem Eval.authorizes {ev : Evaluator} {domain : Str} {result : SpfResult}
    (h : Eval ev domain result) (hpass : result = .pass) :
    ∃ final, Relation.ReflTransGen (RedirectsTo ev) domain final ∧ Authorizes ev final := by
  match h with
  | .noRecord _ => cases hpass
  | .severalRecords _ => cases hpass
  | .syntaxError _ _ => cases hpass
  | .failed _ _ _ _ _ => cases hpass
  | .default _ _ _ _ => cases hpass
  | .redirectError _ _ _ _ _ => cases hpass
  | @Eval.matched _ _ raw record pre post d hpub hparse hsplit hpre hd =>
    have hq : d.qualifier = .pass := by
      cases hq : d.qualifier with
      | pass => rfl
      | _ =>
        rw [hq] at hpass
        cases hpass
    have hmem : d ∈ record.directives := by
      rw [hsplit]
      simp
    exact ⟨domain, .refl, raw, record, d, hpub, hparse, hmem, hq, hd⟩
  | @Eval.redirect _ _ raw spec target record inner hpub hparse hnone hredirect htarget hinner =>
    have hp : inner = .pass := by
      by_cases hn : inner = .none
      · rw [if_pos hn] at hpass
        cases hpass
      · rw [if_neg hn] at hpass
        exact hpass
    rcases Eval.authorizes hinner hp with ⟨final, hreach, hauth⟩
    exact ⟨final, .head ⟨raw, record, spec, hpub, hparse, hnone, hredirect, htarget⟩ hreach, hauth⟩

/-! ## 3. The matchers decide the tests -/

theorem and_mask_eq_iff {w : Nat} (x y : BitVec w) (k : Nat) :
    x &&& (BitVec.allOnes w <<< k) = y &&& (BitVec.allOnes w <<< k) ↔
      x.toNat / 2 ^ k = y.toNat / 2 ^ k := by
  rw [← Nat.shiftRight_eq_div_pow, ← Nat.shiftRight_eq_div_pow, ← BitVec.toNat_ushiftRight,
    ← BitVec.toNat_ushiftRight, BitVec.toNat_inj]
  apply Iff.intro
  · intro h
    ext i hi
    have hbit := congrArg (fun z => z.getLsbD (k + i)) h
    by_cases hk : k + i < w
    · simpa [hk, hi] using hbit
    · simp [BitVec.getLsbD_of_ge _ _ (Nat.le_of_not_lt hk)]
  · intro h
    ext i hi
    by_cases hk : k ≤ i
    · have hki : k + (i - k) = i := by omega
      have hbit : (x >>> k).getLsbD (i - k) = (y >>> k).getLsbD (i - k) := by rw [h]
      rw [BitVec.getLsbD_ushiftRight, BitVec.getLsbD_ushiftRight, hki] at hbit
      simp only [BitVec.getLsbD_eq_getElem hi] at hbit
      simp [hbit]
    · have hlt : i < k := by omega
      simp [hlt]

theorem cidr4_iff (net : Ipv4Addr) (len : Nat) (ip : Ipv4Addr) :
    cidr4 net len ip = true ↔ SameBits net len ip := by
  unfold cidr4 SameBits
  by_cases h0 : len = 0
  · have hn := net.isLt
    have hi := ip.isLt
    simp [h0]
    omega
  · by_cases hbig : len > 32
    · simp [h0, hbig]
    · simp only [h0, hbig, if_false, beq_iff_eq, and_mask_eq_iff]
      omega

theorem cidr6_iff (net : Ipv6Addr) (len : Nat) (ip : Ipv6Addr) :
    cidr6 net len ip = true ↔ SameBits net len ip := by
  unfold cidr6 SameBits
  by_cases h0 : len = 0
  · have hn := net.isLt
    have hi := ip.isLt
    simp [h0]
    omega
  · by_cases hbig : len > 128
    · simp [h0, hbig]
    · simp only [h0, hbig, if_false, beq_iff_eq, and_mask_eq_iff]
      omega

theorem ipInNet_iff (client net : IpAddr) (v4 v6 : Nat) :
    ipInNet client net v4 v6 = true ↔ SameNet client net v4 v6 := by
  cases client with
  | v4 c =>
    cases net with
    | v4 n => exact cidr4_iff n v4 c
    | v6 n => simp [ipInNet, SameNet]
  | v6 c =>
    cases net with
    | v4 n => simp [ipInNet, SameNet]
    | v6 n => exact cidr6_iff n v6 c

/-! ## 4. Evaluations in which no charge failed -/

theorem overrun_of_charge_failed {s : EvalState} (h : ¬ s.lookups + 1 ≤ maxLookups) :
    s.chargeLookup.2.Overrun := by
  refine ⟨.chargeLookup false, ?_, rfl⟩
  simp [EvalState.chargeLookup, h]

theorem whenVoid_eq {α : Type} {s : EvalState} {answer : List α}
    {k : EvalState → MechOutcome × EvalState} (h : ¬ (s.whenVoid answer k).2.Overrun) :
    ∃ s', s.whenVoid answer k = k s' := by
  unfold EvalState.whenVoid at h ⊢
  split
  · rename_i hempty
    rw [if_pos hempty] at h
    by_cases hv : s.void + 1 ≤ maxVoid
    · have hpass : s.chargeVoid.1 = true := by simp [EvalState.chargeVoid, hv]
      simp only [hpass, if_true]
      exact ⟨_, rfl⟩
    · have hpass : s.chargeVoid.1 = false := by simp [EvalState.chargeVoid, hv]
      simp only [hpass, Bool.false_eq_true, if_false] at h
      refine absurd ⟨.chargeVoid false, ?_, rfl⟩ h
      simp [EvalState.chargeVoid, hv]
  · exact ⟨s, rfl⟩

section Matchers

variable {ev : Evaluator} {current : Str}

theorem outcome_ofBool {mech : Mechanism} {target : Str} {b : Bool}
    (hmech : ∀ spec, mech ≠ .include spec) (ht : mechTarget ev current mech = some target)
    (hb : b = true ↔ Hits ev mech target) : Outcome ev current mech (.ofBool b) := by
  cases b with
  | true => exact .hit ht (hb.mp rfl)
  | false => exact .miss hmech ht fun hits => by cases hb.mpr hits

-- a querying mechanism whose answer decides its test has the outcome the policy gives it
theorem outcome_whenCharged (mech : Mechanism) {s : EvalState}
    {k : Str → EvalState → MechOutcome × EvalState} (hmech : ∀ spec, mech ≠ .include spec)
    (hk : ∀ t s', ¬ (k t s').2.Overrun →
      ∃ b, (k t s').1 = .ofBool b ∧ (b = true ↔ Hits ev mech t))
    (hno : ¬ (s.whenCharged (mechTarget ev current mech) mechError k).2.Overrun) :
    Outcome ev current mech (s.whenCharged (mechTarget ev current mech) mechError k).1 := by
  rcases s.whenCharged_cases (mechTarget ev current mech) mechError k with
    ⟨hc, he⟩ | ⟨-, ht, he⟩ | ⟨-, t, ht, he⟩
  · rw [he] at hno
    exact absurd (overrun_of_charge_failed hc) hno
  · rw [he]
    exact .macroError ht
  · rw [he] at hno ⊢
    rcases hk t _ hno with ⟨b, hb, hiff⟩
    rw [hb]
    exact outcome_ofBool hmech ht hiff

theorem Evaluator.mxHosts_fst (v4 v6 : Nat) (mxs : List MxRecord) (s : EvalState) :
    (ev.mxHosts v4 v6 mxs s).1 = .ofBool (mxs.any fun mx =>
      (addresses ev mx.exchange).any fun a => ipInNet ev.ip a v4 v6) := by
  induction mxs generalizing s with
  | nil => rfl
  | cons mx rest ih =>
    rw [Evaluator.mxHosts, List.any_cons]
    by_cases h : ((ev.lookupIp mx.exchange s).1.any fun a => ipInNet ev.ip a v4 v6) = true
    · have h' : ((addresses ev mx.exchange).any fun a => ipInNet ev.ip a v4 v6) = true := h
      simp only [if_pos h, h', Bool.true_or]
      rfl
    · have h' : ((addresses ev mx.exchange).any fun a => ipInNet ev.ip a v4 v6) = false :=
        Bool.eq_false_iff.mpr h
      simp only [if_neg h, h', Bool.false_or, ih]

theorem Evaluator.ptrNames_fst (target : Str) (names : List Str) (s : EvalState) :
    (ev.ptrNames target names s).1 = .ofBool (names.any fun name =>
      ptrWithin name target && (addresses ev name).contains ev.ip) := by
  induction names generalizing s with
  | nil => rfl
  | cons name rest ih =>
    rw [Evaluator.ptrNames, List.any_cons]
    by_cases hw : ptrWithin name target = true
    · by_cases h : (ev.lookupIp name s).1.contains ev.ip = true
      · have h' : (addresses ev name).contains ev.ip = true := h
        simp only [if_pos h, hw, h', Bool.and_self, Bool.true_or]
        rfl
      · have h' : (addresses ev name).contains ev.ip = false := Bool.eq_false_iff.mpr h
        simp only [if_pos hw, if_neg h, h', Bool.and_false, Bool.false_or, ih]
    · have hw' : ptrWithin name target = false := Bool.eq_false_iff.mpr hw
      simp only [hw', Bool.false_eq_true, if_false, Bool.false_and, Bool.false_or, ih]

theorem Evaluator.outcome_aMatch {domain : Option Str} {v4 v6 : Nat} {s : EvalState}
    (hno : ¬ (ev.aMatch domain current v4 v6 s).2.Overrun) :
    Outcome ev current (.a domain v4 v6) (ev.aMatch domain current v4 v6 s).1 := by
  refine outcome_whenCharged (.a domain v4 v6) (fun _ => by simp) ?_ hno
  intro t s' ho
  rcases whenVoid_eq ho with ⟨s'', he⟩
  refine ⟨_, congrArg Prod.fst he, ?_⟩
  simp only [List.any_eq_true, ipInNet_iff]
  rfl

theorem Evaluator.outcome_mxMatch {domain : Option Str} {v4 v6 : Nat} {s : EvalState}
    (hno : ¬ (ev.mxMatch domain current v4 v6 s).2.Overrun) :
    Outcome ev current (.mx domain v4 v6) (ev.mxMatch domain current v4 v6 s).1 := by
  refine outcome_whenCharged (.mx domain v4 v6) (fun _ => by simp) ?_ hno
  intro t s' ho
  rcases whenVoid_eq ho with ⟨s'', he⟩
  refine ⟨_, (congrArg Prod.fst he).trans (ev.mxHosts_fst v4 v6 _ s''), ?_⟩
  simp only [List.any_eq_true, ipInNet_iff]
  rfl

theorem Evaluator.outcome_existsMatch {spec : Str} {s : EvalState}
    (hno : ¬ (ev.existsMatch spec current s).2.Overrun) :
    Outcome ev current (.exists spec) (ev.existsMatch spec current s).1 := by
  refine outcome_whenCharged (.exists spec) (fun _ => by simp) ?_ hno
  intro t s' ho
  rcases whenVoid_eq ho with ⟨s'', he⟩
  refine ⟨_, congrArg Prod.fst he, ?_⟩
  simp [Hits, addresses, Evaluator.lookupIp]

theorem Evaluator.outcome_ptrMatch {domain : Option Str} {s : EvalState}
    (hno : ¬ (ev.ptrMatch domain current s).2.Overrun) :
    Outcome ev current (.ptr domain) (ev.ptrMatch domain current s).1 := by
  refine outcome_whenCharged (.ptr domain) (fun _ => by simp) ?_ hno
  intro t s' ho
  rcases whenVoid_eq ho with ⟨s'', he⟩
  refine ⟨_, (congrArg Prod.fst he).trans (ev.ptrNames_fst t _ s''), ?_⟩
  simp only [List.any_eq_true, Bool.and_eq_true, List.contains_iff_mem]
  rfl

end Matchers

/-! ## 5. Agreement -/

-- the evaluator has no transient errors
theorem Eval.ne_tempError {ev : Evaluator} {domain : Str} {result : SpfResult}
    (h : Eval ev domain result) : result ≠ .tempError := by
  match h with
  | .noRecord _ => simp
  | .severalRecords _ => simp
  | .syntaxError _ _ => simp
  | .failed _ _ _ _ _ => simp
  | .default _ _ _ _ => simp
  | .redirectError _ _ _ _ _ => simp
  | @Eval.matched _ _ _ _ _ _ d _ _ _ _ _ => cases d.qualifier <;> simp [qualifierResult]
  | @Eval.redirect _ _ _ _ _ _ inner _ _ _ _ _ hinner =>
    have hne := Eval.ne_tempError hinner
    by_cases hn : inner = .none
    · simp [hn]
    · simpa [hn] using hne

section Agreement

variable {ev : Evaluator} {checkHost : CheckHost}

theorem Evaluator.outcome_includeMatch
    (hrec : ∀ d s r, checkHost d s = some r → ¬ r.2.Overrun → Eval ev d r.1) {spec current : Str}
    {s : EvalState} {r : MechOutcome × EvalState}
    (h : ev.includeMatch checkHost spec current s = some r) (hno : ¬ r.2.Overrun) :
    Outcome ev current (.include spec) r.1 := by
  unfold Evaluator.includeMatch at h
  rcases s.whenCharged_cases (ev.expand spec current) (fun r s => some (mechError r s))
    (fun target s => (checkHost target s).map fun r => (includeOutcome r.1, r.2)) with
    ⟨hc, he⟩ | ⟨-, ht, he⟩ | ⟨-, target, ht, he⟩
  · rw [he] at h
    cases h
    exact absurd (overrun_of_charge_failed hc) hno
  · rw [he] at h
    cases h
    exact .macroError ht
  · rw [he] at h
    rcases Option.map_eq_some_iff.mp h with ⟨⟨inner, s'⟩, hinner, hr⟩
    cases hr
    have heval : Eval ev target inner := hrec target _ _ hinner hno
    cases inner with
    | pass => exact .includePass ht heval
    | fail => exact .includeNoMatch ht heval (.inl rfl)
    | softFail => exact .includeNoMatch ht heval (.inr (.inl rfl))
    | neutral => exact .includeNoMatch ht heval (.inr (.inr rfl))
    | none => exact .includeError ht heval (.inl rfl)
    | tempError => exact absurd rfl heval.ne_tempError
    | permError => exact .includeError ht heval (.inr rfl)

theorem Evaluator.outcome_matches
    (hrec : ∀ d s r, checkHost d s = some r → ¬ r.2.Overrun → Eval ev d r.1) {mech : Mechanism}
    {current : Str} {s : EvalState} {r : MechOutcome × EvalState}
    (h : ev.matches checkHost mech current s = some r) (hno : ¬ r.2.Overrun) :
    Outcome ev current mech r.1 := by
  cases mech with
  | all =>
    cases h
    exact .hit rfl trivial
  | ip4 net len =>
    simp only [Evaluator.matches] at h
    cases hip : ev.ip with
    | v4 c =>
      rw [hip] at h
      cases h
      refine outcome_ofBool (by simp) rfl ?_
      simp [Hits, hip, cidr4_iff]
    | v6 c =>
      rw [hip] at h
      cases h
      exact .miss (by simp) rfl (by simp [Hits, hip])
  | ip6 net len =>
    simp only [Evaluator.matches] at h
    cases hip : ev.ip with
    | v4 c =>
      rw [hip] at h
      cases h
      exact .miss (by simp) rfl (by simp [Hits, hip])
    | v6 c =>
      rw [hip] at h
      cases h
      refine outcome_ofBool (by simp) rfl ?_
      simp [Hits, hip, cidr6_iff]
  | a domain v4 v6 =>
    cases h
    exact outcome_aMatch hno
  | mx domain v4 v6 =>
    cases h
    exact outcome_mxMatch hno
  | «include» spec => exact outcome_includeMatch hrec h hno
  | «exists» spec =>
    cases h
    exact outcome_existsMatch hno
  | ptr domain =>
    cases h
    exact outcome_ptrMatch hno

/-- What ended the loop over the directives. -/
inductive Ended (ev : Evaluator) (domain : Str) (l : List Directive) : Option SpfResult → Prop
  | matched {pre post : List Directive} {d : Directive} (hsplit : l = pre ++ d :: post)
      (hpre : ∀ p ∈ pre, Outcome ev domain p.mechanism .noMatch)
      (hd : Outcome ev domain d.mechanism .matched) :
      Ended ev domain l (qualifierResult d.qualifier)
  | failed {pre post : List Directive} {d : Directive} (hsplit : l = pre ++ d :: post)
      (hpre : ∀ p ∈ pre, Outcome ev domain p.mechanism .noMatch)
      (hd : Outcome ev domain d.mechanism (.error .permError)) :
      Ended ev domain l (some .permError)
  | exhausted (h : ∀ d ∈ l, Outcome ev domain d.mechanism .noMatch) : Ended ev domain l none

theorem Ended.cons {domain : Str} {d : Directive} {l : List Directive} {r : Option SpfResult}
    (hd : Outcome ev domain d.mechanism .noMatch) (h : Ended ev domain l r) :
    Ended ev domain (d :: l) r := by
  cases h with
  | @matched pre post e hsplit hpre he =>
    have hpre' : ∀ p ∈ d :: pre, Outcome ev domain p.mechanism .noMatch :=
      List.forall_mem_cons.mpr ⟨hd, hpre⟩
    exact @Ended.matched _ _ _ (d :: pre) post e (by rw [hsplit]; rfl) hpre' he
  | @failed pre post e hsplit hpre he =>
    have hpre' : ∀ p ∈ d :: pre, Outcome ev domain p.mechanism .noMatch :=
      List.forall_mem_cons.mpr ⟨hd, hpre⟩
    exact @Ended.failed _ _ _ (d :: pre) post e (by rw [hsplit]; rfl) hpre' he
  | exhausted h => exact .exhausted (List.forall_mem_cons.mpr ⟨hd, h⟩)

theorem Outcome.error_eq {domain : Str} {mech : Mechanism} {r : SpfResult}
    (h : Outcome ev domain mech (.error r)) : r = .permError := by
  cases h <;> rfl

theorem Evaluator.ended_runDirectives
    (hsound : ∀ d s r, checkHost d s = some r → Sound .permError 1 1 s r)
    (hrec : ∀ d s r, checkHost d s = some r → ¬ r.2.Overrun → Eval ev d r.1) {current : Str}
    {l : List Directive} {s : EvalState} {r : Option SpfResult × EvalState}
    (h : ev.runDirectives checkHost current l s = some r) (hno : ¬ r.2.Overrun) :
    Ended ev current l r.1 := by
  induction l generalizing s with
  | nil =>
    cases h
    exact .exhausted (by simp)
  | cons d rest ih =>
    rw [Evaluator.runDirectives] at h
    cases hm : ev.matches checkHost d.mechanism current s with
    | none => simp [hm] at h
    | some out =>
      rcases out with ⟨outcome, s'⟩
      rw [hm] at h
      cases outcome with
      | matched =>
        cases h
        exact @Ended.matched _ _ _ [] rest d rfl (by simp) (outcome_matches hrec hm hno)
      | noMatch =>
        -- a charge that failed here would still stand in the final log
        have hs := sound_runDirectives hsound h
        have hd := outcome_matches hrec hm fun ho => hno (hs.covered.overrun ho)
        exact (ih h).cons hd
      | error e =>
        cases h
        have hd := outcome_matches hrec hm hno
        have he : e = .permError := hd.error_eq
        subst he
        exact @Ended.failed _ _ _ [] rest d rfl (by simp) hd

theorem Evaluator.eval_applyRedirect
    (hrec : ∀ d s r, checkHost d s = some r → ¬ r.2.Overrun → Eval ev d r.1) {domain raw : Str}
    {record : SpfRecord} {s : EvalState} {r : SpfResult × EvalState}
    (hpub : published ev domain = [raw]) (hparse : SpfRecord.parse raw = .ok record)
    (hnone : ∀ d ∈ record.directives, Outcome ev domain d.mechanism .noMatch)
    (h : ev.applyRedirect checkHost record.redirect domain s = some r) (hno : ¬ r.2.Overrun) :
    Eval ev domain r.1 := by
  cases hredirect : record.redirect with
  | none =>
    rw [hredirect] at h
    cases h
    exact .default hpub hparse hnone hredirect
  | some spec =>
    rw [hredirect] at h
    simp only [Evaluator.applyRedirect] at h
    rcases s.whenCharged_cases (ev.expand spec domain) (fun r s => some (r, s))
      (fun target s => (checkHost target s).map fun r => (redirectResult r.1, r.2)) with
      ⟨hc, he⟩ | ⟨-, ht, he⟩ | ⟨-, target, ht, he⟩
    · rw [he] at h
      cases h
      exact absurd (overrun_of_charge_failed hc) hno
    · rw [he] at h
      cases h
      exact .redirectError hpub hparse hnone hredirect ht
    · rw [he] at h
      rcases Option.map_eq_some_iff.mp h with ⟨⟨inner, s'⟩, hinner, hr⟩
      cases hr
      have heval : Eval ev target inner := hrec target _ _ hinner hno
      have hred := Eval.redirect hpub hparse hnone hredirect ht heval
      cases inner <;> exact hred

-- the evaluator agrees with the policy's meaning as long as no charge fails
theorem Evaluator.eval_checkHost {fuel : Nat} {domain : Str} {s : EvalState}
    {r : SpfResult × EvalState} (h : ev.checkHost fuel domain s = some r) (hno : ¬ r.2.Overrun) :
    Eval ev domain r.1 := by
  induction fuel generalizing domain s r with
  | zero => cases h
  | succ fuel ih =>
    have hsound : ∀ d s r, ev.checkHost fuel d s = some r → Sound .permError 1 1 s r :=
      fun d s r hr => sound_checkHost hr
    have hrec : ∀ d s r, ev.checkHost fuel d s = some r → ¬ r.2.Overrun → Eval ev d r.1 :=
      fun d s r hr ho => ih hr ho
    rcases checkHost_cases h with
      ⟨htexts, rfl⟩ | ⟨⟨a, b, l, htexts⟩, rfl⟩ | ⟨raw, htexts, ⟨⟨e, hp⟩, rfl⟩ | ⟨record, hp, hrun⟩⟩
    · exact .noRecord htexts
    · exact .severalRecords htexts
    · exact .syntaxError htexts hp
    · rcases hrun with ⟨res, s', hdir, rfl⟩ | ⟨s', hdir, hred⟩
      · cases ended_runDirectives hsound hrec hdir hno with
        | matched hsplit hpre hd => exact .matched htexts hp hsplit hpre hd
        | failed hsplit hpre hd => exact .failed htexts hp hsplit hpre hd
      · have hs := sound_applyRedirect hsound hred
        cases ended_runDirectives hsound hrec hdir fun ho => hno (hs.covered.overrun ho) with
        | exhausted hnone =>
          exact eval_applyRedirect hrec htexts hp hnone hred hno

end Agreement

/-! ## 6. The evaluation -/

/-- Whose policy is asked: the sender's domain or, without a well-formed sender, the greeting's. -/
inductive Identity (helo mailFrom : Str) : Str → Str → Prop
  | sender {l d : Str} (h : mailFrom = l ++ '@' :: d) (hat : '@' ∉ d) (hl : l ≠ []) (hd : d ≠ []) :
      Identity helo mailFrom l d
  | greeting (h : ∀ l d, mailFrom = l ++ '@' :: d → '@' ∉ d → l = [] ∨ d = []) :
      Identity helo mailFrom "postmaster".toList helo

theorem Identity.checkedIdentity_eq {helo mailFrom localPart domain : Str}
    (h : Identity helo mailFrom localPart domain) :
    checkedIdentity helo mailFrom = (localPart, domain) := by
  unfold checkedIdentity
  cases h with
  | sender h hat hl hd => simp [h, rsplitOnce_append_cons hat, hl, hd]
  | greeting h =>
    cases hsplit : rsplitOnce '@' mailFrom with
    | none => rfl
    | some p =>
      rcases rsplitOnce_eq_some_iff.mp hsplit with ⟨hm, hat⟩
      have hempty : ¬ (p.1 ≠ [] ∧ p.2 ≠ []) := by
        rcases h p.1 p.2 hm hat with he | he
        · exact fun hn => hn.1 he
        · exact fun hn => hn.2 he
      exact if_neg hempty

-- only a domain that publishes no policy has none
theorem Eval.published_eq_nil {ev : Evaluator} {domain : Str} {result : SpfResult}
    (h : Eval ev domain result) (hnone : result = .none) : published ev domain = [] := by
  cases h with
  | noRecord h => exact h
  | @matched _ _ _ _ _ d _ _ _ _ _ => cases hq : d.qualifier <;> simp [hq, qualifierResult] at hnone
  | redirect _ _ _ _ _ _ => split at hnone <;> simp_all
  | _ => cases hnone

/-- SPF evaluation agrees with the meaning of the policy unless a budget ran out: the empty domain
has no result, any other gets what its policy says, and a `Pass` rests on a `+` directive, in the
record the redirects end at, that matches the client. -/
theorem evaluate_agrees_with_policy (resolver : DnsResolver) (ip : IpAddr)
    (helo mailFrom localPart domain : Str) (hid : Identity helo mailFrom localPart domain)
    (hno : ¬ (evaluateState resolver ip helo mailFrom).2.Overrun) :
    (domain = [] → evaluate resolver ip helo mailFrom = .none) ∧
    (domain ≠ [] →
      Eval ⟨resolver, ip, localPart, domain, helo⟩ domain (evaluate resolver ip helo mailFrom)) ∧
    (evaluate resolver ip helo mailFrom = .pass → ∃ final,
      Relation.ReflTransGen (RedirectsTo ⟨resolver, ip, localPart, domain, helo⟩) domain final ∧
      Authorizes ⟨resolver, ip, localPart, domain, helo⟩ final) := by
  have h := evaluateWith_eq resolver ip helo mailFrom (le_refl enoughFuel)
  unfold evaluateWith at h
  rw [hid.checkedIdentity_eq] at h
  simp only at h
  by_cases hd : domain = []
  · rw [if_pos hd] at h
    have hnone : evaluate resolver ip helo mailFrom = .none :=
      congrArg Prod.fst (Option.some.inj h).symm
    refine ⟨fun _ => hnone, fun hne => absurd hd hne, fun hpass => ?_⟩
    rw [hnone] at hpass
    cases hpass
  · rw [if_neg hd] at h
    have heval := Evaluator.eval_checkHost h hno
    exact ⟨fun he => absurd he hd, fun _ => heval, heval.authorizes⟩

-- a resolver that knows one policy
def policyAt (name policy : Str) : DnsResolver where
  lookupMx _ := .ok []
  lookupIp _ := .ok []
  lookupTxt n := if n = name then .ok [policy] else .ok []
  reverseLookup _ := .ok []

theorem evaluate_agrees_with_policy_pass :
    let resolver := policyAt "example.com".toList "v=spf1 ip4:192.0.2.0/24 -all".toList
    let ip := IpAddr.v4 (192 * 2 ^ 24 + 2 * 2 ^ 8 + 1)
    evaluate resolver ip "mx".toList "joe@example.com".toList = .pass ∧ ∃ final,
      Relation.ReflTransGen
        (RedirectsTo ⟨resolver, ip, "joe".toList, "example.com".toList, "mx".toList⟩)
        "example.com".toList final ∧
      Authorizes ⟨resolver, ip, "joe".toList, "example.com".toList, "mx".toList⟩ final := by
  intro resolver ip
  have hpass : evaluate resolver ip "mx".toList "joe@example.com".toList = .pass := by
    decide +kernel
  have hid : Identity "mx".toList "joe@example.com".toList "joe".toList "example.com".toList :=
    .sender rfl (by decide) (by decide) (by decide)
  have hno : ¬ (evaluateState resolver ip "mx".toList "joe@example.com".toList).2.Overrun := by
    unfold EvalState.Overrun
    decide +kernel
  exact ⟨hpass, (evaluate_agrees_with_policy resolver ip _ _ _ _ hid hno).2.2 hpass⟩

/-- With a null sender and an empty greeting nothing is looked up, so that a policy published at the
empty name is not what decides. -/
theorem evaluate_empty_domain_disagrees :
    let resolver := policyAt [] "v=spf1 +all".toList
    let ip := IpAddr.v4 0
    Identity [] [] "postmaster".toList [] ∧
    (evaluateState resolver ip [] []).2.log = [] ∧
    ¬ Eval ⟨resolver, ip, "postmaster".toList, [], []⟩ [] (evaluate resolver ip [] []) := by
  intro resolver ip
  refine ⟨.greeting (fun l d h _ => by cases l <;> cases h), by decide +kernel, fun h => ?_⟩
  have hnone : evaluate resolver ip [] [] = .none := by decide +kernel
  have hpub := h.published_eq_nil hnone
  revert hpub
  decide +kernel

end Snail.Network.Spf
