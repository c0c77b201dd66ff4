import Mathlib.Data.List.AList
import Mathlib.Data.List.MinMax
import Snail.Network.MtaSts.Policy
import Snail.Reasoning.Clock

/-!
# Resolver — the cache of MTA-STS policies

`MtaStsResolver` of `crates/network/src/mta_sts/mod.rs`.  The calls come one after another; each
meets DNS answers, a fetch and clock readings of its own.  The HTTPS exchange of `fetch_policy`
enters as its outcome.
-/

open Snail.Reasoning

namespace Snail.Network

/-! ## 1. The cache -/

def maxCache : Nat := 4096

def negativeTtl : Duration := .fromSecs 600

-- instants are nanoseconds of a clock that never goes back
structure CacheEntry where
  id : Option Str
  policy : Option MtaStsPolicy
  fetched : Nat
  ttl : Duration
  deriving DecidableEq, Repr

-- `elapsed` is zero for a point in time that lies ahead
def CacheEntry.isFresh (e : CacheEntry) (now : Nat) : Bool := now - e.fetched < e.ttl

abbrev StsCache := AList fun _ : Str => CacheEntry

-- of several oldest entries the first goes; the order is that of the map
def StsCache.evictOldest (cache : StsCache) : StsCache :=
  (cache.entries.argmin fun e => e.2.fetched).elim cache fun e => cache.erase e.1

def StsCache.store (cache : StsCache) (domain : Str) (entry : CacheEntry) : StsCache :=
  let cache := if cache.entries.length ≥ maxCache ∧ domain ∉ cache then cache.evictOldest else cache
  cache.insert domain entry

def StsCache.fresh (cache : StsCache) (domain : Str) (now : Nat) : Option CacheEntry :=
  (cache.lookup domain).filter fun e => e.isFresh now

def StsCache.cachedPolicy (cache : StsCache) (domain : Str) (now : Nat) :
    Option MtaStsPolicy :=
  (cache.fresh domain now).bind CacheEntry.policy

/-! ## 2. One call -/

/-- What a call of `policy_for` is made with and meets: the clock is read at the first look into the
cache, at the second one behind a failed fetch, and when an entry is stored. -/
structure PolicyCall where
  domain : Str
  lookupTxt : Str → Except NetworkError (List Str)
  fetchPolicy : Str → Except NetworkError Str
  checked : Nat
  rechecked : Nat
  stored : Nat

-- the domain as the cache knows it
def PolicyCall.key (call : PolicyCall) : Str := toAsciiLowercase (trimEndMatches '.' call.domain)

def PolicyCall.discoverId (call : PolicyCall) : Option Str :=
  (call.lookupTxt ("_mta-sts.".toList ++ call.key)).toOption.bind fun txts =>
    txts.findSome? parseStsTxt

def PolicyCall.fetchAndParse (call : PolicyCall) : Except NetworkError MtaStsPolicy :=
  call.fetchPolicy call.key >>= MtaStsPolicy.parse

-- what a fresh entry answers, if it still applies to the id discovered
def CacheEntry.answer (e : CacheEntry) : Option Str → Option (Option MtaStsPolicy)
  | some txtId => if e.id = some txtId then some e.policy else none
  | none => if e.id = none ∧ e.policy = none then some none else none

def StsCache.reused (cache : StsCache) (call : PolicyCall) : Option (Option MtaStsPolicy) :=
  (cache.fresh call.key call.checked).bind fun e => e.answer call.discoverId

def negativeEntry (now : Nat) : CacheEntry := ⟨none, none, now, negativeTtl⟩

def positiveEntry (id : Str) (policy : MtaStsPolicy) (now : Nat) : CacheEntry :=
  ⟨some id, some policy, now, .fromSecs (max policy.maxAge 1)⟩

/-- `policy_for`. -/
def StsCache.policyFor (cache : StsCache) (call : PolicyCall) : Option MtaStsPolicy × StsCache :=
  match cache.reused call with
  | some answer => (answer, cache)
  | none =>
      match call.discoverId with
      | none => (none, cache.store call.key (negativeEntry call.stored))
      | some id =>
          match call.fetchAndParse with
          | .ok parsed => (some parsed, cache.store call.key (positiveEntry id parsed call.stored))
          | .error _ =>
              match cache.cachedPolicy call.key call.rechecked with
              | some cached => (some cached, cache)
              | none => (none, cache.store call.key (negativeEntry call.stored))

-- the policy that a call returns from a fetch of its own
def StsCache.fetched (cache : StsCache) (call : PolicyCall) : Option MtaStsPolicy :=
  if (cache.reused call).isSome then none
  else call.discoverId.bind fun _ => call.fetchAndParse.toOption

/-! ## 3. Below the cap -/

section
variable {cache : StsCache} {call : PolicyCall} {domain : Str}

theorem fresh_of_lookup {entry : CacheEntry} {now : Nat}
    (hentry : cache.lookup domain = some entry) (hfresh : entry.isFresh now = true) :
    cache.fresh domain now = some entry := by
  unfold StsCache.fresh
  rw [hentry, Option.filter_some, if_pos hfresh]

theorem store_of_lt (entry : CacheEntry)
    (h : domain ∉ cache → cache.entries.length < maxCache) :
    cache.store domain entry = cache.insert domain entry := by
  unfold StsCache.store
  simp only
  split
  · rename_i hfull
    have hlt := h hfull.2
    omega
  · rfl

-- a call leaves the cache as it is, or stores one entry under its own key
theorem policyFor_snd (cache : StsCache) (call : PolicyCall) :
    (cache.policyFor call).2 = cache ∨
      ∃ entry, (cache.policyFor call).2 = cache.store call.key entry := by
  unfold StsCache.policyFor
  split
  · exact .inl rfl
  · split
    · exact .inr ⟨_, rfl⟩
    · split
      · exact .inr ⟨_, rfl⟩
      · split
        · exact .inl rfl
        · exact .inr ⟨_, rfl⟩

theorem lookup_policyFor_of_ne (hroom : call.key ∉ cache → cache.entries.length < maxCache)
    (hne : domain ≠ call.key) : (cache.policyFor call).2.lookup domain = cache.lookup domain := by
  rcases policyFor_snd cache call with h | ⟨entry, h⟩
  · rw [h]
  · rw [h, store_of_lt entry hroom, AList.lookup_insert_ne hne]

theorem policyFor_of_fetched {policy : MtaStsPolicy} (h : cache.fetched call = some policy) :
    ∃ id, call.discoverId = some id ∧ cache.policyFor call =
      (some policy, cache.store call.key (positiveEntry id policy call.stored)) := by
  unfold StsCache.fetched at h
  split at h
  · cases h
  · rename_i hreused
    rcases Option.bind_eq_some_iff.mp h with ⟨id, hid, hparsed⟩
    have hnone : cache.reused call = none := by simpa using hreused
    refine ⟨id, hid, ?_⟩
    unfold StsCache.policyFor
    rw [hnone, hid]
    cases hfetch : call.fetchAndParse with
    | error e =>
      rw [hfetch] at hparsed
      cases hparsed
    | ok parsed =>
      rw [hfetch] at hparsed
      cases hparsed
      rfl

/-- A call that meets an unexpired policy, and whose discovery finds an id: without a fetch of its
own it returns the cached policy and leaves the cache alone. -/
theorem policyFor_of_fresh {entry : CacheEntry} {policy : MtaStsPolicy}
    (hentry : cache.lookup call.key = some entry) (hpolicy : entry.policy = some policy)
    (hchecked : entry.isFresh call.checked = true)
    (hrechecked : entry.isFresh call.rechecked = true) (hid : call.discoverId ≠ none)
    (hfetched : cache.fetched call = none) : cache.policyFor call = (some policy, cache) := by
  rcases Option.ne_none_iff_exists'.mp hid with ⟨id, hid⟩
  unfold StsCache.policyFor
  unfold StsCache.fetched at hfetched
  have hreused : cache.reused call = none ∨ cache.reused call = some (some policy) := by
    unfold StsCache.reused
    rw [fresh_of_lookup hentry hchecked, hid, Option.bind_some, CacheEntry.answer, hpolicy]
    split
    · exact .inr rfl
    · exact .inl rfl
  rcases hreused with hreused | hreused
  · rw [hreused] at hfetched ⊢
    rw [hid, Option.bind_some] at hfetched
    have hcached : cache.cachedPolicy call.key call.rechecked = some policy := by
      unfold StsCache.cachedPolicy
      rw [fresh_of_lookup hentry hrechecked, Option.bind_some, hpolicy]
    cases hfetch : call.fetchAndParse with
    | ok parsed =>
      rw [hfetch] at hfetched
      cases hfetched
    | error e =>
      rw [hid, hcached]
  · rw [hreused]

end

/-! ## 4. Runs -/

def runPolicies (calls : List PolicyCall) : StsCache :=
  calls.foldl (fun cache call => (cache.policyFor call).2) ∅

theorem runPolicies_concat (calls : List PolicyCall) (call : PolicyCall) :
    runPolicies (calls ++ [call]) = ((runPolicies calls).policyFor call).2 := by
  unfold runPolicies
  rw [List.foldl_append]
  rfl

-- the different domains that were asked for
def domainCount (calls : List PolicyCall) : Nat := (calls.map PolicyCall.key).dedup.length

theorem mem_of_mem_store {cache : StsCache} {domain other : Str} {entry : CacheEntry}
    (h : other ∈ cache.store domain entry) : other = domain ∨ other ∈ cache := by
  unfold StsCache.store at h
  rcases (AList.mem_insert _).mp h with h | h
  · exact .inl h
  · right
    split at h
    · unfold StsCache.evictOldest at h
      cases hmin : cache.entries.argmin (fun e => e.2.fetched) with
      | none =>
        rw [hmin] at h
        exact h
      | some e =>
        rw [hmin] at h
        exact (AList.mem_erase.mp h).2
    · exact h

theorem mem_of_mem_runPolicies {calls : List PolicyCall} {domain : Str}
    (h : domain ∈ runPolicies calls) : domain ∈ calls.map PolicyCall.key := by
  induction calls using List.reverseRecOn with
  | nil => cases h
  | append_singleton calls call ih =>
    rw [runPolicies_concat] at h
    rw [List.map_append, List.mem_append]
    rcases policyFor_snd (runPolicies calls) call with hsame | ⟨entry, hstore⟩
    · rw [hsame] at h
      exact .inl (ih h)
    · rw [hstore] at h
      rcases mem_of_mem_store h with rfl | h
      · exact .inr (List.mem_singleton.mpr rfl)
      · exact .inl (ih h)

-- with fewer domains than the cap, nothing is ever evicted
theorem length_runPolicies_lt {calls rest : List PolicyCall}
    (h : domainCount (calls ++ rest) < maxCache) :
    (runPolicies calls).entries.length < maxCache := by
  have hsub : (runPolicies calls).keys ⊆ ((calls ++ rest).map PolicyCall.key).dedup := by
    intro domain hdomain
    rw [List.mem_dedup, List.map_append, List.mem_append]
    exact .inl (mem_of_mem_runPolicies hdomain)
  have hle := ((runPolicies calls).keys_nodup.subperm hsub).length_le
  have hkeys : (runPolicies calls).keys.length = (runPolicies calls).entries.length :=
    List.length_map ..
  unfold domainCount at h
  omega

/-- The clock readings of a sequence of calls. -/
structure ClockOrder (calls : List PolicyCall) : Prop where
  within : ∀ call ∈ calls, call.checked ≤ call.rechecked ∧ call.rechecked ≤ call.stored
  across : calls.Pairwise fun earlier later => earlier.stored ≤ later.checked

section
variable {before between : List PolicyCall} {first last : PolicyCall} {policy : MtaStsPolicy}

-- a call for the domain between a fetch and the call in question changes nothing
def Undisturbed (before : List PolicyCall) (first : PolicyCall) (between : List PolicyCall) :
    Prop :=
  ∀ pre call post, between = pre ++ call :: post → call.key = first.key →
    call.discoverId ≠ none ∧ (runPolicies (before ++ first :: pre)).fetched call = none

theorem lookup_of_undisturbed {entry : CacheEntry}
    (hroom : ∀ pre post, between = pre ++ post →
      (runPolicies (before ++ first :: pre)).entries.length < maxCache)
    (hstored : (runPolicies (before ++ [first])).lookup first.key = some entry)
    (hpolicy : entry.policy = some policy)
    (hfresh : ∀ call ∈ between, entry.isFresh call.checked = true ∧
      entry.isFresh call.rechecked = true)
    (hbetween : Undisturbed before first between) :
    (runPolicies (before ++ first :: between)).lookup first.key = some entry := by
  induction between using List.reverseRecOn with
  | nil => exact hstored
  | append_singleton between call ih =>
    have hassoc :
        before ++ first :: (between ++ [call]) = before ++ first :: between ++ [call] := by
      simp
    rw [hassoc]
    have hkept := ih
      (fun pre post hsplit => hroom pre (post ++ [call]) (by rw [hsplit]; simp))
      (fun c hc => hfresh c (List.mem_append_left _ hc))
      (fun pre c post hsplit => hbetween pre c (post ++ [call]) (by rw [hsplit]; simp))
    rw [runPolicies_concat]
    by_cases hkey : call.key = first.key
    · rcases hbetween between call [] rfl hkey with ⟨hid, hfetched⟩
      rcases hfresh call (by simp) with ⟨hchecked, hrechecked⟩
      rw [← hkey] at hkept ⊢
      rw [policyFor_of_fresh hkept hpolicy hchecked hrechecked hid hfetched]
      exact hkept
    · rw [lookup_policyFor_of_ne (fun _ => hroom between [call] rfl) (Ne.symm hkey)]
      exact hkept

/-- A fetched policy stays in force until it expires or another fetch for the domain succeeds.  As
long as discovery finds an id in the calls for the domain, the next of them before the expiry
returns that policy or one that it has fetched itself. -/
theorem fetched_policy_stays_in_force
    (hclock : ClockOrder (before ++ first :: between ++ [last]))
    (hcap : domainCount (before ++ first :: between ++ [last]) < maxCache)
    (hfirst : (runPolicies before).fetched first = some policy)
    (hkey : last.key = first.key) (hbetween : Undisturbed before first between)
    (hid : last.discoverId ≠ none)
    (htime : last.rechecked < first.stored + Duration.fromSecs policy.maxAge) :
    ((runPolicies before).policyFor first).1 = some policy ∧
      (((runPolicies (before ++ first :: between)).policyFor last).1 = some policy ∨
        ∃ fetched, (runPolicies (before ++ first :: between)).fetched last = some fetched ∧
          ((runPolicies (before ++ first :: between)).policyFor last).1 = some fetched) := by
  rcases policyFor_of_fetched hfirst with ⟨id, -, hstore⟩
  refine ⟨by rw [hstore], ?_⟩
  have hstored : (runPolicies (before ++ [first])).lookup first.key =
      some (positiveEntry id policy first.stored) := by
    have hroom : (runPolicies before).entries.length < maxCache := by
      rw [List.append_assoc] at hcap
      exact length_runPolicies_lt hcap
    rw [runPolicies_concat, hstore, store_of_lt _ (fun _ => hroom), AList.lookup_insert]
  have hfresh : ∀ now, now ≤ last.rechecked →
      (positiveEntry id policy first.stored).isFresh now = true := by
    intro now hnow
    have hbefore : last.rechecked < first.stored + policy.maxAge * 1000000000 := htime
    change decide (now - first.stored < max policy.maxAge 1 * 1000000000) = true
    rw [decide_eq_true_eq]
    omega
  have hlast := hclock.within last (by simp)
  have hearlier : ∀ call ∈ between, call.checked ≤ last.rechecked ∧
      call.rechecked ≤ last.rechecked := by
    intro call hcall
    have hwithin := hclock.within call (by simp [hcall])
    have hacross :=
      (List.pairwise_append.mp hclock.across).2.2 call (by simp [hcall]) last (by simp)
    omega
  have hroom : ∀ pre post, between = pre ++ post →
      (runPolicies (before ++ first :: pre)).entries.length < maxCache := by
    intro pre post hsplit
    rw [hsplit, show before ++ first :: (pre ++ post) ++ [last] =
      before ++ first :: pre ++ (post ++ [last]) by simp] at hcap
    exact length_runPolicies_lt hcap
  have hentry := lookup_of_undisturbed hroom hstored rfl
    (fun call hcall => ⟨hfresh _ (hearlier call hcall).1, hfresh _ (hearlier call hcall).2⟩)
    hbetween
  rw [← hkey] at hentry
  cases hfetched : (runPolicies (before ++ first :: between)).fetched last with
  | none =>
    left
    rw [policyFor_of_fresh hentry rfl (hfresh _ hlast.1) (hfresh _ (Nat.le_refl _)) hid hfetched]
  | some fetched =>
    rcases policyFor_of_fetched hfetched with ⟨_, -, hown⟩
    exact .inr ⟨fetched, rfl, by rw [hown]⟩

end

/-! ### A policy that is replaced -/

-- a call for `x.org` at the given second that discovers `id` and fetches `body`, if it can
def stsCall (id : String) (body : Option String) (second : Nat) : PolicyCall where
  domain := "x.org".toList
  lookupTxt _ := .ok ["v=STSv1; id=".toList ++ id.toList]
  fetchPolicy _ := body.elim (.error (.io [])) fun text => .ok text.toList
  checked := second * 1000000000
  rechecked := second * 1000000000
  stored := second * 1000000000

theorem key_stsCall (id : String) (body : Option String) (second : Nat) :
    (stsCall id body second).key = toAsciiLowercase (trimEndMatches '.' "x.org".toList) := rfl

def longLived : PolicyCall :=
  stsCall "a1" (some "version: STSv1\nmode: enforce\nmx: mx.x.org\nmax_age: 1000\n") 0

def shortLived : PolicyCall :=
  stsCall "a2" (some "version: STSv1\nmode: enforce\nmx: mx.x.org\nmax_age: 1\n") 10

def fetchless : PolicyCall := stsCall "a3" none 20

def longPolicy : MtaStsPolicy := ⟨.enforce, ["mx.x.org".toList], 1000⟩

theorem fetched_longLived : (runPolicies []).fetched longLived = some longPolicy := by
  decide +kernel

theorem key_fetchless : fetchless.key = longLived.key := by
  unfold fetchless longLived
  rw [key_stsCall, key_stsCall]

theorem discoverId_fetchless : fetchless.discoverId = some "a3".toList := by
  decide +kernel

theorem policyFor_fetchless :
    ((runPolicies [longLived, shortLived]).policyFor fetchless).1 = none := by
  decide +kernel

/-- The policy fetched first would last a thousand seconds; the one that replaced it has run out
after one, and the call at twenty seconds, which cannot fetch, has none. -/
theorem replaced_policy_runs_out :
    ClockOrder ([] ++ longLived :: [shortLived] ++ [fetchless]) ∧
      domainCount ([] ++ longLived :: [shortLived] ++ [fetchless]) < maxCache ∧
      (runPolicies []).fetched longLived = some longPolicy ∧
      fetchless.key = longLived.key ∧
      fetchless.stored < longLived.stored + Duration.fromSecs longPolicy.maxAge ∧
      ((runPolicies ([] ++ longLived :: [shortLived])).policyFor fetchless).1 = none :=
  ⟨⟨by decide, by decide⟩, by decide +kernel, fetched_longLived, key_fetchless, by decide,
    policyFor_fetchless⟩

-- without the second fetch it is still in force
theorem fetched_policy_stays_in_force_without_fetch :
    (runPolicies []).fetched longLived = some longPolicy ∧
      (((runPolicies [longLived]).policyFor fetchless).1 = some longPolicy ∨
        ∃ fetched, (runPolicies [longLived]).fetched fetchless = some fetched ∧
          ((runPolicies [longLived]).policyFor fetchless).1 = some fetched) := by
  have hclock : ClockOrder ([] ++ longLived :: [] ++ [fetchless]) := ⟨by decide, by decide⟩
  have hbetween : Undisturbed [] longLived [] := by
    intro pre call post hsplit
    simp at hsplit
  have hid : fetchless.discoverId ≠ none := by
    rw [discoverId_fetchless]
    simp
  have hforce := fetched_policy_stays_in_force hclock (by decide +kernel) fetched_longLived
    key_fetchless hbetween hid (by decide)
  exact ⟨fetched_longLived, hforce.2⟩

end Snail.Network
