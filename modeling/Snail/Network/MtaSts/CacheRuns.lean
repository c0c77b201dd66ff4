import Snail.Network.MtaSts.Resolver

/-!
# CacheRuns — the policy cache over runs of calls

How large the cache gets, where the policies in it come from, and when the policy host is contacted.
-/

open Snail.Reasoning

namespace Snail.Network

/-! ## 1. Storing -/

section
variable {cache : StsCache} {domain : Str} {entry : CacheEntry}

theorem length_keys (cache : StsCache) : cache.keys.length = cache.entries.length :=
  List.length_map ..

theorem mem_of_lookup {k : Str} {e : CacheEntry} (h : cache.lookup k = some e) : k ∈ cache := by
  rw [← AList.lookup_isSome, h]
  rfl

-- the entry that goes is one of the oldest
theorem evictOldest_spec (h : cache.entries ≠ []) :
    ∃ oldest e, cache.lookup oldest = some e ∧
      (∀ k e', cache.lookup k = some e' → e.fetched ≤ e'.fetched) ∧
      cache.evictOldest = cache.erase oldest := by
  obtain ⟨e, he⟩ : ∃ e, cache.entries.argmin (fun e => e.2.fetched) = some e := by
    cases he : cache.entries.argmin (fun e => e.2.fetched) with
    | none => exact absurd (List.argmin_eq_none.mp he) h
    | some e => exact ⟨e, rfl⟩
  refine ⟨e.1, e.2, ?_, ?_, ?_⟩
  · exact AList.mem_lookup_iff.mpr (List.argmin_mem he)
  · intro k e' hk
    have hmem : (⟨k, e'⟩ : Sigma fun _ : Str => CacheEntry) ∈ cache.entries :=
      AList.mem_lookup_iff.mp hk
    exact List.le_of_mem_argmin (f := fun e => e.2.fetched) hmem he
  · unfold StsCache.evictOldest
    rw [he]
    rfl

theorem length_erase {k : Str} (h : k ∈ cache) :
    (cache.erase k).entries.length = cache.entries.length - 1 := by
  rw [← length_keys, ← length_keys, AList.keys_erase]
  exact @List.length_erase_of_mem _ instBEqOfDecidableEq _ _ _ h

theorem length_insert_of_mem (h : domain ∈ cache) :
    (cache.insert domain entry).entries.length = cache.entries.length := by
  have hpos : 0 < cache.entries.length := by
    rw [← length_keys]
    exact List.length_pos_of_mem h
  have herase := length_erase h
  change (cache.erase domain).entries.length + 1 = _
  omega

theorem length_insert_of_not_mem (h : domain ∉ cache) :
    (cache.insert domain entry).entries.length = cache.entries.length + 1 := by
  rw [AList.entries_insert_of_notMem h, List.length_cons]

theorem length_store_le (h : cache.entries.length ≤ maxCache) :
    (cache.store domain entry).entries.length ≤ maxCache := by
  unfold StsCache.store
  dsimp only
  by_cases hmem : domain ∈ cache
  · rw [if_neg (by simp [hmem]), length_insert_of_mem hmem]
    exact h
  · by_cases hfull : cache.entries.length ≥ maxCache
    · have hpos : 0 < maxCache := by decide
      obtain ⟨oldest, e, hold, -, hevict⟩ := @evictOldest_spec cache
        (List.ne_nil_of_length_pos (by omega))
      have hnot : domain ∉ cache.erase oldest := fun hd => hmem (AList.mem_erase.mp hd).2
      rw [if_pos ⟨hfull, hmem⟩, hevict, length_insert_of_not_mem hnot,
        length_erase (mem_of_lookup hold)]
      omega
    · rw [if_neg (by simp [hfull]), length_insert_of_not_mem hmem]
      omega

/-- A new domain at capacity takes the place of one entry, an oldest one. -/
theorem lookup_store_full (hfull : maxCache ≤ cache.entries.length) (hnew : domain ∉ cache) :
    ∃ oldest e, cache.lookup oldest = some e ∧
      (∀ k e', cache.lookup k = some e' → e.fetched ≤ e'.fetched) ∧
      ∀ k, (cache.store domain entry).lookup k =
        if k = domain then some entry else if k = oldest then none else cache.lookup k := by
  have hpos : 0 < maxCache := by decide
  obtain ⟨oldest, e, hold, hmin, hevict⟩ := @evictOldest_spec cache
    (List.ne_nil_of_length_pos (by omega))
  refine ⟨oldest, e, hold, hmin, ?_⟩
  intro k
  unfold StsCache.store
  dsimp only
  rw [if_pos ⟨hfull, hnew⟩, hevict]
  by_cases hk : k = domain
  · rw [if_pos hk, hk, AList.lookup_insert]
  · rw [if_neg hk, AList.lookup_insert_ne hk]
    by_cases hko : k = oldest
    · rw [if_pos hko, hko, AList.lookup_erase]
    · rw [if_neg hko, AList.lookup_erase_ne hko]

-- nothing but the new entry comes in
theorem lookup_of_lookup_store {k : Str} {e : CacheEntry}
    (h : (cache.store domain entry).lookup k = some e) :
    (k = domain ∧ e = entry) ∨ (k ≠ domain ∧ cache.lookup k = some e) := by
  unfold StsCache.store at h
  dsimp only at h
  by_cases hk : k = domain
  · rw [hk, AList.lookup_insert] at h
    exact .inl ⟨hk, (Option.some.inj h).symm⟩
  · rw [AList.lookup_insert_ne hk] at h
    refine .inr ⟨hk, ?_⟩
    split at h
    · rename_i hcond
      have hpos : 0 < maxCache := by decide
      obtain ⟨oldest, -, -, -, hevict⟩ := @evictOldest_spec cache
        (List.ne_nil_of_length_pos (by omega))
      rw [hevict] at h
      by_cases hko : k = oldest
      · rw [hko, AList.lookup_erase] at h
        cases h
      · rwa [AList.lookup_erase_ne hko] at h
    · exact h

end

/-! ## 2. What a call can do -/

-- whether the policy host is contacted
def StsCache.performsFetch (cache : StsCache) (call : PolicyCall) : Bool :=
  (cache.reused call).isNone && call.discoverId.isSome

/-- The five ways through `policy_for`. -/
inductive PolicyStep (cache : StsCache) (call : PolicyCall) :
    Option MtaStsPolicy × StsCache → Prop
  | reused (e : CacheEntry) (hfetch : cache.performsFetch call = false)
      (hentry : cache.lookup call.key = some e) (hfresh : e.isFresh call.checked = true)
      (hid : e.id = call.discoverId) : PolicyStep cache call (e.policy, cache)
  | absent (hid : call.discoverId = none) :
      PolicyStep cache call (none, cache.store call.key (negativeEntry call.stored))
  | fetched (id : Str) (policy : MtaStsPolicy) (hfetch : cache.performsFetch call = true)
      (hid : call.discoverId = some id) (hparsed : call.fetchAndParse = .ok policy) :
      PolicyStep cache call
        (some policy, cache.store call.key (positiveEntry id policy call.stored))
  | kept (e : CacheEntry) (policy : MtaStsPolicy) (hid : call.discoverId ≠ none)
      (hfailed : call.fetchAndParse.toOption = none) (hentry : cache.lookup call.key = some e)
      (hfresh : e.isFresh call.rechecked = true) (hpolicy : e.policy = some policy) :
      PolicyStep cache call (some policy, cache)
  | failed (hid : call.discoverId ≠ none) (hfailed : call.fetchAndParse.toOption = none)
      (hcached : cache.cachedPolicy call.key call.rechecked = none) :
      PolicyStep cache call (none, cache.store call.key (negativeEntry call.stored))

section
variable {cache : StsCache} {call : PolicyCall}

theorem lookup_of_fresh {domain : Str} {now : Nat} {e : CacheEntry}
    (h : cache.fresh domain now = some e) :
    cache.lookup domain = some e ∧ e.isFresh now = true :=
  Option.filter_eq_some_iff.mp h

theorem answer_eq_some_iff {e : CacheEntry} {id : Option Str} {answer : Option MtaStsPolicy} :
    e.answer id = some answer ↔
      e.id = id ∧ e.policy = answer ∧ (id = none → e.policy = none) := by
  cases id with
  | none =>
    by_cases h : e.id = none ∧ e.policy = none
    · simp [CacheEntry.answer, h, eq_comm]
    · simp only [CacheEntry.answer, if_neg h]
      grind
  | some id =>
    by_cases h : e.id = some id <;> simp [CacheEntry.answer, h]

theorem reused_eq_some_iff {answer : Option MtaStsPolicy} :
    cache.reused call = some answer ↔
      ∃ e, cache.fresh call.key call.checked = some e ∧
        e.answer call.discoverId = some answer :=
  Option.bind_eq_some_iff

theorem policyFor_step (cache : StsCache) (call : PolicyCall) :
    PolicyStep cache call (cache.policyFor call) := by
  unfold StsCache.policyFor
  cases hreused : cache.reused call with
  | some answer =>
    obtain ⟨e, hfresh, hanswer⟩ := reused_eq_some_iff.mp hreused
    obtain ⟨hid, rfl, -⟩ := answer_eq_some_iff.mp hanswer
    obtain ⟨hentry, hfresh⟩ := lookup_of_fresh hfresh
    exact .reused e (by simp [StsCache.performsFetch, hreused]) hentry hfresh hid
  | none =>
    cases hid : call.discoverId with
    | none => exact .absent hid
    | some id =>
      cases hparsed : call.fetchAndParse with
      | ok policy =>
        exact .fetched id policy (by simp [StsCache.performsFetch, hreused, hid]) hid hparsed
      | error e =>
        have hfailed : call.fetchAndParse.toOption = none := by
          rw [hparsed]
          rfl
        have hid : call.discoverId ≠ none := by
          rw [hid]
          exact Option.some_ne_none id
        dsimp only
        cases hcached : cache.cachedPolicy call.key call.rechecked with
        | none => exact .failed hid hfailed hcached
        | some policy =>
          obtain ⟨e, hfresh, hpolicy⟩ := Option.bind_eq_some_iff.mp hcached
          obtain ⟨hentry, hfresh⟩ := lookup_of_fresh hfresh
          exact .kept e policy hid hfailed hentry hfresh hpolicy

theorem isFresh_positiveEntry {id : Str} {policy : MtaStsPolicy} {stored now : Nat} :
    (positiveEntry id policy stored).isFresh now = true ↔
      now < stored + Duration.fromSecs (max policy.maxAge 1) := by
  change decide (now - stored < max policy.maxAge 1 * 1000000000) = true ↔
    now < stored + max policy.maxAge 1 * 1000000000
  rw [decide_eq_true_eq]
  omega

theorem lookup_store_self (cache : StsCache) (domain : Str) (e : CacheEntry) :
    (cache.store domain e).lookup domain = some e :=
  AList.lookup_insert _

theorem fetched_eq_some_iff {policy : MtaStsPolicy} :
    cache.fetched call = some policy ↔
      cache.performsFetch call = true ∧ call.fetchAndParse = .ok policy := by
  unfold StsCache.fetched StsCache.performsFetch
  rw [← toOption_eq_some_iff]
  cases cache.reused call <;> cases call.discoverId <;> simp

theorem performsFetch_eq_false_iff {id : Str} (hid : call.discoverId = some id) :
    cache.performsFetch call = false ↔
      ∃ e, cache.lookup call.key = some e ∧ e.isFresh call.checked = true ∧ e.id = some id := by
  have hnone : cache.performsFetch call = false ↔ (cache.reused call).isSome = true := by
    unfold StsCache.performsFetch
    rw [hid]
    cases cache.reused call <;> simp
  rw [hnone, Option.isSome_iff_exists]
  constructor
  · rintro ⟨answer, hreused⟩
    obtain ⟨e, hfresh, hanswer⟩ := reused_eq_some_iff.mp hreused
    obtain ⟨hentry, hfresh⟩ := lookup_of_fresh hfresh
    exact ⟨e, hentry, hfresh, hid ▸ (answer_eq_some_iff.mp hanswer).1⟩
  · rintro ⟨e, hentry, hfresh, heid⟩
    refine ⟨e.policy, reused_eq_some_iff.mpr ⟨e, fresh_of_lookup hentry hfresh, ?_⟩⟩
    rw [answer_eq_some_iff, hid]
    exact ⟨heid, rfl, nofun⟩

end

/-! ## 3. Fetches that are repeated -/

section
variable {before between : List PolicyCall} {first last : PolicyCall} {x : Str}

-- what a call found that fails to fetch and has no policy to fall back on
theorem lookup_of_failed {cache : StsCache} {call : PolicyCall}
    (hfetch : cache.performsFetch call = true) (hfailed : call.fetchAndParse.toOption = none)
    (hcached : cache.cachedPolicy call.key call.rechecked = none) :
    (cache.policyFor call).2.lookup call.key = some (negativeEntry call.stored) := by
  generalize hout : cache.policyFor call = out
  have hstep := hout ▸ policyFor_step cache call
  cases hstep with
  | reused e hnot => rw [hfetch] at hnot; cases hnot
  | absent => exact lookup_store_self ..
  | fetched id policy _ _ hparsed => rw [hparsed] at hfailed; cases hfailed
  | kept e policy _ _ hentry hfresh hpolicy =>
    unfold StsCache.cachedPolicy at hcached
    rw [fresh_of_lookup hentry hfresh, Option.bind_some, hpolicy] at hcached
    cases hcached
  | failed => exact lookup_store_self ..

/-- A call since `first` that fetched a policy under `x`, and what it stored is still there. -/
def RefetchedUnder (x : Str) (before : List PolicyCall) (first : PolicyCall)
    (between : List PolicyCall) (policy : MtaStsPolicy) (stored : Nat) : Prop :=
  ∃ pre call post, between = pre ++ call :: post ∧ call.key = first.key ∧
    call.discoverId = some x ∧ (runPolicies (before ++ first :: pre)).fetched call = some policy ∧
    Undisturbed (before ++ first :: pre) call post ∧ stored = call.stored

theorem undisturbed_nil {pre : List PolicyCall} {call : PolicyCall} : Undisturbed pre call [] := by
  intro pre' c post hsplit
  simp at hsplit

theorem Undisturbed.concat {pre post : List PolicyCall} {call c : PolicyCall}
    (h : Undisturbed pre call post)
    (hc : c.key = call.key →
      c.discoverId ≠ none ∧ (runPolicies (pre ++ call :: post)).fetched c = none) :
    Undisturbed pre call (post ++ [c]) := by
  intro pre' c' post' hsplit hkey
  rcases List.eq_nil_or_concat post' with rfl | ⟨init, d, rfl⟩
  · obtain ⟨rfl, hcc⟩ := List.append_inj' hsplit rfl
    cases hcc
    exact hc hkey
  · rw [List.concat_eq_append, ← List.cons_append, ← List.append_assoc] at hsplit
    obtain ⟨rfl, -⟩ := List.append_inj' hsplit rfl
    exact h pre' c' init rfl hkey

theorem RefetchedUnder.concat {policy : MtaStsPolicy} {stored : Nat} {c : PolicyCall}
    (h : RefetchedUnder x before first between policy stored)
    (hc : c.key = first.key → c.discoverId ≠ none ∧
      (runPolicies (before ++ first :: between)).fetched c = none) :
    RefetchedUnder x before first (between ++ [c]) policy stored := by
  obtain ⟨pre, call, post, rfl, hkey, hid, hfetched, hrest, hstored⟩ := h
  refine ⟨pre, call, post ++ [c], by simp, hkey, hid, hfetched, hrest.concat ?_, hstored⟩
  intro hck
  rw [List.append_assoc]
  exact hc (hck.trans hkey)

theorem fetched_eq_none_of_not_performs {cache : StsCache} {call : PolicyCall}
    (h : cache.performsFetch call = false ∨ call.fetchAndParse.toOption = none) :
    cache.fetched call = none := by
  rw [Option.eq_none_iff_forall_ne_some]
  intro policy hfetched
  obtain ⟨hperforms, hparsed⟩ := fetched_eq_some_iff.mp hfetched
  rcases h with h | h
  · rw [hperforms] at h
    cases h
  · rw [hparsed] at h
    cases h

-- an entry under an id can only stem from a call that fetched since
theorem refetched_of_lookup (hnegative :
      (runPolicies (before ++ [first])).lookup first.key = some (negativeEntry first.stored))
    {e : CacheEntry} (hid : e.id = some x)
    (hentry : (runPolicies (before ++ first :: between)).lookup first.key = some e) :
    ∃ policy, RefetchedUnder x before first between policy e.fetched ∧
      e = positiveEntry x policy e.fetched := by
  induction between using List.reverseRecOn with
  | nil =>
    rw [hnegative] at hentry
    cases hentry
    cases hid
  | append_singleton between c ih =>
    rw [show before ++ first :: (between ++ [c]) = before ++ first :: between ++ [c] by simp,
      runPolicies_concat] at hentry
    have hkeep : (runPolicies (before ++ first :: between)).lookup first.key = some e →
        (c.key = first.key → c.discoverId ≠ none ∧
          (runPolicies (before ++ first :: between)).fetched c = none) →
        ∃ policy, RefetchedUnder x before first (between ++ [c]) policy e.fetched ∧
          e = positiveEntry x policy e.fetched := by
      intro hentry hc
      obtain ⟨policy, hre, he⟩ := ih hentry
      exact ⟨policy, hre.concat hc, he⟩
    generalize hout : (runPolicies (before ++ first :: between)).policyFor c = out at hentry
    have hstep := hout ▸ policyFor_step (runPolicies (before ++ first :: between)) c
    cases hstep with
    | reused e' hfetch hentry' _ hid' =>
      refine hkeep hentry fun hkey => ⟨?_, fetched_eq_none_of_not_performs (.inl hfetch)⟩
      rw [hkey, hentry] at hentry'
      cases hentry'
      rw [← hid', hid]
      exact Option.some_ne_none x
    | kept e' policy hid' hfailed =>
      exact hkeep hentry fun _ => ⟨hid', fetched_eq_none_of_not_performs (.inr hfailed)⟩
    | absent =>
      rcases lookup_of_lookup_store hentry with ⟨-, rfl⟩ | ⟨hkey, hentry⟩
      · cases hid
      · exact hkeep hentry fun h => absurd h.symm hkey
    | failed =>
      rcases lookup_of_lookup_store hentry with ⟨-, rfl⟩ | ⟨hkey, hentry⟩
      · cases hid
      · exact hkeep hentry fun h => absurd h.symm hkey
    | fetched id policy hfetch hid' hparsed =>
      rcases lookup_of_lookup_store hentry with ⟨hkey, rfl⟩ | ⟨hkey, hentry⟩
      · cases hid
        exact ⟨policy, ⟨between, c, [], rfl, hkey.symm, hid',
          fetched_eq_some_iff.mpr ⟨hfetch, hparsed⟩, undisturbed_nil, rfl⟩, rfl⟩
      · exact hkeep hentry fun h => absurd h.symm hkey

/-- After a fetch that failed with nothing to fall back on, a later call for the domain contacts the
host again, unless another call has in the meantime fetched a policy under the id it discovers,
which is still cached and has not expired.  The failed call leaves no trace of its own id. -/
theorem repeated_fetch_iff (hclock : ClockOrder (before ++ first :: between ++ [last]))
    (hroom : ∀ pre post, between = pre ++ post →
      (runPolicies (before ++ first :: pre)).entries.length < maxCache)
    (hfirst : (runPolicies before).performsFetch first = true)
    (hfailed : first.fetchAndParse.toOption = none)
    (hcached : (runPolicies before).cachedPolicy first.key first.rechecked = none)
    (hkey : last.key = first.key) (hid : last.discoverId = some x) :
    (runPolicies (before ++ first :: between)).performsFetch last = false ↔
      ∃ policy stored, RefetchedUnder x before first between policy stored ∧
        last.checked < stored + Duration.fromSecs (max policy.maxAge 1) := by
  rw [performsFetch_eq_false_iff hid]
  constructor
  · rintro ⟨e, hentry, hfresh, heid⟩
    have hnegative : (runPolicies (before ++ [first])).lookup first.key =
        some (negativeEntry first.stored) := by
      rw [runPolicies_concat]
      exact lookup_of_failed hfirst hfailed hcached
    rw [hkey] at hentry
    obtain ⟨policy, hre, he⟩ := refetched_of_lookup hnegative heid hentry
    refine ⟨policy, e.fetched, hre, ?_⟩
    rw [he] at hfresh
    exact isFresh_positiveEntry.mp hfresh
  · rintro ⟨policy, stored, ⟨pre, call, post, rfl, hcallKey, hcallId, hfetched, hrest, rfl⟩, hlt⟩
    obtain ⟨id, hown, hpolicy⟩ := policyFor_of_fetched hfetched
    obtain rfl : x = id := Option.some.inj (hcallId.symm.trans hown)
    have hstored : (runPolicies (before ++ first :: pre ++ [call])).lookup call.key =
        some (positiveEntry x policy call.stored) := by
      rw [runPolicies_concat, hpolicy]
      exact lookup_store_self ..
    have hsplit : before ++ first :: (pre ++ call :: post) =
        before ++ first :: pre ++ call :: post := by simp
    rw [hsplit] at hclock ⊢
    have hfresh : ∀ c ∈ post, (positiveEntry x policy call.stored).isFresh c.checked = true ∧
        (positiveEntry x policy call.stored).isFresh c.rechecked = true := by
      intro c hc
      have hwithin := hclock.within c (by simp [hc])
      have hacross :=
        (List.pairwise_append.mp hclock.across).2.2 c (by simp [hc]) last (by simp)
      rw [isFresh_positiveEntry, isFresh_positiveEntry]
      omega
    have hkept := lookup_of_undisturbed
      (fun pre' post' hpost => by
        rw [show before ++ first :: pre ++ call :: pre' =
          before ++ first :: (pre ++ call :: pre') by simp]
        exact hroom (pre ++ call :: pre') post' (by rw [hpost]; simp))
      hstored rfl hfresh hrest
    refine ⟨_, ?_, isFresh_positiveEntry.mpr hlt, rfl⟩
    rw [hkey, ← hcallKey]
    exact hkept

end

def unfetched (second : Nat) : PolicyCall := stsCall "a1" none second

-- one second after the failed fetch the host is asked again
theorem failed_fetch_repeated :
    ClockOrder ([] ++ unfetched 0 :: [] ++ [unfetched 1]) ∧
      (runPolicies []).performsFetch (unfetched 0) = true ∧
      (unfetched 0).fetchAndParse.toOption = none ∧
      (runPolicies []).cachedPolicy (unfetched 0).key (unfetched 0).rechecked = none ∧
      (runPolicies ([] ++ unfetched 0 :: [])).entries.length < maxCache ∧
      (unfetched 1).key = (unfetched 0).key ∧
      (unfetched 0).discoverId = some "a1".toList ∧
      (unfetched 1).discoverId = some "a1".toList ∧
      (unfetched 1).checked < (unfetched 0).stored + negativeTtl ∧
      (runPolicies ([] ++ unfetched 0 :: [])).performsFetch (unfetched 1) = true :=
  ⟨⟨by decide, by decide⟩, by decide +kernel, by decide +kernel, by decide +kernel,
    by decide +kernel, rfl, by decide +kernel, by decide +kernel, by decide, by decide +kernel⟩

def refetching : PolicyCall :=
  stsCall "a1" (some "version: STSv1\nmode: enforce\nmx: mx.x.org\nmax_age: 1000\n") 1

theorem repeated_fetch_iff_refetched :
    (runPolicies ([] ++ unfetched 0 :: [refetching])).performsFetch (unfetched 2) = false := by
  have hroom : ∀ pre post, [refetching] = pre ++ post →
      (runPolicies ([] ++ unfetched 0 :: pre)).entries.length < maxCache := by
    intro pre post hsplit
    refine @length_runPolicies_lt _ post ?_
    rw [List.nil_append, List.cons_append, ← hsplit]
    decide +kernel
  have hfetched : (runPolicies ([] ++ unfetched 0 :: [])).fetched refetching = some longPolicy := by
    decide +kernel
  refine (@repeated_fetch_iff [] [refetching] (unfetched 0) (unfetched 2) "a1".toList
    ⟨by decide, by decide⟩ hroom (by decide +kernel) (by decide +kernel) (by decide +kernel) rfl
    (by decide +kernel)).mpr ?_
  exact ⟨longPolicy, refetching.stored,
    ⟨[], refetching, [], rfl, rfl, by decide +kernel, hfetched, undisturbed_nil, rfl⟩, by decide⟩

/-! ## 4. Where the policies come from -/

-- a call of the run that got the policy from the host
def FetchedIn (calls : List PolicyCall) (key : Str) (policy : MtaStsPolicy)
    (source : PolicyCall) : Prop :=
  ∃ earlier later, calls = earlier ++ source :: later ∧ source.key = key ∧
    (runPolicies earlier).performsFetch source = true ∧
    ∃ body, source.fetchPolicy key = .ok body ∧ MtaStsPolicy.parse body = .ok policy

theorem FetchedIn.append {calls rest : List PolicyCall} {key : Str} {policy : MtaStsPolicy}
    {source : PolicyCall} (h : FetchedIn calls key policy source) :
    FetchedIn (calls ++ rest) key policy source := by
  obtain ⟨earlier, later, rfl, hrest⟩ := h
  exact ⟨earlier, later ++ rest, by simp, hrest⟩

theorem FetchedIn.mem {calls : List PolicyCall} {key : Str} {policy : MtaStsPolicy}
    {source : PolicyCall} (h : FetchedIn calls key policy source) : source ∈ calls := by
  obtain ⟨earlier, later, rfl, -⟩ := h
  simp

theorem fetchedIn_self {calls : List PolicyCall} {call : PolicyCall} {policy : MtaStsPolicy}
    (hfetch : (runPolicies calls).performsFetch call = true)
    (hparsed : call.fetchAndParse = .ok policy) :
    FetchedIn (calls ++ [call]) call.key policy call :=
  ⟨calls, [], rfl, rfl, hfetch, exists_of_bind_eq_ok hparsed⟩

/-- Every policy in the cache was fetched for the domain it stands under. -/
theorem policy_traced {calls : List PolicyCall} {key : Str} {e : CacheEntry}
    {policy : MtaStsPolicy} (hentry : (runPolicies calls).lookup key = some e)
    (hpolicy : e.policy = some policy) :
    ∃ id source, FetchedIn calls key policy source ∧ e = positiveEntry id policy source.stored := by
  induction calls using List.reverseRecOn with
  | nil => cases hentry
  | append_singleton calls call ih =>
    rw [runPolicies_concat] at hentry
    have hkeep (hentry : (runPolicies calls).lookup key = some e) :
        ∃ id source, FetchedIn (calls ++ [call]) key policy source ∧
          e = positiveEntry id policy source.stored := by
      obtain ⟨id, source, hsource, he⟩ := ih hentry
      exact ⟨id, source, hsource.append, he⟩
    generalize hout : (runPolicies calls).policyFor call = out at hentry
    have hstep := hout ▸ policyFor_step (runPolicies calls) call
    cases hstep with
    | reused => exact hkeep hentry
    | kept => exact hkeep hentry
    | absent =>
      rcases lookup_of_lookup_store hentry with ⟨-, rfl⟩ | ⟨-, hentry⟩
      · cases hpolicy
      · exact hkeep hentry
    | failed =>
      rcases lookup_of_lookup_store hentry with ⟨-, rfl⟩ | ⟨-, hentry⟩
      · cases hpolicy
      · exact hkeep hentry
    | fetched id parsed hfetch hid hparsed =>
      rcases lookup_of_lookup_store hentry with ⟨rfl, rfl⟩ | ⟨-, hentry⟩
      · cases hpolicy
        exact ⟨id, call, fetchedIn_self hfetch hparsed, rfl⟩
      · exact hkeep hentry

theorem length_runPolicies_le (calls : List PolicyCall) :
    (runPolicies calls).entries.length ≤ maxCache := by
  induction calls using List.reverseRecOn with
  | nil => exact Nat.zero_le _
  | append_singleton calls call ih =>
    rw [runPolicies_concat]
    rcases policyFor_snd (runPolicies calls) call with hsame | ⟨entry, hstore⟩
    · rw [hsame]
      exact ih
    · rw [hstore]
      exact length_store_le ih

-- a policy served from the cache has not expired at the reading `now`
theorem served_of_fresh {before : List PolicyCall} {call : PolicyCall} {e : CacheEntry}
    {policy : MtaStsPolicy} {now : Nat}
    (hclock : ClockOrder (before ++ [call])) (hnow : call.checked ≤ now)
    (hentry : (runPolicies before).lookup call.key = some e) (hfresh : e.isFresh now = true)
    (hpolicy : e.policy = some policy) :
    ∃ source, FetchedIn (before ++ [call]) call.key policy source ∧ source.stored ≤ now ∧
      now < source.stored + Duration.fromSecs (max policy.maxAge 1) := by
  obtain ⟨id, source, hsource, rfl⟩ := policy_traced hentry hpolicy
  refine ⟨source, hsource.append, ?_, isFresh_positiveEntry.mp hfresh⟩
  have hacross := (List.pairwise_append.mp hclock.across).2.2 source hsource.mem call (by simp)
  exact hacross.trans hnow

theorem policyFor_traced {before : List PolicyCall} {call : PolicyCall} {policy : MtaStsPolicy}
    (hclock : ClockOrder (before ++ [call]))
    (h : ((runPolicies before).policyFor call).1 = some policy) :
    ∃ source now, FetchedIn (before ++ [call]) call.key policy source ∧
      now ∈ [call.checked, call.rechecked, call.stored] ∧ source.stored ≤ now ∧
      now < source.stored + Duration.fromSecs (max policy.maxAge 1) := by
  have hwithin := hclock.within call (by simp)
  generalize hout : (runPolicies before).policyFor call = out at h
  have hstep := hout ▸ policyFor_step (runPolicies before) call
  cases hstep with
  | absent => cases h
  | failed => cases h
  | reused e _ hentry hfresh =>
    obtain ⟨source, hserved⟩ := served_of_fresh hclock (Nat.le_refl _) hentry hfresh h
    exact ⟨source, call.checked, hserved.1, by simp, hserved.2⟩
  | kept e p _ _ hentry hfresh hpolicy =>
    cases h
    obtain ⟨source, hserved⟩ := served_of_fresh hclock hwithin.1 hentry hfresh hpolicy
    exact ⟨source, call.rechecked, hserved.1, by simp, hserved.2⟩
  | fetched id p hfetch _ hparsed =>
    cases h
    refine ⟨call, call.stored, fetchedIn_self hfetch hparsed, by simp, Nat.le_refl _, ?_⟩
    have hpos : 0 < max policy.maxAge 1 * 1000000000 := by omega
    exact Nat.lt_add_of_pos_right hpos

/-- Along every run the cache stays within its cap; what a call returns was fetched for its domain
and has not outlived its `max_age`; and at capacity a new domain takes the place of one entry, an
oldest one. -/
theorem cache_bounded_fresh (calls : List PolicyCall) (hclock : ClockOrder calls) :
    (runPolicies calls).entries.length ≤ maxCache ∧
      (∀ before call after policy, calls = before ++ call :: after →
        ((runPolicies before).policyFor call).1 = some policy →
        ∃ source now, FetchedIn (before ++ [call]) call.key policy source ∧
          now ∈ [call.checked, call.rechecked, call.stored] ∧ source.stored ≤ now ∧
          now < source.stored + Duration.fromSecs (max policy.maxAge 1)) ∧
      ∀ domain entry, maxCache ≤ (runPolicies calls).entries.length →
        domain ∉ runPolicies calls →
        ∃ oldest e, (runPolicies calls).lookup oldest = some e ∧
          (∀ k e', (runPolicies calls).lookup k = some e' → e.fetched ≤ e'.fetched) ∧
          ∀ k, ((runPolicies calls).store domain entry).lookup k =
            if k = domain then some entry
            else if k = oldest then none else (runPolicies calls).lookup k := by
  refine ⟨length_runPolicies_le calls, ?_, ?_⟩
  · rintro before call after policy rfl h
    have hpart : ClockOrder (before ++ [call]) := by
      rw [show before ++ call :: after = before ++ [call] ++ after by simp] at hclock
      exact ⟨fun c hc => hclock.within c (List.mem_append_left _ hc),
        (List.pairwise_append.mp hclock.across).1⟩
    exact policyFor_traced hpart h
  · intro domain entry hfull hnew
    exact lookup_store_full hfull hnew

theorem cache_bounded_fresh_refetched :
    ClockOrder [unfetched 0, refetching, unfetched 2] ∧
      ∃ source now, FetchedIn [unfetched 0, refetching, unfetched 2] (unfetched 2).key longPolicy
          source ∧
        now ∈ [(unfetched 2).checked, (unfetched 2).rechecked, (unfetched 2).stored] ∧
        source.stored ≤ now ∧
        now < source.stored + Duration.fromSecs (max longPolicy.maxAge 1) := by
  have hclock : ClockOrder [unfetched 0, refetching, unfetched 2] := ⟨by decide, by decide⟩
  have hserved : ((runPolicies [unfetched 0, refetching]).policyFor (unfetched 2)).1 =
      some longPolicy := by decide +kernel
  exact ⟨hclock, (cache_bounded_fresh _ hclock).2.1 [unfetched 0, refetching] (unfetched 2) []
    longPolicy rfl hserved⟩

end Snail.Network
