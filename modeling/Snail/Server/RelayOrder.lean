import Snail.Server.Relay

/-!
# RelayOrder — at most one delivery a pass

The order in which `relay` of `services/snail_server/src/outbound.rs` tries the addresses of a
domain, where it stops, and what its result says about the attempts.
-/

open Snail.Reasoning Snail.Mail Snail.Network

namespace Snail.Server

variable {κ : Type}

/-! ## 1. Transient replies -/

def RelayEvent.isTransient : RelayEvent → Bool
  | .read _ _ code _ => 400 ≤ code && code < 500
  | _ => false

-- a 4xx reply is among the events only if the report is `Deferred`
def RelayOutcome.Lenient (o : RelayOutcome) : Prop :=
  (∃ e ∈ o.events, e.isTransient = true) → ∃ code text, o.result = .ok (.deferred code text)

section
variable {secure : Bool} {s : Stream}

theorem lenient_of_no_read {o : RelayOutcome} (h : ∀ e ∈ o.events, e.isTransient = false) :
    o.Lenient := by
  rintro ⟨e, he, htransient⟩
  rw [h e he] at htransient
  cases htransient

theorem lenient_report (r : RelayReport) : (report r).Lenient :=
  lenient_of_no_read fun _ h => by cases h

theorem RelayOutcome.Lenient.after {o : RelayOutcome} (h : o.Lenient) {e : RelayEvent}
    (he : e.isTransient = true → ∃ code text, o.result = .ok (.deferred code text)) :
    (o.after [e]).Lenient := by
  rintro ⟨e', he', htransient⟩
  obtain rfl | hmem := List.mem_cons.mp he'
  · exact he htransient
  · exact h ⟨e', hmem, htransient⟩

theorem lenient_reading {next : Reply → Stream → RelayOutcome}
    (hnext : ∀ r s, (next r s).Lenient)
    (htransient : ∀ r s, (400 ≤ r.code ∧ r.code < 500) →
      ∃ code text, (next r s).result = .ok (.deferred code text)) :
    (reading secure s next).Lenient := by
  unfold reading
  cases s.readReply with
  | error e => exact lenient_of_no_read fun _ h => by cases h
  | ok p =>
    refine (hnext p.1 p.2).after fun h => htransient p.1 p.2 ?_
    simpa [RelayEvent.isTransient] using h

theorem lenient_writing {bytes : Bytes} {next : Stream → RelayOutcome}
    (hnext : ∀ s, (next s).Lenient) : (writing secure s bytes next).Lenient := by
  unfold writing
  cases s.write with
  | error reason =>
    refine lenient_of_no_read fun e he => ?_
    rw [List.mem_singleton.mp he]
    rfl
  | ok s' => exact (hnext s').after fun h => by cases h

theorem lenient_command {line : Str} {next : Reply → Stream → RelayOutcome}
    (hnext : ∀ r s, (next r s).Lenient)
    (htransient : ∀ r s, (400 ≤ r.code ∧ r.code < 500) →
      ∃ code text, (next r s).result = .ok (.deferred code text)) :
    (command secure s line next).Lenient :=
  lenient_writing fun _ => lenient_reading hnext htransient

theorem classify_of_transient {code : Nat} (context : Str) (h : 400 ≤ code ∧ code < 500) :
    classify code context = .deferred code context := by
  rw [classify, if_pos (.inr h)]

theorem not_isOk_of_transient {code : Nat} (h : 400 ≤ code ∧ code < 500) : ¬ isOk code = true := by
  rw [isOk_iff]
  omega

theorem not_commandOk_of_transient {line : Str} {code : Nat} (h : 400 ≤ code ∧ code < 500) :
    ¬ commandOk line code = true := by
  rw [commandOk_iff]
  split
  · omega
  · omega

-- the shape of nearly every check of a reply
theorem lenient_ite {ok : Nat → Bool} {context : Reply → Str}
    {next : Reply → Stream → RelayOutcome} (hnext : ∀ r s, (next r s).Lenient) (r : Reply)
    (s : Stream) :
    (if ok r.code = true then next r s else report (classify r.code (context r))).Lenient := by
  split
  · exact hnext r s
  · exact lenient_report _

theorem deferred_ite {ok : Nat → Bool} {context : Str} {o : RelayOutcome} {code : Nat}
    (hok : ¬ ok code = true) (h : 400 ≤ code ∧ code < 500) :
    ∃ c text, (if ok code = true then o else report (classify code context)).result =
      .ok (.deferred c text) := by
  rw [if_neg hok, classify_of_transient context h]
  exact ⟨code, context, rfl⟩

theorem lenient_transmit (data : Bytes) : (transmit secure data s).Lenient := by
  refine lenient_writing fun s => lenient_reading ?_ ?_
  · intro r _
    exact (lenient_report _).after fun h => by cases h
  · intro r _ hcode
    refine ⟨r.code, joinWords r.texts, ?_⟩
    rw [if_neg (not_isOk_of_transient hcode), classify_of_transient _ hcode]
    rfl

theorem lenient_sendCommands {next : Stream → RelayOutcome} (hnext : ∀ s, (next s).Lenient)
    (lines : List Str) (s : Stream) : (sendCommands secure next lines s).Lenient := by
  induction lines generalizing s with
  | nil => exact hnext s
  | cons line rest ih =>
    refine lenient_command ?_ ?_
    · exact lenient_ite fun _ s => ih s
    · intro r s hcode
      exact deferred_ite (not_commandOk_of_transient hcode) hcode

theorem lenient_deliver (script : RelayScript) (s : Stream) : (deliver secure script s).Lenient :=
  lenient_sendCommands (fun _ => lenient_transmit _) _ s

theorem lenient_encrypted (script : RelayScript) (ehlo : Str) (tls : Stream) :
    (encrypted script ehlo tls).Lenient := by
  refine lenient_command ?_ ?_
  · exact lenient_ite fun _ s => lenient_deliver script s
  · intro r s hcode
    exact deferred_ite (not_isOk_of_transient hcode) hcode

end

section
variable {peer : Peer κ} {serverName : Str} {script : RelayScript} {ehlo : Str}

theorem lenient_shakeHands (config : κ) (r : Reply) :
    (shakeHands peer serverName script ehlo config r).Lenient := by
  unfold shakeHands
  split
  · exact lenient_report _
  · split
    · exact lenient_report _
    · cases peer.handshake config serverName with
      | error e => exact lenient_report _
      | ok tls => exact (lenient_encrypted script ehlo tls).after fun h => by cases h

theorem lenient_capable (policy : TlsPolicy κ) (capabilities : List Str) (s : Stream) :
    (capable peer serverName script ehlo policy capabilities s).Lenient := by
  unfold capable
  split
  · exact lenient_report _
  · split
    · refine lenient_command (fun r _ => lenient_shakeHands _ r) ?_
      intro r _ hcode
      have hrefused : isOk r.code = false := Bool.eq_false_iff.mpr (not_isOk_of_transient hcode)
      rw [shakeHands, if_pos hrefused]
      exact ⟨_, _, rfl⟩
    · exact lenient_deliver script s

/-- Wherever in the dialog a 4xx reply comes, the report is `Deferred`. -/
theorem lenient_relayTo (peer : Peer κ) (addr serverName helo : Str) (message : Message)
    (policy : TlsPolicy κ) : (relayTo peer addr serverName helo message policy).Lenient := by
  unfold relayTo
  cases peer.connect with
  | error e => exact lenient_report _
  | ok plain =>
    refine lenient_reading ?_ ?_
    · intro r s
      split
      · refine lenient_command ?_ ?_
        · exact lenient_ite fun r s => lenient_capable policy r.texts s
        · intro r s hcode
          exact deferred_ite (not_isOk_of_transient hcode) hcode
      · exact lenient_report _
    · intro r s hcode
      rw [if_neg (by omega), classify_of_transient _ hcode]
      exact ⟨_, _, rfl⟩

end

namespace RelayPass

/-! ## 2. The exchanges in order -/

section
variable (p : RelayPass κ)

-- the exchanges as they are published: securely, in the ordinary way, or by the domain itself
def published (domain : Str) : Except NetworkError (List MxRecord) :=
  match p.secureMx domain with
  | some mxs => .ok mxs
  | none => (p.resolver.lookupMx domain).map fun mxs => if mxs = [] then [⟨0, domain⟩] else mxs

-- the policy of the domain, if it is one to enforce
def enforced (domain : Str) : Option MtaStsPolicy :=
  (p.stsPolicy domain).filter fun policy => policy.mode = .enforce

def usable (domain : Str) (mx : MxRecord) : Bool :=
  !mx.isNull && (p.enforced domain).all fun policy => policy.allowsMx mx.exchange

/-- The addresses of the exchanges that may be used, one exchange after the other. -/
def route (domain : Str) (mxs : List MxRecord) : List Str :=
  (mxs.filter (p.usable domain)).flatMap fun mx =>
    (p.addresses mx.exchange).map fun ip => socketText ip p.port

end

section
variable {p : RelayPass κ} {domain : Str}

-- what `exchanges` makes of them
theorem exchanges_eq : p.exchanges domain = ((p.published domain).map sortMx).mapError fun e =>
    .deferred 0 ("MX lookup for ".toList ++ domain ++ ": ".toList ++ e.toText) := by
  unfold exchanges published
  cases p.secureMx domain with
  | some secure => rfl
  | none =>
    cases p.resolver.lookupMx domain with
    | error e => rfl
    | ok found =>
      cases found with
      | nil => rfl
      | cons mx rest => rfl

theorem exchanges_of_published {mxs : List MxRecord} (h : p.published domain = .ok mxs) :
    p.exchanges domain = .ok (sortMx mxs) := by
  rw [exchanges_eq, h]
  rfl

theorem exchanges_of_lookup_error {e : NetworkError} (h : p.published domain = .error e) :
    ∃ text, p.exchanges domain = .error (.deferred 0 text) := by
  rw [exchanges_eq, h]
  exact ⟨_, rfl⟩

theorem published_ne_nil {mxs : List MxRecord}
    (hsecure : p.resolver.secureMx domain ≠ .ok (some [])) (h : p.published domain = .ok mxs) :
    mxs ≠ [] := by
  unfold published at h
  cases hmx : p.secureMx domain with
  | some secure =>
    rw [hmx] at h
    cases h
    rintro rfl
    exact hsecure (secureMx_eq_some_iff.mp hmx).2
  | none =>
    rw [hmx] at h
    cases hlookup : p.resolver.lookupMx domain with
    | error e =>
      rw [hlookup] at h
      cases h
    | ok found =>
      rw [hlookup] at h
      cases found with
      | nil =>
        cases h
        exact List.cons_ne_nil _ _
      | cons mx rest =>
        cases h
        exact List.cons_ne_nil _ _

-- an exchange is left out only under a policy that does not name it
theorem isSome_tlsPolicy (mx : MxRecord) : (p.tlsPolicy domain mx).isSome =
    (p.enforced domain).all fun policy => policy.allowsMx mx.exchange := by
  unfold tlsPolicy enforced
  by_cases hsecure : (p.secureMx domain).isSome = true
  · rw [if_pos hsecure, stsPolicy, if_pos hsecure]
    rfl
  · rw [if_neg hsecure, exchangeTlsPolicy]
    cases henforced : (p.stsPolicy domain).filter fun policy => policy.mode = .enforce with
    | none => rfl
    | some policy =>
      -- a policy comes from a resolver, which has a configuration
      have hsome : p.stsPolicy domain = some policy := by
        exact (Option.filter_eq_some_iff.mp henforced).1
      rw [stsPolicy, if_neg hsecure, Option.bind_eq_some_iff] at hsome
      obtain ⟨sts, hsts, -⟩ := hsome
      rw [hsts]
      dsimp only
      rw [Option.all_some]
      split
      · rename_i hallows
        rw [hallows]
        rfl
      · rename_i hallows
        rw [Bool.eq_false_iff.mpr hallows]
        rfl

theorem map_addr_attempts (mx : MxRecord) : (p.attempts domain mx).map RelayCall.addr =
    if p.usable domain mx = true then
      (p.addresses mx.exchange).map fun ip => socketText ip p.port
    else [] := by
  unfold usable attempts
  rw [← isSome_tlsPolicy]
  cases mx.isNull with
  | true => rfl
  | false =>
    cases p.tlsPolicy domain mx with
    | none => rfl
    | some policy =>
      rw [if_neg (by simp), if_pos (by simp)]
      simp [call]

theorem map_addr_flatMap_attempts (mxs : List MxRecord) :
    (mxs.flatMap (p.attempts domain)).map RelayCall.addr = p.route domain mxs := by
  unfold route
  induction mxs with
  | nil => rfl
  | cons mx mxs ih =>
    rw [List.flatMap_cons, List.map_append, ih, map_addr_attempts, List.filter_cons]
    split
    · rw [List.flatMap_cons]
    · rfl

end

/-! ## 3. The loops and the reports -/

section
variable (p : RelayPass κ)

def reports (calls : List (RelayCall κ)) : List RelayReport :=
  calls.zipIdx.map fun c => p.outcome c.2 c.1

/-- What the attempts of a pass came to, in turn. -/
def outcomes : List RelayReport := p.reports p.relay.calls

/-- No attempt but the last has a final report, and that one is at hand. -/
structure Consistent (s : Loop κ) : Prop where
  attempted : s.calls ≠ [] → s.attempted = true
  reported : ∃ earlier, (∀ r ∈ earlier, r.isFinal = false) ∧
    p.reports s.calls = if s.last.isFinal then earlier ++ [s.last] else earlier

end

section
variable {p : RelayPass κ} {domain : Str}

theorem reports_concat (calls : List (RelayCall κ)) (c : RelayCall κ) :
    p.reports (calls ++ [c]) = p.reports calls ++ [p.outcome calls.length c] := by
  simp [reports, List.zipIdx_append]

theorem consistent_start : p.Consistent (start domain) :=
  ⟨fun h => absurd rfl h, [], by simp, rfl⟩

theorem Consistent.of_deferred {s : Loop κ} (h : p.Consistent s) (hs : s.last.isFinal = false)
    {text : Str} : p.Consistent { s with attempted := true, last := .deferred 0 text } := by
  obtain ⟨earlier, hearlier, hreports⟩ := h.reported
  rw [hs] at hreports
  exact ⟨fun _ => rfl, earlier, hearlier, hreports⟩

theorem Consistent.attempt {s : Loop κ} (h : p.Consistent s) (hs : s.last.isFinal = false)
    (hattempted : s.attempted = true) (c : RelayCall κ) :
    p.Consistent { s with calls := s.calls ++ [c], last := p.outcome s.calls.length c } := by
  obtain ⟨earlier, hearlier, hreports⟩ := h.reported
  rw [hs] at hreports
  refine ⟨fun _ => hattempted, ?_⟩
  dsimp only
  rw [reports_concat, hreports]
  cases hfinal : (p.outcome s.calls.length c).isFinal with
  | true => exact ⟨earlier, hearlier, by simp⟩
  | false =>
    refine ⟨earlier ++ [p.outcome s.calls.length c], ?_, by simp⟩
    intro r hr
    obtain hr | hr := List.mem_append.mp hr
    · exact hearlier r hr
    · rw [List.mem_singleton.mp hr]
      exact hfinal

theorem consistent_tryAddresses (exchange : Str) (policy : TlsPolicy κ) (ips : List IpAddr)
    {s : Loop κ} (h : p.Consistent s) (hs : s.last.isFinal = false)
    (hattempted : s.attempted = true) : p.Consistent (p.tryAddresses exchange policy ips s) := by
  induction ips generalizing s with
  | nil => exact h
  | cons ip ips ih =>
    have hnext := h.attempt hs hattempted (p.call exchange policy ip)
    rw [tryAddresses]
    split
    · exact hnext
    · rename_i hfinal
      exact ih hnext (Bool.eq_false_iff.mpr hfinal) hattempted

theorem consistent_tryExchanges (mxs : List MxRecord) {s : Loop κ} (h : p.Consistent s)
    (hs : s.last.isFinal = false) : p.Consistent (p.tryExchanges domain mxs s) := by
  induction mxs generalizing s with
  | nil => exact h
  | cons mx mxs ih =>
    rw [tryExchanges]
    split
    · exact ih h hs
    · cases p.tlsPolicy domain mx with
      | none => exact ih h hs
      | some policy =>
        dsimp only
        cases p.resolveExchange mx.exchange with
        | error text => exact ih (h.of_deferred hs) rfl
        | ok ips =>
          have hbegin : p.Consistent { s with attempted := true } := ⟨fun _ => rfl, h.reported⟩
          have hloop := consistent_tryAddresses mx.exchange policy ips hbegin hs rfl
          dsimp only
          split
          · exact hloop
          · rename_i hfinal
            exact ih hloop (Bool.eq_false_iff.mpr hfinal)

/-! ## 4. The result of a pass -/

theorem relay_of_domain_none (h : p.domain = none) :
    p.relay = ⟨[], .failed "message has no recipients".toList⟩ := by
  rw [relay, h]

theorem relay_of_lookup_error {e : NetworkError} (hdomain : p.domain = some domain)
    (h : p.published domain = .error e) :
    ∃ text, p.relay = ⟨[], .deferred 0 text⟩ := by
  obtain ⟨text, htext⟩ := exchanges_of_lookup_error h
  exact ⟨text, by simp only [relay, hdomain, htext]⟩

theorem all_isNull_sortMx (mxs : List MxRecord) :
    (sortMx mxs).all MxRecord.isNull = mxs.all MxRecord.isNull :=
  (List.perm_insertionSort _ mxs).all_eq

/-- A pass that finds its exchanges: all of them are null, or it is at what the loops end with. -/
theorem relay_of_published {mxs : List MxRecord} (hdomain : p.domain = some domain)
    (h : p.published domain = .ok mxs) :
    (mxs.all MxRecord.isNull = true ∧ ∃ reason, p.relay = ⟨[], .failed reason⟩) ∨
      ∃ s, p.Consistent s ∧ p.relay = ⟨s.calls, s.last⟩ := by
  have hmxs := exchanges_of_published h
  by_cases hnull : mxs.all MxRecord.isNull = true
  · refine .inl ⟨hnull, domain ++ " does not accept mail (null MX, RFC 7505)".toList, ?_⟩
    simp only [relay, hdomain, hmxs, all_isNull_sortMx, if_pos hnull]
  · have hloop : p.Consistent (p.tryExchanges domain (sortMx mxs) (start domain)) :=
      consistent_tryExchanges (sortMx mxs) consistent_start rfl
    by_cases hskipped : (p.stsPolicy domain).any (fun policy => policy.mode = .enforce) = true ∧
        (!(p.tryExchanges domain (sortMx mxs) (start domain)).attempted) = true
    · -- without an attempt there is nothing on record
      have hnone : (p.tryExchanges domain (sortMx mxs) (start domain)).calls = [] := by
        by_contra hcalls
        rw [hloop.attempted hcalls] at hskipped
        cases hskipped.2
      refine .inr ⟨⟨[], .deferred 0
        ("no MX for ".toList ++ domain ++ " matches its MTA-STS policy".toList), false⟩,
        ⟨fun h => absurd rfl h, [], by simp, rfl⟩, ?_⟩
      simp only [relay, hdomain, hmxs, all_isNull_sortMx, if_neg hnull, if_pos hskipped, hnone]
    · refine .inr ⟨_, hloop, ?_⟩
      simp only [relay, hdomain, hmxs, all_isNull_sortMx, if_neg hnull, if_neg hskipped]

variable (p)

/-- No exchange is left that mail could go to: the list is empty, or all of it is null. -/
def NullMx : Prop :=
  ∃ domain mxs, p.domain = some domain ∧ p.published domain = .ok mxs ∧
    ∀ mx ∈ mxs, mx.isNull = true

variable {p}

/-- The final report is that of the last attempt, unless there is nobody to try. -/
theorem outcomes_cases (p : RelayPass κ) :
    ((p.domain = none ∨ p.NullMx) ∧ ∃ reason, p.relay = ⟨[], .failed reason⟩) ∨
      ∃ earlier, (∀ r ∈ earlier, r.isFinal = false) ∧
        p.outcomes = if p.relay.report.isFinal then earlier ++ [p.relay.report] else earlier := by
  cases hdomain : p.domain with
  | none => exact .inl ⟨.inl rfl, _, relay_of_domain_none hdomain⟩
  | some domain =>
    cases hpublished : p.published domain with
    | error e =>
      obtain ⟨text, hrelay⟩ := relay_of_lookup_error hdomain hpublished
      refine .inr ⟨[], by simp, ?_⟩
      rw [outcomes, hrelay]
      rfl
    | ok mxs =>
      obtain ⟨hnull, hrelay⟩ | ⟨s, hs, hrelay⟩ := relay_of_published hdomain hpublished
      · exact .inl ⟨.inr ⟨domain, mxs, hdomain, hpublished, List.all_eq_true.mp hnull⟩, hrelay⟩
      · rw [outcomes, hrelay]
        exact .inr hs.reported

theorem calls_prefix {mxs : List MxRecord} (hdomain : p.domain = some domain)
    (h : p.published domain = .ok mxs) :
    p.relay.calls.map RelayCall.addr <+: p.route domain (sortMx mxs) := by
  rw [calls_relay hdomain (exchanges_of_published h), ← map_addr_flatMap_attempts]
  exact (takeThrough_isPrefix _ _ _).map _

theorem stopsAt_ends_relay {mxs : List MxRecord} (hdomain : p.domain = some domain)
    (hmxs : p.exchanges domain = .ok mxs) :
    stopsAt p.ends 0 (mxs.flatMap (p.attempts domain)) = p.outcomes.any RelayReport.isFinal := by
  rw [← stopsAt_takeThrough, ← calls_relay hdomain hmxs, stopsAt_eq_any, outcomes, reports,
    List.any_map]
  rfl

-- a pass that nothing ends goes all the way
theorem calls_eq_of_not_final {mxs : List MxRecord} (hdomain : p.domain = some domain)
    (h : p.published domain = .ok mxs) (hnone : ∀ r ∈ p.outcomes, r.isFinal = false) :
    p.relay.calls.map RelayCall.addr = p.route domain (sortMx mxs) := by
  have hmxs := exchanges_of_published h
  have hgoes : stopsAt p.ends 0 ((sortMx mxs).flatMap (p.attempts domain)) = false := by
    rw [stopsAt_ends_relay hdomain hmxs, List.any_eq_false]
    intro r hr
    rw [hnone r hr]
    exact Bool.false_ne_true
  rw [calls_relay hdomain hmxs, takeThrough_of_not_stopsAt hgoes, map_addr_flatMap_attempts]

theorem outcomes_of_calls_eq_nil (h : p.relay.calls = []) : p.outcomes = [] := by
  rw [outcomes, h]
  rfl

theorem not_isFinal_of_mem_dropLast (p : RelayPass κ) :
    ∀ r ∈ p.outcomes.dropLast, r.isFinal = false := by
  intro r hr
  obtain ⟨-, reason, hrelay⟩ | ⟨earlier, hearlier, heq⟩ := p.outcomes_cases
  · rw [outcomes_of_calls_eq_nil (by rw [hrelay])] at hr
    cases hr
  · rw [heq] at hr
    split at hr
    · rw [List.dropLast_concat] at hr
      exact hearlier r hr
    · exact hearlier r (List.dropLast_subset _ hr)

theorem getLast?_outcomes_of_isFinal (hsome : p.domain ≠ none) (hmx : ¬ p.NullMx)
    (hfinal : p.relay.report.isFinal = true) : p.outcomes.getLast? = some p.relay.report := by
  obtain ⟨hnobody | hnull, -⟩ | ⟨earlier, -, heq⟩ := p.outcomes_cases
  · exact absurd hnobody hsome
  · exact absurd hnull hmx
  · rw [heq, if_pos hfinal, List.getLast?_concat]

theorem count_delivered_of_deferred {earlier : List RelayReport}
    (h : ∀ r ∈ earlier, r.isFinal = false) : earlier.count .delivered = 0 := by
  rw [List.count_eq_zero]
  intro hmem
  cases h _ hmem

/-- `Delivered` is returned on account of the last attempt, and of no other. -/
theorem report_eq_delivered_iff (p : RelayPass κ) : p.relay.report = .delivered ↔
    p.outcomes.count .delivered = 1 ∧ p.outcomes.getLast? = some .delivered := by
  obtain ⟨-, reason, hrelay⟩ | ⟨earlier, hearlier, heq⟩ := p.outcomes_cases
  · rw [outcomes_of_calls_eq_nil (by rw [hrelay]), hrelay]
    simp
  · rw [heq]
    cases hfinal : p.relay.report.isFinal with
    | true =>
      rw [if_pos rfl, List.count_append, count_delivered_of_deferred hearlier,
        List.getLast?_concat, Option.some.injEq]
      constructor
      · intro h
        rw [h]
        exact ⟨rfl, rfl⟩
      · exact fun h => h.2
    | false =>
      rw [if_neg Bool.false_ne_true, count_delivered_of_deferred hearlier]
      constructor
      · intro h
        rw [h] at hfinal
        cases hfinal
      · exact fun h => absurd h.1 Nat.zero_ne_one

theorem exists_of_not_isFinal {r : RelayReport} (h : r.isFinal = false) :
    ∃ code text, r = .deferred code text := by
  cases r with
  | deferred code text => exact ⟨code, text, rfl⟩
  | delivered => cases h
  | failed reason => cases h

/-- With nothing final on record, the message stays in the queue. -/
theorem deferred_of_not_final (hsome : p.domain ≠ none) (hmx : ¬ p.NullMx)
    (hnone : ∀ r ∈ p.outcomes, r.isFinal = false) :
    ∃ code text, p.relay.report = .deferred code text := by
  refine exists_of_not_isFinal (Bool.eq_false_iff.mpr fun hfinal => ?_)
  have hlast := List.mem_of_getLast? (getLast?_outcomes_of_isFinal hsome hmx hfinal)
  rw [hnone _ hlast] at hfinal
  cases hfinal

-- one dialog with a server
def dialog (p : RelayPass κ) (n : Nat) (c : RelayCall κ) : RelayOutcome :=
  relayTo (p.peers n c.addr) c.addr c.serverName p.helo p.message c.policy

theorem outcome_of_transient {n : Nat} {c : RelayCall κ}
    (h : ∃ e ∈ (p.dialog n c).events, e.isTransient = true) :
    ∃ code text, p.outcome n c = .deferred code text := by
  obtain ⟨code, text, hresult⟩ := lenient_relayTo _ _ _ _ _ _ h
  refine ⟨code, text, ?_⟩
  rw [outcome, hresult]

theorem outcome_of_error {n : Nat} {c : RelayCall κ} {e : ReplyError}
    (h : (p.dialog n c).result = .error e) : ∃ code text, p.outcome n c = .deferred code text := by
  rw [dialog] at h
  rw [outcome, h]
  exact ⟨_, _, rfl⟩

theorem outcome_of_refused {n : Nat} {c : RelayCall κ} {e : Str}
    (h : (p.peers n c.addr).connect = .error e) :
    ∃ code text, p.outcome n c = .deferred code text := by
  rw [outcome, relayTo, h]
  exact ⟨_, _, rfl⟩

/-- One pass, whatever is published and however the servers behave: the addresses are tried in order
of preference, the first final report ends the pass, and a delivery is reported exactly when one was
made.  It fails for want of a recipient, at null MX records or by a server's word; all other trouble
leaves the message in the queue. -/
theorem relay_tries_in_order (p : RelayPass κ) :
    (∀ domain mxs, p.domain = some domain → p.published domain = .ok mxs →
      ∃ sorted, StableSort MxRecord.preference mxs sorted ∧
        p.relay.calls.map RelayCall.addr <+: p.route domain sorted ∧
        ((∀ r ∈ p.outcomes, r.isFinal = false) →
          p.relay.calls.map RelayCall.addr = p.route domain sorted)) ∧
    (p.domain = none → p.relay.calls = []) ∧
    (∀ domain e, p.domain = some domain → p.published domain = .error e →
      p.relay.calls = [] ∧ ∃ code text, p.relay.report = .deferred code text) ∧
    (∀ r ∈ p.outcomes.dropLast, r.isFinal = false) ∧
    (p.relay.report = .delivered ↔
      p.outcomes.count .delivered = 1 ∧ p.outcomes.getLast? = some .delivered) ∧
    ((∀ domain, p.resolver.secureMx domain ≠ .ok (some [])) →
      ∀ reason, p.relay.report = .failed reason →
        p.domain = none ∨
        (∃ domain mxs, p.domain = some domain ∧ p.published domain = .ok mxs ∧ mxs ≠ [] ∧
          ∀ mx ∈ mxs, mx.isNull = true) ∨
        p.outcomes.getLast? = some (.failed reason)) ∧
    (p.domain ≠ none → ¬ p.NullMx → (∀ r ∈ p.outcomes, r.isFinal = false) →
      ∃ code text, p.relay.report = .deferred code text) ∧
    (∀ n c, (∃ e, (p.peers n c.addr).connect = .error e) ∨
        (∃ e, (p.dialog n c).result = .error e) ∨
        (∃ e ∈ (p.dialog n c).events, e.isTransient = true) →
      ∃ code text, p.outcome n c = .deferred code text) := by
  refine ⟨?_, ?_, ?_, p.not_isFinal_of_mem_dropLast, p.report_eq_delivered_iff, ?_,
    deferred_of_not_final, ?_⟩
  · intro domain mxs hdomain hpublished
    exact ⟨sortMx mxs, stableSort_insertionSort _ mxs, calls_prefix hdomain hpublished,
      calls_eq_of_not_final hdomain hpublished⟩
  · intro hdomain
    rw [relay_of_domain_none hdomain]
  · intro domain e hdomain hpublished
    obtain ⟨text, hrelay⟩ := relay_of_lookup_error hdomain hpublished
    rw [hrelay]
    exact ⟨rfl, 0, text, rfl⟩
  · intro hsecure reason hfailed
    by_cases hdomain : p.domain = none
    · exact .inl hdomain
    by_cases hnull : p.NullMx
    · obtain ⟨domain, mxs, hsome, hpublished, hall⟩ := hnull
      exact .inr (.inl ⟨domain, mxs, hsome, hpublished,
        published_ne_nil (hsecure domain) hpublished, hall⟩)
    · rw [← hfailed]
      exact .inr (.inr (getLast?_outcomes_of_isFinal hdomain hnull (by rw [hfailed]; rfl)))
  · intro n c h
    obtain ⟨e, h⟩ | ⟨e, h⟩ | h := h
    · exact outcome_of_refused h
    · exact outcome_of_error h
    · exact outcome_of_transient h

end

end RelayPass

-- two exchanges, published the other way round; no server answers
example :
    ((({ singlePass false [exampleIp] (.ok none) with
        mtaSts := none
        resolver := { (singlePass false [] (.ok none)).resolver with
          lookupMx := fun _ => .ok [⟨20, "192.0.2.2".toList⟩, ⟨10, "192.0.2.1".toList⟩] } } :
      RelayPass Nat).relay).calls.map RelayCall.addr) =
      ["192.0.2.1:25".toList, "192.0.2.2:25".toList] := by
  decide +kernel

end Snail.Server
