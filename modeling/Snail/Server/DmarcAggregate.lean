import Snail.Reasoning.Tally
import Snail.Server.Authenticate
import Snail.Server.DmarcReport

/-!
# DmarcAggregate — the rows of the aggregate reports

`DmarcAggregator` of `services/snail_server/src/dmarc_report.rs`.  Both calls hold the mutex from
their first access to the map to their last, so what threads do together is one sequence of calls.
-/

set_option linter.dupNamespace false

open Snail.Reasoning Snail.Mail Snail.Network

namespace Snail.Server

/-! ## 1. The aggregator -/

structure DomainReport where
  published : DmarcRecord
  rua : Str
  rows : AList fun _ : RowKey => Nat

abbrev DmarcAggregator := AList fun _ : Str => DomainReport

-- the arguments of `record`
structure RecordCall where
  result : DmarcResult
  sourceIp : IpAddr
  headerFrom : Str
  spfDomain : Str
  spfResult : Str
  dkim : List (Str × Str)

def RecordCall.rowKey (call : RecordCall) : RowKey where
  sourceIp := call.sourceIp
  headerFrom := toAsciiLowercase call.headerFrom
  disposition := call.result.disposition.asStr
  dkimEvalPass := call.result.dkimAligned
  spfEvalPass := call.result.spfAligned
  spfDomain := toAsciiLowercase call.spfDomain
  spfResult := call.spfResult
  dkim := call.dkim

-- `published.rua.clone().filter(|r| !r.is_empty())`
def reportTo (published : DmarcRecord) : Option Str := published.rua.filter fun r => r ≠ []

-- one more message in a row
def DomainReport.bump (report : DomainReport) (key : RowKey) : DomainReport :=
  { report with rows := report.rows.insert key ((report.rows.lookup key).getD 0 + 1) }

/-- `DmarcAggregator::record`. -/
def DmarcAggregator.record (state : DmarcAggregator) (call : RecordCall) : DmarcAggregator :=
  match call.result.published with
  | none => state
  | some published =>
      match reportTo published with
      | none => state
      | some rua =>
          if call.result.policyDomain = [] then state
          else
            let report := (state.lookup call.result.policyDomain).getD ⟨published, rua, ∅⟩
            state.insert call.result.policyDomain (report.bump call.rowKey)

def pendingReport (e : Sigma fun _ : Str => DomainReport) : PendingReport where
  domain := e.1
  published := e.2.published
  rua := e.2.rua
  rows := e.2.rows.entries.map fun row => (row.1, row.2)

/-- `DmarcAggregator::drain`.  The maps hand out their entries in an order of their own. -/
def DmarcAggregator.drain (state : DmarcAggregator) : List PendingReport × DmarcAggregator :=
  (state.entries.map pendingReport, ∅)

inductive AggregatorCall where
  | record (call : RecordCall)
  | drain

-- the reports of each `drain`, and the state behind the last call
def DmarcAggregator.run : DmarcAggregator → List AggregatorCall →
    List (List PendingReport) × DmarcAggregator
  | state, [] => ([], state)
  | state, .record call :: calls => DmarcAggregator.run (state.record call) calls
  | state, .drain :: calls =>
      let after := DmarcAggregator.run state.drain.2 calls
      (state.drain.1 :: after.1, after.2)

/-! ## 2. Counts -/

-- what a report says about a row
def PendingReport.count (domain : Str) (key : RowKey) (report : PendingReport) : Nat :=
  if report.domain = domain then
    (report.rows.map fun row => if row.1 = key then row.2 else 0).sum
  else 0

def reportsCount (domain : Str) (key : RowKey) (reports : List PendingReport) : Nat :=
  (reports.map (PendingReport.count domain key)).sum

-- what is still pending for a row
def DmarcAggregator.pending (domain : Str) (key : RowKey) (state : DmarcAggregator) : Nat :=
  weigh (fun report => weigh id key report.rows) domain state

/-- The call is to be reported: a record is published that names somebody to report to, and for a
domain. -/
def RecordCall.reportable (call : RecordCall) : Bool :=
  (call.result.published.bind reportTo).isSome && call.result.policyDomain ≠ []

-- a message of the row
def AggregatorCall.isFor (domain : Str) (key : RowKey) : AggregatorCall → Bool
  | .record call => call.reportable && call.result.policyDomain = domain && call.rowKey = key
  | .drain => false

def AggregatorCall.isDrain : AggregatorCall → Bool
  | .record _ => false
  | .drain => true

theorem reportsCount_drain (domain : Str) (key : RowKey) (state : DmarcAggregator) :
    reportsCount domain key state.drain.1 = state.pending domain key := by
  have hcount : ∀ e : Sigma fun _ : Str => DomainReport, (pendingReport e).count domain key =
      if e.1 = domain then weigh id key e.2.rows else 0 := by
    intro e
    rw [← sum_entries]
    unfold pendingReport PendingReport.count
    dsimp only
    rw [List.map_map]
    rfl
  unfold DmarcAggregator.pending reportsCount DmarcAggregator.drain
  rw [← sum_entries, List.map_map]
  exact congrArg List.sum (List.map_congr_left fun e _ => hcount e)

theorem weigh_bump (key : RowKey) (report : DomainReport) (key' : RowKey) :
    weigh id key (report.bump key').rows =
      weigh id key report.rows + (decide (key' = key)).toNat := by
  unfold DomainReport.bump
  rw [weigh_insert]
  by_cases hkey : key' = key
  · subst hkey
    simp [weigh]
  · rw [if_neg (Ne.symm hkey), decide_eq_false hkey]
    rfl

theorem record_of_not_reportable (state : DmarcAggregator) {call : RecordCall}
    (h : call.reportable = false) : state.record call = state := by
  unfold DmarcAggregator.record
  cases hpublished : call.result.published with
  | none => rfl
  | some published =>
    dsimp only
    cases hrua : reportTo published with
    | none => rfl
    | some rua =>
      have hempty : call.result.policyDomain = [] := by
        simpa [RecordCall.reportable, hpublished, hrua] using h
      exact if_pos hempty

theorem record_of_reportable (state : DmarcAggregator) {call : RecordCall}
    (h : call.reportable = true) : ∃ published rua, state.record call =
      state.insert call.result.policyDomain
        (((state.lookup call.result.policyDomain).getD ⟨published, rua, ∅⟩).bump call.rowKey) := by
  unfold DmarcAggregator.record
  unfold RecordCall.reportable at h
  cases hpublished : call.result.published with
  | none => simp [hpublished] at h
  | some published =>
    cases hrua : reportTo published with
    | none => simp [hpublished, hrua] at h
    | some rua =>
      have hempty : call.result.policyDomain ≠ [] := by
        simpa [hpublished, hrua] using h
      refine ⟨published, rua, ?_⟩
      dsimp only
      rw [hrua]
      exact if_neg hempty

theorem pending_record (domain : Str) (key : RowKey) (state : DmarcAggregator) (call : RecordCall) :
    (state.record call).pending domain key = state.pending domain key +
      (AggregatorCall.isFor domain key (.record call)).toNat := by
  rw [show AggregatorCall.isFor domain key (.record call) = (call.reportable &&
    call.result.policyDomain = domain && call.rowKey = key) from rfl]
  cases hreportable : call.reportable with
  | false =>
    rw [record_of_not_reportable state hreportable]
    rfl
  | true =>
    obtain ⟨published, rua, hrecord⟩ := record_of_reportable state hreportable
    unfold DmarcAggregator.pending
    rw [hrecord, weigh_insert, weigh_bump, Bool.true_and]
    by_cases hdomain : domain = call.result.policyDomain
    · subst hdomain
      have hbase : weigh id key ((state.lookup call.result.policyDomain).getD
          ⟨published, rua, ∅⟩).rows = weigh (fun r : DomainReport => weigh id key r.rows)
            call.result.policyDomain state :=
        weigh_eq_getD (fun r : DomainReport => weigh id key r.rows) rfl _ _
      rw [if_pos rfl, hbase, decide_eq_true rfl, Bool.true_and]
    · rw [if_neg hdomain, decide_eq_false (Ne.symm hdomain)]
      rfl

/-! ## 3. Conservation -/

-- a call that hands nothing out
def DmarcAggregator.add (state : DmarcAggregator) : AggregatorCall → DmarcAggregator
  | .record call => state.record call
  | .drain => state

-- a run hands out the states between its `drain`s
theorem run_eq_drains (state : DmarcAggregator) (calls : List AggregatorCall) :
    (state.run calls).1 = (drains ∅ DmarcAggregator.add AggregatorCall.isDrain state calls).1.map
        (fun s => s.drain.1) ∧
      (state.run calls).2 =
        (drains ∅ DmarcAggregator.add AggregatorCall.isDrain state calls).2 := by
  induction calls generalizing state with
  | nil => exact ⟨rfl, rfl⟩
  | cons call calls ih =>
    cases call with
    | record call => exact ih (state.record call)
    | drain => exact ⟨congrArg (state.drain.1 :: ·) (ih ∅).1, (ih ∅).2⟩

theorem pending_add {domain : Str} {key : RowKey} (state : DmarcAggregator) (call : AggregatorCall)
    (h : call.isDrain = false) : (state.add call).pending domain key =
      state.pending domain key + (call.isFor domain key).toNat := by
  cases call with
  | record call => exact pending_record domain key state call
  | drain => cases h

theorem nodup_drain (state : DmarcAggregator) : (state.drain.1.map PendingReport.domain).Nodup ∧
    ∀ report ∈ state.drain.1, (report.rows.map Prod.fst).Nodup := by
  constructor
  · show ((state.entries.map pendingReport).map PendingReport.domain).Nodup
    rw [List.map_map]
    exact state.nodupKeys
  · intro report hreport
    obtain ⟨e, -, rfl⟩ := List.mem_map.mp hreport
    show ((e.2.rows.entries.map fun row => (row.1, row.2)).map Prod.fst).Nodup
    rw [List.map_map]
    exact e.2.rows.nodupKeys

/-- Every message that is to be reported is counted once: the reports that were handed out and what
is pending add up to the calls, and the reports of one `drain` say what was recorded since the one
before it. -/
theorem dmarc_counts_conserved (calls : List AggregatorCall) :
    let drained := (DmarcAggregator.run ∅ calls).1
    let left := (DmarcAggregator.run ∅ calls).2
    (∀ domain key, (drained.map (reportsCount domain key)).sum + left.pending domain key =
      calls.countP (AggregatorCall.isFor domain key)) ∧
    (∀ reports ∈ drained, (reports.map PendingReport.domain).Nodup ∧
      ∀ report ∈ reports, (report.rows.map Prod.fst).Nodup) ∧
    ∀ domain key, drained.map (reportsCount domain key) ++ [left.pending domain key] =
      (calls.splitOnP AggregatorCall.isDrain).map
        (List.countP (AggregatorCall.isFor domain key)) := by
  intro drained left
  obtain ⟨hdrained, hleft⟩ := run_eq_drains ∅ calls
  have hcounts : ∀ domain key, drained.map (reportsCount domain key) =
      (drains ∅ DmarcAggregator.add AggregatorCall.isDrain ∅ calls).1.map
        (DmarcAggregator.pending domain key) := by
    intro domain key
    rw [show drained = _ from hdrained, List.map_map]
    exact List.map_congr_left fun s _ => reportsCount_drain domain key s
  have hempty : ∀ domain key, DmarcAggregator.pending domain key ∅ = 0 := fun _ _ => rfl
  refine ⟨?_, ?_, ?_⟩
  · intro domain key
    rw [hcounts, show left = _ from hleft, sum_drains (hempty domain key) pending_add, hempty,
      Nat.zero_add, sum_map_toNat]
    intro call hdrain
    cases call with
    | record call => cases hdrain
    | drain => rfl
  · intro reports hreports
    rw [show drained = _ from hdrained] at hreports
    obtain ⟨state, -, rfl⟩ := List.mem_map.mp hreports
    exact nodup_drain state
  · intro domain key
    rw [hcounts, show left = _ from hleft, drains_windows (hempty domain key) pending_add, hempty,
      modifyHead_zero_add]
    exact List.map_congr_left fun window _ => sum_map_toNat _ window

/-- A message whose result names no policy domain is not counted, though its record is published and
names an address for reports. -/
theorem record_without_domain_not_counted :
    let call : RecordCall :=
      { result := ⟨true, true, true, true, .none, [],
          some ⟨.none, none, .relaxed, .relaxed, 100, some "mailto:a@x.org".toList⟩⟩
        sourceIp := .v4 1#32
        headerFrom := "x.org".toList
        spfDomain := "x.org".toList
        spfResult := "pass".toList
        dkim := [] }
    (call.result.published.bind reportTo).isSome ∧
      (DmarcAggregator.run ∅ [.record call]).1 = [] ∧
      (DmarcAggregator.run ∅ [.record call]).2.pending call.result.policyDomain call.rowKey = 0 :=
  ⟨rfl, rfl, rfl⟩

/-! ## 4. The calls of the public port -/

/-- The call of `record` for a message, which is not reached by one that fails SPF under
enforcement. -/
def Server.recordCall (server : Server) (peer : IpAddr) (helo mailFrom : Str) (auth : InboundAuth) :
    Option RecordCall :=
  if auth.spf = some .fail ∧ server.spfEnforce then none
  else auth.dmarc.map fun result =>
    { result
      sourceIp := peer
      headerFrom := auth.fromDomain
      spfDomain := spfDomainOf helo mailFrom
      spfResult := (auth.spf.getD .none).asStr
      dkim := auth.dkim.map fun o => (o.domain, o.result.asStr) }

theorem policyDomain_ne_nil {psl : Str → Option Str} {resolver : DnsResolver} {now : SystemTime}
    {fromDomain spfDomain : Str} {spf : Spf.SpfResult} {dkim : List Str}
    (horg : organizationalDomain psl (trimDomain fromDomain) ≠ [])
    (h : (evaluateDmarc psl resolver now fromDomain spf spfDomain dkim).published.isSome) :
    (evaluateDmarc psl resolver now fromDomain spf spfDomain dkim).policyDomain ≠ [] := by
  unfold evaluateDmarc at h ⊢
  dsimp only at h ⊢
  by_cases hsource : trimDomain fromDomain = []
  · rw [if_pos hsource] at h
    cases h
  rw [if_neg hsource] at h ⊢
  cases hfound : discover resolver (trimDomain fromDomain)
      (organizationalDomain psl (trimDomain fromDomain)) with
  | none =>
    rw [hfound] at h
    cases h
  | some found =>
    dsimp only
    cases found.2 with
    | false => exact hsource
    | true => exact horg

/-- A message that comes in on the public port is counted wherever its domain asks for reports and
has an organizational domain. -/
theorem recordCall_reportable {server : Server} {clocks : Clocks} {peer : IpAddr}
    {helo mailFrom : Str} {message : Message} {call : RecordCall}
    (horg : organizationalDomain server.psl (trimDomain (fromDomainOf message.headers)) ≠ [])
    (h : server.recordCall peer helo mailFrom
      (server.authenticate clocks peer helo mailFrom message) = some call)
    (hrua : (call.result.published.bind reportTo).isSome) : call.reportable = true := by
  unfold Server.recordCall at h
  split at h
  · cases h
  obtain ⟨result, hresult, rfl⟩ := Option.map_eq_some_iff.mp h
  unfold Server.authenticate at hresult
  obtain ⟨resolver, -, rfl⟩ := Option.map_eq_some_iff.mp hresult
  have hpublished := Option.isSome_of_isSome_bind hrua
  unfold RecordCall.reportable
  rw [hrua, Bool.true_and, decide_eq_true_iff]
  exact policyDomain_ne_nil horg hpublished

end Snail.Server
