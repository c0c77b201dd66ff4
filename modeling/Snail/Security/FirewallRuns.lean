import Snail.Reasoning.Threads
import Snail.Security.Firewall

/-!
# FirewallRuns — one firewall between many connections

The connections share the firewall, and between two locks of one call the calls of the others go on.
A call is cut into the parts that are atomic; what holds of the lists, the tracker, the trace and
the audit log holds however the parts of several calls fall together.
-/

open Snail.Reasoning

namespace Snail.Security

variable {ι σ : Type}

/-! ## 1. Calls and their parts -/

/-- What a thread does next in its call. -/
inductive FirewallCall where
  | idle
  | sweeping (ip : IpAddr)
  | tracking (ip : IpAddr)
  | atSwitch (ip : IpAddr)
  | atAllow (ip : IpAddr)
  | atBlock (ip : IpAddr)
  | atLimiter (ip : IpAddr)
  | tracing (ip : IpAddr) (decision : Decision)
  | auditing (event : AuditEvent)
  deriving DecidableEq

-- a check begins with its number
def FirewallCall.enter (fw : Firewall σ) (ip : IpAddr) : FirewallCall :=
  if fw.checks % maintenanceInterval = 0 then .sweeping ip else .tracking ip

def FirewallCall.go (fw : Firewall σ) (now : Instant) : FirewallCall → Firewall σ × FirewallCall
  | .idle => (fw, .idle)
  | .sweeping ip => (fw.maintain now, .tracking ip)
  | .tracking ip => (fw.track ip now, .atSwitch ip)
  | .atSwitch ip => (fw, if fw.paused = true then .tracing ip .allow else .atAllow ip)
  | .atAllow ip => (fw, if ip ∈ fw.allow then .tracing ip .allow else .atBlock ip)
  | .atBlock ip => (fw, if ip ∈ fw.block then .tracing ip (.deny .blocklisted) else .atLimiter ip)
  | .atLimiter ip => ((fw.limit ip now).2, .tracing ip (fw.limit ip now).1)
  | .tracing ip decision => (fw.traced ip decision, .idle)
  | .auditing _ => (fw, .idle)

-- the decision a check returns with its next part
def FirewallCall.returns : FirewallCall → List (IpAddr × Decision)
  | .tracing ip decision => [(ip, decision)]
  | _ => []

-- the event that is owed to the audit log
def FirewallCall.owes : FirewallCall → List AuditEvent
  | .auditing event => [event]
  | _ => []

-- the attempt that is counted with the next part
def FirewallCall.counts (now : Instant) : FirewallCall → List (IpAddr × Instant)
  | .tracking ip => [(ip, now)]
  | _ => []

/-- The firewall and its callers.  Of what has happened, `returned` are the decisions in the order
of the trace, `counted` the attempts in the order of the tracker, `recorded` the events of the audit
log, and `switched` the changes of the pause switch. -/
structure FirewallSystem (ι σ : Type) where
  fw : Firewall σ
  calls : ι → FirewallCall
  returned : List (IpAddr × Decision)
  counted : List (IpAddr × Instant)
  recorded : List AuditEvent
  switched : List AuditEvent

def FirewallSystem.start (fw : Firewall σ) : FirewallSystem ι σ :=
  ⟨fw, fun _ => .idle, [], [], [], []⟩

/-- What happens next: a thread without a call begins one, a thread goes on with its call, or one of
the calls that are atomic is made. -/
inductive FirewallAction (ι : Type) where
  | check (i : ι) (ip : IpAddr)
  | pause (i : ι)
  | resume (i : ι)
  | go (i : ι) (now : Instant)
  | allowIp (ip : IpAddr)
  | blockIp (ip : IpAddr)
  | maintain (now : Instant)
  deriving DecidableEq

variable [DecidableEq ι]

-- a thread moves the switch; the event is recorded in the next part of the call
def FirewallSystem.switch (s : FirewallSystem ι σ) (i : ι)
    (moved : Option AuditEvent × Firewall σ) : FirewallSystem ι σ :=
  { s with
    fw := moved.2
    calls := Function.update s.calls i (moved.1.elim .idle .auditing)
    switched := s.switched ++ moved.1.toList }

def FirewallSystem.apply (s : FirewallSystem ι σ) : FirewallAction ι → FirewallSystem ι σ
  | .check i ip =>
      if s.calls i = .idle then
        { s with fw := s.fw.count, calls := Function.update s.calls i (.enter s.fw ip) }
      else s
  | .pause i => if s.calls i = .idle then s.switch i s.fw.pause else s
  | .resume i => if s.calls i = .idle then s.switch i s.fw.resume else s
  | .go i now =>
      { fw := ((s.calls i).go s.fw now).1
        calls := Function.update s.calls i ((s.calls i).go s.fw now).2
        returned := s.returned ++ (s.calls i).returns
        counted := s.counted ++ (s.calls i).counts now
        recorded := s.recorded ++ (s.calls i).owes
        switched := s.switched }
  | .allowIp ip => { s with fw := s.fw.allowIp ip }
  | .blockIp ip => { s with fw := s.fw.blockIp ip }
  | .maintain now => { s with fw := s.fw.maintain now }

def FirewallSystem.run (s : FirewallSystem ι σ) (actions : List (FirewallAction ι)) :
    FirewallSystem ι σ :=
  actions.foldl FirewallSystem.apply s

/-- What holds at the start and is kept by the actions of a run holds behind it. -/
theorem FirewallSystem.run_invariant (inv : FirewallSystem ι σ → Prop) {s : FirewallSystem ι σ}
    {actions : List (FirewallAction ι)} (hstart : inv s)
    (hstep : ∀ s, ∀ a ∈ actions, inv s → inv (s.apply a)) : inv (s.run actions) := by
  induction actions generalizing s with
  | nil => exact hstart
  | cons a actions ih =>
    exact ih (hstep s a (by simp) hstart) fun s b hb => hstep s b (by simp [hb])

/-! ## 2. A call that is not interrupted -/

section
variable {s s' : FirewallSystem ι σ} {fw : Firewall σ} {i : ι} {ip : IpAddr}

-- the thread goes on alone from `s` to `s'`
def FirewallSystem.Alone (s : FirewallSystem ι σ) (i : ι) (s' : FirewallSystem ι σ) : Prop :=
  ∃ nows : List Instant, s.run (nows.map (.go i)) = s'

theorem FirewallSystem.Alone.cons (now : Instant) (h : (s.apply (.go i now)).Alone i s') :
    s.Alone i s' := by
  obtain ⟨nows, hrun⟩ := h
  exact ⟨now :: nows, hrun⟩

-- the thread is at that part of its call
def FirewallSystem.during (s : FirewallSystem ι σ) (fw : Firewall σ) (i : ι) (call : FirewallCall) :
    FirewallSystem ι σ :=
  { s with fw, calls := Function.update s.calls i call }

-- a part that leaves nothing behind but the firewall
theorem FirewallSystem.apply_go_silent {call : FirewallCall} (now : Instant)
    (hreturns : call.returns = []) (hcounts : call.counts now = []) (howes : call.owes = []) :
    (s.during fw i call).apply (.go i now) =
      s.during (call.go fw now).1 i (call.go fw now).2 := by
  simp [apply, during, hreturns, hcounts, howes]

-- what a check leaves that has come to a decision
def FirewallSystem.checked (s : FirewallSystem ι σ) (i : ι) (ip : IpAddr)
    (decided : Decision × Firewall σ) : FirewallSystem ι σ :=
  { s.during (decided.2.traced ip decided.1) i .idle with
    returned := s.returned ++ [(ip, decided.1)] }

theorem FirewallSystem.alone_tracing (decision : Decision) :
    (s.during fw i (.tracing ip decision)).Alone i (s.checked i ip (decision, fw)) := by
  refine ⟨[0], ?_⟩
  simp [run, apply, during, checked, FirewallCall.go, FirewallCall.returns, FirewallCall.counts,
    FirewallCall.owes]

/-- From the switch on, the parts of a check decide as `decide` does. -/
theorem FirewallSystem.alone_atSwitch (limited : Instant) :
    (s.during fw i (.atSwitch ip)).Alone i (s.checked i ip (fw.decide ip limited)) := by
  unfold Firewall.decide
  refine .cons limited ?_
  rw [apply_go_silent limited rfl rfl rfl, FirewallCall.go]
  by_cases hpaused : fw.paused = true
  · rw [if_pos hpaused, if_pos (Or.inl hpaused)]
    exact alone_tracing _
  rw [if_neg hpaused]
  refine .cons limited ?_
  rw [apply_go_silent limited rfl rfl rfl, FirewallCall.go]
  by_cases hallow : ip ∈ fw.allow
  · rw [if_pos hallow, if_pos (Or.inr hallow)]
    exact alone_tracing _
  rw [if_neg hallow, if_neg (not_or.mpr ⟨hpaused, hallow⟩)]
  refine .cons limited ?_
  rw [apply_go_silent limited rfl rfl rfl, FirewallCall.go]
  split
  · exact alone_tracing _
  refine .cons limited ?_
  rw [apply_go_silent limited rfl rfl rfl]
  exact alone_tracing _

theorem FirewallSystem.alone_tracking (seen limited : Instant) :
    (s.during fw i (.tracking ip)).Alone i
      ({ s with counted := s.counted ++ [(ip, seen)] }.checked i ip
        ((fw.track ip seen).decide ip limited)) := by
  refine .cons seen ?_
  have hseen : (s.during fw i (.tracking ip)).apply (.go i seen) =
      { s with counted := s.counted ++ [(ip, seen)] }.during (fw.track ip seen) i
        (.atSwitch ip) := by
    simp [apply, during, FirewallCall.go, FirewallCall.returns, FirewallCall.counts,
      FirewallCall.owes]
  rw [hseen]
  exact alone_atSwitch limited

/-- The parts of a check that no other call comes between are `check`. -/
theorem FirewallSystem.alone_check (hidle : s.calls i = .idle) (ip : IpAddr)
    (clocks : CheckClocks) :
    (s.apply (.check i ip)).Alone i
      { s with
        fw := (s.fw.check ip clocks).2
        returned := s.returned ++ [(ip, (s.fw.check ip clocks).1)]
        counted := s.counted ++ [(ip, clocks.seen)] } := by
  have hover : Function.update s.calls i .idle = s.calls := by
    rw [← hidle, Function.update_eq_self]
  have htracking : ∀ fw, (s.during fw i (.tracking ip)).Alone i _ :=
    fun fw => alone_tracking clocks.seen clocks.limited
  simp only [checked, during, hover] at htracking
  rw [apply, if_pos hidle]
  change (s.during s.fw.count i (.enter s.fw ip)).Alone i _
  unfold FirewallCall.enter Firewall.check
  by_cases hdue : s.fw.checks % maintenanceInterval = 0
  · rw [if_pos hdue, if_pos hdue]
    refine .cons clocks.swept ?_
    rw [apply_go_silent clocks.swept rfl rfl rfl]
    exact htracking _
  · rw [if_neg hdue, if_neg hdue]
    exact htracking _

end

/-! ## 3. What the parts keep -/

namespace FirewallCall

variable (fw : Firewall σ) (now : Instant) (call : FirewallCall)

theorem allow_go : (call.go fw now).1.allow = fw.allow := by
  cases call <;> rfl

theorem block_go : (call.go fw now).1.block = fw.block := by
  cases call <;> rfl

theorem paused_go : (call.go fw now).1.paused = fw.paused := by
  cases call <;> rfl

theorem audited_go : (call.go fw now).1.audited = fw.audited := by
  cases call <;> rfl

-- the trace and the tracker are moved by one part each
theorem trace_go : (call.go fw now).1.trace = fw.trace.pushAll call.returns := by
  cases call <;> rfl

theorem tracker_go : (call.go fw now).1.tracker =
    (call.counts now).foldl (fun t a => (t.recordAt a.1 a.2).2) fw.tracker := by
  cases call <;> rfl

end FirewallCall

/-! ## 4. Memory -/

/-- The tracker is that of the attempts counted, and the trace shows the end of what was decided. -/
structure FirewallSystem.Remembers (config : FirewallConfig σ) (s : FirewallSystem ι σ) : Prop where
  tracker : s.fw.tracker = .after config.idleTtl config.maxTrackedIps s.counted
  trace : s.fw.trace = (DecisionTrace.new config.traceCapacity).pushAll s.returned

theorem FirewallSystem.Remembers.apply {config : FirewallConfig σ} {s : FirewallSystem ι σ}
    (h : s.Remembers config) (a : FirewallAction ι) : (s.apply a).Remembers config := by
  cases a with
  | check i ip | pause i | resume i =>
    rw [FirewallSystem.apply]
    split
    · exact ⟨h.tracker, h.trace⟩
    · exact h
  | go i now =>
    constructor
    · change ((s.calls i).go s.fw now).1.tracker = .after _ _ (s.counted ++ _)
      rw [FirewallCall.tracker_go, h.tracker, ConnectionTracker.after, ConnectionTracker.after,
        List.foldl_append]
    · change ((s.calls i).go s.fw now).1.trace = Recent.pushAll _ (s.returned ++ _)
      rw [FirewallCall.trace_go, h.trace, Recent.pushAll, Recent.pushAll, Recent.pushAll,
        List.foldl_append]
  | allowIp ip | blockIp ip | maintain now => exact ⟨h.tracker, h.trace⟩

theorem FirewallSystem.remembers_run (config : FirewallConfig σ)
    (actions : List (FirewallAction ι)) :
    ((FirewallSystem.start (Firewall.build config)).run actions).Remembers config :=
  run_invariant (Remembers config) ⟨rfl, rfl⟩ fun _ a _ h => h.apply a

/-- However the calls fall together, the tracker holds no more addresses than its limit and the
trace shows the last decisions; attempts are never made up, and all counted before the first sweep
as long as there is room. -/
theorem firewall_memory_bounded (config : FirewallConfig σ) (actions : List (FirewallAction ι)) :
    let s := (FirewallSystem.start (Firewall.build config)).run actions
    s.fw.tracker.trackedIps ≤ config.maxTrackedIps ∧
      s.fw.trace.entries = s.returned.rtake (max config.traceCapacity 1) ∧
      (∀ ip, s.fw.tracker.attempts ip ≤ (s.counted.map Prod.fst).count ip) ∧
      (s.counted.length < pruneInterval →
        (s.counted.map Prod.fst).toFinset.card ≤ config.maxTrackedIps →
        ∀ ip, s.fw.tracker.attempts ip = (s.counted.map Prod.fst).count ip) := by
  intro s
  obtain ⟨htracker, htrace⟩ := FirewallSystem.remembers_run config actions
  change s.fw.tracker = _ at htracker
  change s.fw.trace = _ at htrace
  rw [htracker, htrace]
  refine ⟨ConnectionTracker.trackedIps_after_le _ _ _, Recent.entries_pushAll _ _,
    ConnectionTracker.attempts_after_le _ _ _, ?_⟩
  intro hshort hfits ip
  exact (ConnectionTracker.holds_after _ _ hshort hfits).attempts ip

/-! ## 5. Later checks -/

section
variable {s : FirewallSystem ι σ} {i : ι} {ip : IpAddr}
  {before after : List (FirewallAction ι)}

/-- What an action does to the lists and the switch: the lists only grow, and a call that goes on
moves neither them nor the switch. -/
structure FirewallSystem.Moves (s : FirewallSystem ι σ) (a : FirewallAction ι)
    (s' : FirewallSystem ι σ) : Prop where
  allow : s'.fw.allow = s.fw.allow ∨ ∃ ip, a = .allowIp ip ∧ s'.fw.allow = insert ip s.fw.allow
  block : s'.fw.block = s.fw.block ∨ ∃ ip, s'.fw.block = insert ip s.fw.block
  paused : s'.fw.paused = s.fw.paused ∨ (∃ i, a = .pause i ∧ s'.fw.paused = true) ∨
    ∃ i, a = .resume i ∧ s'.fw.paused = false

theorem FirewallSystem.moves_apply (s : FirewallSystem ι σ) (a : FirewallAction ι) :
    s.Moves a (s.apply a) := by
  have hstay : s.Moves a s := ⟨.inl rfl, .inl rfl, .inl rfl⟩
  cases a with
  | check i ip =>
    rw [apply]
    split
    · exact ⟨.inl rfl, .inl rfl, .inl rfl⟩
    · exact hstay
  | pause i =>
    rw [apply]
    split
    · exact ⟨.inl rfl, .inl rfl, .inr (.inl ⟨i, rfl, rfl⟩)⟩
    · exact hstay
  | resume i =>
    rw [apply]
    split
    · exact ⟨.inl rfl, .inl rfl, .inr (.inr ⟨i, rfl, rfl⟩)⟩
    · exact hstay
  | go i now =>
    exact ⟨.inl (FirewallCall.allow_go ..), .inl (FirewallCall.block_go ..),
      .inl (FirewallCall.paused_go ..)⟩
  | allowIp ip => exact ⟨.inr ⟨ip, rfl, rfl⟩, .inl rfl, .inl rfl⟩
  | blockIp ip => exact ⟨.inl rfl, .inr ⟨ip, rfl⟩, .inl rfl⟩
  | maintain now => exact ⟨.inl rfl, .inl rfl, .inl rfl⟩

theorem FirewallSystem.mem_allow_apply (h : ip ∈ s.fw.allow) (a : FirewallAction ι) :
    ip ∈ (s.apply a).fw.allow := by
  rcases (s.moves_apply a).allow with heq | ⟨new, -, heq⟩
  · rwa [heq]
  · rw [heq]
    exact Finset.mem_insert_of_mem h

theorem FirewallSystem.mem_block_apply (h : ip ∈ s.fw.block) (a : FirewallAction ι) :
    ip ∈ (s.apply a).fw.block := by
  rcases (s.moves_apply a).block with heq | ⟨new, heq⟩
  · rwa [heq]
  · rw [heq]
    exact Finset.mem_insert_of_mem h

theorem FirewallSystem.not_mem_allow_apply (h : ip ∉ s.fw.allow) {a : FirewallAction ι}
    (ha : a ≠ .allowIp ip) : ip ∉ (s.apply a).fw.allow := by
  rcases (s.moves_apply a).allow with heq | ⟨new, rfl, heq⟩
  · rwa [heq]
  · rw [heq, Finset.mem_insert, not_or]
    refine ⟨?_, h⟩
    rintro rfl
    exact ha rfl

/-- A thread stays where it is, begins a call, is done with one, or goes on with its own. -/
theorem FirewallSystem.calls_apply (s : FirewallSystem ι σ) (a : FirewallAction ι) (i : ι) :
    (s.apply a).calls i = s.calls i ∨ (∃ ip, (s.apply a).calls i = .enter s.fw ip) ∨
      (∃ moved : Option AuditEvent, (s.apply a).calls i = moved.elim .idle .auditing) ∨
      ∃ now, (s.apply a).calls i = ((s.calls i).go s.fw now).2 := by
  have hupdate : ∀ (j : ι) (call : FirewallCall), Function.update s.calls j call i = s.calls i ∨
      j = i ∧ Function.update s.calls j call i = call := by
    intro j call
    by_cases hij : j = i
    · rw [hij, Function.update_self]
      exact .inr ⟨rfl, rfl⟩
    · exact .inl (Function.update_of_ne (Ne.symm hij) _ _)
  cases a with
  | check j ip =>
    rw [apply]
    split
    · exact (hupdate j _).imp_right fun h => .inl ⟨ip, h.2⟩
    · exact .inl rfl
  | pause j | resume j =>
    rw [apply]
    split
    · exact (hupdate j _).imp_right fun h => .inr (.inl ⟨_, h.2⟩)
    · exact .inl rfl
  | go j now =>
    rcases hupdate j ((s.calls j).go s.fw now).2 with h | ⟨rfl, h⟩
    · exact .inl h
    · exact .inr (.inr (.inr ⟨now, h⟩))
  | allowIp ip | blockIp ip | maintain now => exact .inl rfl

/-- A call about `ip` reaches none of the stages, and returns no other decision. -/
def FirewallCall.Avoids (ip : IpAddr) (decision : Decision) (stages : List FirewallCall)
    (call : FirewallCall) : Prop :=
  call ∉ stages ∧ ∀ d, (ip, d) ∈ call.returns → d = decision

-- the stages between the pause switch and the decision
def FirewallCall.gates (ip : IpAddr) : List FirewallCall :=
  [.atAllow ip, .atBlock ip, .atLimiter ip]

theorem FirewallCall.avoids_of_not_mem {call : FirewallCall} {decision : Decision}
    {stages : List FirewallCall} (hstages : stages ⊆ gates ip) (hgate : call ∉ gates ip)
    (hreturns : call.returns = []) : call.Avoids ip decision stages :=
  ⟨fun hmem => hgate (hstages hmem), by simp [hreturns]⟩

theorem FirewallCall.avoids_enter {decision : Decision} {stages : List FirewallCall}
    (hstages : stages ⊆ gates ip) (fw : Firewall σ) (new : IpAddr) :
    (FirewallCall.enter fw new).Avoids ip decision stages := by
  apply avoids_of_not_mem hstages <;> rw [enter] <;> split <;> simp [gates, returns]

/-- Where the firewall stays as `P` says, and a call then avoids the stages, the checks that a
thread begins return the decision that is left. -/
theorem FirewallSystem.decision_later (P : Firewall σ → Prop) (decision : Decision)
    (stages : List FirewallCall) (hstages : stages ⊆ FirewallCall.gates ip) (hs : P s.fw)
    (hidle : (s.run before).calls i = .idle)
    (hfw : ∀ s : FirewallSystem ι σ, ∀ a ∈ before ++ after, P s.fw → P (s.apply a).fw)
    (hgo : ∀ fw now (call : FirewallCall), P fw → call.Avoids ip decision stages →
      (call.go fw now).2.Avoids ip decision stages) {d : Decision}
    (hd : (ip, d) ∈ (((s.run before).run after).calls i).returns) : d = decision := by
  have hkept : P (s.run before).fw :=
    run_invariant (fun s => P s.fw) hs fun s a ha h => hfw s a (List.mem_append_left _ ha) h
  refine (run_invariant (fun s' => P s'.fw ∧ (s'.calls i).Avoids ip decision stages)
    ⟨hkept, ?_⟩ ?_).2.2 d hd
  · rw [hidle]
    exact FirewallCall.avoids_of_not_mem hstages (by simp [FirewallCall.gates]) rfl
  · rintro s' a ha ⟨hP, hcall⟩
    refine ⟨hfw s' a (List.mem_append_right _ ha) hP, ?_⟩
    rcases s'.calls_apply a i with h | ⟨new, h⟩ | ⟨moved, h⟩ | ⟨now, h⟩ <;> rw [h]
    · exact hcall
    · exact FirewallCall.avoids_enter hstages s'.fw new
    · apply FirewallCall.avoids_of_not_mem hstages <;> cases moved <;>
        simp [FirewallCall.gates, FirewallCall.returns]
    · exact hgo s'.fw now _ hP hcall

-- what each part does to a call in force of the allowlist, of the pause and of the blocklist
theorem FirewallCall.avoids_go_of_mem_allow {fw : Firewall σ} (hfw : ip ∈ fw.allow) (now : Instant)
    {call : FirewallCall} (h : call.Avoids ip .allow [.atBlock ip, .atLimiter ip]) :
    (call.go fw now).2.Avoids ip .allow [.atBlock ip, .atLimiter ip] := by
  simp only [Avoids, List.mem_cons, List.not_mem_nil, or_false, not_or] at h ⊢
  cases call <;> grind [go, returns]

theorem FirewallCall.avoids_go_of_paused {fw : Firewall σ} (hfw : fw.paused = true) (now : Instant)
    {call : FirewallCall} (h : call.Avoids ip .allow (gates ip)) :
    (call.go fw now).2.Avoids ip .allow (gates ip) := by
  simp only [Avoids, gates, List.mem_cons, List.not_mem_nil, or_false, not_or] at h ⊢
  cases call <;> grind [go, returns]

theorem FirewallCall.avoids_go_of_mem_block {fw : Firewall σ} (hblock : ip ∈ fw.block)
    (hallow : ip ∉ fw.allow) (hpaused : fw.paused = false) (now : Instant) {call : FirewallCall}
    (h : call.Avoids ip (.deny .blocklisted) [.atLimiter ip]) :
    (call.go fw now).2.Avoids ip (.deny .blocklisted) [.atLimiter ip] := by
  simp only [Avoids, List.mem_cons, List.not_mem_nil, or_false] at h ⊢
  cases call <;> grind [go, returns]

/-- However the calls fall together, a check that begins while something is in force returns no
other decision, whatever the checks that began earlier still return: an address on the allowlist is
let in, every address is while the firewall stays paused, and one on the blocklist is not until it
is allowlisted or the firewall is paused. -/
theorem later_checks_respect_policy (hidle : (s.run before).calls i = .idle) {d : Decision}
    (hd : (ip, d) ∈ (((s.run before).run after).calls i).returns) :
    (ip ∈ s.fw.allow → d = .allow) ∧
    (s.fw.paused = true → (∀ j, .resume j ∉ before ++ after) → d = .allow) ∧
    (ip ∈ s.fw.block → ip ∉ s.fw.allow → s.fw.paused = false →
      (∀ j, .pause j ∉ before ++ after) → .allowIp ip ∉ before ++ after →
      d = .deny .blocklisted) := by
  refine ⟨?_, ?_, ?_⟩
  · intro hallow
    refine FirewallSystem.decision_later (fun fw => ip ∈ fw.allow) .allow
      [.atBlock ip, .atLimiter ip] (by simp [FirewallCall.gates]) hallow hidle
      (fun s a _ h => s.mem_allow_apply h a) ?_ hd
    exact fun fw now call hfw hcall => FirewallCall.avoids_go_of_mem_allow hfw now hcall
  · intro hpaused hresume
    refine FirewallSystem.decision_later (fun fw => fw.paused = true) .allow
      (FirewallCall.gates ip) (List.Subset.refl _) hpaused hidle ?_ ?_ hd
    · intro s a ha h
      rcases (s.moves_apply a).paused with heq | ⟨j, -, heq⟩ | ⟨j, rfl, -⟩
      · rwa [heq]
      · exact heq
      · exact absurd ha (hresume j)
    · exact fun fw now call hfw hcall => FirewallCall.avoids_go_of_paused hfw now hcall
  · intro hblock hallow hpaused hpause hallowIp
    refine FirewallSystem.decision_later
      (fun fw => ip ∈ fw.block ∧ ip ∉ fw.allow ∧ fw.paused = false) (.deny .blocklisted)
      [.atLimiter ip] (by simp [FirewallCall.gates]) ⟨hblock, hallow, hpaused⟩ hidle ?_ ?_ hd
    · rintro s a ha ⟨hb, hna, hp⟩
      refine ⟨s.mem_block_apply hb a, ?_, ?_⟩
      · exact s.not_mem_allow_apply hna fun h => hallowIp (h ▸ ha)
      · rcases (s.moves_apply a).paused with heq | ⟨j, rfl, -⟩ | ⟨j, -, heq⟩
        · rwa [heq]
        · exact absurd ha (hpause j)
        · exact heq
    · rintro fw now call ⟨hb, hna, hp⟩ hcall
      exact FirewallCall.avoids_go_of_mem_block hb hna hp now hcall

end

-- without a quota: every address is let through
def KeyedLimiter.open : KeyedLimiter Unit where
  empty := ()
  checkKey _ _ _ := (true, ())
  retainRecent _ _ := ()

-- a check that is past the blocklist when the address is put on it still lets it in
theorem later_checks_blocked :
    let s : FirewallSystem (Fin 2) Unit := (FirewallSystem.start (Firewall.build
      (.default KeyedLimiter.open))).run
        (.check 0 (.v4 1) :: List.replicate 6 (.go 0 0) ++ [.blockIp (.v4 1)])
    let after : List (FirewallAction (Fin 2)) := .check 1 (.v4 1) :: List.replicate 4 (.go 1 0)
    ((s.run after).calls 0).returns = [(.v4 1, .allow)] ∧
      ∃ d, (.v4 1, d) ∈ ((s.run after).calls 1).returns ∧ d = .deny .blocklisted := by
  intro s after
  have hidle : (s.run []).calls 1 = .idle := by decide
  have hd : (.v4 1, .deny .blocklisted) ∈ (((s.run []).run after).calls 1).returns := by decide
  have hpolicy := (later_checks_respect_policy hidle hd).2.2 (by decide) (by decide) rfl (by decide)
    (by decide)
  exact ⟨by decide, .deny .blocklisted, by decide, hpolicy⟩

/-! ## 6. The switch and the audit log -/

/-- The first `n` moves of the switch: it is paused and resumed in turn. -/
def switchTurns : Nat → List AuditEvent
  | 0 => []
  | n + 1 => switchTurns n ++ [if n % 2 = 0 then .firewallPaused else .firewallResumed]

theorem count_switchTurns (n : Nat) :
    (switchTurns n).count .firewallPaused = (n + 1) / 2 ∧
      (switchTurns n).count .firewallResumed = n / 2 := by
  induction n with
  | zero => exact ⟨rfl, rfl⟩
  | succ n ih =>
    rw [switchTurns, List.count_append, List.count_append, ih.1, ih.2]
    rcases Nat.mod_two_eq_zero_or_one n with h | h
    · rw [if_pos h]
      constructor
      · rw [List.count_singleton_self]
        omega
      · rw [List.count_singleton]
        simp only [reduceCtorEq, beq_iff_eq, if_false]
        omega
    · rw [if_neg (by omega)]
      constructor
      · rw [List.count_singleton]
        simp only [reduceCtorEq, beq_iff_eq, if_false]
        omega
      · rw [List.count_singleton_self]
        omega

section
variable [Fintype ι]

/-- With a sink attached, each move of the switch is recorded or still owed by the thread that made
it. -/
structure FirewallSystem.Accounts (s : FirewallSystem ι σ) : Prop where
  audited : s.fw.audited = true
  owed : (s.recorded : Multiset AuditEvent) + ∑ i, ((s.calls i).owes : Multiset AuditEvent) =
    s.switched
  turns : s.switched = switchTurns s.switched.length
  paused : s.fw.paused = decide (s.switched.length % 2 = 1)

theorem FirewallSystem.sum_owes_idle {s : FirewallSystem ι σ} {i : ι} (hidle : s.calls i = .idle)
    (call : FirewallCall) :
    ∑ j, ((Function.update s.calls i call j).owes : Multiset AuditEvent) =
      ∑ j, ((s.calls j).owes : Multiset AuditEvent) + call.owes := by
  have hfree : ((s.calls i).owes : Multiset AuditEvent) = 0 := by
    rw [hidle]
    rfl
  exact sum_phases_take (w := fun c : FirewallCall => (c.owes : Multiset AuditEvent)) hfree rfl

theorem FirewallSystem.Accounts.switch {s : FirewallSystem ι σ} (h : s.Accounts) {i : ι}
    (hidle : s.calls i = .idle) (moved : Option AuditEvent × Firewall σ)
    (haudited : moved.2.audited = true)
    (hmoved : moved.1 = none ∧ moved.2.paused = s.fw.paused ∨
      moved.1 = some (if s.fw.paused = true then .firewallResumed else .firewallPaused) ∧
        moved.2.paused = !s.fw.paused) : (s.switch i moved).Accounts := by
  have howes : ((moved.1.elim FirewallCall.idle .auditing).owes : Multiset AuditEvent) =
      moved.1.toList := by
    cases moved.1 <;> rfl
  refine ⟨haudited, ?_, ?_, ?_⟩
  · change (s.recorded : Multiset AuditEvent) + ∑ j, ((Function.update s.calls i _ j).owes :
      Multiset AuditEvent) = ((s.switched ++ moved.1.toList : List AuditEvent) : Multiset _)
    rw [sum_owes_idle hidle, howes, ← add_assoc, h.owed, Multiset.coe_add]
  · change s.switched ++ moved.1.toList = switchTurns (s.switched ++ moved.1.toList).length
    rcases hmoved with ⟨hnone, -⟩ | ⟨hsome, -⟩
    · rw [hnone, Option.toList_none, List.append_nil]
      exact h.turns
    · rw [hsome, Option.toList_some, List.length_append, List.length_singleton, switchTurns,
        ← h.turns, h.paused]
      rcases Nat.mod_two_eq_zero_or_one s.switched.length with hm | hm <;> simp [hm]
  · change moved.2.paused = decide ((s.switched ++ moved.1.toList).length % 2 = 1)
    rcases hmoved with ⟨hnone, hp⟩ | ⟨hsome, hp⟩
    · rw [hnone, hp, Option.toList_none, List.append_nil, h.paused]
    · rw [hsome, hp, h.paused, Option.toList_some, List.length_append, List.length_singleton,
        Nat.add_mod]
      rcases Nat.mod_two_eq_zero_or_one s.switched.length with hm | hm <;> simp [hm]

theorem FirewallSystem.Accounts.apply {s : FirewallSystem ι σ} (h : s.Accounts)
    (a : FirewallAction ι) : (s.apply a).Accounts := by
  cases a with
  | check i ip =>
    rw [FirewallSystem.apply]
    split
    case isTrue hidle =>
      refine ⟨h.audited, ?_, h.turns, h.paused⟩
      have henter : ((FirewallCall.enter s.fw ip).owes : Multiset AuditEvent) = 0 := by
        rw [FirewallCall.enter]
        split <;> rfl
      have hsum := sum_owes_idle hidle (.enter s.fw ip)
      rw [henter, add_zero] at hsum
      exact (congrArg _ hsum).trans h.owed
    case isFalse => exact h
  | pause i =>
    rw [FirewallSystem.apply]
    split
    case isTrue hidle =>
      refine h.switch hidle s.fw.pause h.audited ?_
      cases hp : s.fw.paused <;> simp [Firewall.pause, hp, h.audited]
    case isFalse => exact h
  | resume i =>
    rw [FirewallSystem.apply]
    split
    case isTrue hidle =>
      refine h.switch hidle s.fw.resume h.audited ?_
      cases hp : s.fw.paused <;> simp [Firewall.resume, hp, h.audited]
    case isFalse => exact h
  | go i now =>
    have hdone : (((s.calls i).go s.fw now).2.owes : Multiset AuditEvent) = 0 := by
      cases s.calls i <;> simp only [FirewallCall.go] <;> (try split) <;> rfl
    refine ⟨?_, ?_, h.turns, ?_⟩
    · exact (FirewallCall.audited_go s.fw now (s.calls i)).trans h.audited
    · change ((s.recorded ++ (s.calls i).owes : List AuditEvent) : Multiset AuditEvent) +
        ∑ j, ((Function.update s.calls i _ j).owes : Multiset AuditEvent) = _
      have hsum := sum_phases_give (w := fun call : FirewallCall =>
        (call.owes : Multiset AuditEvent)) (f := s.calls) (i := i) hdone
      rw [← Multiset.coe_add, add_assoc, add_comm _ (∑ j, _), hsum]
      exact h.owed
    · exact (FirewallCall.paused_go s.fw now (s.calls i)).trans h.paused
  | allowIp ip | blockIp ip | maintain now => exact ⟨h.audited, h.owed, h.turns, h.paused⟩

theorem FirewallSystem.accounts_run (config : FirewallConfig σ)
    (actions : List (FirewallAction ι)) :
    ((FirewallSystem.start (Firewall.build config).withAudit).run actions).Accounts := by
  refine run_invariant Accounts ⟨rfl, ?_, rfl, rfl⟩ fun _ a _ h => h.apply a
  exact (zero_add _).trans (Finset.sum_eq_zero fun _ _ => rfl)

/-- However the calls fall together, the audit log has a pause or a resume for each move of the
switch: those of calls that have not returned are all that it lacks, and when they have, it tells
whether the firewall is paused. -/
theorem audit_log_tells_pauses (config : FirewallConfig σ) (actions : List (FirewallAction ι)) :
    let s := (FirewallSystem.start (Firewall.build config).withAudit).run actions
    (∃ n, s.switched = switchTurns n) ∧ s.recorded.Subperm s.switched ∧
      ((∀ i, s.calls i = .idle) → s.recorded.Perm s.switched ∧
        s.recorded.count .firewallPaused =
          s.recorded.count .firewallResumed + if s.fw.paused = true then 1 else 0) := by
  intro s
  have h : s.Accounts := FirewallSystem.accounts_run config actions
  have hsub : (s.recorded : Multiset AuditEvent) ≤ s.switched := by
    rw [← h.owed]
    exact Multiset.le_add_right _ _
  refine ⟨⟨_, h.turns⟩, Multiset.coe_le.mp hsub, ?_⟩
  intro hidle
  have hperm : s.recorded.Perm s.switched := by
    apply Multiset.coe_eq_coe.mp
    rw [← h.owed, Finset.sum_eq_zero, add_zero]
    intro i _
    rw [hidle i]
    rfl
  obtain ⟨hpaused, hresumed⟩ := count_switchTurns s.switched.length
  refine ⟨hperm, ?_⟩
  rw [hperm.count_eq, hperm.count_eq, h.turns, hpaused, hresumed, h.paused]
  rcases Nat.mod_two_eq_zero_or_one s.switched.length with hm | hm
  · rw [if_neg (by simp [hm])]
    omega
  · rw [if_pos (by simp [hm])]
    omega

end

end Snail.Security
