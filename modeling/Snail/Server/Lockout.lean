import Snail.Security.Window
import Snail.Server.Guesses

/-!
# Lockout — which logins are charged, and what that bounds
-/

set_option linter.dupNamespace false

open Snail.Reasoning Snail.Mail Snail.Network Snail.Security Snail.Access

namespace Snail.Server

/-! ## 1. Charges -/

/-- A failed check is recorded as a failure, and a success is recorded for a granted check only. -/
def Handling.Charged (h : Handling) : Prop :=
  (h.checked = some false → h.recorded = some false) ∧
    (h.recorded = some true → h.checked = some true)

/-- No `LOGIN` with wrong credentials has `OK` as the second word of its tag. -/
def Server.Unspoofed (server : Server) (peer : IpAddr) (t : Turn) : Client → Prop
  | .imap c => ∀ tag username password,
      server.loginLine peer t c = some (tag, username, password) →
        server.auth.check username password = false → secondWord tag ≠ some "OK".toList
  | _ => True

section
variable {server : Server} {peer : IpAddr} {t : Turn} {c : Client}

theorem charged_same (granted : Bool) : Handling.Charged ⟨some granted, some granted⟩ :=
  ⟨fun h => h, fun h => h⟩

theorem charged_nothing : Handling.nothing.Charged :=
  ⟨fun h => (by cases h), fun h => by cases h⟩

theorem charged_iff (h : server.InStep c) :
    (server.handling peer t c).Charged ↔ server.Unspoofed peer t c := by
  cases c with
  | submission c =>
    refine iff_of_true ?_ trivial
    change (server.submissionHandling peer t c).Charged
    rcases submissionHandling_cases server peer t c with
      hnone | ⟨-, -, granted, hsome⟩
    · rw [hnone]
      exact charged_nothing
    · rw [hsome]
      exact charged_same granted
  | pop c =>
    refine iff_of_true ?_ trivial
    change (server.popHandling peer t c).Charged
    rw [popHandling_eq h]
    split
    · exact charged_nothing
    · split
      · exact charged_same _
      · exact ⟨fun hc => (by cases hc), fun hr => by cases hr⟩
  | imap c =>
    change (server.imapHandling peer t c).Charged ↔ _
    rw [imapHandling_eq h]
    cases hline : server.loginLine peer t c with
    | none =>
      refine iff_of_true charged_nothing ?_
      intro tag username password hsome
      rw [hline] at hsome
      cases hsome
    | some line =>
      obtain ⟨tag, username, password⟩ := line
      have honly : server.Unspoofed peer t (.imap c) ↔
          (server.auth.check username password = false → secondWord tag ≠ some "OK".toList) := by
        refine ⟨fun hall => hall tag username password hline, ?_⟩
        intro hone tag' username' password' hline'
        rw [hline] at hline'
        cases hline'
        exact hone
      rw [honly, Ne, ← statusOk_no_iff]
      dsimp only
      cases server.auth.check username password with
      | true => exact iff_of_true ⟨fun hc => (by cases hc), fun _ => rfl⟩ (by simp)
      | false =>
        rw [if_neg (by simp)]
        cases statusOk (noStatus tag "LOGIN failed") with
        | true => exact iff_of_false (fun hc => by cases hc.1 rfl) (by simp)
        | false => exact iff_of_true (charged_same false) (by simp)

-- nothing is recorded for an address that the throttle turns away
theorem allows_of_recorded (h : server.InStep c)
    (hrecorded : (server.handling peer t c).recorded ≠ none) : t.allows peer = true := by
  cases c with
  | submission c =>
    change (server.submissionHandling peer t c).recorded ≠ none at hrecorded
    rcases submissionHandling_cases server peer t c with
      hnone | ⟨-, hallows, -⟩
    · rw [hnone] at hrecorded
      exact absurd rfl hrecorded
    · exact hallows
  | pop c =>
    change (server.popHandling peer t c).recorded ≠ none at hrecorded
    rw [popHandling_eq h] at hrecorded
    split at hrecorded
    · exact absurd rfl hrecorded
    · rename_i password hline
      exact (of_passLine hline).2
  | imap c =>
    change (server.imapHandling peer t c).recorded ≠ none at hrecorded
    rw [imapHandling_eq h] at hrecorded
    split at hrecorded
    · exact absurd rfl hrecorded
    · rename_i tag username password hline
      exact (of_loginLine hline).2

end

/-! ## 2. One address, connection after connection -/

/-- The address connects or sends a line, or another address has a login recorded. -/
inductive Move where
  | connect (protocol : Protocol)
  | turn (t : Turn)
  | other (who : IpAddr) (granted : Bool) (now : SystemTime)

structure Visitor where
  client : Option Client
  throttle : Throttle

def Turn.withThrottle (t : Turn) (throttle : Throttle) : Turn :=
  { t with world := { t.world with throttle } }

section
variable (server : Server) (peer : IpAddr)

def Server.visit (v : Visitor) : Move → Visitor
  | .connect protocol => { v with client := some (server.connect protocol) }
  | .turn t =>
      match v.client with
      | none => v
      | some c =>
          let r := server.stepClient peer (t.withThrottle v.throttle) c
          ⟨r.1, r.2.throttle⟩
  | .other who granted now =>
      if who = peer then v
      else { v with
        throttle := if granted then v.throttle.recordSuccess who
          else v.throttle.recordFailureAt server.throttle who now }

-- the iterations that are made, each as it finds its connection and the throttle
def Server.iterations (v : Visitor) : List Move → List (Turn × Client)
  | [] => []
  | .turn t :: moves =>
      (v.client.toList.map fun c => (t.withThrottle v.throttle, c)) ++
        Server.iterations (server.visit peer v (.turn t)) moves
  | move :: moves => Server.iterations (server.visit peer v move) moves

end

def Server.guesses (server : Server) (peer : IpAddr) (log : List (Turn × Client)) : List Guess :=
  log.filterMap fun i =>
    if (server.handling peer i.1 i.2).checked.isSome then some ⟨i.1.now, i.1.later⟩ else none

-- the clock readings of a move
def Move.readings : Move → List SystemTime
  | .connect _ => []
  | .turn t => [t.now, t.later]
  | .other _ _ now => [now]

def Forward (moves : List Move) : Prop :=
  (moves.flatMap Move.readings).Pairwise fun a b => a.sinceEpoch ≤ b.sinceEpoch

section
variable {server : Server} {peer : IpAddr} {v : Visitor}

theorem inStep_visit (peer : IpAddr) (h : ∀ c ∈ v.client, server.InStep c) (move : Move) :
    ∀ c ∈ (server.visit peer v move).client, server.InStep c := by
  cases move with
  | connect protocol =>
    intro c hc
    cases hc
    exact inStep_connect server protocol
  | turn t =>
    unfold Server.visit
    cases hclient : v.client with
    | none =>
      rw [hclient] at h
      simp only [hclient]
      exact h
    | some c =>
      intro c' hc'
      exact (stepClient_cases (h c hclient) hc').1
  | other who granted now =>
    unfold Server.visit
    dsimp only
    split
    · exact h
    · exact h

-- every iteration finds the flags in step
theorem inStep_iterations (peer : IpAddr) (h : ∀ c ∈ v.client, server.InStep c)
    (moves : List Move) :
    ∀ i ∈ server.iterations peer v moves, server.InStep i.2 := by
  induction moves generalizing v with
  | nil => simp [Server.iterations]
  | cons move moves ih =>
    have hrest := ih (inStep_visit peer h move)
    cases move with
    | connect protocol => exact hrest
    | other who granted now => exact hrest
    | turn t =>
      intro i hi
      rcases List.mem_append.mp hi with hi | hi
      · obtain ⟨c, hc, rfl⟩ := List.mem_map.mp hi
        exact h c (Option.mem_toList.mp hc)
      · exact hrest i hi

theorem unlocked_of_allows {t : Turn} (h : t.allows peer = true) :
    ∀ a ∈ t.world.throttle.lookup peer, a.locked t.now = false := by
  intro a ha
  unfold Turn.allows Throttle.checkAt at h
  rw [show t.world.throttle.lookup peer = some a from ha] at h
  simpa using h

theorem lookup_other {t : Throttle} {who : IpAddr} (hne : peer ≠ who) (granted : Bool)
    (now : SystemTime) (config : ThrottleConfig) :
    (if granted then t.recordSuccess who else t.recordFailureAt config who now).lookup peer =
      if granted then t.lookup peer
      else (t.lookup peer).filter (Attempt.live config.lockout now) := by
  cases granted with
  | true => exact AList.lookup_erase_ne hne
  | false => exact Throttle.lookup_recordFailureAt_of_ne t config now hne

-- of another address only the clock is of account
theorem held_other {past : List Guess} {clock : Int} {who : IpAddr} {granted : Bool}
    {now : SystemTime} (hheld : Held server.throttle past clock (v.throttle.lookup peer))
    (hnow : clock ≤ now.sinceEpoch) :
    Held server.throttle past now.sinceEpoch
      ((server.visit peer v (.other who granted now)).throttle.lookup peer) := by
  unfold Server.visit
  dsimp only
  by_cases hwho : who = peer
  · rw [if_pos hwho]
    exact hheld.later hnow
  · rw [if_neg hwho]
    dsimp only
    rw [lookup_other (Ne.symm hwho)]
    split
    · exact hheld.later hnow
    · exact hheld.prune hnow

theorem iterations_turn_of_none (hclient : v.client = none) (t : Turn) (moves : List Move) :
    server.iterations peer v (.turn t :: moves) = server.iterations peer v moves := by
  have hsame : server.visit peer v (.turn t) = v := by
    unfold Server.visit
    rw [hclient]
  rw [Server.iterations, hclient, hsame]
  rfl

theorem iterations_turn_of_some {c : Client} (hclient : v.client = some c) (t : Turn)
    (moves : List Move) :
    server.iterations peer v (.turn t :: moves) = (t.withThrottle v.throttle, c) ::
      server.iterations peer (server.visit peer v (.turn t)) moves := by
  rw [Server.iterations, hclient]
  rfl

theorem throttle_visit_turn {c : Client} (hclient : v.client = some c) (t : Turn) :
    (server.visit peer v (.turn t)).throttle = server.noted peer (t.withThrottle v.throttle)
      (server.handling peer (t.withThrottle v.throttle) c).recorded := by
  unfold Server.visit
  rw [hclient]
  exact throttle_stepClient c

theorem guesses_cons (i : Turn × Client) (log : List (Turn × Client)) :
    server.guesses peer (i :: log) = server.guesses peer [i] ++ server.guesses peer log := by
  rw [← List.singleton_append]
  exact List.filterMap_append

theorem guesses_of_unchecked {i : Turn × Client}
    (h : (server.handling peer i.1 i.2).checked = none) : server.guesses peer [i] = [] := by
  simp [Server.guesses, h]

theorem guesses_of_checked {i : Turn × Client} {granted : Bool}
    (h : (server.handling peer i.1 i.2).checked = some granted) :
    server.guesses peer [i] = [⟨i.1.now, i.1.later⟩] := by
  simp [Server.guesses, h]

/-- One iteration that charges what it checks, and grants nothing. -/
theorem held_iteration {past : List Guess} {clock : Int} {t : Turn} {c : Client}
    {d : SystemTime} (hclient : v.client = some c) (hin : server.InStep c)
    (hcharged : (server.handling peer (t.withThrottle v.throttle) c).Charged)
    (hgranted : (server.handling peer (t.withThrottle v.throttle) c).checked ≠ some true)
    (hheld : Held server.throttle past clock (v.throttle.lookup peer))
    (hbounded : Bounded server.throttle past) (hasked : clock ≤ t.now.sinceEpoch)
    (hle : t.now.sinceEpoch ≤ t.later.sinceEpoch)
    (hd : t.later.checkedAdd server.throttle.lockout = some d) :
    Held server.throttle (past ++ server.guesses peer [(t.withThrottle v.throttle, c)])
        t.later.sinceEpoch ((server.visit peer v (.turn t)).throttle.lookup peer) ∧
      Bounded server.throttle
        (past ++ server.guesses peer [(t.withThrottle v.throttle, c)]) := by
  rw [throttle_visit_turn hclient]
  cases hrecorded : (server.handling peer (t.withThrottle v.throttle) c).recorded with
  | none =>
    -- nothing was checked either
    have hnone : (server.handling peer (t.withThrottle v.throttle) c).checked = none := by
      cases hchecked : (server.handling peer (t.withThrottle v.throttle) c).checked with
      | none => rfl
      | some granted =>
        cases granted with
        | true => exact absurd hchecked hgranted
        | false =>
          have hfalse := hcharged.1 hchecked
          rw [hrecorded] at hfalse
          cases hfalse
    rw [guesses_of_unchecked hnone, List.append_nil]
    exact ⟨hheld.later (by omega), hbounded⟩
  | some ok =>
    cases ok with
    | true => exact absurd (hcharged.2 hrecorded) hgranted
    | false =>
      have hallowed : (t.withThrottle v.throttle).allows peer = true :=
        allows_of_recorded hin (by rw [hrecorded]; simp)
      have hunlocked := unlocked_of_allows hallowed
      have hfailed : (server.noted peer (t.withThrottle v.throttle) (some false)).lookup peer =
          some (failed server.throttle (v.throttle.lookup peer) t.later) :=
        Throttle.lookup_recordFailureAt _ _ _ _
      rw [hfailed]
      cases hchecked : (server.handling peer (t.withThrottle v.throttle) c).checked with
      | none =>
        rw [guesses_of_unchecked hchecked, List.append_nil]
        exact ⟨hheld.charge hasked hle hunlocked hd, hbounded⟩
      | some granted =>
        rw [guesses_of_checked hchecked]
        exact ⟨hheld.guess hasked hle hunlocked hd,
          hbounded.concat hheld hasked hle hunlocked⟩

theorem bounded_iterations {past : List Guess} {clock : Int} {moves : List Move}
    (hin : ∀ c ∈ v.client, server.InStep c)
    (hheld : Held server.throttle past clock (v.throttle.lookup peer))
    (hbounded : Bounded server.throttle past)
    (hclock : ∀ x ∈ moves.flatMap Move.readings, clock ≤ x.sinceEpoch) (hforward : Forward moves)
    (hrepr : ∀ t, .turn t ∈ moves → (t.later.checkedAdd server.throttle.lockout).isSome)
    (hlog : ∀ i ∈ server.iterations peer v moves,
      (server.handling peer i.1 i.2).Charged ∧ (server.handling peer i.1 i.2).checked ≠ some true) :
    Bounded server.throttle
      (past ++ server.guesses peer (server.iterations peer v moves)) := by
  induction moves generalizing v past clock with
  | nil =>
    rw [Server.iterations, Server.guesses, List.filterMap_nil, List.append_nil]
    exact hbounded
  | cons move moves ih =>
    have hin' := inStep_visit peer hin move
    unfold Forward at hforward
    rw [List.flatMap_cons] at hforward hclock
    obtain ⟨hhere, hrest, hcross⟩ := List.pairwise_append.mp hforward
    have hrepr' : ∀ t, .turn t ∈ moves → (t.later.checkedAdd server.throttle.lockout).isSome :=
      fun t ht => hrepr t (List.mem_cons_of_mem _ ht)
    cases move with
    | connect protocol =>
      exact ih hin' hheld hbounded (fun x hx => hclock x (List.mem_append_right _ hx)) hrest hrepr'
        hlog
    | other who granted now =>
      have hnow : clock ≤ now.sinceEpoch := hclock now (by simp [Move.readings])
      exact ih hin' (held_other hheld hnow) hbounded
        (fun x hx => hcross now (by simp [Move.readings]) x hx) hrest hrepr' hlog
    | turn t =>
      have hasked : clock ≤ t.now.sinceEpoch := hclock t.now (by simp [Move.readings])
      have hle : t.now.sinceEpoch ≤ t.later.sinceEpoch := by
        simpa [Move.readings] using hhere
      have hlater : ∀ x ∈ moves.flatMap Move.readings, t.later.sinceEpoch ≤ x.sinceEpoch :=
        fun x hx => hcross t.later (by simp [Move.readings]) x hx
      obtain ⟨d, hd⟩ := Option.isSome_iff_exists.mp (hrepr t List.mem_cons_self)
      cases hclient : v.client with
      | none =>
        rw [iterations_turn_of_none hclient t moves] at hlog ⊢
        exact ih hin (hheld.later (by omega)) hbounded hlater hrest hrepr' hlog
      | some c =>
        rw [iterations_turn_of_some hclient] at hlog ⊢
        obtain ⟨hcharged, hgranted⟩ := hlog _ List.mem_cons_self
        obtain ⟨hheld', hbounded'⟩ := held_iteration hclient (hin c hclient) hcharged hgranted
          hheld hbounded hasked hle hd
        rw [guesses_cons, ← List.append_assoc]
        exact ih hin' hheld' hbounded' hlater hrest hrepr' fun i hi =>
          hlog i (List.mem_cons_of_mem _ hi)

end

/-- Whether wrong passwords are charged to the throttle.  Over any connections of an address, one
after the other, every failed check is recorded as a failure, and a success only for a check that
was granted, exactly when no `LOGIN` with wrong credentials names `OK` as the second word of its
tag.  Then, with a limit of at least one, a clock that goes forward and no granted check: once as
many checks have failed as the limit says, each less than a lockout after the one before, there is
no further one until a lockout after the last. -/
theorem wrong_passwords_are_charged_iff (server : Server) (peer : IpAddr) (throttle : Throttle)
    (moves : List Move) :
    let log := server.iterations peer ⟨none, throttle⟩ moves
    ((∀ i ∈ log, (server.handling peer i.1 i.2).Charged) ↔
      ∀ i ∈ log, server.Unspoofed peer i.1 i.2) ∧
    ((∀ i ∈ log, server.Unspoofed peer i.1 i.2) → 1 ≤ server.throttle.maxFailures →
      Forward moves →
      (∀ t, .turn t ∈ moves → (t.later.checkedAdd server.throttle.lockout).isSome) →
      (∀ i ∈ log, (server.handling peer i.1 i.2).checked ≠ some true) →
      Apart server.throttle.lockout
        ((server.guesses peer log).take server.throttle.maxFailures) →
      (server.guesses peer log).length ≤ server.throttle.maxFailures ∨
        ∃ last g, (server.guesses peer log)[server.throttle.maxFailures - 1]? = some last ∧
          (server.guesses peer log)[server.throttle.maxFailures]? = some g ∧
          last.recorded.sinceEpoch + (server.throttle.lockout : Int) ≤ g.asked.sinceEpoch) := by
  intro log
  have hin : ∀ c ∈ (Visitor.mk none throttle).client, server.InStep c := by simp
  have hstep := inStep_iterations peer hin moves
  have hiff : ∀ i ∈ log, ((server.handling peer i.1 i.2).Charged ↔
      server.Unspoofed peer i.1 i.2) := fun i hi => charged_iff (hstep i hi)
  refine ⟨forall₂_congr hiff, ?_⟩
  intro hunspoofed hmax hforward hrepr hgranted hapart
  -- any reading of the clock is late enough to start with
  have hstart : ∃ clock : Int, ∀ x ∈ moves.flatMap Move.readings, clock ≤ x.sinceEpoch := by
    cases hreadings : moves.flatMap Move.readings with
    | nil => exact ⟨0, by simp⟩
    | cons first rest =>
      unfold Forward at hforward
      rw [hreadings] at hforward
      refine ⟨first.sinceEpoch, ?_⟩
      intro x hx
      rcases List.mem_cons.mp hx with rfl | hx
      · exact le_refl _
      · exact (List.pairwise_cons.mp hforward).1 x hx
  obtain ⟨clock, hclock⟩ := hstart
  have hheld : Held server.throttle [] clock ((Visitor.mk none throttle).throttle.lookup peer) := by
    simp [Held]
  have hbounded := bounded_iterations hin hheld (by simp [Bounded]) hclock hforward hrepr
    fun i hi => ⟨(hiff i hi).mpr (hunspoofed i hi), hgranted i hi⟩
  exact hbounded.length_le_or hmax hapart

-- five wrong passwords are checked, and the sixth finds the address locked
theorem wrong_passwords_are_charged_iff_locked :
    let moves := .connect .imap :: List.replicate 6 (.turn (lineTurn "a LOGIN a@y.org x\r\n"))
    let log := lonelyServer.iterations (.v4 0) ⟨none, ∅⟩ moves
    let guesses := lonelyServer.guesses (.v4 0) log
    (∀ i ∈ log, lonelyServer.Unspoofed (.v4 0) i.1 i.2) ∧ log.length = 6 ∧ guesses.length = 5 ∧
      (guesses.length ≤ 5 ∨ ∃ last g, guesses[4]? = some last ∧ guesses[5]? = some g ∧
        last.recorded.sinceEpoch + (lonelyServer.throttle.lockout : Int) ≤ g.asked.sinceEpoch) := by
  intro moves log guesses
  have hcases : ∀ h ∈ log.map fun i => lonelyServer.handling (.v4 0) i.1 i.2,
      h = ⟨some false, some false⟩ ∨ h = .nothing := by decide +kernel
  rw [List.forall_mem_map] at hcases
  obtain ⟨hiff, hbound⟩ := wrong_passwords_are_charged_iff lonelyServer (.v4 0) ∅ moves
  have hunspoofed := hiff.mp fun i hi => by
    rcases hcases i hi with h | h <;> rw [h]
    · exact charged_same false
    · exact charged_nothing
  refine ⟨hunspoofed, by decide +kernel, by decide +kernel,
    hbound hunspoofed (by decide) ?_ ?_ ?_ ?_⟩
  · unfold Forward
    decide +kernel
  · intro t ht
    have ht' : t = lineTurn "a LOGIN a@y.org x\r\n" := by simpa [moves] using ht
    rw [ht']
    decide +kernel
  · intro i hi
    rcases hcases i hi with h | h <;> rw [h] <;> simp [Handling.nothing]
  · unfold Apart
    decide +kernel

/-- A tag with a tab in it has a wrong password taken for a success, and the record is gone. -/
theorem spoofed_tag_clears_record :
    (lonelyServer.iterations (.v4 0) ⟨none, ∅⟩ [.connect .imap,
        .turn (lineTurn "a LOGIN a@y.org x\r\n"), .turn (lineTurn "a\tOK LOGIN a@y.org x\r\n")]).map
      (fun i => lonelyServer.handling (.v4 0) i.1 i.2) =
        [⟨some false, some false⟩, ⟨some false, some true⟩] ∧
    ((lonelyServer.visit (.v4 0) (lonelyServer.visit (.v4 0) ⟨none, ∅⟩ (.connect .imap))
      (.turn (lineTurn "a LOGIN a@y.org x\r\n"))).throttle.lookup (.v4 0)).map Attempt.failures =
        some 1 ∧
    (lonelyServer.visit (.v4 0) (lonelyServer.visit (.v4 0) (lonelyServer.visit (.v4 0) ⟨none, ∅⟩
      (.connect .imap)) (.turn (lineTurn "a LOGIN a@y.org x\r\n")))
      (.turn (lineTurn "a\tOK LOGIN a@y.org x\r\n"))).throttle.lookup (.v4 0) = none := by
  decide +kernel

/-! ## 4. Who is charged -/

/-- A failure is recorded for a failed check only, and without a check the throttle stays as it
is. -/
def Server.OnlyGuesses (server : Server) (peer : IpAddr) (t : Turn) (c : Client) : Prop :=
  ((server.handling peer t c).recorded = some false →
    (server.handling peer t c).checked = some false) ∧
  ((server.handling peer t c).checked = none →
    (server.stepClient peer t c).2.throttle = t.world.throttle)

/-- A `PASS` comes when the POP3 session waits for one, and a `LOGIN` with the right credentials has
a tag of one word, or of several with `OK` as the second. -/
def Server.Orderly (server : Server) (peer : IpAddr) (t : Turn) : Client → Prop
  | .submission _ => True
  | .pop c => ∀ password, server.passLine peer t c = some password →
      c.session.state = .authorization ∧ c.session.pendingUser.isSome
  | .imap c => ∀ tag username password,
      server.loginLine peer t c = some (tag, username, password) →
        server.auth.check username password = true →
        (splitWhitespace tag).length = 1 ∨ secondWord tag = some "OK".toList

section
variable {server : Server} {peer : IpAddr} {t : Turn}

theorem throttle_of_nothing {c : Client} (h : server.handling peer t c = .nothing) :
    (server.stepClient peer t c).2.throttle = t.world.throttle := by
  rw [throttle_stepClient, h]
  rfl

theorem onlyGuesses_of_nothing {c : Client} (h : server.handling peer t c = .nothing) :
    server.OnlyGuesses peer t c := by
  refine ⟨?_, fun _ => throttle_of_nothing h⟩
  rw [h]
  intro hr
  cases hr

theorem onlyGuesses_of_checked {c : Client} {granted recorded : Bool}
    (h : server.handling peer t c = ⟨some granted, some recorded⟩) :
    server.OnlyGuesses peer t c ↔ (recorded = false → granted = false) := by
  unfold Server.OnlyGuesses
  rw [h]
  simp

theorem checks_of_passLine {c : PopConn} (h : server.InStep (.pop c)) {password : Str}
    (hline : server.passLine peer t c = some password) :
    (c.session.checks (.pass password)).isSome ↔
      c.session.state = .authorization ∧ c.session.pendingUser.isSome := by
  have hneeds : c.session.needsTls = false := by
    rw [show c.session.needsTls = !server.credentialsChecked c from needsTls_of_flags h.1,
      (of_passLine hline).1]
    rfl
  rw [Pop3Session.checks]
  by_cases hstate : c.session.state = .authorization
  · rw [if_pos ⟨hstate, hneeds⟩, Option.isSome_map]
    exact (and_iff_right hstate).symm
  · rw [if_neg fun hboth => hstate hboth.1]
    exact iff_of_false (by simp) fun hboth => hstate hboth.1

theorem onlyGuesses_pop_iff {c : PopConn} (h : server.InStep (.pop c)) :
    server.OnlyGuesses peer t (.pop c) ↔ server.Orderly peer t (.pop c) := by
  have heq : server.handling peer t (.pop c) = _ := popHandling_eq h
  cases hline : server.passLine peer t c with
  | none =>
    rw [hline] at heq
    refine iff_of_true (onlyGuesses_of_nothing heq) ?_
    intro password hsome
    rw [hline] at hsome
    cases hsome
  | some password =>
    have horderly : server.Orderly peer t (.pop c) ↔
        (c.session.checks (.pass password)).isSome := by
      rw [checks_of_passLine h hline]
      refine ⟨fun hall => hall password hline, ?_⟩
      intro hone password' hline'
      rw [hline] at hline'
      cases hline'
      exact hone
    rw [hline] at heq
    dsimp only at heq
    rw [horderly]
    cases hpair : c.session.checks (.pass password) with
    | some p =>
      rw [hpair] at heq
      exact iff_of_true ((onlyGuesses_of_checked heq).mpr fun hg => hg) rfl
    | none =>
      rw [hpair] at heq
      refine iff_of_false ?_ (by simp)
      intro honly
      have hfalse := honly.1 (by rw [heq])
      rw [heq] at hfalse
      cases hfalse

theorem onlyGuesses_imap_iff {c : ImapConn} (h : server.InStep (.imap c)) :
    server.OnlyGuesses peer t (.imap c) ↔ server.Orderly peer t (.imap c) := by
  have heq : server.handling peer t (.imap c) = _ := imapHandling_eq h
  cases hline : server.loginLine peer t c with
  | none =>
    rw [hline] at heq
    refine iff_of_true (onlyGuesses_of_nothing heq) ?_
    intro tag username password hsome
    rw [hline] at hsome
    cases hsome
  | some line =>
    obtain ⟨tag, username, password⟩ := line
    have horderly : server.Orderly peer t (.imap c) ↔
        (server.auth.check username password = true →
          statusOk (okStatus tag "LOGIN completed") = true) := by
      rw [statusOk_ok_iff]
      refine ⟨fun hall => hall tag username password hline, ?_⟩
      intro hone tag' username' password' hline'
      rw [hline] at hline'
      cases hline'
      exact hone
    rw [hline] at heq
    rw [horderly, onlyGuesses_of_checked heq]
    cases server.auth.check username password with
    | true =>
      rw [if_pos rfl]
      cases statusOk (okStatus tag "LOGIN completed") with
      | true => simp
      | false => simp
    | false => simp

theorem onlyGuesses_iff {c : Client} (h : server.InStep c) :
    server.OnlyGuesses peer t c ↔ server.Orderly peer t c := by
  cases c with
  | submission c =>
    refine iff_of_true ?_ trivial
    rcases submissionHandling_cases server peer t c with
      hnone | ⟨-, -, granted, hsome⟩
    · exact onlyGuesses_of_nothing hnone
    · exact (onlyGuesses_of_checked (c := .submission c) hsome).mpr fun hg => hg
  | pop c => exact onlyGuesses_pop_iff h
  | imap c => exact onlyGuesses_imap_iff h

end

/-- Whether only credential guesses count towards the lockout: in every run of a connection and for
whatever comes next, exactly if a `PASS` comes when the session waits for one, and a `LOGIN` with
the right credentials has a tag of one word or with `OK` as its second. -/
theorem only_guesses_count_iff (server : Server) (peer : IpAddr) (protocol : Protocol)
    (turns : List Turn) (c : Client) (hrun : server.runClient peer protocol turns = some c)
    (t : Turn) : server.OnlyGuesses peer t c ↔ server.Orderly peer t c :=
  onlyGuesses_iff (inStep_runClient hrun).1

-- the POP3 session waits for a `PASS`
def Client.waiting : Client → Bool
  | .pop c => c.session.state = .authorization ∧ c.session.pendingUser.isSome
  | _ => false

theorem only_guesses_count_iff_pass :
    ∃ c, lonelyServer.runClient (.v4 0) .pop [lineTurn "USER a@y.org\r\n"] = some c ∧
      lonelyServer.OnlyGuesses (.v4 0) (lineTurn "PASS x\r\n") c := by
  have hwaiting : (lonelyServer.runClient (.v4 0) .pop [lineTurn "USER a@y.org\r\n"]).map
      Client.waiting = some true := by decide +kernel
  obtain ⟨c, hrun, hc⟩ := Option.map_eq_some_iff.mp hwaiting
  refine ⟨c, hrun, (only_guesses_count_iff lonelyServer (.v4 0) .pop _ c hrun _).mpr ?_⟩
  cases c with
  | submission c => trivial
  | pop c => exact fun _ _ => of_decide_eq_true hc
  | imap c => cases hc

/-- A `PASS` before any `USER` is charged as a failed login, and nothing was checked. -/
theorem early_pass_is_charged :
    lonelyServer.runClient (.v4 0) .pop [] = some (lonelyServer.connect .pop) ∧
    lonelyServer.handling (.v4 0) (lineTurn "PASS x\r\n") (lonelyServer.connect .pop) =
      ⟨none, some false⟩ ∧
    (lineTurn "PASS x\r\n").world.throttle.lookup (.v4 0) = none ∧
    ((lonelyServer.stepClient (.v4 0) (lineTurn "PASS x\r\n")
      (lonelyServer.connect .pop)).2.throttle.lookup (.v4 0)).map Attempt.failures = some 1 :=
  ⟨rfl, by decide +kernel, rfl, by decide +kernel⟩

end Snail.Server
