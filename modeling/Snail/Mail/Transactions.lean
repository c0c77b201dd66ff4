import Snail.Mail.Smtp

/-!
# Transactions — what the replies of a session promise about its envelopes

Commands are fed to `SmtpSession::handle` one after another; the envelope is taken right after
every 354.  What was answered so far decides what the next envelope holds.
-/

open Snail.Reasoning

namespace Snail.Mail

/-- A command, the reply to it, and the envelope that was taken if the reply was 354. -/
structure Turn where
  command : SmtpCommand
  reply : SmtpReply
  envelope : Option Envelope
  deriving DecidableEq, Repr

def SmtpSession.turn (s : SmtpSession) (command : SmtpCommand) : Turn × SmtpSession :=
  let (reply, s') := s.handle command
  if reply.code = 354 then (⟨command, reply, s'.takeEnvelope.1⟩, s'.takeEnvelope.2)
  else (⟨command, reply, none⟩, s')

/-- A whole run of the session. -/
def SmtpSession.turns (s : SmtpSession) : List SmtpCommand → List Turn × SmtpSession
  | [] => ([], s)
  | command :: rest =>
      let (t, s') := s.turn command
      let (log, final) := s'.turns rest
      (t :: log, final)

namespace SmtpSession

theorem turns_append (s : SmtpSession) (l m : List SmtpCommand) :
    s.turns (l ++ m) =
      ((s.turns l).1 ++ ((s.turns l).2.turns m).1, ((s.turns l).2.turns m).2) := by
  induction l generalizing s with
  | nil => rfl
  | cons command rest ih =>
    rw [List.cons_append, turns, turns]
    dsimp only
    rw [ih]
    rfl

theorem turns_concat (s : SmtpSession) (l : List SmtpCommand) (command : SmtpCommand) :
    s.turns (l ++ [command]) =
      ((s.turns l).1 ++ [((s.turns l).2.turn command).1], ((s.turns l).2.turn command).2) :=
  turns_append s l [command]

theorem length_turns (s : SmtpSession) (l : List SmtpCommand) :
    (s.turns l).1.length = l.length := by
  induction l generalizing s with
  | nil => rfl
  | cons command rest ih =>
    rw [turns]
    dsimp only
    rw [List.length_cons, List.length_cons, ih]

/-- A turn of a run was taken from the state that the commands before it lead to. -/
theorem turns_split {s : SmtpSession} {commands : List SmtpCommand} {before after : List Turn}
    {t : Turn} (h : (s.turns commands).1 = before ++ t :: after) :
    ∃ l command m, commands = l ++ command :: m ∧ (s.turns l).1 = before ∧
      ((s.turns l).2.turn command).1 = t := by
  have hlen : before.length < commands.length := by
    have hturns := length_turns s commands
    rw [h] at hturns
    simp only [List.length_append, List.length_cons] at hturns
    omega
  have hsplit : commands = commands.take before.length ++
      commands.get ⟨before.length, hlen⟩ :: commands.drop (before.length + 1) := by
    simp
  refine ⟨_, _, _, hsplit, ?_⟩
  have hlog := turns_append s (commands.take before.length)
    (commands.get ⟨before.length, hlen⟩ :: commands.drop (before.length + 1))
  rw [← hsplit] at hlog
  rw [hlog] at h
  have hbefore : (s.turns (commands.take before.length)).1.length = before.length := by
    rw [length_turns, List.length_take]
    omega
  have hparts := List.append_inj h hbefore
  refine ⟨hparts.1, ?_⟩
  rw [turns] at hparts
  exact (List.cons.inj hparts.2).1

end SmtpSession

/-! ## 1. Transactions as the replies show them -/

namespace Turn

def greets (t : Turn) : Bool :=
  match t.command with
  | .helo _ | .ehlo _ => true
  | _ => false

/-- The turn ends whatever transaction was open, or opens another one. -/
def ends (t : Turn) : Bool :=
  match t.command with
  | .rset | .helo _ | .ehlo _ => true
  | .data => t.reply.code = 354
  | .mailFrom _ => t.reply.code = 250
  | _ => false

def accepted? (t : Turn) : Option Mailbox :=
  match t.command with
  | .rcptTo rcpt => if t.reply.code = 250 then some rcpt else none
  | _ => none

end Turn

/-- After a greeting `sender` was acknowledged by an accepted MAIL FROM and nothing has ended the
transaction since; `rcpts` are the recipients acknowledged since then, in order. -/
def Acknowledged (log : List Turn) (sender : Option Mailbox) (rcpts : List Mailbox) : Prop :=
  ∃ earlier opening since, log = earlier ++ opening :: since ∧
    (∃ t ∈ earlier, t.greets = true) ∧
    opening.command = .mailFrom sender ∧ opening.reply.code = 250 ∧
    (∀ t ∈ since, t.ends = false) ∧
    since.filterMap Turn.accepted? = rcpts

theorem Acknowledged.concat {log : List Turn} {sender : Option Mailbox} {rcpts : List Mailbox}
    (h : Acknowledged log sender rcpts) {t : Turn} (ht : t.ends = false) :
    Acknowledged (log ++ [t]) sender (rcpts ++ t.accepted?.toList) := by
  obtain ⟨earlier, opening, since, rfl, hgreet, hmail, hcode, hsince, rfl⟩ := h
  refine ⟨earlier, opening, since ++ [t], by simp, hgreet, hmail, hcode, ?_, ?_⟩
  · intro x hx
    rcases List.mem_append.mp hx with hx | hx
    · exact hsince x hx
    · rw [List.mem_singleton.mp hx]
      exact ht
  · rw [List.filterMap_append, List.filterMap_cons, List.filterMap_nil]
    cases t.accepted? with
    | none => rfl
    | some rcpt => rfl

/-! ## 2. What the session remembers -/

/-- The session against its log: an open transaction is the acknowledged one. -/
structure Remembers (maxRecipients : Nat) (log : List Turn) (s : SmtpSession) : Prop where
  limit : s.maxRecipients = maxRecipients
  bounded : s.recipients.length ≤ maxRecipients
  greeted : s.helo.isSome = true → ∃ t ∈ log, t.greets = true
  named : s.phase ≠ .greeting → s.phase ≠ .closed → s.helo.isSome = true
  idle : s.phase = .identified → s.recipients = []
  busy : s.phase = .sender ∨ s.phase = .recipients → Acknowledged log s.sender s.recipients
  addressed : s.phase = .recipients → s.recipients ≠ []
  -- between two turns the session is never inside the message text
  resting : s.phase ≠ .data

section
variable {maxRecipients : Nat} {log : List Turn} {s : SmtpSession}

theorem remembers_new (maxRecipients : Nat) :
    Remembers maxRecipients [] (.withMaxRecipients maxRecipients) where
  limit := rfl
  bounded := Nat.zero_le _
  greeted h := by cases h
  named h := absurd rfl h
  idle h := by cases h
  busy h := by rcases h with h | h <;> cases h
  addressed h := by cases h
  resting h := by cases h

/-- A turn that leaves the session as it is and ends nothing. -/
theorem Remembers.keep (h : Remembers maxRecipients log s) {t : Turn} (hends : t.ends = false)
    (hrcpt : t.accepted? = none) : Remembers maxRecipients (log ++ [t]) s where
  limit := h.limit
  bounded := h.bounded
  greeted hs := by
    obtain ⟨x, hx, hgreet⟩ := h.greeted hs
    exact ⟨x, List.mem_append_left _ hx, hgreet⟩
  named := h.named
  idle := h.idle
  busy hs := by
    have hopen := (h.busy hs).concat hends
    rw [hrcpt, Option.toList_none, List.append_nil] at hopen
    exact hopen
  addressed := h.addressed
  resting := h.resting

/-- A turn after which nothing of a transaction is left. -/
theorem Remembers.cleared (h : Remembers maxRecipients log s) (t : Turn) {s' : SmtpSession}
    (hlimit : s'.maxRecipients = s.maxRecipients) (hrcpts : s'.recipients = [])
    (hphase : s'.phase = .identified ∨ s'.phase = .greeting ∨ s'.phase = .closed)
    (hhelo : s'.helo.isSome = true → t.greets = true ∨ s.helo.isSome = true)
    (hnamed : s'.phase = .identified → s'.helo.isSome = true) :
    Remembers maxRecipients (log ++ [t]) s' where
  limit := hlimit.trans h.limit
  bounded := by
    rw [hrcpts]
    exact Nat.zero_le _
  greeted hs := by
    rcases hhelo hs with hgreet | hold
    · exact ⟨t, by simp, hgreet⟩
    · obtain ⟨x, hx, hgreet⟩ := h.greeted hold
      exact ⟨x, List.mem_append_left _ hx, hgreet⟩
  named hg hc := by
    rcases hphase with hp | hp | hp
    · exact hnamed hp
    · exact absurd hp hg
    · exact absurd hp hc
  idle _ := hrcpts
  busy hs := by
    rcases hs with hs | hs <;> rcases hphase with hp | hp | hp <;> rw [hs] at hp <;> cases hp
  addressed hs := by
    rcases hphase with hp | hp | hp <;> rw [hs] at hp <;> cases hp
  resting hs := by
    rcases hphase with hp | hp | hp <;> rw [hs] at hp <;> cases hp

-- QUIT leaves the lists alone; only a reset or a greeting opens the session again
theorem Remembers.quit (h : Remembers maxRecipients log s) (reply : SmtpReply) :
    Remembers maxRecipients (log ++ [⟨.quit, reply, none⟩]) { s with phase := .closed } where
  limit := h.limit
  bounded := h.bounded
  greeted hs := by
    obtain ⟨x, hx, hgreet⟩ := h.greeted hs
    exact ⟨x, List.mem_append_left _ hx, hgreet⟩
  named _ hc := absurd rfl hc
  idle hs := by cases hs
  busy hs := by rcases hs with hs | hs <;> cases hs
  addressed hs := by cases hs
  resting hs := by cases hs

theorem Remembers.mail (h : Remembers maxRecipients log s) (sender : Option Mailbox)
    (hphase : s.phase = .identified) :
    Remembers maxRecipients (log ++ [⟨.mailFrom sender, smtpReply 250 "OK", none⟩])
      { s with sender := sender, phase := .sender } where
  limit := h.limit
  bounded := h.bounded
  greeted hs := by
    obtain ⟨x, hx, hgreet⟩ := h.greeted hs
    exact ⟨x, List.mem_append_left _ hx, hgreet⟩
  named _ _ := h.named (by rw [hphase]; decide) (by rw [hphase]; decide)
  idle hs := by cases hs
  busy _ := by
    have hnamed := h.named (by rw [hphase]; decide) (by rw [hphase]; decide)
    refine ⟨log, _, [], rfl, h.greeted hnamed, rfl, rfl, by simp, ?_⟩
    exact (h.idle hphase).symm
  addressed hs := by cases hs
  resting hs := by cases hs

theorem Remembers.rcpt (h : Remembers maxRecipients log s) (rcpt : Mailbox)
    (hphase : s.phase = .sender ∨ s.phase = .recipients)
    (hroom : s.recipients.length < s.maxRecipients) :
    Remembers maxRecipients (log ++ [⟨.rcptTo rcpt, smtpReply 250 "OK", none⟩])
      { s with recipients := s.recipients ++ [rcpt], phase := .recipients } where
  limit := h.limit
  bounded := by
    rw [List.length_append, List.length_singleton, ← h.limit]
    exact hroom
  greeted hs := by
    obtain ⟨x, hx, hgreet⟩ := h.greeted hs
    exact ⟨x, List.mem_append_left _ hx, hgreet⟩
  named _ _ := by
    apply h.named
    · rcases hphase with hp | hp <;> rw [hp] <;> decide
    · rcases hphase with hp | hp <;> rw [hp] <;> decide
  idle hs := by cases hs
  busy _ := (h.busy hphase).concat rfl
  addressed _ := by simp
  resting hs := by cases hs

/-! ## 3. One turn -/

-- a reply other than 354 takes no envelope
theorem SmtpSession.turn_of_ne {command : SmtpCommand} (h : (s.handle command).1.code ≠ 354) :
    s.turn command = (⟨command, (s.handle command).1, none⟩, (s.handle command).2) := by
  unfold SmtpSession.turn
  dsimp only
  rw [if_neg h]

/-- 354 answers DATA alone, once there are recipients. -/
theorem SmtpSession.handle_code_eq {command : SmtpCommand}
    (h : (s.handle command).1.code = 354) : command = .data ∧ s.phase = .recipients := by
  cases command with
  | data =>
    refine ⟨rfl, ?_⟩
    by_contra hphase
    rw [SmtpSession.handle, if_neg hphase] at h
    cases h
  | quit | noop | rset | helo _ | ehlo _ => cases h
  | mailFrom _ | startTls =>
    rw [SmtpSession.handle] at h
    split at h <;> cases h
  | rcptTo _ =>
    rw [SmtpSession.handle] at h
    split at h
    · split at h <;> cases h
    · cases h

-- DATA behind an accepted recipient: the envelope is the open transaction
theorem SmtpSession.turn_data (hphase : s.phase = .recipients) (hrcpts : s.recipients ≠ []) :
    s.turn .data =
      (⟨.data, smtpReply 354 "Start mail input; end with <CRLF>.<CRLF>",
          some ⟨s.sender, s.recipients⟩⟩,
        { s with sender := none, recipients := [], phase := .identified }) := by
  unfold SmtpSession.turn
  rw [SmtpSession.handle, if_pos hphase]
  dsimp only
  rw [if_pos (by rfl), SmtpSession.takeEnvelope, if_neg hrcpts]

theorem Remembers.turn (h : Remembers maxRecipients log s) (command : SmtpCommand) :
    Remembers maxRecipients (log ++ [(s.turn command).1]) (s.turn command).2 := by
  by_cases hcode : (s.handle command).1.code = 354
  · obtain ⟨rfl, hphase⟩ := SmtpSession.handle_code_eq hcode
    rw [SmtpSession.turn_data hphase (h.addressed hphase)]
    have hnamed := h.named (by rw [hphase]; decide) (by rw [hphase]; decide)
    exact h.cleared _ rfl rfl (.inl rfl) .inr fun _ => hnamed
  · rw [SmtpSession.turn_of_ne hcode]
    cases command with
    | quit => exact h.quit _
    | noop => exact h.keep rfl rfl
    | rset =>
      rw [SmtpSession.handle]
      by_cases hhelo : s.helo.isSome = true
      · rw [if_pos hhelo]
        exact h.cleared _ rfl rfl (.inl rfl) .inr fun _ => hhelo
      · rw [if_neg hhelo]
        have hphase : s.phase = .greeting ∨ s.phase = .closed := by
          by_contra hphase
          rw [not_or] at hphase
          exact hhelo (h.named hphase.1 hphase.2)
        refine h.cleared _ rfl rfl (.inr hphase) .inr ?_
        intro hidentified
        rcases hphase with hp | hp <;> exact absurd (hidentified.symm.trans hp) (by decide)
    | helo domain | ehlo domain =>
      exact h.cleared _ rfl rfl (.inl rfl) (fun _ => .inl rfl) fun _ => rfl
    | mailFrom sender =>
      rw [SmtpSession.handle]
      by_cases hphase : s.phase = .identified
      · rw [if_pos hphase]
        exact h.mail sender hphase
      · rw [if_neg hphase]
        exact h.keep rfl rfl
    | rcptTo rcpt =>
      rw [SmtpSession.handle]
      by_cases hphase : s.phase = .sender ∨ s.phase = .recipients
      · rw [if_pos hphase]
        by_cases hfull : s.recipients.length ≥ s.maxRecipients
        · rw [if_pos hfull]
          exact h.keep rfl rfl
        · rw [if_neg hfull]
          exact h.rcpt rcpt hphase (by omega)
      · rw [if_neg hphase]
        exact h.keep rfl rfl
    | data =>
      have hphase : s.phase ≠ .recipients := by
        intro hphase
        rw [SmtpSession.handle, if_pos hphase] at hcode
        exact hcode rfl
      rw [SmtpSession.handle, if_neg hphase]
      exact h.keep rfl rfl
    | startTls =>
      rw [SmtpSession.handle]
      by_cases hphase : s.phase = .greeting ∨ s.phase = .identified
      · rw [if_pos hphase]
        exact h.keep rfl rfl
      · rw [if_neg hphase]
        exact h.keep rfl rfl

/-- What the session remembers over a whole run. -/
theorem Remembers.turns (h : Remembers maxRecipients log s) (commands : List SmtpCommand) :
    Remembers maxRecipients (log ++ (s.turns commands).1) (s.turns commands).2 := by
  induction commands using List.reverseRecOn with
  | nil =>
    rw [SmtpSession.turns, List.append_nil]
    exact h
  | append_singleton commands command ih =>
    rw [SmtpSession.turns_concat]
    dsimp only
    rw [← List.append_assoc]
    exact ih.turn command

-- a command adds one recipient at most, and none to a full list
theorem SmtpSession.length_recipients_handle (s : SmtpSession) (command : SmtpCommand) :
    (s.handle command).2.recipients.length ≤ max s.recipients.length s.maxRecipients := by
  cases command with
  | rset | helo _ | ehlo _ => exact Nat.zero_le _
  | quit | noop => exact Nat.le_max_left _ _
  | mailFrom _ | data | startTls =>
    rw [SmtpSession.handle]
    split <;> exact Nat.le_max_left _ _
  | rcptTo rcpt =>
    rw [SmtpSession.handle]
    split
    · split
      · exact Nat.le_max_left _ _
      · rw [List.length_append, List.length_singleton]
        omega
    · exact Nat.le_max_left _ _

end

/-! ## 4. Transactions are what was acknowledged -/

/-- The list of recipients stays within its limit, and every 354 hands over exactly the transaction
that the replies before it have acknowledged. -/
theorem transactions_acknowledged (maxRecipients : Nat) (commands : List SmtpCommand) :
    let run := (SmtpSession.withMaxRecipients maxRecipients).turns commands
    run.2.recipients.length ≤ maxRecipients ∧
    (∀ command, (run.2.handle command).2.recipients.length ≤ maxRecipients) ∧
    ∀ before t after, run.1 = before ++ t :: after → t.reply.code = 354 →
      ∃ sender rcpts, rcpts ≠ [] ∧ Acknowledged before sender rcpts ∧
        t.envelope = some ⟨sender, rcpts⟩ := by
  have hrun := (remembers_new maxRecipients).turns commands
  refine ⟨hrun.bounded, ?_, ?_⟩
  · intro command
    apply (SmtpSession.length_recipients_handle _ command).trans
    rw [hrun.limit]
    exact Nat.max_le.mpr ⟨hrun.bounded, Nat.le_refl _⟩
  · intro before t after hlog hcode
    -- the state in front of the turn remembers the turns before it
    obtain ⟨l, command, m, rfl, rfl, rfl⟩ := SmtpSession.turns_split hlog
    have hstate := (remembers_new maxRecipients).turns l
    rw [List.nil_append] at hstate
    have hreply : ((((SmtpSession.withMaxRecipients maxRecipients).turns l).2).handle
        command).1.code = 354 := by
      by_contra hne
      rw [SmtpSession.turn_of_ne hne] at hcode
      exact hne hcode
    obtain ⟨rfl, hphase⟩ := SmtpSession.handle_code_eq hreply
    have hrcpts := hstate.addressed hphase
    rw [SmtpSession.turn_data hphase hrcpts]
    exact ⟨_, _, hrcpts, hstate.busy (.inr hphase), rfl⟩

/-- The stricter order: from the greeting on no RSET, greeting or DATA at all, not even a refused
one or one between the greeting and the MAIL FROM. -/
def Uninterrupted (log : List Turn) : Prop :=
  ∃ earlier greeting b opening c rcpt d,
    log = earlier ++ greeting :: (b ++ opening :: (c ++ rcpt :: d)) ∧
    greeting.greets = true ∧
    (∃ sender, opening.command = .mailFrom sender) ∧ opening.reply.code = 250 ∧
    rcpt.accepted?.isSome = true ∧
    ∀ t ∈ b ++ (c ++ d), t.command ≠ .rset ∧ t.command ≠ .data ∧ t.greets = false

-- in a log of four turns the greeting is one of the first two
theorem Uninterrupted.not_mem {log : List Turn} (h : Uninterrupted log) (hlen : log.length ≤ 4)
    {t : Turn} (ht : t.command = .rset ∨ t.command = .data) (hstart : t ∉ log.take 1) :
    t ∉ log := by
  obtain ⟨earlier, greeting, b, opening, c, rcpt, d, rfl, hgreet, ⟨sender, hmail⟩, -, hrcpt,
    hall⟩ := h
  simp only [List.length_append, List.length_cons] at hlen
  have hearlier : earlier.length ≤ 1 := by omega
  have hplain : t.greets = false ∧ t.accepted? = none := by
    unfold Turn.greets Turn.accepted?
    rcases ht with ht | ht <;> rw [ht] <;> exact ⟨rfl, rfl⟩
  have hgap : t ∉ b ++ (c ++ d) := by
    intro hmem
    rcases ht with ht | ht
    · exact (hall t hmem).1 ht
    · exact (hall t hmem).2.1 ht
  intro hmem
  simp only [List.mem_append, List.mem_cons, not_or] at hmem hgap
  rcases hmem with hmem | rfl | hmem | rfl | hmem | rfl | hmem
  · apply hstart
    rw [List.take_append, List.take_of_length_le hearlier]
    exact List.mem_append_left _ hmem
  · exact absurd (hgreet.symm.trans hplain.1) (by decide)
  · exact hgap.1 hmem
  · rw [hmail] at ht
    rcases ht with ht | ht <;> cases ht
  · exact hgap.2.1 hmem
  · rw [hplain.2] at hrcpt
    cases hrcpt
  · exact hgap.2.2 hmem

/-- A DATA that was refused and an RSET right behind the greeting are no obstacle. -/
theorem interrupted_transaction_accepted :
    let rcpt : Mailbox := ⟨"a".toList, "b".toList⟩
    let refused := (SmtpSession.withMaxRecipients 1).turns
      [.ehlo "c".toList, .mailFrom none, .data, .rcptTo rcpt, .data]
    let reset := (SmtpSession.withMaxRecipients 1).turns
      [.ehlo "c".toList, .rset, .mailFrom none, .rcptTo rcpt, .data]
    (∃ t, refused.1 = refused.1.take 4 ++ [t] ∧ t.reply.code = 354 ∧
      ¬ Uninterrupted (refused.1.take 4)) ∧
    (∃ t, reset.1 = reset.1.take 4 ++ [t] ∧ t.reply.code = 354 ∧
      ¬ Uninterrupted (reset.1.take 4)) := by
  refine ⟨⟨⟨.data, smtpReply 354 "Start mail input; end with <CRLF>.<CRLF>",
    some ⟨none, [⟨"a".toList, "b".toList⟩]⟩⟩, by decide, rfl, ?_⟩,
    ⟨⟨.data, smtpReply 354 "Start mail input; end with <CRLF>.<CRLF>",
    some ⟨none, [⟨"a".toList, "b".toList⟩]⟩⟩, by decide, rfl, ?_⟩⟩
  · intro h
    exact h.not_mem (t := ⟨.data, smtpReply 503 "Bad sequence: need RCPT TO first", none⟩)
      (by decide) (.inr rfl) (by decide) (by decide)
  · intro h
    exact h.not_mem (t := ⟨.rset, smtpReply 250 "OK", none⟩)
      (by decide) (.inl rfl) (by decide) (by decide)

end Snail.Mail
