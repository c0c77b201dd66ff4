import Snail.Server.Dsn
import Snail.Server.RelayTo
import Snail.Server.Routing
import Snail.Server.SpoolRuns

/-!
# Worker — the relay worker

`services/snail_server/src/worker.rs`.  A pass lists the entries that are due and makes an attempt
at each: what is delivered is removed, what is put off gets a later time, and what fails for good is
bounced, with a notice to its sender.  The attempts are on record.
-/

open Snail.Reasoning Snail.Mail

namespace Snail.Server

/-! ## 1. A pass -/

def maxAttempts : UInt32 := 5

/-- `backoff`. -/
def backoff (attempts : UInt32) : Duration :=
  Duration.fromSecs (min (min (60 * 2 ^ min attempts.toNat 20) u64Max) 3600)

/-- What one pass meets: the clock of the listing; for each entry how the attempt at it ends, the
clock behind the attempt, and the writes of its notice; and which bounced files are old enough to be
reaped. -/
structure PassIo where
  now : SystemTime
  report : Str → RelayReport
  clock : Str → SystemTime
  writes : Str → Nat → EnqueueIo
  aged : SpoolFile → Bool
  -- the addition of a delay does not panic
  room : ∀ id, (clock id).secs + 3601 < 0x8000000000000000

-- `SystemTime::now() + backoff(attempts)`
def nextAttempt (clock : SystemTime) (attempts : UInt32) : SystemTime :=
  (clock.checkedAdd (backoff attempts)).getD clock

theorem checkedAdd_backoff {clock : SystemTime} (h : clock.secs + 3601 < 0x8000000000000000)
    (attempts : UInt32) :
    clock.checkedAdd (backoff attempts) = some (nextAttempt clock attempts) := by
  have hnanos := clock.nanos_lt
  have hdelay : ((backoff attempts : Nat) : Int) ≤ (3600 * 1000000000 : Nat) :=
    Int.ofNat_le.mpr (Nat.mul_le_mul_right _ (Nat.min_le_right _ _))
  unfold nextAttempt SystemTime.checkedAdd
  dsimp only
  rw [dif_pos (by omega)]
  rfl

def World.onDisk (w : World) (steps : List SpoolStep) : World :=
  { w with disk := runSteps steps w.disk }

/-- `bounce_and_notify`. -/
def bounceAndNotify (server : Server) (io : PassIo) (entry : SpoolEntry) (original : Message)
    (reason : Str) (w : World) : World :=
  let notified := match entry.sender with
    | some sender =>
        let dsn := buildFailureDsn server.hostName sender entry.recipients reason original.rawHead
          (io.clock entry.id)
        (server.acceptInbound w (io.writes entry.id) dsn .permitted).2
    | none => w
  notified.onDisk (bounceSteps entry.id)

-- what the report on an entry leads to
def conclude (server : Server) (io : PassIo) (entry : SpoolEntry) (message : Message)
    (w : World) : World :=
  match io.report entry.id with
  | .delivered => w.onDisk (removeSteps entry.id)
  | .deferred code text =>
      let attempts := entry.attempts + 1
      if attempts ≥ maxAttempts then
        let reason := "retry limit reached after ".toList ++ showNat attempts.toNat ++
          " attempts: ".toList ++ showNat code ++ ' ' :: text
        bounceAndNotify server io entry message reason w
      else
        let next := nextAttempt (io.clock entry.id) attempts
        w.onDisk ((deferSteps w.disk entry.id attempts next).toOption.getD [])
  | .failed reason => bounceAndNotify server io entry message reason w

/-- One attempt: the entry as it was listed, the clock of the listing, the report and the clock
behind it, and the spool before and after. -/
structure Attempt where
  entry : SpoolEntry
  now : SystemTime
  report : RelayReport
  clock : SystemTime
  before : Disk
  after : Disk

-- an entry that cannot be loaded is bounced without an attempt
def relayEntry (server : Server) (io : PassIo) (entry : SpoolEntry) (w : World) :
    World × List Attempt :=
  match loadMessage w.disk entry.id with
  | .error _ => (w.onDisk (bounceSteps entry.id), [])
  | .ok message =>
      let w' := conclude server io entry message w
      (w', [⟨entry, io.now, io.report entry.id, io.clock entry.id, w.disk, w'.disk⟩])

def relayLoop (server : Server) (io : PassIo) : List SpoolEntry → World → World × List Attempt
  | [], w => (w, [])
  | entry :: rest, w =>
      let r := relayEntry server io entry w
      let more := relayLoop server io rest r.1
      (more.1, r.2 ++ more.2)

/-- `reap_bounced`. -/
def reapBounced (aged : SpoolFile → Bool) (d : Disk) : List SpoolStep :=
  (d.keys.filter fun f => f.bounced && aged f).map .unlink

/-- `relay_due`. -/
def relayDue (server : Server) (io : PassIo) (w : World) : World × List Attempt :=
  if server.relay = false then (w, [])
  else match dueNow w.disk io.now with
    | .error _ => (w, [])
    | .ok due =>
        let r := relayLoop server io due w
        (r.1.onDisk (reapBounced io.aged r.1.disk), r.2)

/-- The passes of the worker, one after the other. -/
def runWorker (server : Server) : List PassIo → World → World × List Attempt
  | [], w => (w, [])
  | io :: rest, w =>
      let r := relayDue server io w
      let more := runWorker server rest r.1
      (more.1, r.2 ++ more.2)

/-! ## 2. What can become of an entry -/

namespace Attempt

variable (a : Attempt)

def id : Str := a.entry.id

def isDeferred : Bool :=
  match a.report with
  | .deferred _ _ => true
  | _ => false

-- put off with attempts left
def PutOff : Prop := a.isDeferred = true ∧ a.entry.attempts + 1 < maxAttempts

def Removed : Prop :=
  slots a.after a.id = { slots a.before a.id with eml := none, ctrl := none }

def Bounced : Prop :=
  slots a.after a.id =
    ⟨none, none, none, (slots a.before a.id).eml, (slots a.before a.id).ctrl⟩

/-- The same entry with one attempt more and a later time. -/
def Rescheduled : Prop :=
  (∃ e, readCtrl a.after a.id = .ok e ∧ e.envelope = a.entry.envelope ∧
    e.attempts = a.entry.attempts + 1 ∧
    e.nextAttemptAt = readBack (nextAttempt a.clock e.attempts)) ∧
  (slots a.after a.id).eml = (slots a.before a.id).eml ∧ (slots a.after a.id).marker = none

/-- Removed when delivered, rescheduled when put off, and bounced otherwise. -/
def Left : Prop :=
  (a.report = .delivered → a.Removed) ∧ (a.PutOff → a.Rescheduled) ∧
    (a.report ≠ .delivered → ¬ a.PutOff → a.Bounced)

-- the entries that are new behind the attempt
def created : List Str :=
  (idsOf .ctrl a.after).filter fun id => !(idsOf .ctrl a.before).contains id

instance : Decidable a.PutOff := inferInstanceAs (Decidable (_ ∧ _))

end Attempt

-- no address of the entry begins with `@` or white space
def SpoolEntry.Plain (e : SpoolEntry) : Prop :=
  ∀ m, m ∈ e.sender ∨ m ∈ e.recipients → ∀ c ∈ m.localPart.head?, c ≠ '@' ∧ isWhitespace c = false

instance (e : SpoolEntry) : Decidable e.Plain :=
  decidable_of_iff (((e.sender.toList ++ e.recipients).all fun m =>
    m.localPart.head?.all fun c => c != '@' && !isWhitespace c) = true) (by
      simp only [SpoolEntry.Plain, List.all_eq_true, List.mem_append, Option.mem_toList,
        Option.all_eq_true, Bool.and_eq_true, bne_iff_ne, Bool.not_eq_true', Option.mem_def])

/-! ## 3. The files of an entry -/

theorem readCtrl_congr {d d' : Disk} {id : Str} (h : (slots d' id).ctrl = (slots d id).ctrl) :
    readCtrl d' id = readCtrl d id := by
  unfold readCtrl
  rw [show d'.lookup (ctrlPath id) = d.lookup (ctrlPath id) from h]

theorem dueEntry_congr {d d' : Disk} {id : Str} (h : slots d' id = slots d id) (now : SystemTime) :
    dueEntry d' now id = dueEntry d now id := by
  unfold dueEntry
  rw [show d'.lookup (bouncingMarker id) = d.lookup (bouncingMarker id) from
      congrArg Slots.marker h,
    show d'.lookup (emlPath id) = d.lookup (emlPath id) from congrArg Slots.eml h,
    show d'.lookup (ctrlPath id) = d.lookup (ctrlPath id) from congrArg Slots.ctrl h]

theorem mem_idsOf_ctrl {d : Disk} {id : Str} :
    id ∈ idsOf .ctrl d ↔ (slots d id).ctrl ≠ none := by
  rw [mem_idsOf, Option.isSome_iff_ne_none]
  rfl

theorem nodup_idsOf (kind : FileKind) (d : Disk) : (idsOf kind d).Nodup := by
  refine d.keys_nodup.filterMap ?_
  intro f g id hf hg
  simp only [Option.mem_def, Option.ite_none_right_eq_some, Option.some.injEq] at hf hg
  rw [hf.1, hg.1, hf.2, hg.2]

theorem slots_bounceSteps (d : Disk) (id : Str) :
    slots (runSteps (bounceSteps id) d) id =
      ⟨none, none, none, (slots d id).eml.or (slots d id).bouncedEml,
        (slots d id).ctrl.or (slots d id).bouncedCtrl⟩ := by
  have hfull : bounceSteps id =
      .write (bouncingMarker id) (encodeUtf8 id) :: (settleSteps id).take 3 := rfl
  rw [hfull, runSteps_cons, slots_settle, slots_mark]
  rfl

theorem touches_bounceSteps {id : Str} {step : SpoolStep} (h : step ∈ bounceSteps id) :
    ∀ f ∈ step.touches, f.id = id := by
  obtain rfl | h := List.mem_cons.mp h
  · intro f hf
    rw [List.mem_singleton.mp hf]
    rfl
  · exact touches_settle h

theorem slots_removeSteps (d : Disk) (id : Str) :
    slots (runSteps (removeSteps id) d) id = { slots d id with eml := none, ctrl := none } :=
  slots_remove d id 2

theorem slots_deferSteps {d : Disk} {id : Str} {entry : SpoolEntry}
    (h : readCtrl d id = .ok entry) (attempts : UInt32) (next : SystemTime) :
    (∀ other, other ≠ id → slots (runSteps ((deferSteps d id attempts next).toOption.getD []) d)
        other = slots d other) ∧
      slots (runSteps ((deferSteps d id attempts next).toOption.getD []) d) id =
        { slots d id with
          ctrl := some (encodeUtf8
            (renderCtrl entry.envelope attempts next entry.createdAt)) } := by
  have hsteps : (deferSteps d id attempts next).toOption.getD [] = writeAtomic (ctrlPath id)
      (encodeUtf8 (renderCtrl entry.envelope attempts next entry.createdAt)) := by
    unfold deferSteps
    rw [h]
    rfl
  rw [hsteps]
  refine ⟨fun other hne => ?_, slots_writeAtomic_ctrl d id _⟩
  exact slots_runSteps_of_ne (fun step hstep => touches_writeAtomic hstep) hne d

-- what is reaped was bounced
theorem slots_reapBounced (aged : SpoolFile → Bool) (d : Disk) (id : Str) :
    (slots (runSteps (reapBounced aged d) d) id).eml = (slots d id).eml ∧
      (slots (runSteps (reapBounced aged d) d) id).ctrl = (slots d id).ctrl ∧
      (slots (runSteps (reapBounced aged d) d) id).marker = (slots d id).marker := by
  have hkeep : ∀ f : SpoolFile, f.bounced = false →
      (runSteps (reapBounced aged d) d).lookup f = d.lookup f := by
    intro f hf
    refine lookup_runSteps_of_untouched (fun step hstep htouch => ?_) d
    obtain ⟨g, hg, rfl⟩ := List.mem_map.mp hstep
    rw [List.mem_singleton.mp htouch] at hf
    have hbounced := (List.mem_filter.mp hg).2
    rw [hf] at hbounced
    cases hbounced
  exact ⟨hkeep _ rfl, hkeep _ rfl, hkeep _ rfl⟩

/-! ## 4. The notice -/

/-- A notice to a local sender leaves the spool as it is; one to another is a new entry. -/
theorem notify_cases {server : Server} (hrelay : server.relay = true) (w : World)
    (writes : Nat → EnqueueIo) {dsn : Message} {sender : Mailbox}
    (henv : dsn.envelope = ⟨none, [sender]⟩) :
    ((server.acceptInbound w writes dsn .permitted).2.disk = w.disk ∧
        (server.acceptInbound w writes dsn .permitted).2.counter = w.counter) ∨
      ((server.acceptInbound w writes dsn .permitted).2.disk = (w.enqueue (writes 0) dsn).disk ∧
        (server.acceptInbound w writes dsn .permitted).2.counter = w.counter + 1) := by
  rw [acceptInbound_relayed hrelay]
  by_cases hlocal : server.mta.route sender = .local
  · have hremote : server.remote dsn = [] := by
      rw [Server.remote, henv]
      simp [hlocal]
    rw [hremote]
    exact .inl ⟨rfl, rfl⟩
  · have hremote : server.remote dsn = [sender] := by
      rw [Server.remote, henv]
      simp [hlocal]
    have hsame : dsn.withRecipients [sender] = dsn := Message.withRecipients_self (by rw [henv])
    rw [hremote]
    refine .inr ⟨?_, rfl⟩
    show (World.enqueue _ (writes 0) (dsn.withRecipients [sender])).disk = _
    rw [hsame]
    rfl

/-! ## 5. One attempt -/

/-- From `w` to `w'` only the files of `id` and of the new entries change. -/
structure Touches (w w' : World) (id : Str) (new : List Str) : Prop where
  frame : ∀ other, other ≠ id → other ∉ new → slots w'.disk other = slots w.disk other
  counter : w'.counter = w.counter + new.length

/-- The new entries are none, or the one for the notice to the sender. -/
def Notice (w w' : World) (entry : SpoolEntry) (nanos : Nat) (new : List Str) : Prop :=
  new = [] ∨ ∃ sender now, entry.sender = some sender ∧ new = [newId nanos w.counter] ∧
    w'.disk.lookup (ctrlPath (newId nanos w.counter)) =
      some (encodeUtf8 (renderCtrl ⟨none, [sender]⟩ 0 now now))

theorem touches_onDisk {w : World} {steps : List SpoolStep} {id : Str}
    (h : ∀ step ∈ steps, ∀ f ∈ step.touches, f.id = id) : Touches w (w.onDisk steps) id [] :=
  ⟨fun _ hne _ => slots_runSteps_of_ne h hne w.disk, rfl⟩

theorem of_dueEntry {d : Disk} {now : SystemTime} {id : Str} {entry : SpoolEntry}
    (h : dueEntry d now id = .ok (some entry)) :
    readCtrl d id = .ok entry ∧ entry.nextAttemptAt.le now = true := by
  unfold dueEntry at h
  split at h
  · cases h
  split at h
  · cases h
  split at h
  · cases h
  rename_i text htext
  obtain ⟨record, hrecord, hdecode⟩ := Option.bind_eq_some_iff.mp htext
  unfold readCtrl
  rw [hrecord]
  dsimp only
  rw [hdecode]
  dsimp only
  split at h
  · rename_i found hfound
    split at h
    · rename_i hdue
      cases h
      exact ⟨hfound, hdue⟩
    · cases h
  · cases h

theorem parseCtrl_of_readCtrl {d : Disk} {id : Str} {entry : SpoolEntry}
    (h : readCtrl d id = .ok entry) : ∃ text, parseCtrl id text = .ok entry := by
  unfold readCtrl at h
  split at h
  · cases h
  split at h
  · cases h
  · exact ⟨_, h⟩

-- the addresses that were read from a record fit on a line of one
theorem onLine_of_readCtrl {d : Disk} {id : Str} {entry : SpoolEntry}
    (h : readCtrl d id = .ok entry) {m : Mailbox} (hm : m ∈ entry.sender ∨ m ∈ entry.recipients) :
    OnLine m.toString ∧ (Mailbox.parse m.toString = .ok m ↔
      ∀ c ∈ m.localPart.head?, c ≠ '@' ∧ isWhitespace c = false) := by
  obtain ⟨text, htext⟩ := parseCtrl_of_readCtrl h
  obtain ⟨v, hv, hparse⟩ := read_parseCtrl htext hm
  exact ⟨onLine_toString hparse (newline_not_mem_of_parse hparse hv),
    Mailbox.parse_toString_iff hparse⟩

theorem isSome_of_readsAs {sender sender' : Option Mailbox} (h : ReadsAs sender sender') :
    sender'.isSome = sender.isSome := by
  cases sender with
  | none => rw [show sender' = none from h]
  | some m =>
    obtain ⟨m', -, rfl⟩ := h
    rfl

/-- The counter, the time and whether there is a sender are read as they were written. -/
theorem readCtrl_written {d : Disk} {id : Str} {env : Envelope} {attempts : UInt32}
    {next created : SystemTime} {e : SpoolEntry}
    (hline : ∀ m, m ∈ env.sender ∨ m ∈ env.recipients → OnLine m.toString)
    (hrecord : d.lookup (ctrlPath id) =
      some (encodeUtf8 (renderCtrl env attempts next created)))
    (he : readCtrl d id = .ok e) :
    e.attempts = attempts ∧ e.nextAttemptAt = readBack next ∧
      e.sender.isSome = env.sender.isSome := by
  rw [readCtrl_of_record hrecord, parseCtrl_renderCtrl (fun m hm => hline m (.inl hm))
    fun m hm => hline m (.inr hm)] at he
  obtain ⟨sender, ms, hsender, -, -, rfl⟩ := he
  exact ⟨rfl, rfl, isSome_of_readsAs hsender⟩

/-- The envelope of an entry that is written again is read back exactly if all its addresses are
plain. -/
theorem readCtrl_rewritten_iff {d d' : Disk} {id : Str} {entry : SpoolEntry}
    (h : readCtrl d id = .ok entry) {attempts : UInt32} {next created : SystemTime}
    (hrecord : d'.lookup (ctrlPath id) =
      some (encodeUtf8 (renderCtrl entry.envelope attempts next created))) :
    (∃ e, readCtrl d' id = .ok e ∧ e.envelope = entry.envelope) ↔ entry.Plain := by
  obtain ⟨text, htext⟩ := parseCtrl_of_readCtrl h
  obtain ⟨f, -, -, hrcpts, hsome⟩ := fields_of_parseCtrl htext
  have hread := fun m hm => @onLine_of_readCtrl d id entry h m hm
  have hiff := fun e => @parseCtrl_renderCtrl entry.envelope (fun m hm => (hread m (.inl hm)).1)
    (fun m hm => (hread m (.inr hm)).1) id attempts next created e
  rw [readCtrl_of_record hrecord]
  constructor
  · rintro ⟨e, he, henv⟩ m hm
    obtain ⟨sender, ms, hsender, hms, -, rfl⟩ := (hiff e).mp he
    obtain ⟨hsame, hsames⟩ := Envelope.mk.inj henv
    dsimp only at hsame hsames
    refine (hread m hm).2.mp ?_
    obtain hm | hm := hm
    · rw [show entry.envelope.sender = entry.sender from rfl, hm, hsame, hm] at hsender
      obtain ⟨m', hparse, heq⟩ := hsender
      cases heq
      exact hparse
    · rw [hsames] at hms
      exact List.forall₂_same.mp hms m hm
  · intro hplain
    refine ⟨⟨id, entry.sender, entry.recipients, attempts, readBack next, readBack created⟩,
      (hiff _).mpr ⟨entry.sender, entry.recipients, ?_, List.forall₂_same.mpr ?_, ?_, rfl⟩, rfl⟩
    · show ReadsAs entry.sender entry.sender
      cases hs : entry.sender with
      | none => rfl
      | some m => exact ⟨m, (hread m (.inl hs)).2.mpr (hplain m (.inl hs)), rfl⟩
    · intro m hm
      exact (hread m (.inr hm)).2.mpr (hplain m (.inr hm))
    · rw [hrcpts]
      exact hsome

section
variable {server : Server} {io : PassIo} {entry : SpoolEntry} {w : World}

/-- The files are moved, behind a notice that may be a new entry. -/
theorem bounceAndNotify_spec (hrelay : server.relay = true)
    (hio : (io.writes entry.id 0).fault = none)
    (hne : entry.id ≠ newId (io.writes entry.id 0).nanos w.counter) (original : Message)
    (reason : Str) :
    ∃ new, Touches w (bounceAndNotify server io entry original reason w) entry.id new ∧
      Notice w (bounceAndNotify server io entry original reason w) entry
        (io.writes entry.id 0).nanos new ∧
      slots (bounceAndNotify server io entry original reason w).disk entry.id =
        ⟨none, none, none, (slots w.disk entry.id).eml.or (slots w.disk entry.id).bouncedEml,
          (slots w.disk entry.id).ctrl.or (slots w.disk entry.id).bouncedCtrl⟩ := by
  -- from the world behind the notice on
  have hmove : ∀ notified : World, slots notified.disk entry.id = slots w.disk entry.id →
      slots (notified.onDisk (bounceSteps entry.id)).disk entry.id =
        ⟨none, none, none, (slots w.disk entry.id).eml.or (slots w.disk entry.id).bouncedEml,
          (slots w.disk entry.id).ctrl.or (slots w.disk entry.id).bouncedCtrl⟩ := by
    intro notified hsame
    show slots (runSteps (bounceSteps entry.id) notified.disk) entry.id = _
    rw [slots_bounceSteps, hsame]
  have hother : ∀ (notified : World) (other : Str), other ≠ entry.id →
      slots (notified.onDisk (bounceSteps entry.id)).disk other = slots notified.disk other :=
    fun notified other ho => slots_runSteps_of_ne (fun _ h => touches_bounceSteps h) ho _
  unfold bounceAndNotify
  cases hsender : entry.sender with
  | none =>
    exact ⟨[], touches_onDisk fun _ h => touches_bounceSteps h, .inl rfl, hmove w rfl⟩
  | some sender =>
    dsimp only
    generalize hdsn : buildFailureDsn server.hostName sender entry.recipients reason
      original.rawHead (io.clock entry.id) = dsn
    have henv : dsn.envelope = ⟨none, [sender]⟩ := by
      rw [← hdsn]
      exact envelope_buildFailureDsn _ _ _ _ _ _
    obtain ⟨hdisk, hcounter⟩ | ⟨hdisk, hcounter⟩ :=
      notify_cases hrelay w (io.writes entry.id) henv
    · refine ⟨[], ⟨fun other ho _ => ?_, hcounter⟩, .inl rfl, hmove _ (by rw [hdisk])⟩
      rw [hother _ other ho, hdisk]
    · have hstays : ∀ other, other ≠ newId (io.writes entry.id 0).nanos w.counter →
          slots (w.enqueue (io.writes entry.id 0) dsn).disk other = slots w.disk other :=
        fun other ho => slots_enqueue_of_ne w _ dsn ho
      have hholds := holdsEntry_enqueue (w := w) hio dsn [sender]
      rw [Message.withRecipients_self (by rw [henv])] at hholds
      obtain ⟨now, hrecord⟩ := hholds.ctrl
      refine ⟨[newId (io.writes entry.id 0).nanos w.counter], ⟨fun other ho hnew => ?_, hcounter⟩,
        .inr ⟨sender, now, hsender, rfl, ?_⟩, hmove _ (by rw [hdisk]; exact hstays _ hne)⟩
      · rw [hother _ other ho, hdisk]
        exact hstays other (by simpa using hnew)
      · have hslots := hother (server.acceptInbound w (io.writes entry.id) dsn .permitted).2
          (newId (io.writes entry.id 0).nanos w.counter) (Ne.symm hne)
        rw [show (World.onDisk _ (bounceSteps entry.id)).disk.lookup (ctrlPath _) = _ from
          congrArg Slots.ctrl hslots]
        show (World.disk _).lookup _ = _
        rw [hdisk, hrecord, henv]

/-- What the record of an attempt shows, whatever comes later. -/
structure Attempt.Sound (a : Attempt) : Prop where
  stored : readCtrl a.before a.id = .ok a.entry
  due : a.entry.nextAttemptAt.le a.now = true
  removed : a.report = .delivered → a.Removed
  putOff : a.PutOff → (a.Rescheduled ↔ a.entry.Plain) ∧
    ∀ e, readCtrl a.after a.id = .ok e → e.attempts = a.entry.attempts + 1 ∧
      e.sender.isSome = a.entry.sender.isSome
  bounced : a.report ≠ .delivered → ¬ a.PutOff → a.Bounced
  created : a.created = [] ∨ ∃ sender new now, a.entry.sender = some sender ∧ ¬ a.PutOff ∧
    a.created = [new] ∧
    a.after.lookup (ctrlPath new) = some (encodeUtf8 (renderCtrl ⟨none, [sender]⟩ 0 now now))
  frame : ∀ other, other ≠ a.id → other ∉ a.created → slots a.after other = slots a.before other

theorem Attempt.mem_created {a : Attempt} {id : Str} :
    id ∈ a.created ↔ id ∈ idsOf .ctrl a.after ∧ id ∉ idsOf .ctrl a.before := by
  simp [created]

theorem Attempt.created_eq {a : Attempt} {new : List Str} (hid : (slots a.before a.id).ctrl ≠ none)
    (hframe : ∀ other, other ≠ a.id → other ∉ new → slots a.after other = slots a.before other)
    (hnew : new = [] ∨ ∃ n, new = [n] ∧ (slots a.before n).ctrl = none ∧
      (slots a.after n).ctrl ≠ none) : a.created = new := by
  have hmem : ∀ id, id ∈ a.created ↔ id ∈ new := by
    intro id
    rw [mem_created, mem_idsOf_ctrl, mem_idsOf_ctrl, not_not]
    constructor
    · rintro ⟨hafter, hbefore⟩
      by_contra hout
      by_cases hsame : id = a.id
      · rw [hsame] at hbefore
        exact hid hbefore
      · rw [hframe id hsame hout] at hafter
        exact hafter hbefore
    · intro hin
      obtain rfl | ⟨n, rfl, hbefore, hafter⟩ := hnew
      · cases hin
      · rw [List.mem_singleton.mp hin]
        exact ⟨hafter, hbefore⟩
  have hnodup : a.created.Nodup := (nodup_idsOf .ctrl a.after).filter _
  have hnodup' : new.Nodup := by
    obtain rfl | ⟨n, rfl, -, -⟩ := hnew
    · exact List.nodup_nil
    · exact List.nodup_singleton n
  have hperm := (List.perm_ext_iff_of_nodup hnodup hnodup').mpr hmem
  obtain rfl | ⟨n, rfl, -, -⟩ := hnew
  · exact hperm.eq_nil
  · exact hperm.eq_singleton

-- the attempt that `relay_entry` puts on record
def attemptAt (server : Server) (io : PassIo) (entry : SpoolEntry) (message : Message) (w : World) :
    Attempt :=
  ⟨entry, io.now, io.report entry.id, io.clock entry.id, w.disk,
    (conclude server io entry message w).disk⟩

-- which entries are new behind an attempt
theorem created_of_touches {message : Message} {new : List Str}
    (hctrl : (slots w.disk entry.id).ctrl ≠ none)
    (hfresh : (slots w.disk (newId (io.writes entry.id 0).nanos w.counter)).ctrl = none)
    (htouch : Touches w (conclude server io entry message w) entry.id new)
    (hnotice : Notice w (conclude server io entry message w) entry (io.writes entry.id 0).nanos
      new) : (attemptAt server io entry message w).created = new := by
  refine Attempt.created_eq hctrl htouch.frame ?_
  obtain rfl | ⟨sender, now, -, rfl, hrecord⟩ := hnotice
  · exact .inl rfl
  · refine .inr ⟨_, rfl, hfresh, ?_⟩
    show (World.disk _).lookup _ ≠ none
    rw [hrecord]
    simp

theorem conclude_cases (server : Server) (io : PassIo) (entry : SpoolEntry) (message : Message)
    (w : World) :
    (io.report entry.id = .delivered ∧
        conclude server io entry message w = w.onDisk (removeSteps entry.id)) ∨
      ((attemptAt server io entry message w).PutOff ∧ conclude server io entry message w =
        w.onDisk ((deferSteps w.disk entry.id (entry.attempts + 1)
          (nextAttempt (io.clock entry.id) (entry.attempts + 1))).toOption.getD [])) ∨
      (io.report entry.id ≠ .delivered ∧ ¬ (attemptAt server io entry message w).PutOff ∧
        ∃ reason, conclude server io entry message w =
          bounceAndNotify server io entry message reason w) := by
  have hputOff : (attemptAt server io entry message w).PutOff ↔
      (∃ code text, io.report entry.id = .deferred code text) ∧
        entry.attempts + 1 < maxAttempts := by
    unfold Attempt.PutOff Attempt.isDeferred attemptAt
    cases io.report entry.id with
    | delivered => simp
    | deferred code text => simp
    | failed reason => simp
  rw [hputOff]
  unfold conclude
  cases io.report entry.id with
  | delivered => exact .inl ⟨rfl, rfl⟩
  | failed reason => exact .inr (.inr ⟨by simp, by simp, reason, rfl⟩)
  | deferred code text =>
    by_cases hlimit : entry.attempts + 1 ≥ maxAttempts
    · refine .inr (.inr ⟨by simp, fun h => absurd h.2 (UInt32.not_lt.mpr hlimit), ?_⟩)
      dsimp only
      rw [if_pos hlimit]
      exact ⟨_, rfl⟩
    · refine .inr (.inl ⟨⟨⟨code, text, rfl⟩, UInt32.not_le.mp hlimit⟩, ?_⟩)
      dsimp only
      rw [if_neg hlimit]

-- a bounced entry was complete
theorem bounced_or {s : Slots} (heml : s.eml.isSome = true) (hctrl : s.ctrl ≠ none) :
    (⟨none, none, none, s.eml.or s.bouncedEml, s.ctrl.or s.bouncedCtrl⟩ : Slots) =
      ⟨none, none, none, s.eml, s.ctrl⟩ := by
  obtain ⟨eml, heml⟩ := Option.isSome_iff_exists.mp heml
  obtain ⟨ctrl, hctrl⟩ := Option.ne_none_iff_exists'.mp hctrl
  rw [heml, hctrl]
  rfl

theorem ctrl_ne_none_of_readCtrl {d : Disk} {id : Str} (h : readCtrl d id = .ok entry) :
    (slots d id).ctrl ≠ none := by
  intro hnone
  unfold readCtrl at h
  rw [show d.lookup (ctrlPath id) = none from hnone] at h
  cases h

-- what else changes: at most one entry is new, and it has the next number
theorem attemptAt_of_touches {message : Message} {new : List Str}
    (hctrl : (slots w.disk entry.id).ctrl ≠ none)
    (hfresh : (slots w.disk (newId (io.writes entry.id 0).nanos w.counter)).ctrl = none)
    (htouch : Touches w (conclude server io entry message w) entry.id new)
    (hnotice : Notice w (conclude server io entry message w) entry (io.writes entry.id 0).nanos
      new) :
    (∀ other, other ≠ entry.id → other ∉ (attemptAt server io entry message w).created →
      slots (conclude server io entry message w).disk other = slots w.disk other) ∧
    (conclude server io entry message w).counter =
      w.counter + (attemptAt server io entry message w).created.length ∧
    ∀ id ∈ (attemptAt server io entry message w).created,
      id = newId (io.writes entry.id 0).nanos w.counter := by
  rw [created_of_touches hctrl hfresh htouch hnotice]
  refine ⟨htouch.frame, htouch.counter, ?_⟩
  obtain rfl | ⟨sender, now, -, rfl, -⟩ := hnotice
  · simp
  · simp

-- an entry whose record is written anew is read again as it was, if its recipients are plain
theorem rescheduled_of_deferSteps (hread : readCtrl w.disk entry.id = .ok entry)
    (hmarker : (slots w.disk entry.id).marker = none) {message : Message}
    (hstep : conclude server io entry message w =
      w.onDisk ((deferSteps w.disk entry.id (entry.attempts + 1)
        (nextAttempt (io.clock entry.id) (entry.attempts + 1))).toOption.getD [])) :
    ((attemptAt server io entry message w).Rescheduled ↔ entry.Plain) ∧
      ∀ e, readCtrl (attemptAt server io entry message w).after entry.id = .ok e →
        e.attempts = entry.attempts + 1 ∧ e.sender.isSome = entry.sender.isSome := by
  have hself := (slots_deferSteps hread (entry.attempts + 1)
    (nextAttempt (io.clock entry.id) (entry.attempts + 1))).2
  have hafter : slots (attemptAt server io entry message w).after entry.id =
      { slots w.disk entry.id with ctrl := some (encodeUtf8 (renderCtrl entry.envelope
        (entry.attempts + 1) (nextAttempt (io.clock entry.id) (entry.attempts + 1))
        entry.createdAt)) } := by
    show slots (conclude server io entry message w).disk entry.id = _
    rw [hstep]
    exact hself
  have hplain := readCtrl_rewritten_iff hread (congrArg Slots.ctrl hafter)
  have hagain := fun e he => @readCtrl_written _ _ _ _ _ _ e
    (fun m hm => (onLine_of_readCtrl hread hm).1) (congrArg Slots.ctrl hafter) he
  refine ⟨Iff.trans ?_ hplain, fun e he => ⟨(hagain e he).1, (hagain e he).2.2⟩⟩
  constructor
  · rintro ⟨⟨e, he, henv, -⟩, -⟩
    exact ⟨e, he, henv⟩
  · rintro ⟨e, he, henv⟩
    obtain ⟨hattempts, hnext, -⟩ := hagain e he
    refine ⟨⟨e, he, henv, hattempts, ?_⟩, (congrArg Slots.eml hafter).trans rfl, ?_⟩
    · rw [hnext, hattempts]
      rfl
    · exact (congrArg Slots.marker hafter).trans hmarker

theorem not_putOff_of_delivered {message : Message} (hreport : io.report entry.id = .delivered) :
    ¬ (attemptAt server io entry message w).PutOff := by
  intro h
  have hdeferred := h.1
  unfold Attempt.isDeferred attemptAt at hdeferred
  rw [hreport] at hdeferred
  cases hdeferred

/-- An attempt at an entry that is due is sound, and at most one entry is new behind it. -/
theorem sound_attemptAt (hrelay : server.relay = true)
    (hdue : dueEntry w.disk io.now entry.id = .ok (some entry))
    (hio : (io.writes entry.id 0).fault = none)
    (hfresh : (slots w.disk (newId (io.writes entry.id 0).nanos w.counter)).ctrl = none)
    (message : Message) :
    (attemptAt server io entry message w).Sound ∧
      (conclude server io entry message w).counter =
        w.counter + (attemptAt server io entry message w).created.length ∧
      ∀ id ∈ (attemptAt server io entry message w).created,
        id = newId (io.writes entry.id 0).nanos w.counter := by
  obtain ⟨hread, htime⟩ := of_dueEntry hdue
  obtain ⟨hmarker, heml, -⟩ := dueEntry_some hdue
  have hctrl := ctrl_ne_none_of_readCtrl hread
  have hne : entry.id ≠ newId (io.writes entry.id 0).nanos w.counter := by
    intro heq
    rw [← heq] at hfresh
    exact hctrl hfresh
  obtain ⟨hreport, hstep⟩ | ⟨hputOff, hstep⟩ | ⟨hreport, hputOff, reason, hstep⟩ :=
    conclude_cases server io entry message w
  · have htouch : Touches w (conclude server io entry message w) entry.id [] := by
      rw [hstep]
      exact touches_onDisk fun _ h => touches_remove h
    have hcreated := created_of_touches hctrl hfresh htouch (.inl rfl)
    obtain ⟨hframe, hcounts⟩ := attemptAt_of_touches hctrl hfresh htouch (.inl rfl)
    have hremoved : (attemptAt server io entry message w).Removed := by
      show slots (conclude server io entry message w).disk entry.id = _
      rw [hstep]
      exact slots_removeSteps w.disk entry.id
    exact ⟨⟨hread, htime, fun _ => hremoved,
      fun h => absurd h (not_putOff_of_delivered hreport), fun h => absurd hreport h,
      .inl hcreated, hframe⟩, hcounts⟩
  · have hothers := (slots_deferSteps hread (entry.attempts + 1)
      (nextAttempt (io.clock entry.id) (entry.attempts + 1))).1
    have htouch : Touches w (conclude server io entry message w) entry.id [] := by
      rw [hstep]
      exact ⟨fun other hother _ => hothers other hother, rfl⟩
    have hcreated := created_of_touches hctrl hfresh htouch (.inl rfl)
    obtain ⟨hframe, hcounts⟩ := attemptAt_of_touches hctrl hfresh htouch (.inl rfl)
    exact ⟨⟨hread, htime, fun h => absurd hputOff (not_putOff_of_delivered h),
      fun _ => rescheduled_of_deferSteps hread hmarker hstep, fun _ h => absurd hputOff h,
      .inl hcreated, hframe⟩, hcounts⟩
  · obtain ⟨new, htouch, hnotice, hself⟩ := bounceAndNotify_spec hrelay hio hne message reason
    rw [← hstep] at htouch hnotice hself
    have hcreated := created_of_touches hctrl hfresh htouch hnotice
    obtain ⟨hframe, hcounts⟩ := attemptAt_of_touches hctrl hfresh htouch hnotice
    refine ⟨⟨hread, htime, fun h => absurd h hreport, fun h => absurd h hputOff,
      fun _ _ => hself.trans (bounced_or heml hctrl), ?_, hframe⟩, hcounts⟩
    rw [hcreated]
    obtain rfl | ⟨sender, now, hsender, rfl, hrecord⟩ := hnotice
    · exact .inl rfl
    · exact .inr ⟨sender, _, now, hsender, hputOff, rfl, hrecord⟩

end

end Snail.Server
