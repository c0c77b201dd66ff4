import Snail.Mail.Message
import Snail.Reasoning.Clock
import Snail.Reasoning.Files

/-!
# Spool — the outbound queue on disk

`services/snail_server/src/spool.rs`.  An entry is a pair of files, the message and a control
record; each operation is the list of file system steps it takes, so that it can be cut off between
any two of them.  The two directories always exist here.
-/

open Snail.Reasoning Snail.Mail

namespace Snail.Server

/-! ## 1. Control records -/

structure SpoolEntry where
  id : Str
  sender : Option Mailbox
  recipients : List Mailbox
  attempts : UInt32
  nextAttemptAt : SystemTime
  createdAt : SystemTime
  deriving DecidableEq

def SpoolEntry.envelope (e : SpoolEntry) : Envelope := ⟨e.sender, e.recipients⟩

-- one line of the record: a key, a space, a value
def ctrlLine (key : String) (value : Str) : Str := key.toList ++ ' ' :: value ++ ['\n']

def renderCtrl (env : Envelope) (attempts : UInt32) (next created : SystemTime) : Str :=
  ctrlLine "created" (showNat created.toSecs) ++ ctrlLine "next" (showNat next.toSecs) ++
    ctrlLine "attempts" (showNat attempts.toNat) ++
    ctrlLine "from" (env.sender.elim [] Mailbox.toString) ++
    (env.recipients.map Mailbox.toString).flatMap (ctrlLine "rcpt")

-- the variables of `parse_ctrl`
structure CtrlFields where
  created : Option SystemTime
  next : Option SystemTime
  attempts : Option UInt32
  sender : Option Mailbox
  recipients : List Mailbox
  deriving DecidableEq

def u64Max : Nat := 2 ^ 64 - 1
def u32Max : Nat := 2 ^ 32 - 1

def mailErrorText : MailError → Str
  | .invalidAddress addr => "invalid mailbox address: ".toList ++ addr
  | .malformed text => "malformed message: ".toList ++ text

-- `from_secs` of a parsed number; past the last second the addition panics, which is an error here:
-- no record that the spool has written gets there
def ctrlTime (value : Str) (bad : String) : Except Str SystemTime :=
  match parseUnsigned u64Max value with
  | none => .error bad.toList
  | some secs =>
      match SystemTime.ofEpochSecs? secs with
      | some t => .ok t
      | none => .error "overflow when adding duration to instant".toList

def ctrlMailbox (value : Str) : Except Str Mailbox :=
  match Mailbox.parse value with
  | .ok m => .ok m
  | .error e => .error (mailErrorText e)

def parseCtrlField (f : CtrlFields) (key val : Str) : Except Str CtrlFields :=
  if key = "created".toList then
    (ctrlTime val "bad created").map fun t => { f with created := some t }
  else if key = "next".toList then
    (ctrlTime val "bad next").map fun t => { f with next := some t }
  else if key = "attempts".toList then
    match parseUnsigned u32Max val with
    | some n => .ok { f with attempts := some (UInt32.ofNat n) }
    | none => .error "bad attempts".toList
  else if key = "from".toList ∧ val ≠ [] then
    (ctrlMailbox val).map fun m => { f with sender := some m }
  else if key = "rcpt".toList then
    (ctrlMailbox val).map fun m => { f with recipients := f.recipients ++ [m] }
  else .ok f

-- one line of the loop of `parse_ctrl`
def parseCtrlLine (f : CtrlFields) (line : Str) : Except Str CtrlFields :=
  let keyVal := (splitOnce ' ' line).getD (line, [])
  parseCtrlField f keyVal.1 keyVal.2

def parseCtrlLines : List Str → CtrlFields → Except Str CtrlFields
  | [], f => .ok f
  | line :: rest, f =>
      match parseCtrlLine f line with
      | .ok f' => parseCtrlLines rest f'
      | .error e => .error e

def CtrlFields.start : CtrlFields := ⟨none, none, none, none, []⟩

-- what follows the loop
def CtrlFields.entry (id : Str) (f : CtrlFields) : Except Str SpoolEntry :=
  if f.recipients = [] then .error "control record has no recipients".toList
  else match f.attempts, f.next, f.created with
    | none, _, _ => .error "missing attempts".toList
    | some _, none, _ => .error "missing next".toList
    | some _, some _, none => .error "missing created".toList
    | some attempts, some next, some created =>
        .ok ⟨id, f.sender, f.recipients, attempts, next, created⟩

def parseCtrl (id text : Str) : Except Str SpoolEntry :=
  match parseCtrlLines (lines text) .start with
  | .ok f => f.entry id
  | .error e => .error e

/-! ## 2. Files -/

inductive FileKind where
  | eml
  | ctrl
  | bouncing
  deriving DecidableEq, Repr

def FileKind.extension : FileKind → Str
  | .eml => "eml".toList
  | .ctrl => "ctrl".toList
  | .bouncing => "bouncing".toList

/-- A file of the spool: `<id>.<kind>`, in the spool directory or in `bounced/`, or the temporary
sibling it is written to first. -/
structure SpoolFile where
  bounced : Bool
  id : Str
  kind : FileKind
  tmp : Bool
  deriving DecidableEq, Repr

def emlPath (id : Str) : SpoolFile := ⟨false, id, .eml, false⟩
def ctrlPath (id : Str) : SpoolFile := ⟨false, id, .ctrl, false⟩
def bouncingMarker (id : Str) : SpoolFile := ⟨false, id, .bouncing, false⟩
def SpoolFile.inBounced (f : SpoolFile) : SpoolFile := { f with bounced := true }

abbrev Disk := Files SpoolFile
abbrev SpoolStep := FileStep SpoolFile

def writeAtomic (path : SpoolFile) (bytes : Bytes) : List SpoolStep :=
  [.write { path with tmp := true } bytes, .rename { path with tmp := true } path]

/-! ## 3. Operations -/

def newId (nanos seq : Nat) : Str := showNatPadded 20 nanos ++ '-' :: showNatPadded 6 seq

def enqueueSteps (id : Str) (message : Message) (now : SystemTime) : List SpoolStep :=
  writeAtomic (emlPath id) message.toBytes ++
    writeAtomic (ctrlPath id) (encodeUtf8 (renderCtrl message.envelope 0 now now))

-- `read_to_string`, then `parse_ctrl`
def readCtrl (d : Disk) (id : Str) : Except Str SpoolEntry :=
  match d.lookup (ctrlPath id) with
  | none => .error "No such file or directory".toList
  | some bytes =>
      match decodeUtf8 bytes with
      | none => .error "stream did not contain valid UTF-8".toList
      | some text => parseCtrl id text

def loadMessage (d : Disk) (id : Str) : Except Str Message :=
  match d.lookup (emlPath id), readCtrl d id with
  | none, _ => .error "No such file or directory".toList
  | some _, .error e => .error e
  | some eml, .ok entry =>
      match Message.parse entry.envelope eml with
      | .ok m => .ok m
      | .error e => .error (mailErrorText e)

def deferSteps (d : Disk) (id : Str) (attempts : UInt32) (next : SystemTime) :
    Except Str (List SpoolStep) :=
  (readCtrl d id).map fun entry =>
    writeAtomic (ctrlPath id) (encodeUtf8 (renderCtrl entry.envelope attempts next entry.createdAt))

def removeSteps (id : Str) : List SpoolStep := [.unlink (emlPath id), .unlink (ctrlPath id)]

def relocateToBounced (id : Str) : List SpoolStep :=
  [.rename (emlPath id) (emlPath id).inBounced, .rename (ctrlPath id) (ctrlPath id).inBounced]

def bounceSteps (id : Str) : List SpoolStep :=
  .write (bouncingMarker id) (encodeUtf8 id) :: relocateToBounced id ++
    [.unlink (bouncingMarker id)]

-- the ids of the finished files of one kind in the spool directory
def idsOf (kind : FileKind) (d : Disk) : List Str :=
  d.keys.filterMap fun f => if f = ⟨false, f.id, kind, false⟩ then some f.id else none

def recoverInterruptedBounces (d : Disk) : List SpoolStep :=
  (idsOf .bouncing d).flatMap fun id =>
    relocateToBounced id ++ [.unlink (bouncingMarker id)]

def openSteps (d : Disk) : List SpoolStep := recoverInterruptedBounces d

-- one directory entry of the loop of `due_now`; the text is read before it is parsed
def dueEntry (d : Disk) (now : SystemTime) (id : Str) : Except Str (Option SpoolEntry) :=
  if (d.lookup (bouncingMarker id)).isSome then .ok none
  else if (d.lookup (emlPath id)).isNone then .ok none
  else match (d.lookup (ctrlPath id)).bind decodeUtf8 with
    | none => .error "stream did not contain valid UTF-8".toList
    | some text =>
        match parseCtrl id text with
        | .ok entry => .ok (if entry.nextAttemptAt.le now then some entry else none)
        | .error _ => .ok none

def dueLoop (d : Disk) (now : SystemTime) : List Str → Except Str (List SpoolEntry)
  | [] => .ok []
  | id :: rest =>
      match dueEntry d now id with
      | .error e => .error e
      | .ok found => (dueLoop d now rest).map (found.toList ++ ·)

def dueNow (d : Disk) (now : SystemTime) : Except Str (List SpoolEntry) :=
  (dueLoop d now (idsOf .ctrl d)).map fun found => found.mergeSort fun a b => ¬ b.id < a.id

/-! ## 4. What the listing holds -/

theorem mem_idsOf {kind : FileKind} {d : Disk} {id : Str} :
    id ∈ idsOf kind d ↔ (d.lookup ⟨false, id, kind, false⟩).isSome := by
  rw [AList.lookup_isSome, AList.mem_keys]
  unfold idsOf
  rw [List.mem_filterMap]
  apply Iff.intro
  · intro h
    rcases h with ⟨f, hf, hid⟩
    split at hid
    · rename_i hshape
      cases hid
      rw [← hshape]
      exact hf
    · cases hid
  · intro h
    exact ⟨_, h, if_pos rfl⟩

theorem mem_dueLoop {d : Disk} {now : SystemTime} {ids : List Str} {found : List SpoolEntry}
    (h : dueLoop d now ids = .ok found) {entry : SpoolEntry} :
    entry ∈ found ↔ ∃ id ∈ ids, dueEntry d now id = .ok (some entry) := by
  induction ids generalizing found with
  | nil =>
    cases h
    simp
  | cons id rest ih =>
    rw [dueLoop] at h
    cases he : dueEntry d now id with
    | error e =>
      rw [he] at h
      cases h
    | ok first =>
      rw [he] at h
      rcases map_eq_ok_iff.mp h with ⟨tail, htail, rfl⟩
      have htl := ih htail
      simp only [List.mem_append, Option.mem_toList, List.mem_cons, exists_eq_or_imp, he, htl,
        Except.ok.injEq]

theorem mem_dueNow {d : Disk} {now : SystemTime} {due : List SpoolEntry}
    (h : dueNow d now = .ok due) {entry : SpoolEntry} :
    entry ∈ due ↔ ∃ id, (d.lookup (ctrlPath id)).isSome ∧ dueEntry d now id = .ok (some entry) := by
  rcases map_eq_ok_iff.mp h with ⟨found, hfound, rfl⟩
  rw [List.mem_mergeSort, mem_dueLoop hfound]
  simp only [mem_idsOf]
  rfl

-- two ids of one process differ in their sequence number
theorem newId_inj {nanos nanos' seq seq' : Nat} (h : newId nanos seq = newId nanos' seq') :
    seq = seq' := by
  have hdash : ∀ w n, '-' ∉ showNatPadded w n := fun w n hm =>
    absurd (isDigit_of_mem_showNatPadded hm) (by decide)
  have hcut := splitOnce_append_cons (m := showNatPadded 6 seq) (hdash 20 nanos)
  unfold newId at h
  rw [h, splitOnce_append_cons (hdash 20 nanos'), Option.some.injEq, Prod.mk.injEq] at hcut
  exact (showNatPadded_injective 6 hcut.2).symm

end Snail.Server
