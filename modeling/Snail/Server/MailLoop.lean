import Snail.Server.Authenticate
import Snail.Server.Stamping

/-!
# MailLoop — a message that keeps coming back

The Received headers of a message are counted on the bytes in front of the first blank line, which
is looked for anew at every hop.  The lines that earlier hops have put on top stay in front of it,
so that the count grows by one with each pass and the limit on it ends every loop.
-/

open Snail.Reasoning Snail.Mail Snail.Network

namespace Snail.Server

/-! ## 1. Passes -/

/-- What the public port knows of a message when it stamps it. -/
structure Assessment where
  peer : IpAddr
  mailFrom : Str
  auth : InboundAuth

/-- One hop: the host, what its peer said, and the cap of the collector the message goes to next.
Without an assessment it is a submission. -/
structure Hop where
  server : Server
  clocks : Clocks
  tls : Bool
  helo : Str
  envelope : Envelope
  assessment : Option Assessment
  maxSize : Nat

def Hop.stamp (hop : Hop) (m : Message) : Message :=
  match hop.assessment with
  | some a => hop.server.stampInbound hop.clocks hop.tls a.peer hop.helo a.mailFrom a.auth m
  | none => hop.server.stampSubmission hop.clocks hop.tls hop.helo m

/-- The bytes the next hop collects of the bytes collected here. -/
def Hop.pass (hop : Hop) (raw : Bytes) : Option Bytes :=
  match Message.parse hop.envelope raw with
  | .error _ => none
  | .ok m =>
      if m.receivedHeaderCount ≥ maxReceivedHops then none
      else receive hop.maxSize (dotStuff (hop.stamp m).toBytes)

def passes : List Hop → Bytes → Option Bytes
  | [], raw => some raw
  | hop :: hops, raw => (hop.pass raw).bind (passes hops)

theorem passes_append (hops more : List Hop) (raw : Bytes) :
    passes (hops ++ more) raw = (passes hops raw).bind (passes more) := by
  induction hops generalizing raw with
  | nil => rfl
  | cons hop hops ih =>
    rw [List.cons_append, passes, passes]
    cases hop.pass raw with
    | none => rfl
    | some next => exact ih next

theorem Hop.exists_of_pass {hop : Hop} {raw got : Bytes} (h : hop.pass raw = some got) :
    ∃ m, Message.parse hop.envelope raw = .ok m ∧ m.receivedHeaderCount < maxReceivedHops ∧
      receive hop.maxSize (dotStuff (hop.stamp m).toBytes) = some got := by
  unfold Hop.pass at h
  cases hm : Message.parse hop.envelope raw with
  | error e =>
    rw [hm] at h
    cases h
  | ok m =>
    rw [hm] at h
    dsimp only at h
    by_cases hcount : m.receivedHeaderCount ≥ maxReceivedHops
    · rw [if_pos hcount] at h
      cases h
    · rw [if_neg hcount] at h
      exact ⟨m, rfl, Nat.lt_of_not_le hcount, h⟩

-- what a loop does with a message it has read, up to the collector at the other end
theorem Hop.pass_of_readMessage {hop : Hop} {collector : InboundCollector} {m : Message}
    (h : readMessage (some hop.envelope) collector = .ok m) (heloDomain : Str) :
    hop.pass collector.body = receive hop.maxSize (relayScript heloDomain (hop.stamp m)).data := by
  obtain ⟨envelope, henvelope, hparse, hcount⟩ := readMessage_ok h
  rw [← Option.some.inj henvelope] at hparse
  change Message.parse hop.envelope collector.body = .ok m at hparse
  unfold Hop.pass
  rw [hparse]
  dsimp only
  rw [if_neg (Nat.not_le_of_lt hcount)]
  rfl

-- the public port stamps in this way if its checks let the message through
theorem stamp_of_screenInbound {hop : Hop} {peer : IpAddr} {m m' : Message}
    (h : hop.server.screenInbound hop.clocks hop.tls peer hop.helo m = .ok m')
    (hassessed : hop.assessment = some ⟨peer, mailFromText m.envelope,
      hop.server.authenticate hop.clocks peer hop.helo (mailFromText m.envelope) m⟩) :
    hop.stamp m = m' := by
  unfold Hop.stamp
  rw [hassessed]
  exact (screenInbound_ok h).symm

/-! ## 2. Lines on top -/

def isReceived (name : Str) : Bool := eqIgnoreAsciiCase name "Received".toList

/-- The bytes begin with written fields, at least `n` of them Received. -/
def Topped (n : Nat) (raw : Bytes) : Prop :=
  ∃ fields : List (Str × Str), (∀ f ∈ fields, IsFieldName f.1 ∧ '\n' ∉ f.2) ∧
    n ≤ fields.countP (fun f => isReceived f.1) ∧
    (fields.map fun f => encodeUtf8 (fieldLine f)).flatMap (· ++ crlf) <+: raw

theorem topped_zero (raw : Bytes) : Topped 0 raw :=
  ⟨[], by simp, Nat.zero_le _, List.nil_prefix⟩

theorem Topped.line {n : Nat} {raw : Bytes} (h : Topped n raw) {name : Str} {line : Bytes}
    (hline : TraceLine name line) :
    Topped (n + if isReceived name then 1 else 0) (line ++ crlf ++ raw) := by
  obtain ⟨fields, hfields, hcount, rest, rfl⟩ := h
  obtain ⟨hname, value, hvalue, rfl⟩ := hline.field
  refine ⟨(name, value) :: fields, ?_, ?_, rest, ?_⟩
  · rw [List.forall_mem_cons]
    exact ⟨⟨hname, hvalue⟩, hfields⟩
  · rw [List.countP_cons]
    exact Nat.add_le_add_right hcount _
  · rw [List.map_cons, List.flatMap_cons, List.append_assoc]

theorem Topped.other {n : Nat} {m : Message} (h : Topped n m.toBytes) {line : Bytes}
    (hline : ServerLine line) : Topped n (m.prependHeader line).toBytes := by
  obtain ⟨name, hname⟩ := hline.traceLine
  obtain ⟨fields, hfields, hcount, hraw⟩ := h.line hname
  rw [Message.toBytes_prependHeader]
  exact ⟨fields, hfields, (Nat.le_add_right n _).trans hcount, hraw⟩

theorem Topped.received {n : Nat} {m : Message} (h : Topped n m.toBytes) (helo host : Str)
    (authenticated tls : Bool) (now : SystemTime) :
    Topped (n + 1) (m.prependHeader
      (receivedHeader helo host (protocol authenticated tls) now)).toBytes := by
  rw [Message.toBytes_prependHeader]
  exact h.line (.received helo host now (newline_not_mem_protocol authenticated tls))

theorem Topped.stamp {n : Nat} {m : Message} (h : Topped n m.toBytes) (hop : Hop) :
    Topped (n + 1) (hop.stamp m).toBytes := by
  unfold Hop.stamp
  cases hop.assessment with
  | none => exact h.received _ _ _ _ _
  | some a =>
    dsimp only
    unfold Server.stampInbound
    generalize a.auth.spf = spf
    have hauth := h.other (.authenticationResults hop.server.hostName spf a.mailFrom a.auth.dkim
      a.auth.dmarc a.auth.fromDomain)
    cases spf with
    | none => exact hauth.received _ _ _ _ _
    | some result => exact (hauth.other (.receivedSpf result _ _ _ _)).received _ _ _ _ _

-- a relay and the collector behind it leave them there
theorem Topped.receive {n : Nat} {raw got : Bytes} (h : Topped n raw) {maxSize : Nat}
    (hgot : receive maxSize (dotStuff raw) = some got) : Topped n got := by
  obtain ⟨fields, hfields, hcount, rest, rfl⟩ := h
  refine ⟨fields, hfields, hcount, isPrefix_of_receive_dotStuff ?_ hgot⟩
  intro c hc
  obtain ⟨f, hf, rfl⟩ := List.mem_map.mp hc
  exact (encoded_fieldLine (hfields f hf).1 (hfields f hf).2).1

/-! ## 3. They are counted -/

-- the first blank line stands behind them
theorem length_le_splitHeaderBody {bs : List Bytes} {raw : Bytes}
    (h : ∀ b ∈ bs, lf ∉ b ∧ ∃ a rest, b = a :: rest ∧ a ≠ cr)
    (hraw : bs.flatMap (· ++ crlf) <+: raw) :
    (bs.flatMap (· ++ crlf)).length ≤ (splitHeaderBody raw).2 := by
  have hlines : CrlfLines (bs.flatMap (· ++ crlf)) := ⟨bs, fun b hb => (h b hb).1, rfl⟩
  have hlf : ¬ [lf, lf] <:+: bs.flatMap (· ++ crlf) :=
    (findSub_eq_none_iff (by decide)).mp (findSub_lf_lf hlines.noBareLf)
  unfold splitHeaderBody
  cases hcrlf : findSub (crlf ++ crlf) raw with
  | some p => exact (length_lt_of_findSub (not_blank_of_lines h) hraw hcrlf).le
  | none =>
    cases hlflf : findSub [lf, lf] raw with
    | some p => exact (length_lt_of_findSub hlf hraw hlflf).le
    | none => exact hraw.length_le

theorem lines_written {fields : List (Str × Str)}
    (h : ∀ f ∈ fields, IsFieldName f.1 ∧ '\n' ∉ f.2) (rest : Bytes) :
    lines (decodeLossy ((fields.map fun f => encodeUtf8 (fieldLine f)).flatMap (· ++ crlf) ++
      rest)) = fields.map fieldLine ++ lines (decodeLossy rest) := by
  induction fields with
  | nil => rfl
  | cons f fields ih =>
    have hf := h f List.mem_cons_self
    have hline : '\n' ∉ fieldLine f := by
      simp [fieldLine, hf.1.newline_not_mem, hf.2]
    rw [List.map_cons, List.flatMap_cons, List.append_assoc, decodeLossy_line,
      decodeLossy_encodeUtf8, lines_append_crlf hline,
      ih fun f' hf' => h f' (List.mem_cons_of_mem _ hf')]
    rfl

/-- The line filter of `received_header_count`. -/
def countsAsReceived (line : Str) : Bool :=
  !isContinuation line &&
    match splitOnce ':' line with
    | some (name, _) => isReceived (trim name)
    | none => false

theorem receivedHeaderCount_eq (m : Message) :
    m.receivedHeaderCount = (lines (decodeLossy m.rawHead)).countP countsAsReceived :=
  List.countP_eq_length_filter.symm

theorem countsAsReceived_fieldLine {f : Str × Str} (h : IsFieldName f.1) :
    countsAsReceived (fieldLine f) = isReceived f.1 := by
  have htext : fieldLine f = f.1 ++ ':' :: ' ' :: f.2 := by simp [fieldLine]
  unfold countsAsReceived
  rw [htext, h.not_isContinuation, splitOnce_append_cons h.colon_not_mem]
  dsimp only
  rw [h.trim_eq]
  rfl

theorem Topped.le_receivedHeaderCount {n : Nat} {raw : Bytes} (h : Topped n raw)
    {envelope : Envelope} {m : Message} (hparse : Message.parse envelope raw = .ok m) :
    n ≤ m.receivedHeaderCount := by
  obtain ⟨fields, hfields, hcount, hraw⟩ := h
  have hlen := @length_le_splitHeaderBody (fields.map fun f => encodeUtf8 (fieldLine f)) raw (by
    intro b hb
    obtain ⟨f, hf, rfl⟩ := List.mem_map.mp hb
    exact encoded_fieldLine (hfields f hf).1 (hfields f hf).2) hraw
  have hhead : m.rawHead = raw.take (splitHeaderBody raw).2 := by
    obtain ⟨headers, -, rfl⟩ := map_eq_ok_iff.mp hparse
    rfl
  obtain ⟨rest, hrest⟩ := List.prefix_take_iff.mpr ⟨hraw, hlen⟩
  rw [receivedHeaderCount_eq, hhead, ← hrest, lines_written hfields, List.countP_append,
    List.countP_map]
  have heq : fields.countP (countsAsReceived ∘ fieldLine) =
      fields.countP fun f => isReceived f.1 :=
    List.countP_congr fun f hf => by
      rw [Function.comp_apply, countsAsReceived_fieldLine (hfields f hf).1]
  rw [heq]
  exact hcount.trans (Nat.le_add_right _ _)

/-! ## 4. No loop goes on -/

theorem Topped.pass {n : Nat} {raw got : Bytes} (h : Topped n raw) {hop : Hop}
    (hpass : hop.pass raw = some got) : Topped (n + 1) got := by
  obtain ⟨m, hparse, -, hgot⟩ := hop.exists_of_pass hpass
  rw [← (Message.toBytes_parse hparse).1] at h
  exact (h.stamp hop).receive hgot

theorem Topped.passes {n : Nat} {raw got : Bytes} (h : Topped n raw) {hops : List Hop}
    (hpasses : passes hops raw = some got) : Topped (n + hops.length) got := by
  induction hops generalizing n raw with
  | nil =>
    cases hpasses
    exact h
  | cons hop hops ih =>
    obtain ⟨next, hpass, hrest⟩ := Option.bind_eq_some_iff.mp hpasses
    have hnext := ih (h.pass hpass) hrest
    rw [List.length_cons, Nat.add_comm hops.length 1, ← Nat.add_assoc]
    exact hnext

/-- Whatever a message is at first and whatever its peers say, after any number of passes it is
read with at least that many Received headers; and it completes no more passes than the limit. -/
theorem mail_loop_broken {hops : List Hop} {raw got : Bytes} (h : passes hops raw = some got) :
    (∀ envelope m, Message.parse envelope got = .ok m → hops.length ≤ m.receivedHeaderCount) ∧
      hops.length ≤ maxReceivedHops := by
  have htop : ∀ {hops : List Hop} {got : Bytes}, passes hops raw = some got →
      Topped hops.length got := by
    intro hops got h
    have htopped := (topped_zero raw).passes h
    rw [Nat.zero_add] at htopped
    exact htopped
  apply And.intro
  · intro envelope m hparse
    exact (htop h).le_receivedHeaderCount hparse
  · cases hops using List.reverseRecOn with
    | nil => exact Nat.zero_le _
    | append_singleton hops hop =>
      -- the last pass has read the message with all earlier ones on top
      rw [passes_append] at h
      obtain ⟨mid, hmid, hlast⟩ := Option.bind_eq_some_iff.mp h
      obtain ⟨next, hpass, -⟩ := Option.bind_eq_some_iff.mp hlast
      obtain ⟨m, hparse, hcount, -⟩ := hop.exists_of_pass hpass
      have hbefore := (htop hmid).le_receivedHeaderCount hparse
      rw [List.length_append, List.length_singleton]
      omega

def loopHop : Hop where
  server := tableServer
  clocks := ⟨.unixEpoch, .unixEpoch, .unixEpoch⟩
  tls := false
  helo := "a\r\n\r\n".toList
  envelope := ⟨none, []⟩
  assessment := none
  maxSize := 4096

theorem mail_loop_broken_twice :
    ∃ got, passes [loopHop, loopHop] (ascii "\r\nReceived: x") = some got ∧
      (∀ envelope m, Message.parse envelope got = .ok m → 2 ≤ m.receivedHeaderCount) ∧
      2 ≤ maxReceivedHops := by
  have hrun : passes [loopHop, loopHop] (ascii "\r\nReceived: x") = some
      (ascii "Received: from a by y.org with ESMTPA; Thu, 01 Jan 1970 00:00:00 +0000\r\n" ++
        ascii "Received: from a by y.org with ESMTPA; Thu, 01 Jan 1970 00:00:00 +0000\r\n" ++
        ascii "\r\nReceived: x\r\n\r\n") := by decide +kernel
  exact ⟨_, hrun, mail_loop_broken hrun⟩

end Snail.Server
