import Snail.Mail.Outbound
import Snail.Network.Dkim.Verify
import Snail.Network.Dmarc

/-!
# Received — trace and authentication header lines

`services/snail_server/src/received.rs`: the lines the server puts on top of a message it accepts.
Whatever a peer has said, each of them stays one line, so that what a relay writes after any number
of them still has one end of data.
-/

open Snail.Reasoning Snail.Mail Snail.Network

namespace Snail.Server

def maxReceivedHops : Nat := 100

def sanitize (s : Str) : Str := s.filter fun c => c != '\r' && c != '\n'

/-! ## 1. Dates -/

-- divisions of `i64` truncate; year, month and day
def civilFromDays (z : Int) : Int × Nat × Nat :=
  let z := z + 719468
  let era := (if z ≥ 0 then z else z - 146096).tdiv 146097
  let doe := z - era * 146097
  let yoe := (doe - doe.tdiv 1460 + doe.tdiv 36524 - doe.tdiv 146096).tdiv 365
  let y := yoe + era * 400
  let doy := doe - (365 * yoe + yoe.tdiv 4 - yoe.tdiv 100)
  let mp := (5 * doy + 2).tdiv 153
  let d := (doy - (153 * mp + 2).tdiv 5 + 1).toNat
  let m := (if mp < 10 then mp + 3 else mp - 9).toNat
  (if m ≤ 2 then y + 1 else y, m, d)

def weekdays : List Str := ["Sun", "Mon", "Tue", "Wed", "Thu", "Fri", "Sat"].map String.toList

def months : List Str :=
  ["Jan", "Feb", "Mar", "Apr", "May", "Jun", "Jul", "Aug", "Sep", "Oct", "Nov", "Dec"].map
    String.toList

def showInt (n : Int) : Str := if n < 0 then '-' :: showNat n.natAbs else showNat n.natAbs

-- the weekday, the civil date and the second of the day
def dateText (dow : Nat) (date : Int × Nat × Nat) (tod : Nat) : Str :=
  weekdays.getD dow [] ++ ", ".toList ++ showNatPadded 2 date.2.2 ++ ' ' ::
    months.getD (date.2.1 - 1) [] ++ ' ' :: showInt date.1 ++ ' ' ::
    showNatPadded 2 (tod / 3600) ++ ':' :: showNatPadded 2 (tod % 3600 / 60) ++ ':' ::
    showNatPadded 2 (tod % 60) ++ " +0000".toList

def rfc5322Date (now : SystemTime) : Str :=
  let days := now.toSecs / 86400
  -- the epoch was a Thursday
  dateText ((days % 7 + 4) % 7) (civilFromDays days) (now.toSecs % 86400)

example : rfc5322Date ⟨1234567890, 0, by decide, by decide, by decide⟩ =
    "Fri, 13 Feb 2009 23:31:30 +0000".toList := by decide +kernel

/-! ## 2. The lines -/

def receivedText (helo host proto : Str) (now : SystemTime) : Str :=
  "Received: from ".toList ++ sanitize helo ++ " by ".toList ++ sanitize host ++ " with ".toList ++
    proto ++ "; ".toList ++ rfc5322Date now

def receivedHeader (helo host proto : Str) (now : SystemTime) : Bytes :=
  encodeUtf8 (receivedText helo host proto now)

-- the null sender is printed as an empty path
def reversePath (mailFrom : Str) : Str :=
  if mailFrom = [] then "<>".toList else '<' :: sanitize mailFrom ++ ['>']

def receivedSpfText (result host clientIp envelopeFrom helo : Str) : Str :=
  "Received-SPF: ".toList ++ sanitize result ++ " (".toList ++ sanitize host ++
    ": client-ip ".toList ++ sanitize clientIp ++ " is ".toList ++ sanitize result ++
    " for ".toList ++ reversePath envelopeFrom ++ ") client-ip=".toList ++ sanitize clientIp ++
    "; envelope-from=".toList ++ reversePath envelopeFrom ++ "; helo=".toList ++ sanitize helo ++
    ";".toList

def receivedSpfHeader (result host clientIp envelopeFrom helo : Str) : Bytes :=
  encodeUtf8 (receivedSpfText result host clientIp envelopeFrom helo)

def dkimText (dkim : List DkimOutcome) : Str :=
  if dkim = [] then "; dkim=none".toList
  else dkim.flatMap fun outcome =>
    "; dkim=".toList ++ outcome.result.asStr ++ " header.d=".toList ++ sanitize outcome.domain

def dmarcText (dmarcToken : Option Str) (fromDomain : Str) : Str :=
  dmarcToken.elim [] fun token =>
    "; dmarc=".toList ++ token ++ " header.from=".toList ++ sanitize fromDomain

def authenticationResultsText (host : Str) (spf : Option Spf.SpfResult) (mailFrom : Str)
    (dkim : List DkimOutcome) (dmarcToken : Option Str) (fromDomain : Str) : Str :=
  "Authentication-Results: ".toList ++ sanitize host ++ "; spf=".toList ++
    spf.elim "none".toList Spf.SpfResult.asStr ++ " smtp.mailfrom=".toList ++
    reversePath mailFrom ++ dkimText dkim ++ dmarcText dmarcToken fromDomain

def authenticationResultsHeader (host : Str) (spf : Option Spf.SpfResult) (mailFrom : Str)
    (dkim : List DkimOutcome) (dmarcToken : Option Str) (fromDomain : Str) : Bytes :=
  encodeUtf8 (authenticationResultsText host spf mailFrom dkim dmarcToken fromDomain)

-- RFC 3848 names of the transmission types: submissions are authenticated
def protocol (authenticated tls : Bool) : Str :=
  match authenticated, tls with
  | true, true => "ESMTPSA".toList
  | true, false => "ESMTPA".toList
  | false, true => "ESMTPS".toList
  | false, false => "ESMTP".toList

/-- The lines the two service loops prepend, over everything a peer, a resolver or the
configuration may put into them. -/
inductive ServerLine : Bytes → Prop
  | received (helo host : Str) (authenticated tls : Bool) (now : SystemTime) :
      ServerLine (receivedHeader helo host (protocol authenticated tls) now)
  | receivedSpf (result : Spf.SpfResult) (host : Str) (client : IpAddr) (mailFrom helo : Str) :
      ServerLine (receivedSpfHeader result.asStr host client.toText mailFrom helo)
  | authenticationResults (host : Str) (spf : Option Spf.SpfResult) (mailFrom : Str)
      (dkim : List DkimOutcome) (dmarc : Option DmarcResult) (fromDomain : Str) :
      ServerLine (authenticationResultsHeader host spf mailFrom dkim
        (dmarc.map DmarcResult.asStr) fromDomain)

/-- `m'` is `m` after any number of these lines. -/
inductive Stamped (m : Message) : Message → Prop
  | refl : Stamped m m
  | prepend {m' : Message} {line : Bytes} (h : Stamped m m') (hline : ServerLine line) :
      Stamped m (m'.prependHeader line)

/-! ## 3. One line each -/

def OneLine (s : Str) : Prop := '\r' ∉ s ∧ '\n' ∉ s

instance (s : Str) : Decidable (OneLine s) := instDecidableAnd

theorem OneLine.append {s t : Str} (hs : OneLine s) (ht : OneLine t) : OneLine (s ++ t) := by
  unfold OneLine
  rw [List.mem_append, List.mem_append, not_or, not_or]
  exact ⟨⟨hs.1, ht.1⟩, hs.2, ht.2⟩

theorem OneLine.cons {c : Char} {s : Str} (hc : OneLine [c]) (hs : OneLine s) :
    OneLine (c :: s) := hc.append hs

theorem oneLine_sanitize (s : Str) : OneLine (sanitize s) := by
  unfold OneLine sanitize
  simp

theorem oneLine_flatMap {α : Type} {f : α → Str} (h : ∀ a, OneLine (f a)) (l : List α) :
    OneLine (l.flatMap f) := by
  induction l with
  | nil =>
    show OneLine []
    decide
  | cons a l ih => exact (h a).append ih

theorem oneLine_getD {l : List Str} (h : ∀ s ∈ l, OneLine s) (i : Nat) : OneLine (l.getD i []) := by
  rw [List.getD_eq_getElem?_getD]
  cases hi : l[i]? with
  | none => decide
  | some s => exact h s (List.mem_of_getElem? hi)

theorem oneLine_showNat (n : Nat) : OneLine (showNat n) := by
  apply And.intro
  · intro h
    exact absurd (isDigit_of_mem_showNat h) (by decide)
  · intro h
    exact absurd (isDigit_of_mem_showNat h) (by decide)

theorem oneLine_showNatPadded (w n : Nat) : OneLine (showNatPadded w n) := by
  have hzeros : OneLine (List.replicate (w - (showNat n).length) '0') := by
    unfold OneLine
    rw [List.mem_replicate, List.mem_replicate]
    exact ⟨fun h => absurd h.2 (by decide), fun h => absurd h.2 (by decide)⟩
  exact hzeros.append (oneLine_showNat n)

theorem oneLine_showInt (n : Int) : OneLine (showInt n) := by
  unfold showInt
  split
  · exact OneLine.cons (by decide) (oneLine_showNat _)
  · exact oneLine_showNat _

theorem oneLine_dateText (dow : Nat) (date : Int × Nat × Nat) (tod : Nat) :
    OneLine (dateText dow date tod) := by
  have hday : ∀ s ∈ weekdays, OneLine s := by decide
  have hmonth : ∀ s ∈ months, OneLine s := by decide
  have hspace : OneLine [' '] := by decide
  have hcolon : OneLine [':'] := by decide
  unfold dateText
  simp only [List.append_assoc, List.cons_append]
  apply (oneLine_getD hday _).append
  apply OneLine.append (by decide)
  apply (oneLine_showNatPadded _ _).append
  apply hspace.append
  apply (oneLine_getD hmonth _).append
  apply hspace.append
  apply (oneLine_showInt _).append
  apply hspace.append
  apply (oneLine_showNatPadded _ _).append
  apply hcolon.append
  apply (oneLine_showNatPadded _ _).append
  apply hcolon.append
  apply (oneLine_showNatPadded _ _).append
  decide

theorem oneLine_reversePath (mailFrom : Str) : OneLine (reversePath mailFrom) := by
  unfold reversePath
  split
  · decide
  · exact (OneLine.cons (by decide) (oneLine_sanitize _)).append (by decide)

theorem oneLine_receivedText (helo host : Str) {proto : Str} (hproto : OneLine proto)
    (now : SystemTime) : OneLine (receivedText helo host proto now) := by
  unfold receivedText
  refine OneLine.append ?_ (oneLine_dateText _ _ _)
  refine OneLine.append (OneLine.append ?_ hproto) (by decide)
  refine OneLine.append (OneLine.append ?_ (oneLine_sanitize host)) (by decide)
  exact ((by decide : OneLine _).append (oneLine_sanitize helo)).append (by decide)

theorem oneLine_receivedSpfText (result host clientIp envelopeFrom helo : Str) :
    OneLine (receivedSpfText result host clientIp envelopeFrom helo) := by
  have hfrom := oneLine_reversePath envelopeFrom
  have hresult := oneLine_sanitize result
  have hip := oneLine_sanitize clientIp
  unfold receivedSpfText
  refine OneLine.append (OneLine.append ?_ (oneLine_sanitize helo)) (by decide)
  refine OneLine.append (OneLine.append ?_ hfrom) (by decide)
  refine OneLine.append (OneLine.append ?_ hip) (by decide)
  refine OneLine.append (OneLine.append ?_ hfrom) (by decide)
  refine OneLine.append (OneLine.append ?_ hresult) (by decide)
  refine OneLine.append (OneLine.append ?_ hip) (by decide)
  refine OneLine.append (OneLine.append ?_ (oneLine_sanitize host)) (by decide)
  exact ((by decide : OneLine _).append hresult).append (by decide)

theorem oneLine_dkimText (dkim : List DkimOutcome) : OneLine (dkimText dkim) := by
  unfold dkimText
  split
  · decide
  · apply oneLine_flatMap
    intro outcome
    have hresult : OneLine outcome.result.asStr := by cases outcome.result <;> decide
    refine OneLine.append (OneLine.append ?_ (by decide)) (oneLine_sanitize _)
    exact (by decide : OneLine _).append hresult

theorem oneLine_dmarcText (dmarc : Option DmarcResult) (fromDomain : Str) :
    OneLine (dmarcText (dmarc.map DmarcResult.asStr) fromDomain) := by
  cases dmarc with
  | none =>
    show OneLine []
    decide
  | some r =>
    have htokens : ∀ t ∈ ["none".toList, "pass".toList, "fail".toList], OneLine t := by decide
    refine OneLine.append (OneLine.append ?_ (by decide)) (oneLine_sanitize _)
    exact (by decide : OneLine _).append (htokens _ r.asStr_mem)

theorem oneLine_authenticationResultsText (host : Str) (spf : Option Spf.SpfResult)
    (mailFrom : Str) (dkim : List DkimOutcome) (dmarc : Option DmarcResult) (fromDomain : Str) :
    OneLine (authenticationResultsText host spf mailFrom dkim (dmarc.map DmarcResult.asStr)
      fromDomain) := by
  have hspf : OneLine (spf.elim "none".toList Spf.SpfResult.asStr) := by
    cases spf with
    | none => decide
    | some r => cases r <;> decide
  unfold authenticationResultsText
  refine OneLine.append ?_ (oneLine_dmarcText dmarc fromDomain)
  refine OneLine.append (OneLine.append ?_ (oneLine_reversePath mailFrom)) (oneLine_dkimText dkim)
  refine OneLine.append (OneLine.append ?_ hspf) (by decide)
  exact ((by decide : OneLine _).append (oneLine_sanitize host)).append (by decide)

theorem OneLine.lf_not_mem {s : Str} (h : OneLine s) : lf ∉ encodeUtf8 s := fun hm =>
  h.2 (ofNat_mem_of_mem_encodeUtf8 (by decide) hm)

/-- No server line has a line break in it, whatever it was filled with. -/
theorem ServerLine.lf_not_mem {line : Bytes} (h : ServerLine line) : lf ∉ line := by
  cases h with
  | received helo host authenticated tls now =>
    have hproto : OneLine (protocol authenticated tls) := by
      cases authenticated <;> cases tls <;> decide
    exact (oneLine_receivedText helo host hproto now).lf_not_mem
  | receivedSpf result host client mailFrom helo =>
    exact (oneLine_receivedSpfText _ host _ mailFrom helo).lf_not_mem
  | authenticationResults host spf mailFrom dkim dmarc fromDomain =>
    exact (oneLine_authenticationResultsText host spf mailFrom dkim dmarc fromDomain).lf_not_mem

/-! ## 4. What a relay writes -/

-- stamping keeps the text a sequence of CRLF lines
theorem Stamped.crlfLines {m m' : Message} (h : Stamped m m') (hm : CrlfLines m.toBytes) :
    CrlfLines m'.toBytes := by
  induction h with
  | refl => exact hm
  | prepend _ hline ih =>
    rw [Message.toBytes_prependHeader]
    exact (crlfLines_line hline.lf_not_mem).append ih

theorem Stamped.envelope {m m' : Message} (h : Stamped m m') : m'.envelope = m.envelope := by
  induction h with
  | refl => rfl
  | prepend _ _ ih =>
    rw [Message.envelope_prependHeader]
    exact ih

/-- Outgoing data is never split by its receiver.  A collector with room for it sees the end of
`dot_stuff` output at its last line and nowhere else; and what `relay_script` sends of a collected
message, stamped any number of times, has no bare LF and one end marker, in its last five bytes. -/
theorem relay_data_never_split :
    (∀ (b : Bytes) (maxSize : Nat), 2 * (dotStuff b).length ≤ maxSize →
      ∃ n, (splitInclusive lf (dotStuff b)).length = n + 1 ∧
        ((InboundCollector.withMaxSize maxSize).pushLines (splitInclusive lf (dotStuff b))).1 =
          List.replicate n false ++ [true]) ∧
    (∀ (maxSize : Nat) (stream : Bytes) (c : InboundCollector) (rest : List Bytes)
      (envelope : Envelope) (m m' : Message) (heloDomain : Str),
      (InboundCollector.withMaxSize maxSize).collect (splitInclusive lf stream) = some (c, rest) →
      c.intoMessage envelope = .ok m → Stamped m m' →
      NoBareLf (relayScript heloDomain m').data ∧
      crlf ++ endLine <:+ (relayScript heloDomain m').data ∧
      ∀ u v, (relayScript heloDomain m').data = u ++ crlf ++ endLine ++ v → v = []) := by
  apply And.intro
  · intro b maxSize hroom
    rcases splitInclusive_dotStuff b with ⟨init, hsplit, hinit, hflat⟩
    have hlen : init.flatten.length ≤ (dotStuff b).length := by
      rw [← hflat, List.length_append]
      omega
    have hfit : (canonicalBody init).length ≤ maxSize := by
      have hle := length_canonicalBody_le hinit
      omega
    rcases pushLines_dotStuff hinit hflat hfit with ⟨c, hpush, -, hend⟩
    refine ⟨init.length, by rw [hsplit]; simp, ?_⟩
    rw [hsplit, InboundCollector.pushLines_append, hpush]
    simp only [InboundCollector.pushLines, hend]
  · intro maxSize stream c rest envelope m m' heloDomain hcollect hparse hstamp
    have hbody : CrlfLines c.body :=
      InboundCollector.crlfLines_collect crlfLines_nil (fun _ => isLine_of_mem_splitInclusive)
        hcollect
    have hm : CrlfLines m.toBytes := by
      rw [(Message.toBytes_parse hparse).1]
      exact hbody
    have hlines : CrlfLines (relayScript heloDomain m').data :=
      crlfLines_dotStuff (hstamp.crlfLines hm)
    exact ⟨hlines.noBareLf, dotStuff_marker m'.toBytes⟩

theorem relay_data_never_split_dots :
    ((InboundCollector.withMaxSize 100).pushLines
        (splitInclusive lf (dotStuff (ascii ".\r\n.")))).1 = [false, false, true] ∧
    ∀ u v, (relayScript [] ((⟨⟨none, []⟩, ⟨[]⟩, [], ascii "\r\n"⟩ : Message).prependHeader
      (receivedHeader "a\nb".toList [] (protocol false true) .unixEpoch))).data
        = u ++ crlf ++ endLine ++ v → v = [] := by
  have hrun : (InboundCollector.withMaxSize 100).collect (splitInclusive lf (ascii "\r\n.\r\n")) =
      some (⟨crlf, true, true, 100, false, by decide⟩, []) := rfl
  apply And.intro
  · rcases relay_data_never_split.1 (ascii ".\r\n.") 100 (by decide) with ⟨n, hn, h⟩
    have hn' : n = 2 := by
      have hlen : (splitInclusive lf (dotStuff (ascii ".\r\n."))).length = 3 := by decide
      omega
    rw [h, hn']
    rfl
  · exact (relay_data_never_split.2 100 (ascii "\r\n.\r\n") _ [] ⟨none, []⟩
      ⟨⟨none, []⟩, ⟨[]⟩, [], ascii "\r\n"⟩ _ [] hrun (by decide)
      (.prepend .refl (.received _ _ _ _ _))).2.2

end Snail.Server
