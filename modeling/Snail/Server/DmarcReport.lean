import Snail.Mail.Outbound
import Snail.Server.Composed
import Snail.Server.Routing

/-!
# DmarcReport — aggregate reports to addresses from the DNS

`build_report` of `services/snail_server/src/dmarc_report.rs`.  The address a report goes to is
published by the domain it is about; it ends up in a header, in the commands of the relay and in the
control record of the spool.
-/

open Snail.Reasoning Snail.Mail Snail.Network

namespace Snail.Server

/-! ## 1. Reports -/

structure RowKey where
  sourceIp : IpAddr
  headerFrom : Str
  disposition : Str
  dkimEvalPass : Bool
  spfEvalPass : Bool
  spfDomain : Str
  spfResult : Str
  dkim : List (Str × Str)
  deriving DecidableEq, Repr

structure PendingReport where
  domain : Str
  published : DmarcRecord
  rua : Str
  rows : List (RowKey × Nat)
  deriving DecidableEq, Repr

/-- What reports are packed with, `flate2` and `base64`. -/
structure Packer where
  gzip : Bytes → Bytes
  base64 : Bytes → Bytes

def align : AlignmentMode → Str
  | .relaxed => "r".toList
  | .strict => "s".toList

def policyName : DmarcPolicy → Str
  | .none => "none".toList
  | .quarantine => "quarantine".toList
  | .reject => "reject".toList

def passFail (pass : Bool) : Str := if pass then "pass".toList else "fail".toList

-- `replace` of a character by a text
def replaceChar (c : Char) (text : String) (s : Str) : Str :=
  s.flatMap fun d => if d = c then text.toList else [d]

def esc (s : Str) : Str :=
  replaceChar '\'' "&apos;" (replaceChar '"' "&quot;" (replaceChar '>' "&gt;"
    (replaceChar '<' "&lt;" (replaceChar '&' "&amp;" s))))

-- `<tag>text</tag>`
def element (tag : String) (text : Str) : Str :=
  '<' :: tag.toList ++ '>' :: text ++ "</".toList ++ tag.toList ++ ['>']

-- an indented line of the XML
def xmlLine (indent : Nat) (text : Str) : Str := List.replicate indent ' ' ++ text ++ "\r\n".toList

def reportRow (row : RowKey × Nat) : Str :=
  xmlLine 2 "<record>".toList ++ xmlLine 4 "<row>".toList ++
    xmlLine 6 (element "source_ip" row.1.sourceIp.toText) ++
    xmlLine 6 (element "count" (showNat row.2)) ++
    xmlLine 6 "<policy_evaluated>".toList ++
    xmlLine 8 (element "disposition" (esc row.1.disposition)) ++
    xmlLine 8 (element "dkim" (passFail row.1.dkimEvalPass)) ++
    xmlLine 8 (element "spf" (passFail row.1.spfEvalPass)) ++
    xmlLine 6 "</policy_evaluated>".toList ++ xmlLine 4 "</row>".toList ++
    xmlLine 4 (element "identifiers" (element "header_from" (esc row.1.headerFrom))) ++
    xmlLine 4 "<auth_results>".toList ++
    (row.1.dkim.flatMap fun d =>
      xmlLine 6 (element "dkim" (element "domain" (esc d.1) ++ element "result" (esc d.2)))) ++
    xmlLine 6 (element "spf"
      (element "domain" (esc row.1.spfDomain) ++ element "result" (esc row.1.spfResult))) ++
    xmlLine 4 "</auth_results>".toList ++ xmlLine 2 "</record>".toList

/-- `report_xml`. -/
def reportXml (host : Str) (report : PendingReport) (since till : Nat) (reportId : Str) : Str :=
  xmlLine 0 "<?xml version=\"1.0\" encoding=\"UTF-8\"?>".toList ++ xmlLine 0 "<feedback>".toList ++
    xmlLine 2 "<report_metadata>".toList ++
    xmlLine 4 (element "org_name" (esc host)) ++
    xmlLine 4 (element "email" ("dmarc-noreply@".toList ++ esc host)) ++
    xmlLine 4 (element "report_id" (esc reportId)) ++
    xmlLine 4 (element "date_range"
      (element "begin" (showNat since) ++ element "end" (showNat till))) ++
    xmlLine 2 "</report_metadata>".toList ++
    xmlLine 2 "<policy_published>".toList ++
    xmlLine 4 (element "domain" (esc report.domain)) ++
    xmlLine 4 (element "adkim" (align report.published.adkim)) ++
    xmlLine 4 (element "aspf" (align report.published.aspf)) ++
    xmlLine 4 (element "p" (policyName report.published.policy)) ++
    (report.published.subdomainPolicy.elim [] fun sp => xmlLine 4 (element "sp" (policyName sp))) ++
    xmlLine 4 (element "pct" (showNat report.published.pct)) ++
    xmlLine 2 "</policy_published>".toList ++
    report.rows.flatMap reportRow ++ xmlLine 0 "</feedback>".toList

-- a chunk that is no UTF-8 is dropped
def wrapBase64 (b64 : Bytes) : Bytes :=
  (b64.toChunks 76).flatMap fun chunk => (if (decodeUtf8 chunk).isSome then chunk else []) ++ crlf

/-! ## 2. Where a report goes -/

-- the address in one entry of the list, without its size limit
def ruaAddress (entry : Str) : Option Str :=
  let entry := trim entry
  (("mailto:".toList.isPrefixOf? entry).or ("MAILTO:".toList.isPrefixOf? entry)).map fun addr =>
    trim (addr.takeWhile (· ≠ '!'))

def parseRua (rua : Str) : Option Mailbox :=
  (rua.splitOn ',').findSome? fun entry =>
    (ruaAddress entry).bind fun addr => (Mailbox.parse addr).toOption

def reportSender (host : Str) : Str := "dmarc-noreply@".toList ++ host

/-- The fields of a report, in the order they are written. -/
def reportFields (host : Str) (rua : Mailbox) (domain : Str) (since till : Nat) (reportId : Str) :
    List (Str × Str) :=
  let filename := host ++ '!' :: domain ++ '!' :: showNat since ++ '!' :: showNat till ++
    ".xml.gz".toList
  [("From".toList, reportSender host),
    ("To".toList, '<' :: rua.toString ++ ['>']),
    ("Subject".toList, "Report Domain: ".toList ++ domain ++ " Submitter: ".toList ++ host ++
      " Report-ID: ".toList ++ reportId),
    ("MIME-Version".toList, "1.0".toList),
    ("Content-Type".toList, "application/gzip; name=\"".toList ++ filename ++ ['"']),
    ("Content-Transfer-Encoding".toList, "base64".toList),
    ("Content-Disposition".toList, "attachment; filename=\"".toList ++ filename ++ ['"'])]

/-- `build_report`. -/
def buildReport (packer : Packer) (host : Str) (report : PendingReport) (since till : Nat)
    (reportId : Str) : Option Message :=
  (parseRua report.rua).bind fun rua =>
    let gz := packer.gzip (encodeUtf8 (reportXml host report since till reportId))
    let raw := composed (reportFields host rua report.domain since till reportId)
      (wrapBase64 (packer.base64 gz) ++ crlf)
    (Mailbox.parse (reportSender host)).toOption.bind fun sender =>
      (Message.parse ⟨some sender, [rua]⟩ raw).toOption

-- the id that `flush_reports` gives a report
def reportIdOf (till : Nat) (domain : Str) : Str := showNat till ++ '.' :: domain

/-! ## 3. Addresses that stay on one line -/

/-- The address a list names: that of the first entry with one that can be read. -/
def RuaAddress (rua addr : Str) : Prop :=
  ∃ before entry after, rua.splitOn ',' = before ++ entry :: after ∧
    ruaAddress entry = some addr ∧ (∃ m, Mailbox.parse addr = .ok m) ∧
    ∀ other ∈ before, ∀ addr', ruaAddress other = some addr' → ∀ m, Mailbox.parse addr' ≠ .ok m

/-- Behind a source route, if there is one, the address is free of line breaks, and it begins
neither with another route nor with white space. -/
def PlainAddress (addr : Str) : Prop :=
  ∃ spec, Mailbox.addrSpec? addr = some spec ∧ '\r' ∉ spec ∧ '\n' ∉ spec ∧
    ∀ c ∈ spec.head?, c ≠ '@' ∧ isWhitespace c = false

theorem parseRua_eq_some_iff {rua : Str} {r : Mailbox} :
    parseRua rua = some r ↔ ∃ addr, RuaAddress rua addr ∧ Mailbox.parse addr = .ok r := by
  have hnone : ∀ entry,
      (((ruaAddress entry).bind fun addr => (Mailbox.parse addr).toOption) = none ↔
        ∀ addr, ruaAddress entry = some addr → ∀ m, Mailbox.parse addr ≠ .ok m) := by
    intro entry
    rw [Option.bind_eq_none_iff]
    simp only [Option.eq_none_iff_forall_ne_some, ne_eq, toOption_eq_some_iff]
  rw [parseRua, List.findSome?_eq_some_iff]
  constructor
  · rintro ⟨before, entry, after, hsplit, hfound, hbefore⟩
    obtain ⟨addr, haddr, hparse⟩ := Option.bind_eq_some_iff.mp hfound
    rw [toOption_eq_some_iff] at hparse
    exact ⟨addr, ⟨before, entry, after, hsplit, haddr, ⟨r, hparse⟩,
      fun other hother => (hnone other).mp (hbefore other hother)⟩, hparse⟩
  · rintro ⟨addr, ⟨before, entry, after, hsplit, haddr, -, hbefore⟩, hparse⟩
    refine ⟨before, entry, after, hsplit, ?_, fun other hother =>
      (hnone other).mpr (hbefore other hother)⟩
    rw [haddr, Option.bind_some, toOption_eq_some_iff]
    exact hparse

theorem trim_trim (s : Str) : trim (trim s) = trim s :=
  trim_eq_self (fun _ hc => head_trim hc) fun _ hc => getLast_trim hc

theorem trim_of_ruaAddress {entry addr : Str} (h : ruaAddress entry = some addr) :
    trim addr = addr := by
  obtain ⟨rest, -, rfl⟩ := Option.map_eq_some_iff.mp h
  exact trim_trim _

-- the address behind the route is the mailbox as it is printed
theorem addrSpec?_of_ruaAddress {rua addr : Str} {r : Mailbox} (h : RuaAddress rua addr)
    (hparse : Mailbox.parse addr = .ok r) : Mailbox.addrSpec? addr = some r.toString := by
  obtain ⟨before, entry, after, -, haddr, -⟩ := h
  have hspec := (Mailbox.parse_eq_ok_iff.mp hparse).1
  rwa [trim_of_ruaAddress haddr] at hspec

theorem plainAddress_iff {rua : Str} {r : Mailbox} (h : parseRua rua = some r) :
    (∃ addr, RuaAddress rua addr ∧ PlainAddress addr) ↔
      '\r' ∉ r.toString ∧ '\n' ∉ r.toString ∧
        ∀ c ∈ r.localPart.head?, c ≠ '@' ∧ isWhitespace c = false := by
  constructor
  · rintro ⟨addr, hrua, spec, hspec, hcr, hlf, hhead⟩
    obtain ⟨before, entry, after, -, -, ⟨r', hr'⟩, -⟩ := id hrua
    have hsame : parseRua rua = some r' := parseRua_eq_some_iff.mpr ⟨addr, hrua, hr'⟩
    rw [h, Option.some.injEq] at hsame
    rw [← hsame] at hr'
    rw [addrSpec?_of_ruaAddress hrua hr', Option.some.injEq] at hspec
    rw [← hspec, Mailbox.head?_toString (Mailbox.parse_eq_ok_iff.mp hr').2.1] at hhead
    rw [hspec]
    exact ⟨hcr, hlf, hhead⟩
  · rintro ⟨hcr, hlf, hhead⟩
    obtain ⟨addr, hrua, hparse⟩ := parseRua_eq_some_iff.mp h
    rw [← Mailbox.head?_toString (Mailbox.parse_eq_ok_iff.mp hparse).2.1] at hhead
    exact ⟨addr, hrua, r.toString, addrSpec?_of_ruaAddress hrua hparse, hcr, hlf, hhead⟩

/-! ## 4. What becomes of a report -/

section
variable {packer : Packer} {host : Str} {report : PendingReport} {since till : Nat}
  {reportId : Str} {m : Message}

theorem of_buildReport (h : buildReport packer host report since till reportId = some m) :
    ∃ r sender body, parseRua report.rua = some r ∧
      Mailbox.parse (reportSender host) = .ok sender ∧
      Message.parse ⟨some sender, [r]⟩
        (composed (reportFields host r report.domain since till reportId) body) = .ok m := by
  obtain ⟨r, hr, h⟩ := Option.bind_eq_some_iff.mp h
  obtain ⟨sender, hsender, h⟩ := Option.bind_eq_some_iff.mp h
  exact ⟨r, sender, _, hr, toOption_eq_some_iff.mp hsender, toOption_eq_some_iff.mp h⟩

/-- The server's own address has no route, and no line break if the host has none. -/
theorem toString_reportSender {sender : Mailbox}
    (h : Mailbox.parse (reportSender host) = .ok sender) :
    sender.toString = trim (reportSender host) := by
  have htext : trim (reportSender host) = 'd' :: trimEnd ("marc-noreply@".toList ++ host) :=
    trim_append_cons [] _ (by decide)
  have hself : Mailbox.addrSpec? (trim (reportSender host)) = some (trim (reportSender host)) := by
    rw [Mailbox.addrSpec?_eq_self_iff, htext, List.head?_cons]
    decide
  have hspec := (Mailbox.parse_eq_ok_iff.mp h).1
  rw [hself, Option.some.injEq] at hspec
  exact hspec.symm

theorem not_mem_reportSender {sender : Mailbox}
    (h : Mailbox.parse (reportSender host) = .ok sender) {c : Char}
    (hc : c ∉ "dmarc-noreply@".toList) (hhost : c ∉ host) : c ∉ sender.toString := by
  rw [toString_reportSender h]
  intro hmem
  obtain hmem | hmem := List.mem_append.mp (mem_of_mem_trim hmem)
  · exact hc hmem
  · exact hhost hmem

theorem parse_toString_reportSender {sender : Mailbox}
    (h : Mailbox.parse (reportSender host) = .ok sender) :
    Mailbox.parse sender.toString = .ok sender := by
  rw [Mailbox.parse_toString_iff h, ← Mailbox.head?_toString (Mailbox.parse_eq_ok_iff.mp h).2.1,
    toString_reportSender h,
    show trim (reportSender host) = 'd' :: trimEnd ("marc-noreply@".toList ++ host) from
      trim_append_cons [] _ (by decide)]
  intro c hc
  cases hc
  decide

-- the commands of the relay are lines if the two addresses are
theorem commands_unbroken_iff {sender r : Mailbox} (henv : m.envelope = ⟨some sender, [r]⟩)
    {c : Char} (hc : c = '\r' ∨ c = '\n') (hhost : c ∉ host) (hsender : c ∉ sender.toString) :
    (∀ line ∈ (relayScript host m).commands, c ∉ line) ↔ c ∉ r.toString := by
  have hclose : c ≠ '>' := by
    obtain rfl | rfl := hc
    · decide
    · decide
  have hwords : ∀ word ∈ ["EHLO ".toList, "MAIL FROM:<".toList, "RCPT TO:<".toList,
      "DATA".toList], c ∉ word := by
    obtain rfl | rfl := hc
    · decide
    · decide
  simp only [List.mem_cons, List.not_mem_nil, or_false, forall_eq_or_imp, forall_eq] at hwords
  obtain ⟨hehlo, hmail, hrcpt, hdata⟩ := hwords
  simp only [relayScript, henv, Option.elim, List.map_cons, List.map_nil, List.cons_append,
    List.nil_append, List.mem_cons, List.not_mem_nil, or_false, forall_eq_or_imp, forall_eq,
    List.mem_append, not_or]
  constructor
  · intro h
    exact h.2.2.1.1.2
  · intro h
    exact ⟨⟨hehlo, hhost⟩, ⟨⟨hmail, hsender⟩, hclose⟩, ⟨⟨hrcpt, h⟩, hclose⟩, hdata⟩

/-- The fields are read as they were written unless the domain brings a line break with it. -/
theorem fields_read_iff {env : Envelope} {r : Mailbox} {body : Bytes}
    (h : Message.parse env
      (composed (reportFields host r report.domain since till reportId) body) = .ok m)
    (hhost : '\n' ∉ host) (hr : '\n' ∉ r.toString)
    (hid : '\n' ∈ reportId → '\n' ∈ report.domain) :
    m.headers.entries = (reportFields host r report.domain since till reportId).map
        (fun f => (f.1, trim f.2)) ↔ '\n' ∉ report.domain := by
  constructor
  · intro heq hdomain
    -- a line break in the middle of the subject is not trimmed
    have hsubject : ("Subject".toList, trim ("Report Domain: ".toList ++ report.domain ++
        " Submitter: ".toList ++ host ++ " Report-ID: ".toList ++ reportId)) ∈
        m.headers.entries := by
      rw [heq]
      simp [reportFields]
    have htrim : trim ("Report Domain: ".toList ++ report.domain ++ " Submitter: ".toList ++ host ++
        " Report-ID: ".toList ++ reportId) = trimStart ("Report Domain: ".toList ++ report.domain ++
          [' ']) ++ 'S' :: trimEnd ("ubmitter: ".toList ++ host ++ " Report-ID: ".toList ++
          reportId) := by
      rw [← trim_append_cons _ _ (by decide)]
      simp
    have hstart : trimStart ("Report Domain: ".toList ++ report.domain ++ [' ']) =
        "Report Domain: ".toList ++ report.domain ++ [' '] :=
      trimStart_eq_self fun c hc => by cases hc; decide
    refine newline_not_mem_headers h _ hsubject ?_
    rw [htrim, hstart]
    simp [hdomain]
  · intro hdomain
    have hclean : ∀ f ∈ reportFields host r report.domain since till reportId,
        IsFieldName f.1 ∧ '\n' ∉ f.2 := by
      have hnat : ∀ n, '\n' ∉ showNat n := by
        intro n hn
        cases isDigit_of_mem_showNat hn
      have hno : '\n' ∉ reportId := fun hn => hdomain (hid hn)
      unfold reportFields reportSender
      simp only [List.forall_mem_cons, List.not_mem_nil, false_imp_iff, implies_true, and_true]
      refine ⟨⟨by decide, ?_⟩, ⟨by decide, ?_⟩, ⟨by decide, ?_⟩, ⟨by decide, by decide⟩,
        ⟨by decide, ?_⟩, ⟨by decide, by decide⟩, by decide, ?_⟩
      all_goals simp [hhost, hr, hdomain, hno, hnat]
    obtain ⟨m', hm', hentries, -⟩ := parse_composed (by simp [reportFields]) hclean env body
    rw [h, Except.ok.injEq] at hm'
    rw [hm']
    exact hentries

/-- The spool gives the recipient back exactly if its printed form does. -/
theorem recipient_kept_iff {w : World} {io : EnqueueIo} (hio : io.fault = none)
    {sender r : Mailbox} (henv : m.envelope = ⟨some sender, [r]⟩)
    (hsender : Mailbox.parse sender.toString = .ok sender ∧ OnLine sender.toString)
    (hr : OnLine r.toString) :
    (∃ entry, readCtrl (w.enqueue io m).disk (newId io.nanos w.counter) = .ok entry ∧
      entry.recipients = [r]) ↔ Mailbox.parse r.toString = .ok r := by
  have hsame : m.withRecipients [r] = m := Message.withRecipients_self (by rw [henv])
  have hholds := holdsEntry_enqueue (w := w) hio m [r]
  rw [hsame] at hholds
  constructor
  · rintro ⟨entry, hread, hrcpts⟩
    obtain ⟨now, hctrl⟩ := hholds.ctrl
    rw [readCtrl_of_record hctrl, henv] at hread
    obtain ⟨sender', ms, -, hms, -, rfl⟩ := (parseCtrl_renderCtrl
      (by intro s hs; cases hs; exact hsender.2)
      (by intro s hs; rw [List.mem_singleton.mp hs]; exact hr)).mp hread
    rw [show ms = [r] from hrcpts] at hms
    cases hms with
    | cons hparse _ => exact hparse
  · intro hparse
    obtain ⟨entry, hread, hentry⟩ := hholds.readCtrl (by simp)
      (by rw [henv]; intro s hs; cases hs; exact hsender)
      (by intro s hs; rw [List.mem_singleton.mp hs]; exact ⟨hparse, hr⟩)
    exact ⟨entry, hread, congrArg Envelope.recipients hentry⟩

/-- A report has the fields that are written and one recipient, its commands are lines, and the
spool gives the recipient back. -/
def ReportKept (host : Str) (report : PendingReport) (since till : Nat) (reportId : Str)
    (m : Message) (w : World) (io : EnqueueIo) : Prop :=
  ∃ r, m.envelope.recipients = [r] ∧
    m.headers.entries = (reportFields host r report.domain since till reportId).map
      (fun f => (f.1, trim f.2)) ∧
    (∀ line ∈ (relayScript host m).commands, '\r' ∉ line ∧ '\n' ∉ line) ∧
    ∃ entry, readCtrl (w.enqueue io m).disk (newId io.nanos w.counter) = .ok entry ∧
      entry.recipients = [r]

/-- A report keeps to the fields, the commands and the recipient it is meant to have exactly when
the published address is a plain one and the domain is free of line feeds. -/
theorem dmarc_report_injects_nothing_iff (packer : Packer) (host : Str) (report : PendingReport)
    (since till : Nat) (reportId : Str) (m : Message) (w : World) (io : EnqueueIo)
    (hhost : '\r' ∉ host ∧ '\n' ∉ host) (hid : '\n' ∈ reportId → '\n' ∈ report.domain)
    (hio : io.fault = none) (h : buildReport packer host report since till reportId = some m) :
    ReportKept host report since till reportId m w io ↔
      (∃ addr, RuaAddress report.rua addr ∧ PlainAddress addr) ∧ '\n' ∉ report.domain := by
  obtain ⟨r, sender, body, hr, hsender, hparse⟩ := of_buildReport h
  have henv := (Message.toBytes_parse hparse).2
  obtain ⟨addr, -, haddr⟩ := parseRua_eq_some_iff.mp hr
  have hcr := not_mem_reportSender hsender (c := '\r') (by decide) hhost.1
  have hlf := not_mem_reportSender hsender (c := '\n') (by decide) hhost.2
  have hkept : '\n' ∉ r.toString → ((∃ entry, readCtrl (w.enqueue io m).disk
      (newId io.nanos w.counter) = .ok entry ∧ entry.recipients = [r]) ↔
      ∀ c ∈ r.localPart.head?, c ≠ '@' ∧ isWhitespace c = false) := by
    intro hline
    rw [← Mailbox.parse_toString_iff haddr]
    exact recipient_kept_iff hio henv
      ⟨parse_toString_reportSender hsender, onLine_toString hsender hlf⟩
      (onLine_toString haddr hline)
  rw [plainAddress_iff hr]
  constructor
  · rintro ⟨r', hrcpts, hfields, hcommands, hentry⟩
    have hsame : r' = r := by
      rw [henv] at hrcpts
      exact (List.singleton_inj.mp hrcpts).symm
    rw [hsame] at hfields hentry
    have hrcr := (commands_unbroken_iff henv (.inl rfl) hhost.1 hcr).mp
      fun line hline => (hcommands line hline).1
    have hrlf := (commands_unbroken_iff henv (.inr rfl) hhost.2 hlf).mp
      fun line hline => (hcommands line hline).2
    exact ⟨⟨hrcr, hrlf, (hkept hrlf).mp hentry⟩,
      (fields_read_iff hparse hhost.2 hrlf hid).mp hfields⟩
  · rintro ⟨⟨hrcr, hrlf, hhead⟩, hdomain⟩
    refine ⟨r, by rw [henv], (fields_read_iff hparse hhost.2 hrlf hid).mpr hdomain, ?_,
      (hkept hrlf).mpr hhead⟩
    intro line hline
    exact ⟨(commands_unbroken_iff henv (.inl rfl) hhost.1 hcr).mpr hrcr line hline,
      (commands_unbroken_iff henv (.inr rfl) hhost.2 hlf).mpr hrlf line hline⟩

end

def exampleReport (rua : String) : PendingReport :=
  ⟨"x.org".toList, ⟨.none, none, .relaxed, .relaxed, 100, some rua.toList⟩, rua.toList, []⟩

def buildExample (rua : String) : Option Message :=
  buildReport ⟨fun _ => [], id⟩ "mx.net".toList (exampleReport rua) 1 2
    (reportIdOf 2 "x.org".toList)

theorem dmarc_report_injects_nothing_iff_plain :
    ∃ m, buildExample "https://y.org,mailto:d@y.org!10m" = some m ∧
      ReportKept "mx.net".toList (exampleReport "https://y.org,mailto:d@y.org!10m") 1 2
        (reportIdOf 2 "x.org".toList) m .empty ⟨0, .unixEpoch, none⟩ := by
  obtain ⟨m, hm⟩ := Option.isSome_iff_exists.mp
    (show (buildExample "https://y.org,mailto:d@y.org!10m").isSome = true by decide +kernel)
  refine ⟨m, hm, (dmarc_report_injects_nothing_iff _ _ _ _ _ _ m _ _ (by decide) (by decide) rfl
    hm).mpr ⟨⟨"d@y.org".toList, ?_, ?_⟩, by decide⟩⟩
  · refine ⟨["https://y.org".toList], "mailto:d@y.org!10m".toList, [], by decide +kernel,
      by decide +kernel, ⟨⟨"d".toList, "y.org".toList⟩, by decide +kernel⟩, ?_⟩
    intro other hother addr haddr
    have hnone : ruaAddress "https://y.org".toList = none := by decide +kernel
    rw [List.mem_singleton.mp hother, hnone] at haddr
    cases haddr
  · refine ⟨"d@y.org".toList, by decide +kernel, by decide, by decide, fun c hc => ?_⟩
    obtain rfl : 'd' = c := Option.some.inj hc
    decide

/-- An address with a line break in it adds a header field to the report, and a line to the commands
of the relay. -/
theorem rua_adds_header_field :
    ∃ m, buildExample "mailto:a\r\nBcc: b@y.org" = some m ∧
      ("Bcc".toList, "b@y.org>".toList) ∈ m.headers.entries ∧
      "RCPT TO:<a\r\nBcc: b@y.org>".toList ∈ (relayScript "mx.net".toList m).commands ∧
      ∀ w io, ¬ ReportKept "mx.net".toList (exampleReport "mailto:a\r\nBcc: b@y.org") 1 2
        (reportIdOf 2 "x.org".toList) m w io := by
  have hbuild : (buildExample "mailto:a\r\nBcc: b@y.org").any (fun m =>
      ("Bcc".toList, "b@y.org>".toList) ∈ m.headers.entries ∧
        "RCPT TO:<a\r\nBcc: b@y.org>".toList ∈
          (relayScript "mx.net".toList m).commands) = true := by
    decide +kernel
  obtain ⟨m, hm, hinjected⟩ := (Option.any_eq_true _ _).mp hbuild
  simp only [decide_eq_true_eq] at hinjected
  refine ⟨m, hm, hinjected.1, hinjected.2, ?_⟩
  rintro w io ⟨r, -, -, hcommands, -⟩
  exact (hcommands _ hinjected.2).1 (by decide)

end Snail.Server
