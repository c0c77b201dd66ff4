import Snail.Server.Composed
import Snail.Server.Received

/-!
# Stamping — a trace line in front of a message

`prepend_header` glues a line to bytes whose header section is found anew each time they are read.
The line becomes the first header and all others stay, unless the message begins with an empty
line: read without the stamp that line is skipped, behind the stamp it ends the header section.
-/

open Snail.Reasoning Snail.Mail Snail.Network

namespace Snail.Server

/-! ## 1. The lines as fields -/

/-- The three kinds of line over all strings they can be built from.  The transmission type and the
DMARC token are the server's own words and are not sanitised; here they are free of line feeds. -/
inductive TraceLine : Str → Bytes → Prop
  | received (helo host : Str) {proto : Str} (now : SystemTime) (hproto : '\n' ∉ proto) :
      TraceLine "Received".toList (receivedHeader helo host proto now)
  | receivedSpf (result host clientIp envelopeFrom helo : Str) :
      TraceLine "Received-SPF".toList (receivedSpfHeader result host clientIp envelopeFrom helo)
  | authenticationResults (host : Str) (spf : Option Spf.SpfResult) (mailFrom : Str)
      (dkim : List DkimOutcome) {dmarcToken : Option Str} (fromDomain : Str)
      (htoken : ∀ token ∈ dmarcToken, '\n' ∉ token) :
      TraceLine "Authentication-Results".toList
        (authenticationResultsHeader host spf mailFrom dkim dmarcToken fromDomain)

theorem newline_not_mem_protocol (authenticated tls : Bool) :
    '\n' ∉ protocol authenticated tls := by
  cases authenticated <;> cases tls <;> decide

-- what the server stamps on is of these kinds
theorem ServerLine.traceLine {line : Bytes} (h : ServerLine line) :
    ∃ name, TraceLine name line := by
  cases h with
  | received helo host authenticated tls now =>
    exact ⟨_, .received helo host now (newline_not_mem_protocol authenticated tls)⟩
  | receivedSpf result host client mailFrom helo => exact ⟨_, .receivedSpf _ _ _ _ _⟩
  | authenticationResults host spf mailFrom dkim dmarc fromDomain =>
    refine ⟨_, .authenticationResults host spf mailFrom dkim fromDomain ?_⟩
    intro token htoken
    obtain ⟨result, -, rfl⟩ := Option.mem_map.mp htoken
    have htokens : ∀ t ∈ ["none".toList, "pass".toList, "fail".toList], '\n' ∉ t := by decide
    exact htokens _ result.asStr_mem

theorem newline_not_mem_receivedText (helo host : Str) {proto : Str} (now : SystemTime)
    (hproto : '\n' ∉ proto) : '\n' ∉ receivedText helo host proto now := by
  have hhelo := (oneLine_sanitize helo).2
  have hhost := (oneLine_sanitize host).2
  have hdate : '\n' ∉ rfc5322Date now := (oneLine_dateText _ _ _).2
  unfold receivedText
  simp [hhelo, hhost, hproto, hdate]

theorem newline_not_mem_authenticationResultsText (host : Str) (spf : Option Spf.SpfResult)
    (mailFrom : Str) (dkim : List DkimOutcome) {dmarcToken : Option Str} (fromDomain : Str)
    (htoken : ∀ token ∈ dmarcToken, '\n' ∉ token) :
    '\n' ∉ authenticationResultsText host spf mailFrom dkim dmarcToken fromDomain := by
  have hrest := (oneLine_authenticationResultsText host spf mailFrom dkim none fromDomain).2
  have hdomain := (oneLine_sanitize fromDomain).2
  rw [Option.map_none] at hrest
  cases dmarcToken with
  | none => exact hrest
  | some token =>
    have htext : authenticationResultsText host spf mailFrom dkim (some token) fromDomain =
        authenticationResultsText host spf mailFrom dkim none fromDomain ++
          dmarcText (some token) fromDomain := by
      unfold authenticationResultsText
      rw [show dmarcText none fromDomain = [] from rfl, List.append_nil]
    have hdmarc : '\n' ∉ dmarcText (some token) fromDomain := by
      simp [dmarcText, htoken token rfl, hdomain]
    rw [htext, List.mem_append, not_or]
    exact ⟨hrest, hdmarc⟩

/-- Each of the lines is a field of its name. -/
theorem TraceLine.field {name : Str} {line : Bytes} (h : TraceLine name line) :
    IsFieldName name ∧ ∃ value, '\n' ∉ value ∧ line = encodeUtf8 (fieldLine (name, value)) := by
  have hvalue : ∀ {text : Str}, '\n' ∉ text → name ++ ": ".toList <+: text →
      ∃ value, '\n' ∉ value ∧ encodeUtf8 text = encodeUtf8 (fieldLine (name, value)) := by
    intro text htext hname
    obtain ⟨value, rfl⟩ := hname
    exact ⟨value, fun hm => htext (List.mem_append_right _ hm), rfl⟩
  cases h with
  | received helo host now hproto =>
    refine ⟨by decide, hvalue (newline_not_mem_receivedText helo host now hproto) ?_⟩
    unfold receivedText
    simp only [List.append_assoc]
    exact (by decide : _ <+: "Received: from ".toList).trans (List.prefix_append _ _)
  | receivedSpf result host clientIp envelopeFrom helo =>
    refine ⟨by decide, hvalue (oneLine_receivedSpfText _ _ _ _ _).2 ?_⟩
    unfold receivedSpfText
    simp only [List.append_assoc]
    exact (by decide : _ <+: "Received-SPF: ".toList).trans (List.prefix_append _ _)
  | authenticationResults host spf mailFrom dkim fromDomain htoken =>
    refine ⟨by decide, hvalue (newline_not_mem_authenticationResultsText host spf mailFrom dkim
      fromDomain htoken) ?_⟩
    unfold authenticationResultsText
    simp only [List.append_assoc]
    exact (by decide : _ <+: "Authentication-Results: ".toList).trans (List.prefix_append _ _)

/-! ## 2. Headers behind an open field -/

-- what is finished stays in front
theorem parseHeaderLines_append (ls : List Str) (pre entries : List (Str × Str))
    (current : Option (Str × Str)) :
    parseHeaderLines ls (pre ++ entries) current =
      (parseHeaderLines ls entries current).map (pre ++ ·) := by
  induction ls generalizing entries current with
  | nil =>
    rw [parseHeaderLines, parseHeaderLines, List.append_assoc]
    rfl
  | cons rawLine rest ih =>
    rw [parseHeaderLines_cons, parseHeaderLines_cons]
    by_cases hnil : stripReturn rawLine = []
    · rw [if_pos hnil, if_pos hnil]
      exact ih entries current
    rw [if_neg hnil, if_neg hnil]
    by_cases hfold : isContinuation (stripReturn rawLine) = true
    · rw [if_pos hfold, if_pos hfold]
      cases current with
      | none => rfl
      | some nv => exact ih entries _
    · rw [if_neg hfold, if_neg hfold]
      cases splitOnce ':' (stripReturn rawLine) with
      | none => rfl
      | some nv =>
        dsimp only
        rw [List.append_assoc]
        exact ih _ _

/-- A header section that is read alone is read behind an open field too: its first line is not a
continuation. -/
theorem parseHeaderLines_behind {ls : List Str} {es : List (Str × Str)}
    (h : parseHeaderLines ls [] none = .ok es) (field : Str × Str) :
    parseHeaderLines ls [] (some field) = .ok (field :: es) := by
  induction ls with
  | nil =>
    cases h
    rfl
  | cons rawLine rest ih =>
    rw [parseHeaderLines_cons] at h ⊢
    by_cases hnil : stripReturn rawLine = []
    · rw [if_pos hnil] at h ⊢
      exact ih h
    rw [if_neg hnil] at h ⊢
    by_cases hfold : isContinuation (stripReturn rawLine) = true
    · rw [if_pos hfold] at h
      cases h
    · rw [if_neg hfold] at h ⊢
      cases hcut : splitOnce ':' (stripReturn rawLine) with
      | none =>
        rw [hcut] at h
        cases h
      | some nv =>
        rw [hcut] at h
        have hpre := parseHeaderLines_append rest [field] [] (some (trim nv.1, trim nv.2))
        rw [List.append_nil] at hpre
        show parseHeaderLines rest [field] _ = _
        rw [hpre]
        change parseHeaderLines rest [] _ = _ at h
        rw [h]
        rfl

theorem parseHeaders_behind {name value text : Str} (hname : IsFieldName name)
    (hvalue : '\n' ∉ value) {headers : Headers} (h : parseHeaders text = .ok headers) :
    parseHeaders (fieldLine (name, value) ++ '\r' :: '\n' :: text) =
      .ok ⟨(name, trim value) :: headers.entries⟩ := by
  obtain ⟨es, hes, rfl⟩ := map_eq_ok_iff.mp h
  have hline : '\n' ∉ fieldLine (name, value) ++ ['\r'] := by
    simp [fieldLine, hname.newline_not_mem, hvalue]
  have hsplit : fieldLine (name, value) ++ '\r' :: '\n' :: text =
      (fieldLine (name, value) ++ ['\r']) ++ '\n' :: text := by simp
  unfold parseHeaders
  rw [hsplit, List.splitOn_append_cons_self_of_not_mem hline,
    parseHeaderLines_field hname (stripReturn_concat _)]
  show Except.map Headers.mk (parseHeaderLines _ [] _) = _
  rw [parseHeaderLines_behind hes]
  rfl

/-! ## 3. The header section of a stamped message -/

theorem splitMessage_line {line raw : Bytes} (hline : lf ∉ line) (hraw : ¬ crlf <+: raw) :
    splitMessage (line ++ crlf ++ raw) =
      (line ++ crlf ++ (splitMessage raw).1, (splitMessage raw).2) := by
  have hlen : (line ++ crlf).length = line.length + 2 := by simp [crlf]
  unfold splitMessage
  rw [findSub_line hline hraw]
  cases findSub (crlf ++ crlf) raw with
  | none => rfl
  | some p =>
    have hend : p + (line.length + 2) + 4 = (line ++ crlf).length + (p + 4) := by omega
    have hstart : p + (line.length + 2) = (line ++ crlf).length + p := by omega
    simp only [Option.map_some]
    rw [hend, hstart, List.take_length_add_append, List.drop_length_add_append]

-- an empty line at the front of a message ends the header section of the stamped one
theorem splitMessage_blank {line : Bytes} (hline : lf ∉ line)
    (hne : ∃ a rest, line = a :: rest ∧ a ≠ cr) (rest : Bytes) :
    splitMessage (line ++ crlf ++ (crlf ++ rest)) = (line, rest) := by
  have hblank : ¬ crlf ++ crlf <:+: line ++ crlf := by
    have h := @not_blank_of_lines [line] fun b hb => by
      rw [List.mem_singleton.mp hb]
      exact ⟨hline, hne⟩
    rw [List.flatMap_singleton] at h
    exact h
  have hfind := findSub_append (by decide) (findSub_of_no_blank hblank) rest
  have htext : line ++ crlf ++ (crlf ++ rest) = line ++ (crlf ++ crlf ++ rest) := by simp
  have hassoc : line ++ crlf ++ crlf ++ rest = line ++ (crlf ++ crlf ++ rest) := by simp
  have hend : line.length + 4 = line.length + (crlf ++ crlf).length := rfl
  rw [hassoc] at hfind
  unfold splitMessage
  rw [htext, hfind]
  dsimp only
  rw [List.take_left, hend, List.drop_length_add_append, List.drop_left]

-- reading a text without bare line feeds, in terms of its first blank line
theorem parse_eq_ok_of (envelope : Envelope) {raw : Bytes} (hlf : NoBareLf raw)
    {headers : Headers} (h : parseHeaders (decodeLossy (splitMessage raw).1) = .ok headers) :
    ∃ m, Message.parse envelope raw = .ok m ∧ m.headers = headers ∧
      m.body = (splitMessage raw).2 := by
  have hsplit := splitHeaderBody_eq hlf
  rw [← hsplit.1] at h
  unfold Message.parse
  dsimp only
  rw [h]
  exact ⟨_, rfl, rfl, hsplit.2⟩

theorem headers_of_parse {envelope : Envelope} {raw : Bytes} (hlf : NoBareLf raw) {m : Message}
    (h : Message.parse envelope raw = .ok m) :
    parseHeaders (decodeLossy (splitMessage raw).1) = .ok m.headers ∧
      m.body = (splitMessage raw).2 := by
  have hsplit := splitHeaderBody_eq hlf
  change (parseHeaders (decodeLossy (splitHeaderBody raw).1)).map _ = _ at h
  obtain ⟨headers, hheaders, rfl⟩ := map_eq_ok_iff.mp h
  rw [hsplit.1] at hheaders
  exact ⟨hheaders, hsplit.2⟩

theorem decodeLossy_line (line raw : Bytes) :
    decodeLossy (line ++ crlf ++ raw) = decodeLossy line ++ '\r' :: '\n' :: decodeLossy raw := by
  rw [List.append_assoc, crlf, List.cons_append, decodeLossy_append_ascii (by decide),
    List.singleton_append, decodeLossy_cons_ascii (by decide)]
  rfl

/-- A message that begins with an empty line loses its headers to the body when it is stamped. -/
theorem parse_stamped_blank {name value : Str} (hname : IsFieldName name) (hvalue : '\n' ∉ value)
    (envelope : Envelope) (rest : Bytes) (hlf : NoBareLf (crlf ++ rest)) :
    ∃ m, Message.parse envelope
        (encodeUtf8 (fieldLine (name, value)) ++ crlf ++ (crlf ++ rest)) = .ok m ∧
      m.headers.entries = [(name, trim value)] ∧ m.body = rest := by
  have hfield := encoded_fieldLine (f := (name, value)) hname hvalue
  have hsplit := splitMessage_blank hfield.1 hfield.2 rest
  have hheaders : parseHeaders (decodeLossy (encodeUtf8 (fieldLine (name, value)))) =
      .ok ⟨[(name, trim value)]⟩ := by
    have hwritten := @parseHeaders_written [(name, value)] (by simp) (by
      intro f hf
      rw [List.mem_singleton.mp hf]
      exact ⟨hname, hvalue⟩)
    rw [List.map_singleton, List.intercalate_singleton, List.map_singleton] at hwritten
    rw [decodeLossy_encodeUtf8, hwritten]
  obtain ⟨m, hm, hentries, hbody⟩ := parse_eq_ok_of envelope
    (NoBareLf.line_append hfield.1 hlf) (by rw [hsplit]; exact hheaders)
  rw [hsplit] at hbody
  exact ⟨m, hm, by rw [hentries], hbody⟩

/-! ## 4. Only that header -/

section
variable {raw : Bytes} {envelope : Envelope} {m : Message} {name : Str} {line : Bytes}

/-- The message that is read behind the stamp: the trace line comes first, and all headers and the
body are those of `m`. -/
def StampAdds (envelope : Envelope) (m : Message) (name : Str) (line : Bytes) : Prop :=
  ∃ m' value, line = encodeUtf8 (fieldLine (name, value)) ∧
    Message.parse envelope (m.prependHeader line).toBytes = .ok m' ∧
    m'.headers.entries = (name, trim value) :: m.headers.entries ∧ m'.body = m.body

theorem stampAdds_of_lead (hraw : Assembled raw) (hparse : Message.parse envelope raw = .ok m)
    (hline : TraceLine name line) (hlead : raw = crlf ∨ ¬ crlf <+: raw) :
    StampAdds envelope m name line := by
  obtain ⟨hname, value, hvalue, rfl⟩ := hline.field
  have hlf := hraw.crlfLines.noBareLf
  have hread := headers_of_parse hlf hparse
  unfold StampAdds
  rw [Message.toBytes_prependHeader, (Message.toBytes_parse hparse).1]
  cases hlead with
  | inl hcrlf =>
    -- without the stamp it is read as no headers and no body
    have halone : parseHeaders (decodeLossy (splitMessage crlf).1) = .ok ⟨[]⟩ ∧
        (splitMessage crlf).2 = [] := by decide
    rw [hcrlf] at hlf hread ⊢
    rw [halone.1, halone.2, Except.ok.injEq] at hread
    obtain ⟨m', hm', hentries, hbody⟩ :=
      parse_stamped_blank hname hvalue envelope [] (by rw [List.append_nil]; exact hlf)
    rw [List.append_nil] at hm'
    refine ⟨m', value, rfl, hm', ?_, hbody.trans hread.2.symm⟩
    rw [hentries, ← hread.1]
  | inr hlead =>
    have hfield := (encoded_fieldLine (f := (name, value)) hname hvalue).1
    have hsplit := splitMessage_line hfield hlead
    have hheaders := parseHeaders_behind hname hvalue hread.1
    obtain ⟨m', hm', hentries, hbody⟩ := parse_eq_ok_of envelope
      (NoBareLf.line_append hfield hlf) (by
        rw [hsplit, decodeLossy_line, decodeLossy_encodeUtf8]
        exact hheaders)
    rw [hsplit] at hbody
    exact ⟨m', value, rfl, hm', by rw [hentries], hbody.trans hread.2.symm⟩

-- the blank line of the message itself comes later than the one the stamp ends with
theorem length_body_lt {rest : Bytes} (hne : rest ≠ []) :
    (splitMessage (crlf ++ rest)).2.length < rest.length := by
  have hpos : 0 < rest.length := List.length_pos_of_ne_nil hne
  unfold splitMessage
  split
  · simp only [List.length_drop, List.length_append, crlf, List.length_cons, List.length_nil]
    omega
  · exact hpos

theorem not_stampAdds_of_blank {rest : Bytes} (hne : rest ≠ []) (hlf : NoBareLf (crlf ++ rest))
    (hparse : Message.parse envelope (crlf ++ rest) = .ok m) (hline : TraceLine name line) :
    ¬ StampAdds envelope m name line := by
  rintro ⟨m', -, -, hread, -, hbody⟩
  obtain ⟨hname, value, hvalue, rfl⟩ := hline.field
  rw [Message.toBytes_prependHeader, (Message.toBytes_parse hparse).1] at hread
  obtain ⟨stamped, hstamped, -, hrest⟩ := parse_stamped_blank hname hvalue envelope rest hlf
  cases hread.symm.trans hstamped
  have hlt := length_body_lt hne
  rw [← (headers_of_parse hlf hparse).2, ← hbody, hrest] at hlt
  exact lt_irrefl _ hlt

/-- Stamping a trace line on a collected message only adds that header exactly if the message does
not begin with an empty line, or is nothing but one. -/
theorem stamping_only_adds_iff (hraw : Assembled raw) (hparse : Message.parse envelope raw = .ok m)
    (hline : TraceLine name line) :
    StampAdds envelope m name line ↔ raw = crlf ∨ ¬ crlf <+: raw := by
  refine ⟨fun hadds => ?_, stampAdds_of_lead hraw hparse hline⟩
  by_contra hlead
  obtain ⟨hne, rest, rfl⟩ := (not_or.mp hlead).imp_right not_not.mp
  refine not_stampAdds_of_blank ?_ hraw.crlfLines.noBareLf hparse hline hadds
  rintro rfl
  exact hne (List.append_nil _)

end

def subjectMail : Bytes := ascii "Subject: s\r\n\r\nhi\r\n"

-- hostile strings in the line
theorem stamping_only_adds_iff_hostile :
    ∃ m, Message.parse ⟨none, []⟩ subjectMail = .ok m ∧
      StampAdds ⟨none, []⟩ m "Received".toList
        (receivedHeader "a\r\n\r\nb".toList "mx.org".toList "SMTP\r".toList .unixEpoch) := by
  have hparse : Message.parse ⟨none, []⟩ subjectMail = .ok ⟨⟨none, []⟩,
      ⟨[("Subject".toList, "s".toList)]⟩, ascii "hi\r\n", ascii "Subject: s\r\n\r\n"⟩ := by decide
  have hraw : Assembled subjectMail := ⟨4096, subjectMail, by decide⟩
  exact ⟨_, hparse, (stamping_only_adds_iff hraw hparse (.received _ _ _ (by decide))).mpr
    (.inr (by decide))⟩

/-- An empty line in front of the headers is skipped without the stamp, and ends the header section
behind it: the subject goes to the body. -/
theorem blank_line_moves_headers :
    Assembled (crlf ++ subjectMail) ∧
    ∃ m m', Message.parse ⟨none, []⟩ (crlf ++ subjectMail) = .ok m ∧
      m.headers.entries = [("Subject".toList, "s".toList)] ∧ m.body = ascii "hi\r\n" ∧
      Message.parse ⟨none, []⟩ (m.prependHeader (receivedHeader "a".toList "b".toList
        (protocol false false) .unixEpoch)).toBytes = .ok m' ∧
      m'.headers.entries.map Prod.fst = ["Received".toList] ∧ m'.body = subjectMail := by
  refine ⟨⟨4096, crlf ++ subjectMail, by decide⟩,
    ⟨⟨none, []⟩, ⟨[("Subject".toList, "s".toList)]⟩, ascii "hi\r\n",
      crlf ++ ascii "Subject: s\r\n\r\n"⟩, ⟨⟨none, []⟩, ⟨[("Received".toList,
      "from a by b with ESMTP; Thu, 01 Jan 1970 00:00:00 +0000".toList)]⟩, subjectMail,
      ascii "Received: from a by b with ESMTP; Thu, 01 Jan 1970 00:00:00 +0000\r\n\r\n"⟩, ?_⟩
  decide +kernel

end Snail.Server
