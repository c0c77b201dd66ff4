import Snail.Server.Dsn
import Snail.Server.SpoolRecord
import Snail.Server.Stamping

/-!
# DsnParts — the parts of a failure notice

A notice embeds replies, addresses and the header section of the failed message between lines that
hold its boundary.  No line in between can be one of these: the lines of the notice itself open
with words of its own, and what a header section lets through has a colon or is folded.
-/

open Snail.Reasoning Snail.Mail Snail.Network

namespace Snail.Server

/-! ## 1. Lines of a header section -/

-- a line that is read neither as a field, nor as the rest of one, nor skipped
structure IsBareLine (d : Str) : Prop where
  ne_nil : d ≠ []
  not_return : '\r' ∉ d
  not_folded : isContinuation d = false
  not_field : ':' ∉ d

theorem parseHeaderLines_lines {ls : List Str} {entries es : List (Str × Str)}
    {current : Option (Str × Str)} (h : parseHeaderLines ls entries current = .ok es) :
    ∀ l ∈ ls, ¬ IsBareLine (stripReturn l) := by
  induction ls generalizing entries current with
  | nil => exact nofun
  | cons rawLine rest ih =>
    rw [parseHeaderLines_cons] at h
    have hhead : ¬ IsBareLine (stripReturn rawLine) ∧
        ∃ entries' current', parseHeaderLines rest entries' current' = .ok es := by
      split at h
      · rename_i hnil
        exact ⟨fun hbare => hbare.ne_nil hnil, _, _, h⟩
      split at h
      · rename_i hfold
        refine ⟨fun hbare => ?_, ?_⟩
        · rw [hbare.not_folded] at hfold
          cases hfold
        · cases current with
          | none => cases h
          | some nv => exact ⟨_, _, h⟩
      · cases hcut : splitOnce ':' (stripReturn rawLine) with
        | none =>
          rw [hcut] at h
          cases h
        | some nv =>
          rw [hcut] at h
          refine ⟨fun hbare => hbare.not_field ?_, _, _, h⟩
          rw [(splitOnce_eq_some_iff.mp hcut).1]
          simp
    obtain ⟨hbare, entries', current', hrest⟩ := hhead
    intro l hl
    rcases List.mem_cons.mp hl with rfl | hl
    · exact hbare
    · exact ih hrest l hl

theorem stripReturn_of_not_mem {d : Str} (h : '\r' ∉ d) : stripReturn d = d := by
  unfold stripReturn
  cases hs : ['\r'].isSuffixOf? d with
  | none => rfl
  | some t =>
    rw [List.isSuffixOf?_eq_some_iff_append_eq] at hs
    rw [← hs] at h
    simp at h

-- the lines between CRLFs are those between line feeds, less a return
theorem splitOn_lf_concat {u : Bytes} (h : ∀ c ∈ splitOnPair cr lf u, lf ∉ c) :
    (u ++ [cr]).splitOn lf = (splitOnPair cr lf u).map (· ++ [cr]) := by
  have hlines : ∀ c ∈ (splitOnPair cr lf u).map (· ++ [cr]), lf ∉ c := by
    intro c hc
    obtain ⟨c', hc', rfl⟩ := List.mem_map.mp hc
    simpa [lf, cr] using h c' hc'
  have htext : ((splitOnPair cr lf u).map (· ++ [cr])).flatMap (· ++ [lf]) = u ++ [cr] ++ [lf] := by
    have hpair := flatMap_splitOnPair cr lf u
    rw [List.flatMap_map, List.append_assoc]
    simpa using hpair
  have hsplit := splitOn_flatMap hlines
  rw [htext, List.splitOn_append_cons_self, List.splitOn_nil] at hsplit
  exact List.append_cancel_right hsplit

/-- No line of a header section that can be read is a bare one. -/
theorem not_bareLine_of_parseHeaders {u : Bytes} {headers : Headers}
    (hlf : ∀ c ∈ splitOnPair cr lf u, lf ∉ c) (h : parseHeaders (decodeLossy u) = .ok headers)
    {c : Bytes} (hc : c ∈ splitOnPair cr lf u) {d : Str} (hd : IsBareLine d) :
    c ≠ encodeUtf8 d := by
  rintro rfl
  obtain ⟨es, hes, -⟩ := map_eq_ok_iff.mp h
  have hlines := parseHeaderLines_lines hes
  have hsplit := splitOn_decodeLossy_ascii (show lf < 0x80 by decide) u
  have hnl : Char.ofNat lf.toNat = '\n' := by decide
  rw [hnl] at hsplit
  rw [hsplit] at hlines
  have hmem : encodeUtf8 d ++ [cr] ∈ (u ++ [cr]).splitOn lf := by
    rw [splitOn_lf_concat hlf]
    exact List.mem_map.mpr ⟨_, hc, rfl⟩
  rcases mem_splitOn_concat (by decide) hmem with hmem | ⟨t, ht, hsame⟩
  · refine hlines _ (List.mem_map_of_mem hmem) ?_
    rw [decodeLossy_append_ascii (by decide), decodeLossy_encodeUtf8]
    change IsBareLine (stripReturn (d ++ ['\r']))
    rw [stripReturn_concat]
    exact hd
  · rw [← List.append_cancel_right hsame] at ht
    refine hlines _ (List.mem_map_of_mem ht) ?_
    rw [decodeLossy_encodeUtf8, stripReturn_of_not_mem hd.not_return]
    exact hd

/-- A header section as CRLF lines, none of them a bare one. -/
structure HeaderSection (rawHead : Bytes) (contents : List Bytes) : Prop where
  text : rawHead = contents.flatMap (· ++ crlf)
  unbroken : ∀ c ∈ contents, lf ∉ c
  lines : ∀ c ∈ contents, ∀ d, IsBareLine d → c ≠ encodeUtf8 d

theorem HeaderSection.prepend {rawHead line : Bytes} {contents : List Bytes}
    (h : HeaderSection rawHead contents) (hline : ServerLine line) :
    HeaderSection (line ++ crlf ++ rawHead) (line :: contents) := by
  obtain ⟨name, htrace⟩ := hline.traceLine
  obtain ⟨hname, value, hvalue, rfl⟩ := htrace.field
  refine ⟨?_, ?_, ?_⟩
  · rw [h.text]
    rfl
  · intro c hc
    rcases List.mem_cons.mp hc with rfl | hc
    · exact hline.lf_not_mem
    · exact h.unbroken c hc
  · intro c hc d hd
    rcases List.mem_cons.mp hc with rfl | hc
    · intro hsame
      refine hd.not_field ?_
      rw [← encodeUtf8_injective hsame]
      simp [fieldLine]
    · exact h.lines c hc d hd

theorem Stamped.headerSection {m m' : Message} {contents : List Bytes} (h : Stamped m m')
    (hm : HeaderSection m.rawHead contents) : ∃ contents', HeaderSection m'.rawHead contents' := by
  induction h with
  | refl => exact ⟨contents, hm⟩
  | prepend _ hline ih =>
    obtain ⟨contents', h'⟩ := ih
    exact ⟨_, h'.prepend hline⟩

theorem lf_not_mem_of_mem_splitOnPair {raw : Bytes} (h : CrlfLines raw) {c : Bytes}
    (hc : c ∈ splitOnPair cr lf raw) : lf ∉ c := by
  obtain ⟨contents, hcontents, rfl⟩ := h
  have hsplit := splitOnPair_flatMap (show cr ≠ lf by decide) contents []
    fun c hc => not_crlf_of_lf (hcontents c hc)
  rw [List.append_nil] at hsplit
  change c ∈ splitOnPair cr lf (contents.flatMap (· ++ [cr, lf])) at hc
  rw [hsplit, List.mem_append] at hc
  rcases hc with hc | hc
  · exact hcontents c hc
  · rw [List.mem_singleton.mp hc]
    exact List.not_mem_nil

-- everything up to a blank line
theorem headerSection_of_blank {u v : Bytes} {headers : Headers}
    (hraw : CrlfLines (u ++ (crlf ++ crlf ++ v)))
    (hheaders : parseHeaders (decodeLossy u) = .ok headers) :
    HeaderSection (u ++ (crlf ++ crlf)) (splitOnPair cr lf u ++ [[]]) := by
  have hlf : ∀ c ∈ splitOnPair cr lf u, lf ∉ c := by
    intro c hc
    refine lf_not_mem_of_mem_splitOnPair hraw ?_
    change c ∈ splitOnPair cr lf (u ++ cr :: lf :: (crlf ++ v))
    rw [splitOnPair_append (by decide)]
    exact List.mem_append_left _ hc
  refine ⟨?_, ?_, ?_⟩
  · have hpair := flatMap_splitOnPair cr lf u
    rw [List.flatMap_append]
    change _ = (splitOnPair cr lf u).flatMap (· ++ [cr, lf]) ++ crlf
    rw [hpair, List.append_assoc]
    rfl
  · intro c hc
    rcases List.mem_append.mp hc with hc | hc
    · exact hlf c hc
    · rw [List.mem_singleton.mp hc]
      exact List.not_mem_nil
  · intro c hc d hd
    rcases List.mem_append.mp hc with hc | hc
    · exact not_bareLine_of_parseHeaders hlf hheaders hc hd
    · rw [List.mem_singleton.mp hc]
      exact fun hnil => hd.ne_nil (encodeUtf8_injective hnil.symm)

-- a message that is all header
theorem headerSection_of_lines {contents : List Bytes} {headers : Headers}
    (hcontents : ∀ c ∈ contents, lf ∉ c)
    (hheaders : parseHeaders (decodeLossy (contents.flatMap (· ++ crlf))) = .ok headers) :
    HeaderSection (contents.flatMap (· ++ crlf)) contents := by
  have hlf : ∀ c ∈ splitOnPair cr lf (contents.flatMap (· ++ crlf)), lf ∉ c :=
    fun c hc => lf_not_mem_of_mem_splitOnPair ⟨contents, hcontents, rfl⟩ hc
  refine ⟨rfl, hcontents, ?_⟩
  intro c hc d hd
  refine not_bareLine_of_parseHeaders hlf hheaders ?_ hd
  have hsplit := splitOnPair_flatMap (show cr ≠ lf by decide) contents []
    fun c hc => not_crlf_of_lf (hcontents c hc)
  rw [List.append_nil] at hsplit
  change c ∈ splitOnPair cr lf (contents.flatMap (· ++ [cr, lf]))
  rw [hsplit]
  exact List.mem_append_left _ hc

/-- The header section of a message of CRLF lines, with the blank line if there is one. -/
theorem headerSection_parse {envelope : Envelope} {raw : Bytes} {m : Message}
    (hraw : CrlfLines raw) (h : Message.parse envelope raw = .ok m) :
    ∃ contents, HeaderSection m.rawHead contents := by
  change (parseHeaders (decodeLossy (splitHeaderBody raw).1)).map _ = _ at h
  obtain ⟨headers, hheaders, rfl⟩ := map_eq_ok_iff.mp h
  dsimp only
  unfold splitHeaderBody at hheaders
  cases hfind : findSub (crlf ++ crlf) raw with
  | some pos =>
    rw [hfind] at hheaders
    dsimp only at hheaders ⊢
    obtain ⟨⟨u, v, rfl, rfl⟩, -⟩ := findSub_spec hfind
    rw [List.take_left] at hheaders
    have htake : (u ++ (crlf ++ crlf ++ v)).take (u.length + 4) = u ++ (crlf ++ crlf) := by
      rw [← List.append_assoc]
      exact List.take_left' (by simp [crlf])
    rw [htake]
    exact ⟨_, headerSection_of_blank hraw hheaders⟩
  | none =>
    rw [hfind] at hheaders
    dsimp only at hheaders ⊢
    rw [findSub_lf_lf hraw.noBareLf] at hheaders ⊢
    dsimp only at hheaders ⊢
    obtain ⟨contents, hcontents, rfl⟩ := hraw
    rw [List.take_length]
    exact ⟨contents, headerSection_of_lines hcontents hheaders⟩

/-! ## 2. Cutting at the boundary -/

def dsnBoundary (at' : SystemTime) : Str := "=_snail_dsn_".toList ++ showNat (boundaryNonce at')

def delimiterLine (boundary : Str) : Str := "--".toList ++ boundary
def closingLine (boundary : Str) : Str := "--".toList ++ boundary ++ "--".toList

def isDelimiter (boundary : Str) (line : Bytes) : Bool :=
  stripTerminator line == encodeUtf8 (delimiterLine boundary) ||
    stripTerminator line == encodeUtf8 (closingLine boundary)

-- the delimiters of a body as they come
def delimiters (boundary : Str) (body : Bytes) : List Bytes :=
  ((splitInclusive lf body).filter (isDelimiter boundary)).map stripTerminator

-- what stands in front of, between and behind them
def mimeParts (boundary : Str) (body : Bytes) : List Bytes :=
  ((splitInclusive lf body).splitOnP (isDelimiter boundary)).map List.flatten

section
variable {boundary : Str}

theorem isDelimiter_crlf (boundary : Str) (content : Bytes) :
    isDelimiter boundary (content ++ crlf) = true ↔
      content = encodeUtf8 (delimiterLine boundary) ∨
        content = encodeUtf8 (closingLine boundary) := by
  rw [isDelimiter, stripTerminator_crlf, Bool.or_eq_true, beq_iff_eq, beq_iff_eq]

-- a line of words that do not begin with a hyphen
theorem isDelimiter_encodeUtf8 {line : Str} (h : line.head? ≠ some '-') :
    isDelimiter boundary (encodeUtf8 line ++ crlf) = false := by
  rw [Bool.eq_false_iff, Ne, isDelimiter_crlf, not_or]
  refine ⟨fun hsame => h ?_, fun hsame => h ?_⟩
  · rw [encodeUtf8_injective hsame]
    rfl
  · rw [encodeUtf8_injective hsame]
    rfl

theorem HeaderSection.not_delimiter {rawHead : Bytes} {contents : List Bytes}
    (h : HeaderSection rawHead contents) (hopen : IsBareLine (delimiterLine boundary))
    (hclose : IsBareLine (closingLine boundary)) {c : Bytes} (hc : c ∈ contents) :
    isDelimiter boundary (c ++ crlf) = false := by
  rw [Bool.eq_false_iff, Ne, isDelimiter_crlf, not_or]
  exact ⟨h.lines c hc _ hopen, h.lines c hc _ hclose⟩

theorem splitOnP_three {α : Type} {p : α → Bool} {d c : α} {x y z : List α} (hd : p d = true)
    (hc : p c = true) (hfree : ∀ a ∈ x ++ y ++ z, p a = false) :
    (d :: x ++ d :: y ++ d :: z ++ [c]).splitOnP p = [[], x, y, z, []] ∧
      (d :: x ++ d :: y ++ d :: z ++ [c]).filter p = [d, d, d, c] := by
  have hx : ∀ a ∈ x, p a = false := fun a ha => hfree a (by simp [ha])
  have hy : ∀ a ∈ y, p a = false := fun a ha => hfree a (by simp [ha])
  have hz : ∀ a ∈ z, p a = false := fun a ha => hfree a (by simp [ha])
  have hnone {l : List α} (h : ∀ a ∈ l, p a = false) : l.filter p = [] :=
    List.filter_eq_nil_iff.mpr fun a ha => by simp [h a ha]
  have hassoc : d :: x ++ d :: y ++ d :: z ++ [c] =
      [] ++ d :: (x ++ d :: (y ++ d :: (z ++ c :: []))) := by simp
  rw [hassoc]
  refine ⟨?_, ?_⟩
  · rw [List.splitOnP_append_cons _ _ hd, List.splitOnP_append_cons _ _ hd,
      List.splitOnP_append_cons _ _ hd, List.splitOnP_append_cons _ _ hc,
      List.splitOnP_eq_singleton hx, List.splitOnP_eq_singleton hy,
      List.splitOnP_eq_singleton hz]
    rfl
  · simp [hnone hx, hnone hy, hnone hz, hd, hc]

/-- Three runs of lines without a delimiter, each behind one, and the closing one. -/
theorem three_parts {x y z : List Bytes} (hboundary : '\n' ∉ boundary)
    (hlf : ∀ c ∈ x ++ y ++ z, lf ∉ c)
    (hfree : ∀ c ∈ x ++ y ++ z, isDelimiter boundary (c ++ crlf) = false) {text : Bytes}
    (htext : text = (encodeUtf8 (delimiterLine boundary) :: x ++
      encodeUtf8 (delimiterLine boundary) :: y ++ encodeUtf8 (delimiterLine boundary) :: z ++
      [encodeUtf8 (closingLine boundary)]).flatMap (· ++ crlf)) :
    delimiters boundary text =
        [encodeUtf8 (delimiterLine boundary), encodeUtf8 (delimiterLine boundary),
          encodeUtf8 (delimiterLine boundary), encodeUtf8 (closingLine boundary)] ∧
      mimeParts boundary text =
        [[], x.flatMap (· ++ crlf), y.flatMap (· ++ crlf), z.flatMap (· ++ crlf), []] := by
  have hopen : lf ∉ encodeUtf8 (delimiterLine boundary) :=
    lf_not_mem_encodeUtf8 (by simp [delimiterLine, hboundary])
  have hclose : lf ∉ encodeUtf8 (closingLine boundary) :=
    lf_not_mem_encodeUtf8 (by simp [closingLine, hboundary])
  have hcut := @splitInclusive_crlfLines (encodeUtf8 (delimiterLine boundary) :: x ++
      encodeUtf8 (delimiterLine boundary) :: y ++ encodeUtf8 (delimiterLine boundary) :: z ++
      [encodeUtf8 (closingLine boundary)]) ?_ []
  · rw [List.append_nil, ← htext, show splitInclusive lf ([] : Bytes) = [] from rfl,
      List.append_nil] at hcut
    simp only [List.map_append, List.map_cons, List.map_nil] at hcut
    have hthree := @splitOnP_three _ (isDelimiter boundary)
      (encodeUtf8 (delimiterLine boundary) ++ crlf) (encodeUtf8 (closingLine boundary) ++ crlf)
      (x.map (· ++ crlf)) (y.map (· ++ crlf)) (z.map (· ++ crlf))
      ((isDelimiter_crlf _ _).mpr (.inl rfl)) ((isDelimiter_crlf _ _).mpr (.inr rfl)) ?_
    · unfold delimiters mimeParts
      rw [hcut, hthree.1, hthree.2]
      simp [List.flatMap_def]
    · intro line hline
      rw [← List.map_append, ← List.map_append] at hline
      obtain ⟨c, hc, rfl⟩ := List.mem_map.mp hline
      exact hfree c hc
  · intro c hc
    rcases List.mem_append.mp hc with hc | hc
    · rcases List.mem_append.mp hc with hc | hc
      · rcases List.mem_append.mp hc with hc | hc
        · rcases List.mem_cons.mp hc with rfl | hc
          · exact hopen
          · exact hlf c (List.mem_append_left _ (List.mem_append_left _ hc))
        · rcases List.mem_cons.mp hc with rfl | hc
          · exact hopen
          · exact hlf c (List.mem_append_left _ (List.mem_append_right _ hc))
      · rcases List.mem_cons.mp hc with rfl | hc
        · exact hopen
        · exact hlf c (List.mem_append_right _ hc)
    · rw [List.mem_singleton.mp hc]
      exact hclose

end

/-! ## 3. The notice -/

-- the lines of the first part
def explanationLines (host : Str) (failedRecipients : List Mailbox) (reason : Str) : List Str :=
  ["Content-Type: text/plain; charset=us-ascii".toList,
    [],
    "This is the mail system at host ".toList ++ host ++ ['.'],
    [],
    "Your message could not be delivered to one or more recipients.".toList,
    "The error reported was:".toList,
    [],
    "    ".toList ++ reason,
    []] ++
  (failedRecipients.map fun rcpt =>
    "    <".toList ++ rcpt.toString ++ ">: delivery failed".toList) ++ [[]]

-- the lines of the second part
def statusLines (host : Str) (failedRecipients : List Mailbox) (reason date : Str) : List Str :=
  ["Content-Type: message/delivery-status".toList,
    [],
    "Reporting-MTA: dns; ".toList ++ host,
    "Arrival-Date: ".toList ++ date] ++
  (failedRecipients.flatMap fun rcpt =>
    [[],
      "Final-Recipient: rfc822; ".toList ++ rcpt.toString,
      "Action: failed".toList,
      "Status: 5.0.0".toList,
      "Diagnostic-Code: smtp; ".toList ++ reason]) ++ [[]]

-- what stands above the embedded header section
def headersLines : List Str := ["Content-Type: text/rfc822-headers".toList, []]

theorem dsnLines_eq (host : Str) (failedRecipients : List Mailbox) (reason date boundary : Str) :
    dsnLines host failedRecipients reason date boundary =
      delimiterLine boundary :: explanationLines host failedRecipients reason ++
        delimiterLine boundary :: statusLines host failedRecipients reason date ++
        delimiterLine boundary :: headersLines := by
  unfold dsnLines explanationLines statusLines headersLines delimiterLine
  simp only [List.cons_append, List.append_assoc, List.nil_append]

-- one line that is no delimiter
def PlainLine (line : Str) : Prop := '\n' ∉ line ∧ line.head? ≠ some '-'

instance (line : Str) : Decidable (PlainLine line) := inferInstanceAs (Decidable (_ ∧ _))

theorem PlainLine.append {line rest : Str} (h : PlainLine line) (hne : line ≠ [])
    (hrest : '\n' ∉ rest) : PlainLine (line ++ rest) := by
  refine ⟨?_, ?_⟩
  · rw [List.mem_append, not_or]
    exact ⟨h.1, hrest⟩
  · rw [List.head?_append_of_ne_nil _ hne]
    exact h.2

theorem PlainLine.encoded {lines : List Str} (h : ∀ line ∈ lines, PlainLine line) (boundary : Str) :
    ∀ c ∈ lines.map encodeUtf8, lf ∉ c ∧ isDelimiter boundary (c ++ crlf) = false := by
  intro c hc
  obtain ⟨line, hline, rfl⟩ := List.mem_map.mp hc
  exact ⟨lf_not_mem_encodeUtf8 (h line hline).1, isDelimiter_encodeUtf8 (h line hline).2⟩

section
variable {host reason date : Str} {failedRecipients : List Mailbox}

theorem plainLine_explanationLines (hhost : '\n' ∉ host) (hreason : '\n' ∉ reason)
    (hrcpts : ∀ m ∈ failedRecipients, '\n' ∉ m.toString) :
    ∀ line ∈ explanationLines host failedRecipients reason, PlainLine line := by
  have hsaid : PlainLine ("This is the mail system at host ".toList ++ host ++ ['.']) := by
    rw [List.append_assoc]
    exact PlainLine.append (by decide) (by decide) (by simp [hhost])
  have herror : PlainLine ("    ".toList ++ reason) :=
    PlainLine.append (by decide) (by decide) hreason
  unfold explanationLines
  rw [List.forall_mem_append, List.forall_mem_append]
  refine ⟨⟨?_, ?_⟩, ?_⟩
  · iterate 9 rw [List.forall_mem_cons]
    exact ⟨by decide, by decide, hsaid, by decide, by decide, by decide, by decide, herror,
      by decide, List.forall_mem_nil _⟩
  · intro line hline
    obtain ⟨m, hm, rfl⟩ := List.mem_map.mp hline
    rw [List.append_assoc]
    exact PlainLine.append (by decide) (by decide) (by simp [hrcpts m hm])
  · rw [List.forall_mem_singleton]
    decide

theorem plainLine_statusLines (hhost : '\n' ∉ host) (hreason : '\n' ∉ reason)
    (hdate : '\n' ∉ date) (hrcpts : ∀ m ∈ failedRecipients, '\n' ∉ m.toString) :
    ∀ line ∈ statusLines host failedRecipients reason date, PlainLine line := by
  have hmta : PlainLine ("Reporting-MTA: dns; ".toList ++ host) :=
    PlainLine.append (by decide) (by decide) hhost
  have hdate : PlainLine ("Arrival-Date: ".toList ++ date) :=
    PlainLine.append (by decide) (by decide) hdate
  have hcode : PlainLine ("Diagnostic-Code: smtp; ".toList ++ reason) :=
    PlainLine.append (by decide) (by decide) hreason
  unfold statusLines
  rw [List.forall_mem_append, List.forall_mem_append]
  refine ⟨⟨?_, ?_⟩, ?_⟩
  · iterate 4 rw [List.forall_mem_cons]
    exact ⟨by decide, by decide, hmta, hdate, List.forall_mem_nil _⟩
  · rw [List.forall_mem_flatMap]
    intro m hm
    have hrcpt : PlainLine ("Final-Recipient: rfc822; ".toList ++ m.toString) :=
      PlainLine.append (by decide) (by decide) (hrcpts m hm)
    iterate 5 rw [List.forall_mem_cons]
    exact ⟨by decide, hrcpt, by decide, by decide, hcode, List.forall_mem_nil _⟩
  · rw [List.forall_mem_singleton]
    decide

theorem flatMap_pushLine_eq (lines : List Str) :
    lines.flatMap pushLine = (lines.map encodeUtf8).flatMap (· ++ crlf) := by
  rw [List.flatMap_map]
  rfl

theorem HeaderSection.isSuffixOf_crlf {rawHead : Bytes} {contents : List Bytes}
    (h : HeaderSection rawHead contents) (hne : contents ≠ []) :
    crlf.isSuffixOf rawHead = true := by
  rw [List.isSuffixOf_iff_suffix, h.text]
  obtain ⟨init, last, rfl⟩ := List.eq_nil_or_concat contents |>.resolve_left hne
  rw [List.concat_eq_append, List.flatMap_append, List.flatMap_singleton, ← List.append_assoc]
  exact List.suffix_append _ _

theorem dsnBody_eq {rawHead : Bytes} {contents : List Bytes} (h : HeaderSection rawHead contents)
    (hne : contents ≠ []) (boundary : Str) :
    dsnBody host failedRecipients reason rawHead date boundary =
      (encodeUtf8 (delimiterLine boundary) ::
          (explanationLines host failedRecipients reason).map encodeUtf8 ++
        encodeUtf8 (delimiterLine boundary) ::
          (statusLines host failedRecipients reason date).map encodeUtf8 ++
        encodeUtf8 (delimiterLine boundary) :: (headersLines.map encodeUtf8 ++ contents) ++
        [encodeUtf8 (closingLine boundary)]).flatMap (· ++ crlf) := by
  unfold dsnBody
  rw [if_pos (h.isSuffixOf_crlf hne), dsnLines_eq, flatMap_pushLine_eq, h.text]
  simp [closingLine, pushLine]

theorem newline_not_mem_sanitizeLine (s : Str) : '\n' ∉ sanitizeLine s := by
  unfold sanitizeLine
  intro h
  obtain ⟨c, -, hc⟩ := List.mem_map.mp h
  split at hc
  · cases hc
  · rename_i hno
    exact hno (.inr hc)

theorem isBareLine_hyphen {s : Str} (hreturn : '\r' ∉ s) (hcolon : ':' ∉ s) :
    IsBareLine ('-' :: s) :=
  ⟨by simp, by simp [hreturn], rfl, by simp [hcolon]⟩

theorem dsnBoundary_clean (at' : SystemTime) {c : Char} (h : c.isDigit = false)
    (hword : c ∉ "=_snail_dsn_".toList) : c ∉ dsnBoundary at' := by
  unfold dsnBoundary
  rw [List.mem_append, not_or]
  refine ⟨hword, fun hmem => ?_⟩
  rw [isDigit_of_mem_showNat hmem] at h
  cases h

theorem isBareLine_delimiterLine (at' : SystemTime) :
    IsBareLine (delimiterLine (dsnBoundary at')) ∧ IsBareLine (closingLine (dsnBoundary at')) := by
  have hreturn := @dsnBoundary_clean at' '\r' (by decide) (by decide)
  have hcolon := @dsnBoundary_clean at' ':' (by decide) (by decide)
  have hopen : delimiterLine (dsnBoundary at') = '-' :: '-' :: dsnBoundary at' := rfl
  have hclose : closingLine (dsnBoundary at') = '-' :: '-' :: (dsnBoundary at' ++ ['-', '-']) := rfl
  rw [hopen, hclose]
  refine ⟨isBareLine_hyphen ?_ ?_, isBareLine_hyphen ?_ ?_⟩
  all_goals simp [hreturn, hcolon]

/-! ### Its header -/

theorem head_dateText (dow : Nat) (date : Int × Nat × Nat) (tod : Nat) :
    ∀ c ∈ (dateText dow date tod).head?, isWhitespace c = false := by
  have hday : (weekdays.getD dow [] ++ ", ".toList).head?.all (!isWhitespace ·) = true := by
    rw [List.getD_eq_getElem?_getD]
    cases hget : weekdays[dow]? with
    | none => rfl
    | some day =>
      have hall : ∀ s ∈ weekdays, (s ++ ", ".toList).head?.all (!isWhitespace ·) = true := by
        decide
      exact hall day (List.mem_of_getElem? hget)
  have hne : weekdays.getD dow [] ++ ", ".toList ≠ [] := by simp
  intro c hc
  unfold dateText at hc
  simp only [List.append_assoc, List.cons_append] at hc
  rw [← List.append_assoc, List.head?_append_of_ne_nil _ hne] at hc
  rw [Option.mem_def.mp hc] at hday
  simpa using hday

theorem trim_dateText (dow : Nat) (date : Int × Nat × Nat) (tod : Nat) :
    trim (dateText dow date tod) = dateText dow date tod := by
  refine trim_eq_self (head_dateText dow date tod) ?_
  intro c hc
  unfold dateText at hc
  rw [List.getLast?_append_of_ne_nil _ (by simp)] at hc
  cases hc
  rfl

theorem dsnFields_clean (hhost : '\n' ∉ host) {sender : Mailbox} (hsender : '\n' ∉ sender.toString)
    (at' : SystemTime) :
    ∀ f ∈ dsnFields host sender (rfc5322Date at') (dsnBoundary at'),
      (IsFieldName f.1 ∧ '\n' ∉ f.2) ∧ trim f.2 = f.2 := by
  have hdate : '\n' ∉ rfc5322Date at' := (oneLine_dateText _ _ _).2
  have hboundary := @dsnBoundary_clean at' '\n' (by decide) (by decide)
  unfold dsnFields
  simp only [List.forall_mem_cons, List.not_mem_nil, false_imp_iff, implies_true, and_true]
  refine ⟨⟨⟨by decide, ?_⟩, ?_⟩, ⟨⟨by decide, ?_⟩, ?_⟩, ⟨⟨by decide, by decide⟩, by decide⟩,
    ⟨⟨by decide, hdate⟩, trim_dateText _ _ _⟩, ⟨⟨by decide, by decide⟩, by decide⟩,
    ⟨⟨by decide, by decide⟩, by decide⟩, ⟨by decide, ?_⟩, ?_⟩
  · simp [hhost]
  · exact trim_cons_concat _ (by decide) (by decide)
  · simp [hsender]
  · exact trim_cons_concat _ (by decide) (by decide)
  · simp [hboundary]
  · exact trim_cons_concat _ (by decide) (by decide)

end

/-! ### The whole -/

/-- What is bounced: a collected message with at least one trace line on top, as it is or as the
spool gives it back. -/
inductive Bounced : Message → Prop
  | stamped {raw : Bytes} {envelope : Envelope} {m m' : Message} {line : Bytes}
      (hraw : Assembled raw) (hparse : Message.parse envelope raw = .ok m)
      (hstamped : Stamped m m') (hline : ServerLine line) : Bounced (m'.prependHeader line)
  | reread {m m' : Message} {envelope : Envelope} (h : Bounced m)
      (hread : Message.parse envelope m.toBytes = .ok m') : Bounced m'

theorem rawHead_ne_nil {envelope : Envelope} {raw : Bytes} {m : Message} (hne : raw ≠ [])
    (h : Message.parse envelope raw = .ok m) : m.rawHead ≠ [] := by
  change (parseHeaders (decodeLossy (splitHeaderBody raw).1)).map _ = _ at h
  obtain ⟨headers, -, rfl⟩ := map_eq_ok_iff.mp h
  have hlen : 0 < raw.length := List.length_pos_iff.mpr hne
  have hpos : 0 < (splitHeaderBody raw).2 := by
    unfold splitHeaderBody
    split
    · exact Nat.succ_pos _
    · split
      · exact Nat.succ_pos _
      · exact hlen
  change raw.take (splitHeaderBody raw).2 ≠ []
  rw [Ne, List.take_eq_nil_iff, not_or]
  exact ⟨hpos.ne', hne⟩

theorem Bounced.headerSection {original : Message} (h : Bounced original) :
    CrlfLines original.toBytes ∧ original.rawHead ≠ [] ∧
      ∃ contents, HeaderSection original.rawHead contents := by
  induction h with
  | stamped hraw hparse hstamped hline =>
    obtain ⟨contents, hm⟩ := headerSection_parse hraw.crlfLines hparse
    obtain ⟨contents', hm'⟩ := hstamped.headerSection hm
    refine ⟨?_, ?_, _, hm'.prepend hline⟩
    · refine (hstamped.prepend hline).crlfLines ?_
      rw [(Message.toBytes_parse hparse).1]
      exact hraw.crlfLines
    · simp [Message.prependHeader, crlf]
  | reread _ hread ih =>
    obtain ⟨hlines, hne, -⟩ := ih
    refine ⟨?_, rawHead_ne_nil ?_ hread, headerSection_parse hlines hread⟩
    · rw [(Message.toBytes_parse hread).1]
      exact hlines
    · simp [Message.toBytes, hne]

theorem buildFailureDsn_of_parse {host reason : Str} {sender : Mailbox}
    {failedRecipients : List Mailbox} {originalHeaders : Bytes} {at' : SystemTime} {m : Message}
    (h : Message.parse ⟨none, [sender]⟩
      (composed (dsnFields (sanitizeLine host) sender (rfc5322Date at') (dsnBoundary at'))
        (dsnBody (sanitizeLine host) failedRecipients (sanitizeLine reason) originalHeaders
          (rfc5322Date at') (dsnBoundary at'))) = .ok m) :
    buildFailureDsn host sender failedRecipients reason originalHeaders at' = m := by
  unfold dsnBoundary at h
  unfold buildFailureDsn
  dsimp only
  rw [h]

/-- The notice of a failed delivery has no sender, goes to the sender of the failed message alone,
has the seven fields written into it, and its body falls into three parts, of which the last is the
header section of that message. -/
theorem failure_dsn_structure {original : Message} (horiginal : Bounced original)
    {id text : Str} {entry : SpoolEntry} (hctrl : parseCtrl id text = .ok entry)
    {sender : Mailbox} (hsender : entry.sender = some sender) (host reason : Str)
    (at' : SystemTime) {dsn : Message}
    (hdsn : dsn = buildFailureDsn host sender entry.recipients reason original.rawHead at') :
    dsn.envelope = ⟨none, [sender]⟩ ∧
      dsn.headers.entries =
        dsnFields (sanitizeLine host) sender (rfc5322Date at') (dsnBoundary at') ∧
      delimiters (dsnBoundary at') dsn.body =
        [encodeUtf8 (delimiterLine (dsnBoundary at')), encodeUtf8 (delimiterLine (dsnBoundary at')),
          encodeUtf8 (delimiterLine (dsnBoundary at')),
          encodeUtf8 (closingLine (dsnBoundary at'))] ∧
      mimeParts (dsnBoundary at') dsn.body =
        [[],
          (explanationLines (sanitizeLine host) entry.recipients (sanitizeLine reason)).flatMap
            pushLine,
          (statusLines (sanitizeLine host) entry.recipients (sanitizeLine reason)
            (rfc5322Date at')).flatMap pushLine,
          headersLines.flatMap pushLine ++ original.rawHead,
          []] := by
  obtain ⟨-, hhead, contents, hsection⟩ := horiginal.headerSection
  obtain ⟨hfrom, hrcpts⟩ := unbroken_parseCtrl hctrl
  have hne : contents ≠ [] := by
    rintro rfl
    exact hhead hsection.text
  have hhost := newline_not_mem_sanitizeLine host
  have hreason := newline_not_mem_sanitizeLine reason
  have hfields := dsnFields_clean hhost (hfrom sender hsender) at'
  -- the notice can be read, so the fallback is not used
  obtain ⟨m, hm, hentries, hbody⟩ := parse_composed (by simp [dsnFields])
    (fun f hf => (hfields f hf).1) ⟨none, [sender]⟩
    (dsnBody (sanitizeLine host) entry.recipients (sanitizeLine reason) original.rawHead
      (rfc5322Date at') (dsnBoundary at'))
  rw [buildFailureDsn_of_parse hm] at hdsn
  subst hdsn
  refine ⟨(Message.toBytes_parse hm).2, ?_, ?_⟩
  · rw [hentries, List.map_congr_left (g := fun f => f) fun f hf => by rw [(hfields f hf).2],
      List.map_id']
  · have hbare := isBareLine_delimiterLine at'
    have hlines : ∀ c ∈ (explanationLines (sanitizeLine host) entry.recipients
          (sanitizeLine reason)).map encodeUtf8 ++
        (statusLines (sanitizeLine host) entry.recipients (sanitizeLine reason)
          (rfc5322Date at')).map encodeUtf8 ++ (headersLines.map encodeUtf8 ++ contents),
        lf ∉ c ∧ isDelimiter (dsnBoundary at') (c ++ crlf) = false := by
      intro c hc
      rcases List.mem_append.mp hc with hc | hc
      · rcases List.mem_append.mp hc with hc | hc
        · exact PlainLine.encoded (plainLine_explanationLines hhost hreason hrcpts) _ c hc
        · exact PlainLine.encoded
            (plainLine_statusLines hhost hreason (oneLine_dateText _ _ _).2 hrcpts) _ c hc
      · rcases List.mem_append.mp hc with hc | hc
        · exact PlainLine.encoded (by decide) _ c hc
        · exact ⟨hsection.unbroken c hc, hsection.not_delimiter hbare.1 hbare.2 hc⟩
    rw [hbody]
    have hparts := three_parts (dsnBoundary_clean at' (by decide) (by decide))
      (fun c hc => (hlines c hc).1) (fun c hc => (hlines c hc).2) (dsnBody_eq hsection hne _)
    rw [List.flatMap_append, ← hsection.text, ← flatMap_pushLine_eq, ← flatMap_pushLine_eq,
      ← flatMap_pushLine_eq] at hparts
    exact hparts

def bouncedMail : Message :=
  (⟨⟨none, []⟩, ⟨[("Subject".toList, "s".toList)]⟩, ascii "hi\r\n",
    ascii "Subject: s\r\n\r\n"⟩ : Message).prependHeader
    (receivedHeader "h".toList "mx.org".toList (protocol false false) .unixEpoch)

def failedEntry : SpoolEntry :=
  ⟨"1".toList, some ⟨"a".toList, "b".toList⟩, [⟨"c".toList, "d".toList⟩], 0, .unixEpoch, .unixEpoch⟩

-- a reply that imitates the closing line
def hostileReply : Str := "550 no\r\n--=_snail_dsn_0--".toList

theorem failure_dsn_structure_hostile :
    delimiters (dsnBoundary .unixEpoch) (buildFailureDsn "mx.org".toList ⟨"a".toList, "b".toList⟩
        failedEntry.recipients hostileReply bouncedMail.rawHead .unixEpoch).body =
      [ascii "--=_snail_dsn_0", ascii "--=_snail_dsn_0", ascii "--=_snail_dsn_0",
        ascii "--=_snail_dsn_0--"] := by
  have hraw : Assembled subjectMail := ⟨4096, subjectMail, by decide⟩
  have hctrl : parseCtrl "1".toList
      "from a@b\nrcpt c@d\nattempts 0\nnext 0\ncreated 0\n".toList = .ok failedEntry := by
    decide +kernel
  have hbounced : Bounced bouncedMail :=
    @Bounced.stamped _ ⟨none, []⟩ _ _ _ hraw (by decide) .refl (.received _ _ false false _)
  rw [(failure_dsn_structure hbounced hctrl rfl "mx.org".toList hostileReply .unixEpoch
    rfl).2.2.1]
  decide +kernel

end Snail.Server
