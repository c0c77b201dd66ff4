import Snail.Reasoning.Xml
import Snail.Server.DmarcAggregate

/-!
# ReportXml — reading an aggregate report back

`report_xml` writes its document by hand.  Its elements are nested whatever was recorded, but not
every character of a recorded string may stand in XML, and a processor does not pass on a carriage
return.
-/

open Snail.Reasoning Snail.Mail Snail.Network

namespace Snail.Server

/-! ## 1. The document as elements -/

-- an indented element and what follows on the next line
def xmlBlock (indent : Nat) (tag : String) (inner rest : Content) : Content :=
  .child (List.replicate indent ' ') tag.toList inner (rest.prepend "\r\n".toList)

-- one with lines of its own; the closing tag is indented as the opening one
def xmlSection (indent : Nat) (tag : String) (lines : Content → Content) (rest : Content) :
    Content :=
  xmlBlock indent tag ((lines (.done (List.replicate indent ' '))).prepend "\r\n".toList) rest

def xmlLeaf (indent : Nat) (tag : String) (text : Str) (rest : Content) : Content :=
  xmlBlock indent tag (.done text) rest

-- the two elements of a result
def resultContent (result : Str × Str) : Content :=
  .child [] "domain".toList (.done result.1) (.child [] "result".toList (.done result.2) (.done []))

def authLines (row : RowKey) (close : Content) : Content :=
  row.dkim.foldr (fun d rest => xmlBlock 6 "dkim" (resultContent d) rest) <|
  xmlBlock 6 "spf" (resultContent (row.spfDomain, row.spfResult)) close

def recordLines (row : RowKey × Nat) (close : Content) : Content :=
  xmlSection 4 "row" (fun close =>
    xmlLeaf 6 "source_ip" row.1.sourceIp.toText <|
    xmlLeaf 6 "count" (showNat row.2) <|
    xmlSection 6 "policy_evaluated" (fun close =>
      xmlLeaf 8 "disposition" row.1.disposition <|
      xmlLeaf 8 "dkim" (passFail row.1.dkimEvalPass) <|
      xmlLeaf 8 "spf" (passFail row.1.spfEvalPass) close) close) <|
  xmlBlock 4 "identifiers" (.child [] "header_from".toList (.done row.1.headerFrom) (.done [])) <|
  xmlSection 4 "auth_results" (authLines row.1) close

def rowContent (row : RowKey × Nat) (rest : Content) : Content :=
  xmlSection 2 "record" (recordLines row) rest

-- what stands between the tags of `feedback`
def feedbackContent (host : Str) (report : PendingReport) (since till : Nat) (reportId : Str) :
    Content :=
  xmlSection 2 "report_metadata" (fun close =>
    xmlLeaf 4 "org_name" host <|
    xmlLeaf 4 "email" ("dmarc-noreply@".toList ++ host) <|
    xmlLeaf 4 "report_id" reportId <|
    xmlBlock 4 "date_range" (.child [] "begin".toList (.done (showNat since))
      (.child [] "end".toList (.done (showNat till)) (.done []))) close) <|
  xmlSection 2 "policy_published" (fun close =>
    xmlLeaf 4 "domain" report.domain <|
    xmlLeaf 4 "adkim" (align report.published.adkim) <|
    xmlLeaf 4 "aspf" (align report.published.aspf) <|
    xmlLeaf 4 "p" (policyName report.published.policy) <|
    (report.published.subdomainPolicy.elim id fun sp => xmlLeaf 4 "sp" (policyName sp)) <|
    xmlLeaf 4 "pct" (showNat report.published.pct) close) <|
  report.rows.foldr rowContent (.done [])

/-! ## 2. It is what is written -/

theorem replaceChar_append (c : Char) (text : String) (s t : Str) :
    replaceChar c text (s ++ t) = replaceChar c text s ++ replaceChar c text t :=
  List.flatMap_append

theorem replaceChar_ne {c d : Char} (h : d ≠ c) (text : String) :
    replaceChar c text [d] = [d] := by
  unfold replaceChar
  rw [List.flatMap_singleton, if_neg h]

theorem esc_append (s t : Str) : esc (s ++ t) = esc s ++ esc t := by
  unfold esc
  rw [replaceChar_append, replaceChar_append, replaceChar_append, replaceChar_append,
    replaceChar_append]

-- the ampersand is replaced first, so no later replacement meets a new one
theorem esc_singleton (c : Char) : esc [c] = escapeChar c := by
  rcases escapeChar_cases c with hent | ⟨hno, hself⟩
  · have hall : ∀ e ∈ entities, esc [e.1] = e.2 := by decide
    exact hall (c, escapeChar c) hent
  · have hne : ∀ d ∈ entities.map Prod.fst, c ≠ d := fun d hd hcd => hno (by rw [hcd]; exact hd)
    unfold esc
    rw [hself, replaceChar_ne (hne '&' (by decide)), replaceChar_ne (hne '<' (by decide)),
      replaceChar_ne (hne '>' (by decide)), replaceChar_ne (hne '"' (by decide)),
      replaceChar_ne (hne '\'' (by decide))]

theorem esc_eq_escape (s : Str) : esc s = escape s := by
  induction s with
  | nil => rfl
  | cons c s ih =>
    rw [← List.singleton_append, esc_append, esc_singleton, ih]
    rfl

theorem escape_addrText {t : Str} (h : ∀ c ∈ t, IsAddrChar c) : escape t = t := by
  have hdigits : ∀ d < 16, d.digitChar ∉ entities.map Prod.fst := by decide
  refine escape_eq_self fun c hc => ?_
  rcases h c hc with rfl | rfl | ⟨d, hd, rfl⟩
  · decide
  · decide
  · exact hdigits d hd

theorem escape_showNat (n : Nat) : escape (showNat n) = showNat n :=
  escape_addrText fun _ => isAddrChar_of_mem_showNat

theorem escape_toText (ip : IpAddr) : escape ip.toText = ip.toText :=
  escape_addrText fun _ => isAddrChar_of_mem_toText

theorem escape_words (pass : Bool) (mode : AlignmentMode) (p : DmarcPolicy) :
    escape (passFail pass) = passFail pass ∧ escape (align mode) = align mode ∧
      escape (policyName p) = policyName p := by
  cases pass <;> cases mode <;> cases p <;> decide

theorem escape_spaces (indent : Nat) :
    escape (List.replicate indent ' ') = List.replicate indent ' ' :=
  escape_eq_self fun c hc => by
    rw [List.eq_of_mem_replicate hc]
    decide

theorem escape_break : escape "\r\n".toList = "\r\n".toList := by decide

theorem write_xmlBlock (indent : Nat) (tag : String) (inner rest : Content) :
    (xmlBlock indent tag inner rest).write =
      xmlLine indent (element tag inner.write) ++ rest.write := by
  rw [xmlBlock, Content.write, escape_spaces, Content.write_prepend, escape_break]
  unfold xmlLine element
  simp only [List.append_assoc, List.cons_append]
  rfl

theorem write_xmlLeaf (indent : Nat) (tag : String) (text : Str) (rest : Content) :
    (xmlLeaf indent tag text rest).write =
      xmlLine indent (element tag (escape text)) ++ rest.write :=
  write_xmlBlock indent tag (.done text) rest

def openTag (tag : String) : Str := '<' :: tag.toList ++ ['>']
def closeTag (tag : String) : Str := "</".toList ++ tag.toList ++ ['>']

theorem write_spaces (indent : Nat) :
    (Content.done (List.replicate indent ' ')).write = List.replicate indent ' ' :=
  escape_spaces indent

theorem write_xmlSection (indent : Nat) (tag : String) (lines : Content → Content)
    (rest : Content) :
    (xmlSection indent tag lines rest).write =
      xmlLine indent (openTag tag) ++ (lines (.done (List.replicate indent ' '))).write ++
        xmlLine 0 (closeTag tag) ++ rest.write := by
  unfold xmlSection
  rw [write_xmlBlock, Content.write_prepend, escape_break]
  unfold xmlLine element openTag closeTag
  simp only [List.append_assoc, List.cons_append, List.replicate_zero, List.nil_append]

theorem write_resultContent (result : Str × Str) :
    (resultContent result).write =
      element "domain" (escape result.1) ++ element "result" (escape result.2) := by
  simp [resultContent, Content.write, element, escape]

theorem write_dkim (dkim : List (Str × Str)) (rest : Content) :
    (dkim.foldr (fun d rest => xmlBlock 6 "dkim" (resultContent d) rest) rest).write =
      (dkim.flatMap fun d => xmlLine 6 (element "dkim"
        (element "domain" (escape d.1) ++ element "result" (escape d.2)))) ++ rest.write := by
  induction dkim with
  | nil => rfl
  | cons d dkim ih =>
    rw [List.foldr_cons, write_xmlBlock, write_resultContent, ih, List.flatMap_cons,
      List.append_assoc]

theorem write_rowContent (row : RowKey × Nat) (rest : Content) :
    (rowContent row rest).write = reportRow row ++ rest.write := by
  have hfrom : (Content.child [] "header_from".toList (.done row.1.headerFrom) (.done [])).write =
      element "header_from" (escape row.1.headerFrom) := by
    simp [Content.write, element, escape]
  have hpass := fun pass => (escape_words pass .relaxed .none).1
  unfold rowContent recordLines authLines reportRow
  simp only [write_xmlSection, write_xmlLeaf, write_xmlBlock, write_dkim, write_spaces,
    write_resultContent, hfrom, esc_eq_escape, escape_showNat, escape_toText, hpass, xmlLine,
    List.append_assoc]
  rfl

theorem write_rows (rows : List (RowKey × Nat)) (rest : Content) :
    (rows.foldr rowContent rest).write = rows.flatMap reportRow ++ rest.write := by
  induction rows with
  | nil => rfl
  | cons row rows ih =>
    rw [List.foldr_cons, write_rowContent, ih, List.flatMap_cons, List.append_assoc]

-- the whole of `report_xml`
def reportContent (host : Str) (report : PendingReport) (since till : Nat) (reportId : Str) :
    Content :=
  .child "\r\n".toList "feedback".toList
    ((feedbackContent host report since till reportId).prepend "\r\n".toList)
    (.done "\r\n".toList)

section
variable (host : Str) (report : PendingReport) (since till : Nat) (reportId : Str)

theorem write_subdomainPolicy (sp : Option DmarcPolicy) (rest : Content) :
    ((sp.elim id fun sp => xmlLeaf 4 "sp" (policyName sp)) rest).write =
      (sp.elim [] fun sp => xmlLine 4 (element "sp" (policyName sp))) ++ rest.write := by
  cases sp with
  | none => rfl
  | some sp =>
    have hword := (escape_words true .relaxed sp).2.2
    rw [Option.elim_some, write_xmlLeaf, hword]
    rfl

theorem write_dateRange :
    (Content.child [] "begin".toList (.done (showNat since))
      (.child [] "end".toList (.done (showNat till)) (.done []))).write =
      element "begin" (showNat since) ++ element "end" (showNat till) := by
  simp only [Content.write, escape_showNat, element]
  simp [escape]

theorem write_feedbackContent :
    xmlDeclaration ++ (reportContent host report since till reportId).write =
      reportXml host report since till reportId := by
  have hmode := fun mode => (escape_words true mode .none).2.1
  have hpolicy := fun p => (escape_words true .relaxed p).2.2
  have hemail : escape ("dmarc-noreply@".toList ++ host) =
      "dmarc-noreply@".toList ++ escape host := by
    rw [escape_append]
    rfl
  have hend : (Content.done []).write = [] := rfl
  unfold reportContent reportXml feedbackContent
  rw [Content.write, Content.write_prepend, Content.write, escape_break]
  simp only [write_xmlSection, write_xmlLeaf, write_xmlBlock, write_rows, write_spaces,
    write_subdomainPolicy, write_dateRange, hemail, esc_eq_escape, escape_showNat, hmode, hpolicy,
    xmlLine, List.append_assoc, hend]
  rfl

/-! ## 3. It can be read -/

@[simp] theorem named_xmlBlock (indent : Nat) (tag : String) (inner rest : Content) :
    (xmlBlock indent tag inner rest).named =
      (isTagName tag.toList && inner.named && rest.named) := by
  rw [xmlBlock, Content.named, Content.named_prepend]

@[simp] theorem named_xmlLeaf (indent : Nat) (tag : String) (text : Str) (rest : Content) :
    (xmlLeaf indent tag text rest).named = (isTagName tag.toList && rest.named) := by
  rw [xmlLeaf, named_xmlBlock, Content.named, Bool.and_true]

@[simp] theorem named_xmlSection (indent : Nat) (tag : String) (lines : Content → Content)
    (rest : Content) :
    (xmlSection indent tag lines rest).named =
      (isTagName tag.toList && (lines (.done (List.replicate indent ' '))).named &&
        rest.named) := by
  rw [xmlSection, named_xmlBlock, Content.named_prepend]

theorem named_dkim (dkim : List (Str × Str)) (rest : Content) :
    (dkim.foldr (fun d rest => xmlBlock 6 "dkim" (resultContent d) rest) rest).named =
      rest.named := by
  induction dkim with
  | nil => rfl
  | cons d dkim ih =>
    rw [List.foldr_cons, named_xmlBlock, ih]
    rfl

theorem named_rowContent (row : RowKey × Nat) (rest : Content) :
    (rowContent row rest).named = rest.named := by
  unfold rowContent recordLines authLines
  simp only [named_xmlSection, named_xmlLeaf, named_xmlBlock, named_dkim]
  rfl

theorem named_rows (rows : List (RowKey × Nat)) (rest : Content) :
    (rows.foldr rowContent rest).named = rest.named := by
  induction rows with
  | nil => rfl
  | cons row rows ih => rw [List.foldr_cons, named_rowContent, ih]

theorem named_reportContent : (reportContent host report since till reportId).named = true := by
  have hsp : ∀ (sp : Option DmarcPolicy) (rest : Content),
      ((sp.elim id fun sp => xmlLeaf 4 "sp" (policyName sp)) rest).named = rest.named := by
    intro sp rest
    cases sp with
    | none => rfl
    | some sp =>
      rw [Option.elim_some, named_xmlLeaf]
      rfl
  unfold reportContent feedbackContent
  rw [Content.named, Content.named_prepend]
  simp only [named_xmlSection, named_xmlLeaf, named_xmlBlock, named_rows, hsp]
  rfl

theorem readXml_reportXml :
    readXml (reportXml host report since till reportId) =
      if (reportContent host report since till reportId).clean then
        some ("feedback".toList,
          ((feedbackContent host report since till reportId).prepend "\r\n".toList).normalised)
      else none := by
  rw [← write_feedbackContent]
  exact readXml_write (named_reportContent host report since till reportId) (by decide)

/-! ## 4. The characters in it -/

-- every string that is written between tags
def rowStrings (row : RowKey) : List Str :=
  [row.headerFrom, row.spfDomain, row.spfResult] ++ row.dkim.flatMap fun d => [d.1, d.2]

def recordedStrings (report : PendingReport) : List Str :=
  report.domain :: report.rows.flatMap fun row => rowStrings row.1

theorem clean_spaces (indent : Nat) : (Content.done (List.replicate indent ' ')).clean = true :=
  List.all_eq_true.mpr fun c hc => by
    rw [List.eq_of_mem_replicate hc]
    decide

theorem clean_xmlBlock (indent : Nat) (tag : String) (inner rest : Content) :
    (xmlBlock indent tag inner rest).clean = (inner.clean && rest.clean) := by
  have hspace : (List.replicate indent ' ').all isXmlChar = true := clean_spaces indent
  have hbreak : "\r\n".toList.all isXmlChar = true := by decide
  rw [xmlBlock, Content.clean, Content.clean_prepend, hspace, hbreak, Bool.true_and, Bool.true_and]

theorem clean_xmlLeaf (indent : Nat) (tag : String) (text : Str) (rest : Content) :
    (xmlLeaf indent tag text rest).clean = (text.all isXmlChar && rest.clean) :=
  clean_xmlBlock indent tag (.done text) rest

theorem clean_xmlSection (indent : Nat) (tag : String) (lines : Content → Content)
    (rest : Content) :
    (xmlSection indent tag lines rest).clean =
      ((lines (.done (List.replicate indent ' '))).clean && rest.clean) := by
  have hbreak : "\r\n".toList.all isXmlChar = true := by decide
  rw [xmlSection, clean_xmlBlock, Content.clean_prepend, hbreak, Bool.true_and]

theorem clean_addrText {t : Str} (h : ∀ c ∈ t, IsAddrChar c) : t.all isXmlChar = true := by
  have hdigits : ∀ d < 16, isXmlChar d.digitChar = true := by decide
  refine List.all_eq_true.mpr fun c hc => ?_
  rcases h c hc with rfl | rfl | ⟨d, hd, rfl⟩
  · decide
  · decide
  · exact hdigits d hd

theorem clean_showNat (n : Nat) : (showNat n).all isXmlChar = true :=
  clean_addrText fun _ => isAddrChar_of_mem_showNat

theorem clean_toText (ip : IpAddr) : ip.toText.all isXmlChar = true :=
  clean_addrText fun _ => isAddrChar_of_mem_toText

theorem clean_words (pass : Bool) (mode : AlignmentMode) (p : DmarcPolicy) :
    (passFail pass).all isXmlChar = true ∧ (align mode).all isXmlChar = true ∧
      (policyName p).all isXmlChar = true := by
  cases pass <;> cases mode <;> cases p <;> decide

theorem clean_dkim (dkim : List (Str × Str)) (rest : Content) :
    (dkim.foldr (fun d rest => xmlBlock 6 "dkim" (resultContent d) rest) rest).clean = true ↔
      (∀ s ∈ dkim.flatMap fun d => [d.1, d.2], s.all isXmlChar = true) ∧ rest.clean = true := by
  induction dkim with
  | nil => simp
  | cons d dkim ih =>
    rw [List.foldr_cons, clean_xmlBlock, Bool.and_eq_true, ih]
    simp [resultContent, Content.clean, and_assoc]

theorem clean_resultContent (result : Str × Str) :
    (resultContent result).clean = (result.1.all isXmlChar && result.2.all isXmlChar) := by
  simp [resultContent, Content.clean]

theorem clean_rowContent (row : RowKey × Nat) (rest : Content) :
    (rowContent row rest).clean = true ↔
      (row.1.disposition.all isXmlChar = true ∧
        ∀ s ∈ rowStrings row.1, s.all isXmlChar = true) ∧ rest.clean = true := by
  have hpass := fun pass => (clean_words pass .relaxed .none).1
  have hfrom : (Content.child [] "header_from".toList (.done row.1.headerFrom) (.done [])).clean =
      row.1.headerFrom.all isXmlChar := by
    simp [Content.clean]
  unfold rowContent recordLines authLines rowStrings
  simp only [clean_xmlSection, clean_xmlLeaf, clean_xmlBlock, clean_spaces, clean_showNat,
    clean_toText, hpass, Bool.and_eq_true, clean_dkim, clean_resultContent, hfrom,
    List.forall_mem_append, List.forall_mem_cons, List.not_mem_nil, false_imp_iff, implies_true,
    and_true, true_and]
  tauto

theorem clean_rows (rows : List (RowKey × Nat)) :
    (rows.foldr rowContent (.done [])).clean = true ↔
      (∀ row ∈ rows, row.1.disposition.all isXmlChar = true) ∧
        ∀ s ∈ rows.flatMap fun row => rowStrings row.1, s.all isXmlChar = true := by
  induction rows with
  | nil => simp [Content.clean]
  | cons row rows ih =>
    rw [List.foldr_cons, clean_rowContent, ih, List.flatMap_cons, List.forall_mem_append,
      List.forall_mem_cons]
    tauto

theorem clean_reportContent :
    (reportContent host report since till reportId).clean = true ↔
      (host.all isXmlChar = true ∧ reportId.all isXmlChar = true ∧
        ∀ row ∈ report.rows, row.1.disposition.all isXmlChar = true) ∧
      ∀ s ∈ recordedStrings report, s.all isXmlChar = true := by
  have hmode := fun mode => (clean_words true mode .none).2.1
  have hpolicy := fun p => (clean_words true .relaxed p).2.2
  have hsp : ∀ (sp : Option DmarcPolicy) (rest : Content),
      ((sp.elim id fun sp => xmlLeaf 4 "sp" (policyName sp)) rest).clean = rest.clean := by
    intro sp rest
    cases sp with
    | none => rfl
    | some sp => rw [Option.elim_some, clean_xmlLeaf, hpolicy, Bool.true_and]
  have hrange : (Content.child [] "begin".toList (.done (showNat since))
      (.child [] "end".toList (.done (showNat till)) (.done []))).clean = true := by
    simp [Content.clean, clean_showNat]
  have hmail : "dmarc-noreply@".toList.all isXmlChar = true := by decide
  have hbreak : "\r\n".toList.all isXmlChar = true := by decide
  unfold reportContent feedbackContent recordedStrings
  rw [Content.clean, Content.clean_prepend, Content.clean, hbreak]
  simp only [clean_xmlSection, clean_xmlLeaf, clean_xmlBlock, clean_spaces, clean_showNat, hmode,
    hpolicy, hsp, hrange, hmail, List.all_append, Bool.and_eq_true, clean_rows, and_true, true_and,
    List.forall_mem_cons]
  tauto

end

/-! ## 5. What it says -/

def textsOf (tag : String) (c : Content) : List Str := (c.elements tag.toList).map Content.text

-- the two texts of a result
def readResult (c : Content) : List Str × List Str := (textsOf "domain" c, textsOf "result" c)

/-- A row as it is read: the texts of `header_from`, the DKIM results and the SPF results. -/
structure ReadRow where
  headerFrom : List Str
  dkim : List (List Str × List Str)
  spf : List (List Str × List Str)
  deriving DecidableEq, Repr

def readRow (record : Content) : ReadRow where
  headerFrom := (record.elements "identifiers".toList).flatMap (textsOf "header_from")
  dkim := (record.elements "auth_results".toList).flatMap fun auth =>
    (auth.elements "dkim".toList).map readResult
  spf := (record.elements "auth_results".toList).flatMap fun auth =>
    (auth.elements "spf".toList).map readResult

-- a row as it was recorded, every text passed through `f`
def recordedRow (f : Str → Str) (row : RowKey) : ReadRow where
  headerFrom := [f row.headerFrom]
  dkim := row.dkim.map fun d => ([f d.1], [f d.2])
  spf := [([f row.spfDomain], [f row.spfResult])]

/-- The document is well formed, and its domain, identifiers and results are the recorded ones. -/
def SaysRecorded (report : PendingReport) (doc : Str) : Prop :=
  ∃ tree, readXml doc = some ("feedback".toList, tree) ∧
    (tree.elements "policy_published".toList).flatMap (textsOf "domain") = [report.domain] ∧
    (tree.elements "record".toList).map readRow = report.rows.map fun row => recordedRow id row.1

theorem elements_xmlBlock (indent : Nat) (tag : String) (inner rest : Content) (name : Str) :
    (xmlBlock indent tag inner rest).elements name =
      if tag.toList = name then inner :: rest.elements name else rest.elements name := by
  rw [xmlBlock, Content.elements, Content.elements_prepend]

theorem textsOf_normalised (tag : String) (c : Content) :
    textsOf tag c.normalised = (textsOf tag c).map normaliseEol := by
  unfold textsOf
  rw [Content.elements_normalised, List.map_map, List.map_map]
  exact List.map_congr_left fun e _ => Content.text_normalised e

theorem readResult_normalised (c : Content) :
    readResult c.normalised =
      ((textsOf "domain" c).map normaliseEol, (textsOf "result" c).map normaliseEol) := by
  rw [readResult, textsOf_normalised, textsOf_normalised]

theorem readResult_resultContent (result : Str × Str) :
    readResult (resultContent result).normalised =
      ([normaliseEol result.1], [normaliseEol result.2]) := by
  rw [readResult_normalised]
  rfl

theorem elements_dkim (dkim : List (Str × Str)) (rest : Content) (name : Str) :
    (dkim.foldr (fun d rest => xmlBlock 6 "dkim" (resultContent d) rest) rest).elements name =
      (if "dkim".toList = name then dkim.map resultContent else []) ++ rest.elements name := by
  induction dkim with
  | nil => simp
  | cons d dkim ih =>
    rw [List.foldr_cons, elements_xmlBlock, ih]
    split <;> rfl

theorem elements_xmlSection (indent : Nat) (tag : String) (lines : Content → Content)
    (rest : Content) (name : Str) :
    (xmlSection indent tag lines rest).elements name =
      if tag.toList = name then
        (lines (.done (List.replicate indent ' '))).prepend "\r\n".toList :: rest.elements name
      else rest.elements name :=
  elements_xmlBlock indent tag _ rest name

theorem readAuth_authLines (row : RowKey) (indent : Nat) (name : String) :
    (((authLines row (.done (List.replicate indent ' '))).prepend "\r\n".toList).normalised.elements
        name.toList).map readResult =
      (if "dkim".toList = name.toList then
        row.dkim.map fun d => ([normaliseEol d.1], [normaliseEol d.2]) else []) ++
      if "spf".toList = name.toList then
        [([normaliseEol row.spfDomain], [normaliseEol row.spfResult])] else [] := by
  rw [Content.elements_normalised, Content.elements_prepend, authLines, elements_dkim,
    elements_xmlBlock, List.map_append, List.map_append]
  congr 1
  · split
    · rw [List.map_map, List.map_map]
      exact List.map_congr_left fun d _ => readResult_resultContent d
    · rfl
  · split
    · exact congrArg (fun r => [r]) (readResult_resultContent _)
    · rfl

theorem readRow_recordLines (row : RowKey × Nat) (indent : Nat) :
    readRow ((recordLines row (.done (List.replicate indent ' '))).prepend
        "\r\n".toList).normalised =
      recordedRow normaliseEol row.1 := by
  have hident : ((recordLines row (.done (List.replicate indent ' '))).prepend
      "\r\n".toList).elements "identifiers".toList =
      [.child [] "header_from".toList (.done row.1.headerFrom) (.done [])] := by
    rw [Content.elements_prepend, recordLines, elements_xmlSection, if_neg (by decide),
      elements_xmlBlock, if_pos rfl, elements_xmlSection, if_neg (by decide)]
    rfl
  have hauth : ((recordLines row (.done (List.replicate indent ' '))).prepend
      "\r\n".toList).elements "auth_results".toList =
      [(authLines row.1 (.done (List.replicate 4 ' '))).prepend "\r\n".toList] := by
    rw [Content.elements_prepend, recordLines, elements_xmlSection, if_neg (by decide),
      elements_xmlBlock, if_neg (by decide), elements_xmlSection, if_pos rfl]
    rfl
  have hspf : "spf".toList ≠ "dkim".toList := by decide
  unfold readRow recordedRow
  rw [Content.elements_normalised, Content.elements_normalised, hident, hauth]
  simp only [List.map_cons, List.map_nil, List.flatMap_cons, List.flatMap_nil, List.append_nil,
    readAuth_authLines, if_neg hspf, if_neg hspf.symm, if_true, List.nil_append]
  rfl

theorem readRow_rows (rows : List (RowKey × Nat)) :
    ((rows.foldr rowContent (.done [])).elements "record".toList).map
        (fun c => readRow c.normalised) =
      rows.map fun row => recordedRow normaliseEol row.1 := by
  induction rows with
  | nil => rfl
  | cons row rows ih =>
    rw [List.foldr_cons, rowContent, elements_xmlSection, if_pos rfl, List.map_cons, ih,
      readRow_recordLines, List.map_cons]

theorem elements_rows_of_ne {name : Str} (h : "record".toList ≠ name)
    (rows : List (RowKey × Nat)) : (rows.foldr rowContent (.done [])).elements name = [] := by
  induction rows with
  | nil => rfl
  | cons row rows ih => rw [List.foldr_cons, rowContent, elements_xmlSection, if_neg h, ih]

section
variable (host : Str) (report : PendingReport) (since till : Nat) (reportId : Str)

theorem read_domain :
    (((feedbackContent host report since till reportId).prepend "\r\n".toList).normalised.elements
      "policy_published".toList).flatMap (textsOf "domain") = [normaliseEol report.domain] := by
  have hsp : ∀ (sp : Option DmarcPolicy) (rest : Content),
      ((sp.elim id fun sp => xmlLeaf 4 "sp" (policyName sp)) rest).elements "domain".toList =
        rest.elements "domain".toList := by
    intro sp rest
    cases sp with
    | none => rfl
    | some sp => rw [Option.elim_some, xmlLeaf, elements_xmlBlock, if_neg (by decide)]
  rw [Content.elements_normalised, Content.elements_prepend, feedbackContent, elements_xmlSection,
    if_neg (by decide), elements_xmlSection, if_pos rfl, elements_rows_of_ne (by decide),
    List.map_singleton, List.flatMap_singleton, textsOf_normalised, textsOf,
    Content.elements_prepend, xmlLeaf, elements_xmlBlock, if_pos rfl, xmlLeaf, elements_xmlBlock,
    if_neg (by decide), xmlLeaf, elements_xmlBlock, if_neg (by decide), xmlLeaf, elements_xmlBlock,
    if_neg (by decide), hsp, xmlLeaf, elements_xmlBlock, if_neg (by decide)]
  rfl

theorem read_records :
    (((feedbackContent host report since till reportId).prepend "\r\n".toList).normalised.elements
      "record".toList).map readRow = report.rows.map fun row => recordedRow normaliseEol row.1 := by
  rw [Content.elements_normalised, Content.elements_prepend, feedbackContent, elements_xmlSection,
    if_neg (by decide), elements_xmlSection, if_neg (by decide), List.map_map]
  exact readRow_rows report.rows

end

theorem recordedRow_eq_iff (row : RowKey) :
    recordedRow normaliseEol row = recordedRow id row ↔ ∀ s ∈ rowStrings row, '\r' ∉ s := by
  simp only [recordedRow, rowStrings, ReadRow.mk.injEq, List.cons.injEq, Prod.mk.injEq, and_true,
    List.map_inj_left, id, normaliseEol_eq_self_iff, List.forall_mem_append, List.forall_mem_cons,
    List.not_mem_nil, false_imp_iff, implies_true, List.mem_flatMap]
  grind

/-- A report says what was recorded exactly if no string in it has a character that XML does not
allow and no recorded one a carriage return. -/
theorem report_says_recorded_iff (host : Str) (report : PendingReport) (since till : Nat)
    (reportId : Str) :
    SaysRecorded report (reportXml host report since till reportId) ↔
      (host.all isXmlChar = true ∧ reportId.all isXmlChar = true ∧
        ∀ row ∈ report.rows, row.1.disposition.all isXmlChar = true) ∧
      ∀ s ∈ recordedStrings report, s.all isXmlChar = true ∧ '\r' ∉ s := by
  have hsame : (report.rows.map (fun row => recordedRow normaliseEol row.1) =
      report.rows.map fun row => recordedRow id row.1) ↔
      ∀ s ∈ report.rows.flatMap fun row => rowStrings row.1, '\r' ∉ s := by
    rw [List.map_inj_left, List.forall_mem_flatMap]
    exact forall₂_congr fun row _ => recordedRow_eq_iff row.1
  have hdomain : [normaliseEol report.domain] = [report.domain] ↔ '\r' ∉ report.domain := by
    rw [List.cons.injEq, normaliseEol_eq_self_iff]
    exact and_iff_left rfl
  have hclean := clean_reportContent host report since till reportId
  unfold SaysRecorded
  rw [readXml_reportXml]
  constructor
  · rintro ⟨tree, hread, hpolicy, hrows⟩
    split at hread
    · rename_i hok
      cases hread
      rw [read_domain, hdomain] at hpolicy
      rw [read_records, hsame] at hrows
      obtain ⟨hother, hstrings⟩ := hclean.mp hok
      refine ⟨hother, fun s hs => ⟨hstrings s hs, ?_⟩⟩
      rcases List.mem_cons.mp hs with rfl | hs
      · exact hpolicy
      · exact hrows s hs
    · cases hread
  · rintro ⟨hother, hstrings⟩
    rw [if_pos (hclean.mpr ⟨hother, fun s hs => (hstrings s hs).1⟩)]
    refine ⟨_, rfl, ?_, ?_⟩
    · rw [read_domain, hdomain]
      exact (hstrings _ List.mem_cons_self).2
    · rw [read_records, hsame]
      exact fun s hs => (hstrings s (List.mem_cons_of_mem _ hs)).2

-- the reports after one message whose `From` domain is this
def reportsOf (headerFrom : Str) : List PendingReport :=
  ((∅ : DmarcAggregator).record
    { result := ⟨true, false, false, false, .none, "x.org".toList,
        some ⟨.none, none, .relaxed, .relaxed, 100, some "mailto:a@x.org".toList⟩⟩
      sourceIp := .v4 1#32
      headerFrom := headerFrom
      spfDomain := "x.org".toList
      spfResult := "pass".toList
      dkim := [] }).drain.1

-- a control character makes the document unreadable, a carriage return comes back as a line feed
theorem control_character_unreadable :
    ((reportsOf "a\x01.x.org".toList).map fun report =>
        readXml (reportXml "mx.org".toList report 0 86400 "86400.x.org".toList)) = [none] ∧
      ((reportsOf "a\r.x.org".toList).map fun report =>
        (readXml (reportXml "mx.org".toList report 0 86400 "86400.x.org".toList)).map fun tree =>
          (tree.2.elements "record".toList).map fun record => (readRow record).headerFrom) =
        [some [["a\n.x.org".toList]]] := by
  decide +kernel

end Snail.Server
