import Snail.Mail.Inbound
import Snail.Network.Dkim.Verify

/-!
# Fields — the two header parsers read the same fields

`Message::parse` reads the header section as text, line by line, and unfolds values; the DKIM
verifier reads it as bytes, joins folded lines into blocks and keeps the folding.  On text whose
line feeds all follow a carriage return, what the inbound port assembles, the two list the same
fields in the same order.
-/

open Snail.Reasoning Snail.Mail

namespace Snail.Network

/-! ## 1. What a field is to the other parser -/

def unfoldValue (value : Bytes) : Str :=
  [' '].intercalate ((splitOnPair cr lf value).map fun s => trim (decodeLossy s))

-- the entry of `Headers` for a field of the verifier
def HeaderField.entry (f : HeaderField) : Str × Str := (f.name, unfoldValue f.value)

theorem unfoldValue_of_not_infix {value : Bytes} (h : ¬ crlf <:+: value) :
    unfoldValue value = trim (decodeLossy value) := by
  rw [unfoldValue, splitOnPair_eq_singleton h]
  simp

theorem intercalate_append {α : Type} (sep : List α) {l m : List (List α)} (hl : l ≠ [])
    (hm : m ≠ []) : sep.intercalate (l ++ m) = sep.intercalate l ++ (sep ++ sep.intercalate m) := by
  induction l with
  | nil => exact absurd rfl hl
  | cons a l ih =>
    cases l with
    | nil =>
      rcases List.exists_cons_of_ne_nil hm with ⟨b, m, rfl⟩
      simp
    | cons b l => simpa using ih (by simp)

theorem unfoldValue_append {value line : Bytes} (h : ¬ crlf <:+: line) :
    unfoldValue (value ++ crlf ++ line) = unfoldValue value ++ ' ' :: trim (decodeLossy line) := by
  have hne : (splitOnPair cr lf value).map (fun s => trim (decodeLossy s)) ≠ [] := by
    simpa using splitOnPair_ne_nil cr lf value
  have hcut : splitOnPair cr lf (value ++ crlf ++ line) = splitOnPair cr lf value ++ [line] := by
    rw [show value ++ crlf ++ line = value ++ cr :: lf :: line by simp [crlf],
      splitOnPair_append (by decide), splitOnPair_eq_singleton h]
  rw [unfoldValue, hcut, List.map_append, intercalate_append _ hne (by simp)]
  simp [unfoldValue]

-- the field a block has become, seen as an entry
def blockEntry (block : Bytes) : Option (Str × Str) := (parseField block).map HeaderField.entry

theorem blockEntry_of_not_mem {block : Bytes} (h : colon ∉ block) : blockEntry block = none := by
  rw [blockEntry, parseField, splitOnce_eq_none_iff.mpr h]
  rfl

-- a folded line grows the value of the block it is joined to
theorem blockEntry_append {block line : Bytes} {name value : Str}
    (h : blockEntry block = some (name, value)) (hline : ¬ crlf <:+: line) :
    blockEntry (block ++ crlf ++ line) = some (name, value ++ ' ' :: trim (decodeLossy line)) := by
  cases hb : splitOnce colon block with
  | none => simp [blockEntry, parseField, hb] at h
  | some nv =>
    have hnv := splitOnce_eq_some_iff.mp hb
    have hgrown : splitOnce colon (block ++ crlf ++ line) = some (nv.1, nv.2 ++ crlf ++ line) := by
      rw [splitOnce_eq_some_iff, hnv.1]
      exact ⟨by simp, hnv.2⟩
    simp only [blockEntry, parseField, hb, Option.map_some, HeaderField.entry,
      Option.some.injEq, Prod.mk.injEq] at h
    simp only [blockEntry, parseField, hgrown, Option.map_some, HeaderField.entry,
      unfoldValue_append hline, h]

/-! ## 2. Lines and segments -/

theorem lf_not_mem_of_mem_splitOnPair {text : Bytes} (h : NoBareLf text) {s : Bytes}
    (hs : s ∈ splitOnPair cr lf text) : lf ∉ s := by
  fun_induction splitOnPair cr lf text generalizing s with
  | case1 =>
    rw [List.mem_singleton] at hs
    simp [hs]
  | case2 a =>
    rw [List.mem_singleton] at hs
    have ha := (NoBareLf.tail h (by simp)).1
    simpa [hs] using Ne.symm ha
  | case3 a b l hab ih =>
    rw [hab.1, hab.2] at h
    have hl : NoBareLf l := by
      intro p q hpq
      have hlast := h (cr :: lf :: p) q (by rw [hpq]; rfl)
      cases p with
      | nil => exact absurd hlast (by decide)
      | cons c p => simpa using hlast
    rcases List.mem_cons.mp hs with rfl | hs
    · simp
    · exact ih hl hs
  | case4 a b l hab ih =>
    have ht := NoBareLf.tail h (by
      rintro ⟨r, hr⟩
      simp only [List.cons_append, List.cons.injEq] at hr
      exact hab ⟨hr.1.symm, hr.2.1.symm⟩)
    rcases List.exists_cons_of_ne_nil (splitOnPair_ne_nil cr lf (b :: l)) with ⟨t, ts, hts⟩
    rw [hts] at hs ih
    rcases List.mem_cons.mp hs with rfl | hs
    · have htail := ih ht.2 (s := t) (by simp)
      simp [htail, Ne.symm ht.1]
    · exact ih ht.2 (by simp [hs])

theorem intercalate_splitOnPair (text : Bytes) :
    crlf.intercalate (splitOnPair cr lf text) = text := by
  have hall : ∀ l : List Bytes, l ≠ [] →
      l.flatMap (· ++ [cr, lf]) = crlf.intercalate l ++ [cr, lf] := by
    intro l hl
    induction l with
    | nil => exact absurd rfl hl
    | cons a l ih =>
      cases l with
      | nil => simp
      | cons b l => rw [List.flatMap_cons, ih (by simp)]; simp [crlf]
  have h := flatMap_splitOnPair cr lf text
  rw [hall _ (splitOnPair_ne_nil cr lf text)] at h
  exact List.append_cancel_right h

-- the lines `parse_headers` sees: all but the last keep the carriage return of their ending
def lineTexts : List Bytes → List Str
  | [] => []
  | [s] => [decodeLossy s]
  | s :: t :: rest => (decodeLossy s ++ ['\r']) :: lineTexts (t :: rest)

theorem newline_not_mem_decodeLossy {s : Bytes} (h : lf ∉ s) : '\n' ∉ decodeLossy s := by
  intro hm
  exact h ((ofNat_mem_decodeLossy_iff (a := lf) (by decide) s).mp hm)

theorem newline_not_mem_lineTexts {segs : List Bytes} (h : ∀ s ∈ segs, lf ∉ s) {t : Str}
    (ht : t ∈ lineTexts segs) : '\n' ∉ t := by
  fun_induction lineTexts segs with
  | case1 => simp at ht
  | case2 s =>
    rw [List.mem_singleton.mp ht]
    exact newline_not_mem_decodeLossy (h s (by simp))
  | case3 s t' rest ih =>
    rcases List.mem_cons.mp ht with rfl | ht
    · have hs := newline_not_mem_decodeLossy (h s (by simp))
      simp [hs]
    · exact ih (fun x hx => h x (by simp [hx])) ht

theorem decodeLossy_intercalate (segs : List Bytes) :
    decodeLossy (crlf.intercalate segs) = ['\n'].intercalate (lineTexts segs) := by
  fun_induction lineTexts segs with
  | case1 => rfl
  | case2 s => rw [List.intercalate_singleton, List.intercalate_singleton]
  | case3 s t rest ih =>
    have hne : lineTexts (t :: rest) ≠ [] := by
      cases rest <;> simp [lineTexts]
    rcases List.exists_cons_of_ne_nil hne with ⟨u, us, hu⟩
    rw [List.intercalate_cons_cons, hu, List.intercalate_cons_cons, ← hu, ← ih]
    show decodeLossy (s ++ [cr, lf] ++ _) = _
    rw [List.append_assoc, List.cons_append, decodeLossy_append_ascii (by decide),
      List.cons_append, decodeLossy_cons_ascii (by decide)]
    simp [cr, lf]

theorem splitOn_decodeLossy {text : Bytes} (h : NoBareLf text) :
    (decodeLossy text).splitOn '\n' = lineTexts (splitOnPair cr lf text) := by
  have hne : lineTexts (splitOnPair cr lf text) ≠ [] := by
    rcases List.exists_cons_of_ne_nil (splitOnPair_ne_nil cr lf text) with ⟨s, rest, hs⟩
    rw [hs]
    cases rest <;> simp [lineTexts]
  have hfree : ∀ t ∈ lineTexts (splitOnPair cr lf text), '\n' ∉ t := fun t ht =>
    newline_not_mem_lineTexts (fun s hs => lf_not_mem_of_mem_splitOnPair h hs) ht
  have htext := decodeLossy_intercalate (splitOnPair cr lf text)
  rw [intercalate_splitOnPair] at htext
  rw [htext]
  exact List.splitOn_intercalate '\n' hfree hne

/-! ## 3. The two loops side by side -/

-- the text of a line against the bytes of its segment; only the last line may have lost a return
def LineOf (line : Str) (seg : Bytes) : Prop :=
  line = decodeLossy seg ∨ decodeLossy seg = line ++ ['\r']

theorem LineOf.trim_eq {line : Str} {seg : Bytes} (h : LineOf line seg) :
    trim line = trim (decodeLossy seg) := by
  rcases h with h | h
  · rw [h]
  · rw [h, trim_concat line (by decide)]

theorem LineOf.head?_eq {line : Str} {seg : Bytes} (h : LineOf line seg) (hne : line ≠ []) :
    line.head? = (decodeLossy seg).head? := by
  rcases h with h | h
  · rw [h]
  · rw [h, List.head?_append_of_ne_nil _ hne]

theorem isContinuation_decodeLossy (seg : Bytes) :
    isContinuation (decodeLossy seg) = isFolded seg := by
  have hsp := head?_decodeLossy_iff (a := space) (by decide) seg
  have htab := head?_decodeLossy_iff (a := tab) (by decide) seg
  have hspace : (Char.ofNat space.toNat) = ' ' := by decide
  have htabc : (Char.ofNat tab.toNat) = '\t' := by decide
  rw [hspace] at hsp
  rw [htabc] at htab
  rw [Bool.eq_iff_iff]
  simp only [isContinuation, isFolded, Bool.or_eq_true, beq_iff_eq, hsp, htab]

theorem LineOf.isContinuation_eq {line : Str} {seg : Bytes} (h : LineOf line seg)
    (hne : line ≠ []) : isContinuation line = isFolded seg := by
  rw [← isContinuation_decodeLossy, isContinuation, isContinuation, h.head?_eq hne]

-- an empty line is neither a field nor a continuation
theorem LineOf.of_nil {seg : Bytes} (h : LineOf [] seg) :
    colon ∉ seg ∧ isFolded seg = false := by
  have hcolon : ':' ∈ decodeLossy seg ↔ colon ∈ seg :=
    ofNat_mem_decodeLossy_iff (a := colon) (by decide) seg
  rw [← hcolon, ← isContinuation_decodeLossy]
  rcases h with h | h
  · rw [← h]
    decide
  · rw [h]
    decide

theorem LineOf.blockEntry_eq {line name value : Str} {seg : Bytes} (h : LineOf line seg)
    (hseg : ¬ crlf <:+: seg) (hline : splitOnce ':' line = some (name, value)) :
    blockEntry seg = some (trim name, trim value) := by
  rw [splitOnce_eq_some_iff] at hline
  -- the value of the segment is that of the line, up to the return at its end
  have htext : ∃ value', decodeLossy seg = name ++ ':' :: value' ∧ trim value' = trim value := by
    rcases h with h | h
    · exact ⟨value, by rw [← h]; exact hline.1, rfl⟩
    · exact ⟨value ++ ['\r'], by rw [h, hline.1]; simp, trim_concat value (by decide)⟩
  rcases htext with ⟨value', hdec, htrim⟩
  have hcut := splitOnce_decodeLossy (a := colon) (by decide) seg
  have hname : splitOnce (Char.ofNat colon.toNat) (decodeLossy seg) = some (name, value') := by
    rw [splitOnce_eq_some_iff]
    exact ⟨hdec, hline.2⟩
  rw [hname] at hcut
  rcases Option.map_eq_some_iff.mp hcut.symm with ⟨nv, hsplit, hnv⟩
  cases hnv
  have hvalue : ¬ crlf <:+: nv.2 := by
    intro hi
    rw [(splitOnce_eq_some_iff.mp hsplit).1] at hseg
    exact hseg (hi.trans ⟨nv.1 ++ [colon], [], by simp⟩)
  rw [blockEntry, parseField, hsplit]
  simp only [Option.map_some, HeaderField.entry, unfoldValue_of_not_infix hvalue, htrim]

def stripReturn (rawLine : Str) : Str := (['\r'].isSuffixOf? rawLine).getD rawLine

theorem stripReturn_concat (line : Str) : stripReturn (line ++ ['\r']) = line := by
  have h : ['\r'].isSuffixOf? (line ++ ['\r']) = some line :=
    List.isSuffixOf?_eq_some_iff_append_eq.mpr rfl
  rw [stripReturn, h]
  rfl

theorem lineOf_stripReturn (seg : Bytes) : LineOf (stripReturn (decodeLossy seg)) seg := by
  unfold stripReturn LineOf
  cases h : ['\r'].isSuffixOf? (decodeLossy seg) with
  | none => exact .inl rfl
  | some line => exact .inr (List.isSuffixOf?_eq_some_iff_append_eq.mp h).symm

theorem lineTexts_cons (seg : Bytes) (rest : List Bytes) :
    ∃ rawLine, lineTexts (seg :: rest) = rawLine :: lineTexts rest ∧
      LineOf (stripReturn rawLine) seg ∧ (stripReturn rawLine = [] → rest = [] ∨ seg = []) := by
  cases rest with
  | nil => exact ⟨decodeLossy seg, rfl, lineOf_stripReturn seg, fun _ => .inl rfl⟩
  | cons t rest =>
    refine ⟨decodeLossy seg ++ ['\r'], rfl, ?_, ?_⟩
    · rw [stripReturn_concat]
      exact .inl rfl
    · rw [stripReturn_concat, decodeLossy_eq_nil_iff]
      exact .inr

theorem parseHeaderLines_cons (rawLine : Str) (rest : List Str) (entries : List (Str × Str))
    (current : Option (Str × Str)) :
    parseHeaderLines (rawLine :: rest) entries current =
      if stripReturn rawLine = [] then parseHeaderLines rest entries current
      else if isContinuation (stripReturn rawLine) then
        match current with
        | some (name, value) =>
            parseHeaderLines rest entries
              (some (name, value ++ ' ' :: trim (stripReturn rawLine)))
        | none => .error (.malformed "continuation line with no preceding header".toList)
      else
        match splitOnce ':' (stripReturn rawLine) with
        | none => .error (.malformed ("header without ':': ".toList ++ stripReturn rawLine))
        | some (name, value) =>
            parseHeaderLines rest (entries ++ current.toList) (some (trim name, trim value)) := rfl

-- what a line that is neither empty nor folded does to the text parser
theorem parseHeaderLines_open {rawLine : Str} {rest : List Str} {entries es : List (Str × Str)}
    {current : Option (Str × Str)} {seg : Bytes} (hline : LineOf (stripReturn rawLine) seg)
    (hseg : ¬ crlf <:+: seg) (hne : stripReturn rawLine ≠ [])
    (hfold : isContinuation (stripReturn rawLine) = false)
    (h : parseHeaderLines (rawLine :: rest) entries current = .ok es) :
    parseHeaderLines rest (entries ++ current.toList) (blockEntry seg) = .ok es := by
  rw [parseHeaderLines_cons, if_neg hne, hfold, if_neg (by simp)] at h
  cases hcut : splitOnce ':' (stripReturn rawLine) with
  | none =>
    rw [hcut] at h
    cases h
  | some nv =>
    rw [hcut] at h
    rw [hline.blockEntry_eq hseg hcut]
    exact h

theorem parseHeaderLines_skip {rawLine : Str} {rest : List Str} {entries : List (Str × Str)}
    {current : Option (Str × Str)} (hne : stripReturn rawLine = []) :
    parseHeaderLines (rawLine :: rest) entries current = parseHeaderLines rest entries current := by
  rw [parseHeaderLines_cons, if_pos hne]

theorem parseHeaderLines_fold {rawLine : Str} {rest : List Str} {entries es : List (Str × Str)}
    {current : Option (Str × Str)} (hne : stripReturn rawLine ≠ [])
    (hfold : isContinuation (stripReturn rawLine) = true)
    (h : parseHeaderLines (rawLine :: rest) entries current = .ok es) :
    ∃ name value, current = some (name, value) ∧
      parseHeaderLines rest entries
        (some (name, value ++ ' ' :: trim (stripReturn rawLine))) = .ok es := by
  rw [parseHeaderLines_cons, if_neg hne, if_pos hfold] at h
  cases current with
  | none => cases h
  | some nv => exact ⟨nv.1, nv.2, rfl, h⟩

-- The open header of the text parser is the open block of the verifier.  The induction follows the
-- lines; an empty one can only be the last, where the verifier opens a block that is no field.
theorem entries_of_loop {segs : List Bytes} (hsegs : ∀ s ∈ segs, ¬ crlf <:+: s)
    (hfull : ∀ s ∈ segs.dropLast, s ≠ []) {block : Bytes} {entries es : List (Str × Str)}
    (h : parseHeaderLines (lineTexts segs) entries (blockEntry block) = .ok es) :
    es = entries ++ (joinFolded segs (some block)).filterMap blockEntry := by
  induction segs generalizing block entries with
  | nil =>
    rw [lineTexts, parseHeaderLines, Except.ok.injEq] at h
    rw [← h]
    cases hb : blockEntry block <;> simp [joinFolded, hb]
  | cons seg rest ih =>
    have hseg := hsegs seg (by simp)
    have hrest : ∀ s ∈ rest, ¬ crlf <:+: s := fun s hs => hsegs s (by simp [hs])
    have hfull' : ∀ s ∈ rest.dropLast, s ≠ [] := by
      intro s hs
      cases rest with
      | nil => simp at hs
      | cons t rest => exact hfull s (by simp [hs])
    rcases lineTexts_cons seg rest with ⟨rawLine, htexts, hline, hempty⟩
    rw [htexts] at h
    by_cases hne : stripReturn rawLine = []
    · have hlast : rest = [] := by
        rcases hempty hne with hr | hs
        · exact hr
        · cases rest with
          | nil => rfl
          | cons t rest => exact absurd hs (hfull seg (by simp))
      rw [hne] at hline
      rw [parseHeaderLines_skip hne, hlast, lineTexts, parseHeaderLines, Except.ok.injEq] at h
      rw [hlast, joinFolded, hline.of_nil.2, ← h]
      cases hb : blockEntry block <;>
        simp [joinFolded, hb, blockEntry_of_not_mem hline.of_nil.1]
    · have hcont := hline.isContinuation_eq hne
      cases hfold : isFolded seg with
      | true =>
        rw [hfold] at hcont
        rcases parseHeaderLines_fold hne hcont h with ⟨name, value, hb, hgo⟩
        rw [hline.trim_eq, ← blockEntry_append hb hseg] at hgo
        rw [ih hrest hfull' hgo, joinFolded, hfold]
        rfl
      | false =>
        rw [hfold] at hcont
        rw [ih hrest hfull' (parseHeaderLines_open hline hseg hne hcont h), joinFolded, hfold]
        cases hb : blockEntry block <;> simp [hb]

/-! ## 4. The header section -/

theorem splitMessage_isPrefix (raw : Bytes) : (splitMessage raw).1 <+: raw := by
  unfold splitMessage
  cases findSub (crlf ++ crlf) raw with
  | none => exact List.prefix_rfl
  | some p => exact List.take_prefix p raw

-- the header section ends before the first empty line
theorem not_infix_splitMessage (raw : Bytes) : ¬ crlf ++ crlf <:+: (splitMessage raw).1 := by
  unfold splitMessage
  cases hp : findSub (crlf ++ crlf) raw with
  | none => exact (findSub_eq_none_iff (by decide)).mp hp
  | some p =>
    rintro ⟨u, v, huv⟩
    change u ++ (crlf ++ crlf) ++ v = raw.take p at huv
    have hfirst := (findSub_spec hp).2 u (v ++ raw.drop p) (by
      rw [← List.append_assoc, ← List.append_assoc, huv, List.take_append_drop])
    have hlen := congrArg List.length huv
    simp only [List.length_append, List.length_take, crlf, List.length_cons,
      List.length_nil] at hlen
    omega

theorem ne_nil_of_inner_segment {text first : Bytes} {rest : List Bytes}
    (h : ¬ crlf ++ crlf <:+: text) (hsegs : splitOnPair cr lf text = first :: rest) :
    ∀ s ∈ rest.dropLast, s ≠ [] := by
  intro s hs he
  rw [he] at hs
  rcases List.append_of_mem hs with ⟨a, b, hab⟩
  have hne : rest ≠ [] := by
    intro hnil
    rw [hnil] at hs
    simp at hs
  have hcut : first :: rest = (first :: a) ++ ([[]] ++ (b ++ [rest.getLast hne])) := by
    have hrest := List.dropLast_concat_getLast hne
    rw [hab] at hrest
    simpa using hrest.symm
  have htext := intercalate_splitOnPair text
  rw [hsegs, hcut, intercalate_append _ (by simp) (by simp),
    intercalate_append _ (by simp) (by simp), List.intercalate_singleton, List.nil_append] at htext
  apply h
  rw [← htext]
  exact ⟨crlf.intercalate (first :: a), crlf.intercalate (b ++ [rest.getLast hne]), by simp⟩

theorem parseHeaders_eq_fields {text : Bytes} {headers : Headers} (hlf : NoBareLf text)
    (hempty : ¬ crlf ++ crlf <:+: text) (h : parseHeaders (decodeLossy text) = .ok headers) :
    headers.entries = (parseFields text).map HeaderField.entry := by
  rcases map_eq_ok_iff.mp h with ⟨es, hloop, hes⟩
  rw [splitOn_decodeLossy hlf] at hloop
  have hfields : (parseFields text).map HeaderField.entry =
      (joinFolded (splitOnPair cr lf text) none).filterMap blockEntry := by
    rw [parseFields, List.map_filterMap]
    rfl
  have hwithin : ∀ s ∈ splitOnPair cr lf text, ¬ crlf <:+: s := fun s hs =>
    not_infix_of_mem_splitOnPair hs
  rcases List.exists_cons_of_ne_nil (splitOnPair_ne_nil cr lf text) with ⟨first, rest, hsegs⟩
  have hfull := ne_nil_of_inner_segment hempty hsegs
  rw [hsegs] at hloop hwithin hfields
  have hrest : ∀ s ∈ rest, ¬ crlf <:+: s := fun s hs => hwithin s (by simp [hs])
  rw [hfields, ← hes, joinFolded]
  change es = _
  -- the first line opens the first block, whatever it is
  rcases lineTexts_cons first rest with ⟨rawLine, htexts, hline, -⟩
  rw [htexts] at hloop
  by_cases hne : stripReturn rawLine = []
  · rw [hne] at hline
    rw [parseHeaderLines_skip hne, ← blockEntry_of_not_mem hline.of_nil.1] at hloop
    simpa using entries_of_loop hrest hfull hloop
  · cases hfold : isContinuation (stripReturn rawLine) with
    | true =>
      rcases parseHeaderLines_fold hne hfold hloop with ⟨name, value, hnone, -⟩
      cases hnone
    | false =>
      have hgo := parseHeaderLines_open hline (hwithin first (by simp)) hne hfold hloop
      simpa using entries_of_loop hrest hfull hgo

theorem findSub_lf_lf {raw : Bytes} (h : NoBareLf raw) : findSub [lf, lf] raw = none := by
  rw [findSub_eq_none_iff (by decide)]
  rintro ⟨u, v, huv⟩
  have hlast := h (u ++ [lf]) v (by rw [← huv]; simp)
  rw [List.getLast?_concat] at hlast
  exact absurd hlast (by decide)

theorem splitHeaderBody_eq {raw : Bytes} (h : NoBareLf raw) :
    (splitHeaderBody raw).1 = (splitMessage raw).1 ∧
      raw.drop (splitHeaderBody raw).2 = (splitMessage raw).2 := by
  unfold splitHeaderBody splitMessage
  cases findSub (crlf ++ crlf) raw with
  | some p => exact ⟨rfl, rfl⟩
  | none => simp only [findSub_lf_lf h, List.drop_length, and_self]

-- both parsers list the same fields, and the body is the same
theorem parse_eq_fields {envelope : Envelope} {raw : Bytes} {m : Message} (hlf : NoBareLf raw)
    (h : Message.parse envelope raw = .ok m) :
    m.headers.entries = (parseFields (splitMessage raw).1).map HeaderField.entry ∧
      m.body = (splitMessage raw).2 := by
  have hsplit := splitHeaderBody_eq hlf
  change (parseHeaders (decodeLossy (splitHeaderBody raw).1)).map _ = _ at h
  rcases map_eq_ok_iff.mp h with ⟨headers, hheaders, rfl⟩
  rw [hsplit.1] at hheaders
  exact ⟨parseHeaders_eq_fields (hlf.of_isPrefix (splitMessage_isPrefix raw))
    (not_infix_splitMessage raw) hheaders, hsplit.2⟩

/-- The mail parser and the DKIM verifier see one message: the same field names in the same order,
and the same body. -/
theorem header_parsers_agree {envelope : Envelope} {raw : Bytes} {m : Message}
    (hlf : NoBareLf raw) (h : Message.parse envelope raw = .ok m) :
    m.headers.entries.map Prod.fst = (parseFields (splitMessage raw).1).map HeaderField.name ∧
      m.body = (splitMessage raw).2 := by
  have hparse := parse_eq_fields hlf h
  apply And.intro
  · rw [hparse.1, List.map_map]
    rfl
  · exact hparse.2

def foldedRaw : Bytes := ascii "From: a@x\r\nTo: b@y,\r\n c@z\r\nFrom: d@x\r\n\r\nhi\r\n"

theorem header_parsers_agree_folded :
    ∃ m, Message.parse ⟨none, []⟩ foldedRaw = .ok m ∧
      m.headers.entries.map Prod.fst =
        (parseFields (splitMessage foldedRaw).1).map HeaderField.name ∧
      m.body = (splitMessage foldedRaw).2 := by
  have hlines : CrlfLines foldedRaw :=
    ⟨[ascii "From: a@x", ascii "To: b@y,", ascii " c@z", ascii "From: d@x", [], ascii "hi"],
      by decide, by decide⟩
  cases hm : Message.parse ⟨none, []⟩ foldedRaw with
  | error e =>
    have hok : (Message.parse ⟨none, []⟩ foldedRaw).isOk = true := by decide +kernel
    rw [hm] at hok
    cases hok
  | ok m => exact ⟨m, rfl, header_parsers_agree hlines.noBareLf hm⟩

end Snail.Network
