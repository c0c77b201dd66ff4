import Snail.Mail.Inbound

/-!
# Outbound — the relay script and dot-stuffing

`crates/mail/src/transport/outbound.rs`: the commands of one relay dialogue and the `DATA` payload.
The payload is cut at CRLF, while the receiver cuts at LF; the results below are about what the
receiver makes of it.
-/

open Snail.Reasoning

namespace Snail.Mail

structure RelayScript where
  commands : List Str
  data : Bytes
  deriving DecidableEq, Repr

def splitOnCrlf (body : Bytes) : List Bytes := splitOnPair cr lf body

-- a line with its leading dot doubled
def stuffLine (line : Bytes) : Bytes := if line.head? = some dot then dot :: line else line

def dotStuff (body : Bytes) : Bytes :=
  (splitOnCrlf body).flatMap (fun line => stuffLine line ++ crlf) ++ endLine

def relayScript (heloDomain : Str) (message : Message) : RelayScript where
  commands :=
    ["EHLO ".toList ++ heloDomain,
      "MAIL FROM:<".toList ++ (message.envelope.sender.elim [] Mailbox.toString) ++ ['>']] ++
    message.envelope.recipients.map (fun rcpt => "RCPT TO:<".toList ++ rcpt.toString ++ ['>']) ++
    ["DATA".toList]
  data := dotStuff message.toBytes

example : dotStuff (ascii "hi\r\n.dot\r\n") = ascii "hi\r\n..dot\r\n\r\n.\r\n" := by decide

/-! ## 1. Where the marker can stand -/

-- a text of CRLF-terminated segments, none of them a lone dot, before the end line
def framed (segments : List Bytes) : Bytes := segments.flatMap (· ++ crlf) ++ endLine

-- the marker CRLF, dot, CRLF occurs in a framed text only at its very end
theorem framed_marker_last {segments : List Bytes} (hseg : ∀ s ∈ segments, ¬ [cr, lf] <:+: s)
    (hdot : [dot] ∉ segments) {u v : Bytes} (h : framed segments = u ++ crlf ++ endLine ++ v) :
    v = [] := by
  have hne : cr ≠ lf := by decide
  have hleft : splitOnPair cr lf (framed segments) = segments ++ [[dot], []] := by
    exact splitOnPair_flatMap hne segments endLine hseg
  have hright : splitOnPair cr lf (u ++ crlf ++ endLine ++ v) =
      splitOnPair cr lf u ++ [dot] :: splitOnPair cr lf v := by
    have hcut : u ++ crlf ++ endLine ++ v = u ++ cr :: lf :: ([dot] ++ cr :: lf :: v) := by
      simp [crlf, endLine]
    rw [hcut, splitOnPair_append hne, splitOnPair_append hne]
    rfl
  rw [h, hright] at hleft
  have hlast : splitOnPair cr lf v = [[]] := by
    rcases List.append_eq_append_iff.mp hleft with ⟨t, hs, ht⟩ | ⟨t, hs, ht⟩
    · cases t with
      | nil => simpa using ht
      | cons x t =>
        simp only [List.cons_append, List.cons.injEq] at ht
        exact absurd (by rw [hs, ← ht.1]; simp) hdot
    · cases t with
      | nil => simpa using ht.symm
      | cons x t =>
        simp only [List.cons_append, List.cons.injEq] at ht
        rcases List.append_eq_singleton_iff.mp ht.2.symm with ht' | ht'
        · simp at ht'
        · simp at ht'
  have hback := flatMap_splitOnPair cr lf v
  rw [hlast] at hback
  simpa using hback

theorem stuffLine_ne_dot (line : Bytes) : stuffLine line ≠ [dot] := by
  unfold stuffLine
  split
  · intro h
    simp only [List.cons.injEq, true_and] at h
    simp_all
  · rename_i hno
    intro h
    simp [h] at hno

theorem not_infix_stuffLine {line : Bytes} (h : ¬ [cr, lf] <:+: line) :
    ¬ [cr, lf] <:+: stuffLine line := by
  unfold stuffLine
  split
  · rw [List.infix_cons_iff]
    intro hi
    rcases hi with hi | hi
    · simp [cr, dot] at hi
    · exact h hi
  · exact h

theorem dotStuff_eq_framed (body : Bytes) :
    dotStuff body = framed ((splitOnCrlf body).map stuffLine) := by
  simp [dotStuff, framed, List.flatMap_map]

theorem segments_stuffed (body : Bytes) :
    (∀ s ∈ (splitOnCrlf body).map stuffLine, ¬ [cr, lf] <:+: s) ∧
      [dot] ∉ (splitOnCrlf body).map stuffLine := by
  refine ⟨?_, ?_⟩
  · intro s hs
    rcases List.mem_map.mp hs with ⟨line, hline, rfl⟩
    exact not_infix_stuffLine (not_infix_of_mem_splitOnPair hline)
  · intro hm
    rcases List.mem_map.mp hm with ⟨line, -, hline⟩
    exact stuffLine_ne_dot line hline

-- the payload ends in the marker and holds it nowhere else
theorem dotStuff_marker (body : Bytes) :
    crlf ++ endLine <:+ dotStuff body ∧
      ∀ u v, dotStuff body = u ++ crlf ++ endLine ++ v → v = [] := by
  have hseg := segments_stuffed body
  refine ⟨?_, fun u v h => framed_marker_last hseg.1 hseg.2 (by rw [← dotStuff_eq_framed]; exact h)⟩
  rcases List.eq_nil_or_concat (splitOnCrlf body) with hn | ⟨init, last, hl⟩
  · exact absurd hn (splitOnPair_ne_nil cr lf body)
  · refine ⟨init.flatMap (fun line => stuffLine line ++ crlf) ++ stuffLine last, ?_⟩
    simp [dotStuff, hl]

-- no byte earlier than the last one lets the receiver see the end of the data
theorem not_endsData_of_prefix_dotStuff {body p : Bytes} (hp : p <+: dotStuff body)
    (hproper : p ≠ dotStuff body) : ¬ EndsData p := by
  intro h
  rcases h with ⟨u, hu⟩
  rcases hp with ⟨v, hv⟩
  have hseg := segments_stuffed body
  -- the CRLF of the `DATA` command is one more, empty, segment
  have hcons : framed ([] :: (splitOnCrlf body).map stuffLine) = u ++ crlf ++ endLine ++ v := by
    have hframe : framed ([] :: (splitOnCrlf body).map stuffLine) = crlf ++ dotStuff body := by
      rw [dotStuff_eq_framed]
      simp [framed]
    rw [hframe, ← hv, ← List.append_assoc, ← hu]
    simp
  have hsegs : ∀ s ∈ [] :: (splitOnCrlf body).map stuffLine, ¬ [cr, lf] <:+: s := by
    intro s hs
    rcases List.mem_cons.mp hs with rfl | hs
    · simp
    · exact hseg.1 s hs
  have hdots : [dot] ∉ [] :: (splitOnCrlf body).map stuffLine := by
    intro hm
    rcases List.mem_cons.mp hm with hm | hm
    · cases hm
    · exact hseg.2 hm
  have hnil := framed_marker_last hsegs hdots hcons
  rw [hnil, List.append_nil] at hv
  exact hproper hv

/-! ## 2. What the receiver collects -/

theorem length_canonicalLine_le {line : Bytes} (h : IsCompleteLine line) :
    (canonicalLine line).length ≤ 2 * line.length := by
  rcases List.getLast?_eq_some_iff.mp h.1 with ⟨w, rfl⟩
  have hstrip : (stripTerminator (w ++ [lf])).length ≤ w.length := by
    rw [stripTerminator_lf]
    cases hs : [cr].isSuffixOf? w with
    | none => exact le_rfl
    | some t =>
      rw [List.isSuffixOf?_eq_some_iff_append_eq] at hs
      rw [← hs]
      simp
  have hun := (unstuff_suffix (stripTerminator (w ++ [lf]))).length_le
  rw [length_canonicalLine]
  simp
  omega

theorem length_canonicalBody_le {lines : List Bytes} (h : ∀ l ∈ lines, IsCompleteLine l) :
    (canonicalBody lines).length ≤ 2 * lines.flatten.length := by
  induction lines with
  | nil => simp [canonicalBody]
  | cons line lines ih =>
    have hline := length_canonicalLine_le (h line (by simp))
    have hrest := ih fun l hl => h l (by simp [hl])
    simp only [canonicalBody, List.flatMap_cons, List.length_append, List.flatten_cons] at hrest ⊢
    omega

-- the lines of the payload: complete lines, and the end line last
theorem splitInclusive_dotStuff (body : Bytes) :
    ∃ init, splitInclusive lf (dotStuff body) = init ++ [endLine] ∧
      (∀ l ∈ init, IsCompleteLine l) ∧ init.flatten ++ endLine = dotStuff body := by
  let text := (splitOnCrlf body).flatMap fun line => stuffLine line ++ crlf
  have htext : text.getLast? = some lf := by
    rcases List.eq_nil_or_concat (splitOnCrlf body) with hn | ⟨init, last, hl⟩
    · exact absurd hn (splitOnPair_ne_nil cr lf body)
    · simp [text, hl, crlf]
  have hsplit : splitInclusive lf (dotStuff body) = splitInclusive lf text ++ [endLine] :=
    splitInclusive_append text endLine (.inr htext)
  refine ⟨splitInclusive lf text, hsplit, ?_, ?_⟩
  · intro l hl
    exact ⟨getLast?_of_mem_splitInclusive htext hl,
      (not_mem_dropLast_of_mem_splitInclusive hl).1⟩
  · rw [splitInclusive_flatten]
    rfl

-- the receiver takes every line of the payload but the last as body, and ends at the last
theorem pushLines_dotStuff {body : Bytes} {maxSize : Nat} {init : List Bytes}
    (hinit : ∀ l ∈ init, IsCompleteLine l) (hflat : init.flatten ++ endLine = dotStuff body)
    (hfit : (canonicalBody init).length ≤ maxSize) :
    ∃ c, (InboundCollector.withMaxSize maxSize).pushLines init =
        (List.replicate init.length false, c) ∧ c.Holds init ∧
      c.pushLine endLine = (true, { c with finished := true }) := by
  have hend : ∀ p, p ≠ [] → p <+: init.flatten → ¬ EndsData (([] : List Bytes).flatten ++ p) := by
    intro p _ hpre
    refine @not_endsData_of_prefix_dotStuff body _ ?_ ?_
    · rw [← hflat]
      exact hpre.trans (List.prefix_append _ _)
    · intro he
      have hlen := hpre.length_le
      rw [List.flatten_nil, List.nil_append, ← hflat] at he
      rw [he] at hlen
      simp [endLine] at hlen
  rcases (InboundCollector.holds_withMaxSize maxSize).pushLines (by simp) init hinit hend hfit with
    ⟨c, hpush, hholds, -⟩
  refine ⟨c, hpush, hholds, ?_⟩
  have hmark : EndsData (init.flatten ++ endLine) := by
    rw [hflat]
    rcases (dotStuff_marker body).1 with ⟨t, ht⟩
    exact ⟨crlf ++ t, by rw [← ht]; simp⟩
  exact hholds.pushLine_end hinit (by rw [IsLine]; decide) (by decide) hmark

-- un-stuffing a stuffed line gives it back
@[simp] theorem unstuff_stuffLine (line : Bytes) : unstuff (stuffLine line) = line := by
  unfold stuffLine
  split
  · have h : [dot].isPrefixOf? (dot :: line) = some line :=
      List.isPrefixOf?_eq_some_iff_append_eq.mpr rfl
    rw [unstuff, h]
    rfl
  · rename_i hno
    have h : [dot].isPrefixOf? line = none := by
      cases hs : [dot].isPrefixOf? line with
      | none => rfl
      | some t =>
        rw [List.isPrefixOf?_eq_some_iff_append_eq] at hs
        exact absurd (by rw [← hs]; rfl) hno
    rw [unstuff, h]
    rfl

theorem lf_not_mem_stuffLine {line : Bytes} (h : lf ∉ line) : lf ∉ stuffLine line := by
  unfold stuffLine
  split
  · simpa [dot, lf] using h
  · exact h

theorem splitInclusive_crlfLines {contents : List Bytes} (h : ∀ c ∈ contents, lf ∉ c)
    (rest : Bytes) :
    splitInclusive lf (contents.flatMap (· ++ crlf) ++ rest) =
      contents.map (· ++ crlf) ++ splitInclusive lf rest := by
  induction contents with
  | nil => rfl
  | cons content contents ih =>
    have hcr : lf ∉ content ++ [cr] := by simpa [cr, lf] using h content (by simp)
    have hcut : (content :: contents).flatMap (· ++ crlf) ++ rest =
        (content ++ [cr]) ++ lf :: (contents.flatMap (· ++ crlf) ++ rest) := by simp [crlf]
    rw [hcut, splitInclusive_append_cons hcr, ih fun c hc => h c (by simp [hc])]
    simp [crlf]

-- the segments of a collected text: its lines, and the empty rest behind the last CRLF
theorem splitOnCrlf_crlfLines {contents : List Bytes} (h : ∀ c ∈ contents, lf ∉ c) :
    splitOnCrlf (contents.flatMap (· ++ crlf)) = contents ++ [[]] := by
  have hseg : ∀ s ∈ contents, ¬ [cr, lf] <:+: s := fun s hs hi =>
    h s hs (hi.subset (by simp))
  have := splitOnPair_flatMap (show cr ≠ lf by decide) contents [] hseg
  rw [List.append_nil] at this
  exact this

-- on the wire a collected text is its lines, stuffed, an empty line and the end line
theorem lines_dotStuff_crlfLines {contents : List Bytes} (h : ∀ c ∈ contents, lf ∉ c) :
    splitInclusive lf (dotStuff (contents.flatMap (· ++ crlf))) =
      ((contents ++ [[]]).map stuffLine).map (· ++ crlf) ++ [endLine] := by
  have hstuffed : ∀ c ∈ (contents ++ [[]]).map stuffLine, lf ∉ c := by
    intro c hc
    rcases List.mem_map.mp hc with ⟨line, hline, rfl⟩
    apply lf_not_mem_stuffLine
    rcases List.mem_append.mp hline with hl | hl
    · exact h line hl
    · rw [List.mem_singleton.mp hl]
      simp
  rw [dotStuff_eq_framed, splitOnCrlf_crlfLines h, framed, splitInclusive_crlfLines hstuffed]
  rfl

theorem canonicalBody_stuffed (contents : List Bytes) :
    canonicalBody ((contents.map stuffLine).map (· ++ crlf)) = contents.flatMap (· ++ crlf) := by
  induction contents with
  | nil => rfl
  | cons content contents ih =>
    have hline : canonicalLine (stuffLine content ++ crlf) = content ++ crlf := by
      simp [canonicalLine]
    simp only [canonicalBody, List.map_cons, List.flatMap_cons, hline] at ih ⊢
    rw [ih]

theorem endLine_not_mem_stuffed (contents : List Bytes) :
    endLine ∉ (contents.map stuffLine).map (· ++ crlf) := by
  intro hm
  rcases List.mem_map.mp hm with ⟨seg, hseg, heq⟩
  rcases List.mem_map.mp hseg with ⟨line, -, rfl⟩
  exact stuffLine_ne_dot line (List.append_cancel_right (heq.trans (by rfl)))

/-! ## 3. One hop -/

theorem flatMap_snoc_nil (contents : List Bytes) :
    (contents ++ [[]]).flatMap (· ++ crlf) = contents.flatMap (· ++ crlf) ++ crlf := by simp

theorem crlfLines_dotStuff {raw : Bytes} (h : CrlfLines raw) : CrlfLines (dotStuff raw) := by
  rcases h with ⟨contents, hc, rfl⟩
  refine ⟨(contents ++ [[]]).map stuffLine ++ [[dot]], ?_, ?_⟩
  · intro content hmem
    rcases List.mem_append.mp hmem with hmem | hmem
    · rcases List.mem_map.mp hmem with ⟨line, hline, rfl⟩
      apply lf_not_mem_stuffLine
      rcases List.mem_append.mp hline with hl | hl
      · exact hc line hl
      · simp_all
    · rw [List.mem_singleton.mp hmem]
      decide
  · rw [dotStuff, splitOnCrlf_crlfLines hc]
    simp [List.flatMap_map, endLine]

-- a receiver with room for it takes a collected text with one CRLF added at the end
theorem receive_dotStuff {raw : Bytes} (h : CrlfLines raw) {maxSize : Nat}
    (hfit : raw.length + 2 ≤ maxSize) : receive maxSize (dotStuff raw) = some (raw ++ crlf) := by
  rcases h with ⟨contents, hc, rfl⟩
  have hlines := lines_dotStuff_crlfLines hc
  rcases splitInclusive_dotStuff (contents.flatMap (· ++ crlf)) with ⟨init, hsplit, hinit, hflat⟩
  have hinit_eq : init = ((contents ++ [[]]).map stuffLine).map (· ++ crlf) :=
    List.append_cancel_right (hsplit.symm.trans hlines)
  have hbody : canonicalBody init = contents.flatMap (· ++ crlf) ++ crlf := by
    rw [hinit_eq, canonicalBody_stuffed, flatMap_snoc_nil]
  have hroom : (canonicalBody init).length ≤ maxSize := by
    rw [hbody, List.length_append]
    exact hfit
  rcases pushLines_dotStuff hinit hflat hroom with ⟨c, hpush, hholds, hend⟩
  have hcollect : (InboundCollector.withMaxSize maxSize).collect (init ++ [endLine]) =
      some ({ c with finished := true }, []) := by
    rw [InboundCollector.collect_of_pushLines hpush, InboundCollector.collect, hend]
    rfl
  rw [receive, hsplit, hcollect]
  simp only [hholds.sizeExceeded, hholds.body, hbody, Bool.false_eq_true, if_false]

-- whatever the receiver's cap, nothing else arrives
theorem eq_of_receive_dotStuff {raw got : Bytes} (h : CrlfLines raw) {maxSize : Nat}
    (hgot : receive maxSize (dotStuff raw) = some got) : got = raw ++ crlf := by
  rcases h with ⟨contents, hc, rfl⟩
  rw [receive, lines_dotStuff_crlfLines hc] at hgot
  split at hgot
  · rename_i c rest hcollect
    split at hgot
    · cases hgot
    · rename_i hsize
      have hbody := InboundCollector.collect_body (endLine_not_mem_stuffed _) hcollect
        (by simpa using hsize)
      cases hgot
      rw [hbody, canonicalBody_stuffed, flatMap_snoc_nil]
      rfl
  · cases hgot

/-- Whole lines at the front of a text arrive as they are, whatever the text goes on with. -/
theorem isPrefix_of_receive_dotStuff {contents : List Bytes} (h : ∀ c ∈ contents, lf ∉ c)
    {rest got : Bytes} {maxSize : Nat}
    (hgot : receive maxSize (dotStuff (contents.flatMap (· ++ crlf) ++ rest)) = some got) :
    contents.flatMap (· ++ crlf) <+: got := by
  have hseg : ∀ s ∈ contents, ¬ [cr, lf] <:+: s := fun s hs hi => h s hs (hi.subset (by simp))
  have hstuffed : ∀ c ∈ contents.map stuffLine, lf ∉ c := by
    intro c hc
    rcases List.mem_map.mp hc with ⟨line, hline, rfl⟩
    exact lf_not_mem_stuffLine (h line hline)
  have htext : dotStuff (contents.flatMap (· ++ crlf) ++ rest) =
      (contents.map stuffLine).flatMap (· ++ crlf) ++ dotStuff rest := by
    have hsplit : splitOnCrlf (contents.flatMap (· ++ crlf) ++ rest) =
        contents ++ splitOnCrlf rest :=
      splitOnPair_flatMap (by decide) contents rest hseg
    rw [dotStuff, hsplit, List.flatMap_append, List.flatMap_map, List.append_assoc]
    rfl
  rw [receive, htext, splitInclusive_crlfLines hstuffed] at hgot
  split at hgot
  · rename_i c more hcollect
    split at hgot
    · cases hgot
    · rename_i hsize
      cases hgot
      rcases InboundCollector.collect_lines (endLine_not_mem_stuffed contents) hcollect
        (by simpa using hsize) with ⟨c₁, hc₁, hgrown⟩
      have hbody := InboundCollector.body_isPrefix_collect hgrown
      rw [hc₁, canonicalBody_stuffed] at hbody
      exact hbody
  · cases hgot

end Snail.Mail
