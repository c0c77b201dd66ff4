import Snail.Mail.Message

/-!
# Inbound — collecting a DATA body

`InboundCollector` of `crates/mail/src/transport/inbound.rs`.  A body line is stripped of its
terminator and of one leading dot and kept with a CRLF; the message ends at a lone dot that has a
CRLF on both sides.
-/

open Snail.Reasoning

namespace Snail.Mail

def dot : UInt8 := 46

def defaultMaxMessageSize : Nat := 25 * 1024 * 1024

/-- The fields of the collector are private to its module, and no operation lets the body outgrow
the cap. -/
structure InboundCollector where
  body : Bytes
  finished : Bool
  prevCrlf : Bool
  maxSize : Nat
  sizeExceeded : Bool
  bounded : body.length ≤ maxSize

/-- `InboundCollector::with_max_size`.  `prevCrlf` stands in for the CRLF of the `DATA` command. -/
def InboundCollector.withMaxSize (maxSize : Nat) : InboundCollector where
  body := []
  finished := false
  prevCrlf := true
  maxSize := maxSize
  sizeExceeded := false
  bounded := Nat.zero_le _

-- a line without its terminator: CRLF, a bare LF or a bare CR
def stripTerminator (line : Bytes) : Bytes :=
  (crlf.isSuffixOf? line <|> [lf].isSuffixOf? line <|> [cr].isSuffixOf? line).getD line

-- a line without the dot its sender may have put in front
def unstuff (content : Bytes) : Bytes := ([dot].isPrefixOf? content).getD content

theorem InboundCollector.bounded_line (c : InboundCollector) (line : Bytes)
    (h : ¬ (c.sizeExceeded ∨
      c.body.length + (unstuff (stripTerminator line)).length + 2 > c.maxSize)) :
    (c.body ++ unstuff (stripTerminator line) ++ crlf).length ≤ c.maxSize := by
  simp [crlf] at h ⊢
  omega

def InboundCollector.pushLine (c : InboundCollector) (line : Bytes) : Bool × InboundCollector :=
  let thisCrlf := crlf.isSuffixOf line
  let content := stripTerminator line
  if c.prevCrlf ∧ thisCrlf ∧ content = [dot] then (true, { c with finished := true })
  else
    let unstuffed := unstuff content
    if h : c.sizeExceeded ∨ c.body.length + unstuffed.length + 2 > c.maxSize then
      (false, { c with sizeExceeded := true })
    else
      (false, { c with
        body := c.body ++ unstuffed ++ crlf
        prevCrlf := thisCrlf
        bounded := c.bounded_line line h })

def InboundCollector.intoMessage (c : InboundCollector) (envelope : Envelope) :
    Except MailError Message :=
  Message.parse envelope c.body

-- feed lines one after the other: what each push returned, and the collector at the end
def InboundCollector.pushLines (c : InboundCollector) : List Bytes → List Bool × InboundCollector
  | [] => ([], c)
  | line :: rest =>
      let r := c.pushLine line
      let rs := r.2.pushLines rest
      (r.1 :: rs.1, rs.2)

/-- The reception loop: lines are pushed until one of them ends the data.  The result is the
finished collector and the lines that were not read. -/
def InboundCollector.collect (c : InboundCollector) :
    List Bytes → Option (InboundCollector × List Bytes)
  | [] => none
  | line :: rest =>
      let r := c.pushLine line
      if r.1 then some (r.2, rest) else r.2.collect rest

-- the message a fresh collector takes from a stream, if the stream ends it within the cap
def receive (maxSize : Nat) (stream : Bytes) : Option Bytes :=
  match (InboundCollector.withMaxSize maxSize).collect (splitInclusive lf stream) with
  | some (c, _) => if c.sizeExceeded then none else some c.body
  | none => none

-- the collected form of one body line
def canonicalLine (line : Bytes) : Bytes := unstuff (stripTerminator line) ++ crlf

-- the collected form of the body lines of a message
def canonicalBody (lines : List Bytes) : Bytes := lines.flatMap canonicalLine

-- the end-of-data line
def endLine : Bytes := dot :: crlf

/-! ## 1. What one line does -/

theorem isSuffixOf?_concat (line : Bytes) (a b : UInt8) :
    [a].isSuffixOf? (line ++ [b]) = if a = b then some line else none := by
  by_cases h : a = b
  · rw [if_pos h, h]
    exact List.isSuffixOf?_eq_some_iff_append_eq.mpr rfl
  · rw [if_neg h]
    cases hs : [a].isSuffixOf? (line ++ [b]) with
    | none => rfl
    | some t =>
      rw [List.isSuffixOf?_eq_some_iff_append_eq] at hs
      have hlast := congrArg List.getLast? hs
      simp at hlast
      exact absurd hlast h

theorem crlf_suffix_concat (line : Bytes) (b : UInt8) :
    crlf <:+ line ++ [b] ↔ b = lf ∧ line.getLast? = some cr := by
  apply Iff.intro
  · intro h
    rcases h with ⟨t, ht⟩
    have hinit := congrArg List.dropLast ht
    have hlast := congrArg List.getLast? ht
    simp [crlf] at hinit hlast
    exact ⟨hlast.symm, by rw [← hinit]; simp⟩
  · intro h
    rcases h with ⟨rfl, hcr⟩
    rcases List.getLast?_eq_some_iff.mp hcr with ⟨t, rfl⟩
    exact ⟨t, by simp [crlf]⟩

-- a complete line loses its LF and then a CR before it
theorem stripTerminator_lf (w : Bytes) :
    stripTerminator (w ++ [lf]) = ([cr].isSuffixOf? w).getD w := by
  by_cases hcr : w.getLast? = some cr
  · rcases List.getLast?_eq_some_iff.mp hcr with ⟨t, rfl⟩
    have h : crlf.isSuffixOf? (t ++ [cr] ++ [lf]) = some t :=
      List.isSuffixOf?_eq_some_iff_append_eq.mpr (by simp [crlf])
    have h' : [cr].isSuffixOf? (t ++ [cr]) = some t := by rw [isSuffixOf?_concat, if_pos rfl]
    rw [stripTerminator, h, h']
    rfl
  · have h : crlf.isSuffixOf? (w ++ [lf]) = none := by
      cases hs : crlf.isSuffixOf? (w ++ [lf]) with
      | none => rfl
      | some t =>
        have hsuf : crlf <:+ w ++ [lf] := ⟨t, List.isSuffixOf?_eq_some_iff_append_eq.mp hs⟩
        exact absurd ((crlf_suffix_concat w lf).mp hsuf).2 hcr
    have h' : [cr].isSuffixOf? w = none := by
      cases hs : [cr].isSuffixOf? w with
      | none => rfl
      | some t =>
        rw [List.isSuffixOf?_eq_some_iff_append_eq] at hs
        exact absurd (by rw [← hs]; simp) hcr
    simp [stripTerminator, h, h', isSuffixOf?_concat]

@[simp] theorem stripTerminator_crlf (content : Bytes) :
    stripTerminator (content ++ crlf) = content := by
  rw [show content ++ crlf = content ++ [cr] ++ [lf] by simp [crlf], stripTerminator_lf,
    isSuffixOf?_concat]
  simp

-- what is stripped is a terminator at the end
theorem stripTerminator_isPrefix (line : Bytes) : stripTerminator line <+: line := by
  have hsome : ∀ {s t : Bytes}, s.isSuffixOf? line = some t → t <+: line := fun h =>
    ⟨_, List.isSuffixOf?_eq_some_iff_append_eq.mp h⟩
  unfold stripTerminator
  cases h₁ : crlf.isSuffixOf? line with
  | some t => exact hsome h₁
  | none =>
    cases h₂ : [lf].isSuffixOf? line with
    | some t => exact hsome h₂
    | none =>
      cases h₃ : [cr].isSuffixOf? line with
      | some t => exact hsome h₃
      | none => exact List.prefix_rfl

-- a line as it comes off the wire: an LF can only be its last byte
def IsLine (line : Bytes) : Prop := lf ∉ line.dropLast

theorem lf_not_mem_stripTerminator {line : Bytes} (h : IsLine line) :
    lf ∉ stripTerminator line := by
  by_cases hl : line.getLast? = some lf
  · rcases List.getLast?_eq_some_iff.mp hl with ⟨w, rfl⟩
    rw [IsLine, List.dropLast_concat] at h
    intro hm
    have hsub : stripTerminator (w ++ [lf]) <+: w := by
      rw [stripTerminator_lf]
      cases hs : [cr].isSuffixOf? w with
      | none => exact List.prefix_rfl
      | some t => exact ⟨_, List.isSuffixOf?_eq_some_iff_append_eq.mp hs⟩
    exact h (hsub.subset hm)
  · intro hm
    have hmem : lf ∈ line := (stripTerminator_isPrefix line).subset hm
    rcases List.eq_nil_or_concat line with rfl | ⟨w, b, rfl⟩
    · simp at hmem
    · rw [IsLine] at h
      simp only [List.concat_eq_append, List.dropLast_concat, List.getLast?_concat,
        Option.some.injEq, List.mem_append, List.mem_singleton] at h hl hmem
      rcases hmem with hmem | hmem
      · exact h hmem
      · exact hl hmem.symm

-- only `.\r\n` is both CRLF-terminated and a lone dot
theorem eq_endLine_iff (line : Bytes) :
    crlf.isSuffixOf line ∧ stripTerminator line = [dot] ↔ line = endLine := by
  apply Iff.intro
  · intro h
    rcases List.isSuffixOf_iff_suffix.mp h.1 with ⟨content, rfl⟩
    rw [stripTerminator_crlf] at h
    rw [h.2]
    rfl
  · intro h
    rw [h]
    decide

theorem length_canonicalLine (line : Bytes) :
    (canonicalLine line).length = (unstuff (stripTerminator line)).length + 2 := by
  simp [canonicalLine, crlf]

-- the three things a pushed line can do
theorem InboundCollector.pushLine_cases (c : InboundCollector) (line : Bytes) :
    (c.prevCrlf = true ∧ line = endLine ∧ c.pushLine line = (true, { c with finished := true })) ∨
    (¬ (c.prevCrlf = true ∧ line = endLine) ∧
      (c.sizeExceeded = true ∨ c.maxSize < c.body.length + (canonicalLine line).length) ∧
      c.pushLine line = (false, { c with sizeExceeded := true })) ∨
    (¬ (c.prevCrlf = true ∧ line = endLine) ∧ c.sizeExceeded = false ∧
      ∃ c' : InboundCollector, c.pushLine line = (false, c') ∧
        c'.body = c.body ++ canonicalLine line ∧ c'.prevCrlf = crlf.isSuffixOf line ∧
        c'.finished = c.finished ∧ c'.maxSize = c.maxSize ∧ c'.sizeExceeded = c.sizeExceeded) := by
  by_cases hend : c.prevCrlf = true ∧ line = endLine
  · refine .inl ⟨hend.1, hend.2, ?_⟩
    have h := (eq_endLine_iff line).mpr hend.2
    rw [pushLine, if_pos ⟨hend.1, h⟩]
  · have hno : ¬ (c.prevCrlf = true ∧ crlf.isSuffixOf line = true ∧
        stripTerminator line = [dot]) := fun h => hend ⟨h.1, (eq_endLine_iff line).mp h.2⟩
    have hlen := length_canonicalLine line
    by_cases hfull : c.sizeExceeded = true ∨
        c.body.length + (unstuff (stripTerminator line)).length + 2 > c.maxSize
    · refine .inr (.inl ⟨hend, ?_, ?_⟩)
      · rcases hfull with h | h
        · exact .inl h
        · exact .inr (by omega)
      · rw [pushLine, if_neg hno, dif_pos hfull]
    · have hsize : c.sizeExceeded = false := by simpa using fun h => hfull (.inl h)
      refine .inr (.inr ⟨hend, hsize, (c.pushLine line).2, ?_⟩)
      rw [pushLine, if_neg hno, dif_neg hfull]
      simp [canonicalLine]

-- a body line that fits is appended in canonical form
theorem InboundCollector.pushLine_body {c : InboundCollector} {line : Bytes}
    (hend : ¬ (c.prevCrlf = true ∧ line = endLine)) (hsize : c.sizeExceeded = false)
    (hfit : c.body.length + (canonicalLine line).length ≤ c.maxSize) :
    ∃ c' : InboundCollector, c.pushLine line = (false, c') ∧
      c'.body = c.body ++ canonicalLine line ∧ c'.prevCrlf = crlf.isSuffixOf line ∧
      c'.finished = c.finished ∧ c'.maxSize = c.maxSize ∧ c'.sizeExceeded = c.sizeExceeded := by
  rcases c.pushLine_cases line with h | h | h
  · exact absurd ⟨h.1, h.2.1⟩ hend
  · rcases h.2.1 with h' | h'
    · rw [hsize] at h'
      cases h'
    · omega
  · exact h.2.2

-- an overflow is flagged for good
theorem InboundCollector.sizeExceeded_pushLine {c : InboundCollector} (line : Bytes)
    (h : c.sizeExceeded = true) : (c.pushLine line).2.sizeExceeded = true := by
  rcases c.pushLine_cases line with h' | h' | h'
  · rw [h'.2.2]
    exact h
  · rw [h'.2.2]
  · rw [h'.2.1] at h
    cases h

theorem InboundCollector.maxSize_pushLine (c : InboundCollector) (line : Bytes) :
    (c.pushLine line).2.maxSize = c.maxSize := by
  rcases c.pushLine_cases line with h | h | ⟨-, -, c', h, -, -, -, hmax, -⟩
  · rw [h.2.2]
  · rw [h.2.2]
  · rw [h, hmax]

theorem InboundCollector.maxSize_pushLines (c : InboundCollector) (lines : List Bytes) :
    (c.pushLines lines).2.maxSize = c.maxSize := by
  induction lines generalizing c with
  | nil => rfl
  | cons line lines ih =>
    show ((c.pushLine line).2.pushLines lines).2.maxSize = c.maxSize
    rw [ih, maxSize_pushLine]

theorem InboundCollector.sizeExceeded_pushLines {c : InboundCollector} (lines : List Bytes)
    (h : c.sizeExceeded = true) : (c.pushLines lines).2.sizeExceeded = true := by
  induction lines generalizing c with
  | nil => exact h
  | cons line lines ih => exact ih (sizeExceeded_pushLine line h)

theorem InboundCollector.sizeExceeded_collect {c c' : InboundCollector}
    {lines rest : List Bytes} (h : c.sizeExceeded = true)
    (hc : c.collect lines = some (c', rest)) : c'.sizeExceeded = true := by
  induction lines generalizing c with
  | nil => cases hc
  | cons line lines ih =>
    have hnext := sizeExceeded_pushLine line h
    rw [collect] at hc
    split at hc
    · cases hc
      exact hnext
    · exact ih hnext hc

/-! ## 2. The end of data in the byte stream -/

/-- The bytes `p` behind the `DATA` command end the message: with the CRLF of that command in front
they end in CRLF, dot, CRLF. -/
def EndsData (p : Bytes) : Prop := crlf ++ endLine <:+ crlf ++ p

instance (p : Bytes) : Decidable (EndsData p) := inferInstanceAs (Decidable (_ <:+ _))

-- a line up to and including its LF
def IsCompleteLine (line : Bytes) : Prop := line.getLast? = some lf ∧ IsLine line

theorem IsCompleteLine.ne_nil {line : Bytes} (h : IsCompleteLine line) : line ≠ [] := by
  intro hn
  rw [hn] at h
  exact absurd h.1 (by simp)

-- behind complete lines stands an LF, be it only the one of the `DATA` command
theorem getLast?_crlf_flatten {lines : List Bytes} (h : ∀ l ∈ lines, IsCompleteLine l) :
    (crlf ++ lines.flatten).getLast? = some lf := by
  rcases List.eq_nil_or_concat lines with rfl | ⟨init, l, rfl⟩
  · rfl
  · have hl := h l (by simp)
    rw [List.concat_eq_append, List.flatten_append, List.flatten_singleton, ← List.append_assoc,
      List.getLast?_append, hl.1]
    rfl

-- whether a line ends in CRLF does not depend on the complete lines before it
theorem crlf_suffix_append_line {pre line : Bytes} (hpre : pre.getLast? = some lf)
    (hline : line ≠ []) : crlf <:+ pre ++ line ↔ crlf <:+ line := by
  rcases List.eq_nil_or_concat line with rfl | ⟨w, b, rfl⟩
  · exact absurd rfl hline
  · rw [List.concat_eq_append, ← List.append_assoc, crlf_suffix_concat, crlf_suffix_concat]
    cases hw : w.getLast? with
    | none => simp [List.getLast?_append, hw, hpre, lf, cr]
    | some x => simp [List.getLast?_append, hw]

-- data ends exactly at a lone-dot line that follows a CRLF
theorem endsData_append_line {pre line : Bytes} (hpre : (crlf ++ pre).getLast? = some lf)
    (hline : IsLine line) (hne : line ≠ []) :
    EndsData (pre ++ line) ↔ crlf <:+ crlf ++ pre ∧ line = endLine := by
  rw [EndsData, ← List.append_assoc]
  generalize crlf ++ pre = q at hpre ⊢
  apply Iff.intro
  · intro h
    rcases List.suffix_or_suffix_of_suffix h (List.suffix_append q line) with hs | hs
    · -- then the line holds the LF of the first CRLF in its inside
      rcases hs with ⟨t, ht⟩
      refine absurd hline ?_
      rw [← ht, IsLine]
      simp [crlf, endLine]
    · -- otherwise the line is one of the ends of the marker, and what is left of it ends `q`
      have hcut : ∀ {t : Bytes}, t ++ line = crlf ++ endLine → t.getLast? = some lf ∧ t <:+ q := by
        intro t ht
        rw [← ht, List.suffix_append_self_iff] at h
        refine ⟨?_, h⟩
        rcases h with ⟨u, rfl⟩
        rcases List.eq_nil_or_concat t with rfl | ⟨w, b, rfl⟩
        · rw [List.nil_append] at ht
          refine absurd hline ?_
          rw [ht, IsLine]
          decide
        · simpa using hpre
      simp only [crlf, endLine, List.cons_append, List.nil_append, List.suffix_cons_iff,
        List.suffix_nil] at hs
      rcases hs with hs | hs | hs | hs | hs | hs
      · exact absurd hline (by rw [hs, IsLine]; decide)
      · exact absurd hline (by rw [hs, IsLine]; decide)
      · exact ⟨(hcut (t := crlf) (by rw [hs]; rfl)).2, hs⟩
      · exact absurd (hcut (t := crlf ++ [dot]) (by rw [hs]; rfl)).1 (by decide)
      · exact absurd (hcut (t := crlf ++ [dot, cr]) (by rw [hs]; rfl)).1 (by decide)
      · exact absurd hs hne
  · intro h
    rcases h with ⟨⟨t, rfl⟩, rfl⟩
    exact ⟨t, by simp⟩

/-! ## 3. Runs of the collector -/

/-- The collector has taken `lines` as body lines and is still open. -/
structure InboundCollector.Holds (c : InboundCollector) (lines : List Bytes) : Prop where
  body : c.body = canonicalBody lines
  finished : c.finished = false
  prevCrlf : c.prevCrlf = true ↔ crlf <:+ crlf ++ lines.flatten
  sizeExceeded : c.sizeExceeded = false

theorem InboundCollector.holds_withMaxSize (maxSize : Nat) : (withMaxSize maxSize).Holds [] where
  body := rfl
  finished := rfl
  prevCrlf := by simp [withMaxSize]
  sizeExceeded := rfl

section Step

variable {c : InboundCollector} {lines : List Bytes} {line : Bytes}

-- the collector answers `true` exactly where the byte stream ends the data
theorem InboundCollector.Holds.closes_iff (h : c.Holds lines)
    (hlines : ∀ l ∈ lines, IsCompleteLine l) (hline : IsLine line) (hne : line ≠ []) :
    c.prevCrlf = true ∧ line = endLine ↔ EndsData (lines.flatten ++ line) := by
  rw [endsData_append_line (getLast?_crlf_flatten hlines) hline hne, h.prevCrlf]

theorem InboundCollector.Holds.pushLine_end (h : c.Holds lines)
    (hlines : ∀ l ∈ lines, IsCompleteLine l) (hline : IsLine line) (hne : line ≠ [])
    (hend : EndsData (lines.flatten ++ line)) :
    c.pushLine line = (true, { c with finished := true }) := by
  have hcl := (h.closes_iff hlines hline hne).mpr hend
  rcases c.pushLine_cases line with h' | h' | h'
  · exact h'.2.2
  · exact absurd hcl h'.1
  · exact absurd hcl h'.1

theorem InboundCollector.Holds.pushLine (h : c.Holds lines)
    (hlines : ∀ l ∈ lines, IsCompleteLine l) (hline : IsLine line) (hne : line ≠ [])
    (hend : ¬ EndsData (lines.flatten ++ line))
    (hfit : (canonicalBody (lines ++ [line])).length ≤ c.maxSize) :
    ∃ c', c.pushLine line = (false, c') ∧ c'.Holds (lines ++ [line]) ∧ c'.maxSize = c.maxSize := by
  have hbody : canonicalBody (lines ++ [line]) = c.body ++ canonicalLine line := by
    simp [canonicalBody, h.body]
  rw [hbody, List.length_append] at hfit
  rcases pushLine_body (fun hcl => hend ((h.closes_iff hlines hline hne).mp hcl)) h.sizeExceeded
    hfit with ⟨c', hp, hb, hprev, hfin, hmax, hsize⟩
  refine ⟨c', hp, ?_, hmax⟩
  exact {
    body := by rw [hb, hbody]
    finished := by rw [hfin, h.finished]
    prevCrlf := by
      rw [hprev, List.isSuffixOf_iff_suffix, List.flatten_append, List.flatten_singleton,
        ← List.append_assoc, crlf_suffix_append_line (getLast?_crlf_flatten hlines) hne]
    sizeExceeded := by rw [hsize, h.sizeExceeded] }

end Step

-- complete lines that nowhere end the data are all taken as body
theorem InboundCollector.Holds.pushLines {c : InboundCollector} {lines : List Bytes}
    (h : c.Holds lines) (hlines : ∀ l ∈ lines, IsCompleteLine l) (more : List Bytes)
    (hmore : ∀ l ∈ more, IsCompleteLine l)
    (hend : ∀ p, p ≠ [] → p <+: more.flatten → ¬ EndsData (lines.flatten ++ p))
    (hfit : (canonicalBody (lines ++ more)).length ≤ c.maxSize) :
    ∃ c', c.pushLines more = (List.replicate more.length false, c') ∧ c'.Holds (lines ++ more) ∧
      c'.maxSize = c.maxSize := by
  induction more generalizing c lines with
  | nil => exact ⟨c, rfl, by simpa using h, rfl⟩
  | cons line more ih =>
    have hline := hmore line (by simp)
    have hsplit : lines ++ line :: more = lines ++ [line] ++ more := by simp
    have hfit' : (canonicalBody (lines ++ [line])).length ≤ c.maxSize := by
      rw [hsplit] at hfit
      simp only [canonicalBody, List.flatMap_append, List.length_append] at hfit ⊢
      omega
    rcases h.pushLine hlines hline.2 hline.ne_nil
      (hend line hline.ne_nil (by simp)) hfit' with ⟨c₁, hp, h₁, hm₁⟩
    have hlines₁ : ∀ l ∈ lines ++ [line], IsCompleteLine l := by
      intro l hl
      rcases List.mem_append.mp hl with hl | hl
      · exact hlines l hl
      · rw [List.mem_singleton.mp hl]
        exact hline
    have hend₁ : ∀ p, p ≠ [] → p <+: more.flatten →
        ¬ EndsData ((lines ++ [line]).flatten ++ p) := by
      intro p hp' hpre
      have := hend (line ++ p) (by simp [hline.ne_nil]) (by simpa using hpre)
      simpa using this
    have hfit₁ := hfit
    rw [hsplit, ← hm₁] at hfit₁
    rcases ih h₁ hlines₁ (fun l hl => hmore l (by simp [hl])) hend₁ hfit₁
      with ⟨c₂, hps, h₂, hm₂⟩
    refine ⟨c₂, ?_, by rw [hsplit]; exact h₂, by rw [hm₂, hm₁]⟩
    simp only [InboundCollector.pushLines, hp, hps]
    rfl

theorem InboundCollector.pushLines_append (c : InboundCollector) (lines more : List Bytes) :
    c.pushLines (lines ++ more) =
      ((c.pushLines lines).1 ++ ((c.pushLines lines).2.pushLines more).1,
        ((c.pushLines lines).2.pushLines more).2) := by
  induction lines generalizing c with
  | nil => rfl
  | cons line lines ih => simp only [List.cons_append, pushLines, ih]

theorem InboundCollector.collect_of_pushLines {c c' : InboundCollector} {lines : List Bytes}
    (h : c.pushLines lines = (List.replicate lines.length false, c')) (rest : List Bytes) :
    c.collect (lines ++ rest) = c'.collect rest := by
  induction lines generalizing c with
  | nil =>
    simp only [pushLines, List.length_nil, List.replicate_zero, Prod.mk.injEq, true_and] at h
    rw [h, List.nil_append]
  | cons line lines ih =>
    simp only [pushLines, List.length_cons, List.replicate_succ, Prod.mk.injEq,
      List.cons.injEq] at h
    have hrest := ih (c := (c.pushLine line).2) (Prod.ext h.1.2 h.2)
    rw [List.cons_append, collect, h.1.1]
    exact hrest

-- a collector that ends within its cap has kept every line before the end
theorem InboundCollector.collect_lines {c c' : InboundCollector} {lines more rest : List Bytes}
    (hlines : endLine ∉ lines) (h : c.collect (lines ++ more) = some (c', rest))
    (hsize : c'.sizeExceeded = false) :
    ∃ c₁ : InboundCollector, c₁.body = c.body ++ canonicalBody lines ∧
      c₁.collect more = some (c', rest) := by
  induction lines generalizing c with
  | nil => exact ⟨c, by simp [canonicalBody], h⟩
  | cons line lines ih =>
    have hrest : endLine ∉ lines := fun hm => hlines (List.mem_cons_of_mem _ hm)
    rcases c.pushLine_cases line with h' | h' | ⟨-, -, c₁, h₁, hbody, -⟩
    · exact absurd (by rw [h'.2.1]; simp) hlines
    · -- the cap was hit here, and the flag never goes away
      rw [List.cons_append, collect, h'.2.2] at h
      exact absurd hsize (by rw [sizeExceeded_collect rfl h]; simp)
    · rw [List.cons_append, collect, h₁] at h
      obtain ⟨c₂, hc₂, hcollect⟩ := ih hrest h
      refine ⟨c₂, ?_, hcollect⟩
      rw [hc₂, hbody]
      simp [canonicalBody]

theorem InboundCollector.collect_body {c c' : InboundCollector} {lines rest : List Bytes}
    (hlines : endLine ∉ lines) (h : c.collect (lines ++ [endLine]) = some (c', rest))
    (hsize : c'.sizeExceeded = false) : c'.body = c.body ++ canonicalBody lines := by
  obtain ⟨c₁, hc₁, hend⟩ := collect_lines hlines h hsize
  rcases c₁.pushLine_cases endLine with h' | h' | h'
  · simp only [collect, h'.2.2, if_true, Option.some.injEq, Prod.mk.injEq] at hend
    rw [← hend.1]
    exact hc₁
  · simp [collect, h'.2.2] at hend
  · rcases h'.2.2 with ⟨c₂, h₂, -⟩
    simp [collect, h₂] at hend

-- what has been collected is never taken back
theorem InboundCollector.body_isPrefix_collect {c c' : InboundCollector} {lines rest : List Bytes}
    (h : c.collect lines = some (c', rest)) : c.body <+: c'.body := by
  induction lines generalizing c with
  | nil => cases h
  | cons line lines ih =>
    rcases c.pushLine_cases line with h' | h' | ⟨-, -, c₁, h₁, hbody, -⟩
    · rw [collect, h'.2.2] at h
      cases h
      exact List.prefix_rfl
    · rw [collect, h'.2.2] at h
      exact @ih { c with sizeExceeded := true } h
    · rw [collect, h₁] at h
      have hgrown := ih h
      rw [hbody] at hgrown
      exact (List.prefix_append _ _).trans hgrown

/-! ## 4. What a collector can assemble -/

-- the collector after a whole byte stream has been fed to it line by line
def InboundCollector.assemble (maxSize : Nat) (stream : Bytes) : InboundCollector :=
  ((withMaxSize maxSize).pushLines (splitInclusive lf stream)).2

-- bytes that some collector assembles from some stream
def Assembled (raw : Bytes) : Prop :=
  ∃ maxSize stream, (InboundCollector.assemble maxSize stream).body = raw

-- text made of CRLF-terminated lines, free of LF otherwise
def CrlfLines (raw : Bytes) : Prop :=
  ∃ contents : List Bytes, (∀ content ∈ contents, lf ∉ content) ∧ raw = contents.flatMap (· ++ crlf)

-- every LF follows a CR
def NoBareLf (raw : Bytes) : Prop := ∀ p s, raw = p ++ lf :: s → p.getLast? = some cr

theorem crlfLines_nil : CrlfLines [] := ⟨[], by simp, rfl⟩

theorem CrlfLines.append {x y : Bytes} (hx : CrlfLines x) (hy : CrlfLines y) :
    CrlfLines (x ++ y) := by
  rcases hx with ⟨xs, hxs, rfl⟩
  rcases hy with ⟨ys, hys, rfl⟩
  refine ⟨xs ++ ys, ?_, by simp⟩
  intro content hc
  rcases List.mem_append.mp hc with hc | hc
  · exact hxs content hc
  · exact hys content hc

theorem crlfLines_line {content : Bytes} (h : lf ∉ content) : CrlfLines (content ++ crlf) :=
  ⟨[content], by simpa using h, by simp⟩

theorem unstuff_suffix (content : Bytes) : unstuff content <:+ content := by
  unfold unstuff
  cases h : [dot].isPrefixOf? content with
  | none => exact List.suffix_rfl
  | some t => exact ⟨_, List.isPrefixOf?_eq_some_iff_append_eq.mp h⟩

theorem crlfLines_canonicalLine {line : Bytes} (h : IsLine line) :
    CrlfLines (canonicalLine line) :=
  crlfLines_line fun hm => lf_not_mem_stripTerminator h ((unstuff_suffix _).subset hm)

theorem crlfLines_canonicalBody {lines : List Bytes} (h : ∀ l ∈ lines, IsLine l) :
    CrlfLines (canonicalBody lines) := by
  induction lines with
  | nil => exact crlfLines_nil
  | cons line lines ih =>
    exact (crlfLines_canonicalLine (h line (by simp))).append (ih fun l hl => h l (by simp [hl]))

theorem InboundCollector.crlfLines_pushLine {c : InboundCollector} {line : Bytes}
    (hc : CrlfLines c.body) (hline : IsLine line) : CrlfLines (c.pushLine line).2.body := by
  rcases c.pushLine_cases line with h | h | ⟨-, -, c', h, hbody, -⟩
  · rw [h.2.2]
    exact hc
  · rw [h.2.2]
    exact hc
  · rw [h, hbody]
    exact hc.append (crlfLines_canonicalLine hline)

theorem InboundCollector.crlfLines_pushLines {c : InboundCollector} (hc : CrlfLines c.body)
    {lines : List Bytes} (hlines : ∀ l ∈ lines, IsLine l) :
    CrlfLines (c.pushLines lines).2.body := by
  induction lines generalizing c with
  | nil => exact hc
  | cons line lines ih =>
    exact ih (crlfLines_pushLine hc (hlines line (by simp))) fun l hl => hlines l (by simp [hl])

theorem InboundCollector.crlfLines_collect {c c' : InboundCollector} {lines rest : List Bytes}
    (hc : CrlfLines c.body) (hlines : ∀ l ∈ lines, IsLine l)
    (h : c.collect lines = some (c', rest)) : CrlfLines c'.body := by
  induction lines generalizing c with
  | nil => cases h
  | cons line lines ih =>
    have hstep := crlfLines_pushLine hc (hlines line (by simp))
    simp only [collect] at h
    split at h
    · cases h
      exact hstep
    · exact ih hstep (fun l hl => hlines l (by simp [hl])) h

theorem isLine_of_mem_splitInclusive {stream line : Bytes} (h : line ∈ splitInclusive lf stream) :
    IsLine line :=
  (not_mem_dropLast_of_mem_splitInclusive h).1

theorem Assembled.crlfLines {raw : Bytes} (h : Assembled raw) : CrlfLines raw := by
  rcases h with ⟨maxSize, stream, rfl⟩
  exact InboundCollector.crlfLines_pushLines crlfLines_nil fun l hl =>
    isLine_of_mem_splitInclusive hl

theorem NoBareLf.of_isPrefix {x y : Bytes} (h : NoBareLf y) (hxy : x <+: y) : NoBareLf x := by
  rcases hxy with ⟨t, rfl⟩
  intro p s hps
  exact h p (s ++ t) (by rw [hps]; simp)

theorem NoBareLf.tail {a : UInt8} {l : Bytes} (h : NoBareLf (a :: l))
    (ha : ¬ [cr, lf] <+: a :: l) : a ≠ lf ∧ NoBareLf l := by
  apply And.intro
  · intro he
    exact absurd (h [] l (by rw [he]; rfl)) (by simp)
  · intro p s hps
    have hlast := h (a :: p) s (by rw [hps]; rfl)
    cases p with
    | nil =>
      rw [List.getLast?_singleton, Option.some.injEq] at hlast
      exact absurd (by rw [hps, hlast]; exact ⟨s, rfl⟩) ha
    | cons b p => simpa using hlast

theorem NoBareLf.line_append {content rest : Bytes} (hc : lf ∉ content) (h : NoBareLf rest) :
    NoBareLf (content ++ crlf ++ rest) := by
  intro p s hps
  rw [List.append_assoc] at hps
  rcases List.append_eq_append_iff.mp hps with ⟨t, hp, ht⟩ | ⟨t, ht, hs⟩
  · match t with
    | [] => exact absurd ht (by simp [crlf, cr, lf])
    | [x] =>
      simp only [crlf, List.cons_append, List.nil_append, List.cons.injEq] at ht
      rw [hp, ← ht.1]
      simp
    | x :: y :: t =>
      simp only [crlf, List.cons_append, List.nil_append, List.cons.injEq] at ht
      have hlast := h t s ht.2.2
      rw [hp, List.getLast?_append, List.getLast?_cons_cons, List.getLast?_cons, hlast]
      rfl
  · cases t with
    | nil => exact absurd hs (by simp [crlf, cr, lf])
    | cons x t =>
      simp only [List.cons_append, List.cons.injEq] at hs
      exact absurd (by rw [ht, ← hs.1]; simp) hc

theorem CrlfLines.noBareLf {raw : Bytes} (h : CrlfLines raw) : NoBareLf raw := by
  rcases h with ⟨contents, hc, rfl⟩
  induction contents with
  | nil =>
    intro p s hps
    exact absurd hps (by simp)
  | cons content contents ih =>
    rw [List.flatMap_cons]
    exact NoBareLf.line_append (hc content (by simp)) (ih fun x hx => hc x (by simp [hx]))

end Snail.Mail
