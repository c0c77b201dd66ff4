import Snail.Mail.Inbound

/-!
# Lines — reading capped lines from a connection

`read_line_capped` of `services/snail_server/src/serve.rs`, and the part of the SMTP loops that
feeds the lines of a DATA stream to a collector.  A connection is what its buffer will show, chunk
after chunk; where the chunks are cut is up to the network.
-/

open Snail.Reasoning Snail.Mail

namespace Snail.Server

/-! ## 1. The reader -/

def maxLineLength : Nat := 64 * 1024

inductive LineRead where
  | read
  | eof
  | tooLong
  deriving DecidableEq, Repr

/-- What is still to come: `fill_buf` shows an empty buffer only at the end of the stream. -/
structure Reader where
  chunks : List Bytes
  filled : [] ∉ chunks

def Reader.bytes (r : Reader) : Bytes := r.chunks.flatten

-- `consume`
def consume (n : Nat) : List Bytes → List Bytes
  | [] => []
  | chunk :: rest => if n < chunk.length then chunk.drop n :: rest else rest

-- `iter().position(|&b| b == b'\n')`
def newlineAt (chunk : Bytes) : Option Nat := (splitOnce lf chunk).map fun p => p.1.length

-- the loop of `read_line_capped`: what is in `buf`, and the chunks to come
def readLoop (max : Nat) : Bytes → List Bytes → LineRead × Bytes × List Bytes
  | buf, [] => (if buf = [] then .eof else .read, buf, [])
  | buf, chunk :: rest =>
      let newline := newlineAt chunk
      let take := newline.elim chunk.length (· + 1)
      if buf.length + take > max then
        (.tooLong, buf ++ chunk.take (max - buf.length), consume (max - buf.length) (chunk :: rest))
      else if newline.isSome then (.read, buf ++ chunk.take take, consume take (chunk :: rest))
      else readLoop max (buf ++ chunk) rest

theorem filled_consume {chunks : List Bytes} (h : [] ∉ chunks) (n : Nat) :
    [] ∉ consume n chunks := by
  cases chunks with
  | nil => exact h
  | cons chunk rest =>
    rw [List.mem_cons, not_or] at h
    rw [consume]
    split
    · rename_i hn
      rw [List.mem_cons, not_or]
      refine ⟨?_, h.2⟩
      intro hnil
      have hlen := congrArg List.length hnil
      rw [List.length_drop, List.length_nil] at hlen
      omega
    · exact h.2

theorem filled_readLoop (max : Nat) (buf : Bytes) {chunks : List Bytes} (h : [] ∉ chunks) :
    [] ∉ (readLoop max buf chunks).2.2 := by
  induction chunks generalizing buf with
  | nil => exact h
  | cons chunk rest ih =>
    rw [readLoop]
    split
    · exact filled_consume h _
    · split
      · exact filled_consume h _
      · exact ih _ fun hm => h (List.mem_cons_of_mem _ hm)

/-- `read_line_capped`: the outcome, the buffer, and the connection after it. -/
def Reader.readLineCapped (r : Reader) (max : Nat) : LineRead × Bytes × Reader :=
  ((readLoop max [] r.chunks).1, (readLoop max [] r.chunks).2.1,
    ⟨(readLoop max [] r.chunks).2.2, filled_readLoop max [] r.filled⟩)

/-! ## 2. What is read does not depend on the chunks -/

-- `line` is the first line of `line ++ rest`; without an LF it is all there is
structure FirstLine (line rest : Bytes) : Prop where
  ne_nil : line ≠ []
  isLine : IsLine line
  ends : line.getLast? = some lf ∨ rest = []

theorem flatten_consume {n : Nat} {chunk : Bytes} (h : n ≤ chunk.length) (rest : List Bytes) :
    (consume n (chunk :: rest)).flatten = (chunk :: rest).flatten.drop n := by
  rw [consume]
  split
  · rw [List.flatten_cons, List.flatten_cons, List.drop_append_of_le_length h]
  · have hn : n = chunk.length := by omega
    rw [hn, List.flatten_cons, List.drop_left]

theorem FirstLine.cut {line rest a b : Bytes} (h : FirstLine line rest) (ha : lf ∉ a)
    (hs : line ++ rest = a ++ lf :: b) : line = a ++ [lf] ∧ rest = b := by
  have hlast : line.getLast? = some lf := by
    rcases h.ends with hl | hr
    · exact hl
    · -- the line is everything, so its LF is the one at its end
      rw [hr, List.append_nil] at hs
      rcases List.eq_nil_or_concat b with rfl | ⟨w, x, rfl⟩
      · rw [hs]
        simp
      · refine absurd h.isLine ?_
        rw [IsLine, hs, List.concat_eq_append, ← List.cons_append, ← List.append_assoc,
          List.dropLast_concat]
        simp
  rcases List.eq_nil_or_concat line with rfl | ⟨w, x, rfl⟩
  · cases hlast
  · rw [List.concat_eq_append, List.getLast?_concat, Option.some.injEq] at hlast
    have hw : lf ∉ w := by
      have hline := h.isLine
      rw [IsLine, List.concat_eq_append, List.dropLast_concat] at hline
      exact hline
    rw [List.concat_eq_append, hlast, List.append_assoc, List.singleton_append] at hs
    have hcut := splitOnce_append_cons (m := rest) hw
    rw [hs, splitOnce_append_cons ha, Option.some.injEq, Prod.mk.injEq] at hcut
    rw [List.concat_eq_append, hlast, ← hcut.1]
    exact ⟨rfl, hcut.2.symm⟩

-- bytes without an LF in front of the stream belong to its first line
theorem FirstLine.isPrefix {line rest a b : Bytes} (h : FirstLine line rest) (ha : lf ∉ a)
    (hs : line ++ rest = a ++ b) : a <+: line := by
  rcases List.append_eq_append_iff.mp hs with ⟨t, hat, -⟩ | ⟨t, ht, -⟩
  · rcases h.ends with hl | hr
    · exact absurd (by rw [hat]; exact List.mem_append_left _ (List.mem_of_getLast? hl)) ha
    · rw [hr, List.append_nil] at hs
      exact ⟨b, hs.symm⟩
  · exact ⟨t, ht.symm⟩

theorem readLoop_spec {max : Nat} {buf line rest : Bytes} {chunks : List Bytes}
    (hbuf : lf ∉ buf) (hmax : buf.length ≤ max) (hs : line ++ rest = buf ++ chunks.flatten)
    (hline : FirstLine line rest) :
    (line.length ≤ max → (readLoop max buf chunks).1 = .read ∧
      (readLoop max buf chunks).2.1 = line ∧ (readLoop max buf chunks).2.2.flatten = rest) ∧
    (max < line.length → (readLoop max buf chunks).1 = .tooLong ∧
      (readLoop max buf chunks).2.1 = line.take max) := by
  induction chunks generalizing buf with
  | nil =>
    rw [List.flatten_nil, List.append_nil] at hs
    have hrest : rest = [] := by
      rcases hline.ends with hl | hr
      · exact absurd (by rw [← hs]; exact List.mem_append_left _ (List.mem_of_getLast? hl)) hbuf
      · exact hr
    rw [hrest, List.append_nil] at hs
    rw [readLoop, ← hs, if_neg hline.ne_nil, hrest]
    refine ⟨fun _ => ⟨rfl, rfl, rfl⟩, fun hlt => ?_⟩
    rw [hs] at hlt
    omega
  | cons chunk more ih =>
    have hlen := congrArg List.length hs
    rw [readLoop]
    cases hnl : splitOnce lf chunk with
    | none =>
      have hchunk : lf ∉ chunk := splitOnce_eq_none_iff.mp hnl
      have hfree : lf ∉ buf ++ chunk := by simp [hbuf, hchunk]
      rw [List.flatten_cons, ← List.append_assoc] at hs
      have hpre := hline.isPrefix hfree hs
      have hle := hpre.length_le
      rw [List.length_append] at hle
      simp only [newlineAt, hnl, Option.map_none, Option.elim_none, Option.isSome_none,
        Bool.false_eq_true, if_false]
      by_cases hover : buf.length + chunk.length > max
      · rw [if_pos hover]
        refine ⟨fun hfit => by omega, fun _ => ⟨rfl, ?_⟩⟩
        rcases hpre with ⟨t, rfl⟩
        rw [List.take_append_of_le_length (by simp; omega), List.take_append,
          List.take_of_length_le hmax]
      · rw [if_neg hover]
        exact ih hfree (by simp; omega) hs
    | some ab =>
      rcases ab with ⟨a, b⟩
      rcases splitOnce_eq_some_iff.mp hnl with ⟨rfl, ha⟩
      have hfree : lf ∉ buf ++ a := by simp [hbuf, ha]
      rcases hline.cut hfree (b := b ++ more.flatten) (by rw [hs]; simp) with ⟨rfl, rfl⟩
      simp only [newlineAt, hnl, Option.map_some, Option.elim_some, Option.isSome_some, if_true]
      by_cases hover : buf.length + (a.length + 1) > max
      · rw [if_pos hover]
        refine ⟨fun hfit => by simp at hfit; omega, fun _ => ⟨rfl, ?_⟩⟩
        have htaken : (a ++ lf :: b).take (max - buf.length) = a.take (max - buf.length) :=
          List.take_append_of_le_length (by omega)
        have hcapped : (buf ++ a ++ [lf]).take max = buf ++ a.take (max - buf.length) := by
          rw [List.take_append_of_le_length (by simp; omega), List.take_append,
            List.take_of_length_le hmax]
        rw [hcapped]
        exact congrArg (buf ++ ·) htaken
      · rw [if_neg hover]
        refine ⟨fun _ => ⟨rfl, ?_, ?_⟩, fun hlt => by simp at hlt; omega⟩
        · show buf ++ (a ++ lf :: b).take (a.length + 1) = buf ++ a ++ [lf]
          rw [List.take_length_add_append, List.append_assoc]
          rfl
        · rw [flatten_consume (by simp), List.flatten_cons, List.append_assoc,
            List.drop_length_add_append]
          rfl

theorem Reader.readLineCapped_end {r : Reader} (h : r.bytes = []) (max : Nat) :
    r.readLineCapped max = (.eof, [], r) := by
  rcases r with ⟨chunks, hfilled⟩
  cases chunks with
  | nil => rfl
  | cons chunk rest =>
    have hnil : chunk = [] := (List.append_eq_nil_iff.mp h).1
    exact absurd (by simp [hnil]) hfilled

theorem Reader.readLineCapped_eof {r : Reader} (h : r.bytes = []) (max : Nat) :
    (r.readLineCapped max).1 = .eof := by
  rw [Reader.readLineCapped_end h]

theorem Reader.readLineCapped_line {r : Reader} {line rest : Bytes} {max : Nat}
    (hs : r.bytes = line ++ rest) (hline : FirstLine line rest) (hfit : line.length ≤ max) :
    ∃ r', r.readLineCapped max = (.read, line, r') ∧ r'.bytes = rest := by
  have h := (@readLoop_spec max [] line rest r.chunks (by simp) (by simp) hs.symm hline).1 hfit
  exact ⟨_, Prod.ext h.1 (Prod.ext h.2.1 rfl), h.2.2⟩

theorem Reader.readLineCapped_tooLong {r : Reader} {line rest : Bytes} {max : Nat}
    (hs : r.bytes = line ++ rest) (hline : FirstLine line rest) (hover : max < line.length) :
    (r.readLineCapped max).1 = .tooLong ∧ (r.readLineCapped max).2.1 = line.take max :=
  (@readLoop_spec max [] line rest r.chunks (by simp) (by simp) hs.symm hline).2 hover

-- every stream that has not ended has a first line
theorem exists_firstLine {s : Bytes} (h : s ≠ []) : ∃ line rest, s = line ++ rest ∧
    FirstLine line rest := by
  rcases exists_line_or_not_mem lf s with hfree | ⟨w, rest, hs, hw⟩
  · refine ⟨s, [], by simp, ⟨h, ?_, .inr rfl⟩⟩
    intro hm
    exact hfree (List.dropLast_subset s hm)
  · refine ⟨w ++ [lf], rest, by simp [hs], ⟨by simp, ?_, .inl (by simp)⟩⟩
    rw [IsLine, List.dropLast_concat]
    exact hw

/-! ### Read after read -/

/-- What `n` calls return one after the other, up to the first line that is too long. -/
def Reader.readLines (max : Nat) : Nat → Reader → List (LineRead × Bytes)
  | 0, _ => []
  | n + 1, r =>
      ((r.readLineCapped max).1, (r.readLineCapped max).2.1) ::
        if (r.readLineCapped max).1 = .tooLong then []
        else readLines max n (r.readLineCapped max).2.2

/-- What a call returns when `unread` is still to come. -/
inductive LineOutcome (max : Nat) (unread : Bytes) : LineRead × Bytes → Prop
  | eof : unread = [] → LineOutcome max unread (.eof, [])
  | read {line rest : Bytes} : unread = line ++ rest → FirstLine line rest → line.length ≤ max →
      LineOutcome max unread (.read, line)
  | tooLong {line rest : Bytes} : unread = line ++ rest → FirstLine line rest →
      max < line.length → LineOutcome max unread (.tooLong, line.take max)

theorem LineOutcome.length_le {max : Nat} {unread : Bytes} {entry : LineRead × Bytes}
    (h : LineOutcome max unread entry) : entry.2.length ≤ max := by
  cases h with
  | eof => exact Nat.zero_le max
  | read _ _ hfit => exact hfit
  | tooLong _ _ _ => exact List.length_take_le max _

section
variable {max : Nat} {r : Reader}

theorem Reader.readLines_eof (h : r.bytes = []) (n : Nat) :
    r.readLines max (n + 1) = (.eof, []) :: r.readLines max n := by
  rw [Reader.readLines, Reader.readLineCapped_end h, if_neg nofun]

theorem Reader.readLines_line {line rest : Bytes} (hs : r.bytes = line ++ rest)
    (hline : FirstLine line rest) (hfit : line.length ≤ max) (n : Nat) :
    ∃ r' : Reader, r'.bytes = rest ∧
      r.readLines max (n + 1) = (.read, line) :: r'.readLines max n := by
  obtain ⟨r', hread, hrest⟩ := Reader.readLineCapped_line hs hline hfit
  refine ⟨r', hrest, ?_⟩
  rw [Reader.readLines, hread, if_neg nofun]

theorem Reader.readLines_tooLong {line rest : Bytes} (hs : r.bytes = line ++ rest)
    (hline : FirstLine line rest) (hover : max < line.length) (n : Nat) :
    r.readLines max (n + 1) = [(.tooLong, line.take max)] := by
  obtain ⟨houtcome, hbuf⟩ := Reader.readLineCapped_tooLong hs hline hover
  rw [Reader.readLines, houtcome, hbuf, if_pos rfl]

end

theorem Reader.readLines_congr {max : Nat} {r₁ r₂ : Reader} (h : r₁.bytes = r₂.bytes) (n : Nat) :
    r₁.readLines max n = r₂.readLines max n := by
  induction n generalizing r₁ r₂ with
  | zero => rfl
  | succ n ih =>
    by_cases hnil : r₁.bytes = []
    · rw [Reader.readLines_eof hnil, Reader.readLines_eof (h ▸ hnil), ih h]
    · obtain ⟨line, rest, hs, hline⟩ := exists_firstLine hnil
      by_cases hfit : line.length ≤ max
      · obtain ⟨r₁', hrest₁, hread₁⟩ := Reader.readLines_line hs hline hfit n
        obtain ⟨r₂', hrest₂, hread₂⟩ := Reader.readLines_line (h ▸ hs) hline hfit n
        rw [hread₁, hread₂, ih (hrest₁.trans hrest₂.symm)]
      · have hover : max < line.length := by omega
        rw [Reader.readLines_tooLong hs hline hover, Reader.readLines_tooLong (h ▸ hs) hline hover]

theorem Reader.readLines_succ (r : Reader) (max n : Nat) : ∃ first more,
    r.readLines max (n + 1) = first :: more ∧ LineOutcome max r.bytes first ∧
      (more = [] ∨ ∃ r' : Reader, more = r'.readLines max n ∧ r.bytes = first.2 ++ r'.bytes) := by
  by_cases hnil : r.bytes = []
  · exact ⟨_, _, Reader.readLines_eof hnil n, .eof hnil, .inr ⟨r, rfl, rfl⟩⟩
  · obtain ⟨line, rest, hs, hline⟩ := exists_firstLine hnil
    by_cases hfit : line.length ≤ max
    · obtain ⟨r', hrest, hread⟩ := Reader.readLines_line hs hline hfit n
      exact ⟨_, _, hread, .read hs hline hfit, .inr ⟨r', rfl, by rw [hs, hrest]⟩⟩
    · have hover : max < line.length := by omega
      exact ⟨_, _, Reader.readLines_tooLong hs hline hover n, .tooLong hs hline hover, .inl rfl⟩

-- each call goes on where the buffers before it end
theorem Reader.readLines_outcome {max n : Nat} {r : Reader} {before after : List (LineRead × Bytes)}
    {entry : LineRead × Bytes} (h : r.readLines max n = before ++ entry :: after) :
    ∃ unread, r.bytes = (before.map Prod.snd).flatten ++ unread ∧
      LineOutcome max unread entry := by
  induction n generalizing r before with
  | zero => simp [Reader.readLines] at h
  | succ n ih =>
    obtain ⟨first, more, hread, hfirst, hmore⟩ := r.readLines_succ max n
    rw [hread] at h
    cases before with
    | nil =>
      rw [← (List.cons.inj h).1]
      exact ⟨r.bytes, rfl, hfirst⟩
    | cons earlier before =>
      obtain ⟨hearlier, htail⟩ := List.cons.inj h
      rcases hmore with hnone | ⟨r', hr', hbytes⟩
      · rw [hnone] at htail
        exact absurd htail.symm (by simp)
      · obtain ⟨unread, hunread, hentry⟩ := ih (hr'.symm.trans htail)
        refine ⟨unread, ?_, hentry⟩
        rw [hbytes, hunread, hearlier, List.map_cons, List.flatten_cons, List.append_assoc]

/-- Successive reads do not depend on how the stream is cut: each returns the next line, nothing at
the end of the stream, or as much of an overlong line as the cap allows. -/
theorem readLines_unchunked (max n : Nat) (r₁ r₂ : Reader) (h : r₁.bytes = r₂.bytes) :
    r₁.readLines max n = r₂.readLines max n ∧
    (∀ before entry after, r₁.readLines max n = before ++ entry :: after →
      ∃ unread, r₁.bytes = (before.map Prod.snd).flatten ++ unread ∧
        LineOutcome max unread entry) ∧
    ∀ entry ∈ r₁.readLines max n, entry.2.length ≤ max := by
  refine ⟨Reader.readLines_congr h n, fun _ _ _ => Reader.readLines_outcome, ?_⟩
  intro entry hmem
  obtain ⟨before, after, hsplit⟩ := List.append_of_mem hmem
  obtain ⟨unread, -, hentry⟩ := Reader.readLines_outcome hsplit
  exact hentry.length_le

-- one line and a half, cut in two ways
theorem readLines_unchunked_cut :
    Reader.readLines 8 3 ⟨[[97], [98, lf, 99]], by decide⟩ =
      Reader.readLines 8 3 ⟨[[97, 98], [lf], [99]], by decide⟩ :=
  (readLines_unchunked 8 3 ⟨[[97], [98, lf, 99]], by decide⟩
    ⟨[[97, 98], [lf], [99]], by decide⟩ rfl).1

/-! ## 3. The DATA stream -/

inductive DataResult where
  -- the end of data was read; the connection goes on behind it
  | done (c : InboundCollector) (unread : Reader)
  -- 552, and the connection is closed
  | oversized (c : InboundCollector)
  -- 500, and the connection is closed
  | tooLong (c : InboundCollector)
  | closed (c : InboundCollector)

/-- The SMTP loops while they collect a message: the size is looked at before the end. -/
def receiveData (cap : Nat) : Nat → InboundCollector → Reader → Option DataResult
  | 0, _, _ => none
  | fuel + 1, c, r =>
      match (r.readLineCapped cap).1 with
      | .eof => some (.closed c)
      | .tooLong => some (.tooLong c)
      | .read =>
          let p := c.pushLine (r.readLineCapped cap).2.1
          if p.2.sizeExceeded then some (.oversized p.2)
          else if p.1 then some (.done p.2 (r.readLineCapped cap).2.2)
          else receiveData cap fuel p.2 (r.readLineCapped cap).2.2

section
variable {cap fuel : Nat} {c : InboundCollector} {r : Reader}

theorem receiveData_eof (h : r.bytes = []) : receiveData cap (fuel + 1) c r = some (.closed c) := by
  rw [receiveData, Reader.readLineCapped_eof h]

theorem receiveData_tooLong {line rest : Bytes} (hs : r.bytes = line ++ rest)
    (hline : FirstLine line rest) (hover : cap < line.length) :
    receiveData cap (fuel + 1) c r = some (.tooLong c) := by
  rw [receiveData, (Reader.readLineCapped_tooLong hs hline hover).1]

theorem receiveData_line {line rest : Bytes} (hs : r.bytes = line ++ rest)
    (hline : FirstLine line rest) (hfit : line.length ≤ cap) :
    ∃ r' : Reader, r'.bytes = rest ∧ receiveData cap (fuel + 1) c r =
      if (c.pushLine line).2.sizeExceeded then some (.oversized (c.pushLine line).2)
      else if (c.pushLine line).1 then some (.done (c.pushLine line).2 r')
      else receiveData cap fuel (c.pushLine line).2 r' := by
  rcases Reader.readLineCapped_line hs hline hfit with ⟨r', hread, hrest⟩
  refine ⟨r', hrest, ?_⟩
  rw [receiveData, hread]

-- enough fuel: every read takes at least one byte
theorem isSome_receiveData (h : r.bytes.length < fuel) : (receiveData cap fuel c r).isSome := by
  induction fuel generalizing c r with
  | zero => omega
  | succ fuel ih =>
    by_cases hnil : r.bytes = []
    · rw [receiveData_eof hnil]
      rfl
    · rcases exists_firstLine hnil with ⟨line, rest, hs, hline⟩
      by_cases hfit : line.length ≤ cap
      · rcases @receiveData_line cap fuel c r line rest hs hline hfit with ⟨r', hrest, heq⟩
        rw [heq]
        split
        · rfl
        · split
          · rfl
          · apply ih
            rw [hs, List.length_append] at h
            rw [hrest]
            have hpos := List.length_pos_iff.mpr hline.ne_nil
            omega
      · rw [receiveData_tooLong hs hline (by omega)]
        rfl

/-- The loop with the fuel it needs. -/
def Reader.receiveData (cap : Nat) (c : InboundCollector) (r : Reader) : DataResult :=
  (Server.receiveData cap (r.bytes.length + 1) c r).get (isSome_receiveData (Nat.lt_succ_self _))

theorem Reader.receiveData_eq {result : DataResult}
    (h : Server.receiveData cap (r.bytes.length + 1) c r = some result) :
    r.receiveData cap c = result := by
  unfold Reader.receiveData
  simp only [h, Option.get_some]

end

/-! ## 4. Where the data ends -/

/-- `p` is the shortest piece of the stream that ends the data. -/
structure EndsAt (s p : Bytes) : Prop where
  isPrefix : p <+: s
  ends : EndsData p
  shortest : ∀ q, q <+: s → EndsData q → p.length ≤ q.length

theorem not_endsData_nil : ¬ EndsData [] := by decide

-- the last line of such a piece is the lone dot, the others are complete
theorem endsData_lines {p : Bytes} (h : EndsData p) :
    ∃ pre, (∀ l ∈ pre, IsCompleteLine l) ∧ p = pre.flatten ++ endLine ∧
      splitInclusive lf p = pre ++ [endLine] := by
  have hlen := h.length_le
  simp only [List.length_append, crlf, endLine, List.length_cons, List.length_nil] at hlen
  have hsuf : endLine <:+ p := by
    have hend : endLine <:+ crlf ++ p := (List.suffix_append crlf endLine).trans h
    apply List.suffix_of_suffix_length_le hend (List.suffix_append crlf p)
    simp only [crlf, endLine, List.length_cons, List.length_nil]
    omega
  rcases hsuf with ⟨front, rfl⟩
  have hfront : front = [] ∨ front.getLast? = some lf := by
    rw [EndsData, ← List.append_assoc, List.suffix_append_self_iff] at h
    rcases List.eq_nil_or_concat front with hnil | ⟨w, b, rfl⟩
    · exact .inl hnil
    · rw [List.concat_eq_append, ← List.append_assoc, crlf_suffix_concat] at h
      exact .inr (by simp [h.1])
  have hlast : ∀ l ∈ splitInclusive lf front, l.getLast? = some lf := by
    intro l hl
    rcases hfront with hnil | hlf
    · rw [hnil] at hl
      cases hl
    · exact getLast?_of_mem_splitInclusive hlf hl
  refine ⟨splitInclusive lf front, ?_, ?_, ?_⟩
  · intro l hl
    exact ⟨hlast l hl, isLine_of_mem_splitInclusive hl⟩
  · rw [splitInclusive_flatten]
  · rw [splitInclusive_append front endLine hfront]
    rfl

theorem splitInclusive_complete {lines : List Bytes} (h : ∀ l ∈ lines, IsCompleteLine l)
    (t : Bytes) : splitInclusive lf (lines.flatten ++ t) = lines ++ splitInclusive lf t := by
  induction lines with
  | nil => rfl
  | cons line lines ih =>
    have hline := h line (by simp)
    rcases List.eq_nil_or_concat line with rfl | ⟨w, b, rfl⟩
    · exact absurd rfl hline.ne_nil
    · have hb : b = lf := by simpa using hline.1
      have hw : lf ∉ w := by simpa [IsLine] using hline.2
      rw [List.flatten_cons, List.concat_eq_append, hb, List.append_assoc, List.append_assoc,
        List.singleton_append, splitInclusive_append_cons hw, ih fun l hl => h l (by simp [hl])]
      rfl

-- inside a line nothing ends
theorem endsData_of_isPrefix {lines : List Bytes} {line q : Bytes}
    (hlines : ∀ l ∈ lines, IsCompleteLine l) (hline : IsLine line) (hq : EndsData q)
    (hpre : q <+: lines.flatten ++ line) : q <+: lines.flatten ∨ q = lines.flatten ++ line := by
  rcases List.prefix_or_prefix_of_prefix hpre (List.prefix_append _ line) with h | ⟨t, rfl⟩
  · exact .inl h
  · rw [List.prefix_append_right_inj] at hpre
    by_cases ht : t = []
    · exact .inl (by simp [ht])
    · have hpiece : IsLine t := fun hm => by
        rcases hpre with ⟨u, rfl⟩
        apply hline
        by_cases hu : u = []
        · simpa [hu] using hm
        · rw [List.dropLast_append_of_ne_nil hu]
          exact List.mem_append_left _ (List.dropLast_subset t hm)
      have hend := (endsData_append_line (getLast?_crlf_flatten hlines) hpiece ht).mp hq
      -- the LF of the dot line is the only one the line has
      right
      rcases hpre with ⟨u, rfl⟩
      by_cases hu : u = []
      · simp [hu]
      · refine absurd hline ?_
        rw [IsLine, List.dropLast_append_of_ne_nil hu, hend.2]
        simp [endLine, crlf]

/-- The loop has taken `lines` from the stream `s`, and none of them has ended the data. -/
structure Reading (s : Bytes) (c : InboundCollector) (lines : List Bytes) (r : Reader) : Prop where
  cut : s = lines.flatten ++ r.bytes
  holds : c.Holds lines
  complete : (∀ l ∈ lines, IsCompleteLine l) ∨ r.bytes = []
  goesOn : ∀ q, q <+: lines.flatten → ¬ EndsData q

theorem reading_start (maxSize : Nat) (r : Reader) :
    Reading r.bytes (.withMaxSize maxSize) [] r where
  cut := rfl
  holds := InboundCollector.holds_withMaxSize maxSize
  complete := .inl (by simp)
  goesOn := by
    intro q hq
    rw [List.prefix_nil.mp hq]
    exact not_endsData_nil

section
variable {s : Bytes} {c : InboundCollector} {lines : List Bytes} {r r' : Reader}
  {line rest : Bytes}

theorem Reading.lines_complete (h : Reading s c lines r) (hne : r.bytes ≠ []) :
    ∀ l ∈ lines, IsCompleteLine l := by
  rcases h.complete with hl | hnil
  · exact hl
  · exact absurd hnil hne

theorem Reading.step (h : Reading s c lines r) (hs : r.bytes = line ++ rest)
    (hline : FirstLine line rest) (hrest : r'.bytes = rest)
    (hend : ¬ EndsData (lines.flatten ++ line))
    (hsize : (c.pushLine line).2.sizeExceeded = false) :
    (c.pushLine line).1 = false ∧ Reading s (c.pushLine line).2 (lines ++ [line]) r' := by
  have hlines := h.lines_complete (by rw [hs]; simp [hline.ne_nil])
  have hopen : ¬ (c.prevCrlf = true ∧ line = endLine) := fun hcl =>
    hend ((h.holds.closes_iff hlines hline.isLine hline.ne_nil).mp hcl)
  -- the line has fitted, or it would have been flagged
  have hfit : (canonicalBody (lines ++ [line])).length ≤ c.maxSize := by
    rcases c.pushLine_cases line with h' | h' | ⟨-, -, c₁, hp, hbody, -, -, hmax, -⟩
    · exact absurd ⟨h'.1, h'.2.1⟩ hopen
    · rw [h'.2.2] at hsize
      cases hsize
    · have hbound := c₁.bounded
      rw [hbody, h.holds.body, hmax] at hbound
      simpa [canonicalBody] using hbound
  rcases h.holds.pushLine hlines hline.isLine hline.ne_nil hend hfit with ⟨c₁, hp, hholds, -⟩
  rw [hp]
  refine ⟨rfl, ⟨?_, hholds, ?_, ?_⟩⟩
  · rw [h.cut, hs, hrest]
    simp
  · rcases hline.ends with hlf | hnil
    · left
      intro l hl
      rcases List.mem_append.mp hl with hl | hl
      · exact hlines l hl
      · rw [List.mem_singleton.mp hl]
        exact ⟨hlf, hline.isLine⟩
    · exact .inr (by rw [hrest, hnil])
  · intro q hq hqe
    rw [List.flatten_append, List.flatten_singleton] at hq
    rcases endsData_of_isPrefix hlines hline.isLine hqe hq with hin | heq
    · exact h.goesOn q hin hqe
    · rw [heq] at hqe
      exact hend hqe

-- the dot line ends the data at the shortest piece that does
theorem Reading.endsAt (h : Reading s c lines r) (hs : r.bytes = line ++ rest)
    (hline : FirstLine line rest) (hend : EndsData (lines.flatten ++ line)) :
    EndsAt s (lines.flatten ++ line) := by
  have hlines := h.lines_complete (by rw [hs]; simp [hline.ne_nil])
  have hcut := h.cut
  rw [hs, ← List.append_assoc] at hcut
  refine ⟨⟨rest, hcut.symm⟩, hend, ?_⟩
  intro q hq hqe
  by_contra hlt
  have hpre : q <+: lines.flatten ++ line :=
    List.prefix_of_prefix_length_le hq ⟨rest, hcut.symm⟩ (by omega)
  rcases endsData_of_isPrefix hlines hline.isLine hqe hpre with hin | heq
  · exact h.goesOn q hin hqe
  · rw [heq] at hlt
    exact hlt (Nat.le_refl _)

theorem Reading.of_done {cap fuel : Nat} {c' : InboundCollector} (h : Reading s c lines r)
    (hdone : Server.receiveData cap fuel c r = some (.done c' r')) :
    ∃ p, EndsAt s p ∧ p ++ r'.bytes = s ∧
      c'.body = canonicalBody (splitInclusive lf p).dropLast ∧ c'.sizeExceeded = false := by
  induction fuel generalizing c lines r with
  | zero => cases hdone
  | succ fuel ih =>
    by_cases hnil : r.bytes = []
    · rw [receiveData_eof hnil] at hdone
      cases hdone
    · rcases exists_firstLine hnil with ⟨line, rest, hs, hline⟩
      by_cases hfit : line.length ≤ cap
      · rcases @receiveData_line cap fuel c r line rest hs hline hfit with ⟨r₁, hrest, heq⟩
        rw [heq] at hdone
        cases hsize : (c.pushLine line).2.sizeExceeded with
        | true =>
          rw [hsize, if_pos rfl] at hdone
          cases hdone
        | false =>
          rw [hsize, if_neg (by simp)] at hdone
          have hlines := h.lines_complete hnil
          by_cases hend : EndsData (lines.flatten ++ line)
          · have hpush := h.holds.pushLine_end hlines hline.isLine hline.ne_nil hend
            rw [hpush, if_pos rfl] at hdone
            cases hdone
            have hdot := ((h.holds.closes_iff hlines hline.isLine hline.ne_nil).mpr hend).2
            refine ⟨lines.flatten ++ line, h.endsAt hs hline hend, ?_, ?_, h.holds.sizeExceeded⟩
            · rw [hrest, h.cut, hs, List.append_assoc]
            · have hcut : splitInclusive lf (lines.flatten ++ line) = lines ++ [endLine] := by
                rw [splitInclusive_complete hlines, hdot]
                rfl
              rw [hcut, List.dropLast_concat]
              exact h.holds.body
          · have hstep := h.step hs hline hrest hend hsize
            rw [hstep.1, if_neg (by simp)] at hdone
            exact ih hstep.2 hdone
      · rw [receiveData_tooLong hs hline (by omega)] at hdone
        cases hdone

-- lines that fit, up to the dot line: the induction follows them
theorem Reading.done {cap fuel : Nat} {pre : List Bytes} (h : Reading s c lines r)
    (hpre : ∀ l ∈ pre, IsCompleteLine l) (hs : r.bytes = pre.flatten ++ (endLine ++ rest))
    (hend : EndsAt s (lines.flatten ++ pre.flatten ++ endLine))
    (hcap : ∀ l ∈ pre ++ [endLine], l.length ≤ cap)
    (hfit : (canonicalBody (lines ++ pre)).length ≤ c.maxSize) (hfuel : r.bytes.length < fuel) :
    ∃ c' r', Server.receiveData cap fuel c r = some (.done c' r') := by
  induction pre generalizing c lines r fuel with
  | nil =>
    rcases fuel with _ | fuel
    · omega
    · rw [List.flatten_nil, List.nil_append] at hs
      rw [List.flatten_nil, List.append_nil] at hend
      have hline : FirstLine endLine rest := ⟨by decide, by unfold IsLine; decide, .inl (by decide)⟩
      have hlines := h.lines_complete (by rw [hs]; simp [endLine])
      rcases @receiveData_line cap fuel c r endLine rest hs hline (hcap endLine (by simp)) with
        ⟨r₁, -, heq⟩
      have hpush := h.holds.pushLine_end hlines hline.isLine hline.ne_nil hend.ends
      have hsize : (c.pushLine endLine).2.sizeExceeded = false := by
        rw [hpush]
        exact h.holds.sizeExceeded
      rw [hsize, hpush] at heq
      exact ⟨_, _, heq⟩
  | cons line pre ih =>
    rcases fuel with _ | fuel
    · omega
    · have hcl := hpre line (by simp)
      rw [List.flatten_cons, List.append_assoc] at hs
      have hline : FirstLine line (pre.flatten ++ (endLine ++ rest)) :=
        ⟨hcl.ne_nil, hcl.2, .inl hcl.1⟩
      have hlines := h.lines_complete (by rw [hs]; simp [hcl.ne_nil])
      -- the data does not end here: the piece that ends it is longer
      have hopen : ¬ EndsData (lines.flatten ++ line) := by
        intro he
        have hshort := hend.shortest (lines.flatten ++ line)
          ⟨pre.flatten ++ (endLine ++ rest), by rw [h.cut, hs, List.append_assoc]⟩ he
        simp only [List.length_append, List.flatten_cons, endLine, List.length_cons] at hshort
        omega
      have hsplit : lines ++ line :: pre = lines ++ [line] ++ pre := by simp
      have hfit' : (canonicalBody (lines ++ [line])).length ≤ c.maxSize := by
        rw [hsplit] at hfit
        simp only [canonicalBody, List.flatMap_append, List.length_append] at hfit ⊢
        omega
      rcases h.holds.pushLine hlines hline.isLine hline.ne_nil hopen hfit' with
        ⟨c₁, hp, hholds, hmax⟩
      have hsize : (c.pushLine line).2.sizeExceeded = false := by
        rw [hp]
        exact hholds.sizeExceeded
      rcases @receiveData_line cap fuel c r line _ hs hline (hcap line (by simp)) with
        ⟨r₁, hrest, heq⟩
      have hstep := h.step hs hline hrest hopen hsize
      rw [hsize, if_neg (by simp), hstep.1, if_neg (by simp)] at heq
      rw [heq]
      apply ih hstep.2 (fun l hl => hpre l (by simp [hl])) hrest
      · simpa using hend
      · intro l hl
        exact hcap l (by simp at hl ⊢; tauto)
      · rw [← hsplit, hp, hmax]
        exact hfit
      · rw [hs, List.length_append] at hfuel
        rw [hrest]
        have hpos := List.length_pos_iff.mpr hcl.ne_nil
        omega

end

/-- The end of data is decided by CRLF, dot, CRLF alone, however the stream is cut into chunks.
When its lines fit, the loop stops behind the shortest piece that ends the data, with the canonical
form of the lines before; it stops nowhere else; and an overflow is flagged for good and never gets
through. -/
theorem data_ends_at_crlf_dot_crlf (cap maxSize : Nat) (r : Reader) :
    (∀ p, EndsAt r.bytes p → (∀ l ∈ splitInclusive lf p, l.length ≤ cap) →
      (canonicalBody (splitInclusive lf p).dropLast).length ≤ maxSize →
      ∃ c r', r.receiveData cap (.withMaxSize maxSize) = .done c r' ∧ p ++ r'.bytes = r.bytes ∧
        c.body = canonicalBody (splitInclusive lf p).dropLast ∧ NoBareLf c.body) ∧
    (∀ c r', r.receiveData cap (.withMaxSize maxSize) = .done c r' →
      ∃ p, EndsAt r.bytes p ∧ p ++ r'.bytes = r.bytes ∧
        c.body = canonicalBody (splitInclusive lf p).dropLast ∧ c.sizeExceeded = false) ∧
    (∀ lines, ((InboundCollector.withMaxSize maxSize).pushLines lines).2.body.length ≤ maxSize) ∧
    ∀ lines more, ((InboundCollector.withMaxSize maxSize).pushLines lines).2.sizeExceeded = true →
      ((InboundCollector.withMaxSize maxSize).pushLines (lines ++ more)).2.sizeExceeded = true := by
  have hstart := reading_start maxSize r
  have hstops : ∀ c r', r.receiveData cap (.withMaxSize maxSize) = .done c r' →
      ∃ p, EndsAt r.bytes p ∧ p ++ r'.bytes = r.bytes ∧
        c.body = canonicalBody (splitInclusive lf p).dropLast ∧ c.sizeExceeded = false := by
    intro c r' hdone
    have hrun : Server.receiveData cap (r.bytes.length + 1) (.withMaxSize maxSize) r =
        some (.done c r') := by
      rw [← hdone, Reader.receiveData, Option.some_get]
    exact hstart.of_done hrun
  refine ⟨?_, hstops, ?_, ?_⟩
  · intro p hp hcap hfit
    rcases endsData_lines hp.ends with ⟨pre, hpre, hflat, hlines⟩
    rw [hlines, List.dropLast_concat] at hfit
    rw [hlines] at hcap
    rcases hp.isPrefix with ⟨rest, hrest⟩
    have hs : r.bytes = pre.flatten ++ (endLine ++ rest) := by
      rw [← hrest, hflat, List.append_assoc]
    rcases hstart.done hpre hs (by simpa [← hflat] using hp) hcap hfit
      (Nat.lt_succ_self _) with ⟨c, r', hdone⟩
    have hresult := Reader.receiveData_eq hdone
    rcases hstops c r' hresult with ⟨p', hp', hcut, hbody, -⟩
    -- the shortest piece is unique
    have hsame : p' = p := by
      have hle := hp'.shortest p hp.isPrefix hp.ends
      have hge := hp.shortest p' hp'.isPrefix hp'.ends
      exact (List.prefix_of_prefix_length_le hp'.isPrefix hp.isPrefix hle).eq_of_length (by omega)
    rw [hsame] at hcut hbody
    refine ⟨c, r', hresult, hcut, hbody, ?_⟩
    rw [hbody]
    apply CrlfLines.noBareLf
    apply crlfLines_canonicalBody
    intro l hl
    exact isLine_of_mem_splitInclusive (List.dropLast_subset _ hl)
  · intro lines
    have hbound := ((InboundCollector.withMaxSize maxSize).pushLines lines).2.bounded
    rw [InboundCollector.maxSize_pushLines] at hbound
    exact hbound
  · intro lines more hflag
    rw [InboundCollector.pushLines_append]
    exact InboundCollector.sizeExceeded_pushLines more hflag

-- a dot line behind a bare LF is content
def smuggled : Reader := ⟨[ascii "h", ascii "i\n.\r\nx\r\n.", ascii "\r\nQUIT\r\n"], by decide⟩

theorem data_ends_at_crlf_dot_crlf_smuggled :
    ∃ c r', smuggled.receiveData 64 (.withMaxSize 64) = .done c r' ∧
      c.body = ascii "hi\r\n\r\nx\r\n" := by
  have hends : EndsAt smuggled.bytes (ascii "hi\n.\r\nx\r\n.\r\n") := by
    refine ⟨by decide, by decide, fun q hq => ?_⟩
    have hall : ∀ q ∈ smuggled.bytes.inits, EndsData q →
        (ascii "hi\n.\r\nx\r\n.\r\n").length ≤ q.length := by decide
    exact hall q ((List.mem_inits _ _).mpr hq)
  rcases (data_ends_at_crlf_dot_crlf 64 64 smuggled).1 _ hends (by decide) (by decide) with
    ⟨c, r', hdone, -, hbody, -⟩
  exact ⟨c, r', hdone, hbody⟩

end Snail.Server
