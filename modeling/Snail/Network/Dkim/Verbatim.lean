import Snail.Network.Dkim.Fields

/-!
# Verbatim — the simple form of a header field against its bytes

`parse_fields` cuts the header section into blocks, decodes and trims the name of each; the `simple`
form glues name and value together again.
-/

open Snail.Reasoning

namespace Snail.Network

/-! ## 1. Blocks -/

-- the lines of the header section, folded lines joined
def fieldBlocks (headers : Bytes) : List Bytes := joinFolded (splitOnPair cr lf headers) none

theorem joinFolded_ne_nil (lines : List Bytes) (block : Bytes) :
    joinFolded lines (some block) ≠ [] := by
  induction lines generalizing block with
  | nil => simp [joinFolded]
  | cons line lines ih =>
    rw [joinFolded]
    split
    · exact ih _
    · simp

theorem intercalate_joinFolded (lines : List Bytes) (block : Bytes) :
    crlf.intercalate (joinFolded lines (some block)) = crlf.intercalate (block :: lines) := by
  induction lines generalizing block with
  | nil => rfl
  | cons line lines ih =>
    rw [joinFolded]
    split
    · rw [ih, intercalate_cons, intercalate_cons, List.flatMap_cons]
      simp
    · obtain ⟨next, more, hnext⟩ := List.exists_cons_of_ne_nil (joinFolded_ne_nil lines line)
      rw [hnext, List.intercalate_cons_cons, ← hnext, ih, List.intercalate_cons_cons]

/-- The blocks are the header section: nothing is lost between them but their CRLFs. -/
theorem intercalate_fieldBlocks (headers : Bytes) :
    crlf.intercalate (fieldBlocks headers) = headers := by
  obtain ⟨line, lines, hlines⟩ := List.exists_cons_of_ne_nil (splitOnPair_ne_nil cr lf headers)
  unfold fieldBlocks
  rw [hlines, joinFolded, intercalate_joinFolded, ← hlines]
  exact intercalate_splitOnPair headers

-- what stands behind the header section begins with a CRLF if there is a blank line
theorem exists_splitMessage (raw : Bytes) :
    ∃ rest, raw = (splitMessage raw).1 ++ rest ∧ (crlf <+: rest ↔ crlf ++ crlf <:+: raw) := by
  unfold splitMessage
  cases hfind : findSub (crlf ++ crlf) raw with
  | none =>
    have hnone := (findSub_eq_none_iff (by decide)).mp hfind
    refine ⟨[], by simp, ?_⟩
    rw [iff_false_right hnone]
    decide
  | some p =>
    obtain ⟨⟨u, v, rfl, rfl⟩, -⟩ := findSub_spec hfind
    refine ⟨crlf ++ crlf ++ v, by simp, ?_⟩
    rw [iff_true_left ⟨crlf ++ v, by simp⟩]
    exact ⟨u, v, by simp⟩

/-- Where a field stands: the blocks in front of its own and those behind. -/
structure FieldAt (raw : Bytes) (f : HeaderField) where
  before : List Bytes
  block : Bytes
  after : List Bytes
  blocks : fieldBlocks (splitMessage raw).1 = before ++ block :: after
  parsed : parseField block = some f

-- the bytes of the message in front of the field
def FieldAt.start {raw : Bytes} {f : HeaderField} (place : FieldAt raw f) : Bytes :=
  place.before.flatMap (· ++ crlf)

-- the bytes in front of the colon
def FieldAt.nameBytes {raw : Bytes} {f : HeaderField} (place : FieldAt raw f) : Bytes :=
  place.block.takeWhile (· ≠ colon)

theorem exists_fieldAt {raw : Bytes} {f : HeaderField}
    (h : f ∈ parseFields (splitMessage raw).1) : Nonempty (FieldAt raw f) := by
  obtain ⟨block, hblock, hparsed⟩ := List.mem_filterMap.mp h
  obtain ⟨before, after, hblocks⟩ := List.append_of_mem hblock
  exact ⟨⟨before, block, after, hblocks, hparsed⟩⟩

section
variable {raw : Bytes} {f : HeaderField}

theorem FieldAt.block_eq (place : FieldAt raw f) :
    place.block = place.nameBytes ++ colon :: f.value ∧ colon ∉ place.nameBytes ∧
      f.name = trim (decodeLossy place.nameBytes) := by
  obtain ⟨p, hp, hf⟩ := Option.map_eq_some_iff.mp place.parsed
  obtain ⟨hblock, hcolon⟩ := splitOnce_eq_some_iff.mp hp
  have hname : place.nameBytes = p.1 := by
    unfold FieldAt.nameBytes
    rw [hblock, List.takeWhile_append_of_pos]
    · simp
    · intro b hb
      have hne : b ≠ colon := fun h => hcolon (by rw [← h]; exact hb)
      simpa using hne
  subst hf
  rw [hname]
  exact ⟨hblock, hcolon, rfl⟩

/-- The message around a field; a CRLF follows it unless the message ends there. -/
theorem FieldAt.exists_tail (place : FieldAt raw f) :
    ∃ tail, raw = place.start ++ (place.block ++ tail) ∧
      (crlf <+: tail ↔ place.after ≠ [] ∨ crlf ++ crlf <:+: raw) := by
  obtain ⟨rest, hraw, hrest⟩ := exists_splitMessage raw
  have hhead := intercalate_fieldBlocks (splitMessage raw).1
  rw [place.blocks, intercalate_append_cons] at hhead
  refine ⟨place.after.flatMap (crlf ++ ·) ++ rest, ?_, ?_⟩
  · conv_lhs => rw [hraw, ← hhead]
    simp [FieldAt.start]
  · rw [← hrest]
    cases place.after with
    | nil => simp
    | cons next more =>
      simp

-- decoding, trimming and encoding gives the name back if it is UTF-8 without blanks around it
theorem encodeUtf8_trim_eq_iff {bytes : Bytes} :
    encodeUtf8 (trim (decodeLossy bytes)) = bytes ↔
      ∃ name, decodeUtf8 bytes = some name ∧ trim name = name := by
  apply Iff.intro
  · intro h
    refine ⟨trim (decodeLossy bytes), decodeUtf8_eq_some_iff.mpr h, ?_⟩
    exact trim_eq_self (fun c hc => head_trim hc) fun c hc => getLast_trim hc
  · rintro ⟨name, hname, htrim⟩
    rw [decodeUtf8_eq_some_iff] at hname
    rw [← hname, decodeLossy_encodeUtf8, htrim]

theorem FieldAt.verbatim_iff (place : FieldAt raw f) :
    (∃ rest, raw = place.start ++ (canonicalizeHeader f.name f.value .simple true ++ rest)) ↔
      (∃ name, decodeUtf8 place.nameBytes = some name ∧ trim name = name) ∧
      (place.after ≠ [] ∨ crlf ++ crlf <:+: raw) := by
  obtain ⟨hblock, hcolon, hname⟩ := place.block_eq
  obtain ⟨tail, hraw, htail⟩ := place.exists_tail
  have hfresh : colon ∉ encodeUtf8 f.name := by
    intro h
    have hmem := ofNat_mem_of_mem_encodeUtf8 (by decide) h
    rw [hname] at hmem
    exact hcolon ((ofNat_mem_decodeLossy_iff (by decide) _).mp (mem_of_mem_trim hmem))
  have hsimple : canonicalizeHeader f.name f.value .simple true =
      encodeUtf8 f.name ++ colon :: (f.value ++ crlf) := by
    simp [canonicalizeHeader, ascii, colon]
  rw [← encodeUtf8_trim_eq_iff, ← hname, ← htail, hsimple]
  apply Iff.intro
  · rintro ⟨rest, hrest⟩
    have hcut := List.append_cancel_left (hraw.symm.trans hrest)
    rw [hblock, List.append_assoc, List.append_assoc, List.cons_append, List.cons_append] at hcut
    -- both texts are cut at their first colon
    have hsplit := splitOnce_append_cons (m := f.value ++ tail) hcolon
    rw [hcut, splitOnce_append_cons hfresh, Option.some.injEq, Prod.mk.injEq,
      List.append_assoc, List.append_cancel_left_eq] at hsplit
    exact ⟨hsplit.1, rest, hsplit.2⟩
  · rintro ⟨hkept, rest, hrest⟩
    refine ⟨rest, hraw.trans ?_⟩
    rw [hblock, hkept, ← hrest]
    simp

end

/-! ## 2. The simple form -/

/-- The `simple` form of a field is its bytes in the message, CRLF included, exactly if its name is
UTF-8 with no white space around it and the message goes on behind the field. -/
theorem simple_field_verbatim_iff {raw : Bytes} {f : HeaderField}
    (h : f ∈ parseFields (splitMessage raw).1) :
    Nonempty (FieldAt raw f) ∧ ∀ place : FieldAt raw f,
      (∃ rest, raw = place.start ++ (canonicalizeHeader f.name f.value .simple true ++ rest)) ↔
        (∃ name, decodeUtf8 place.nameBytes = some name ∧ trim name = name) ∧
        (place.after ≠ [] ∨ crlf ++ crlf <:+: raw) :=
  ⟨exists_fieldAt h, fun place => place.verbatim_iff⟩

def foldedTo : HeaderField := ⟨"To".toList, ascii " b@y,\r\n c@z"⟩

def foldedToAt : FieldAt foldedRaw foldedTo where
  before := [ascii "From: a@x"]
  block := ascii "To: b@y,\r\n c@z"
  after := [ascii "From: d@x"]
  blocks := by decide +kernel
  parsed := by decide +kernel

theorem simple_field_verbatim_folded :
    ∃ rest, foldedRaw =
      foldedToAt.start ++ (canonicalizeHeader foldedTo.name foldedTo.value .simple true ++ rest) :=
  ((simple_field_verbatim_iff (by decide +kernel)).2 foldedToAt).mpr
    ⟨⟨"To".toList, by decide +kernel, by decide⟩, .inl (by decide)⟩

/-- A blank in front of the colon is lost. -/
theorem simple_field_altered :
    let raw := ascii "Subject : x\r\n\r\n"
    parseFields (splitMessage raw).1 = [⟨"Subject".toList, ascii " x"⟩] ∧
    canonicalizeHeader "Subject".toList (ascii " x") .simple true = ascii "Subject: x\r\n" ∧
    ¬ ascii "Subject: x\r\n" <:+: raw := by
  decide +kernel

end Snail.Network
