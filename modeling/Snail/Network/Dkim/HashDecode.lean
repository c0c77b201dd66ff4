import Snail.Network.Dkim.HeaderHash
import Snail.Reasoning.Folding

/-!
# HashDecode — the header hash input read back

The hash input is one run of bytes with no lengths in it.  A signed field begins with its name,
which is not blank, and the line breaks inside a field are folds; so the joining of folded lines
takes the input apart again into the canonical fields it was made of.
-/

open Snail.Reasoning Snail.Mail

namespace Snail.Network

-- the white space that continues a header field
def isBlank (b : UInt8) : Bool := b == space || b == tab

def isBlankChar (c : Char) : Bool := c == ' ' || c == '\t'

abbrev FoldedBytes (s : Bytes) : Prop := Folded cr lf isBlank s

abbrev FoldedText (s : Str) : Prop := Folded '\r' '\n' isBlankChar s

theorem isFolded_eq (line : Bytes) : isFolded line = startsBlank isBlank line := by
  cases line with
  | nil => rfl
  | cons b line => simp [isFolded, startsBlank, isBlank]

/-! ## 1. Folded bytes and folded text -/

theorem startsBlank_decodeLossy (s : Bytes) :
    startsBlank isBlankChar (decodeLossy s) = startsBlank isBlank s := by
  have hspace := head?_decodeLossy_iff (a := space) (by decide) s
  have htab := head?_decodeLossy_iff (a := tab) (by decide) s
  rw [show Char.ofNat space.toNat = ' ' from rfl] at hspace
  rw [show Char.ofNat tab.toNat = '\t' from rfl] at htab
  rw [Bool.eq_iff_iff]
  simp only [startsBlank, isBlankChar, isBlank, Option.any_eq_true, Bool.or_eq_true, beq_iff_eq]
  apply Iff.intro
  · rintro ⟨c, hc, rfl | rfl⟩
    · exact ⟨space, hspace.mp hc, .inl rfl⟩
    · exact ⟨tab, htab.mp hc, .inr rfl⟩
  · rintro ⟨b, hb, rfl | rfl⟩
    · exact ⟨' ', hspace.mpr hb, .inl rfl⟩
    · exact ⟨'\t', htab.mpr hb, .inr rfl⟩

theorem foldedText_decodeLossy_iff (s : Bytes) : FoldedText (decodeLossy s) ↔ FoldedBytes s := by
  have hcr : Char.ofNat cr.toNat = '\r' := rfl
  have hlf : Char.ofNat lf.toNat = '\n' := rfl
  apply Iff.intro
  · intro h u v hs
    rw [← startsBlank_decodeLossy]
    apply h (decodeLossy u)
    rw [hs, decodeLossy_append_ascii (by decide), decodeLossy_cons_ascii (by decide), hcr, hlf]
  · intro h u v hs
    rw [← hcr] at hs
    rcases decodeLossy_eq_append_cons (by decide) hs with ⟨p, q, rfl, -, hq⟩
    -- the line feed comes from the byte right behind the carriage return
    have hq' : decodeLossy q = [] ++ Char.ofNat lf.toNat :: v := hq
    rcases decodeLossy_eq_append_cons (by decide) hq' with ⟨p', q', rfl, hp', rfl⟩
    rw [decodeLossy_eq_nil_iff.mp hp'] at h
    rw [startsBlank_decodeLossy]
    exact h p q' rfl

theorem foldedBytes_encodeUtf8_iff (s : Str) : FoldedBytes (encodeUtf8 s) ↔ FoldedText s := by
  rw [← foldedText_decodeLossy_iff, decodeLossy_encodeUtf8]

theorem foldedText_trim {s : Str} (h : FoldedText s) : FoldedText (trim s) := by
  rcases List.dropWhile_suffix isWhitespace (l := s) with ⟨u, hu⟩
  have hstart : FoldedText (trimStart s) := by
    rw [← hu] at h
    exact h.of_append_left
  rcases trimEnd_isPrefix (trimStart s) with ⟨v, hv⟩
  rw [← hv] at hstart
  apply hstart.of_append_right
  intro hlast
  have hblank := getLast_trim (s := s) hlast
  revert hblank
  decide

theorem isBlankChar_iff {c : Char} : isBlankChar c = true ↔ c = ' ' ∨ c = '\t' := by
  simp [isBlankChar]

theorem isBlankChar_toLower (c : Char) : isBlankChar c.toLower = isBlankChar c := by
  rw [Bool.eq_iff_iff, isBlankChar_iff, isBlankChar_iff]
  apply Iff.intro
  · rintro (h | h)
    · exact .inl (eq_of_toLower_eq (by decide) h)
    · exact .inr (eq_of_toLower_eq (by decide) h)
  · rintro (rfl | rfl)
    · exact .inl (by decide)
    · exact .inr (by decide)

theorem foldedText_toAsciiLowercase {s : Str} (h : FoldedText s) :
    FoldedText (toAsciiLowercase s) := by
  apply h.map
  · intro a ha
    exact eq_of_toLower_eq (by decide) ha
  · intro a ha
    exact eq_of_toLower_eq (by decide) ha
  · intro a ha
    rw [isBlankChar_toLower]
    exact ha

theorem startsBlank_toAsciiLowercase (s : Str) :
    startsBlank isBlankChar (toAsciiLowercase s) = startsBlank isBlankChar s := by
  cases s with
  | nil => rfl
  | cons c s => exact isBlankChar_toLower c

theorem startsBlank_trim (s : Str) : startsBlank isBlankChar (trim s) = false := by
  cases ht : trim s with
  | nil => rfl
  | cons c r =>
    have hwhite : isWhitespace c = false := head_trim (s := s) (by simp [ht])
    change isBlankChar c = false
    rw [← Bool.not_eq_true, isBlankChar_iff]
    rintro (rfl | rfl)
    · exact absurd hwhite (by decide)
    · exact absurd hwhite (by decide)

/-! ## 2. Parsed fields -/

-- a block under construction, with the lines left
theorem foldedBytes_of_mem_joinFolded {lines : List Bytes} (hlines : ∀ l ∈ lines, ¬ crlf <:+: l)
    {current : Option Bytes} (hcurrent : ∀ block ∈ current, FoldedBytes block) {block : Bytes}
    (h : block ∈ joinFolded lines current) : FoldedBytes block := by
  induction lines generalizing current with
  | nil => exact hcurrent block (by simpa [joinFolded] using h)
  | cons line lines ih =>
    have hline := hlines line (by simp)
    have hrest : ∀ l ∈ lines, ¬ crlf <:+: l := fun l hl => hlines l (by simp [hl])
    have hnew : FoldedBytes line := by
      intro u v hs
      exact absurd ⟨u, v, by rw [hs]; simp [crlf]⟩ hline
    cases current with
    | none => exact ih hrest (by simpa using hnew) h
    | some open_ =>
      rw [joinFolded] at h
      split at h
      · rename_i hfold
        apply ih hrest _ h
        intro joined hjoined
        cases hjoined
        rw [isFolded_eq] at hfold
        have happend := (hcurrent open_ rfl).append_line (by decide) hline hfold
        rw [List.append_assoc]
        exact happend
      · rcases List.mem_cons.mp h with rfl | h
        · exact hcurrent block rfl
        · exact ih hrest (by simpa using hnew) h

/-- What `parse_fields` promises of a field: a trimmed name without a colon, and folded texts. -/
structure HeaderField.Parsed (f : HeaderField) : Prop where
  trimmed : trim f.name = f.name
  noColon : ':' ∉ f.name
  name : FoldedText f.name
  value : FoldedBytes f.value

theorem parsed_of_parseField {block : Bytes} (hblock : FoldedBytes block) {f : HeaderField}
    (h : parseField block = some f) : f.Parsed := by
  rcases Option.map_eq_some_iff.mp h with ⟨nv, hsplit, rfl⟩
  rcases splitOnce_eq_some_iff.mp hsplit with ⟨rfl, hcolon⟩
  have hparts := (folded_append_cons_iff (by decide) (by decide) (by decide)).mp hblock
  refine ⟨?_, ?_, ?_, hparts.2⟩
  · exact trim_eq_self (fun c hc => head_trim hc) (fun c hc => getLast_trim hc)
  · intro hmem
    exact hcolon ((ofNat_mem_decodeLossy_iff (a := colon) (by decide) _).mp (mem_of_mem_trim hmem))
  · exact foldedText_trim ((foldedText_decodeLossy_iff _).mpr hparts.1)

theorem parsed_of_mem_parseFields {headers : Bytes} {f : HeaderField}
    (h : f ∈ parseFields headers) : f.Parsed := by
  rcases List.mem_filterMap.mp h with ⟨block, hblock, hf⟩
  have hlines : ∀ l ∈ splitOnPair cr lf headers, ¬ crlf <:+: l :=
    fun l hl => not_infix_of_mem_splitOnPair hl
  exact parsed_of_parseField (foldedBytes_of_mem_joinFolded hlines (by simp) hblock) hf

/-! ## 3. Canonical fields -/

-- name and value of a field in canonical form
def canonicalName (canon : HeaderCanon) (name : Str) : Str :=
  match canon with
  | .simple => name
  | .relaxed => toAsciiLowercase (trim name)

def canonicalValue (canon : HeaderCanon) (value : Bytes) : Bytes :=
  match canon with
  | .simple => value
  | .relaxed => relaxValue value

def canonicalPiece (canon : HeaderCanon) (name : Str) (value : Bytes) : Bytes :=
  encodeUtf8 (canonicalName canon name) ++ colon :: canonicalValue canon value

theorem canonicalizeHeader_eq (name : Str) (value : Bytes) (canon : HeaderCanon)
    (withCrlf : Bool) :
    canonicalizeHeader name value canon withCrlf =
      canonicalPiece canon name value ++ if withCrlf then crlf else [] := by
  have hcolon : ascii ":" = [colon] := rfl
  cases canon with
  | simple => cases withCrlf <;> simp [canonicalizeHeader, canonicalPiece, canonicalName,
      canonicalValue, hcolon]
  | relaxed => cases withCrlf <;> simp [canonicalizeHeader, canonicalPiece, canonicalName,
      canonicalValue, hcolon]

theorem cr_not_mem_relaxValueFrom (value : Bytes) (outEmpty inWsp : Bool) :
    cr ∉ relaxValueFrom outEmpty inWsp value := by
  induction value generalizing outEmpty inWsp with
  | nil => simp [relaxValueFrom]
  | cons b l ih =>
    rw [relaxValueFrom]
    split
    · exact ih _ _
    · split
      · exact ih _ _
      · rename_i hbreak hblank
        intro hmem
        rcases List.mem_append.mp hmem with hmem | hmem
        · split at hmem
          · revert hmem
            decide
          · cases hmem
        · rcases List.mem_cons.mp hmem with hcr | hmem
          · exact hbreak (.inl hcr.symm)
          · exact ih _ _ hmem

theorem foldedBytes_canonicalValue (canon : HeaderCanon) {value : Bytes} (h : FoldedBytes value) :
    FoldedBytes (canonicalValue canon value) := by
  cases canon with
  | simple => exact h
  | relaxed => exact folded_of_not_mem (cr_not_mem_relaxValueFrom value true false)

theorem foldedText_canonicalName (canon : HeaderCanon) {f : HeaderField} (h : f.Parsed) :
    FoldedText (canonicalName canon f.name) := by
  cases canon with
  | simple => exact h.name
  | relaxed =>
    rw [canonicalName, h.trimmed]
    exact foldedText_toAsciiLowercase h.name

theorem colon_not_mem_canonicalName (canon : HeaderCanon) {f : HeaderField} (h : f.Parsed) :
    colon ∉ encodeUtf8 (canonicalName canon f.name) := by
  intro hmem
  have hchar : ':' ∈ canonicalName canon f.name := ofNat_mem_of_mem_encodeUtf8 (by decide) hmem
  cases canon with
  | simple => exact h.noColon hchar
  | relaxed =>
    rw [canonicalName, h.trimmed] at hchar
    rcases List.mem_map.mp hchar with ⟨c, hc, hlower⟩
    rw [eq_of_toLower_eq (by decide) hlower] at hc
    exact h.noColon hc

theorem startsBlank_canonicalName (canon : HeaderCanon) {f : HeaderField} (h : f.Parsed) :
    startsBlank isBlankChar (canonicalName canon f.name) = false := by
  cases canon with
  | simple =>
    rw [canonicalName, ← h.trimmed]
    exact startsBlank_trim f.name
  | relaxed =>
    rw [canonicalName, startsBlank_toAsciiLowercase]
    exact startsBlank_trim f.name

-- a piece of the input: its line breaks are folds, and its start is not one
structure Piece (s : Bytes) : Prop where
  folded : FoldedBytes s
  start : startsBlank isBlank s = false

theorem piece_canonicalPiece (canon : HeaderCanon) {f : HeaderField} (h : f.Parsed)
    {value : Bytes} (hvalue : FoldedBytes value) : Piece (canonicalPiece canon f.name value) := by
  constructor
  · apply (folded_append_cons_iff (by decide) (by decide) (by decide)).mpr
    exact ⟨(foldedBytes_encodeUtf8_iff _).mpr (foldedText_canonicalName canon h),
      foldedBytes_canonicalValue canon hvalue⟩
  · rw [← Bool.not_eq_true]
    intro hblank
    by_cases hname : encodeUtf8 (canonicalName canon f.name) = []
    · rw [canonicalPiece, hname] at hblank
      cases hblank
    · have hstart := startsBlank_of_append hblank hname
      rw [← startsBlank_decodeLossy, decodeLossy_encodeUtf8, startsBlank_canonicalName canon h]
        at hstart
      cases hstart

theorem foldedText_stripBValue {value : Str} (h : FoldedText value) :
    FoldedText (stripBValue value) := by
  have hsegments : ∀ segment ∈ value.splitOn ';', FoldedText segment := by
    have hvalue : [';'].intercalate (value.splitOn ';') = value := List.intercalate_splitOn ';'
    rw [← hvalue] at h
    exact (folded_intercalate_iff (by decide) (by decide) (by decide)
      (List.splitOn_ne_nil ';' value)).mp h
  apply (folded_intercalate_iff (by decide) (by decide) (by decide)
    (by simp)).mpr
  intro piece hpiece
  rcases List.mem_map.mp hpiece with ⟨segment, hsegment, rfl⟩
  have hfolded := hsegments segment hsegment
  split
  · rename_i key rest hsplit
    split
    · rw [(splitOnce_eq_some_iff.mp hsplit).1] at hfolded
      have hkey := (folded_append_cons_iff (by decide) (by decide) (by decide)).mp hfolded
      exact (folded_append_cons_iff (by decide) (by decide) (by decide)).mpr
        ⟨hkey.1, folded_of_not_mem (by simp)⟩
    · exact hfolded
  · exact hfolded

/-! ## 4. Reading the input back -/

theorem joinFolded_append {lines : List Bytes} (h : ∀ l ∈ lines, isFolded l = true)
    (block : Bytes) (more : List Bytes) :
    joinFolded (lines ++ more) (some block) =
      joinFolded more (some (block ++ lines.flatMap (crlf ++ ·))) := by
  induction lines generalizing block with
  | nil => simp
  | cons line lines ih =>
    rw [List.cons_append, joinFolded, if_pos (h line (by simp)),
      ih fun l hl => h l (by simp [hl])]
    simp

theorem head_append_flatMap (first : Bytes) (rest : List Bytes) :
    first ++ rest.flatMap (crlf ++ ·) = crlf.intercalate (first :: rest) := by
  induction rest generalizing first with
  | nil => simp
  | cons line rest ih =>
    rw [List.intercalate_cons_cons, ← ih line]
    simp

-- the lines of a piece, behind its first, all join it
theorem splitOnPair_piece {s : Bytes} (h : Piece s) :
    ∃ first rest, splitOnPair cr lf s = first :: rest ∧ isFolded first = false ∧
      (∀ l ∈ rest, isFolded l = true) ∧ first ++ rest.flatMap (crlf ++ ·) = s := by
  rcases List.exists_cons_of_ne_nil (splitOnPair_ne_nil cr lf s) with ⟨first, rest, hsplit⟩
  have hwhole : first ++ rest.flatMap (crlf ++ ·) = s := by
    rw [head_append_flatMap, ← hsplit, intercalate_splitOnPair]
  refine ⟨first, rest, hsplit, ?_, ?_, hwhole⟩
  · rw [isFolded_eq, ← Bool.not_eq_true]
    intro hblank
    have hs := startsBlank_append hblank (rest.flatMap (crlf ++ ·))
    rw [hwhole, h.start] at hs
    cases hs
  · intro l hl
    have htail := h.folded.startsBlank_of_mem_tail (by decide) l
    rw [hsplit] at htail
    rw [isFolded_eq]
    exact htail hl

theorem joinFolded_piece {s : Bytes} (h : Piece s) (current : Option Bytes) (more : List Bytes) :
    joinFolded (splitOnPair cr lf s ++ more) current =
      current.toList ++ joinFolded more (some s) := by
  rcases splitOnPair_piece h with ⟨first, rest, hsplit, hfirst, hrest, hwhole⟩
  rw [hsplit, List.cons_append]
  cases current with
  | none =>
    rw [joinFolded, joinFolded_append hrest, hwhole]
    rfl
  | some block =>
    rw [joinFolded, if_neg (by simp [hfirst]), joinFolded_append hrest, hwhole]
    rfl

theorem joinFolded_pieces {pieces : List Bytes} (h : ∀ s ∈ pieces, Piece s) {last : Bytes}
    (hlast : Piece last) (current : Option Bytes) :
    joinFolded (splitOnPair cr lf (pieces.flatMap (· ++ crlf) ++ last)) current =
      current.toList ++ (pieces ++ [last]) := by
  induction pieces generalizing current with
  | nil =>
    have hone := joinFolded_piece hlast current []
    rw [List.append_nil] at hone
    exact hone
  | cons s pieces ih =>
    have hassoc : (s :: pieces).flatMap (· ++ crlf) ++ last =
        s ++ cr :: lf :: (pieces.flatMap (· ++ crlf) ++ last) := by simp [crlf]
    rw [hassoc, splitOnPair_append (by decide), joinFolded_piece (h s (by simp)),
      ih (fun t ht => h t (by simp [ht]))]
    rfl

/-! ## 5. What the hash pins -/

theorem ok_of_bind {ε α β : Type} {P : β → Prop} {x : Except ε α} {k : α → Except ε β}
    (hk : ∀ a b, k a = .ok b → P b) : ∀ b, x >>= k = .ok b → P b := by
  intro b h
  cases x with
  | error e => cases h
  | ok a => exact hk a b h

-- the one field of a parsed signature that the header hash takes from the raw value
theorem bStrippedValue_of_parse {crypto : Crypto} {rawValue : Bytes} :
    ∀ sig, DkimSignature.parse crypto rawValue = .ok sig →
      sig.bStrippedValue = encodeUtf8 (stripBValue (decodeLossy rawValue)) := by
  unfold DkimSignature.parse
  extract_lets text tags rest
  have hrest : ∀ (u : Unit) sig, rest u = .ok sig →
      sig.bStrippedValue = encodeUtf8 (stripBValue text) := by
    intro u
    iterate 9 (apply ok_of_bind; intro _)
    extract_lets signedHeaders tail
    have htail : ∀ (u : Unit) sig, tail u = .ok sig →
        sig.bStrippedValue = encodeUtf8 (stripBValue text) := by
      intro u
      iterate 2 (apply ok_of_bind; intro _)
      intro sig h
      cases h
      rfl
    split
    · exact ok_of_bind htail
    · exact htail ()
  split
  · split
    · exact ok_of_bind hrest
    · exact hrest ()
  · exact hrest ()

/-- The field `current` at place `idx` of a message is a DKIM signature that parses to `sig`. -/
structure Carries (crypto : Crypto) (raw : Bytes) (idx : Nat) (current : HeaderField)
    (sig : DkimSignature) : Prop where
  located : (parseFields (splitMessage raw).1)[idx]? = some current
  named : eqIgnoreAsciiCase current.name "DKIM-Signature".toList = true
  parsed : DkimSignature.parse crypto current.value = .ok sig

-- names and values of the selected fields in canonical form, in signing order
def canonicalFields (canon : HeaderCanon) (selected : List (HeaderField × Nat)) :
    List (Str × Bytes) :=
  selected.map fun fi => (canonicalName canon fi.1.name, canonicalValue canon fi.1.value)

def pieces (canon : HeaderCanon) (selected : List (HeaderField × Nat)) : List Bytes :=
  selected.map fun fi => canonicalPiece canon fi.1.name fi.1.value

section
variable {crypto : Crypto} {raw raw₁ raw₂ : Bytes} {idx idx₁ idx₂ : Nat}
  {current current₁ current₂ : HeaderField} {sig : DkimSignature}

theorem mem_of_mem_selectFields {fields : List HeaderField} {names : List Str}
    {fi : HeaderField × Nat} (h : fi ∈ selectFields fields idx names []) : fi.1 ∈ fields := by
  rw [selectFields_eq_mentioned] at h
  rcases List.mem_filterMap.mp h with ⟨i, -, hi⟩
  rcases Option.bind_eq_some_iff.mp hi with ⟨name, -, hget⟩
  have hmem := List.mem_reverse.mp (List.mem_of_getElem? hget)
  exact List.mem_of_getElem? (mem_candidates.mp hmem).1

theorem headerHashInput_eq_pieces (fields : List HeaderField) (current : HeaderField)
    (sig : DkimSignature) :
    headerHashInput fields idx current sig =
      (pieces sig.headerCanon (selectFields fields idx sig.signedHeaders [])).flatMap (· ++ crlf) ++
        canonicalPiece sig.headerCanon current.name sig.bStrippedValue := by
  unfold headerHashInput pieces
  rw [canonicalizeHeader_eq, List.flatMap_map]
  simp only [canonicalizeHeader_eq, if_true, Bool.false_eq_true, if_false, List.append_nil]

-- the input taken apart: the pieces of the selected fields, and that of the signature
theorem Carries.joinFolded_headerHashInput (h : Carries crypto raw idx current sig) :
    joinFolded (splitOnPair cr lf
        (headerHashInput (parseFields (splitMessage raw).1) idx current sig)) none =
      pieces sig.headerCanon (selectFields (parseFields (splitMessage raw).1) idx
        sig.signedHeaders []) ++
        [canonicalPiece sig.headerCanon current.name sig.bStrippedValue] := by
  have hcurrent : current.Parsed := parsed_of_mem_parseFields (List.mem_of_getElem? h.located)
  have hstripped : FoldedBytes sig.bStrippedValue := by
    rw [bStrippedValue_of_parse sig h.parsed, foldedBytes_encodeUtf8_iff]
    apply foldedText_stripBValue
    rw [foldedText_decodeLossy_iff]
    exact hcurrent.value
  have hpieces : ∀ s ∈ pieces sig.headerCanon (selectFields (parseFields (splitMessage raw).1) idx
      sig.signedHeaders []), Piece s := by
    intro s hs
    rcases List.mem_map.mp hs with ⟨fi, hfi, rfl⟩
    have hfield := parsed_of_mem_parseFields (mem_of_mem_selectFields hfi)
    exact piece_canonicalPiece sig.headerCanon hfield hfield.value
  rw [headerHashInput_eq_pieces]
  exact joinFolded_pieces hpieces (piece_canonicalPiece sig.headerCanon hcurrent hstripped) none

-- a piece is cut at its first colon
theorem canonicalFields_eq (canon : HeaderCanon) {selected : List (HeaderField × Nat)}
    (h : ∀ fi ∈ selected, fi.1.Parsed) :
    canonicalFields canon selected = (pieces canon selected).map fun s =>
      ((splitOnce colon s).map fun nv => (decodeLossy nv.1, nv.2)).getD ([], []) := by
  unfold canonicalFields pieces
  rw [List.map_map]
  apply List.map_congr_left
  intro fi hfi
  have hcolon := colon_not_mem_canonicalName canon (h fi hfi)
  simp only [Function.comp_apply, canonicalPiece, splitOnce_append_cons hcolon, Option.map_some,
    Option.getD_some, decodeLossy_encodeUtf8]

theorem canonicalFields_eq_of_headerHashInput_eq (h₁ : Carries crypto raw₁ idx₁ current₁ sig)
    (h₂ : Carries crypto raw₂ idx₂ current₂ sig)
    (heq : headerHashInput (parseFields (splitMessage raw₁).1) idx₁ current₁ sig =
      headerHashInput (parseFields (splitMessage raw₂).1) idx₂ current₂ sig) :
    canonicalFields sig.headerCanon
        (selectFields (parseFields (splitMessage raw₁).1) idx₁ sig.signedHeaders []) =
      canonicalFields sig.headerCanon
        (selectFields (parseFields (splitMessage raw₂).1) idx₂ sig.signedHeaders []) := by
  have hread := h₁.joinFolded_headerHashInput
  rw [heq, h₂.joinFolded_headerHashInput] at hread
  have hpieces := (List.append_inj' hread rfl).1
  have hparsed : ∀ (raw : Bytes) (idx : Nat),
      ∀ fi ∈ selectFields (parseFields (splitMessage raw).1) idx sig.signedHeaders [],
        fi.1.Parsed :=
    fun _ _ _ hfi => parsed_of_mem_parseFields (mem_of_mem_selectFields hfi)
  rw [canonicalFields_eq _ (hparsed raw₁ idx₁), canonicalFields_eq _ (hparsed raw₂ idx₂), hpieces]

/-- The header hash pins the signed headers.  Two messages that carry one signature and give the
same hash input agree on the selected fields in canonical form, one by one and in order; and where
SHA-256 does not collide on the two inputs, different fields have different hashes. -/
theorem header_hash_pins_signed_fields (h₁ : Carries crypto raw₁ idx₁ current₁ sig)
    (h₂ : Carries crypto raw₂ idx₂ current₂ sig) :
    let fields₁ := parseFields (splitMessage raw₁).1
    let fields₂ := parseFields (splitMessage raw₂).1
    let signed₁ := canonicalFields sig.headerCanon
      (selectFields fields₁ idx₁ sig.signedHeaders [])
    let signed₂ := canonicalFields sig.headerCanon
      (selectFields fields₂ idx₂ sig.signedHeaders [])
    let input₁ := headerHashInput fields₁ idx₁ current₁ sig
    let input₂ := headerHashInput fields₂ idx₂ current₂ sig
    (input₁ = input₂ → signed₁ = signed₂) ∧
      ((crypto.sha256 input₁ = crypto.sha256 input₂ → input₁ = input₂) → signed₁ ≠ signed₂ →
        computeHeaderHash crypto fields₁ idx₁ current₁ sig ≠
          computeHeaderHash crypto fields₂ idx₂ current₂ sig) := by
  intro fields₁ fields₂ signed₁ signed₂ input₁ input₂
  have hpins : input₁ = input₂ → signed₁ = signed₂ :=
    canonicalFields_eq_of_headerHashInput_eq h₁ h₂
  apply And.intro hpins
  intro hcollide hdiffer hhash
  rw [computeHeaderHash_eq, computeHeaderHash_eq] at hhash
  exact hdiffer (hpins (hcollide hhash))

end

-- a decoder that knows one text; nothing is hashed or verified below
def oneTextCrypto : Crypto where
  sha256 := id
  base64Decode text := if text = ascii "AAAA" then .ok [0, 0, 0] else .error []
  RsaPublicKey := Unit
  rsaFromPublicKeyDer _ := none
  rsaFromPkcs1Der _ := none
  rsaVerify _ _ _ := false
  Ed25519Key := Unit
  ed25519FromBytes _ := none
  ed25519Verify _ _ _ := false

def oversignedValue : Bytes :=
  ascii " v=1; a=ed25519-sha256; c=relaxed/simple; d=x; s=k;\r\n h=From:From; bh=AAAA; b=AAAA"

def oversignedField : HeaderField := ⟨"DKIM-Signature".toList, oversignedValue⟩

def oversignedSig : DkimSignature where
  algorithm := .ed25519Sha256
  signature := [0, 0, 0]
  bodyHash := [0, 0, 0]
  headerCanon := .relaxed
  bodyCanon := .simple
  domain := "x".toList
  selector := "k".toList
  signedHeaders := ["from".toList, "from".toList]
  bodyLength := none
  expiration := none
  bStrippedValue :=
    ascii " v=1; a=ed25519-sha256; c=relaxed/simple; d=x; s=k;\r\n h=From:From; bh=AAAA; b="

def oversignedRaw : Bytes :=
  ascii "DKIM-Signature:" ++ oversignedValue ++ ascii "\r\nFrom: a@x\r\n\r\n"

-- the author field refolded, and an unsigned field between
def refoldedRaw : Bytes :=
  ascii "From:\r\n  a@x\r\nX: y\r\nDKIM-Signature:" ++ oversignedValue ++ crlf

theorem eval_oversigned :
    parseFields (splitMessage oversignedRaw).1 =
        [oversignedField, ⟨"From".toList, ascii " a@x"⟩] ∧
      parseFields (splitMessage refoldedRaw).1 =
        [⟨"From".toList, ascii "\r\n  a@x"⟩, ⟨"X".toList, ascii " y"⟩, oversignedField] ∧
      DkimSignature.parse oneTextCrypto oversignedValue = .ok oversignedSig ∧
      headerHashInput [oversignedField, ⟨"From".toList, ascii " a@x"⟩] 0 oversignedField
          oversignedSig =
        headerHashInput [⟨"From".toList, ascii "\r\n  a@x"⟩, ⟨"X".toList, ascii " y"⟩,
          oversignedField] 2 oversignedField oversignedSig := by
  decide +kernel

theorem header_hash_pins_signed_fields_refolded :
    Carries oneTextCrypto oversignedRaw 0 oversignedField oversignedSig ∧
      Carries oneTextCrypto refoldedRaw 2 oversignedField oversignedSig ∧
      canonicalFields .relaxed (selectFields (parseFields (splitMessage oversignedRaw).1) 0
          ["from".toList, "from".toList] []) =
        canonicalFields .relaxed (selectFields (parseFields (splitMessage refoldedRaw).1) 2
          ["from".toList, "from".toList] []) := by
  rcases eval_oversigned with ⟨hfields₁, hfields₂, hparse, hinput⟩
  have h₁ : Carries oneTextCrypto oversignedRaw 0 oversignedField oversignedSig :=
    ⟨by rw [hfields₁]; rfl, by decide, hparse⟩
  have h₂ : Carries oneTextCrypto refoldedRaw 2 oversignedField oversignedSig :=
    ⟨by rw [hfields₂]; rfl, by decide, hparse⟩
  exact ⟨h₁, h₂,
    (header_hash_pins_signed_fields h₁ h₂).1 (by rw [hfields₁, hfields₂]; exact hinput)⟩

end Snail.Network
