import Snail.Network.Dkim.Fields

/-!
# Composed — messages the server writes itself

Reports and notices are written field by field, each on a line of its own, and then read as a
message.  As long as no value brings a line break with it, what is read is what was written.
-/

open Snail.Reasoning Snail.Mail Snail.Network

namespace Snail.Server

/-! ## 1. Fields on lines -/

-- `push_line`, and `push` of the notices
def pushLine (line : Str) : Bytes := encodeUtf8 line ++ crlf

def fieldLine (field : Str × Str) : Str := field.1 ++ ": ".toList ++ field.2

/-- A header section, the blank line and a body. -/
def composed (fields : List (Str × Str)) (body : Bytes) : Bytes :=
  (fields.map fieldLine).flatMap pushLine ++ pushLine [] ++ body

-- neither a colon nor white space
def IsFieldName (name : Str) : Prop :=
  name ≠ [] ∧ (name.all fun c => c != ':' && !isWhitespace c) = true

instance (name : Str) : Decidable (IsFieldName name) := inferInstanceAs (Decidable (_ ∧ _))

section
variable {name : Str}

theorem IsFieldName.of_mem (h : IsFieldName name) {c : Char} (hc : c ∈ name) :
    c ≠ ':' ∧ isWhitespace c = false := by
  have hall := List.all_eq_true.mp h.2 c hc
  simpa using hall

theorem IsFieldName.colon_not_mem (h : IsFieldName name) : ':' ∉ name :=
  fun hmem => (h.of_mem hmem).1 rfl

theorem IsFieldName.newline_not_mem (h : IsFieldName name) : '\n' ∉ name := by
  intro hmem
  cases (h.of_mem hmem).2

theorem IsFieldName.trim_eq (h : IsFieldName name) : trim name = name :=
  trim_eq_self (fun _ hc => (h.of_mem (List.mem_of_head? hc)).2)
    fun _ hc => (h.of_mem (List.mem_of_getLast? hc)).2

-- a line that opens a field is not folded onto the one before
theorem IsFieldName.not_isContinuation (h : IsFieldName name) (rest : Str) :
    isContinuation (name ++ rest) = false := by
  cases name with
  | nil => exact absurd rfl h.1
  | cons c name =>
    have hc := (h.of_mem List.mem_cons_self).2
    rw [isContinuation, List.cons_append, List.head?_cons, Bool.or_eq_false_iff]
    refine ⟨beq_false_of_ne fun hsp => ?_, beq_false_of_ne fun htab => ?_⟩
    · rw [Option.some.inj hsp] at hc
      cases hc
    · rw [Option.some.inj htab] at hc
      cases hc

end

theorem trim_cons_space (v : Str) : trim (' ' :: v) = trim v := rfl

theorem stripReturn_fieldLine (field : Str × Str) : ∃ value,
    stripReturn (fieldLine field) = fieldLine (field.1, value) ∧ trim value = trim field.2 := by
  unfold stripReturn
  cases h : ['\r'].isSuffixOf? (fieldLine field) with
  | none => exact ⟨field.2, rfl, rfl⟩
  | some line =>
    rw [List.isSuffixOf?_eq_some_iff_append_eq] at h
    cases hv : field.2 using List.reverseRecOn with
    | nil =>
      have hlast := congrArg List.getLast? h
      simp [fieldLine, hv] at hlast
    | append_singleton value c _ =>
      have heq : line ++ ['\r'] = fieldLine (field.1, value) ++ [c] := by
        rw [h, fieldLine, hv]
        simp [fieldLine]
      obtain ⟨hline, hc⟩ := List.append_inj' heq rfl
      cases hc
      exact ⟨value, hline, (trim_concat value (by decide)).symm⟩

/-! ## 2. The fields that are read -/

theorem parseHeaderLines_field {rawLine name value : Str} (hname : IsFieldName name)
    (hline : stripReturn rawLine = fieldLine (name, value)) (rest : List Str)
    (entries : List (Str × Str)) (current : Option (Str × Str)) :
    parseHeaderLines (rawLine :: rest) entries current =
      parseHeaderLines rest (entries ++ current.toList) (some (name, trim value)) := by
  have htext : fieldLine (name, value) = name ++ ':' :: ' ' :: value := by simp [fieldLine]
  have hne : name ++ ':' :: ' ' :: value ≠ [] := by simp
  rw [parseHeaderLines_cons, hline, htext, if_neg hne,
    if_neg (Bool.eq_false_iff.mp (hname.not_isContinuation _)),
    splitOnce_append_cons hname.colon_not_mem]
  dsimp only
  rw [hname.trim_eq, trim_cons_space]

-- by induction on the fields; only the last line has no return at its end
theorem parseHeaderLines_written {fields : List (Str × Str)} (hne : fields ≠ [])
    (h : ∀ f ∈ fields, IsFieldName f.1 ∧ '\n' ∉ f.2) (entries : List (Str × Str))
    (current : Option (Str × Str)) :
    parseHeaderLines ((List.intercalate "\r\n".toList (fields.map fieldLine)).splitOn '\n') entries
      current = .ok (entries ++ current.toList ++ fields.map fun f => (f.1, trim f.2)) := by
  have hline : ∀ f ∈ fields, '\n' ∉ fieldLine f := by
    intro f hf
    have hname := (h f hf).1.newline_not_mem
    simp [fieldLine, hname, (h f hf).2]
  induction fields generalizing entries current with
  | nil => exact absurd rfl hne
  | cons f fields ih =>
    have hf := h f List.mem_cons_self
    have hfline := hline f List.mem_cons_self
    cases fields with
    | nil =>
      obtain ⟨value, hstrip, htrim⟩ := stripReturn_fieldLine f
      rw [List.map_singleton, List.intercalate_singleton, List.splitOn_eq_singleton hfline,
        parseHeaderLines_field hf.1 hstrip, htrim]
      rfl
    | cons g fields =>
      have hreturn : '\n' ∉ fieldLine f ++ ['\r'] := by
        rw [List.mem_append, not_or]
        exact ⟨hfline, by decide⟩
      have htext : List.intercalate "\r\n".toList ((f :: g :: fields).map fieldLine) =
          (fieldLine f ++ ['\r']) ++
            '\n' :: List.intercalate "\r\n".toList ((g :: fields).map fieldLine) := by
        rw [List.map_cons, List.map_cons, List.intercalate_cons_cons]
        simp
      rw [htext, List.splitOn_append_cons_self_of_not_mem hreturn,
        parseHeaderLines_field hf.1 (stripReturn_concat _),
        ih (by simp) (fun f' hf' => h f' (List.mem_cons_of_mem _ hf')) _ _
          fun f' hf' => hline f' (List.mem_cons_of_mem _ hf')]
      simp

theorem parseHeaders_written {fields : List (Str × Str)} (hne : fields ≠ [])
    (h : ∀ f ∈ fields, IsFieldName f.1 ∧ '\n' ∉ f.2) :
    parseHeaders (List.intercalate "\r\n".toList (fields.map fieldLine)) =
      .ok ⟨fields.map fun f => (f.1, trim f.2)⟩ := by
  rw [parseHeaders, parseHeaderLines_written hne h]
  rfl

theorem flatMap_pushLine {lines : List Str} (hne : lines ≠ []) :
    lines.flatMap pushLine = encodeUtf8 (List.intercalate "\r\n".toList lines) ++ crlf := by
  induction lines with
  | nil => exact absurd rfl hne
  | cons line lines ih =>
    cases lines with
    | nil => simp [pushLine]
    | cons next lines =>
      rw [List.flatMap_cons, ih (by simp), List.intercalate_cons_cons, pushLine]
      simp [encodeUtf8, crlf, cr, lf, String.utf8EncodeChar]

-- a written line has something on it, and it is one line
theorem encoded_fieldLine {f : Str × Str} (hname : IsFieldName f.1) (hvalue : '\n' ∉ f.2) :
    lf ∉ encodeUtf8 (fieldLine f) ∧ ∃ a rest, encodeUtf8 (fieldLine f) = a :: rest ∧ a ≠ cr := by
  refine ⟨fun hlf => ?_, ?_⟩
  · have hchar : '\n' ∈ fieldLine f := ofNat_mem_of_mem_encodeUtf8 (by decide) hlf
    have hcolon : '\n' ∉ ": ".toList := by decide
    simp only [fieldLine, List.mem_append, hname.newline_not_mem, hcolon, hvalue, or_self] at hchar
  · obtain ⟨c, name, hc⟩ := List.exists_cons_of_ne_nil hname.1
    obtain ⟨a, rest, ha⟩ := List.exists_cons_of_ne_nil (String.utf8EncodeChar_ne_nil (c := c))
    refine ⟨a, rest ++ encodeUtf8 (name ++ ": ".toList ++ f.2), ?_, ?_⟩
    · rw [fieldLine, hc]
      simp [encodeUtf8, ha]
    · rintro rfl
      have hcr : c = '\r' := eq_of_mem_utf8EncodeChar (b := cr) (by decide) (by simp [ha])
      have hspace := (hname.of_mem (c := c) (by simp [hc])).2
      rw [hcr] at hspace
      cases hspace

/-- What is composed of unbroken fields is read as these fields. -/
theorem parse_composed {fields : List (Str × Str)} (hne : fields ≠ [])
    (h : ∀ f ∈ fields, IsFieldName f.1 ∧ '\n' ∉ f.2) (env : Envelope) (body : Bytes) :
    ∃ m, Message.parse env (composed fields body) = .ok m ∧
      (m.headers.entries = fields.map fun f => (f.1, trim f.2)) ∧ m.body = body := by
  have hlines : fields.map fieldLine ≠ [] := by simpa using hne
  have htext := flatMap_pushLine hlines
  have hblank : ¬ crlf ++ crlf <:+:
      encodeUtf8 (List.intercalate "\r\n".toList (fields.map fieldLine)) ++ crlf := by
    rw [← htext, show (fields.map fieldLine).flatMap pushLine =
      (fields.map fun f => encodeUtf8 (fieldLine f)).flatMap (· ++ crlf) by
        rw [List.flatMap_map, List.flatMap_map]; rfl]
    refine not_blank_of_lines fun b hb => ?_
    obtain ⟨f, hf, rfl⟩ := List.mem_map.mp hb
    exact encoded_fieldLine (h f hf).1 (h f hf).2
  have hfind := findSub_append (by decide) (findSub_of_no_blank hblank) body
  have hraw : composed fields body = encodeUtf8
      (List.intercalate "\r\n".toList (fields.map fieldLine)) ++ crlf ++ crlf ++ body := by
    rw [composed, htext]
    rfl
  rw [← hraw] at hfind
  have hhead : (composed fields body).take
      (encodeUtf8 (List.intercalate "\r\n".toList (fields.map fieldLine))).length =
      encodeUtf8 (List.intercalate "\r\n".toList (fields.map fieldLine)) := by
    rw [hraw, List.append_assoc, List.append_assoc, List.take_left]
  have hbody : (composed fields body).drop
      ((encodeUtf8 (List.intercalate "\r\n".toList (fields.map fieldLine))).length + 4) = body := by
    rw [hraw]
    exact List.drop_left' (by simp [crlf])
  unfold Message.parse splitHeaderBody
  rw [hfind]
  dsimp only
  rw [hhead, decodeLossy_encodeUtf8, parseHeaders_written hne h]
  exact ⟨_, rfl, rfl, hbody⟩

/-! ## 3. No line break is read -/

theorem newline_not_mem_stripReturn {line : Str} (h : '\n' ∉ line) : '\n' ∉ stripReturn line := by
  unfold stripReturn
  cases hr : ['\r'].isSuffixOf? line with
  | none => exact h
  | some rest =>
    rw [List.isSuffixOf?_eq_some_iff_append_eq] at hr
    rw [← hr] at h
    exact fun hmem => h (List.mem_append_left _ hmem)

theorem newline_not_mem_parseHeaderLines {ls : List Str} (hls : ∀ l ∈ ls, '\n' ∉ l)
    {entries es : List (Str × Str)} {current : Option (Str × Str)}
    (hentries : ∀ e ∈ entries ++ current.toList, '\n' ∉ e.2)
    (h : parseHeaderLines ls entries current = .ok es) : ∀ e ∈ es, '\n' ∉ e.2 := by
  induction ls generalizing entries current with
  | nil =>
    cases h
    exact hentries
  | cons rawLine rest ih =>
    have hrest : ∀ l ∈ rest, '\n' ∉ l := fun l hl => hls l (List.mem_cons_of_mem _ hl)
    have hline := newline_not_mem_stripReturn (hls rawLine List.mem_cons_self)
    rw [parseHeaderLines_cons] at h
    split at h
    · exact ih hrest hentries h
    split at h
    · cases current with
      | none => cases h
      | some nv =>
        refine ih hrest ?_ h
        intro e he
        obtain he | he := List.mem_append.mp he
        · exact hentries e (List.mem_append_left _ he)
        · cases List.mem_singleton.mp he
          have hvalue := hentries nv (by simp)
          have htrim : '\n' ∉ trim (stripReturn rawLine) := fun hm => hline (mem_of_mem_trim hm)
          simp [hvalue, htrim]
    · cases hcut : splitOnce ':' (stripReturn rawLine) with
      | none =>
        rw [hcut] at h
        cases h
      | some nv =>
        rw [hcut] at h
        refine ih hrest ?_ h
        intro e he
        obtain he | he := List.mem_append.mp he
        · exact hentries e he
        · cases List.mem_singleton.mp he
          intro hm
          rw [(splitOnce_eq_some_iff.mp hcut).1] at hline
          exact hline (List.mem_append_right _ (List.mem_cons_of_mem _ (mem_of_mem_trim hm)))

/-- The values of a message's headers are single lines. -/
theorem newline_not_mem_headers {env : Envelope} {raw : Bytes} {m : Message}
    (h : Message.parse env raw = .ok m) : ∀ e ∈ m.headers.entries, '\n' ∉ e.2 := by
  obtain ⟨headers, hheaders, rfl⟩ := map_eq_ok_iff.mp h
  obtain ⟨entries, hentries, rfl⟩ := map_eq_ok_iff.mp hheaders
  exact newline_not_mem_parseHeaderLines (fun _ => not_mem_of_mem_splitOn) (by simp) hentries

end Snail.Server
