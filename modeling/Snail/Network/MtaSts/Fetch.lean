import Snail.Network.MtaSts.Policy

/-!
# Fetch — reading the response of a policy host

`parse_http_response` of `crates/network/src/mta_sts/fetch.rs`.  The exchange itself enters as the
bytes that were read until the stream ended.
-/

open Snail.Reasoning

namespace Snail.Network.Fetch

/-! ## 1. The response -/

def maxBody : Nat := 64 * 1024

def stsErr {α : Type} (host reason : Str) : Except NetworkError α :=
  .error (.record "MTA-STS".toList ("fetch from ".toList ++ host ++ ": ".toList ++ reason))

-- the second word of the status line, a `u16`
def statusCode (status : Str) : Option Nat :=
  ((splitWhitespace status)[1]?).bind (parseUnsigned (2 ^ 16 - 1))

def checkStatus (host status : Str) : Except NetworkError Unit :=
  let proto := ((splitWhitespace status)[0]?).getD []
  if !eqIgnoreAsciiCase proto "HTTP/1.1".toList && !eqIgnoreAsciiCase proto "HTTP/1.0".toList then
    stsErr host ("unexpected protocol `".toList ++ proto ++ "`".toList)
  else match statusCode status with
    | none => stsErr host "missing status code".toList
    | some code =>
        if code ≠ 200 then
          stsErr host ("status ".toList ++ showNat code ++ " (redirects are not followed)".toList)
        else .ok ()

-- one turn of the loop over the header lines; the length is a `usize`
def headerLine (host : Str) (contentLength : Option Nat) (line : Str) :
    Except NetworkError (Option Nat) :=
  if line = [] then .ok contentLength
  else match splitOnce ':' line with
    | none => .ok contentLength
    | some kv =>
        if eqIgnoreAsciiCase (trim kv.1) "transfer-encoding".toList then
          stsErr host "transfer-encoded responses are not accepted".toList
        else if eqIgnoreAsciiCase (trim kv.1) "content-length".toList then
          match parseUnsigned (2 ^ 64 - 1) (trim kv.2) with
          | some len => .ok (some len)
          | none => stsErr host "invalid Content-Length".toList
        else .ok contentLength

-- the part in front of the blank line; the result is the length of the body
def parseHead (host head : Str) : Except NetworkError Nat :=
  match splitOnPair '\r' '\n' head with
  | [] => stsErr host "empty response".toList
  | status :: fields => do
      checkStatus host status
      match ← fields.foldlM (headerLine host) none with
      | none => stsErr host "missing Content-Length".toList
      | some len =>
          if len > maxBody then stsErr host "Content-Length exceeds the size cap".toList
          else .ok len

def parseBody (host : Str) (body : Bytes) (len : Nat) : Except NetworkError Str :=
  if body.length < len then stsErr host "body shorter than Content-Length".toList
  else match decodeUtf8 (body.take len) with
    | none => stsErr host "non-UTF-8 policy body".toList
    | some text => .ok text

/-- `parse_http_response`. -/
def parseHttpResponse (raw : Bytes) (host : Str) : Except NetworkError Str :=
  match findSub (crlf ++ crlf) raw with
  | none => stsErr host "no header/body separator".toList
  | some sep =>
      match decodeUtf8 (raw.take sep) with
      | none => stsErr host "non-UTF-8 headers".toList
      | some head => parseHead host head >>= parseBody host (raw.drop (sep + 4))

/-! ## 2. What is accepted -/

-- the value of a header line of that name
def fieldValue (name : String) (line : Str) : Option Str :=
  (splitOnce ':' line).bind fun kv =>
    if eqIgnoreAsciiCase (trim kv.1) name.toList then some (trim kv.2) else none

-- of several lines the last one counts
def IsContentLength (fields : List Str) (len : Nat) : Prop :=
  ∃ before line after value, fields = before ++ line :: after ∧
    fieldValue "content-length" line = some value ∧ parseUnsigned (2 ^ 64 - 1) value = some len ∧
    ∀ later ∈ after, fieldValue "content-length" later = none

section
variable {host status head : Str}

theorem checkStatus_ok (h : checkStatus host status = .ok ()) : statusCode status = some 200 := by
  unfold checkStatus at h
  dsimp only at h
  split at h
  · cases h
  · cases hcode : statusCode status with
    | none =>
      rw [hcode] at h
      cases h
    | some code =>
      rw [hcode] at h
      dsimp only at h
      split at h
      · cases h
      · rename_i hcode
        rw [not_not.mp hcode]

theorem headerLine_ok {acc out : Option Nat} {line : Str} (h : headerLine host acc line = .ok out) :
    fieldValue "transfer-encoding" line = none ∧
      ((fieldValue "content-length" line = none ∧ out = acc) ∨
        ∃ value len, fieldValue "content-length" line = some value ∧
          parseUnsigned (2 ^ 64 - 1) value = some len ∧ out = some len) := by
  unfold headerLine at h
  unfold fieldValue
  split at h
  · rename_i hline
    cases h
    subst hline
    exact ⟨rfl, .inl ⟨rfl, rfl⟩⟩
  · cases hsplit : splitOnce ':' line with
    | none =>
      rw [hsplit] at h
      cases h
      exact ⟨rfl, .inl ⟨rfl, rfl⟩⟩
    | some kv =>
      rw [hsplit] at h
      dsimp only at h
      rw [Option.bind_some, Option.bind_some]
      split at h
      · cases h
      · rename_i hte
        rw [if_neg hte]
        refine ⟨rfl, ?_⟩
        split at h
        · rename_i hcl
          rw [if_pos hcl]
          right
          split at h
          · rename_i len hlen
            cases h
            exact ⟨trim kv.2, len, rfl, hlen, rfl⟩
          · cases h
        · rename_i hcl
          rw [if_neg hcl]
          cases h
          exact .inl ⟨rfl, rfl⟩

-- the loop: induction on the lines read, the last one first
theorem foldlM_headerLine_ok {fields : List Str} {out : Option Nat}
    (h : fields.foldlM (headerLine host) none = .ok out) :
    (∀ line ∈ fields, fieldValue "transfer-encoding" line = none) ∧
      ∀ len, out = some len → IsContentLength fields len := by
  induction fields using List.reverseRecOn generalizing out with
  | nil =>
    cases h
    exact ⟨nofun, nofun⟩
  | append_singleton fields line ih =>
    rw [List.foldlM_append] at h
    obtain ⟨acc, hacc, hline⟩ := exists_of_bind_eq_ok h
    rw [List.foldlM_cons] at hline
    obtain ⟨out', hline, hout⟩ := exists_of_bind_eq_ok hline
    cases hout
    obtain ⟨hnone, hlen⟩ := ih hacc
    obtain ⟨hte, hcl⟩ := headerLine_ok hline
    refine ⟨?_, ?_⟩
    · intro l hl
      rcases List.mem_append.mp hl with hl | hl
      · exact hnone l hl
      · rw [List.mem_singleton.mp hl]
        exact hte
    · intro len hout
      rcases hcl with ⟨hcl, rfl⟩ | ⟨value, len', hvalue, hparse, hsome⟩
      · obtain ⟨before, l, after, value, rfl, hvalue, hparse, hafter⟩ := hlen len hout
        refine ⟨before, l, after ++ [line], value, by simp, hvalue, hparse, ?_⟩
        intro later hlater
        rcases List.mem_append.mp hlater with hlater | hlater
        · exact hafter later hlater
        · rw [List.mem_singleton.mp hlater]
          exact hcl
      · obtain rfl : len' = len := Option.some.inj (hsome.symm.trans hout)
        exact ⟨fields, line, [], value, rfl, hvalue, hparse, nofun⟩

/-- What the head of an accepted response is like. -/
structure HeadAccepted (head : Str) (len : Nat) : Prop where
  lines : ∃ status fields, splitOnPair '\r' '\n' head = status :: fields ∧
    statusCode status = some 200 ∧
    (∀ line ∈ fields, fieldValue "transfer-encoding" line = none) ∧ IsContentLength fields len
  capped : len ≤ maxBody

theorem parseHead_ok {len : Nat} (h : parseHead host head = .ok len) : HeadAccepted head len := by
  unfold parseHead at h
  cases hlines : splitOnPair '\r' '\n' head with
  | nil => exact absurd hlines (splitOnPair_ne_nil _ _ head)
  | cons status fields =>
    rw [hlines] at h
    obtain ⟨_, hstatus, hrest⟩ := exists_of_bind_eq_ok h
    obtain ⟨out, hfields, hlen⟩ := exists_of_bind_eq_ok hrest
    obtain ⟨hte, hcl⟩ := foldlM_headerLine_ok hfields
    cases out with
    | none => cases hlen
    | some len' =>
      dsimp only at hlen
      split at hlen
      · cases hlen
      · rename_i hcap
        cases hlen
        exact ⟨⟨status, fields, hlines, checkStatus_ok hstatus, hte, hcl len rfl⟩,
          Nat.le_of_not_lt hcap⟩

theorem parseBody_ok_iff {body : Bytes} {len : Nat} {text : Str} :
    parseBody host body len = .ok text ↔
      len ≤ body.length ∧ encodeUtf8 text = body.take len := by
  unfold parseBody
  split
  · rename_i hshort
    exact ⟨nofun, fun h => absurd h.1 (Nat.not_le_of_lt hshort)⟩
  · rename_i hlong
    rw [← decodeUtf8_eq_some_iff]
    cases hdecode : decodeUtf8 (body.take len) with
    | none => exact ⟨nofun, nofun⟩
    | some text' =>
      rw [Except.ok.injEq, Option.some.injEq]
      exact ⟨fun h => ⟨Nat.le_of_not_lt hlong, h⟩, fun h => h.2⟩

theorem parseHttpResponse_ok_iff {raw : Bytes} {text : Str} :
    parseHttpResponse raw host = .ok text ↔
      ∃ sep head len, findSub (crlf ++ crlf) raw = some sep ∧ encodeUtf8 head = raw.take sep ∧
        parseHead host head = .ok len ∧ len ≤ (raw.drop (sep + 4)).length ∧
        encodeUtf8 text = (raw.drop (sep + 4)).take len := by
  constructor
  · intro h
    unfold parseHttpResponse at h
    cases hsep : findSub (crlf ++ crlf) raw with
    | none =>
      rw [hsep] at h
      cases h
    | some sep =>
      rw [hsep] at h
      dsimp only at h
      cases hhead : decodeUtf8 (raw.take sep) with
      | none =>
        rw [hhead] at h
        cases h
      | some head =>
        rw [hhead] at h
        obtain ⟨len, hlen, hbody⟩ := exists_of_bind_eq_ok h
        exact ⟨sep, head, len, rfl, decodeUtf8_eq_some_iff.mp hhead, hlen,
          parseBody_ok_iff.mp hbody⟩
  · rintro ⟨sep, head, len, hsep, hhead, hlen, hbody⟩
    unfold parseHttpResponse
    rw [hsep]
    dsimp only
    rw [decodeUtf8_eq_some_iff.mpr hhead]
    dsimp only
    rw [hlen]
    exact parseBody_ok_iff.mpr hbody

end

/-! ## 3. A response that is cut short -/

-- what more was read cannot change what the shorter response said
theorem parseHttpResponse_append {part : Bytes} {host text : Str} (rest : Bytes)
    (h : parseHttpResponse part host = .ok text) :
    parseHttpResponse (part ++ rest) host = .ok text := by
  obtain ⟨sep, head, len, hsep, hhead, hlen, hle, htext⟩ := parseHttpResponse_ok_iff.mp h
  obtain ⟨⟨u, v, hpart, rfl⟩, -⟩ := findSub_spec hsep
  have hfour : u.length + 4 ≤ part.length := by
    rw [hpart]
    simp [crlf]
  have hdrop : (part ++ rest).drop (u.length + 4) = part.drop (u.length + 4) ++ rest :=
    List.drop_append_of_le_length hfour
  have htake : (part ++ rest).take u.length = part.take u.length :=
    List.take_append_of_le_length (by omega)
  refine parseHttpResponse_ok_iff.mpr
    ⟨u.length, head, len, findSub_append (by decide) hsep rest, ?_, hlen, ?_, ?_⟩
  · rw [htake]
    exact hhead
  · rw [hdrop, List.length_append]
    exact Nat.le_add_right_of_le hle
  · rw [hdrop, List.take_append_of_le_length hle]
    exact htext

/-- A prefix that is accepted fixes the body for every continuation; and an accepted body is the
announced number of bytes behind the first blank line of a response with status 200 and without
`Transfer-Encoding`. -/
theorem accepted_response_stable (raw : Bytes) (host text : Str) :
    (∀ part rest, raw = part ++ rest → parseHttpResponse part host = .ok text →
      parseHttpResponse raw host = .ok text) ∧
    (parseHttpResponse raw host = .ok text →
      ∃ head body status fields len, raw = encodeUtf8 head ++ (crlf ++ crlf ++ body) ∧
        (∀ u v, raw = u ++ (crlf ++ crlf ++ v) → (encodeUtf8 head).length ≤ u.length) ∧
        splitOnPair '\r' '\n' head = status :: fields ∧ statusCode status = some 200 ∧
        (∀ line ∈ fields, fieldValue "transfer-encoding" line = none) ∧
        IsContentLength fields len ∧ len ≤ maxBody ∧ len ≤ body.length ∧
        encodeUtf8 text = body.take len) := by
  refine ⟨?_, ?_⟩
  · rintro part rest rfl h
    exact parseHttpResponse_append rest h
  · intro h
    obtain ⟨sep, head, len, hsep, hhead, hlen, hle, htext⟩ := parseHttpResponse_ok_iff.mp h
    obtain ⟨⟨u, v, rfl, rfl⟩, hfirst⟩ := findSub_spec hsep
    rw [List.take_left] at hhead
    subst hhead
    have hbody : (encodeUtf8 head ++ (crlf ++ crlf ++ v)).drop ((encodeUtf8 head).length + 4) =
        v := by
      rw [← List.append_assoc]
      exact List.drop_left' (by simp [crlf])
    rw [hbody] at hle htext
    obtain ⟨⟨status, fields, hlines, hstatus, hte, hcl⟩, hcap⟩ := parseHead_ok hlen
    exact ⟨head, v, status, fields, len, rfl, hfirst, hlines, hstatus, hte, hcl, hcap, hle, htext⟩

def shortResponse : Bytes := ascii "HTTP/1.1 200 OK\r\nContent-Length: 2\r\n\r\nhi"

theorem accepted_response_stable_short :
    parseHttpResponse shortResponse [] = .ok "hi".toList ∧
      parseHttpResponse (shortResponse ++ ascii "there") [] = .ok "hi".toList := by
  have h : parseHttpResponse shortResponse [] = .ok "hi".toList := by decide +kernel
  exact ⟨h, (accepted_response_stable _ [] _).1 shortResponse (ascii "there") rfl h⟩

end Snail.Network.Fetch
