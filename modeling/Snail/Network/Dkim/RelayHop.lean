import Snail.Mail.Outbound
import Snail.Network.Dkim.Verify

/-!
# RelayHop — a DKIM signature across one relay hop

Between two servers a message is dot-stuffed and collected again, which adds one CRLF at its end.
The verifier is shown not to see it.
-/

open Snail.Reasoning Snail.Mail

namespace Snail.Network

/-! ## 1. Fields -/

theorem joinFolded_snoc_nil (lines : List Bytes) (block : Bytes) :
    joinFolded (lines ++ [[]]) (some block) = joinFolded lines (some block) ++ [[]] := by
  induction lines generalizing block with
  | nil => rfl
  | cons line lines ih =>
    rw [List.cons_append, joinFolded, joinFolded]
    split
    · exact ih _
    · rw [ih line]
      rfl

-- a CRLF behind the last header line makes an empty block, which is no field
theorem parseFields_append_crlf (headers : Bytes) :
    parseFields (headers ++ crlf) = parseFields headers := by
  unfold parseFields
  rw [splitOnPair_append_crlf]
  cases hl : splitOnPair cr lf headers with
  | nil => exact absurd hl (splitOnPair_ne_nil cr lf headers)
  | cons line lines =>
    rw [List.cons_append, joinFolded, joinFolded, joinFolded_snoc_nil, List.filterMap_append]
    simp [parseField, splitOnce]

/-! ## 2. The header section and the body -/

/-- The two sections before and after the hop: the body has grown by a CRLF, or, with no blank line
before the end, the header section has gained or lost its last CRLF. -/
theorem splitMessage_append_crlf {raw : Bytes} (h : CrlfLines raw) :
    (∃ headers body, splitMessage raw = (headers, body) ∧
      splitMessage (raw ++ crlf) = (headers, body ++ crlf)) ∨
    (∃ headers, (splitMessage raw = (headers ++ crlf, []) ∧
        splitMessage (raw ++ crlf) = (headers, [])) ∨
      (splitMessage raw = (headers, []) ∧ splitMessage (raw ++ crlf) = (headers ++ crlf, []))) := by
  cases hfind : findSub (crlf ++ crlf) raw with
  | some p =>
    have hfind' := findSub_append (by decide) hfind crlf
    rcases findSub_spec hfind with ⟨⟨u, v, huv, hp⟩, -⟩
    have hle : p + 4 ≤ raw.length := by
      rw [huv, ← hp]
      simp [crlf]
    refine .inl ⟨raw.take p, raw.drop (p + 4), by rw [splitMessage, hfind], ?_⟩
    rw [splitMessage, hfind']
    change (List.take p (raw ++ crlf), List.drop (p + 4) (raw ++ crlf)) = _
    rw [List.take_append_of_le_length (by omega), List.drop_append_of_le_length hle]
  | none =>
    have hno := (findSub_eq_none_iff (by decide)).mp hfind
    rcases h with ⟨contents, -, rfl⟩
    rcases List.eq_nil_or_concat contents with rfl | ⟨init, last, rfl⟩
    · exact .inr ⟨[], .inr ⟨rfl, rfl⟩⟩
    · have hw : (init.concat last).flatMap (· ++ crlf) =
          init.flatMap (· ++ crlf) ++ last ++ crlf := by simp
      rw [hw] at hfind hno ⊢
      generalize init.flatMap (· ++ crlf) ++ last = w at hfind hno ⊢
      refine .inr ⟨w, .inl ⟨by rw [splitMessage, hfind], ?_⟩⟩
      rw [splitMessage, findSub_of_no_blank hno]
      simp [crlf]

-- what the verifier reads of a collected message does not depend on the added CRLF
theorem verifierView_append_crlf {raw : Bytes} (h : CrlfLines raw) :
    parseFields (splitMessage (raw ++ crlf)).1 = parseFields (splitMessage raw).1 ∧
      ∀ canon, canonicalizeBody (splitMessage (raw ++ crlf)).2 canon =
        canonicalizeBody (splitMessage raw).2 canon := by
  rcases splitMessage_append_crlf h with ⟨headers, body, h₁, h₂⟩ | ⟨headers, ⟨h₁, h₂⟩ | ⟨h₁, h₂⟩⟩
  · rw [h₁, h₂]
    exact ⟨rfl, fun canon => canonicalizeBody_append_crlf body canon⟩
  · rw [h₁, h₂]
    exact ⟨(parseFields_append_crlf headers).symm, fun _ => rfl⟩
  · rw [h₁, h₂]
    exact ⟨parseFields_append_crlf headers, fun _ => rfl⟩

/-! ## 3. Verification -/

-- the body enters the verification through its canonical forms only
theorem verifyOne_congr (crypto : Crypto) (resolver : DnsResolver) (now : SystemTime)
    (fields : List HeaderField) (idx : Nat) (current : HeaderField) (sig : DkimSignature)
    {body body' : Bytes} (h : ∀ canon, canonicalizeBody body' canon = canonicalizeBody body canon) :
    verifyOne crypto resolver now fields idx current sig body' =
      verifyOne crypto resolver now fields idx current sig body := by
  unfold verifyOne
  rw [h sig.bodyCanon]

theorem verify_congr (crypto : Crypto) (resolver : DnsResolver) (now : SystemTime)
    {raw raw' : Bytes}
    (hfields : parseFields (splitMessage raw').1 = parseFields (splitMessage raw).1)
    (hbody : ∀ canon, canonicalizeBody (splitMessage raw').2 canon =
      canonicalizeBody (splitMessage raw).2 canon) :
    verify crypto resolver now raw' = verify crypto resolver now raw := by
  unfold verify
  simp only [hfields]
  apply List.filterMap_congr
  intro fi _
  unfold verifyField
  split
  · split
    · rw [verifyOne_congr crypto resolver now _ _ _ _ hbody]
    · rfl
  · rfl

/-- DKIM survives a relay hop.  A receiver with room for the message takes it, and whatever it takes
has the fields, the canonical bodies and the outcomes of the message that was sent. -/
theorem dkim_survives_relay_hop {raw : Bytes} (hraw : Assembled raw) (maxSize : Nat) :
    (raw.length + 2 ≤ maxSize → ∃ raw', receive maxSize (dotStuff raw) = some raw') ∧
      ∀ raw', receive maxSize (dotStuff raw) = some raw' →
        parseFields (splitMessage raw').1 = parseFields (splitMessage raw).1 ∧
        (∀ canon, canonicalizeBody (splitMessage raw').2 canon =
          canonicalizeBody (splitMessage raw).2 canon) ∧
        ∀ (crypto : Crypto) (resolver : DnsResolver) (now : SystemTime),
          verify crypto resolver now raw' = verify crypto resolver now raw := by
  have hlines := hraw.crlfLines
  refine ⟨fun hfit => ⟨raw ++ crlf, receive_dotStuff hlines hfit⟩, fun raw' hop => ?_⟩
  rw [eq_of_receive_dotStuff hlines hop]
  have hview := verifierView_append_crlf hlines
  exact ⟨hview.1, hview.2, fun crypto resolver now =>
    verify_congr crypto resolver now hview.1 hview.2⟩

/-- A header-only message gets its blank line from the hop and keeps its fields. -/
theorem dkim_survives_relay_hop_headerOnly :
    Assembled (ascii "From: a@x\r\n") ∧
      ∃ raw', receive 64 (dotStuff (ascii "From: a@x\r\n")) = some raw' ∧
        parseFields (splitMessage raw').1 =
          parseFields (splitMessage (ascii "From: a@x\r\n")).1 := by
  have hraw : Assembled (ascii "From: a@x\r\n") := ⟨64, ascii "From: a@x\r\n.\r\n", by decide⟩
  have hop := dkim_survives_relay_hop hraw 64
  rcases hop.1 (by decide) with ⟨raw', hraw'⟩
  exact ⟨hraw, raw', hraw', (hop.2 raw' hraw').1⟩

end Snail.Network
