import Snail.Reasoning.Utf8

/-!
# Canonicalize — the canonical forms a DKIM signature is computed over

`crates/network/src/dkim/canonicalize.rs`: `simple` and `relaxed` for header fields and for the
body.
-/

open Snail.Reasoning

namespace Snail.Network

inductive HeaderCanon where
  | simple
  | relaxed
  deriving DecidableEq, Repr

inductive BodyCanon where
  | simple
  | relaxed
  deriving DecidableEq, Repr

/-- `parse_canon`: the value of a `c=` tag. -/
def parseCanon : Option Str → HeaderCanon × BodyCanon
  | none => (.simple, .simple)
  | some c =>
      let (h, b) := (splitOnce '/' c).getD (c, "simple".toList)
      (if eqIgnoreAsciiCase h "relaxed".toList then .relaxed else .simple,
        if eqIgnoreAsciiCase b "relaxed".toList then .relaxed else .simple)

def space : UInt8 := 32
def tab : UInt8 := 9

/-- The loop of `relax_value`: line breaks are dropped, runs of white space shrink to one space
between two other bytes. -/
def relaxValueFrom (outEmpty inWsp : Bool) : Bytes → Bytes
  | [] => []
  | b :: l =>
      if b = cr ∨ b = lf then relaxValueFrom outEmpty inWsp l
      else if b = space ∨ b = tab then relaxValueFrom outEmpty true l
      else (if inWsp && !outEmpty then [space] else []) ++ b :: relaxValueFrom false false l

def relaxValue (raw : Bytes) : Bytes := relaxValueFrom true false raw

def canonicalizeHeader (name : Str) (rawValue : Bytes) (canon : HeaderCanon) (withCrlf : Bool) :
    Bytes :=
  let out := match canon with
    | .simple => encodeUtf8 name ++ ascii ":" ++ rawValue
    | .relaxed => encodeUtf8 (toAsciiLowercase (trim name)) ++ ascii ":" ++ relaxValue rawValue
  if withCrlf then out ++ crlf else out

/-! ## 1. Bodies -/

-- the loop of `simple_body` on the reversed body: CRLF pairs are taken off the end
def dropCrlfs : Bytes → Bytes
  | b :: a :: l => if b = lf ∧ a = cr then dropCrlfs l else b :: a :: l
  | l => l

def simpleBody (body : Bytes) : Bytes := (dropCrlfs body.reverse).reverse ++ crlf

-- the loop of `relax_line`
def relaxLineFrom (inWsp : Bool) : Bytes → Bytes
  | [] => []
  | b :: l =>
      if b = space ∨ b = tab then relaxLineFrom true l
      else (if inWsp then [space] else []) ++ b :: relaxLineFrom false l

def relaxLine (line : Bytes) : Bytes := relaxLineFrom false line

/-- The lines the loop of `relaxed_body` meets: what stands behind the last CRLF is a line only if
there is something. -/
def bodyLines (body : Bytes) : List Bytes :=
  let segments := splitOnPair cr lf body
  if segments.getLast? = some [] then segments.dropLast else segments

/-- The second loop of `relaxed_body` on the reversed text: a CRLF is peeled off the end when it
ends an empty line. -/
def peelEmptyLines : Bytes → Bytes
  | b :: a :: l =>
      if b = lf ∧ a = cr ∧ (l = [] ∨ [lf, cr] <+: l) then peelEmptyLines l else b :: a :: l
  | l => l

def relaxedBody (body : Bytes) : Bytes :=
  let out := (bodyLines body).flatMap fun line => relaxLine line ++ crlf
  let out := (peelEmptyLines out.reverse).reverse
  if out = crlf then [] else out

def canonicalizeBody (body : Bytes) : BodyCanon → Bytes
  | .simple => simpleBody body
  | .relaxed => relaxedBody body

example : relaxedBody (ascii " C \r\nD \t E\r\n\r\n\r\n") = ascii " C\r\nD E\r\n" := by decide
example : simpleBody (ascii " C \r\nD \t E\r\n\r\n\r\n") = ascii " C \r\nD \t E\r\n" := by decide

/-! ## 2. An added CRLF at the end of a body -/

-- `simple` forgets a CRLF at the end
theorem simpleBody_append_crlf (body : Bytes) : simpleBody (body ++ crlf) = simpleBody body := by
  have hrev : (body ++ crlf).reverse = lf :: cr :: body.reverse := by simp [crlf]
  have hdrop : dropCrlfs (lf :: cr :: body.reverse) = dropCrlfs body.reverse := by
    rw [dropCrlfs, if_pos ⟨rfl, rfl⟩]
  rw [simpleBody, hrev, hdrop]
  rfl

theorem splitOnPair_append_crlf (body : Bytes) :
    splitOnPair cr lf (body ++ crlf) = splitOnPair cr lf body ++ [[]] := by
  have h := splitOnPair_append (show cr ≠ lf by decide) body []
  exact h

theorem bodyLines_append_crlf (body : Bytes) :
    bodyLines (body ++ crlf) = splitOnPair cr lf body := by
  unfold bodyLines
  rw [splitOnPair_append_crlf]
  simp

theorem reverse_flatMap_crlf (f : Bytes → Bytes) (lines : List Bytes) :
    (lines.flatMap fun line => f line ++ crlf).reverse = [] ∨
      [lf, cr] <+: (lines.flatMap fun line => f line ++ crlf).reverse := by
  rcases List.eq_nil_or_concat lines with rfl | ⟨init, last, rfl⟩
  · exact .inl rfl
  · refine .inr ?_
    simp [crlf]

/-- `relaxed` forgets a CRLF at the end as well: it either ends the last line or makes an empty
one. -/
theorem relaxedBody_append_crlf (body : Bytes) : relaxedBody (body ++ crlf) = relaxedBody body := by
  simp only [relaxedBody]
  rw [bodyLines_append_crlf]
  by_cases hlast : (splitOnPair cr lf body).getLast? = some []
  · rcases List.getLast?_eq_some_iff.mp hlast with ⟨init, hinit⟩
    have hlines : bodyLines body = init := by
      unfold bodyLines
      rw [if_pos hlast, hinit]
      simp
    have hout : (splitOnPair cr lf body).flatMap (fun line => relaxLine line ++ crlf) =
        init.flatMap (fun line => relaxLine line ++ crlf) ++ crlf := by
      rw [hinit]
      simp [relaxLine, relaxLineFrom]
    have hpeel :
        peelEmptyLines ((init.flatMap fun line => relaxLine line ++ crlf) ++ crlf).reverse =
        peelEmptyLines (init.flatMap fun line => relaxLine line ++ crlf).reverse := by
      rw [List.reverse_append, show crlf.reverse = [lf, cr] from rfl, List.cons_append,
        List.cons_append, List.nil_append, peelEmptyLines,
        if_pos ⟨rfl, rfl, reverse_flatMap_crlf relaxLine init⟩]
    rw [hlines, hout, hpeel]
  · have hlines : bodyLines body = splitOnPair cr lf body := by
      unfold bodyLines
      rw [if_neg hlast]
    rw [hlines]

theorem canonicalizeBody_append_crlf (body : Bytes) (canon : BodyCanon) :
    canonicalizeBody (body ++ crlf) canon = canonicalizeBody body canon := by
  cases canon with
  | simple => exact simpleBody_append_crlf body
  | relaxed => exact relaxedBody_append_crlf body

end Snail.Network
