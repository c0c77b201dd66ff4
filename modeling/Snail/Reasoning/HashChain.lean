import Mathlib.Data.List.Infix
import Mathlib.Data.List.Induction

/-!
# HashChain — records that carry the hash of everything before them

A record is a body and a hash; the hash is computed from the hash of the record in front and the
body.  Where that computation can be inverted, a chain is fixed by its hashes: one that is put
together from the hashes of another is a beginning of it.
-/

namespace Snail.Reasoning

variable {H B : Type*} {link : H → B → H} {start : H} {records others : List (B × H)}

/-! ## 1. Chains -/

def Linked (link : H → B → H) : H → List (B × H) → Prop
  | _, [] => True
  | previous, record :: rest => link previous record.1 = record.2 ∧ Linked link record.2 rest

-- the hash that the next record is chained to
def chainTip (start : H) (records : List (B × H)) : H := records.foldl (fun _ r => r.2) start

theorem chainTip_append :
    chainTip start (records ++ others) = chainTip (chainTip start records) others :=
  List.foldl_append

theorem chainTip_concat {body : B} {hash : H} : chainTip start (records ++ [(body, hash)]) = hash :=
  chainTip_append

theorem linked_append : Linked link start (records ++ others) ↔
    Linked link start records ∧ Linked link (chainTip start records) others := by
  induction records generalizing start with
  | nil => exact ⟨fun h => ⟨trivial, h⟩, fun h => h.2⟩
  | cons r records ih =>
    show _ ∧ Linked link r.2 (records ++ others) ↔ _
    rw [ih, ← and_assoc]
    rfl

theorem linked_concat {body : B} {hash : H} : Linked link start (records ++ [(body, hash)]) ↔
    Linked link start records ∧ link (chainTip start records) body = hash := by
  rw [linked_append]
  show _ ∧ (_ ∧ True) ↔ _
  rw [and_true]

/-! ## 2. A chain is fixed by its hashes -/

/-- `p` may stand in front of a record. -/
def IsTip (link : H → B → H) (start p : H) : Prop := p = start ∨ ∃ q b, link q b = p

/-- Nothing hashes to the start of the chain, and a hash determines what it was computed from. -/
structure Binding (link : H → B → H) (start : H) : Prop where
  ne_start : ∀ p b, link p b ≠ start
  inj : ∀ {p q b c}, IsTip link start p → IsTip link start q → link p b = link q c →
    p = q ∧ b = c

theorem Linked.isTip (h : Linked link start records) :
    IsTip link start (chainTip start records) := by
  induction records using List.reverseRecOn with
  | nil => exact .inl rfl
  | append_singleton records r _ =>
    obtain ⟨-, hlink⟩ := linked_concat.mp h
    rw [chainTip_concat]
    exact .inr ⟨_, _, hlink⟩

-- no hash comes up twice
theorem Binding.eq_nil_of_chainTip (hbind : Binding link start)
    (h : Linked link start (records ++ others))
    (htip : chainTip start (records ++ others) = chainTip start records) : others = [] := by
  induction records using List.reverseRecOn generalizing others with
  | nil =>
    induction others using List.reverseRecOn with
    | nil => rfl
    | append_singleton others r _ =>
      obtain ⟨-, hlink⟩ := linked_concat.mp h
      rw [List.nil_append, chainTip_concat] at htip
      exact absurd (hlink.trans htip) (hbind.ne_start _ _)
  | append_singleton records r ih =>
    induction others using List.reverseRecOn with
    | nil => rfl
    | append_singleton others s _ =>
      rw [← List.append_assoc] at h htip
      obtain ⟨hfirst, hlast⟩ := linked_concat.mp h
      obtain ⟨hbefore, hthere⟩ := linked_concat.mp (linked_append.mp hfirst).1
      rw [chainTip_concat, chainTip_concat] at htip
      have hsame := (hbind.inj hfirst.isTip hbefore.isTip (hlast.trans (htip.trans hthere.symm))).1
      -- the tip in front of both would have come up twice already
      rw [List.append_assoc] at hfirst hsame
      exact absurd (ih hfirst hsame) (by simp)

theorem Binding.eq_of_chainTip_eq (hbind : Binding link start) {front : List (B × H)}
    (h : Linked link start records) (hfront : front <+: records) (hother : others <+: records)
    (htip : chainTip start front = chainTip start others) : front = others := by
  obtain ⟨more, rfl⟩ | ⟨more, rfl⟩ := List.prefix_or_prefix_of_prefix hfront hother
  · obtain ⟨rest, rfl⟩ := hother
    rw [hbind.eq_nil_of_chainTip (linked_append.mp h).1 htip.symm, List.append_nil]
  · obtain ⟨rest, rfl⟩ := hfront
    rw [hbind.eq_nil_of_chainTip (linked_append.mp h).1 htip, List.append_nil]

/-- A chain whose hashes are all taken from another one is a beginning of it. -/
theorem Binding.isPrefix_of_hashes (hbind : Binding link start) (h : Linked link start records)
    (hother : Linked link start others) (hhashes : ∀ r ∈ others, r.2 ∈ records.map Prod.snd) :
    others <+: records := by
  induction others using List.reverseRecOn with
  | nil => exact List.nil_prefix
  | append_singleton others r ih =>
    obtain ⟨hfirst, hlink⟩ := linked_concat.mp hother
    have hpre := ih hfirst fun s hs => hhashes s (List.mem_append_left _ hs)
    obtain ⟨s, hs, hhash⟩ := List.mem_map.mp (hhashes r (by simp))
    obtain ⟨front, rest, rfl⟩ := List.append_of_mem hs
    have hsplit := List.append_cons front s rest
    rw [hsplit] at h
    obtain ⟨hfront, hthere⟩ := linked_concat.mp (linked_append.mp h).1
    obtain ⟨htip, hbody⟩ := hbind.inj hfront.isTip hfirst.isTip
      ((hthere.trans hhash).trans hlink.symm)
    have hsame : front = others :=
      hbind.eq_of_chainTip_eq (hsplit ▸ h) (List.prefix_append _ _) hpre htip
    have hr : s = r := Prod.ext hbody hhash
    rw [← hsame, ← hr, hsplit]
    exact List.prefix_append _ _

end Snail.Reasoning
