import Snail.Reasoning.Text

/-!
# Dovecot — Maildir++ folder names

`crates/access/src/dovecot.rs`.  A mailbox path is written with `/`, a folder name with `.`, and
`INBOX` is the root.
-/

open Snail.Reasoning

namespace Snail.Access

/-! ## 1. The mapping -/

-- `replace` of one character by another
def substitute (a b : Char) (s : Str) : Str := s.map fun c => if c = a then b else c

def isInbox (mailbox : Str) : Bool := eqIgnoreAsciiCase mailbox "INBOX".toList

def toMaildir (mailbox : Str) : Str :=
  if isInbox mailbox then ".".toList else '.' :: substitute '/' '.' mailbox

def fromMaildir (folder : Str) : Str :=
  if folder = ".".toList ∨ folder = [] then "INBOX".toList
  else substitute '.' '/' (trimStartMatches '.' folder)

/-- `INBOX` is one mailbox in every spelling. -/
def SameMailbox (name name' : Str) : Prop := name = name' ∨ isInbox name ∧ isInbox name'

theorem SameMailbox.symm {name name' : Str} (h : SameMailbox name name') :
    SameMailbox name' name := by
  rcases h with rfl | ⟨h, h'⟩
  · exact .inl rfl
  · exact .inr ⟨h', h⟩

theorem SameMailbox.trans {name name' name'' : Str} (h : SameMailbox name name')
    (h' : SameMailbox name' name'') : SameMailbox name name'' := by
  rcases h with rfl | ⟨hname, hname'⟩
  · exact h'
  · rcases h' with rfl | ⟨-, hname''⟩
    · exact .inr ⟨hname, hname'⟩
    · exact .inr ⟨hname, hname''⟩

/-! ## 2. There and back -/

def isSeparator (c : Char) : Bool := c == '/' || c == '.'

-- both separators come back as a slash, and none at the front
theorem fromMaildir_toMaildir {name : Str} (hinbox : isInbox name = false) (hne : name ≠ []) :
    fromMaildir (toMaildir name) =
      (name.dropWhile isSeparator).map fun c => if isSeparator c then '/' else c := by
  have hfolder : toMaildir name = '.' :: substitute '/' '.' name := by
    unfold toMaildir
    rw [hinbox]
    rfl
  have hroot : ¬ ('.' :: substitute '/' '.' name = ".".toList ∨
      '.' :: substitute '/' '.' name = []) := by
    unfold substitute
    simpa using hne
  unfold fromMaildir
  rw [hfolder, if_neg hroot]
  unfold trimStartMatches substitute
  rw [List.dropWhile_cons_of_pos (by decide), List.dropWhile_map, List.map_map]
  have hdropped : ((fun c : Char => c == '.') ∘ fun c => if c = '/' then '.' else c) =
      isSeparator := by
    funext c
    by_cases hslash : c = '/'
    · rw [Function.comp_apply, if_pos hslash, hslash]
      rfl
    · rw [Function.comp_apply, if_neg hslash, isSeparator, beq_false_of_ne hslash, Bool.false_or]
  have hback : ((fun c : Char => if c = '.' then '/' else c) ∘
      fun c => if c = '/' then '.' else c) = fun c => if isSeparator c then '/' else c := by
    funext c
    by_cases hslash : c = '/'
    · rw [Function.comp_apply, if_pos hslash, hslash]
      rfl
    · rw [Function.comp_apply, if_neg hslash, isSeparator, beq_false_of_ne hslash, Bool.false_or]
      simp only [beq_iff_eq]
  rw [hdropped, hback]

theorem slashes_kept_iff {s : Str} :
    (s.map fun c => if isSeparator c then '/' else c) = s ↔ '.' ∉ s := by
  have hchar : ∀ c : Char, (if isSeparator c then '/' else c) = c ↔ '.' ≠ c := by
    intro c
    by_cases hdot : c = '.'
    · subst hdot
      exact iff_of_false (by decide) fun h => h rfl
    · by_cases hslash : c = '/'
      · subst hslash
        exact iff_of_true rfl (by decide)
      · rw [isSeparator, beq_false_of_ne hslash, beq_false_of_ne hdot]
        exact iff_of_true rfl (Ne.symm hdot)
  induction s with
  | nil => exact iff_of_true rfl List.not_mem_nil
  | cons c s ih =>
    rw [List.map_cons, List.cons.injEq, hchar, List.mem_cons, not_or]
    exact and_congr_right fun _ => ih

theorem separators_kept_iff {name : Str} :
    ((name.dropWhile isSeparator).map fun c => if isSeparator c then '/' else c) = name ↔
      '.' ∉ name ∧ name.head? ≠ some '/' := by
  cases name with
  | nil => exact iff_of_true rfl ⟨List.not_mem_nil, by decide⟩
  | cons c rest =>
    by_cases hsep : isSeparator c = true
    · -- what is dropped at the front does not come back
      rw [List.dropWhile_cons_of_pos hsep]
      refine iff_of_false (fun h => ?_) ?_
      · have hlength := congrArg List.length h
        have hle := (List.dropWhile_sublist (l := rest) isSeparator).length_le
        rw [List.length_map, List.length_cons] at hlength
        omega
      · rintro ⟨hdot, hhead⟩
        rcases Bool.or_eq_true_iff.mp hsep with h | h
        · exact hhead (congrArg some (eq_of_beq h))
        · exact hdot (eq_of_beq h ▸ List.mem_cons_self)
    · have hhead : (c :: rest).head? ≠ some '/' := by
        intro h
        rw [Option.some.inj h] at hsep
        exact hsep rfl
      rw [List.dropWhile_cons_of_neg hsep, slashes_kept_iff, and_iff_left hhead]

/-- Names that the mapping keeps apart: no dot, no slash at the front. -/
def Representable (name : Str) : Prop :=
  isInbox name ∨ name ≠ [] ∧ '.' ∉ name ∧ name.head? ≠ some '/'

instance (name : Str) : Decidable (Representable name) :=
  inferInstanceAs (Decidable (_ ∨ _))

theorem roundTrip_iff {name : Str} :
    SameMailbox (fromMaildir (toMaildir name)) name ↔ Representable name := by
  by_cases hinbox : isInbox name = true
  · have hroot : fromMaildir (toMaildir name) = "INBOX".toList := by
      unfold toMaildir
      rw [hinbox]
      rfl
    rw [hroot]
    exact iff_of_true (.inr ⟨by decide, hinbox⟩) (.inl hinbox)
  -- any other mailbox has to come back as it was
  have hliteral : SameMailbox (fromMaildir (toMaildir name)) name ↔
      fromMaildir (toMaildir name) = name :=
    or_iff_left fun h => hinbox h.2
  have hrepresentable : Representable name ↔ name ≠ [] ∧ '.' ∉ name ∧ name.head? ≠ some '/' :=
    or_iff_right hinbox
  rw [hliteral, hrepresentable]
  by_cases hne : name = []
  · subst hne
    exact iff_of_false (by decide) fun h => h.1 rfl
  rw [fromMaildir_toMaildir (Bool.eq_false_of_not_eq_true hinbox) hne, and_iff_right hne]
  exact separators_kept_iff

/-! ## 3. Folders -/

theorem folders_faithful_iff (name name' : Str) :
    (SameMailbox (fromMaildir (toMaildir name)) name ∧
      SameMailbox (fromMaildir (toMaildir name')) name' ∧
      (toMaildir name = toMaildir name' → SameMailbox name name')) ↔
      Representable name ∧ Representable name' := by
  rw [roundTrip_iff, roundTrip_iff]
  refine ⟨fun h => ⟨h.1, h.2.1⟩, fun h => ⟨h.1, h.2, fun hsame => ?_⟩⟩
  have hback := roundTrip_iff.mpr h.1
  rw [hsame] at hback
  exact hback.symm.trans (roundTrip_iff.mpr h.2)

-- a dot in a name is read back as hierarchy, and both names share the folder
theorem dotted_name_is_another_mailbox :
    fromMaildir (toMaildir "a.b".toList) = "a/b".toList ∧
      toMaildir "a.b".toList = toMaildir "a/b".toList ∧
      ¬ SameMailbox "a.b".toList "a/b".toList := by
  refine ⟨by decide, by decide, ?_⟩
  unfold SameMailbox
  decide

end Snail.Access
