import Snail.Access.Imap

/-!
# Credentials — which credentials a session has checked

The authenticator is a parameter of the sessions.  For every command this names the pair they pass
to `auth.check`, if they do; the answer depends on the authenticator there and nowhere else.
-/

open Snail.Reasoning Snail.Mail

namespace Snail.Access

/-! ## 1. POP3 -/

def Pop3Session.checks (s : Pop3Session) : PopCommand → Option (Str × Str)
  | .pass password =>
      if s.state = .authorization ∧ s.needsTls = false then
        s.pendingUser.map fun user => (user, password)
      else none
  | _ => none

theorem Pop3Session.handle_pass_congr {check check' : Str → Str → Bool} {s : Pop3Session}
    {password : Str} (h : ∀ p ∈ s.checks (.pass password), check p.1 p.2 = check' p.1 p.2)
    (store : MailStore) :
    s.handle check store (.pass password) = s.handle check' store (.pass password) := by
  cases hstate : s.state with
  | authorization =>
    simp only [handle, hstate]
    by_cases htls : s.needsTls = true
    · rw [if_pos htls, if_pos htls]
    · rw [if_neg htls, if_neg htls]
      cases huser : s.pendingUser with
      | none => rfl
      | some user =>
        have hsame : check user password = check' user password := by
          apply h (user, password)
          rw [checks, if_pos ⟨hstate, by simpa using htls⟩, huser]
          rfl
        simp only [hsame]
  | transaction => simp only [handle, hstate]
  | closed => simp only [handle, hstate]

/-- The reply to a command is a function of the authenticator's answer about the pair it checks. -/
theorem Pop3Session.handle_congr {check check' : Str → Str → Bool} {s : Pop3Session}
    {command : PopCommand} (h : ∀ p ∈ s.checks command, check p.1 p.2 = check' p.1 p.2)
    (store : MailStore) : s.handle check store command = s.handle check' store command := by
  cases command with
  | pass password => exact handle_pass_congr h store
  | list msg =>
    cases msg
    all_goals
      cases hstate : s.state
      all_goals simp only [handle, hstate]
  | _ =>
    cases hstate : s.state
    all_goals simp only [handle, hstate]

-- and it is that answer
theorem Pop3Session.ok_of_checks {s : Pop3Session} {command : PopCommand} {p : Str × Str}
    (h : s.checks command = some p) (check : Str → Str → Bool) (store : MailStore) :
    (s.handle check store command).1.ok = check p.1 p.2 := by
  cases command with
  | pass password =>
    rw [checks] at h
    split at h
    · rename_i hopen
      obtain ⟨user, huser, rfl⟩ := Option.map_eq_some_iff.mp h
      simp only [handle, hopen.1, huser]
      rw [if_neg (by rw [hopen.2]; simp)]
      by_cases hcheck : check user password = true
      · rw [if_pos hcheck]
        exact hcheck.symm
      · rw [if_neg hcheck]
        exact (Bool.eq_false_of_not_eq_true hcheck).symm
    · cases h
  | _ => cases h

-- a `PASS` that has nothing checked fails
theorem Pop3Session.not_ok_of_unchecked {s : Pop3Session} {password : Str}
    (h : s.checks (.pass password) = none) (check : Str → Str → Bool) (store : MailStore) :
    (s.handle check store (.pass password)).1.ok = false := by
  cases hstate : s.state with
  | authorization =>
    simp only [handle, hstate]
    by_cases htls : s.needsTls = true
    · rw [if_pos htls]
      rfl
    · rw [if_neg htls]
      rw [checks, if_pos ⟨hstate, by simpa using htls⟩, Option.map_eq_none_iff] at h
      rw [h]
      rfl
  | transaction =>
    simp only [handle, hstate]
    rfl
  | closed =>
    simp only [handle, hstate]
    rfl

/-! ## 2. IMAP -/

def ImapSession.checks (s : ImapSession) : ImapCommand → Option (Str × Str)
  | .login username password => if s.needsTls then none else some (username, password)
  | _ => none

theorem ImapSession.handle_congr {check check' : Str → Str → Bool} {s : ImapSession}
    {tagged : TaggedCommand} (h : ∀ p ∈ s.checks tagged.command, check p.1 p.2 = check' p.1 p.2)
    (store : MailStore) : s.handle check store tagged = s.handle check' store tagged := by
  cases hcommand : tagged.command with
  | login username password =>
    simp only [handle, hcommand]
    by_cases htls : s.needsTls = true
    · rw [if_pos htls, if_pos htls]
    · have hsame : check username password = check' username password := by
        apply h (username, password)
        rw [hcommand, checks, if_neg htls]
        rfl
      rw [hsame]
  | _ => simp only [handle, hcommand]

theorem ImapSession.status_of_checks {s : ImapSession} {tagged : TaggedCommand} {p : Str × Str}
    (h : s.checks tagged.command = some p) (check : Str → Str → Bool) (store : MailStore) :
    (s.handle check store tagged).1.status =
      if check p.1 p.2 then okStatus tagged.tag "LOGIN completed"
      else noStatus tagged.tag "LOGIN failed" := by
  cases hcommand : tagged.command with
  | login username password =>
    rw [hcommand, checks] at h
    split at h
    · cases h
    · rename_i htls
      cases h
      simp only [handle, hcommand, if_neg htls]
      split
      · rfl
      · rfl
  | _ =>
    rw [hcommand] at h
    cases h

end Snail.Access
