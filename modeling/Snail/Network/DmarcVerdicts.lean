import Snail.Network.Dmarc

/-!
# DmarcVerdicts — what a DMARC verdict depends on

Two evaluations side by side: spellings of one domain, and more or fewer signing domains.
-/

open Snail.Reasoning

namespace Snail.Network

/-! ## 1. Spellings of a domain -/

theorem toAsciiLowercase_trimDomain (d : Str) :
    toAsciiLowercase (trimDomain d) = trimDomain (toAsciiLowercase d) := by
  change toAsciiLowercase (trimEndMatches '.' (trim d)) = trimEndMatches '.' (trim _)
  rw [toAsciiLowercase_trimEndMatches (by decide) (by decide), toAsciiLowercase_trim]

-- white space right in front of the dots at the end
def blankBeforeDots (d : Str) : Bool :=
  trimEndMatches '.' d ≠ d && (trimEndMatches '.' d).getLast?.any isWhitespace

/-- One domain in two spellings that differ in the case of letters and in dots at the end. -/
structure SameDomain (d d' : Str) : Prop where
  same : toAsciiLowercase (trimEndMatches '.' d) = toAsciiLowercase (trimEndMatches '.' d')
  tidy : blankBeforeDots d = false
  tidy' : blankBeforeDots d' = false

theorem exists_dots (d : Str) : ∃ dots, d = trimEndMatches '.' d ++ dots ∧ ∀ c ∈ dots, c = '.' := by
  refine ⟨d.rtakeWhile (· == '.'), List.rdropWhile_append_rtakeWhile.symm, ?_⟩
  intro c hc
  have hdot := List.mem_rtakeWhile_imp hc
  exact beq_iff_eq.mp hdot

theorem getLast_trimEndMatches {d : Str} {c e : Char} (h : c ∈ (trimEndMatches e d).getLast?) :
    c ≠ e := by
  have hne : trimEndMatches e d ≠ [] := by
    intro hn
    simp [hn] at h
  have hnot := List.rdropWhile_last_not (· == e) d hne
  rw [List.getLast?_eq_some_getLast hne] at h
  cases h
  intro heq
  exact hnot (beq_iff_eq.mpr heq)

section
variable {dots : Str} (hdots : ∀ c ∈ dots, c = '.')

include hdots

theorem trimEndMatches_dots : trimEndMatches '.' dots = [] := by
  rw [trimEndMatches, List.rdropWhile_eq_nil_iff]
  intro c hc
  rw [hdots c hc]
  rfl

theorem trimDomain_dots : trimDomain dots = [] := by
  have hkeep : trim dots = dots := by
    apply trim_eq_self
    · intro c hc
      rw [hdots c (List.mem_of_head? hc)]
      decide
    · intro c hc
      rw [hdots c (List.mem_of_getLast? hc)]
      decide
  change trimEndMatches '.' (trim dots) = []
  rw [hkeep, trimEndMatches_dots hdots]

-- a text that ends in a character that stays
theorem trimDomain_append_dots (s : Str) {c : Char} (hblank : isWhitespace c = false)
    (hdot : c ≠ '.') : trimDomain (s ++ c :: dots) = trimStart s ++ [c] := by
  have hkeep : trimEnd dots = dots := by
    rw [trimEnd, List.rdropWhile_eq_self_iff]
    intro hne
    rw [hdots _ (List.getLast_mem hne)]
    decide
  have hdrop : dots.rdropWhile (· == '.') = [] := trimEndMatches_dots hdots
  change trimEndMatches '.' (trim (s ++ c :: dots)) = _
  rw [trim_append_cons _ _ hblank, hkeep, trimEndMatches,
    rdropWhile_append_cons _ _ (by simpa using hdot), hdrop]

end

-- dots at the end may be taken off beforehand
theorem trimDomain_trimEndMatches {d : Str} (h : blankBeforeDots d = false) :
    trimDomain d = trimDomain (trimEndMatches '.' d) := by
  by_cases hself : trimEndMatches '.' d = d
  · rw [hself]
  · obtain ⟨dots, hd, hdots⟩ := exists_dots d
    have hlast : (trimEndMatches '.' d).getLast?.any isWhitespace = false := by
      simpa [blankBeforeDots, hself] using h
    have hstop : ∀ c ∈ (trimEndMatches '.' d).getLast?, c ≠ '.' :=
      fun c hc => getLast_trimEndMatches hc
    generalize trimEndMatches '.' d = u at hd hlast hstop ⊢
    subst hd
    rcases List.eq_nil_or_concat u with rfl | ⟨v, c, rfl⟩
    · rw [List.nil_append]
      exact trimDomain_dots hdots
    · rw [List.concat_eq_append] at hlast hstop ⊢
      have hblank : isWhitespace c = false := by simpa using hlast
      have hdot := hstop c (by simp)
      rw [List.append_assoc, List.singleton_append, trimDomain_append_dots hdots v hblank hdot]
      exact (trimDomain_append_dots (by simp) v hblank hdot).symm

theorem SameDomain.trimDomain {d d' : Str} (h : SameDomain d d') :
    toAsciiLowercase (trimDomain d) = toAsciiLowercase (trimDomain d') := by
  rw [trimDomain_trimEndMatches h.tidy, trimDomain_trimEndMatches h.tidy',
    toAsciiLowercase_trimDomain, toAsciiLowercase_trimDomain, h.same]

/-! ## 2. What an evaluation reads -/

/-- Names are looked up without regard to case. -/
def IgnoresCase (resolver : DnsResolver) : Prop :=
  ∀ name name', toAsciiLowercase name = toAsciiLowercase name' →
    (resolver.lookupTxt name).toOption = (resolver.lookupTxt name').toOption

-- the record at a domain, if there is one
def DnsResolver.dmarcAt (resolver : DnsResolver) (domain : Str) : Option DmarcRecord :=
  (resolver.lookupDmarc domain).toOption

theorem DnsResolver.dmarcAt_eq (resolver : DnsResolver) (d : Str) : resolver.dmarcAt d =
    (resolver.lookupTxt ("_dmarc.".toList ++ d)).toOption.bind fun txts =>
      txts.findSome? fun txt => (DmarcRecord.parse txt).toOption := by
  unfold DnsResolver.dmarcAt DnsResolver.lookupDmarc DnsResolver.lookupParsed
  cases resolver.lookupTxt ("_dmarc.".toList ++ d) with
  | error e => rfl
  | ok txts =>
    dsimp only
    rw [show (Except.ok txts : Except NetworkError _).toOption = some txts from rfl,
      Option.bind_some]
    cases txts.findSome? fun txt => (DmarcRecord.parse txt).toOption <;> rfl

theorem dmarcAt_congr {resolver : DnsResolver} (h : IgnoresCase resolver) {d d' : Str}
    (hd : toAsciiLowercase d = toAsciiLowercase d') :
    resolver.dmarcAt d = resolver.dmarcAt d' := by
  have hname : toAsciiLowercase ("_dmarc.".toList ++ d) =
      toAsciiLowercase ("_dmarc.".toList ++ d') := by
    unfold toAsciiLowercase at hd ⊢
    rw [List.map_append, List.map_append, hd]
  rw [resolver.dmarcAt_eq, resolver.dmarcAt_eq, h _ _ hname]

theorem discover_eq (resolver : DnsResolver) (domain org : Str) :
    discover resolver domain org = match resolver.dmarcAt domain with
      | some record => some (record, false)
      | none => if org = domain then none else (resolver.dmarcAt org).map fun r => (r, true) := by
  unfold discover DnsResolver.dmarcAt
  cases resolver.lookupDmarc domain with
  | ok record => rfl
  | error e =>
    change (if org ≠ domain then _ else none) = if org = domain then none else _
    rw [ite_not]
    split
    · rfl
    · cases resolver.lookupDmarc org <;> rfl

theorem discover_congr {resolver : DnsResolver} (h : IgnoresCase resolver) {d d' : Str}
    (hd : toAsciiLowercase d = toAsciiLowercase d') (org : Str) :
    discover resolver d org = discover resolver d' org := by
  rw [discover_eq, discover_eq, dmarcAt_congr h hd]
  cases hfound : resolver.dmarcAt d' with
  | some record => rfl
  | none =>
    -- the fallback asks for the same name again when only the case differs
    have hagain : ∀ d, toAsciiLowercase d = toAsciiLowercase d' → org = d →
        resolver.dmarcAt org = none := by
      intro d hd horg
      rw [horg, dmarcAt_congr h hd, hfound]
    dsimp only
    by_cases horg : org = d
    · rw [if_pos horg, hagain d hd horg]
      simp
    · rw [if_neg horg]
      by_cases horg' : org = d'
      · rw [if_pos horg', hagain d' rfl horg']
        rfl
      · rw [if_neg horg']

theorem organizationalDomain_congr (psl : Str → Option Str) {d d' : Str}
    (h : toAsciiLowercase d = toAsciiLowercase d') :
    organizationalDomain psl d = organizationalDomain psl d' := by
  unfold organizationalDomain
  rw [toAsciiLowercase_trimDomain, toAsciiLowercase_trimDomain, h]

theorem aligned_congr (psl : Str → Option Str) {a a' d d' : Str}
    (ha : toAsciiLowercase (trimDomain a) = toAsciiLowercase (trimDomain a'))
    (hd : toAsciiLowercase d = toAsciiLowercase d') (mode : AlignmentMode) :
    aligned psl a d mode = aligned psl a' d' mode := by
  unfold aligned
  rw [ha, toAsciiLowercase_trimDomain d, toAsciiLowercase_trimDomain d', hd]

theorem any_aligned_congr (psl : Str → Option Str) {ds ds' : List Str} {d d' : Str}
    (hds : List.Forall₂ SameDomain ds ds') (hd : toAsciiLowercase d = toAsciiLowercase d')
    (mode : AlignmentMode) :
    (ds.any fun a => aligned psl a d mode) = ds'.any fun a => aligned psl a d' mode := by
  induction hds with
  | nil => rfl
  | cons ha _ ih => rw [List.any_cons, List.any_cons, aligned_congr psl ha.trimDomain hd, ih]

/-! ## 3. Verdicts -/

structure Verdict where
  recordFound : Bool
  spfAligned : Bool
  dkimAligned : Bool
  pass : Bool
  disposition : DmarcDisposition
  deriving DecidableEq, Repr

def DmarcResult.verdict (r : DmarcResult) : Verdict :=
  ⟨r.recordFound, r.spfAligned, r.dkimAligned, r.pass, r.disposition⟩

def DmarcDisposition.strictness : DmarcDisposition → Nat
  | .none => 0
  | .quarantine => 1
  | .reject => 2

-- what a policy asks for when it is applied to every message
def DmarcPolicy.inFull : DmarcPolicy → DmarcDisposition
  | .none => .none
  | .quarantine => .quarantine
  | .reject => .reject

theorem applyPct_full (now : SystemTime) (policy : DmarcPolicy) :
    applyPct now policy 100 = policy.inFull := by
  unfold applyPct
  rw [if_pos (.inl (Nat.le_refl 100))]
  cases policy <;> rfl

-- the policy for a message that fails
def DmarcRecord.applied (record : DmarcRecord) (atOrg : Bool) : DmarcPolicy :=
  if atOrg then record.subdomainPolicy.getD record.policy else record.policy

section
variable {psl : Str → Option Str} {resolver : DnsResolver}

theorem discover_cases {domain org : Str} {record : DmarcRecord} {atOrg : Bool}
    (h : discover resolver domain org = some (record, atOrg)) :
    (atOrg = false ∧ resolver.dmarcAt domain = some record) ∨
      (atOrg = true ∧ resolver.dmarcAt domain = none ∧ resolver.dmarcAt org = some record ∧
        domain ≠ org) := by
  rw [discover_eq] at h
  cases hat : resolver.dmarcAt domain with
  | some found =>
    rw [hat] at h
    cases h
    exact .inl ⟨rfl, rfl⟩
  | none =>
    rw [hat] at h
    dsimp only at h
    split at h
    · cases h
    · rename_i hne
      obtain ⟨found, hfound, hpair⟩ := Option.map_eq_some_iff.mp h
      cases hpair
      exact .inr ⟨rfl, rfl, hfound, Ne.symm hne⟩

variable {now now' : SystemTime} {source source' spfDomain spfDomain' : Str}
  {spf : Spf.SpfResult} {ds ds' : List Str}

-- without a domain or without a record there is no opinion
theorem evaluateDmarc_none (h : trimDomain source = [] ∨
      discover resolver (trimDomain source) (organizationalDomain psl (trimDomain source)) = none) :
    evaluateDmarc psl resolver now source spf spfDomain ds = .none := by
  unfold evaluateDmarc
  dsimp only
  split
  · rfl
  · rename_i hne
    rw [h.resolve_left hne]

/-- With a record that applies in full, the verdict follows from the alignments and from where the
record was found. -/
theorem evaluateDmarc_some {record : DmarcRecord} {atOrg : Bool} (hne : trimDomain source ≠ [])
    (hfound : discover resolver (trimDomain source)
      (organizationalDomain psl (trimDomain source)) = some (record, atOrg))
    (hpct : record.pct = 100) :
    let r := evaluateDmarc psl resolver now source spf spfDomain ds
    let spfAligned := spf == .pass && aligned psl spfDomain (trimDomain source) record.aspf
    let dkimAligned := ds.any fun a => aligned psl a (trimDomain source) record.adkim
    r.published = some record ∧
    r.verdict = ⟨true, spfAligned, dkimAligned, spfAligned || dkimAligned,
      if spfAligned || dkimAligned then .none else (record.applied atOrg).inFull⟩ := by
  have hpolicy : (if atOrg = true ∧ trimDomain source ≠ organizationalDomain psl (trimDomain source)
      then record.subdomainPolicy.getD record.policy else record.policy) =
        record.applied atOrg := by
    unfold DmarcRecord.applied
    rcases discover_cases hfound with ⟨rfl, -⟩ | ⟨rfl, -, -, hsub⟩
    · rfl
    · rw [if_pos ⟨rfl, hsub⟩]
      rfl
  unfold evaluateDmarc
  dsimp only
  rw [if_neg hne, hfound]
  dsimp only [DmarcResult.verdict]
  rw [hpolicy, hpct, applyPct_full]
  exact ⟨rfl, rfl⟩

-- the record that was found applies in full
theorem pct_of_discover (hpct : ∀ d record, resolver.dmarcAt d = some record → record.pct = 100)
    {domain org : Str} {record : DmarcRecord} {atOrg : Bool}
    (h : discover resolver domain org = some (record, atOrg)) : record.pct = 100 := by
  rcases discover_cases h with ⟨-, hat⟩ | ⟨-, -, hat, -⟩
  · exact hpct _ _ hat
  · exact hpct _ _ hat

-- spellings of the domains do not matter
theorem verdict_congr (hcase : IgnoresCase resolver)
    (hpct : ∀ d record, resolver.dmarcAt d = some record → record.pct = 100)
    (hsource : SameDomain source source') (hspf : SameDomain spfDomain spfDomain')
    (hds : List.Forall₂ SameDomain ds ds') :
    (evaluateDmarc psl resolver now source spf spfDomain ds).verdict =
      (evaluateDmarc psl resolver now' source' spf spfDomain' ds').verdict := by
  have hd := hsource.trimDomain
  have hempty : trimDomain source = [] ↔ trimDomain source' = [] := by
    have hlength := congrArg List.length hd
    unfold toAsciiLowercase at hlength
    rw [List.length_map, List.length_map] at hlength
    rw [← List.length_eq_zero_iff, ← List.length_eq_zero_iff, hlength]
  have hfind := discover_congr hcase hd (organizationalDomain psl (trimDomain source))
  rw [organizationalDomain_congr psl hd] at hfind
  by_cases hne : trimDomain source = []
  · rw [evaluateDmarc_none (.inl hne), evaluateDmarc_none (.inl (hempty.mp hne))]
  · cases hfound : discover resolver (trimDomain source')
        (organizationalDomain psl (trimDomain source')) with
    | none =>
      rw [evaluateDmarc_none (.inr hfound), evaluateDmarc_none]
      rw [organizationalDomain_congr psl hd, hfind, hfound]
      exact .inr rfl
    | some p =>
      have hfull := pct_of_discover hpct hfound
      have hfound' : discover resolver (trimDomain source)
          (organizationalDomain psl (trimDomain source)) = some (p.1, p.2) := by
        rw [organizationalDomain_congr psl hd, hfind, hfound]
      rw [(evaluateDmarc_some hne hfound' hfull).2,
        (evaluateDmarc_some (fun h => hne (hempty.mpr h)) hfound hfull).2,
        aligned_congr psl hspf.trimDomain hd, any_aligned_congr psl hds hd]

-- more signing domains only help
theorem verdict_mono (hpct : ∀ d record, resolver.dmarcAt d = some record → record.pct = 100)
    (hds : ds ⊆ ds') :
    let r := evaluateDmarc psl resolver now source spf spfDomain ds
    let r' := evaluateDmarc psl resolver now' source spf spfDomain ds'
    (r.pass = true → r'.pass = true) ∧ r'.disposition.strictness ≤ r.disposition.strictness := by
  intro r r'
  by_cases hnone : trimDomain source = [] ∨ discover resolver (trimDomain source)
      (organizationalDomain psl (trimDomain source)) = none
  · have hr : r = .none := evaluateDmarc_none hnone
    have hr' : r' = .none := evaluateDmarc_none hnone
    rw [hr, hr']
    exact ⟨id, Nat.le_refl _⟩
  · rw [not_or] at hnone
    obtain ⟨⟨record, atOrg⟩, hfound⟩ := Option.ne_none_iff_exists'.mp hnone.2
    have hfull := pct_of_discover hpct hfound
    have hr : r.verdict = _ := (evaluateDmarc_some hnone.1 hfound hfull).2
    have hr' : r'.verdict = _ := (evaluateDmarc_some hnone.1 hfound hfull).2
    have hany : (ds.any fun a => aligned psl a (trimDomain source) record.adkim) = true →
        (ds'.any fun a => aligned psl a (trimDomain source) record.adkim) = true := by
      intro h
      obtain ⟨a, ha, haligned⟩ := List.any_eq_true.mp h
      exact List.any_eq_true.mpr ⟨a, hds ha, haligned⟩
    simp only [DmarcResult.verdict, Verdict.mk.injEq] at hr hr'
    rw [hr.2.2.2.1, hr.2.2.2.2, hr'.2.2.2.1, hr'.2.2.2.2]
    generalize (spf == .pass && aligned psl spfDomain (trimDomain source) record.aspf) = b
    cases b with
    | true => exact ⟨id, Nat.le_refl _⟩
    | false =>
      rw [Bool.false_or, Bool.false_or]
      refine ⟨hany, ?_⟩
      split
      · exact Nat.zero_le _
      · rename_i hfail
        rw [if_neg fun h => hfail (hany h)]

-- the disposition of one result
theorem disposition_cases (hpct : ∀ d record, resolver.dmarcAt d = some record → record.pct = 100) :
    let r := evaluateDmarc psl resolver now source spf spfDomain ds
    let domain := trimDomain source
    let org := organizationalDomain psl domain
    (r.pass = true → r.disposition = .none) ∧
      (r.recordFound = true → r.pass = false → ∃ record, r.published = some record ∧
        ((resolver.dmarcAt domain = some record ∧ r.disposition = record.policy.inFull) ∨
          (resolver.dmarcAt domain = none ∧ resolver.dmarcAt org = some record ∧
            r.disposition = (record.subdomainPolicy.getD record.policy).inFull))) := by
  intro r domain org
  by_cases hnone : trimDomain source = [] ∨ discover resolver (trimDomain source)
      (organizationalDomain psl (trimDomain source)) = none
  · have hr : r = .none := evaluateDmarc_none hnone
    rw [hr]
    exact ⟨fun _ => rfl, fun h => by cases h⟩
  · rw [not_or] at hnone
    obtain ⟨⟨record, atOrg⟩, hfound⟩ := Option.ne_none_iff_exists'.mp hnone.2
    have hfull := pct_of_discover hpct hfound
    have hpublished : r.published = some record := (evaluateDmarc_some hnone.1 hfound hfull).1
    have hr : r.verdict = _ := (evaluateDmarc_some hnone.1 hfound hfull).2
    simp only [DmarcResult.verdict, Verdict.mk.injEq] at hr
    obtain ⟨-, -, -, hpass, hdisposition⟩ := hr
    rw [← hpass] at hdisposition
    refine ⟨fun h => by rw [hdisposition, if_pos h], ?_⟩
    intro _ hfail
    refine ⟨record, hpublished, ?_⟩
    rw [hdisposition, hfail]
    rcases discover_cases hfound with ⟨rfl, hat⟩ | ⟨rfl, hnot, hat, -⟩
    · exact .inl ⟨hat, rfl⟩
    · exact .inr ⟨hnot, hat, rfl⟩

end

/-- Verdicts under records that apply in full: they do not depend on how the domains are spelt,
further signing domains never make them worse, and the disposition is that of the policy. -/
theorem verdicts_by_domain {psl : Str → Option Str} {resolver : DnsResolver}
    (hcase : IgnoresCase resolver)
    (hpct : ∀ d record, resolver.dmarcAt d = some record → record.pct = 100)
    (spf : Spf.SpfResult) :
    let evaluate := evaluateDmarc psl resolver
    (∀ now now' source source' spfDomain spfDomain' ds ds', SameDomain source source' →
      SameDomain spfDomain spfDomain' → List.Forall₂ SameDomain ds ds' →
      (evaluate now source spf spfDomain ds).verdict =
        (evaluate now' source' spf spfDomain' ds').verdict) ∧
    (∀ now now' source spfDomain ds ds', ds ⊆ ds' →
      ((evaluate now source spf spfDomain ds).pass = true →
        (evaluate now' source spf spfDomain ds').pass = true) ∧
      (evaluate now' source spf spfDomain ds').disposition.strictness ≤
        (evaluate now source spf spfDomain ds).disposition.strictness) ∧
    ∀ now source spfDomain ds,
      let r := evaluate now source spf spfDomain ds
      let domain := trimDomain source
      let org := organizationalDomain psl domain
      (r.pass = true → r.disposition = .none) ∧
      (r.recordFound = true → r.pass = false → ∃ record, r.published = some record ∧
        ((resolver.dmarcAt domain = some record ∧ r.disposition = record.policy.inFull) ∨
          (resolver.dmarcAt domain = none ∧ resolver.dmarcAt org = some record ∧
            r.disposition = (record.subdomainPolicy.getD record.policy).inFull))) :=
  ⟨fun _ _ _ _ _ _ _ _ hsource hspf hds => verdict_congr hcase hpct hsource hspf hds,
    fun _ _ _ _ _ _ hds => verdict_mono hpct hds,
    fun _ _ _ _ => disposition_cases hpct⟩

-- a record for `x.org` with another policy for its subdomains
def subdomainResolver : DnsResolver where
  lookupMx _ := .ok []
  lookupIp _ := .ok []
  lookupTxt name := .ok (if toAsciiLowercase name = "_dmarc.x.org".toList then
    ["v=DMARC1; p=none; sp=reject".toList] else [])
  reverseLookup _ := .ok []

theorem ignoresCase_subdomainResolver : IgnoresCase subdomainResolver := by
  intro name name' h
  unfold subdomainResolver
  dsimp only
  rw [h]

theorem dmarcAt_subdomainResolver {d : Str} {record : DmarcRecord}
    (h : subdomainResolver.dmarcAt d = some record) :
    record = ⟨.none, some .reject, .relaxed, .relaxed, 100, none⟩ := by
  rw [DnsResolver.dmarcAt_eq] at h
  dsimp only [subdomainResolver] at h
  by_cases hname : toAsciiLowercase ("_dmarc.".toList ++ d) = "_dmarc.x.org".toList
  · rw [if_pos hname] at h
    cases h
    rfl
  · rw [if_neg hname] at h
    cases h

theorem verdicts_by_domain_subdomain :
    let evaluate := evaluateDmarc (fun _ => none) subdomainResolver .unixEpoch
    (evaluate "X.org.".toList .fail "y.org".toList ["Z.org".toList]).verdict =
      (evaluate "x.org".toList .fail "y.org".toList ["z.org..".toList]).verdict :=
  (verdicts_by_domain ignoresCase_subdomainResolver
    (fun _ _ h => by rw [dmarcAt_subdomainResolver h]) .fail).1 _ _ _ _ _ _ _ _
    ⟨by decide, by decide, by decide⟩ ⟨rfl, by decide, by decide⟩
    (.cons ⟨by decide, by decide, by decide⟩ .nil)

/-- A blank in front of the dot stays in the name: the record is then found at the organizational
domain only, and the policy for subdomains is applied. -/
theorem blank_before_dot_changes_verdict :
    IgnoresCase subdomainResolver ∧
    (∀ d record, subdomainResolver.dmarcAt d = some record → record.pct = 100) ∧
    toAsciiLowercase (trimEndMatches '.' "x.org ".toList) =
      toAsciiLowercase (trimEndMatches '.' "x.org .".toList) ∧
    (evaluateDmarc (fun _ => none) subdomainResolver .unixEpoch "x.org ".toList .fail []
        []).verdict ≠
      (evaluateDmarc (fun _ => none) subdomainResolver .unixEpoch "x.org .".toList .fail []
        []).verdict :=
  ⟨ignoresCase_subdomainResolver, fun _ _ h => by rw [dmarcAt_subdomainResolver h], by decide,
    by decide⟩

end Snail.Network
