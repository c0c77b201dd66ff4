import Snail.Mail.Smtp
import Snail.Server.Authenticate

/-!
# AuthResults — what a reader of an Authentication-Results line finds

A reader takes the line apart at its semicolons.  The values a peer controls are freed of line
breaks only, so that one with a semicolon in it is read as a result of its own.
-/

open Snail.Reasoning Snail.Mail Snail.Network

namespace Snail.Server

/-! ## 1. The entries of a line -/

def dkimEntry (outcome : DkimOutcome) : Str :=
  " dkim=".toList ++ outcome.result.asStr ++ " header.d=".toList ++ sanitize outcome.domain

def dkimEntries (dkim : List DkimOutcome) : List Str :=
  if dkim = [] then [" dkim=none".toList] else dkim.map dkimEntry

def dmarcEntries (dmarcToken : Option Str) (fromDomain : Str) : List Str :=
  dmarcToken.toList.map fun token =>
    " dmarc=".toList ++ token ++ " header.from=".toList ++ sanitize fromDomain

def spfEntry (spf : Option Spf.SpfResult) (mailFrom : Str) : Str :=
  " spf=".toList ++ spf.elim "none".toList Spf.SpfResult.asStr ++ " smtp.mailfrom=".toList ++
    reversePath mailFrom

/-- What the line is meant to say: the host, one SPF result, one DKIM result for each signature or
`none`, and a DMARC result if there was an evaluation. -/
def authEntries (host : Str) (spf : Option Spf.SpfResult) (mailFrom : Str)
    (dkim : List DkimOutcome) (dmarcToken : Option Str) (fromDomain : Str) : List Str :=
  ("Authentication-Results: ".toList ++ sanitize host) :: spfEntry spf mailFrom ::
    (dkimEntries dkim ++ dmarcEntries dmarcToken fromDomain)

theorem dkimText_eq_flatMap (dkim : List DkimOutcome) :
    dkimText dkim = (dkimEntries dkim).flatMap (';' :: ·) := by
  unfold dkimText dkimEntries
  by_cases h : dkim = []
  · rw [if_pos h, if_pos h]
    rfl
  · rw [if_neg h, if_neg h, List.flatMap_map]
    rfl

theorem dmarcText_eq_flatMap (dmarcToken : Option Str) (fromDomain : Str) :
    dmarcText dmarcToken fromDomain = (dmarcEntries dmarcToken fromDomain).flatMap (';' :: ·) := by
  cases dmarcToken with
  | none => rfl
  | some token => simp [dmarcText, dmarcEntries]

/-- The line joins its entries with semicolons. -/
theorem authenticationResultsText_eq_intercalate (host : Str) (spf : Option Spf.SpfResult)
    (mailFrom : Str) (dkim : List DkimOutcome) (dmarcToken : Option Str) (fromDomain : Str) :
    authenticationResultsText host spf mailFrom dkim dmarcToken fromDomain =
      [';'].intercalate (authEntries host spf mailFrom dkim dmarcToken fromDomain) := by
  have hspf : "; spf=".toList = ';' :: " spf=".toList := rfl
  unfold authenticationResultsText authEntries spfEntry
  rw [intercalate_cons, List.flatMap_cons, List.flatMap_append, dkimText_eq_flatMap,
    dmarcText_eq_flatMap, hspf]
  simp only [List.append_assoc, List.cons_append, List.nil_append]

/-! ## 2. Where a semicolon can come from -/

theorem semicolon_mem_sanitize {s : Str} : ';' ∈ sanitize s ↔ ';' ∈ s := by
  unfold sanitize
  simp

theorem semicolon_mem_reversePath {mailFrom : Str} :
    ';' ∈ reversePath mailFrom ↔ ';' ∈ mailFrom := by
  unfold reversePath
  by_cases h : mailFrom = []
  · rw [if_pos h, h]
    decide
  · rw [if_neg h]
    simp [semicolon_mem_sanitize]

theorem semicolon_mem_spfEntry {spf : Option Spf.SpfResult} {mailFrom : Str} :
    ';' ∈ spfEntry spf mailFrom ↔ ';' ∈ mailFrom := by
  have hspf : ';' ∉ spf.elim "none".toList Spf.SpfResult.asStr := by
    cases spf with
    | none => decide
    | some r => cases r <;> decide
  unfold spfEntry
  generalize spf.elim "none".toList Spf.SpfResult.asStr = result at hspf ⊢
  simp [hspf, semicolon_mem_reversePath]

theorem semicolon_mem_dkimEntry {outcome : DkimOutcome} :
    ';' ∈ dkimEntry outcome ↔ ';' ∈ outcome.domain := by
  have hresult : ';' ∉ outcome.result.asStr := by cases outcome.result <;> decide
  unfold dkimEntry
  simp [hresult, semicolon_mem_sanitize]

/-- The domain of a `d=` tag, or the empty one reported for a field that does not parse. -/
def FromTag (domain : Str) : Prop :=
  domain = [] ∨ ∃ text, tagGet (parseTagMap text) "d" = some domain

theorem semicolon_not_mem_tagGet {text value : Str} {key : String}
    (h : tagGet (parseTagMap text) key = some value) : ';' ∉ value := by
  obtain ⟨kv, hfind, rfl⟩ := Option.map_eq_some_iff.mp h
  have hmem := List.mem_of_find?_eq_some hfind
  rw [List.mem_reverse] at hmem
  obtain ⟨pair, hpair, rfl⟩ := List.mem_map.mp (List.mem_filter.mp hmem).1
  obtain ⟨piece, hpiece, hsplit⟩ := List.mem_filterMap.mp hpair
  -- a value is part of one piece between semicolons
  intro hsemi
  have hin : ';' ∈ piece := by
    rw [(splitOnce_eq_some_iff.mp hsplit).1]
    simp [mem_of_mem_trim hsemi]
  exact not_mem_of_mem_splitOn hpiece hin

theorem FromTag.semicolon_not_mem {domain : Str} (h : FromTag domain) : ';' ∉ domain := by
  cases h with
  | inl h =>
    rw [h]
    exact List.not_mem_nil
  | inr h =>
    obtain ⟨text, h⟩ := h
    exact semicolon_not_mem_tagGet h

theorem dkimEntries_clean {dkim : List DkimOutcome} (h : ∀ o ∈ dkim, FromTag o.domain) :
    ∀ s ∈ dkimEntries dkim, ';' ∉ s := by
  intro s hs
  unfold dkimEntries at hs
  split at hs
  · rw [List.mem_singleton.mp hs]
    decide
  · obtain ⟨outcome, houtcome, rfl⟩ := List.mem_map.mp hs
    rw [semicolon_mem_dkimEntry]
    exact (h outcome houtcome).semicolon_not_mem

theorem semicolon_mem_toAsciiLowercase {s : Str} : ';' ∈ toAsciiLowercase s ↔ ';' ∈ s := by
  unfold toAsciiLowercase
  rw [List.mem_map]
  apply Iff.intro
  · intro h
    obtain ⟨c, hc, hlower⟩ := h
    rw [eq_of_toLower_eq (by decide) hlower] at hc
    exact hc
  · intro h
    exact ⟨';', h, by decide⟩

/-- A From value gives its domain a semicolon exactly when its address has one behind the last
`@`. -/
theorem semicolon_mem_fromHeaderDomain {value : Str} :
    ';' ∈ (fromHeaderDomain value).getD [] ↔
      ∃ p ∈ rsplitOnce '@' (fromAddress value), ';' ∈ p.2 := by
  unfold fromHeaderDomain
  cases hsplit : rsplitOnce '@' (fromAddress value) with
  | none => simp
  | some p =>
    have hdomain : ';' ∈ trim (trimEndMatches '>' (trim p.2)) ↔ ';' ∈ p.2 := by
      rw [mem_trim_iff (by decide), mem_trimEndMatches_iff (by decide), mem_trim_iff (by decide)]
    simp only [Option.bind_some, Option.mem_some_iff, exists_eq_left']
    by_cases hnil : trim (trimEndMatches '>' (trim p.2)) = []
    · rw [if_pos hnil, ← hdomain, hnil]
      simp
    · rw [if_neg hnil, Option.getD_some, semicolon_mem_toAsciiLowercase, hdomain]

theorem dmarcEntries_clean_iff (value : Option Str) (dmarc : Option DmarcResult) :
    (∀ s ∈ dmarcEntries (dmarc.map DmarcResult.asStr) ((value.bind fromHeaderDomain).getD []),
        ';' ∉ s) ↔
      (dmarc.isSome → ∀ v ∈ value, ∀ p ∈ rsplitOnce '@' (fromAddress v), ';' ∉ p.2) := by
  cases dmarc with
  | none => simp [dmarcEntries]
  | some result =>
    have htokens : ∀ t ∈ ["none".toList, "pass".toList, "fail".toList], ';' ∉ t := by decide
    have htoken := htokens _ result.asStr_mem
    unfold dmarcEntries
    cases value with
    | none => simp [htoken, sanitize]
    | some v =>
      have hdomain := @semicolon_mem_fromHeaderDomain v
      simp only [Option.map_some, Option.toList_some, List.map_singleton, List.mem_singleton,
        forall_eq, Option.bind_some, List.mem_append, htoken, semicolon_mem_sanitize, hdomain]
      simp

/-! ## 3. The outcomes of the verifier -/

theorem domain_of_parse {crypto : Crypto} {value : Bytes} {sig : DkimSignature}
    (h : DkimSignature.parse crypto value = .ok sig) :
    tagGet (parseTagMap (decodeLossy value)) "d" = some sig.domain := by
  unfold DkimSignature.parse at h
  dsimp only at h
  split at h
  on_goal 1 => split at h
  on_goal 1 => cases h
  -- behind the version tag the two cases read alike: three values, each decoded, and the domain
  all_goals
    iterate 6 obtain ⟨_, -, h⟩ := exists_of_bind_eq_ok h
    obtain ⟨domain, hdomain, h⟩ := exists_of_bind_eq_ok h
    iterate 2 obtain ⟨_, -, h⟩ := exists_of_bind_eq_ok h
    split at h
    · cases h
    · iterate 2 obtain ⟨_, -, h⟩ := exists_of_bind_eq_ok h
      cases h
      exact tagGet_of_requireTag hdomain

theorem fromTag_of_mem_verify {crypto : Crypto} {resolver : DnsResolver} {now : SystemTime}
    {raw : Bytes} {o : DkimOutcome} (h : o ∈ verify crypto resolver now raw) :
    FromTag o.domain := by
  obtain ⟨fi, -, hfi⟩ := List.mem_filterMap.mp h
  unfold verifyField at hfi
  split at hfi
  · split at hfi
    · rename_i sig hsig
      cases hfi
      exact .inr ⟨_, domain_of_parse hsig⟩
    · cases hfi
      exact .inl rfl
  · cases hfi

theorem fromTag_of_mem_authenticate {server : Server} {clocks : Clocks} {peer : IpAddr}
    {helo mailFrom : Str} {m : Message} {o : DkimOutcome}
    (h : o ∈ (server.authenticate clocks peer helo mailFrom m).dkim) : FromTag o.domain := by
  unfold Server.authenticate at h
  cases hr : server.resolver with
  | none => simp [hr] at h
  | some resolver =>
    simp only [hr, Option.elim_some] at h
    exact fromTag_of_mem_verify h

/-! ## 4. Reading the line -/

/-- Whatever a peer has put into its sender, its signatures and its From field, the line is read as
the host, the SPF result, one result for each signature and the DMARC result and as nothing else,
exactly when there is no semicolon in the host name, in the reverse path and, if a DMARC result is
given, behind the last `@` of the From address. -/
theorem auth_results_unforged_iff (host : Str) (spf : Option Spf.SpfResult) (mailFrom : Str)
    (dkim : List DkimOutcome) (value : Option Str) (dmarc : Option DmarcResult)
    (hdkim : ∀ o ∈ dkim, FromTag o.domain) :
    (decodeLossy (authenticationResultsHeader host spf mailFrom dkim
        (dmarc.map DmarcResult.asStr) ((value.bind fromHeaderDomain).getD []))).splitOn ';' =
      authEntries host spf mailFrom dkim (dmarc.map DmarcResult.asStr)
        ((value.bind fromHeaderDomain).getD []) ↔
    ';' ∉ host ∧ ';' ∉ mailFrom ∧
      (dmarc.isSome → ∀ v ∈ value, ∀ p ∈ rsplitOnce '@' (fromAddress v), ';' ∉ p.2) := by
  have hsigned := dkimEntries_clean hdkim
  have hreported := dmarcEntries_clean_iff value dmarc
  have hhost : ';' ∈ "Authentication-Results: ".toList ++ sanitize host ↔ ';' ∈ host := by
    simp [semicolon_mem_sanitize]
  unfold authenticationResultsHeader
  rw [decodeLossy_encodeUtf8, authenticationResultsText_eq_intercalate]
  unfold authEntries
  rw [splitOn_intercalate_eq_iff (List.cons_ne_nil _ _)]
  rw [List.forall_mem_cons, List.forall_mem_cons, List.forall_mem_append, hhost,
    semicolon_mem_spfEntry, hreported, and_iff_right hsigned]

theorem auth_results_unforged_iff_signed :
    (decodeLossy (authenticationResultsHeader "mx.org".toList (some .pass) "a@x.org".toList
        [⟨"x.org".toList, "k".toList, .pass⟩] (some "none".toList) "x.org".toList)).splitOn ';' =
      ["Authentication-Results: mx.org", " spf=pass smtp.mailfrom=<a@x.org>",
        " dkim=pass header.d=x.org", " dmarc=none header.from=x.org"].map String.toList := by
  have hdkim : ∀ o ∈ [(⟨"x.org".toList, "k".toList, .pass⟩ : DkimOutcome)], FromTag o.domain := by
    intro o ho
    rw [List.mem_singleton.mp ho]
    exact .inr ⟨"d=x.org".toList, by decide⟩
  have hdomain : ((some "a@x.org".toList).bind fromHeaderDomain).getD [] = "x.org".toList := by
    decide
  have hread := (auth_results_unforged_iff "mx.org".toList (some .pass) "a@x.org".toList _
    (some "a@x.org".toList) (some .none) hdkim).mpr (by decide)
  have htoken : (some DmarcResult.none).map DmarcResult.asStr = some "none".toList := rfl
  rw [hdomain, htoken] at hread
  exact hread.trans (by decide +kernel)

/-- A sender that makes the line of an unsigned message report a signature of `bank.org`. -/
theorem sender_forges_dkim_pass :
    SmtpCommand.parse "MAIL FROM:<a; dkim=pass header.d=bank.org; b@x.org>\r\n".toList =
      .ok (.mailFrom (some ⟨"a; dkim=pass header.d=bank.org; b".toList, "x.org".toList⟩)) ∧
    (decodeLossy (authenticationResultsHeader "mx.org".toList (some .pass)
        (mailFromText ⟨some ⟨"a; dkim=pass header.d=bank.org; b".toList, "x.org".toList⟩, []⟩)
        [] none [])).splitOn ';' =
      ["Authentication-Results: mx.org", " spf=pass smtp.mailfrom=<a",
        " dkim=pass header.d=bank.org", " b@x.org>", " dkim=none"].map String.toList := by
  decide +kernel

end Snail.Server
