import Snail.Network.Spf.Grammar

/-!
# RoundTrip — reading a record back

What the parser makes of the RFC 7208 text of a record.
-/

open Snail.Reasoning

namespace Snail.Network.Spf

/-! ## 1. Prefix lengths -/

theorem isPlainNumber_iff {p : Str} : isPlainNumber p = true ↔
    p ≠ [] ∧ (∀ c ∈ p, c.isDigit = true) ∧ (p.head? = some '0' → p.length = 1) := by
  simp only [isPlainNumber, Bool.and_eq_true, Bool.or_eq_true, decide_eq_true_eq,
    List.all_eq_true, beq_iff_eq, and_assoc, ne_eq, ← imp_iff_not_or]

theorem parseUnsigned_of_digits {p : Str} (hne : p ≠ []) (hdigits : ∀ c ∈ p, c.isDigit = true)
    (max : Nat) : parseUnsigned max p =
      if Nat.ofDigitChars 10 p 0 ≤ max then some (Nat.ofDigitChars 10 p 0) else none := by
  have hplus : ['+'].isPrefixOf? p = none := by
    cases hs : ['+'].isPrefixOf? p with
    | none => rfl
    | some r =>
      rw [List.isPrefixOf?_eq_some_iff_append_eq] at hs
      have hplus := hdigits '+' (by rw [← hs]; simp)
      exact absurd hplus (by decide)
  unfold parseUnsigned
  rw [hplus]
  simp [hne, List.all_eq_true.mpr hdigits]

theorem parsePrefix_of_plain {p : Str} {max n : Nat} (hp : isPlainNumber p = true)
    (hn : Nat.ofDigitChars 10 p 0 = n) (hle : n ≤ max) (hmax : max ≤ 255) :
    parsePrefix p max = .ok n := by
  obtain ⟨hne, hdigits, -⟩ := isPlainNumber_iff.mp hp
  unfold parsePrefix
  rw [parseUnsigned_of_digits hne hdigits, hn, if_pos (by omega)]
  dsimp only
  rw [if_neg (by omega)]

/-- An accepted length: digits behind an optional plus sign, within range. -/
theorem parsePrefix_ok {p : Str} {max n : Nat} (h : parsePrefix p max = .ok n) :
    p ≠ [] ∧ (∀ c ∈ p, isLengthChar c = true ∧ c ≠ '/') ∧ n ≤ max ∧
      (isPlainNumber p = true → Nat.ofDigitChars 10 p 0 = n) := by
  unfold parsePrefix at h
  split at h
  · cases h
  · rename_i m hm
    split at h
    · cases h
    · rename_i hle
      cases h
      refine ⟨?_, ?_, by omega, ?_⟩
      · rintro rfl
        cases hm
      · unfold parseUnsigned at hm
        dsimp only at hm
        split at hm
        · rename_i hdigits
          have hdigit : ∀ c : Char, c.isDigit = true → isLengthChar c = true ∧ c ≠ '/' := by
            intro c hc
            refine ⟨by rw [isLengthChar, hc]; rfl, ?_⟩
            rintro rfl
            exact absurd hc (by decide)
          intro c hc
          cases hs : ['+'].isPrefixOf? p with
          | none =>
            rw [hs, Option.getD_none] at hdigits
            exact hdigit c (List.all_eq_true.mp hdigits.2.1 c hc)
          | some r =>
            rw [hs, Option.getD_some] at hdigits
            rw [← List.isPrefixOf?_eq_some_iff_append_eq.mp hs] at hc
            rcases List.mem_cons.mp hc with rfl | hc
            · exact ⟨by decide, by decide⟩
            · exact hdigit c (List.all_eq_true.mp hdigits.2.1 c hc)
        · cases hm
      · intro hp
        obtain ⟨hne, hdigits, -⟩ := isPlainNumber_iff.mp hp
        rw [parseUnsigned_of_digits hne hdigits] at hm
        split at hm
        · exact Option.some.inj hm
        · cases hm

/-! ## 2. Dual CIDR lengths -/

theorem findSub_slashes {u : Str} (hu : '/' ∉ u) (v : Str) :
    findSub ['/', '/'] (u ++ '/' :: '/' :: v) = some u.length := by
  induction u with
  | nil => simp [findSub]
  | cons c u ih =>
    have hc : ¬ ['/', '/'] <+: c :: (u ++ '/' :: '/' :: v) := by
      rintro ⟨w, hw⟩
      exact hu (by rw [← (List.cons.inj hw).1]; simp)
    rw [List.cons_append, findSub, if_neg hc, ih fun h => hu (List.mem_cons_of_mem _ h)]
    rfl

theorem findSub_of_length {p : Str} (hp : '/' ∉ p) : findSub ['/', '/'] ('/' :: p) = none := by
  rw [findSub_eq_none_iff (by simp)]
  rintro ⟨u, v, huv⟩
  have hcount := congrArg (List.count '/') huv
  simp [List.count_eq_zero_of_not_mem hp] at hcount
  omega

-- a length behind one slash, followed by one behind two
theorem findSub_of_lengths {p : Str} (hp : '/' ∉ p) (hne : p ≠ []) (q : Str) :
    findSub ['/', '/'] ('/' :: (p ++ '/' :: '/' :: q)) = some (p.length + 1) := by
  have hc : ¬ ['/', '/'] <+: '/' :: (p ++ '/' :: '/' :: q) := by
    rintro ⟨w, hw⟩
    obtain ⟨c, r, rfl⟩ := List.exists_cons_of_ne_nil hne
    have hslash := (List.cons.inj (List.cons.inj hw).2).1
    exact hp (by rw [← hslash]; simp)
  rw [findSub, if_neg hc, findSub_slashes hp]
  rfl

theorem slash_not_mem_of_plain {p : Str} (hp : isPlainNumber p = true) : '/' ∉ p := by
  intro h
  exact absurd ((isPlainNumber_iff.mp hp).2.1 '/' h) (by decide)

-- the text in front of a double slash
def lengthBefore (part : Str) : Except NetworkError Nat :=
  match ['/'].isPrefixOf? part with
  | none => .ok 32
  | some p => if p = [] then .ok 32 else parsePrefix p 32

theorem lengthBefore_slash (p : Str) :
    lengthBefore ('/' :: p) = if p = [] then .ok 32 else parsePrefix p 32 := by
  have hslash : ['/'].isPrefixOf? ('/' :: p) = some p :=
    List.isPrefixOf?_eq_some_iff_append_eq.mpr rfl
  unfold lengthBefore
  rw [hslash]

theorem parseDualCidr_single {s : Str} (hs : s ≠ []) (h : findSub ['/', '/'] s = none) :
    parseDualCidr s = (lengthBefore s).map fun v4 => (v4, 128) := by
  unfold parseDualCidr lengthBefore
  rw [if_neg hs, h]
  dsimp only
  cases ['/'].isPrefixOf? s with
  | none => rfl
  | some p =>
    dsimp only
    split
    · rfl
    · cases parsePrefix p 32 <;> rfl

theorem parseDualCidr_double {s : Str} {i : Nat} (hs : s ≠ [])
    (h : findSub ['/', '/'] s = some i) :
    parseDualCidr s = (lengthBefore (s.take i)).bind fun v4 =>
      (parsePrefix (s.drop (i + 2)) 128).map fun v6 => (v4, v6) := by
  unfold parseDualCidr lengthBefore
  rw [if_neg hs, h]
  dsimp only
  cases ['/'].isPrefixOf? (s.take i) with
  | none =>
    cases parsePrefix (s.drop (i + 2)) 128 <;> rfl
  | some p =>
    dsimp only
    split
    · cases parsePrefix (s.drop (i + 2)) 128 <;> rfl
    · cases parsePrefix p 32 with
      | error e => rfl
      | ok n => cases parsePrefix (s.drop (i + 2)) 128 <;> rfl

/-- The lengths of a text are read as they are written. -/
theorem parseDualCidr_of_text {cidr4 cidr6 : Str} {v4 v6 : Nat}
    (h4 : LengthText ['/'] 32 cidr4 v4) (h6 : LengthText ['/', '/'] 128 cidr6 v6) :
    parseDualCidr (cidr4 ++ cidr6) = .ok (v4, v6) := by
  rcases h4 with ⟨rfl, rfl⟩ | ⟨p, rfl, hp, hn, hle⟩
  · rcases h6 with ⟨rfl, rfl⟩ | ⟨q, rfl, hq, hm, hle'⟩
    · rfl
    · have hfind := findSub_slashes (u := []) (by simp) q
      have hlen := parsePrefix_of_plain hq hm hle' (by decide)
      simp only [List.nil_append, List.cons_append] at hfind ⊢
      rw [parseDualCidr_double (by simp) hfind]
      simp only [List.length_nil, List.take_zero, Nat.zero_add, List.drop_succ_cons, List.drop_zero]
      rw [hlen]
      rfl
  · have hslash := slash_not_mem_of_plain hp
    have hlen := parsePrefix_of_plain hp hn hle (by decide)
    have hne := (isPlainNumber_iff.mp hp).1
    rcases h6 with ⟨rfl, rfl⟩ | ⟨q, rfl, hq, hm, hle'⟩
    · rw [List.append_nil, List.singleton_append,
        parseDualCidr_single (by simp) (findSub_of_length hslash), lengthBefore_slash, if_neg hne,
        hlen]
      rfl
    · have hlen' := parsePrefix_of_plain hq hm hle' (by decide)
      simp only [List.cons_append, List.nil_append]
      rw [parseDualCidr_double (by simp) (findSub_of_lengths hslash hne q)]
      have htake : ('/' :: (p ++ '/' :: '/' :: q)).take (p.length + 1) = '/' :: p := by simp
      have hdrop : ('/' :: (p ++ '/' :: '/' :: q)).drop (p.length + 1 + 2) = q := by simp
      rw [htake, hdrop, lengthBefore_slash, if_neg hne, hlen, hlen']
      rfl

/-- What is accepted behind the first slash of a text: nothing at all, or lengths. -/
theorem parseDualCidr_ok {s : Str} {v4 v6 : Nat} (h : parseDualCidr ('/' :: s) = .ok (v4, v6)) :
    s = [] ∨ (parsePrefix s 32 = .ok v4 ∧ v6 = 128) ∨
      (∃ q, s = '/' :: q ∧ v4 = 32 ∧ parsePrefix q 128 = .ok v6) ∨
      ∃ p q, s = p ++ '/' :: '/' :: q ∧ parsePrefix p 32 = .ok v4 ∧ parsePrefix q 128 = .ok v6 := by
  cases hfind : findSub ['/', '/'] ('/' :: s) with
  | none =>
    rw [parseDualCidr_single (by simp) hfind, lengthBefore_slash] at h
    by_cases hs : s = []
    · exact .inl hs
    · rw [if_neg hs] at h
      obtain ⟨n, hn, hpair⟩ := map_eq_ok_iff.mp h
      cases hpair
      exact .inr (.inl ⟨hn, rfl⟩)
  | some i =>
    obtain ⟨⟨u, q, hcut, rfl⟩, hfirst⟩ := findSub_spec hfind
    rw [parseDualCidr_double (by simp) hfind, hcut, List.take_left] at h
    obtain ⟨n, hn, h⟩ := exists_of_bind_eq_ok h
    obtain ⟨m, hm, hpair⟩ := map_eq_ok_iff.mp h
    cases hpair
    have hdrop : (u ++ (['/', '/'] ++ q)).drop (u.length + 2) = q := by
      rw [List.drop_append]
      simp
    rw [hdrop] at hm
    cases u with
    | nil =>
      cases hn
      exact .inr (.inr (.inl ⟨q, (List.cons.inj hcut).2, rfl, hm⟩))
    | cons c u =>
      obtain ⟨hc, hs⟩ := List.cons.inj hcut
      rw [← hc, lengthBefore_slash] at hn
      by_cases hu : u = []
      · -- the double slash would have been found one place earlier
        have hearlier := hfirst [] ('/' :: q) (by rw [hcut, ← hc, hu]; rfl)
        simp at hearlier
      · rw [if_neg hu] at hn
        exact .inr (.inr (.inr ⟨u, q, hs, hn, hm⟩))

/-! ## 3. Mechanisms -/

theorem LengthText.cases {slashes text : Str} {max n : Nat}
    (h : LengthText ('/' :: slashes) max text n) : text = [] ∨ text.head? = some '/' := by
  rcases h with ⟨rfl, -⟩ | ⟨p, rfl, -⟩
  · exact .inl rfl
  · exact .inr rfl

theorem LengthText.lengthChars {slashes text : Str} {max n : Nat}
    (h : LengthText slashes max text n) (hslashes : ∀ c ∈ slashes, c = '/') :
    ∀ c ∈ text, isLengthChar c = true := by
  intro c hc
  rcases h with ⟨rfl, -⟩ | ⟨p, rfl, hp, -⟩
  · cases hc
  · rcases List.mem_append.mp hc with hc | hc
    · rw [hslashes c hc]
      decide
    · rw [isLengthChar, (isPlainNumber_iff.mp hp).2.1 c hc]
      rfl

-- both lengths together, cut off at the first slash
theorem cidr_cases {cidr4 cidr6 : Str} {v4 v6 : Nat} (h4 : LengthText ['/'] 32 cidr4 v4)
    (h6 : LengthText ['/', '/'] 128 cidr6 v6) :
    (∀ c ∈ cidr4 ++ cidr6, isLengthChar c = true) ∧
      (cidr4 ++ cidr6 = [] ∨ (cidr4 ++ cidr6).head? = some '/') := by
  refine ⟨?_, ?_⟩
  · intro c hc
    rcases List.mem_append.mp hc with hc | hc
    · exact h4.lengthChars (by simp) c hc
    · exact h6.lengthChars (by simp) c hc
  · rcases h4.cases with rfl | h
    · exact h6.cases
    · right
      rw [List.head?_append, h]
      rfl

theorem takeWhile_slash {s cidr : Str} (hs : '/' ∉ s) (hcidr : cidr = [] ∨ cidr.head? = some '/') :
    (s ++ cidr).takeWhile (· ≠ '/') = s ∧ (s ++ cidr).dropWhile (· ≠ '/') = cidr := by
  have hall : ∀ c ∈ s, decide (c ≠ '/') = true := by
    intro c hc
    rw [decide_eq_true_eq]
    rintro rfl
    exact hs hc
  rw [List.takeWhile_append_of_pos hall, List.dropWhile_append_of_pos hall]
  rcases hcidr with rfl | h
  · simp
  · obtain ⟨r, rfl⟩ := List.head?_eq_some_iff.mp h
    simp

theorem filter_of_ne_nil {s : Str} (h : s ≠ []) : (some s).filter (· ≠ []) = some s := by
  rw [Option.filter_some, if_pos (by simpa using h)]

theorem parseDomainAndDualCidr_some {rest : Str} (h : rest ≠ []) :
    parseDomainAndDualCidr (some rest) =
      (parseDualCidr (rest.dropWhile (· ≠ '/'))).map fun p =>
        (if rest.takeWhile (· ≠ '/') = [] then none else some (rest.takeWhile (· ≠ '/')), p) := by
  unfold parseDomainAndDualCidr
  rw [filter_of_ne_nil h]

/-- The text behind the name of `a` and `mx`, for a domain-spec without a slash. -/
theorem parseDomainAndDualCidr_of_text {name target cidr4 cidr6 : Str} {domain : Option Str}
    {v4 v6 : Nat} (hname : IsName name) (ht : TargetText target domain)
    (h4 : LengthText ['/'] 32 cidr4 v4) (h6 : LengthText ['/', '/'] 128 cidr6 v6)
    (hslash : ∀ s ∈ domain, '/' ∉ s) :
    ∃ rest, splitMechanism (name ++ (target ++ (cidr4 ++ cidr6))) = (name, rest) ∧
      parseDomainAndDualCidr rest = .ok (domain, v4, v6) := by
  have hread := parseDualCidr_of_text h4 h6
  obtain ⟨hchars, hcidr⟩ := cidr_cases h4 h6
  generalize cidr4 ++ cidr6 = cidr at hread hchars hcidr
  rcases ht with ⟨rfl, rfl⟩ | ⟨spec, rfl, rfl, hspec⟩
  · rw [List.nil_append]
    rcases hcidr with rfl | hhead
    · refine ⟨none, ?_, ?_⟩
      · rw [List.append_nil]
        exact hname.splitMechanism_self
      · cases hread
        rfl
    · obtain ⟨r, rfl⟩ := List.head?_eq_some_iff.mp hhead
      have hcolon : ':' ∉ r := fun hc =>
        absurd (hchars ':' (List.mem_cons_of_mem _ hc)) (by decide)
      refine ⟨some ('/' :: r), hname.splitMechanism_slash hcolon, ?_⟩
      have hcut := @takeWhile_slash [] ('/' :: r) (by simp) (.inr rfl)
      rw [List.nil_append] at hcut
      rw [parseDomainAndDualCidr_some (by simp), hcut.1, hcut.2, hread]
      rfl
  · refine ⟨some (spec ++ cidr), hname.splitMechanism_colon _, ?_⟩
    have hne := hspec.ne_nil
    obtain ⟨htake, hdrop⟩ := takeWhile_slash (hslash spec rfl) hcidr
    rw [parseDomainAndDualCidr_some (by simp [hne]), htake, hdrop, hread, if_neg hne]
    rfl

-- the domain that is read has no slash in it
theorem slash_not_mem_of_parse {rest domain : Option Str} {spec : Str} {v4 v6 : Nat}
    (h : parseDomainAndDualCidr rest = .ok (domain, v4, v6)) (hspec : domain = some spec) :
    '/' ∉ spec := by
  unfold parseDomainAndDualCidr at h
  split at h
  · cases h
    cases hspec
  · obtain ⟨p, -, hpair⟩ := map_eq_ok_iff.mp h
    cases hpair
    split at hspec
    · cases hspec
    · cases hspec
      intro hmem
      have hne := List.mem_takeWhile_imp hmem
      simp at hne

theorem IsName.exists_splitMechanism_host {name target cidr4 cidr6 : Str} {domain : Option Str}
    {v4 v6 : Nat} (hname : IsName name) (ht : TargetText target domain)
    (h4 : LengthText ['/'] 32 cidr4 v4) (h6 : LengthText ['/', '/'] 128 cidr6 v6) :
    ∃ rest, splitMechanism (name ++ (target ++ (cidr4 ++ cidr6))) = (name, rest) := by
  obtain ⟨hchars, hcidr⟩ := cidr_cases h4 h6
  rcases ht with ⟨rfl, rfl⟩ | ⟨spec, rfl, rfl, -⟩
  · rcases hcidr with hnil | hhead
    · rw [hnil, List.append_nil, List.append_nil]
      exact ⟨none, hname.splitMechanism_self⟩
    · obtain ⟨r, hr⟩ := List.head?_eq_some_iff.mp hhead
      rw [hr] at hchars ⊢
      exact ⟨_, hname.splitMechanism_slash fun hc =>
        absurd (hchars ':' (List.mem_cons_of_mem _ hc)) (by decide)⟩
  · exact ⟨_, hname.splitMechanism_colon _⟩

theorem host_text_iff {name target cidr4 cidr6 : Str} {domain : Option Str} {v4 v6 : Nat}
    (hname : IsName name) (ht : TargetText target domain) (h4 : LengthText ['/'] 32 cidr4 v4)
    (h6 : LengthText ['/', '/'] 128 cidr6 v6) {f : Option Str × Nat × Nat → Mechanism}
    (hf : Function.Injective f) :
    (parseDomainAndDualCidr (splitMechanism (name ++ (target ++ (cidr4 ++ cidr6)))).2).map f =
      .ok (f (domain, v4, v6)) ↔ ∀ s ∈ domain, '/' ∉ s := by
  apply Iff.intro
  · intro h s hs
    obtain ⟨p, hp, hpair⟩ := map_eq_ok_iff.mp h
    rw [hf hpair] at hp
    exact slash_not_mem_of_parse hp hs
  · intro hslash
    obtain ⟨rest, hsplit, hread⟩ := parseDomainAndDualCidr_of_text hname ht h4 h6 hslash
    rw [hsplit]
    dsimp only
    rw [hread]
    rfl

-- an address whose length has been read
def addressed {α : Type} (family : String) (parseAddr : Str → Option α) (addr : Str) (n : Nat) :
    Except NetworkError (α × Nat) :=
  match parseAddr addr with
  | some net => .ok (net, n)
  | none => recordErr ("bad ".toList ++ family.toList ++ " address `".toList ++ addr ++ "`".toList)

theorem parseIpCidr_of_text {α : Type} {family : String} {max : Nat} {parseAddr : Str → Option α}
    {addr cidr : Str} {net : α} {n : Nat} (haddr : parseAddr addr = some net)
    (hslash : '/' ∉ addr) (h : LengthText ['/'] max cidr n) (hmax : max ≤ 255) :
    parseIpCidr family max parseAddr (addr ++ cidr) = .ok (net, n) := by
  unfold parseIpCidr
  rcases h with ⟨rfl, rfl⟩ | ⟨p, rfl, hp, hn, hle⟩
  · rw [List.append_nil, splitOnce_eq_none_iff.mpr hslash]
    change addressed family parseAddr addr n = _
    rw [addressed, haddr]
  · rw [List.singleton_append, splitOnce_append_cons hslash]
    dsimp only
    rw [parsePrefix_of_plain hp hn hle hmax]
    change addressed family parseAddr addr n = _
    rw [addressed, haddr]

theorem slash_not_mem_of_addrText {addr : Str} (h : ∀ c ∈ addr, isAddrText c = true) : '/' ∉ addr :=
  fun hc => absurd (h '/' hc) (by decide)

-- what follows the name, by the name
section
variable {body : Str}

theorem parseMechanism_all (h : toAsciiLowercase (splitMechanism body).1 = "all".toList) :
    parseMechanism body = .ok .all := by
  unfold parseMechanism
  dsimp only
  rw [h]
  rfl

theorem parseMechanism_ip4 (h : toAsciiLowercase (splitMechanism body).1 = "ip4".toList) :
    parseMechanism body = match (splitMechanism body).2 with
      | none => recordErr "ip4 requires an address".toList
      | some spec => (parseIp4Cidr spec).map fun p => .ip4 p.1 p.2 := by
  unfold parseMechanism
  dsimp only
  rw [h]
  rfl

theorem parseMechanism_ip6 (h : toAsciiLowercase (splitMechanism body).1 = "ip6".toList) :
    parseMechanism body = match (splitMechanism body).2 with
      | none => recordErr "ip6 requires an address".toList
      | some spec => (parseIp6Cidr spec).map fun p => .ip6 p.1 p.2 := by
  unfold parseMechanism
  dsimp only
  rw [h]
  rfl

theorem parseMechanism_a (h : toAsciiLowercase (splitMechanism body).1 = "a".toList) :
    parseMechanism body =
      (parseDomainAndDualCidr (splitMechanism body).2).map fun p => .a p.1 p.2.1 p.2.2 := by
  unfold parseMechanism
  dsimp only
  rw [h]
  rfl

theorem parseMechanism_mx (h : toAsciiLowercase (splitMechanism body).1 = "mx".toList) :
    parseMechanism body =
      (parseDomainAndDualCidr (splitMechanism body).2).map fun p => .mx p.1 p.2.1 p.2.2 := by
  unfold parseMechanism
  dsimp only
  rw [h]
  rfl

theorem parseMechanism_include (h : toAsciiLowercase (splitMechanism body).1 = "include".toList) :
    parseMechanism body = match (splitMechanism body).2.filter (· ≠ []) with
      | none => recordErr "include requires a domain".toList
      | some spec => .ok (.include spec) := by
  unfold parseMechanism
  dsimp only
  rw [h]
  rfl

theorem parseMechanism_exists (h : toAsciiLowercase (splitMechanism body).1 = "exists".toList) :
    parseMechanism body = match (splitMechanism body).2.filter (· ≠ []) with
      | none => recordErr "exists requires a domain".toList
      | some spec => .ok (.exists spec) := by
  unfold parseMechanism
  dsimp only
  rw [h]
  rfl

theorem parseMechanism_ptr (h : toAsciiLowercase (splitMechanism body).1 = "ptr".toList) :
    parseMechanism body = .ok (.ptr ((splitMechanism body).2.filter (· ≠ []))) := by
  unfold parseMechanism
  dsimp only
  rw [h]
  rfl

end

-- the domain-spec of the mechanisms that may have lengths behind it
def Mechanism.hostSpec : Mechanism → Option Str
  | .a domain _ _ | .mx domain _ _ => domain
  | _ => none

/-- A mechanism is read from any of its texts, unless the domain-spec of an `a` or `mx` has a slash
in it. -/
theorem parseMechanism_text_iff {body : Str} {m : Mechanism} (h : MechanismText body m) :
    parseMechanism body = .ok m ↔ ∀ s ∈ m.hostSpec, '/' ∉ s := by
  have hfree : ∀ {m : Mechanism}, m.hostSpec = none → ∀ s ∈ m.hostSpec, '/' ∉ s := by
    intro m hm s hs
    rw [hm] at hs
    cases hs
  cases h with
  | @all name hn =>
    have hname := isName_of_lowercase hn (by decide) (by decide)
    refine iff_of_true (parseMechanism_all ?_) (hfree rfl)
    rw [hname.splitMechanism_self]
    exact hn
  | @ip4 name addr cidr net n hn haddr hcidr =>
    have hsplit := (isName_of_lowercase hn (by decide) (by decide)).splitMechanism_colon
      (addr ++ cidr)
    have hslash := slash_not_mem_of_addrText fun c hc => isAddrText_of_parse_v4 haddr hc
    refine iff_of_true ?_ (hfree rfl)
    rw [parseMechanism_ip4 (by rw [hsplit]; exact hn), hsplit]
    dsimp only
    rw [parseIp4Cidr, parseIpCidr_of_text haddr hslash hcidr (by decide)]
    rfl
  | @ip6 name addr cidr net n hn haddr hcidr =>
    have hsplit := (isName_of_lowercase hn (by decide) (by decide)).splitMechanism_colon
      (addr ++ cidr)
    have hslash := slash_not_mem_of_addrText fun c hc => isAddrText_of_parse_v6 haddr hc
    refine iff_of_true ?_ (hfree rfl)
    rw [parseMechanism_ip6 (by rw [hsplit]; exact hn), hsplit]
    dsimp only
    rw [parseIp6Cidr, parseIpCidr_of_text haddr hslash hcidr (by decide)]
    rfl
  | @a name target cidr4 cidr6 domain v4 v6 hn ht h4 h6 =>
    have hname := isName_of_lowercase hn (by decide) (by decide)
    obtain ⟨rest, hsplit⟩ := hname.exists_splitMechanism_host ht h4 h6
    rw [parseMechanism_a (by rw [hsplit]; exact hn)]
    apply host_text_iff hname ht h4 h6 (f := fun p => .a p.1 p.2.1 p.2.2)
    rintro ⟨d, n, m⟩ ⟨d', n', m'⟩ heq
    cases heq
    rfl
  | @mx name target cidr4 cidr6 domain v4 v6 hn ht h4 h6 =>
    have hname := isName_of_lowercase hn (by decide) (by decide)
    obtain ⟨rest, hsplit⟩ := hname.exists_splitMechanism_host ht h4 h6
    rw [parseMechanism_mx (by rw [hsplit]; exact hn)]
    apply host_text_iff hname ht h4 h6 (f := fun p => .mx p.1 p.2.1 p.2.2)
    rintro ⟨d, n, m⟩ ⟨d', n', m'⟩ heq
    cases heq
    rfl
  | @includeSpec name spec hn hspec =>
    have hsplit := (isName_of_lowercase hn (by decide) (by decide)).splitMechanism_colon spec
    refine iff_of_true ?_ (hfree rfl)
    rw [parseMechanism_include (by rw [hsplit]; exact hn), hsplit]
    dsimp only
    rw [filter_of_ne_nil hspec.ne_nil]
  | @existsSpec name spec hn hspec =>
    have hsplit := (isName_of_lowercase hn (by decide) (by decide)).splitMechanism_colon spec
    refine iff_of_true ?_ (hfree rfl)
    rw [parseMechanism_exists (by rw [hsplit]; exact hn), hsplit]
    dsimp only
    rw [filter_of_ne_nil hspec.ne_nil]
  | @ptr name target domain hn ht =>
    have hname := isName_of_lowercase hn (by decide) (by decide)
    refine iff_of_true ?_ (hfree rfl)
    rcases ht with ⟨rfl, rfl⟩ | ⟨spec, rfl, rfl, hspec⟩
    · rw [List.append_nil]
      have hsplit := hname.splitMechanism_self
      rw [parseMechanism_ptr (by rw [hsplit]; exact hn), hsplit]
      rfl
    · have hsplit := hname.splitMechanism_colon spec
      rw [parseMechanism_ptr (by rw [hsplit]; exact hn), hsplit]
      dsimp only
      rw [filter_of_ne_nil hspec.ne_nil]

/-! ## 4. Directives -/

theorem TargetText.shape {target : Str} {domain : Option Str} (h : TargetText target domain) :
    (∀ c ∈ target, isWhitespace c = false) ∧ (target = [] ∨ ∃ v, target = ':' :: v) := by
  rcases h with ⟨rfl, -⟩ | ⟨spec, rfl, -, hspec⟩
  · exact ⟨by simp, .inl rfl⟩
  · refine ⟨?_, .inr ⟨spec, rfl⟩⟩
    intro c hc
    rcases List.mem_cons.mp hc with rfl | hc
    · decide
    · exact not_isWhitespace_of_isVisible (hspec.visible hc)

theorem not_isWhitespace_of_isLengthChar {c : Char} (h : isLengthChar c = true) :
    isWhitespace c = false := by
  rw [isLengthChar, Bool.or_eq_true, Bool.or_eq_true, beq_iff_eq, beq_iff_eq] at h
  rcases h with (h | rfl) | rfl
  · apply not_isWhitespace_of_isVisible
    apply isVisible_of_isAlphanum
    rw [Char.isAlphanum, h, Bool.or_true]
  · decide
  · decide

theorem colon_shape {name tail : Str} (hname : IsName name)
    (htail : ∀ c ∈ tail, isWhitespace c = false) :
    ∃ n t, name ++ ':' :: tail = n ++ t ∧ IsName n ∧ (∀ c ∈ t, isWhitespace c = false) ∧
      ('=' ∉ t ∨ ∃ v, t = ':' :: v) := by
  refine ⟨name, ':' :: tail, rfl, hname, ?_, .inr ⟨tail, rfl⟩⟩
  intro c hc
  rcases List.mem_cons.mp hc with rfl | hc
  · decide
  · exact htail c hc

theorem addr_cidr_visible {addr cidr : Str} {max n : Nat}
    (haddr : ∀ c ∈ addr, isAddrText c = true) (hcidr : LengthText ['/'] max cidr n) :
    ∀ c ∈ addr ++ cidr, isWhitespace c = false := by
  intro c hc
  rcases List.mem_append.mp hc with hc | hc
  · exact not_isWhitespace_of_isAddrText (haddr c hc)
  · exact not_isWhitespace_of_isLengthChar (hcidr.lengthChars (by simp) c hc)

theorem host_shape {name target cidr4 cidr6 : Str} {domain : Option Str} {v4 v6 : Nat}
    (hname : IsName name) (ht : TargetText target domain) (h4 : LengthText ['/'] 32 cidr4 v4)
    (h6 : LengthText ['/', '/'] 128 cidr6 v6) :
    ∃ n t, name ++ (target ++ (cidr4 ++ cidr6)) = n ++ t ∧ IsName n ∧
      (∀ c ∈ t, isWhitespace c = false) ∧ ('=' ∉ t ∨ ∃ v, t = ':' :: v) := by
  obtain ⟨htarget, hcolon⟩ := ht.shape
  obtain ⟨hchars, -⟩ := cidr_cases h4 h6
  refine ⟨name, target ++ (cidr4 ++ cidr6), rfl, hname, ?_, ?_⟩
  · intro c hc
    rcases List.mem_append.mp hc with hc | hc
    · exact htarget c hc
    · exact not_isWhitespace_of_isLengthChar (hchars c hc)
  · rcases hcolon with rfl | ⟨v, rfl⟩
    · left
      intro heq
      exact absurd (hchars '=' heq) (by decide)
    · exact .inr ⟨v ++ (cidr4 ++ cidr6), rfl⟩

/-- A mechanism is a name and a rest without white space; an equals sign stands behind a colon. -/
theorem MechanismText.shape {body : Str} {m : Mechanism} (h : MechanismText body m) :
    ∃ name tail, body = name ++ tail ∧ IsName name ∧ (∀ c ∈ tail, isWhitespace c = false) ∧
      ('=' ∉ tail ∨ ∃ v, tail = ':' :: v) := by
  cases h with
  | @all name hn =>
    exact ⟨body, [], by simp, isName_of_lowercase hn (by decide) (by decide), by simp,
      .inl (by simp)⟩
  | ip4 hn haddr hcidr =>
    exact colon_shape (isName_of_lowercase hn (by decide) (by decide))
      (addr_cidr_visible (fun c hc => isAddrText_of_parse_v4 haddr hc) hcidr)
  | ip6 hn haddr hcidr =>
    apply colon_shape (isName_of_lowercase hn (by decide) (by decide))
    exact addr_cidr_visible (fun c hc => isAddrText_of_parse_v6 haddr hc) hcidr
  | a hn ht h4 h6 => exact host_shape (isName_of_lowercase hn (by decide) (by decide)) ht h4 h6
  | mx hn ht h4 h6 => exact host_shape (isName_of_lowercase hn (by decide) (by decide)) ht h4 h6
  | includeSpec hn hspec =>
    exact colon_shape (isName_of_lowercase hn (by decide) (by decide)) fun c hc =>
      not_isWhitespace_of_isVisible (hspec.visible hc)
  | existsSpec hn hspec =>
    exact colon_shape (isName_of_lowercase hn (by decide) (by decide)) fun c hc =>
      not_isWhitespace_of_isVisible (hspec.visible hc)
  | @ptr name target domain hn ht =>
    obtain ⟨htarget, hcolon⟩ := ht.shape
    refine ⟨name, target, rfl, isName_of_lowercase hn (by decide) (by decide), htarget, ?_⟩
    rcases hcolon with rfl | hcolon
    · exact .inl (by simp)
    · exact .inr hcolon

-- a colon in front of the first equals sign makes a term a mechanism
theorem splitModifier_eq_none {u tail : Str} (hu : '=' ∉ u)
    (htail : '=' ∉ tail ∨ ∃ v, tail = ':' :: v) : splitModifier (u ++ tail) = none := by
  unfold splitModifier
  cases hs : splitOnce '=' (u ++ tail) with
  | none => rfl
  | some p =>
    obtain ⟨hcut, hfirst⟩ := splitOnce_eq_some_iff.mp hs
    have hcolon : ':' ∈ p.1 := by
      rcases htail with htail | ⟨v, rfl⟩
      · exfalso
        have hmem : '=' ∈ u ++ tail := by
          rw [hcut]
          simp
        rcases List.mem_append.mp hmem with h | h
        · exact hu h
        · exact htail h
      · rcases List.append_eq_append_iff.mp hcut with ⟨w, hw, hw'⟩ | ⟨w, hw, hw'⟩
        · cases w with
          | nil => cases (List.cons.inj hw').1
          | cons c w =>
            rw [hw, (List.cons.inj hw').1]
            simp
        · cases w with
          | nil => cases (List.cons.inj hw').1
          | cons c w =>
            exfalso
            apply hu
            rw [hw, (List.cons.inj hw').1]
            simp
    dsimp only
    rw [if_pos hcolon]

theorem DirectiveText.shape {term : Str} {d : Directive} (h : DirectiveText term d) :
    term ≠ [] ∧ (∀ c ∈ term, isWhitespace c = false) ∧ splitModifier term = none := by
  rcases h with ⟨-, hm⟩ | ⟨q, body, rfl, hq, hm⟩
  · obtain ⟨name, tail, rfl, hname, htail, heq⟩ := hm.shape
    refine ⟨by simp [hname.ne_nil], ?_, splitModifier_eq_none hname.equals heq⟩
    intro c hc
    rcases List.mem_append.mp hc with hc | hc
    · exact hname.visible c hc
    · exact htail c hc
  · obtain ⟨name, tail, rfl, hname, htail, heq⟩ := hm.shape
    have hplain : isWhitespace q = false ∧ q ≠ '=' := by
      unfold Qualifier.fromChar at hq
      split at hq
      · decide
      · decide
      · decide
      · decide
      · cases hq
    refine ⟨by simp, ?_, ?_⟩
    · intro c hc
      rcases List.mem_cons.mp hc with rfl | hc
      · exact hplain.1
      · rcases List.mem_append.mp hc with hc | hc
        · exact hname.visible c hc
        · exact htail c hc
    · have hu : '=' ∉ q :: name := by
        simp [hplain.2.symm, hname.equals]
      exact splitModifier_eq_none hu heq

theorem parseDirective_text_iff {term : Str} {d : Directive} (h : DirectiveText term d) :
    parseDirective term = .ok d ↔ ∀ s ∈ d.mechanism.hostSpec, '/' ∉ s := by
  obtain ⟨qualifier, mechanism⟩ := d
  rcases h with ⟨hq, hm⟩ | ⟨q, body, rfl, hq, hm⟩
  · rw [← parseMechanism_text_iff hm]
    obtain ⟨name, tail, rfl, hname, -⟩ := hm.shape
    obtain ⟨c, r, rfl⟩ := List.exists_cons_of_ne_nil hname.ne_nil
    have hc := hname.unqualified c rfl
    rw [List.cons_append, parseDirective, hc]
    dsimp only at hq ⊢
    rw [hq]
    cases parseMechanism (c :: (r ++ tail)) with
    | error e => simp [Except.map]
    | ok m => simp [Except.map]
  · rw [← parseMechanism_text_iff hm, parseDirective, hq]
    dsimp only
    cases parseMechanism body with
    | error e => simp [Except.map]
    | ok m => simp [Except.map]

/-! ## 5. Records -/

/-- The text of a record: its version, its directives and its `redirect` modifier. -/
def recordText (terms : List Str) (redirect : Option Str) : Str :=
  [' '].intercalate
    ("v=spf1".toList :: (terms ++ (redirect.map fun s => "redirect=".toList ++ s).toList))

-- the loop over terms that are no modifiers
theorem parseTerms_append {terms : List Str} (h : ∀ t ∈ terms, splitModifier t = none)
    (more : List Str) (directives : List Directive) (redirect : Option Str) :
    parseTerms (terms ++ more) directives redirect =
      (terms.mapM parseDirective).bind fun ds => parseTerms more (directives ++ ds) redirect := by
  induction terms generalizing directives with
  | nil =>
    rw [List.mapM_nil]
    show _ = parseTerms more (directives ++ []) redirect
    rw [List.append_nil, List.nil_append]
  | cons t terms ih =>
    rw [List.cons_append, parseTerms, h t List.mem_cons_self, List.mapM_cons]
    dsimp only
    cases parseDirective t with
    | error e => rfl
    | ok d =>
      dsimp only
      rw [ih fun t ht => h t (List.mem_cons_of_mem _ ht)]
      show _ = ((terms.mapM parseDirective).bind fun ds => .ok (d :: ds)).bind _
      cases terms.mapM parseDirective with
      | error e => rfl
      | ok ds =>
        show parseTerms more (directives ++ [d] ++ ds) redirect =
          parseTerms more (directives ++ d :: ds) redirect
        rw [List.append_assoc, List.singleton_append]

theorem parseTerms_redirect (redirect : Option Str) (directives : List Directive) :
    parseTerms (redirect.map fun s => "redirect=".toList ++ s).toList directives none =
      .ok ⟨directives, redirect⟩ := by
  cases redirect with
  | none => rfl
  | some s =>
    have hmodifier : splitModifier ("redirect=".toList ++ s) = some ("redirect".toList, s) := by
      have hsplit : splitOnce '=' ("redirect".toList ++ '=' :: s) = some ("redirect".toList, s) :=
        splitOnce_append_cons (by decide)
      unfold splitModifier
      rw [show "redirect=".toList ++ s = "redirect".toList ++ '=' :: s from rfl, hsplit]
      rfl
    rw [Option.map_some, Option.toList_some, parseTerms, hmodifier]
    rfl

theorem shape_of_mem {terms : List Str} {directives : List Directive}
    (h : List.Forall₂ DirectiveText terms directives) {t : Str} (ht : t ∈ terms) :
    t ≠ [] ∧ (∀ c ∈ t, isWhitespace c = false) ∧ splitModifier t = none := by
  induction h with
  | nil => cases ht
  | cons hd _ ih =>
    rcases List.mem_cons.mp ht with rfl | ht
    · exact hd.shape
    · exact ih ht

theorem parseDirectives_text_iff {terms : List Str} {directives : List Directive}
    (h : List.Forall₂ DirectiveText terms directives) :
    List.Forall₂ (fun t d => parseDirective t = .ok d) terms directives ↔
      ∀ d ∈ directives, ∀ s ∈ d.mechanism.hostSpec, '/' ∉ s := by
  induction h with
  | nil => simp
  | cons hd _ ih => rw [List.forall₂_cons, parseDirective_text_iff hd, ih, List.forall_mem_cons]

theorem splitWhitespace_recordText {terms : List Str} {directives : List Directive}
    (h : List.Forall₂ DirectiveText terms directives) {redirect : Option Str}
    (hredirect : ∀ s ∈ redirect, IsDomainSpec s) :
    splitWhitespace (recordText terms redirect) =
      "v=spf1".toList :: (terms ++ (redirect.map fun s => "redirect=".toList ++ s).toList) := by
  have hliteral : ∀ l : Str, l.all isVisible = true → ∀ c ∈ l, isWhitespace c = false :=
    fun l hl c hc => not_isWhitespace_of_isVisible (List.all_eq_true.mp hl c hc)
  apply splitWhitespace_intercalate
  intro w hw
  rw [List.mem_cons, List.mem_append, Option.mem_toList] at hw
  rcases hw with rfl | hw | hw
  · exact ⟨by decide, hliteral _ (by decide)⟩
  · have hshape := shape_of_mem h hw
    exact ⟨hshape.1, hshape.2.1⟩
  · obtain ⟨s, hs, rfl⟩ := Option.map_eq_some_iff.mp hw
    refine ⟨by simp, ?_⟩
    intro c hc
    rcases List.mem_append.mp hc with hc | hc
    · exact hliteral _ (by decide) c hc
    · exact not_isWhitespace_of_isVisible ((hredirect s hs).visible hc)

/-- A record is read back from its text exactly if no domain-spec of an `a` or `mx` directive has a
slash in it. -/
theorem record_round_trip_iff {terms : List Str} {directives : List Directive}
    (hterms : List.Forall₂ DirectiveText terms directives) {redirect : Option Str}
    (hredirect : ∀ s ∈ redirect, IsDomainSpec s) :
    SpfRecord.parse (recordText terms redirect) = .ok ⟨directives, redirect⟩ ↔
      ∀ d ∈ directives, ∀ s ∈ d.mechanism.hostSpec, '/' ∉ s := by
  have hparse : SpfRecord.parse (recordText terms redirect) =
      (terms.mapM parseDirective).bind fun ds => .ok ⟨ds, redirect⟩ := by
    unfold SpfRecord.parse
    rw [splitWhitespace_recordText hterms hredirect]
    dsimp only
    rw [if_pos (by decide), parseTerms_append fun t ht => (shape_of_mem hterms ht).2.2]
    congr 1
    funext ds
    exact parseTerms_redirect redirect ds
  rw [hparse, ← parseDirectives_text_iff hterms, ← mapM_eq_ok_iff]
  cases terms.mapM parseDirective with
  | error e => simp [Except.bind]
  | ok ds => simp [Except.bind]

theorem MacroString.of_literals {s : Str} (h : s.all (fun c => isVisible c && c != '%') = true) :
    MacroString s := by
  induction s with
  | nil => exact .nil
  | cons c s ih =>
    rw [List.all_cons, Bool.and_eq_true, Bool.and_eq_true, bne_iff_ne] at h
    exact .literal h.1.1 h.1.2 (ih h.2)

-- a macro in front of a plain name
theorem isDomainSpec_macro (delim : Char) (h : delimiters.contains delim = true) :
    IsDomainSpec ("%\x7bd".toList ++ delim :: "\x7d.example.com".toList) := by
  have hmacro : MacroExpand ('%' :: '{' :: 'd' :: ([] ++ ([] ++ ([delim] ++ ['}'])))) :=
    .body (by decide) (by decide) (by decide) (by simpa using h)
  have hname : MacroString ".example".toList := .of_literals (by decide)
  exact ⟨_, ".com".toList, rfl, .expand hmacro hname, .inl ⟨"com".toList, by decide, .inl rfl⟩⟩

theorem record_round_trip_macro :
    SpfRecord.parse
        "v=spf1 ~mx:%\x7bd-\x7d.example.com/24//64 redirect=%\x7bd/\x7d.example.com".toList =
      .ok ⟨[⟨.softFail, .mx (some "%\x7bd-\x7d.example.com".toList) 24 64⟩],
        some "%\x7bd/\x7d.example.com".toList⟩ := by
  have hmx : MechanismText "mx:%\x7bd-\x7d.example.com/24//64".toList
      (.mx (some "%\x7bd-\x7d.example.com".toList) 24 64) :=
    @MechanismText.mx "mx".toList ":%\x7bd-\x7d.example.com".toList "/24".toList "//64".toList
      _ _ _ (by decide) (.inr ⟨_, rfl, rfl, isDomainSpec_macro '-' (by decide)⟩)
      (.inr ⟨"24".toList, rfl, by decide, by decide, by decide⟩)
      (.inr ⟨"64".toList, rfl, by decide, by decide, by decide⟩)
  have hterm : DirectiveText "~mx:%\x7bd-\x7d.example.com/24//64".toList
      ⟨.softFail, .mx (some "%\x7bd-\x7d.example.com".toList) 24 64⟩ :=
    .inr ⟨'~', _, rfl, rfl, hmx⟩
  refine (@record_round_trip_iff _ _ (.cons hterm .nil) (some "%\x7bd/\x7d.example.com".toList)
    ?_).mpr ?_
  · intro s hs
    cases hs
    exact isDomainSpec_macro '/' (by decide)
  · intro d hd s hs
    rw [List.mem_singleton.mp hd] at hs
    cases hs
    decide

/-- A macro that splits at slashes is cut in two: the record is refused. -/
theorem record_round_trip_refused :
    DirectiveText "a:%\x7bd/\x7d.example.com".toList
      ⟨.pass, .a (some "%\x7bd/\x7d.example.com".toList) 32 128⟩ ∧
    SpfRecord.parse (recordText ["a:%\x7bd/\x7d.example.com".toList] none) =
      recordErr "bad CIDR prefix `\x7d.example.com`".toList := by
  refine ⟨.inl ⟨rfl, ?_⟩, by decide +kernel⟩
  exact @MechanismText.a "a".toList ":%\x7bd/\x7d.example.com".toList [] [] _ _ _ (by decide)
    (.inr ⟨_, rfl, rfl, isDomainSpec_macro '/' (by decide)⟩) (.inl ⟨rfl, rfl⟩) (.inl ⟨rfl, rfl⟩)

end Snail.Network.Spf
