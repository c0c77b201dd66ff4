import Snail.Network.Spf.RoundTrip

/-!
# Malformed — which records the parser lets through

A term of an accepted record against the grammar of RFC 7208.
-/

open Snail.Reasoning

namespace Snail.Network.Spf

/-! ## 1. Terms -/

/-- `name=value` with the name of a modifier. -/
def IsModifierText (term : Str) : Prop :=
  ∃ name value, term = name ++ '=' :: value ∧ name.head?.any Char.isAlpha = true ∧
    name.tail.all (fun c => c.isAlphanum || c == '-' || c == '_' || c == '.') = true

theorem splitModifier_isSome_iff {term : Str} :
    (splitModifier term).isSome = true ↔ IsModifierText term := by
  apply Iff.intro
  · intro h
    unfold splitModifier at h
    split at h
    · cases h
    · rename_i name rest hs
      dsimp only at h
      split at h
      · cases h
      · split at h
        · rename_i hok
          rw [Bool.and_eq_true] at hok
          exact ⟨name, rest, (splitOnce_eq_some_iff.mp hs).1, hok.1, hok.2⟩
        · cases h
  · rintro ⟨name, value, rfl, hfirst, hrest⟩
    have hplain : ∀ c ∈ name, (c.isAlphanum || c == '-' || c == '_' || c == '.') = true := by
      intro c hc
      cases name with
      | nil => cases hc
      | cons d name =>
        rcases List.mem_cons.mp hc with rfl | hc
        · have halpha : c.isAlpha = true := hfirst
          rw [Char.isAlphanum, halpha]
          rfl
        · exact List.all_eq_true.mp hrest c hc
    have hequals : '=' ∉ name := fun hc => absurd (hplain '=' hc) (by decide)
    have hcolon : ':' ∉ name := fun hc => absurd (hplain ':' hc) (by decide)
    unfold splitModifier
    rw [splitOnce_append_cons hequals]
    dsimp only
    rw [if_neg hcolon, hfirst, hrest]
    rfl

-- a term without its qualifier
def unqualified : Str → Str
  | [] => []
  | c :: rest => if (Qualifier.fromChar c).isSome then rest else c :: rest

theorem parseDirective_ok {term : Str} {d : Directive} (h : parseDirective term = .ok d) :
    parseMechanism (unqualified term) = .ok d.mechanism := by
  cases term with
  | nil => cases h
  | cons c rest =>
    rw [parseDirective] at h
    rw [unqualified]
    cases hq : Qualifier.fromChar c with
    | none =>
      rw [hq] at h
      obtain ⟨m, hm, rfl⟩ := map_eq_ok_iff.mp h
      exact hm
    | some q =>
      rw [hq] at h
      obtain ⟨m, hm, rfl⟩ := map_eq_ok_iff.mp h
      exact hm

-- a directive is a mechanism behind a qualifier that can be taken off
theorem exists_directiveText_iff {term : Str} :
    (∃ d, DirectiveText term d) ↔ ∃ m, MechanismText (unqualified term) m := by
  apply Iff.intro
  · rintro ⟨d, ⟨-, hm⟩ | ⟨c, body, rfl, hq, hm⟩⟩
    · refine ⟨d.mechanism, ?_⟩
      obtain ⟨name, tail, rfl, hname, -⟩ := hm.shape
      obtain ⟨c, r, rfl⟩ := List.exists_cons_of_ne_nil hname.ne_nil
      rw [List.cons_append, unqualified, hname.unqualified c rfl]
      exact hm
    · refine ⟨d.mechanism, ?_⟩
      rw [unqualified, hq]
      exact hm
  · rintro ⟨m, hm⟩
    cases term with
    | nil => exact ⟨⟨.pass, m⟩, .inl ⟨rfl, hm⟩⟩
    | cons c rest =>
      rw [unqualified] at hm
      cases hq : Qualifier.fromChar c with
      | none =>
        rw [hq] at hm
        exact ⟨⟨.pass, m⟩, .inl ⟨rfl, hm⟩⟩
      | some q =>
        rw [hq] at hm
        exact ⟨⟨q, m⟩, .inr ⟨c, rest, rfl, hq, hm⟩⟩

/-! ## 2. What the parser does not look at -/

-- a mechanism is cut at its first colon or slash
def mechName (body : Str) : Str :=
  toAsciiLowercase (body.takeWhile fun c => c != ':' && c != '/')

def mechTail (body : Str) : Str := body.dropWhile fun c => c != ':' && c != '/'

-- what stands behind the slashes of a text is empty or a plain number
def PlainLengths (s : Str) : Prop :=
  ∀ p ∈ (s.splitOn '/').tail, p ≠ [] → isPlainNumber p = true

/-- The kinds of malformed mechanisms that are accepted. -/
def Lax (body : Str) : Prop :=
  -- something behind `all`
  (mechName body = "all".toList ∧ mechTail body ≠ []) ∨
  -- a slash for the colon, or no domain-spec behind it
  (mechName body ∈ ["include".toList, "exists".toList, "ptr".toList] ∧
    ((mechTail body).head? = some '/' ∨
      ∃ spec, mechTail body = ':' :: spec ∧ ¬ IsDomainSpec spec)) ∨
  -- no domain-spec between the colon and the first slash, or a slash with nothing behind it
  (mechName body ∈ ["a".toList, "mx".toList] ∧
    ((∃ rest, mechTail body = ':' :: rest ∧ ¬ IsDomainSpec (rest.takeWhile (· ≠ '/'))) ∨
      (mechTail body).getLast? = some '/')) ∨
  -- a prefix length with a sign or a leading zero
  (mechName body ∈ ["ip4".toList, "ip6".toList, "a".toList, "mx".toList] ∧
    ¬ PlainLengths (mechTail body))

theorem mech_cut {name tail : Str} (hcolon : ':' ∉ name) (hslash : '/' ∉ name)
    (htail : tail = [] ∨ tail.head? = some ':' ∨ tail.head? = some '/') :
    mechName (name ++ tail) = toAsciiLowercase name ∧ mechTail (name ++ tail) = tail := by
  have hall : ∀ c ∈ name, (c != ':' && c != '/') = true := by
    intro c hc
    rw [Bool.and_eq_true, bne_iff_ne, bne_iff_ne]
    exact ⟨fun h => hcolon (h ▸ hc), fun h => hslash (h ▸ hc)⟩
  unfold mechName mechTail
  rw [List.takeWhile_append_of_pos hall, List.dropWhile_append_of_pos hall]
  rcases htail with rfl | h | h
  · simp
  · obtain ⟨r, rfl⟩ := List.head?_eq_some_iff.mp h
    simp
  · obtain ⟨r, rfl⟩ := List.head?_eq_some_iff.mp h
    simp

def knownNames : List Str :=
  ["all".toList, "ip4".toList, "ip6".toList, "a".toList, "mx".toList, "include".toList,
    "exists".toList, "ptr".toList]

theorem known_of_parse {body : Str} {m : Mechanism} (h : parseMechanism body = .ok m) :
    toAsciiLowercase (splitMechanism body).1 ∈ knownNames := by
  by_contra hunknown
  simp only [knownNames, List.mem_cons, List.not_mem_nil, or_false, not_or] at hunknown
  obtain ⟨h1, h2, h3, h4, h5, h6, h7, h8⟩ := hunknown
  unfold parseMechanism at h
  dsimp only at h
  rw [if_neg h1, if_neg h2, if_neg h3, if_neg h4, if_neg h5, if_neg h6, if_neg h7, if_neg h8] at h
  cases h

theorem isName_of_known {name : Str} (h : toAsciiLowercase name ∈ knownNames) : IsName name := by
  simp only [knownNames, List.mem_cons, List.not_mem_nil, or_false] at h
  rcases h with h | h | h | h | h | h | h | h <;>
    exact isName_of_lowercase h (by decide) (by decide)

-- what stands behind the name of a mechanism, and what the parser sees of it
inductive Cut : Str → Option Str → Prop
  | bare : Cut [] none
  | colon (rest : Str) : Cut (':' :: rest) (some rest)
  | slash (rest : Str) : Cut ('/' :: rest) (some ('/' :: rest))

theorem Cut.head {tail : Str} {rest : Option Str} (h : Cut tail rest) :
    tail = [] ∨ tail.head? = some ':' ∨ tail.head? = some '/' := by
  cases h with
  | bare => exact .inl rfl
  | colon rest => exact .inr (.inl rfl)
  | slash rest => exact .inr (.inr rfl)

/-- An accepted mechanism is a known name with nothing behind it, or with the text behind a colon or
from a slash on. -/
theorem cut_of_parse {body : Str} {m : Mechanism} (h : parseMechanism body = .ok m) :
    ∃ name tail rest, body = name ++ tail ∧ toAsciiLowercase name ∈ knownNames ∧
      splitMechanism body = (name, rest) ∧ Cut tail rest := by
  have hknown := known_of_parse h
  cases hcolon : splitOnce ':' body with
  | some p =>
    have hsplit : splitMechanism body = (p.1, some p.2) := by
      unfold splitMechanism
      rw [hcolon]
    rw [hsplit] at hknown
    exact ⟨p.1, ':' :: p.2, _, (splitOnce_eq_some_iff.mp hcolon).1, hknown, hsplit, .colon p.2⟩
  | none =>
    cases hslash : splitOnce '/' body with
    | some p =>
      have hcut := (splitOnce_eq_some_iff.mp hslash).1
      have hsplit : splitMechanism body = (p.1, some ('/' :: p.2)) := by
        unfold splitMechanism
        rw [hcolon]
        dsimp only
        rw [hslash, hcut]
        simp
      rw [hsplit] at hknown
      exact ⟨p.1, '/' :: p.2, _, hcut, hknown, hsplit, .slash p.2⟩
    | none =>
      have hsplit : splitMechanism body = (body, none) := by
        unfold splitMechanism
        rw [hcolon]
        dsimp only
        rw [hslash]
      rw [hsplit] at hknown
      exact ⟨body, [], _, by simp, hknown, hsplit, .bare⟩

/-! ## 3. Lengths -/

theorem plainLengths_append_iff {s cidr : Str} (hs : '/' ∉ s)
    (hcidr : cidr = [] ∨ cidr.head? = some '/') :
    PlainLengths (s ++ cidr) ↔ PlainLengths cidr := by
  unfold PlainLengths
  rcases hcidr with rfl | hhead
  · rw [List.append_nil, List.splitOn_eq_singleton hs, List.splitOn_nil]
    rfl
  · obtain ⟨r, rfl⟩ := List.head?_eq_some_iff.mp hhead
    rw [List.splitOn_append_cons_self_of_not_mem hs, ← List.nil_append ('/' :: r),
      List.splitOn_append_cons_self_of_not_mem List.not_mem_nil]
    rfl

theorem plainLengths_cons_of_ne {c : Char} (hc : c ≠ '/') (s : Str) :
    PlainLengths (c :: s) ↔ PlainLengths s := by
  unfold PlainLengths
  rw [List.splitOn_cons_eq_if_modifyHead, if_neg (by simpa using hc), List.tail_modifyHead]

theorem plainLengths_single_iff {p : Str} (hp : '/' ∉ p) :
    PlainLengths ('/' :: p) ↔ (p ≠ [] → isPlainNumber p = true) := by
  unfold PlainLengths
  rw [← List.nil_append ('/' :: p), List.splitOn_append_cons_self_of_not_mem List.not_mem_nil,
    List.splitOn_eq_singleton hp, List.tail_cons, List.forall_mem_singleton]

-- a piece in front of one more slash
theorem plainLengths_cons_iff {p : Str} (hp : '/' ∉ p) (r : Str) :
    PlainLengths ('/' :: (p ++ '/' :: r)) ↔
      (p ≠ [] → isPlainNumber p = true) ∧ PlainLengths ('/' :: r) := by
  unfold PlainLengths
  rw [← List.nil_append ('/' :: (p ++ '/' :: r)),
    List.splitOn_append_cons_self_of_not_mem List.not_mem_nil,
    List.splitOn_append_cons_self_of_not_mem hp, List.tail_cons, List.forall_mem_cons,
    ← List.nil_append ('/' :: r), List.splitOn_append_cons_self_of_not_mem List.not_mem_nil,
    List.tail_cons]

theorem plainLengths_double_iff {q : Str} (hq : '/' ∉ q) :
    PlainLengths ('/' :: '/' :: q) ↔ (q ≠ [] → isPlainNumber q = true) := by
  rw [← List.nil_append ('/' :: q), plainLengths_cons_iff List.not_mem_nil,
    plainLengths_single_iff hq]
  simp

theorem getLast?_of_plain {p : Str} (hp : isPlainNumber p = true) (s : Str) :
    (s ++ p).getLast? ≠ some '/' := by
  obtain ⟨hne, hdigits, -⟩ := isPlainNumber_iff.mp hp
  rw [List.getLast?_append, List.getLast?_eq_some_getLast hne]
  intro h
  have hdigit := hdigits _ (List.getLast_mem hne)
  rw [Option.some.inj h] at hdigit
  exact absurd hdigit (by decide)

/-- The lengths of a text are plain numbers, and it ends in one of them. -/
theorem lengths_of_text {cidr4 cidr6 : Str} {v4 v6 : Nat} (h4 : LengthText ['/'] 32 cidr4 v4)
    (h6 : LengthText ['/', '/'] 128 cidr6 v6) :
    PlainLengths (cidr4 ++ cidr6) ∧ (cidr4 ++ cidr6).getLast? ≠ some '/' := by
  rcases h4 with ⟨rfl, -⟩ | ⟨p, rfl, hp, -⟩
  · rcases h6 with ⟨rfl, -⟩ | ⟨q, rfl, hq, -⟩
    · refine ⟨?_, by simp⟩
      unfold PlainLengths
      simp
    · exact ⟨(plainLengths_double_iff (slash_not_mem_of_plain hq)).mpr fun _ => hq,
        getLast?_of_plain hq ['/', '/']⟩
  · have hslash := slash_not_mem_of_plain hp
    rcases h6 with ⟨rfl, -⟩ | ⟨q, rfl, hq, -⟩
    · rw [List.append_nil]
      exact ⟨(plainLengths_single_iff hslash).mpr fun _ => hp, getLast?_of_plain hp ['/']⟩
    · have hdouble := plainLengths_double_iff (slash_not_mem_of_plain hq)
      refine ⟨?_, ?_⟩
      · rw [List.singleton_append, List.cons_append]
        exact (plainLengths_cons_iff hslash ('/' :: q)).mpr
          ⟨fun _ => hp, hdouble.mpr fun _ => hq⟩
      · rw [← List.append_assoc]
        exact getLast?_of_plain hq _

/-- Accepted lengths that are plain numbers are those of a text, unless the last slash has nothing
behind it. -/
theorem text_of_lengths {cidr : Str} {v4 v6 : Nat} (h : parseDualCidr cidr = .ok (v4, v6))
    (hcidr : cidr = [] ∨ cidr.head? = some '/') (hplain : PlainLengths cidr)
    (hlast : cidr.getLast? ≠ some '/') :
    ∃ cidr4 cidr6, cidr = cidr4 ++ cidr6 ∧ LengthText ['/'] 32 cidr4 v4 ∧
      LengthText ['/', '/'] 128 cidr6 v6 := by
  have hnumber : ∀ {p : Str} {max n : Nat}, parsePrefix p max = .ok n →
      (p ≠ [] → isPlainNumber p = true) →
      isPlainNumber p = true ∧ Nat.ofDigitChars 10 p 0 = n ∧ n ≤ max := by
    intro p max n hp hplain
    obtain ⟨hne, -, hle, hvalue⟩ := parsePrefix_ok hp
    exact ⟨hplain hne, hvalue (hplain hne), hle⟩
  have hslash : ∀ {p : Str} {max n : Nat}, parsePrefix p max = .ok n → '/' ∉ p :=
    fun hp hmem => ((parsePrefix_ok hp).2.1 '/' hmem).2 rfl
  rcases hcidr with rfl | hhead
  · cases h
    exact ⟨[], [], rfl, .inl ⟨rfl, rfl⟩, .inl ⟨rfl, rfl⟩⟩
  · obtain ⟨s, rfl⟩ := List.head?_eq_some_iff.mp hhead
    rcases parseDualCidr_ok h with rfl | ⟨hp, rfl⟩ | ⟨q, rfl, rfl, hq⟩ | ⟨p, q, rfl, hp, hq⟩
    · exact absurd rfl hlast
    · have hplain := (plainLengths_single_iff (hslash hp)).mp hplain
      exact ⟨'/' :: s, [], by simp, .inr ⟨s, rfl, hnumber hp hplain⟩, .inl ⟨rfl, rfl⟩⟩
    · have hplain := (plainLengths_double_iff (hslash hq)).mp hplain
      exact ⟨[], '/' :: '/' :: q, rfl, .inl ⟨rfl, rfl⟩, .inr ⟨q, rfl, hnumber hq hplain⟩⟩
    · obtain ⟨hplain, hrest⟩ := (plainLengths_cons_iff (hslash hp) ('/' :: q)).mp hplain
      have hrest := (plainLengths_double_iff (hslash hq)).mp hrest
      exact ⟨'/' :: p, '/' :: '/' :: q, rfl, .inr ⟨p, rfl, hnumber hp hplain⟩,
        .inr ⟨q, rfl, hnumber hq hrest⟩⟩

theorem isLengthChar_of_parse {s : Str} {v4 v6 : Nat}
    (h : parseDualCidr ('/' :: s) = .ok (v4, v6)) : ∀ c ∈ s, isLengthChar c = true := by
  intro c hc
  rcases parseDualCidr_ok h with rfl | ⟨hp, -⟩ | ⟨q, rfl, -, hq⟩ | ⟨p, q, rfl, hp, hq⟩
  · cases hc
  · exact ((parsePrefix_ok hp).2.1 c hc).1
  · rcases List.mem_cons.mp hc with rfl | hc
    · decide
    · exact ((parsePrefix_ok hq).2.1 c hc).1
  · simp only [List.mem_append, List.mem_cons] at hc
    rcases hc with hc | rfl | rfl | hc
    · exact ((parsePrefix_ok hp).2.1 c hc).1
    · decide
    · decide
    · exact ((parsePrefix_ok hq).2.1 c hc).1

-- an accepted text with a domain-spec in front of its lengths has no slash in the domain-spec
theorem slash_not_mem_of_accepted {spec cidr : Str} {p : Option Str × Nat × Nat}
    (hspec : IsDomainSpec spec) (h : parseDomainAndDualCidr (some (spec ++ cidr)) = .ok p) :
    '/' ∉ spec := by
  intro hmem
  obtain ⟨front, back, rfl, hfront⟩ := List.eq_append_cons_of_mem hmem
  obtain ⟨c, hc, hother⟩ := hspec.behind_slash
  rw [parseDomainAndDualCidr_some (by simp)] at h
  obtain ⟨lengths, hread, -⟩ := map_eq_ok_iff.mp h
  rw [List.append_assoc, List.cons_append, (takeWhile_slash hfront (.inr rfl)).2] at hread
  rw [isLengthChar_of_parse hread c (List.mem_append_left _ hc)] at hother
  cases hother

/-! ## 4. Mechanisms -/

section
variable {body : Str}

theorem lax_all_iff (h : mechName body = "all".toList) : Lax body ↔ mechTail body ≠ [] := by
  unfold Lax
  rw [h]
  simp

theorem lax_spec_iff (h : mechName body ∈ ["include".toList, "exists".toList, "ptr".toList]) :
    Lax body ↔ (mechTail body).head? = some '/' ∨
      ∃ spec, mechTail body = ':' :: spec ∧ ¬ IsDomainSpec spec := by
  simp only [List.mem_cons, List.not_mem_nil, or_false] at h
  unfold Lax
  rcases h with h | h | h <;> (rw [h]; simp)

theorem lax_host_iff (h : mechName body ∈ ["a".toList, "mx".toList]) :
    Lax body ↔ ((∃ rest, mechTail body = ':' :: rest ∧
      ¬ IsDomainSpec (rest.takeWhile (· ≠ '/'))) ∨ (mechTail body).getLast? = some '/') ∨
      ¬ PlainLengths (mechTail body) := by
  simp only [List.mem_cons, List.not_mem_nil, or_false] at h
  unfold Lax
  rcases h with h | h <;> (rw [h]; simp)

theorem lax_ip_iff (h : mechName body ∈ ["ip4".toList, "ip6".toList]) :
    Lax body ↔ ¬ PlainLengths (mechTail body) := by
  simp only [List.mem_cons, List.not_mem_nil, or_false] at h
  unfold Lax
  rcases h with h | h <;> (rw [h]; simp)

end

theorem IsName.mech_cut {name tail : Str} (h : IsName name)
    (htail : tail = [] ∨ tail.head? = some ':' ∨ tail.head? = some '/') :
    mechName (name ++ tail) = toAsciiLowercase name ∧ mechTail (name ++ tail) = tail :=
  Spf.mech_cut h.colon h.slash htail

-- the text of an address with its length, from what is accepted
theorem ip_text_of_accepted {α : Type} {family : String} {max : Nat} {parseAddr : Str → Option α}
    {spec : Str} {net : α} {n : Nat} (h : parseIpCidr family max parseAddr spec = .ok (net, n))
    (hplain : PlainLengths (':' :: spec)) :
    ∃ addr cidr, spec = addr ++ cidr ∧ parseAddr addr = some net ∧
      LengthText ['/'] max cidr n := by
  have haddress : ∀ {addr : Str} {m : Nat}, addressed family parseAddr addr m = .ok (net, n) →
      parseAddr addr = some net ∧ m = n := by
    intro addr m h
    unfold addressed at h
    cases ha : parseAddr addr with
    | none =>
      rw [ha] at h
      cases h
    | some a =>
      rw [ha] at h
      cases h
      exact ⟨rfl, rfl⟩
  unfold parseIpCidr at h
  cases hslash : splitOnce '/' spec with
  | none =>
    rw [hslash] at h
    obtain ⟨haddr, rfl⟩ := haddress h
    exact ⟨spec, [], by simp, haddr, .inl ⟨rfl, rfl⟩⟩
  | some p =>
    rw [hslash] at h
    obtain ⟨q, hread, h⟩ := exists_of_bind_eq_ok h
    obtain ⟨m, hm, rfl⟩ := map_eq_ok_iff.mp hread
    obtain ⟨haddr, rfl⟩ := haddress h
    obtain ⟨rfl, hfirst⟩ := splitOnce_eq_some_iff.mp hslash
    obtain ⟨hne, hchars, hle, hvalue⟩ := parsePrefix_ok hm
    have hlength : '/' ∉ p.2 := fun hmem => (hchars '/' hmem).2 rfl
    rw [← List.cons_append, plainLengths_append_iff (by simp [hfirst]) (.inr rfl),
      plainLengths_single_iff hlength] at hplain
    exact ⟨p.1, '/' :: p.2, rfl, haddr, .inr ⟨p.2, rfl, hplain hne, hvalue (hplain hne), hle⟩⟩

-- the text behind the name of `a` and `mx`, from what is accepted
theorem host_text_of_accepted {rest : Str} {p : Option Str × Nat × Nat}
    (h : parseDomainAndDualCidr (some rest) = .ok p) (hne : rest ≠ [])
    (hplain : PlainLengths rest) (hlast : rest.getLast? ≠ some '/') :
    ∃ cidr4 cidr6, rest = rest.takeWhile (· ≠ '/') ++ (cidr4 ++ cidr6) ∧
      LengthText ['/'] 32 cidr4 p.2.1 ∧ LengthText ['/', '/'] 128 cidr6 p.2.2 := by
  rw [parseDomainAndDualCidr_some hne] at h
  obtain ⟨⟨v4, v6⟩, hread, rfl⟩ := map_eq_ok_iff.mp h
  have hcut := List.takeWhile_append_dropWhile (p := fun c : Char => decide (c ≠ '/')) (l := rest)
  have hfront : '/' ∉ rest.takeWhile (· ≠ '/') := by
    intro hmem
    have hne := List.mem_takeWhile_imp hmem
    simp at hne
  generalize rest.takeWhile (· ≠ '/') = front at *
  have hcidr : rest.dropWhile (· ≠ '/') = [] ∨ (rest.dropWhile (· ≠ '/')).head? = some '/' := by
    cases hd : rest.dropWhile (· ≠ '/') with
    | nil => exact .inl rfl
    | cons c r =>
      right
      have hc := List.head?_dropWhile_not (fun c : Char => decide (c ≠ '/')) rest
      rw [hd] at hc
      simpa using hc
  generalize rest.dropWhile (· ≠ '/') = cidr at *
  rw [← hcut, plainLengths_append_iff hfront hcidr] at hplain
  have hend : cidr.getLast? ≠ some '/' := by
    intro hend
    apply hlast
    rw [← hcut, List.getLast?_append, hend]
    rfl
  obtain ⟨cidr4, cidr6, rfl, h4, h6⟩ := text_of_lengths hread hcidr hplain hend
  exact ⟨cidr4, cidr6, hcut.symm, h4, h6⟩

theorem not_lax_host {name target cidr4 cidr6 : Str} {domain : Option Str} {v4 v6 : Nat}
    {p : Option Str × Nat × Nat} (hname : IsName name)
    (hn : toAsciiLowercase name ∈ ["a".toList, "mx".toList]) (ht : TargetText target domain)
    (h4 : LengthText ['/'] 32 cidr4 v4) (h6 : LengthText ['/', '/'] 128 cidr6 v6)
    (h : parseDomainAndDualCidr (splitMechanism (name ++ (target ++ (cidr4 ++ cidr6)))).2 = .ok p) :
    ¬ Lax (name ++ (target ++ (cidr4 ++ cidr6))) := by
  obtain ⟨hplain, hlast⟩ := lengths_of_text h4 h6
  obtain ⟨-, hcidr⟩ := cidr_cases h4 h6
  generalize cidr4 ++ cidr6 = cidr at *
  rcases ht with ⟨rfl, -⟩ | ⟨spec, rfl, -, hspec⟩
  · obtain ⟨hmech, htail⟩ := hname.mech_cut (hcidr.imp_right .inr)
    rw [List.nil_append, lax_host_iff (by rw [hmech]; exact hn), htail]
    rintro ((⟨rest, rfl, -⟩ | hend) | hother)
    · simp at hcidr
    · exact hlast hend
    · exact hother hplain
  · rw [List.cons_append, hname.splitMechanism_colon] at h
    have hslash := slash_not_mem_of_accepted hspec h
    obtain ⟨hmech, htail⟩ := @IsName.mech_cut name (':' :: (spec ++ cidr)) hname (.inr (.inl rfl))
    rw [List.cons_append, lax_host_iff (by rw [hmech]; exact hn), htail]
    rintro ((⟨rest, hrest, hother⟩ | hend) | hother)
    · cases hrest
      rw [(takeWhile_slash hslash hcidr).1] at hother
      exact hother hspec
    · -- the last character is the one of the lengths, or of the domain-spec
      rw [← List.cons_append, List.getLast?_append] at hend
      cases hlen : cidr.getLast? with
      | none =>
        rw [hlen, Option.none_or] at hend
        have hmem := List.mem_of_getLast? hend
        simp [hslash] at hmem
      | some c =>
        rw [hlen] at hend hlast
        exact hlast hend
    · rw [← List.cons_append, plainLengths_append_iff (by simp [hslash]) hcidr] at hother
      exact hother hplain

theorem not_lax_ip {name addr cidr : Str} {max n : Nat} (hname : IsName name)
    (hn : toAsciiLowercase name ∈ ["ip4".toList, "ip6".toList])
    (haddr : ∀ c ∈ addr, isAddrText c = true) (hcidr : LengthText ['/'] max cidr n) :
    ¬ Lax (name ++ ':' :: (addr ++ cidr)) := by
  obtain ⟨hmech, htail⟩ := @IsName.mech_cut name (':' :: (addr ++ cidr)) hname (.inr (.inl rfl))
  have hslash : '/' ∉ ':' :: addr := by
    simp [slash_not_mem_of_addrText haddr]
  rw [lax_ip_iff (by rw [hmech]; exact hn), htail, not_not, ← List.cons_append,
    plainLengths_append_iff hslash hcidr.cases]
  rcases hcidr with ⟨rfl, -⟩ | ⟨p, rfl, hp, -⟩
  · unfold PlainLengths
    simp
  · exact (plainLengths_single_iff (slash_not_mem_of_plain hp)).mpr fun _ => hp

theorem not_lax_target {name target : Str} {domain : Option Str} (hname : IsName name)
    (hn : toAsciiLowercase name ∈ ["include".toList, "exists".toList, "ptr".toList])
    (ht : TargetText target domain) : ¬ Lax (name ++ target) := by
  have hhead : target = [] ∨ target.head? = some ':' := by
    rcases ht with ⟨rfl, -⟩ | ⟨spec, rfl, -⟩
    · exact .inl rfl
    · exact .inr rfl
  obtain ⟨hmech, htail⟩ := hname.mech_cut (hhead.imp_right .inl)
  rw [lax_spec_iff (by rw [hmech]; exact hn), htail]
  rcases ht with ⟨rfl, -⟩ | ⟨spec, rfl, -, hspec⟩
  · simp
  · rintro (h | ⟨other, hother, hnot⟩)
    · cases h
    · cases hother
      exact hnot hspec

/-- A mechanism of the grammar that is accepted is of no lax kind. -/
theorem MechanismText.not_lax {body : Str} {m m' : Mechanism} (h : MechanismText body m')
    (hparse : parseMechanism body = .ok m) : ¬ Lax body := by
  cases h with
  | all hn =>
    have hname := isName_of_lowercase hn (by decide) (by decide)
    obtain ⟨hmech, htail⟩ := hname.mech_cut (.inl rfl)
    rw [List.append_nil] at hmech htail
    rw [lax_all_iff (hmech.trans hn), htail, not_not]
  | ip4 hn haddr hcidr =>
    exact not_lax_ip (isName_of_lowercase hn (by decide) (by decide)) (by rw [hn]; simp)
      (fun c hc => isAddrText_of_parse_v4 haddr hc) hcidr
  | ip6 hn haddr hcidr =>
    exact not_lax_ip (isName_of_lowercase hn (by decide) (by decide)) (by rw [hn]; simp)
      (fun c hc => isAddrText_of_parse_v6 haddr hc) hcidr
  | a hn ht h4 h6 =>
    have hname := isName_of_lowercase hn (by decide) (by decide)
    obtain ⟨rest, hsplit⟩ := hname.exists_splitMechanism_host ht h4 h6
    rw [parseMechanism_a (by rw [hsplit]; exact hn)] at hparse
    obtain ⟨p, hp, -⟩ := map_eq_ok_iff.mp hparse
    exact not_lax_host hname (by rw [hn]; simp) ht h4 h6 hp
  | mx hn ht h4 h6 =>
    have hname := isName_of_lowercase hn (by decide) (by decide)
    obtain ⟨rest, hsplit⟩ := hname.exists_splitMechanism_host ht h4 h6
    rw [parseMechanism_mx (by rw [hsplit]; exact hn)] at hparse
    obtain ⟨p, hp, -⟩ := map_eq_ok_iff.mp hparse
    exact not_lax_host hname (by rw [hn]; simp) ht h4 h6 hp
  | @includeSpec name spec hn hspec =>
    exact not_lax_target (isName_of_lowercase hn (by decide) (by decide)) (by rw [hn]; simp)
      (.inr ⟨spec, rfl, rfl, hspec⟩)
  | @existsSpec name spec hn hspec =>
    exact not_lax_target (isName_of_lowercase hn (by decide) (by decide)) (by rw [hn]; simp)
      (.inr ⟨spec, rfl, rfl, hspec⟩)
  | ptr hn ht =>
    exact not_lax_target (isName_of_lowercase hn (by decide) (by decide)) (by rw [hn]; simp) ht

-- an address cannot be empty
theorem parseIpCidr_slash {α : Type} {family : String} {max : Nat} {parseAddr : Str → Option α}
    (hnone : parseAddr [] = none) (r : Str) (p : α × Nat) :
    parseIpCidr family max parseAddr ('/' :: r) ≠ .ok p := by
  intro h
  unfold parseIpCidr at h
  rw [show splitOnce '/' ('/' :: r) = some ([], r) from splitOnce_append_cons List.not_mem_nil] at h
  obtain ⟨q, hread, h⟩ := exists_of_bind_eq_ok h
  obtain ⟨n, -, rfl⟩ := map_eq_ok_iff.mp hread
  dsimp only at h
  rw [hnone] at h
  cases h

theorem Cut.host {tail : Str} {rest : Option Str} {p : Option Str × Nat × Nat} (h : Cut tail rest)
    (hread : parseDomainAndDualCidr rest = .ok p)
    (hspec : ∀ r, tail = ':' :: r → IsDomainSpec (r.takeWhile (· ≠ '/')))
    (hlast : tail.getLast? ≠ some '/') (hplain : PlainLengths tail) :
    ∃ target cidr4 cidr6 domain v4 v6, tail = target ++ (cidr4 ++ cidr6) ∧
      TargetText target domain ∧ LengthText ['/'] 32 cidr4 v4 ∧
      LengthText ['/', '/'] 128 cidr6 v6 := by
  cases h with
  | bare =>
    exact ⟨[], [], [], none, 32, 128, rfl, .inl ⟨rfl, rfl⟩, .inl ⟨rfl, rfl⟩, .inl ⟨rfl, rfl⟩⟩
  | colon rest =>
    have hspec := hspec rest rfl
    have hne : rest ≠ [] := by
      rintro rfl
      exact hspec.ne_nil rfl
    rw [plainLengths_cons_of_ne (by decide)] at hplain
    have hlast : rest.getLast? ≠ some '/' := by
      rw [List.getLast?_cons_of_ne_nil hne] at hlast
      exact hlast
    obtain ⟨cidr4, cidr6, hcut, h4, h6⟩ := host_text_of_accepted hread hne hplain hlast
    refine ⟨':' :: rest.takeWhile (· ≠ '/'), cidr4, cidr6, some _, _, _, ?_,
      .inr ⟨_, rfl, rfl, hspec⟩, h4, h6⟩
    rw [List.cons_append, ← hcut]
  | slash rest =>
    obtain ⟨cidr4, cidr6, hcut, h4, h6⟩ := host_text_of_accepted hread (by simp) hplain hlast
    have hnone : ('/' :: rest).takeWhile (· ≠ '/') = [] := by simp
    rw [hnone] at hcut
    exact ⟨[], cidr4, cidr6, none, _, _, hcut, .inl ⟨rfl, rfl⟩, h4, h6⟩

theorem Cut.target {tail : Str} {rest : Option Str} (h : Cut tail rest)
    (hslash : tail.head? ≠ some '/') (hspec : ∀ spec, tail = ':' :: spec → IsDomainSpec spec) :
    tail = [] ∧ rest = none ∨ ∃ spec, tail = ':' :: spec ∧ IsDomainSpec spec := by
  cases h with
  | bare => exact .inl ⟨rfl, rfl⟩
  | colon rest => exact .inr ⟨rest, rfl, hspec rest rfl⟩
  | slash rest => exact absurd rfl hslash

/-- An accepted mechanism of no lax kind is one of the grammar. -/
theorem mechanismText_of_not_lax {body : Str} {m : Mechanism}
    (hparse : parseMechanism body = .ok m) (hlax : ¬ Lax body) : ∃ m', MechanismText body m' := by
  obtain ⟨name, tail, rest, rfl, hknown, hsplit, hcut⟩ := cut_of_parse hparse
  obtain ⟨hmech, htail⟩ := (isName_of_known hknown).mech_cut hcut.head
  have hfst : (splitMechanism (name ++ tail)).1 = name := by rw [hsplit]
  have hsnd : (splitMechanism (name ++ tail)).2 = rest := by rw [hsplit]
  simp only [knownNames, List.mem_cons, List.not_mem_nil, or_false] at hknown
  rcases hknown with hn | hn | hn | hn | hn | hn | hn | hn
  · rw [lax_all_iff (hmech.trans hn), htail, not_not] at hlax
    rw [hlax, List.append_nil]
    exact ⟨_, .all hn⟩
  · rw [lax_ip_iff (by rw [hmech, hn]; simp), htail, not_not] at hlax
    rw [parseMechanism_ip4 (by rw [hfst]; exact hn), hsnd] at hparse
    cases hcut with
    | bare => cases hparse
    | colon rest =>
      obtain ⟨p, hread, -⟩ := map_eq_ok_iff.mp hparse
      obtain ⟨addr, cidr, rfl, haddr, hlen⟩ := ip_text_of_accepted hread hlax
      exact ⟨_, .ip4 hn haddr hlen⟩
    | slash rest =>
      obtain ⟨p, hread, -⟩ := map_eq_ok_iff.mp hparse
      exact absurd hread (parseIpCidr_slash rfl rest p)
  · rw [lax_ip_iff (by rw [hmech, hn]; simp), htail, not_not] at hlax
    rw [parseMechanism_ip6 (by rw [hfst]; exact hn), hsnd] at hparse
    cases hcut with
    | bare => cases hparse
    | colon rest =>
      obtain ⟨p, hread, -⟩ := map_eq_ok_iff.mp hparse
      obtain ⟨addr, cidr, rfl, haddr, hlen⟩ := ip_text_of_accepted hread hlax
      exact ⟨_, .ip6 hn haddr hlen⟩
    | slash rest =>
      obtain ⟨p, hread, -⟩ := map_eq_ok_iff.mp hparse
      exact absurd hread (parseIpCidr_slash rfl rest p)
  · rw [lax_host_iff (by rw [hmech, hn]; simp), htail] at hlax
    push Not at hlax
    obtain ⟨⟨hspec, hlast⟩, hplain⟩ := hlax
    rw [parseMechanism_a (by rw [hfst]; exact hn), hsnd] at hparse
    obtain ⟨p, hread, -⟩ := map_eq_ok_iff.mp hparse
    obtain ⟨target, cidr4, cidr6, domain, v4, v6, rfl, ht, h4, h6⟩ :=
      hcut.host hread hspec hlast hplain
    exact ⟨_, .a hn ht h4 h6⟩
  · rw [lax_host_iff (by rw [hmech, hn]; simp), htail] at hlax
    push Not at hlax
    obtain ⟨⟨hspec, hlast⟩, hplain⟩ := hlax
    rw [parseMechanism_mx (by rw [hfst]; exact hn), hsnd] at hparse
    obtain ⟨p, hread, -⟩ := map_eq_ok_iff.mp hparse
    obtain ⟨target, cidr4, cidr6, domain, v4, v6, rfl, ht, h4, h6⟩ :=
      hcut.host hread hspec hlast hplain
    exact ⟨_, .mx hn ht h4 h6⟩
  · rw [lax_spec_iff (by rw [hmech, hn]; simp), htail] at hlax
    push Not at hlax
    obtain ⟨rfl, rfl⟩ | ⟨spec, rfl, hspec⟩ := hcut.target hlax.1 hlax.2
    · rw [parseMechanism_include (by rw [hfst]; exact hn), hsnd] at hparse
      cases hparse
    · exact ⟨_, .includeSpec hn hspec⟩
  · rw [lax_spec_iff (by rw [hmech, hn]; simp), htail] at hlax
    push Not at hlax
    obtain ⟨rfl, rfl⟩ | ⟨spec, rfl, hspec⟩ := hcut.target hlax.1 hlax.2
    · rw [parseMechanism_exists (by rw [hfst]; exact hn), hsnd] at hparse
      cases hparse
    · exact ⟨_, .existsSpec hn hspec⟩
  · rw [lax_spec_iff (by rw [hmech, hn]; simp), htail] at hlax
    push Not at hlax
    obtain ⟨rfl, -⟩ | ⟨spec, rfl, hspec⟩ := hcut.target hlax.1 hlax.2
    · exact ⟨_, .ptr hn (.inl ⟨rfl, rfl⟩)⟩
    · exact ⟨_, .ptr hn (.inr ⟨spec, rfl, rfl, hspec⟩)⟩

/-! ## 5. Records -/

-- the terms behind the version
def termsOf (raw : Str) : List Str := (splitWhitespace raw).tail

def isModifierNamed (name : String) (term : Str) : Bool :=
  eqIgnoreAsciiCase (term.takeWhile (· ≠ '=')) name.toList && term.contains '='

/-- A record of the grammar. -/
structure WellFormed (raw : Str) : Prop where
  terms : ∀ term ∈ termsOf raw, IsModifierText term ∨ ∃ d, DirectiveText term d
  redirect : (termsOf raw).countP (isModifierNamed "redirect") ≤ 1
  exp : (termsOf raw).countP (isModifierNamed "exp") ≤ 1

theorem parseTerms_accepts {terms : List Str} {directives : List Directive} {redirect : Option Str}
    {record : SpfRecord} (h : parseTerms terms directives redirect = .ok record) :
    ∀ term ∈ terms, (splitModifier term).isSome = true ∨ ∃ d, parseDirective term = .ok d := by
  induction terms generalizing directives redirect with
  | nil => simp
  | cons term terms ih =>
    rw [List.forall_mem_cons]
    rw [parseTerms] at h
    cases hmod : splitModifier term with
    | some p =>
      rw [hmod] at h
      refine ⟨.inl rfl, ?_⟩
      dsimp only at h
      split at h
      · exact ih h
      · exact ih h
    | none =>
      rw [hmod] at h
      dsimp only at h
      cases hdir : parseDirective term with
      | error e =>
        rw [hdir] at h
        cases h
      | ok d =>
        rw [hdir] at h
        exact ⟨.inr ⟨d, rfl⟩, ih h⟩

theorem accepted_term {raw : Str} {record : SpfRecord} (h : SpfRecord.parse raw = .ok record) :
    ∀ term ∈ termsOf raw, IsModifierText term ∨ ∃ d, parseDirective term = .ok d := by
  unfold SpfRecord.parse at h
  unfold termsOf
  cases hwords : splitWhitespace raw with
  | nil => simp
  | cons version terms =>
    rw [hwords] at h
    dsimp only at h
    split at h
    · intro term hterm
      exact (parseTerms_accepts h term hterm).imp_left splitModifier_isSome_iff.mp
    · cases h

-- an accepted term that is no modifier is a directive of the grammar unless it is lax
theorem accepted_directive_iff {term : Str} {d : Directive} (h : parseDirective term = .ok d) :
    (∃ d, DirectiveText term d) ↔ ¬ Lax (unqualified term) := by
  have hparse := parseDirective_ok h
  rw [exists_directiveText_iff]
  apply Iff.intro
  · rintro ⟨m, hm⟩
    exact hm.not_lax hparse
  · exact mechanismText_of_not_lax hparse

/-- An accepted record is one of the grammar exactly if none of its mechanisms is of a lax kind and
`redirect` and `exp` are not repeated. -/
theorem accepted_wellFormed_iff {raw : Str} {record : SpfRecord}
    (h : SpfRecord.parse raw = .ok record) :
    WellFormed raw ↔
      (∀ term ∈ termsOf raw, IsModifierText term ∨ ¬ Lax (unqualified term)) ∧
        (termsOf raw).countP (isModifierNamed "redirect") ≤ 1 ∧
        (termsOf raw).countP (isModifierNamed "exp") ≤ 1 := by
  apply Iff.intro
  · intro hwell
    refine ⟨?_, hwell.redirect, hwell.exp⟩
    intro term hterm
    rcases accepted_term h term hterm with hmod | ⟨d, hd⟩
    · exact .inl hmod
    · exact (hwell.terms term hterm).imp_right (accepted_directive_iff hd).mp
  · rintro ⟨hterms, hredirect, hexp⟩
    refine ⟨?_, hredirect, hexp⟩
    intro term hterm
    rcases accepted_term h term hterm with hmod | ⟨d, hd⟩
    · exact .inl hmod
    · exact (hterms term hterm).imp_right (accepted_directive_iff hd).mpr

theorem accepted_wellFormed_small : WellFormed "v=spf1 mx/24 -all".toList := by
  have hall : ¬ Lax "all".toList := by
    rw [lax_all_iff (by decide)]
    decide
  have hmx : ¬ Lax "mx/24".toList := by
    rw [lax_host_iff (by decide), show mechTail "mx/24".toList = "/24".toList by decide]
    rintro ((⟨rest, hrest, -⟩ | hlast) | hplain)
    · cases hrest
    · exact absurd hlast (by decide)
    · exact hplain (by unfold PlainLengths; decide)
  refine (@accepted_wellFormed_iff "v=spf1 mx/24 -all".toList
    ⟨[⟨.pass, .mx none 24 128⟩, ⟨.fail, .all⟩], none⟩ (by decide)).mpr ⟨?_, by decide, by decide⟩
  rw [show termsOf "v=spf1 mx/24 -all".toList = ["mx/24".toList, "-all".toList] by decide]
  simp only [List.forall_mem_cons, List.not_mem_nil, false_imp_iff, implies_true, and_true]
  exact ⟨.inr hmx, .inr hall⟩

theorem malformed_record_accepted :
    (SpfRecord.parse "v=spf1 a/ include/x ip4:192.0.2.0/+024 -all:x".toList =
      .ok ⟨[⟨.pass, .a none 32 128⟩, ⟨.pass, .include "/x".toList⟩, ⟨.pass, .ip4 0xC0000200#32 24⟩,
        ⟨.fail, .all⟩], none⟩ ∧
      ¬ WellFormed "v=spf1 a/ include/x ip4:192.0.2.0/+024 -all:x".toList) ∧
    SpfRecord.parse "v=spf1 redirect=a.b redirect=c.d".toList = .ok ⟨[], some "c.d".toList⟩ ∧
      ¬ WellFormed "v=spf1 redirect=a.b redirect=c.d".toList := by
  have hlax : Lax (unqualified "-all:x".toList) := (lax_all_iff (by decide)).mpr (by decide)
  have hmod : ¬ IsModifierText "-all:x".toList := by
    rw [← splitModifier_isSome_iff]
    decide
  refine ⟨⟨by decide, ?_⟩, by decide, fun h => absurd h.redirect (by decide)⟩
  intro h
  rcases h.terms "-all:x".toList (by decide) with hm | hd
  · exact hmod hm
  · exact (@accepted_directive_iff _ ⟨.fail, .all⟩ (by decide)).mp hd hlax

end Snail.Network.Spf
