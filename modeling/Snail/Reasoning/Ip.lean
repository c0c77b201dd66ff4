import Mathlib.Data.BitVec
import Snail.Reasoning.Text

/-!
# Ip — internet addresses

`std::net::IpAddr`: the two address families, their printed forms, and the parser of the standard
library.  Decimal groups of an IPv4 address have no leading zero; an IPv6 address may leave out one
run of zero groups and may end in a dotted IPv4 address.
-/

namespace Snail.Reasoning

abbrev Ipv4Addr := BitVec 32
abbrev Ipv6Addr := BitVec 128

inductive IpAddr where
  | v4 (addr : Ipv4Addr)
  | v6 (addr : Ipv6Addr)
  deriving DecidableEq, Repr

-- the `n` groups of `w` bits of an address, most significant first
def addrGroups (w n : Nat) (addr : Nat) : List Nat :=
  (List.range n).map fun i => addr / 2 ^ (w * (n - 1 - i)) % 2 ^ w

theorem reverse_addrGroups (w n addr : Nat) :
    (addrGroups w n addr).reverse = (List.range n).map fun i => addr / 2 ^ (w * i) % 2 ^ w := by
  unfold addrGroups
  rw [← List.map_reverse]
  apply List.ext_getElem
  · simp
  · intro i hi _
    simp only [List.length_map, List.length_reverse, List.length_range] at hi
    have hturn : n - 1 - (n - 1 - i) = i := by omega
    simp [hturn]

def Ipv4Addr.octets (addr : Ipv4Addr) : List Nat := addrGroups 8 4 addr.toNat
def Ipv6Addr.octets (addr : Ipv6Addr) : List Nat := addrGroups 8 16 addr.toNat
def Ipv6Addr.segments (addr : Ipv6Addr) : List Nat := addrGroups 16 8 addr.toNat

-- the number whose groups of `w` bits are given, most significant first
def ofGroups (w : Nat) (groups : List Nat) : Nat :=
  groups.foldl (fun acc g => acc * 2 ^ w + g) 0

/-- `format!("{n:x}")`. -/
def showHex (n : Nat) : Str := Nat.toDigits 16 n

/-! ## 1. Printing -/

/-- `Ipv4Addr::to_string`. -/
def Ipv4Addr.toText (addr : Ipv4Addr) : Str :=
  List.intercalate ['.'] ((Ipv4Addr.octets addr).map showNat)

/-- The longest run of zero groups: its start and its length; the first one when several are
longest. -/
def longestZeroRun (segments : List Nat) : Nat × Nat :=
  let step := fun (acc : (Nat × Nat) × (Nat × Nat)) (p : Nat × Nat) =>
    let (longest, current) := acc
    let (segment, i) := p
    if segment = 0 then
      let current := ((if current.2 = 0 then i else current.1), current.2 + 1)
      (if current.2 > longest.2 then current else longest, current)
    else (longest, (0, 0))
  (segments.zipIdx.foldl step ((0, 0), (0, 0))).1

def showSegments (segments : List Nat) : Str := List.intercalate [':'] (segments.map showHex)

/-- `Ipv6Addr::to_string`. -/
def Ipv6Addr.toText (addr : Ipv6Addr) : Str :=
  let segments := Ipv6Addr.segments addr
  if segments.take 6 = [0, 0, 0, 0, 0, 0xFFFF] then
    "::ffff:".toList ++ Ipv4Addr.toText (BitVec.ofNat 32 addr.toNat)
  else
    let (start, len) := longestZeroRun segments
    if len > 1 then
      showSegments (segments.take start) ++ "::".toList ++
        showSegments (segments.drop (start + len))
    else showSegments segments

/-- `IpAddr::to_string`. -/
def IpAddr.toText : IpAddr → Str
  | .v4 addr => Ipv4Addr.toText addr
  | .v6 addr => Ipv6Addr.toText addr

theorem exists_digit_of_mem_toDigits {b n : Nat} (hb : 1 < b) {c : Char}
    (h : c ∈ Nat.toDigits b n) : ∃ d < b, c = Nat.digitChar d := by
  induction n using Nat.strongRecOn with
  | ind n ih =>
    rw [Nat.toDigits_eq_if hb] at h
    by_cases hn : n < b
    · rw [if_pos hn, List.mem_singleton] at h
      exact ⟨n, hn, h⟩
    · rw [if_neg hn, List.mem_append, List.mem_singleton] at h
      rcases h with h | h
      · exact ih _ (Nat.div_lt_self (by omega) hb) h
      · exact ⟨n % b, Nat.mod_lt _ (by omega), h⟩

-- the characters of a printed address
def IsAddrChar (c : Char) : Prop := c = '.' ∨ c = ':' ∨ ∃ d < 16, c = Nat.digitChar d

theorem isAddrChar_of_mem_showNat {n : Nat} {c : Char} (h : c ∈ showNat n) : IsAddrChar c := by
  obtain ⟨d, hd, rfl⟩ := exists_digit_of_mem_toDigits (by decide) h
  exact .inr (.inr ⟨d, by omega, rfl⟩)

theorem isAddrChar_of_mem_showSegments {segments : List Nat} {c : Char}
    (h : c ∈ showSegments segments) : IsAddrChar c := by
  rcases mem_intercalate h with h | ⟨s, hs, hc⟩
  · exact .inr (.inl (List.mem_singleton.mp h))
  · obtain ⟨n, -, rfl⟩ := List.mem_map.mp hs
    exact .inr (.inr (exists_digit_of_mem_toDigits (by decide) hc))

theorem isAddrChar_of_mem_v4 {addr : Ipv4Addr} {c : Char} (h : c ∈ Ipv4Addr.toText addr) :
    IsAddrChar c := by
  rcases mem_intercalate h with h | ⟨s, hs, hc⟩
  · exact .inl (List.mem_singleton.mp h)
  · obtain ⟨n, -, rfl⟩ := List.mem_map.mp hs
    exact isAddrChar_of_mem_showNat hc

theorem isAddrChar_of_mem_toText {ip : IpAddr} {c : Char} (h : c ∈ ip.toText) : IsAddrChar c := by
  cases ip with
  | v4 addr => exact isAddrChar_of_mem_v4 h
  | v6 addr =>
    change c ∈ Ipv6Addr.toText addr at h
    unfold Ipv6Addr.toText at h
    dsimp only at h
    split at h
    · rcases List.mem_append.mp h with h | h
      · have hlit : ∀ d ∈ "::ffff:".toList, d = ':' ∨ d = Nat.digitChar 15 := by
          rw [← List.forall_iff_forall_mem]
          decide
        exact .inr ((hlit c h).imp_right fun hd => ⟨15, by omega, hd⟩)
      · exact isAddrChar_of_mem_v4 h
    · split at h
      · rcases List.mem_append.mp h with h | h
        · rcases List.mem_append.mp h with h | h
          · exact isAddrChar_of_mem_showSegments h
          · have hlit : ∀ d ∈ "::".toList, d = ':' := by
              rw [← List.forall_iff_forall_mem]
              decide
            exact .inr (.inl (hlit c h))
        · exact isAddrChar_of_mem_showSegments h
      · exact isAddrChar_of_mem_showSegments h
/-! ## 2. Parsing -/

-- the value of a digit in the given radix
def digitValue (radix : Nat) (c : Char) : Option Nat :=
  let n := c.toNat
  let v :=
    if 48 ≤ n ∧ n ≤ 57 then n - 48
    else if 97 ≤ n ∧ n ≤ 122 then n - 97 + 10
    else if 65 ≤ n ∧ n ≤ 90 then n - 65 + 10
    else 36
  if v < radix then some v else none

/-- The reader of one number: at least one digit and at most `maxDigits`, the value below `bound`,
and a leading zero only where it is allowed. -/
def readNumber (radix maxDigits bound : Nat) (allowZeroStart : Bool) (s : Str) :
    Option (Nat × Str) :=
  let digits := s.takeWhile fun c => (digitValue radix c).isSome
  let rest := s.dropWhile fun c => (digitValue radix c).isSome
  let value := (digits.filterMap (digitValue radix)).foldl (fun acc d => acc * radix + d) 0
  if digits = [] ∨ digits.length > maxDigits ∨ value ≥ bound then none
  else if !allowZeroStart ∧ digits.head? = some '0' ∧ digits.length > 1 then none
  else some (value, rest)

-- a separator in front of every part but the first
def readSeparator {α : Type} (sep : Char) (index : Nat) (inner : Str → Option (α × Str))
    (s : Str) : Option (α × Str) :=
  if index = 0 then inner s
  else match s with
    | c :: rest => if c = sep then inner rest else none
    | [] => none

-- four decimal octets with dots between them; `index` counts those read
def readOctets : Nat → Nat → Str → Option (List Nat × Str)
  | 0, _, s => some ([], s)
  | left + 1, index, s => do
      let (octet, rest) ← readSeparator '.' index (readNumber 10 3 256 false) s
      let (octets, rest) ← readOctets left (index + 1) rest
      some (octet :: octets, rest)

def readIpv4Addr (s : Str) : Option (List Nat × Str) := readOctets 4 0 s

/-- `str::parse::<Ipv4Addr>`. -/
def Ipv4Addr.parse (s : Str) : Option Ipv4Addr :=
  if (s.flatMap String.utf8EncodeChar).length > 15 then none
  else match readIpv4Addr s with
    | some (octets, []) => some (BitVec.ofNat 32 (ofGroups 8 octets))
    | _ => none

/-- The groups that can be read, at most `left` of them, whether they end in a dotted IPv4 address,
and the text that follows.  A dotted address stands for two groups. -/
def readGroups : Nat → Nat → Str → List Nat × Bool × Str
  | 0, _, s => ([], false, s)
  | left + 1, index, s =>
      match if left > 0 then readSeparator ':' index readIpv4Addr s else none with
      | some (octets, rest) =>
          (addrGroups 16 2 (ofGroups 8 octets), true, rest)
      | none =>
          match readSeparator ':' index (readNumber 16 4 65536 true) s with
          | some (group, rest) =>
              let (groups, v4, rest) := readGroups left (index + 1) rest
              (group :: groups, v4, rest)
          | none => ([], false, s)

/-- `str::parse::<Ipv6Addr>`. -/
def Ipv6Addr.parse (s : Str) : Option Ipv6Addr :=
  match readGroups 8 0 s with
  | (head, v4, rest) =>
      if head.length = 8 then
        if rest = [] then some (BitVec.ofNat 128 (ofGroups 16 head)) else none
      else if v4 then none
      else match rest with
        | ':' :: ':' :: rest =>
            match readGroups (8 - (head.length + 1)) 0 rest with
            | (tail, _, []) =>
                let zeros := List.replicate (8 - head.length - tail.length) 0
                some (BitVec.ofNat 128 (ofGroups 16 (head ++ zeros ++ tail)))
            | _ => none
        | _ => none

/-- `str::parse::<IpAddr>`. -/
def IpAddr.parse (s : Str) : Option IpAddr :=
  match Ipv4Addr.parse s with
  | some addr => some (.v4 addr)
  | none => (Ipv6Addr.parse s).map .v6

/-- `SocketAddr::to_string`. -/
def socketText (ip : IpAddr) (port : Nat) : Str :=
  match ip with
  | .v4 addr => Ipv4Addr.toText addr ++ ':' :: showNat port
  | .v6 addr => '[' :: Ipv6Addr.toText addr ++ "]:".toList ++ showNat port

example : Ipv4Addr.parse "192.0.2.1".toList = some 0xC0000201#32 := by decide
example : Ipv4Addr.parse "192.0.02.1".toList = none := by decide
example : Ipv6Addr.parse "2001:db8::192.0.2.1".toList =
    some 0x20010db80000000000000000c0000201#128 := by decide

/-! ## 3. The characters of an address -/

def isAddrText (c : Char) : Bool := c == '.' || c == ':' || (digitValue 16 c).isSome

-- what a reader takes off the text consists of address characters
def ReadsAddrText (s rest : Str) : Prop :=
  ∃ used, s = used ++ rest ∧ ∀ c ∈ used, isAddrText c = true

theorem ReadsAddrText.trans {s t u : Str} (h : ReadsAddrText s t) (h' : ReadsAddrText t u) :
    ReadsAddrText s u := by
  obtain ⟨x, rfl, hx⟩ := h
  obtain ⟨y, rfl, hy⟩ := h'
  refine ⟨x ++ y, by simp, ?_⟩
  intro c hc
  rcases List.mem_append.mp hc with hc | hc
  · exact hx c hc
  · exact hy c hc

theorem ReadsAddrText.cons {s t : Str} (h : ReadsAddrText s t) {c : Char}
    (hc : isAddrText c = true) : ReadsAddrText (c :: s) t :=
  ReadsAddrText.trans ⟨[c], rfl, by simpa using hc⟩ h

theorem isSome_digitValue_mono {radix : Nat} (hradix : radix ≤ 16) {c : Char}
    (h : (digitValue radix c).isSome = true) : (digitValue 16 c).isSome = true := by
  unfold digitValue at h ⊢
  dsimp only at h ⊢
  generalize (if 48 ≤ c.toNat ∧ c.toNat ≤ 57 then c.toNat - 48
    else if 97 ≤ c.toNat ∧ c.toNat ≤ 122 then c.toNat - 97 + 10
    else if 65 ≤ c.toNat ∧ c.toNat ≤ 90 then c.toNat - 65 + 10 else 36) = v at h ⊢
  split at h
  · rw [if_pos (by omega)]
    rfl
  · cases h

theorem reads_readNumber {radix maxDigits bound : Nat} (hradix : radix ≤ 16) {zero : Bool}
    {s rest : Str} {n : Nat} (h : readNumber radix maxDigits bound zero s = some (n, rest)) :
    ReadsAddrText s rest := by
  unfold readNumber at h
  dsimp only at h
  split at h
  · cases h
  · split at h
    · cases h
    · cases h
      refine ⟨_, (List.takeWhile_append_dropWhile ..).symm, ?_⟩
      intro c hc
      have hdigit := List.mem_takeWhile_imp hc
      rw [isAddrText, isSome_digitValue_mono hradix hdigit, Bool.or_true]

theorem reads_readSeparator {α : Type} {sep : Char} (hsep : isAddrText sep = true) {index : Nat}
    {inner : Str → Option (α × Str)}
    (hinner : ∀ s v rest, inner s = some (v, rest) → ReadsAddrText s rest) {s rest : Str} {v : α}
    (h : readSeparator sep index inner s = some (v, rest)) : ReadsAddrText s rest := by
  unfold readSeparator at h
  split at h
  · exact hinner s v rest h
  · split at h
    · rename_i c tail
      split at h
      · rename_i hc
        rw [hc]
        exact (hinner tail v rest h).cons hsep
      · cases h
    · cases h

theorem reads_readOctets {left index : Nat} {s rest : Str} {octets : List Nat}
    (h : readOctets left index s = some (octets, rest)) : ReadsAddrText s rest := by
  induction left generalizing index s octets with
  | zero =>
    cases h
    exact ⟨[], rfl, by simp⟩
  | succ left ih =>
    rw [readOctets] at h
    obtain ⟨⟨octet, mid⟩, hfirst, h⟩ := Option.bind_eq_some_iff.mp h
    obtain ⟨⟨more, last⟩, hmore, h⟩ := Option.bind_eq_some_iff.mp h
    cases h
    exact (reads_readSeparator (by decide) (fun s v rest => reads_readNumber (by decide))
      hfirst).trans (ih hmore)

theorem reads_readGroups (left index : Nat) (s : Str) :
    ReadsAddrText s (readGroups left index s).2.2 := by
  induction left generalizing index s with
  | zero => exact ⟨[], rfl, by simp⟩
  | succ left ih =>
    rw [readGroups]
    cases hv4 : (if left > 0 then readSeparator ':' index readIpv4Addr s else none) with
    | some p =>
      split at hv4
      · exact reads_readSeparator (by decide) (fun s v rest => reads_readOctets) hv4
      · cases hv4
    | none =>
      cases hgroup : readSeparator ':' index (readNumber 16 4 65536 true) s with
      | some p =>
        exact (reads_readSeparator (by decide) (fun s v rest => reads_readNumber (by decide))
          hgroup).trans (ih (index + 1) p.2)
      | none => exact ⟨[], rfl, by simp⟩

theorem isAddrText_of_parse_v4 {s : Str} {addr : Ipv4Addr} (h : Ipv4Addr.parse s = some addr)
    {c : Char} (hc : c ∈ s) : isAddrText c = true := by
  unfold Ipv4Addr.parse at h
  split at h
  · cases h
  · split at h
    · rename_i octets hread
      obtain ⟨used, hs, hused⟩ := reads_readOctets hread
      rw [hs, List.append_nil] at hc
      exact hused c hc
    · cases h

theorem isAddrText_of_parse_v6 {s : Str} {addr : Ipv6Addr} (h : Ipv6Addr.parse s = some addr)
    {c : Char} (hc : c ∈ s) : isAddrText c = true := by
  have hall : ReadsAddrText s [] := by
    unfold Ipv6Addr.parse at h
    have hhead := reads_readGroups 8 0 s
    generalize readGroups 8 0 s = r at h hhead
    obtain ⟨head, v4, rest⟩ := r
    dsimp only at h hhead
    split at h
    · split at h
      · rename_i hrest
        rw [hrest] at hhead
        exact hhead
      · cases h
    · split at h
      · cases h
      · split at h
        · rename_i tail
          have htail := reads_readGroups (8 - (head.length + 1)) 0 tail
          cases hr : readGroups (8 - (head.length + 1)) 0 tail with
          | mk groups more =>
            rw [hr] at h htail
            obtain ⟨v4', left⟩ := more
            cases left with
            | nil =>
              have hcolons := (htail.cons (c := ':') (by decide)).cons (c := ':') (by decide)
              exact hhead.trans hcolons
            | cons c left => cases h
        · cases h
  obtain ⟨used, hs, hused⟩ := hall
  rw [hs, List.append_nil] at hc
  exact hused c hc

theorem not_isWhitespace_of_isAddrText {c : Char} (h : isAddrText c = true) :
    isWhitespace c = false := by
  by_contra hws
  rw [Bool.not_eq_false] at hws
  rw [isAddrText, Bool.or_eq_true, Bool.or_eq_true, beq_iff_eq, beq_iff_eq] at h
  rcases h with (rfl | rfl) | h
  · exact absurd hws (by decide)
  · exact absurd hws (by decide)
  · simp [isWhitespace] at hws
    unfold digitValue at h
    dsimp only at h
    split_ifs at h <;> first | omega | cases h

end Snail.Reasoning
