import Snail.Reasoning.Utf8

/-!
# Message — addresses, envelopes and messages

The RFC 5322 model of `crates/mail/src/snailmail.rs`.  A message keeps its header section and its
body verbatim; the parsed headers are a lookup view decoded leniently from the header section.
-/

open Snail.Reasoning

namespace Snail.Mail

inductive MailError where
  | invalidAddress (addr : Str)
  | malformed (text : Str)
  deriving DecidableEq, Repr

/-! ## 1. Mailboxes and envelopes -/

structure Mailbox where
  localPart : Str
  domain : Str
  deriving DecidableEq, Repr

/-- The text behind a source route (`@hop1,@hop2:user@domain`), or the whole text when there is no
route.  A route without its terminating colon is malformed. -/
def Mailbox.addrSpec? (trimmed : Str) : Option Str :=
  match ['@'].isPrefixOf? trimmed with
  | some route => (splitOnce ':' route).map Prod.snd
  | none => some trimmed

def Mailbox.parse (addr : Str) : Except MailError Mailbox :=
  let trimmed := trim addr
  match addrSpec? trimmed with
  | none => .error (.invalidAddress trimmed)
  | some addrSpec =>
      match rsplitOnce '@' addrSpec with
      | none => .error (.invalidAddress trimmed)
      | some (localPart, domain) =>
          if localPart = [] ∨ domain = [] ∨ '@' ∈ domain then .error (.invalidAddress trimmed)
          else .ok ⟨localPart, domain⟩

-- the `Display` form `local@domain`
def Mailbox.toString (m : Mailbox) : Str := m.localPart ++ '@' :: m.domain

/-- The envelope: `sender = none` is the null reverse-path. -/
structure Envelope where
  sender : Option Mailbox
  recipients : List Mailbox
  deriving DecidableEq, Repr

-- the printed form splits back at its last `@`
theorem Mailbox.rsplitOnce_toString {m : Mailbox} (h : '@' ∉ m.domain) :
    rsplitOnce '@' m.toString = some (m.localPart, m.domain) :=
  rsplitOnce_append_cons h

/-- What the parser promises of a mailbox: both sides are there, the domain is free of `@`, and the
text read is the printed form behind an optional source route. -/
theorem Mailbox.parse_eq_ok_iff {addr : Str} {m : Mailbox} :
    Mailbox.parse addr = .ok m ↔
      addrSpec? (trim addr) = some m.toString ∧ m.localPart ≠ [] ∧ m.domain ≠ [] ∧
        '@' ∉ m.domain := by
  apply Iff.intro
  · intro h
    simp only [Mailbox.parse] at h
    split at h
    · cases h
    · rename_i spec hspec
      split at h
      · cases h
      · rename_i localPart domain hat
        split at h
        · cases h
        · rename_i hgood
          cases h
          have hsplit := rsplitOnce_eq_some_iff.mp hat
          push Not at hgood
          exact ⟨by rw [hspec, hsplit.1]; rfl, hgood⟩
  · intro h
    rcases h with ⟨hspec, hl, hd, hm⟩
    have hgood : ¬ (m.localPart = [] ∨ m.domain = [] ∨ '@' ∈ m.domain) := by simp [hl, hd, hm]
    simp only [Mailbox.parse, hspec, rsplitOnce_toString hm, if_neg hgood]

theorem Mailbox.addrSpec?_suffix {t spec : Str} (h : addrSpec? t = some spec) : spec <:+ t := by
  unfold addrSpec? at h
  cases hp : ['@'].isPrefixOf? t with
  | none =>
    rw [hp] at h
    cases h
    exact List.suffix_rfl
  | some route =>
    rw [hp] at h
    rcases Option.map_eq_some_iff.mp h with ⟨p, hsplit, rfl⟩
    rw [List.isPrefixOf?_eq_some_iff_append_eq] at hp
    refine ⟨'@' :: p.1 ++ [':'], ?_⟩
    rw [← hp, (splitOnce_eq_some_iff.mp hsplit).1]
    simp

-- a text that starts a route is not its own address
theorem Mailbox.addrSpec?_eq_self_iff {t : Str} : addrSpec? t = some t ↔ t.head? ≠ some '@' := by
  unfold addrSpec?
  cases hp : ['@'].isPrefixOf? t with
  | none =>
    simp only [true_iff]
    intro hhead
    rcases List.head?_eq_some_iff.mp hhead with ⟨r, rfl⟩
    have hsome : ['@'].isPrefixOf? ('@' :: r) = some r :=
      List.isPrefixOf?_eq_some_iff_append_eq.mpr rfl
    rw [hp] at hsome
    cases hsome
  | some route =>
    rw [List.isPrefixOf?_eq_some_iff_append_eq] at hp
    rw [← hp]
    simp only [List.singleton_append, List.head?_cons, ne_eq, not_true_eq_false, iff_false]
    intro h
    rcases Option.map_eq_some_iff.mp h with ⟨p, hsplit, hsame⟩
    have hlen := congrArg List.length (splitOnce_eq_some_iff.mp hsplit).1
    rw [hsame] at hlen
    simp only [List.length_append, List.length_cons] at hlen
    omega

theorem Mailbox.toString_ne_nil (m : Mailbox) : m.toString ≠ [] := by
  unfold Mailbox.toString
  simp

-- what is read from a text ends where the trimmed text ends
theorem Mailbox.getLast_toString {addr : Str} {m : Mailbox} (h : Mailbox.parse addr = .ok m)
    {c : Char} (hc : c ∈ m.toString.getLast?) : isWhitespace c = false := by
  rcases addrSpec?_suffix (parse_eq_ok_iff.mp h).1 with ⟨t, ht⟩
  apply @getLast_trim addr
  rw [← ht, List.getLast?_append, hc]
  rfl

theorem Mailbox.mem_of_mem_toString {addr : Str} {m : Mailbox} (h : Mailbox.parse addr = .ok m)
    {c : Char} (hc : c ∈ m.toString) : c ∈ addr :=
  mem_of_mem_trim ((addrSpec?_suffix (parse_eq_ok_iff.mp h).1).subset hc)

theorem Mailbox.head?_toString {m : Mailbox} (h : m.localPart ≠ []) :
    m.toString.head? = m.localPart.head? := by
  unfold Mailbox.toString
  rw [List.head?_append]
  cases hl : m.localPart with
  | nil => exact absurd hl h
  | cons c l => rfl

/-- A mailbox that was read reads back from its printed form unless a stripped route has left a
local part that begins with `@` or white space. -/
theorem Mailbox.parse_toString_iff {addr : Str} {m : Mailbox} (h : Mailbox.parse addr = .ok m) :
    Mailbox.parse m.toString = .ok m ↔
      ∀ c ∈ m.localPart.head?, c ≠ '@' ∧ isWhitespace c = false := by
  have hparts := (parse_eq_ok_iff.mp h).2
  have hhead := head?_toString hparts.1
  rw [parse_eq_ok_iff]
  apply Iff.intro
  · intro hread c hc
    rw [← hhead] at hc
    have heq : trim m.toString = m.toString :=
      ((addrSpec?_suffix hread.1).eq_of_length_le (length_trim_le _)).symm
    have hself := hread.1
    rw [heq, addrSpec?_eq_self_iff] at hself
    refine ⟨?_, ?_⟩
    · intro hat
      rw [hat] at hc
      exact hself hc
    · rw [← heq] at hc
      exact head_trim hc
  · intro hclean
    rw [← hhead] at hclean
    have heq : trim m.toString = m.toString :=
      trim_eq_self (fun c hc => (hclean c hc).2) fun c hc => getLast_toString h hc
    refine ⟨?_, hparts⟩
    rw [heq, addrSpec?_eq_self_iff]
    intro hat
    exact (hclean '@' hat).1 rfl

-- the address behind a route that is there
theorem Mailbox.addrSpec?_route {route rest : Str} (h : ':' ∉ route) :
    addrSpec? ('@' :: (route ++ ':' :: rest)) = some rest := by
  have hroute : ['@'].isPrefixOf? ('@' :: (route ++ ':' :: rest)) = some (route ++ ':' :: rest) :=
    List.isPrefixOf?_eq_some_iff_append_eq.mpr rfl
  unfold addrSpec?
  rw [hroute]
  dsimp only
  rw [splitOnce_append_cons h]
  rfl

theorem Mailbox.exists_route {r spec : Str} (h : addrSpec? ('@' :: r) = some spec) :
    ∃ route, r = route ++ ':' :: spec ∧ ':' ∉ route := by
  have hroute : ['@'].isPrefixOf? ('@' :: r) = some r :=
    List.isPrefixOf?_eq_some_iff_append_eq.mpr rfl
  unfold addrSpec? at h
  rw [hroute] at h
  rcases Option.map_eq_some_iff.mp h with ⟨p, hsplit, rfl⟩
  exact ⟨p.1, splitOnce_eq_some_iff.mp hsplit⟩

/-- Parsing normalises, and leaves nothing of a route behind, for the texts in which no route is
followed by `@` or white space. -/
theorem Mailbox.normalised_iff {addr : Str} {m : Mailbox} (h : Mailbox.parse addr = .ok m) :
    ((∀ c ∈ m.localPart.head?, c ≠ '@' ∧ isWhitespace c = false) ∧
      (∀ c ∈ m.domain.getLast?, isWhitespace c = false) ∧
      Mailbox.parse m.toString = .ok m) ↔
    ∀ route rest, trim addr = '@' :: (route ++ ':' :: rest) → ':' ∉ route →
      ∀ c ∈ rest.head?, c ≠ '@' ∧ isWhitespace c = false := by
  obtain ⟨hspec, hlocal, hdomain, hat⟩ := parse_eq_ok_iff.mp h
  have hhead := head?_toString hlocal
  apply Iff.intro
  · rintro ⟨hclean, -, -⟩ route rest htrim hroute c hc
    rw [htrim, addrSpec?_route hroute] at hspec
    rw [Option.some.inj hspec, hhead] at hc
    exact hclean c hc
  · intro hclean
    have hfirst : ∀ c ∈ m.localPart.head?, c ≠ '@' ∧ isWhitespace c = false := by
      intro c hc
      rw [← hhead] at hc
      by_cases hroute : (trim addr).head? = some '@'
      · obtain ⟨r, hr⟩ := List.head?_eq_some_iff.mp hroute
        rw [hr] at hspec
        obtain ⟨route, rfl, hcolon⟩ := exists_route hspec
        exact hclean route m.toString hr hcolon c hc
      · -- without a route the trimmed text is the address
        have hself := addrSpec?_eq_self_iff.mpr hroute
        rw [hspec] at hself
        rw [Option.some.inj hself] at hc
        refine ⟨?_, head_trim hc⟩
        rintro rfl
        exact hroute hc
    refine ⟨hfirst, ?_, (parse_toString_iff h).mpr hfirst⟩
    intro c hc
    apply getLast_toString h
    unfold Mailbox.toString
    rw [List.getLast?_append_of_ne_nil _ (by simp), List.getLast?_cons_of_ne_nil hdomain]
    exact hc

theorem Mailbox.normalised_single_hop :
    Mailbox.parse (Mailbox.toString ⟨"u".toList, "c".toList⟩) =
      .ok ⟨"u".toList, "c".toList⟩ := by
  refine ((@Mailbox.normalised_iff "@a:u@c".toList ⟨"u".toList, "c".toList⟩
    (by decide)).mpr ?_).2.2
  intro route rest htrim hroute c hc
  have hspec := @addrSpec?_route route rest hroute
  rw [← htrim, show addrSpec? (trim "@a:u@c".toList) = some "u@c".toList by decide] at hspec
  rw [← Option.some.inj hspec] at hc
  cases hc
  decide

/-- A second route behind the first is taken for the local part, and the printed form loses it. -/
theorem Mailbox.route_leaks :
    Mailbox.parse "@a:@b:u@c".toList = .ok ⟨"@b:u".toList, "c".toList⟩ ∧
    Mailbox.parse (Mailbox.toString ⟨"@b:u".toList, "c".toList⟩) =
      .ok ⟨"u".toList, "c".toList⟩ := by
  decide

/-! ## 2. Headers -/

/-- An ordered list of names and values; a name may occur more than once. -/
structure Headers where
  entries : List (Str × Str)
  deriving DecidableEq, Repr

/-- `Headers::get`: the first value under a name, whatever its case. -/
def Headers.get (headers : Headers) (name : Str) : Option Str :=
  (headers.entries.find? fun entry => eqIgnoreAsciiCase entry.1 name).map Prod.snd

-- whether a line is folded onto the field before it
def isContinuation (line : Str) : Bool := line.head? == some ' ' || line.head? == some '\t'

/-- The loop of `parse_headers` over the lines left, the headers pushed so far and the header that
is still open to continuation lines. -/
def parseHeaderLines : List Str → List (Str × Str) → Option (Str × Str) →
    Except MailError (List (Str × Str))
  | [], entries, current => .ok (entries ++ current.toList)
  | rawLine :: rest, entries, current =>
      let line := (['\r'].isSuffixOf? rawLine).getD rawLine
      if line = [] then parseHeaderLines rest entries current
      else if isContinuation line then
        match current with
        | some (name, value) =>
            parseHeaderLines rest entries (some (name, value ++ ' ' :: trim line))
        | none => .error (.malformed "continuation line with no preceding header".toList)
      else
        match splitOnce ':' line with
        | none => .error (.malformed ("header without ':': ".toList ++ line))
        | some (name, value) =>
            parseHeaderLines rest (entries ++ current.toList) (some (trim name, trim value))

def parseHeaders (text : Str) : Except MailError Headers :=
  (parseHeaderLines (text.splitOn '\n') [] none).map Headers.mk

/-! ## 3. Messages -/

/-- `split_header_body`: the header section without its separator, and where the body begins. -/
def splitHeaderBody (raw : Bytes) : Bytes × Nat :=
  match findSub (crlf ++ crlf) raw with
  | some pos => (raw.take pos, pos + 4)
  | none =>
      match findSub [lf, lf] raw with
      | some pos => (raw.take pos, pos + 2)
      | none => (raw, raw.length)

structure Message where
  envelope : Envelope
  headers : Headers
  body : Bytes
  rawHead : Bytes
  deriving DecidableEq, Repr

def Message.parse (envelope : Envelope) (raw : Bytes) : Except MailError Message :=
  let (headerBytes, bodyStart) := splitHeaderBody raw
  (parseHeaders (decodeLossy headerBytes)).map fun headers =>
    ⟨envelope, headers, raw.drop bodyStart, raw.take bodyStart⟩

def Message.toBytes (m : Message) : Bytes := m.rawHead ++ m.body

def Message.prependHeader (m : Message) (line : Bytes) : Message :=
  { m with rawHead := line ++ crlf ++ m.rawHead }

def Message.receivedHeaderCount (m : Message) : Nat :=
  ((lines (decodeLossy m.rawHead)).filter fun line =>
    !isContinuation line &&
      match splitOnce ':' line with
      | some (name, _) => eqIgnoreAsciiCase (trim name) "Received".toList
      | none => false).length

/-- A verdict of the filter that scans messages during delivery. -/
inductive FilterVerdict where
  | accept
  | flag
  | reject
  deriving DecidableEq, Repr

/-- `MessageFilter`: implemented by the filter crate, injected into the delivery agent. -/
abbrev MessageFilter := Message → FilterVerdict

/-- `NullFilter`, the default. -/
def nullFilter : MessageFilter := fun _ => .accept

-- parsing keeps every byte: `to_bytes` reproduces the input
theorem Message.toBytes_parse {envelope : Envelope} {raw : Bytes} {m : Message}
    (h : Message.parse envelope raw = .ok m) : m.toBytes = raw ∧ m.envelope = envelope := by
  unfold Message.parse at h
  cases hp : parseHeaders (decodeLossy (splitHeaderBody raw).1) with
  | error e => simp [hp, Except.map] at h
  | ok headers =>
    simp only [hp, Except.map, Except.ok.injEq] at h
    rw [← h]
    exact ⟨List.take_append_drop _ _, rfl⟩

@[simp] theorem Message.toBytes_prependHeader (m : Message) (line : Bytes) :
    (m.prependHeader line).toBytes = line ++ crlf ++ m.toBytes := by
  simp [Message.toBytes, Message.prependHeader]

@[simp] theorem Message.envelope_prependHeader (m : Message) (line : Bytes) :
    (m.prependHeader line).envelope = m.envelope := rfl

end Snail.Mail
