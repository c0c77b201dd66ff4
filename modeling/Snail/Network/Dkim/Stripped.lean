import Snail.Network.Dkim.HashDecode

/-!
# Stripped — the signature field without its signature

`strip_b_value` works on the decoded text of a DKIM-Signature field; here is what it does to the
bytes.
-/

open Snail.Reasoning

namespace Snail.Network

def semicolon : UInt8 := 59
def equals : UInt8 := 61

/-! ## 1. Segments -/

/-- A segment `name=value` whose name is `b`, up to white space. -/
def isBSegment (segment : Bytes) : Bool :=
  match splitOnce equals segment with
  | some (key, _) => trim (decodeLossy key) = "b".toList
  | none => false

-- what `strip_b_value` leaves of a segment
def strippedSegment (segment : Bytes) : Bytes :=
  match splitOnce equals segment with
  | some (key, _) =>
      if trim (decodeLossy key) = "b".toList then recode key ++ [equals] else recode segment
  | none => recode segment

theorem strippedSegment_of_not_b {segment : Bytes} (h : isBSegment segment = false) :
    strippedSegment segment = recode segment := by
  unfold isBSegment at h
  unfold strippedSegment
  cases hs : splitOnce equals segment with
  | none => rfl
  | some p =>
    rw [hs] at h
    dsimp only at h ⊢
    rw [if_neg (of_decide_eq_false h)]

theorem strippedSegment_of_b {key value : Bytes} (hkey : equals ∉ key)
    (hb : trim (decodeLossy key) = "b".toList) :
    strippedSegment (key ++ equals :: value) = recode key ++ [equals] := by
  unfold strippedSegment
  rw [splitOnce_append_cons hkey]
  dsimp only
  rw [if_pos hb]

theorem isBSegment_iff {segment : Bytes} :
    isBSegment segment = true ↔ ∃ key value, segment = key ++ equals :: value ∧ equals ∉ key ∧
      trim (decodeLossy key) = "b".toList := by
  unfold isBSegment
  apply Iff.intro
  · intro h
    cases hs : splitOnce equals segment with
    | none =>
      rw [hs] at h
      cases h
    | some p =>
      rw [hs] at h
      have hsplit := splitOnce_eq_some_iff.mp hs
      exact ⟨p.1, p.2, hsplit.1, hsplit.2, of_decide_eq_true h⟩
  · rintro ⟨key, value, rfl, hkey, hb⟩
    rw [splitOnce_append_cons hkey]
    exact decide_eq_true hb

-- one segment of `strip_b_value`
def strippedText (segment : Str) : Str :=
  match splitOnce '=' segment with
  | some (key, _) => if trim key = "b".toList then key ++ ['='] else segment
  | none => segment

/-- The bytes that are hashed, segment by segment. -/
theorem stripBValue_bytes (raw : Bytes) :
    encodeUtf8 (stripBValue (decodeLossy raw)) =
      [semicolon].intercalate ((raw.splitOn semicolon).map strippedSegment) := by
  have hsemi : ';' = Char.ofNat semicolon.toNat := rfl
  have heq : '=' = Char.ofNat equals.toNat := rfl
  have hsegment : ∀ segment : Bytes, encodeUtf8 (strippedText (decodeLossy segment)) =
      strippedSegment segment := by
    intro segment
    unfold strippedText strippedSegment
    rw [heq, splitOnce_decodeLossy (by decide)]
    cases splitOnce equals segment with
    | none => rfl
    | some p =>
      rw [Option.map_some]
      dsimp only
      split
      · rw [encodeUtf8_append]
        rfl
      · rfl
  unfold stripBValue
  rw [hsemi, splitOn_decodeLossy_ascii (by decide), List.map_map,
    encodeUtf8_intercalate (by decide), List.map_map]
  congr 1
  apply List.map_congr_left
  intro segment _
  exact hsegment segment

theorem strippedSegment_eq_self_iff {segment : Bytes} :
    strippedSegment segment = segment ↔ (decodeUtf8 segment).isSome = true ∧
      (isBSegment segment = true → ∃ key, splitOnce equals segment = some (key, [])) := by
  rw [← recode_eq_self_iff]
  cases hb : isBSegment segment with
  | false =>
    rw [strippedSegment_of_not_b hb]
    simp
  | true =>
    obtain ⟨key, value, rfl, hkey, hname⟩ := isBSegment_iff.mp hb
    rw [strippedSegment_of_b hkey hname, splitOnce_append_cons hkey,
      recode_append_ascii (by decide)]
    -- the first `=` of both sides ends the name
    have hrecode : equals ∉ recode key := by
      rw [mem_recode_iff (by decide)]
      exact hkey
    have hcut : ∀ v : Bytes, recode key ++ equals :: v = key ++ equals :: value ↔
        recode key = key ∧ v = value := by
      intro v
      apply Iff.intro
      · intro h
        have hsplit := splitOnce_append_cons (m := v) hrecode
        rw [h, splitOnce_append_cons hkey, Option.some.injEq, Prod.mk.injEq] at hsplit
        exact ⟨hsplit.1.symm, hsplit.2.symm⟩
      · rintro ⟨hk, rfl⟩
        rw [hk]
    rw [hcut, hcut]
    apply Iff.intro
    · rintro ⟨hk, rfl⟩
      exact ⟨⟨hk, rfl⟩, fun _ => ⟨key, rfl⟩⟩
    · rintro ⟨⟨hk, -⟩, hempty⟩
      obtain ⟨k, hk'⟩ := hempty rfl
      cases hk'
      exact ⟨hk, rfl⟩

/-! ## 2. The tag that carries the signature -/

/-- Where the value of the `b` tag stands in a field: the parser takes the last tag of the name. -/
structure BTag (raw : Bytes) where
  front : List Bytes
  key : Bytes
  value : Bytes
  back : List Bytes
  text : raw = front.flatMap (· ++ [semicolon]) ++
    (key ++ equals :: (value ++ back.flatMap (semicolon :: ·)))
  whole : ∀ s ∈ front ++ key :: value :: back, semicolon ∉ s
  fresh : equals ∉ key
  named : trim (decodeLossy key) = "b".toList
  last : ∀ s ∈ back, isBSegment s = false

/-- The field with the bytes of the value deleted. -/
def BTag.withoutValue {raw : Bytes} (tag : BTag raw) : Bytes :=
  tag.front.flatMap (· ++ [semicolon]) ++
    (tag.key ++ equals :: tag.back.flatMap (semicolon :: ·))

section
variable {raw : Bytes}

theorem BTag.text_eq (tag : BTag raw) : raw = [semicolon].intercalate
    (tag.front ++ (tag.key ++ equals :: tag.value) :: tag.back) := by
  rw [intercalate_append_cons, List.append_assoc, List.cons_append]
  exact tag.text

theorem BTag.withoutValue_eq (tag : BTag raw) : tag.withoutValue = [semicolon].intercalate
    (tag.front ++ (tag.key ++ [equals]) :: tag.back) := by
  rw [intercalate_append_cons, List.append_assoc, List.singleton_append]
  rfl

theorem BTag.splitOn_eq (tag : BTag raw) :
    raw.splitOn semicolon = tag.front ++ (tag.key ++ equals :: tag.value) :: tag.back := by
  conv_lhs => rw [tag.text_eq]
  apply List.splitOn_intercalate
  · intro s hs
    have hwhole := tag.whole
    rw [List.mem_append, List.mem_cons] at hs
    rcases hs with hs | rfl | hs
    · exact hwhole s (by simp [hs])
    · have hkey := hwhole tag.key (by simp)
      have hvalue := hwhole tag.value (by simp)
      have hne : semicolon ≠ equals := by decide
      simp [hkey, hvalue, hne]
    · exact hwhole s (by simp [hs])
  · simp

theorem semicolon_not_mem_strippedSegment {s : Bytes} (h : semicolon ∉ s) :
    semicolon ∉ strippedSegment s := by
  have hrecode : ∀ t : Bytes, semicolon ∉ t → semicolon ∉ recode t := by
    intro t ht
    rw [mem_recode_iff (by decide)]
    exact ht
  cases hb : isBSegment s with
  | false =>
    rw [strippedSegment_of_not_b hb]
    exact hrecode s h
  | true =>
    obtain ⟨key, value, rfl, hfresh, hname⟩ := isBSegment_iff.mp hb
    rw [strippedSegment_of_b hfresh hname, List.mem_append, List.mem_singleton, not_or]
    exact ⟨hrecode key fun hk => h (List.mem_append_left _ hk), by decide⟩

-- both texts are joined segments, so they agree segment by segment
theorem BTag.stripped_iff_segments (tag : BTag raw) :
    encodeUtf8 (stripBValue (decodeLossy raw)) = tag.withoutValue ↔
      (tag.front ++ (tag.key ++ equals :: tag.value) :: tag.back).map strippedSegment =
        tag.front ++ (tag.key ++ [equals]) :: tag.back := by
  rw [stripBValue_bytes, tag.splitOn_eq, tag.withoutValue_eq]
  apply Iff.intro
  · intro h
    have hsplit := congrArg (List.splitOn semicolon) h
    rwa [List.splitOn_intercalate, List.splitOn_intercalate] at hsplit
    · intro s hs
      rw [List.mem_append, List.mem_cons] at hs
      rcases hs with hs | rfl | hs
      · exact tag.whole s (by simp [hs])
      · have hfree := tag.whole tag.key (by simp)
        have hne : semicolon ≠ equals := by decide
        simp [hfree, hne]
      · exact tag.whole s (by simp [hs])
    · simp
    · intro s hs
      obtain ⟨t, ht, rfl⟩ := List.mem_map.mp hs
      rw [← tag.splitOn_eq] at ht
      exact semicolon_not_mem_strippedSegment (not_mem_of_mem_splitOn ht)
    · simp
  · intro h
    rw [h]

/-- The value alone is missing exactly if everything that is kept is UTF-8 and no other `b` tag has
a value that went with it. -/
theorem BTag.stripped_iff (tag : BTag raw) :
    encodeUtf8 (stripBValue (decodeLossy raw)) = tag.withoutValue ↔
      (∀ s ∈ tag.front ++ tag.key :: tag.back, (decodeUtf8 s).isSome = true) ∧
      ∀ s ∈ tag.front, isBSegment s = true → ∃ key, splitOnce equals s = some (key, []) := by
  have hself : ∀ l : List Bytes, l.map strippedSegment = l ↔ ∀ s ∈ l, strippedSegment s = s := by
    intro l
    conv_lhs => rw [← List.map_id l, List.map_map]
    exact List.map_inj_left
  have hparts : (tag.front ++ (tag.key ++ equals :: tag.value) :: tag.back).map strippedSegment =
      tag.front ++ (tag.key ++ [equals]) :: tag.back ↔
      (∀ s ∈ tag.front, strippedSegment s = s) ∧ recode tag.key = tag.key ∧
        ∀ s ∈ tag.back, strippedSegment s = s := by
    rw [List.map_append, List.map_cons, strippedSegment_of_b tag.fresh tag.named, ← hself,
      ← hself]
    apply Iff.intro
    · intro h
      have hfront := List.append_inj h (List.length_map _)
      have hback := List.cons.inj hfront.2
      exact ⟨hfront.1, List.append_cancel_right hback.1, hback.2⟩
    · rintro ⟨hfront, hkey, hback⟩
      rw [hfront, hkey, hback]
  rw [tag.stripped_iff_segments, hparts]
  simp only [strippedSegment_eq_self_iff, recode_eq_self_iff, List.mem_append, List.mem_cons]
  apply Iff.intro
  · rintro ⟨hfront, hkey, hback⟩
    refine ⟨?_, fun s hs => (hfront s hs).2⟩
    rintro s (hs | rfl | hs)
    · exact (hfront s hs).1
    · exact hkey
    · exact (hback s hs).1
  · rintro ⟨hkept, hempty⟩
    refine ⟨fun s hs => ⟨hkept s (.inl hs), hempty s hs⟩, hkept _ (.inr (.inl rfl)), ?_⟩
    intro s hs
    refine ⟨hkept s (.inr (.inr hs)), ?_⟩
    intro hb
    rw [tag.last s hs] at hb
    cases hb

-- the last segment is the tag if it is one at all
theorem BTag.front_of_last (tag : BTag raw) {l : List Bytes} {s : Bytes}
    (h : raw.splitOn semicolon = l ++ [s]) (hb : isBSegment s = true) : tag.front = l := by
  rw [tag.splitOn_eq] at h
  rcases List.eq_nil_or_concat tag.back with hback | ⟨back, t, hback⟩
  · rw [hback] at h
    exact (List.append_singleton_inj.mp h).1
  · rw [hback, List.concat_eq_append, ← List.cons_append, ← List.append_assoc,
      List.append_singleton_inj] at h
    have hlast := tag.last t (by rw [hback]; simp)
    rw [h.2, hb] at hlast
    cases hlast

/-- A field that parses has a `b` tag. -/
theorem exists_bTag {crypto : Crypto} {sig : DkimSignature}
    (h : DkimSignature.parse crypto raw = .ok sig) : Nonempty (BTag raw) := by
  obtain ⟨value, hvalue⟩ := signature_of_parse h
  have hsegment : ∃ s ∈ raw.splitOn semicolon, isBSegment s = true := by
    unfold tagGet at hvalue
    obtain ⟨kv, hfind, -⟩ := Option.map_eq_some_iff.mp hvalue
    have hkey := List.find?_some hfind
    have hmem := List.mem_reverse.mp (List.mem_of_find?_eq_some hfind)
    unfold parseTagMap at hmem
    obtain ⟨pair, hpair, rfl⟩ := List.mem_map.mp (List.mem_filter.mp hmem).1
    obtain ⟨text, htext, hsplit⟩ := List.mem_filterMap.mp hpair
    rw [show ';' = Char.ofNat semicolon.toNat from rfl, splitOn_decodeLossy_ascii (by decide)]
      at htext
    obtain ⟨s, hs, rfl⟩ := List.mem_map.mp htext
    rw [show '=' = Char.ofNat equals.toNat from rfl, splitOnce_decodeLossy (by decide)] at hsplit
    obtain ⟨p, hp, rfl⟩ := Option.map_eq_some_iff.mp hsplit
    have hcut := splitOnce_eq_some_iff.mp hp
    exact ⟨s, hs, isBSegment_iff.mpr ⟨p.1, p.2, hcut.1, hcut.2, of_decide_eq_true hkey⟩⟩
  obtain ⟨front, s, back, hsegments, hb, hlast⟩ := exists_last_where hsegment
  obtain ⟨key, value, rfl, hfresh, hnamed⟩ := isBSegment_iff.mp hb
  have hfree : ∀ t ∈ front ++ (key ++ equals :: value) :: back, semicolon ∉ t := by
    intro t ht
    rw [← hsegments] at ht
    exact not_mem_of_mem_splitOn ht
  have hmid := hfree (key ++ equals :: value) (by simp)
  rw [List.mem_append, List.mem_cons, not_or, not_or] at hmid
  have htext : raw = front.flatMap (· ++ [semicolon]) ++
      (key ++ equals :: (value ++ back.flatMap (semicolon :: ·))) := by
    have hraw : [semicolon].intercalate (raw.splitOn semicolon) = raw :=
      List.intercalate_splitOn semicolon
    rw [← hraw, hsegments, intercalate_append_cons, List.append_assoc, List.cons_append]
    rfl
  refine ⟨⟨front, key, value, back, htext, ?_, hfresh, hnamed, ?_⟩⟩
  · intro t ht
    rw [List.mem_append, List.mem_cons, List.mem_cons] at ht
    rcases ht with ht | rfl | rfl | ht
    · exact hfree t (by simp [ht])
    · exact hmid.1
    · exact hmid.2.2
    · exact hfree t (by simp [ht])
  · intro t ht
    exact Bool.eq_false_iff.mpr (hlast t ht)

end

/-! ## 3. What is hashed of the field -/

/-- Of a field that parses, the hashed value is the field without the value of its `b` tag exactly
if the rest is UTF-8 and no earlier `b` tag has a value. -/
theorem b_value_alone_removed_iff {crypto : Crypto} {raw : Bytes} {sig : DkimSignature}
    (h : DkimSignature.parse crypto raw = .ok sig) :
    Nonempty (BTag raw) ∧ ∀ tag : BTag raw, sig.bStrippedValue = tag.withoutValue ↔
      (∀ s ∈ tag.front ++ tag.key :: tag.back, (decodeUtf8 s).isSome = true) ∧
      ∀ s ∈ tag.front, isBSegment s = true → ∃ key, splitOnce equals s = some (key, []) := by
  refine ⟨exists_bTag h, ?_⟩
  intro tag
  rw [bStrippedValue_of_parse sig h]
  exact tag.stripped_iff

def oversignedTag : BTag oversignedValue where
  front := [ascii " v=1", ascii " a=ed25519-sha256", ascii " c=relaxed/simple", ascii " d=x",
    ascii " s=k", ascii "\r\n h=From:From", ascii " bh=AAAA"]
  key := ascii " b"
  value := ascii "AAAA"
  back := []
  text := by decide
  whole := by decide
  fresh := by decide
  named := by decide
  last := by decide

theorem b_value_alone_removed_oversigned :
    oversignedSig.bStrippedValue = oversignedTag.withoutValue := by
  have hplain : ∀ s ∈ oversignedTag.front, isBSegment s = false := by decide +kernel
  exact ((b_value_alone_removed_iff eval_oversigned.2.2.1).2 oversignedTag).mpr
    ⟨by decide +kernel, fun s hs hb => absurd hb (Bool.eq_false_iff.mp (hplain s hs))⟩

def eightBitValue : Bytes :=
  ascii "a=ed25519-sha256; d=x; s=k; h=From; bh=AAAA; n=" ++ [0xFF] ++ ascii "; b=AAAA"

def twoSignaturesValue : Bytes :=
  ascii "a=ed25519-sha256; d=x; s=k; h=From; bh=AAAA; b=BBBB; b=AAAA"

/-- A byte that is no UTF-8 comes out as U+FFFD, and of two `b` tags both lose their value. -/
theorem more_than_b_value_removed :
    (∃ sig, DkimSignature.parse oneTextCrypto eightBitValue = .ok sig ∧
      ∀ tag : BTag eightBitValue, sig.bStrippedValue ≠ tag.withoutValue) ∧
    ∃ sig, DkimSignature.parse oneTextCrypto twoSignaturesValue = .ok sig ∧
      ∀ tag : BTag twoSignaturesValue, sig.bStrippedValue ≠ tag.withoutValue := by
  have hsegments : eightBitValue.splitOn semicolon = [ascii "a=ed25519-sha256", ascii " d=x",
      ascii " s=k", ascii " h=From", ascii " bh=AAAA", ascii " n=" ++ [0xFF]] ++ [ascii " b=AAAA"] ∧
      twoSignaturesValue.splitOn semicolon = [ascii "a=ed25519-sha256", ascii " d=x", ascii " s=k",
        ascii " h=From", ascii " bh=AAAA", ascii " b=BBBB"] ++ [ascii " b=AAAA"] := by
    decide +kernel
  refine ⟨?_, ?_⟩
  · obtain ⟨sig, hsig⟩ := Option.isSome_iff_exists.mp
      (show (DkimSignature.parse oneTextCrypto eightBitValue).toOption.isSome by decide +kernel)
    have hparse := toOption_eq_some_iff.mp hsig
    refine ⟨sig, hparse, ?_⟩
    intro tag heq
    rw [bStrippedValue_of_parse sig hparse, tag.stripped_iff, tag.front_of_last hsegments.1
      (by decide +kernel)] at heq
    exact absurd (heq.1 (ascii " n=" ++ [0xFF]) (by simp)) (by decide +kernel)
  · obtain ⟨sig, hsig⟩ := Option.isSome_iff_exists.mp
      (show (DkimSignature.parse oneTextCrypto twoSignaturesValue).toOption.isSome by
        decide +kernel)
    have hparse := toOption_eq_some_iff.mp hsig
    refine ⟨sig, hparse, ?_⟩
    intro tag heq
    rw [bStrippedValue_of_parse sig hparse, tag.stripped_iff, tag.front_of_last hsegments.2
      (by decide +kernel)] at heq
    obtain ⟨key, hkey⟩ := heq.2 (ascii " b=BBBB") (by simp) (by decide +kernel)
    have hvalue : (splitOnce equals (ascii " b=BBBB")).map Prod.snd = some [] := by rw [hkey]; rfl
    exact absurd hvalue (by decide +kernel)

end Snail.Network
