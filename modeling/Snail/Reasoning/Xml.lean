import Snail.Reasoning.LineEnds

/-!
# Xml — documents without attributes

The part of XML 1.0 that consists of elements without attributes and of text in which the five
predefined entities stand for themselves.  A processor reads CRLF and CR in text as LF.
-/

namespace Snail.Reasoning

/-! ## 1. Text -/

-- the production `Char`
def isXmlChar (c : Char) : Bool :=
  c = '\t' || c = '\n' || c = '\r' || (0x20 ≤ c.toNat && c.toNat ≤ 0xD7FF) ||
    (0xE000 ≤ c.toNat && c.toNat ≤ 0xFFFD) || (0x10000 ≤ c.toNat && c.toNat ≤ 0x10FFFF)

-- the predefined entities
def entities : List (Char × Str) :=
  [('&', "&amp;".toList), ('<', "&lt;".toList), ('>', "&gt;".toList), ('"', "&quot;".toList),
    ('\'', "&apos;".toList)]

def escapeChar (c : Char) : Str := (entities.lookup c).getD [c]

def escape (s : Str) : Str := s.flatMap escapeChar

def decodeEntities : Str → Option Str
  | [] => some []
  | '&' :: 'a' :: 'm' :: 'p' :: ';' :: s => (decodeEntities s).map ('&' :: ·)
  | '&' :: 'l' :: 't' :: ';' :: s => (decodeEntities s).map ('<' :: ·)
  | '&' :: 'g' :: 't' :: ';' :: s => (decodeEntities s).map ('>' :: ·)
  | '&' :: 'q' :: 'u' :: 'o' :: 't' :: ';' :: s => (decodeEntities s).map ('"' :: ·)
  | '&' :: 'a' :: 'p' :: 'o' :: 's' :: ';' :: s => (decodeEntities s).map ('\'' :: ·)
  | '&' :: _ => none
  | c :: s => (decodeEntities s).map (c :: ·)

-- `]]>` may not stand in text
def readText (s : Str) : Option Str :=
  if "]]>".toList <:+: s then none else decodeEntities (normaliseEol s)

theorem escape_cons (c : Char) (s : Str) : escape (c :: s) = escapeChar c ++ escape s := rfl

theorem escape_append (s t : Str) : escape (s ++ t) = escape s ++ escape t := List.flatMap_append

theorem escapeChar_cases (c : Char) :
    (c, escapeChar c) ∈ entities ∨ c ∉ entities.map Prod.fst ∧ escapeChar c = [c] := by
  unfold escapeChar
  cases h : entities.lookup c with
  | some text =>
    obtain ⟨before, after, hsplit, -⟩ := List.lookup_eq_some_iff.mp h
    left
    rw [hsplit]
    simp
  | none =>
    refine .inr ⟨?_, rfl⟩
    rw [List.lookup_eq_none_iff] at h
    intro hmem
    obtain ⟨e, he, rfl⟩ := List.mem_map.mp hmem
    simpa using h e he

theorem decodeEntities_cons {c : Char} (h : c ≠ '&') (s : Str) :
    decodeEntities (c :: s) = (decodeEntities s).map (c :: ·) := by
  rw [decodeEntities]
  all_goals simp [h]

theorem decodeEntities_entity {c : Char} {text : Str} (h : (c, text) ∈ entities) (s : Str) :
    decodeEntities (text ++ s) = (decodeEntities s).map (c :: ·) := by
  simp only [entities, List.mem_cons, Prod.mk.injEq, List.not_mem_nil, or_false] at h
  rcases h with ⟨rfl, rfl⟩ | ⟨rfl, rfl⟩ | ⟨rfl, rfl⟩ | ⟨rfl, rfl⟩ | ⟨rfl, rfl⟩
  all_goals rfl

theorem decodeEntities_escape (s : Str) : decodeEntities (escape s) = some s := by
  induction s with
  | nil => rfl
  | cons c s ih =>
    have hmap : (decodeEntities (escape s)).map (c :: ·) = some (c :: s) := by
      rw [ih]
      rfl
    rw [escape_cons, ← hmap]
    rcases escapeChar_cases c with h | ⟨h, hself⟩
    · exact decodeEntities_entity h _
    · rw [hself]
      exact decodeEntities_cons (fun hc => h (by rw [hc]; decide)) _

theorem not_mem_escape {c : Char} (h : c = '<' ∨ c = '>') (s : Str) : c ∉ escape s := by
  intro hmem
  obtain ⟨d, -, hd⟩ := List.mem_flatMap.mp hmem
  rcases escapeChar_cases d with hent | ⟨hself, hd'⟩
  · have hall : ∀ e ∈ entities, '<' ∉ e.2 ∧ '>' ∉ e.2 := by decide
    rcases h with rfl | rfl
    · exact (hall _ hent).1 hd
    · exact (hall _ hent).2 hd
  · rw [hd'] at hd
    rw [← List.mem_singleton.mp hd] at hself
    rcases h with rfl | rfl <;> exact hself (by decide)

/-! ### Line ends -/

theorem normaliseEol_escape (s : Str) : normaliseEol (escape s) = escape (normaliseEol s) := by
  fun_induction normaliseEol s with
  | case1 => rfl
  | case2 s ih =>
    change normaliseEol ('\r' :: '\n' :: escape s) = '\n' :: escape (normaliseEol s)
    rw [normaliseEol, ih]
  | case3 s hs ih =>
    change normaliseEol ('\r' :: escape s) = '\n' :: escape (normaliseEol s)
    rw [normaliseEol_return, ih]
    cases s with
    | nil => simp [escape]
    | cons c s =>
      have hc : c ≠ '\n' := fun hc => hs s (by rw [hc])
      rw [escape_cons]
      rcases escapeChar_cases c with hent | ⟨-, hself⟩
      · have hall : ∀ e ∈ entities, e.2.head? = some '&' := by decide
        rw [List.head?_append, hall _ hent]
        simp
      · rw [hself]
        simp [hc]
  | case4 c s _ hc ih =>
    have hreturn : '\r' ∉ escapeChar c := by
      rcases escapeChar_cases c with hent | ⟨-, hself⟩
      · have hall : ∀ e ∈ entities, '\r' ∉ e.2 := by decide
        exact hall _ hent
      · rw [hself, List.mem_singleton]
        exact fun hr => hc hr.symm
    rw [escape_cons, normaliseEol_append hreturn, ih]
    rfl

theorem readText_escape (s : Str) : readText (escape s) = some (normaliseEol s) := by
  have hcdata : ¬ "]]>".toList <:+: escape s := fun h =>
    not_mem_escape (.inr rfl) s (h.subset (by decide))
  unfold readText
  rw [if_neg hcdata, normaliseEol_escape, decodeEntities_escape]

/-! ## 2. Elements -/

/-- What stands between two tags: text, or text in front of a first element and what follows it. -/
inductive Content where
  | done (text : Str)
  | child (text tag : Str) (inner rest : Content)
  deriving DecidableEq, Repr

-- a name as the elements here have one
def isTagName (tag : Str) : Bool := tag ≠ [] && tag.all fun c => c.isAlpha || c = '_'

def Content.write : Content → Str
  | .done text => escape text
  | .child text tag inner rest =>
      escape text ++
        ('<' :: tag ++ '>' :: (inner.write ++ ('<' :: '/' :: tag ++ '>' :: rest.write)))

-- with the line ends of a processor
def Content.normalised : Content → Content
  | .done text => .done (normaliseEol text)
  | .child text tag inner rest => .child (normaliseEol text) tag inner.normalised rest.normalised

-- the first text, and each tag with the text behind it
def Content.pieces : Content → Str × List (Str × Str)
  | .done text => (escape text, [])
  | .child text tag inner rest =>
      (escape text,
        (tag, inner.pieces.1) :: (inner.pieces.2 ++ ('/' :: tag, rest.pieces.1) :: rest.pieces.2))

def tagPieces (s : Str) : Option (Str × List (Str × Str)) :=
  match s.splitOn '<' with
  | [] => none
  | text :: pieces => (pieces.mapM (splitOnce '>')).map fun tags => (text, tags)

/-- Reads up to the closing tag of the element around, or the end.  Each opening tag has to be
closed by one of the same name. -/
def readContent : Nat → Str → List (Str × Str) → Option (Content × List (Str × Str))
  | 0, _, _ => none
  | _ + 1, text, [] => (readText text).map fun t => (.done t, [])
  | _ + 1, text, ('/' :: tag, next) :: rest =>
      (readText text).map fun t => (.done t, ('/' :: tag, next) :: rest)
  | fuel + 1, text, (tag, next) :: rest =>
      if isTagName tag then
        (readText text).bind fun t =>
          (readContent fuel next rest).bind fun
            | (inner, (close, after) :: rest') =>
                if close = '/' :: tag then
                  (readContent fuel after rest').map fun p => (.child t tag inner p.1, p.2)
                else none
            | (_, []) => none
      else none

def isXmlSpace (c : Char) : Bool := c = ' ' || c = '\t' || c = '\r' || c = '\n'

def xmlDeclaration : Str := "<?xml version=\"1.0\" encoding=\"UTF-8\"?>".toList

/-- A document: allowed characters only, and one element with nothing but space around it. -/
def readXml (doc : Str) : Option (Str × Content) :=
  if doc.all isXmlChar then
    (xmlDeclaration.isPrefixOf? doc).bind fun body =>
      (tagPieces body).bind fun p =>
        match readContent (p.2.length + 1) p.1 p.2 with
        | some (.child lead root inner (.done trail), []) =>
            if (lead ++ trail).all isXmlSpace then some (root, inner) else none
        | _ => none
  else none

example : readXml (xmlDeclaration ++ "<a>1 &lt; 2<b>x</b>\r\n</a>\r\n".toList) =
    some ("a".toList, .child "1 < 2".toList "b".toList (.done "x".toList) (.done "\n".toList)) := by
  decide +kernel
example : readXml (xmlDeclaration ++ "<a><b></a></b>".toList) = none := by decide +kernel

/-! ## 3. Reading what was written -/

def Content.named : Content → Bool
  | .done _ => true
  | .child _ tag inner rest => isTagName tag && inner.named && rest.named

-- no text with a character that XML does not allow
def Content.clean : Content → Bool
  | .done text => text.all isXmlChar
  | .child text _ inner rest => text.all isXmlChar && inner.clean && rest.clean

def Content.size : Content → Nat
  | .done _ => 1
  | .child _ _ inner rest => inner.size + rest.size + 1

theorem Content.size_le (c : Content) : c.size ≤ c.pieces.2.length + 1 := by
  induction c with
  | done text => exact Nat.le_refl _
  | child text tag inner rest hinner hrest =>
    simp only [size, pieces, List.length_cons, List.length_append]
    omega

theorem of_isTagName {tag : Str} (h : isTagName tag = true) {c : Char} (hc : c ∈ tag) :
    c ≠ '<' ∧ c ≠ '>' ∧ c ≠ '/' ∧ isXmlChar c = true := by
  have hall := List.all_eq_true.mp (Bool.and_eq_true_iff.mp h).2 c hc
  rw [Bool.or_eq_true, decide_eq_true_eq] at hall
  rcases hall with halpha | rfl
  · refine ⟨?_, ?_, ?_, ?_⟩
    · rintro rfl
      cases halpha
    · rintro rfl
      cases halpha
    · rintro rfl
      cases halpha
    · have hrange : 0x20 ≤ c.toNat ∧ c.toNat ≤ 0xD7FF := by
        rw [isAlpha_iff] at halpha
        omega
      simp [isXmlChar, hrange]
  · decide

theorem Content.write_eq (c : Content) :
    c.write = c.pieces.1 ++ c.pieces.2.flatMap fun p => '<' :: (p.1 ++ '>' :: p.2) := by
  induction c with
  | done text => simp [write, pieces]
  | child text tag inner rest hinner hrest =>
    simp [write, pieces, hinner, hrest]

-- where the tags are cut out of a text
theorem tagPieces_join {text : Str} {tags : List (Str × Str)} (htext : '<' ∉ text)
    (htags : ∀ p ∈ tags, '<' ∉ p.1 ∧ '>' ∉ p.1 ∧ '<' ∉ p.2) :
    tagPieces (text ++ tags.flatMap fun p => '<' :: (p.1 ++ '>' :: p.2)) = some (text, tags) := by
  have hjoin : text ++ tags.flatMap (fun p => '<' :: (p.1 ++ '>' :: p.2)) =
      ['<'].intercalate (text :: tags.map fun p => p.1 ++ '>' :: p.2) := by
    rw [intercalate_cons, List.flatMap_map]
    rfl
  have hsplit : (['<'].intercalate (text :: tags.map fun p => p.1 ++ '>' :: p.2)).splitOn '<' =
      text :: tags.map fun p => p.1 ++ '>' :: p.2 := by
    refine (splitOn_intercalate_eq_iff (by simp)).mpr ?_
    intro piece hpiece
    rcases List.mem_cons.mp hpiece with rfl | hpiece
    · exact htext
    · obtain ⟨p, hp, rfl⟩ := List.mem_map.mp hpiece
      have h := htags p hp
      simp [h.1, h.2.2]
  have hmap : (tags.map fun p => p.1 ++ '>' :: p.2).mapM (splitOnce '>') = some tags := by
    rw [List.mapM_map]
    clear hjoin hsplit
    induction tags with
    | nil => rfl
    | cons p tags ih =>
      rw [List.mapM_cons, Function.comp_apply,
        splitOnce_append_cons (htags p List.mem_cons_self).2.1,
        ih fun q hq => htags q (List.mem_cons_of_mem _ hq)]
      rfl
  unfold tagPieces
  rw [hjoin, hsplit]
  dsimp only
  rw [hmap]
  rfl

theorem Content.pieces_clean {c : Content} (h : c.named = true) :
    '<' ∉ c.pieces.1 ∧ ∀ p ∈ c.pieces.2, '<' ∉ p.1 ∧ '>' ∉ p.1 ∧ '<' ∉ p.2 := by
  induction c with
  | done text => exact ⟨not_mem_escape (.inl rfl) text, nofun⟩
  | child text tag inner rest hinner hrest =>
    simp only [named, Bool.and_eq_true] at h
    obtain ⟨⟨htag, hinnerNamed⟩, hrestNamed⟩ := h
    have hlt : '<' ∉ tag := fun hc => (of_isTagName htag hc).1 rfl
    have hgt : '>' ∉ tag := fun hc => (of_isTagName htag hc).2.1 rfl
    have hin := hinner hinnerNamed
    have hre := hrest hrestNamed
    refine ⟨not_mem_escape (.inl rfl) text, ?_⟩
    intro p hp
    rcases List.mem_cons.mp hp with rfl | hp
    · exact ⟨hlt, hgt, hin.1⟩
    · rcases List.mem_append.mp hp with hp | hp
      · exact hin.2 p hp
      · rcases List.mem_cons.mp hp with rfl | hp
        · exact ⟨by simp [hlt], by simp [hgt], hre.1⟩
        · exact hre.2 p hp

theorem readContent_open {tag : Str} (h : isTagName tag = true) (fuel : Nat) (text next : Str)
    (rest : List (Str × Str)) :
    readContent (fuel + 1) text ((tag, next) :: rest) =
      (readText text).bind fun t =>
        (readContent fuel next rest).bind fun
          | (inner, (close, after) :: rest') =>
              if close = '/' :: tag then
                (readContent fuel after rest').map fun p => (.child t tag inner p.1, p.2)
              else none
          | (_, []) => none := by
  rw [readContent, if_pos h]
  rintro tag' rfl
  exact (of_isTagName h List.mem_cons_self).2.2.1 rfl

-- by induction on the content; what follows is left to the element around
theorem readContent_pieces {c : Content} (h : c.named = true) {fuel : Nat} (hfuel : c.size ≤ fuel)
    {rest : List (Str × Str)} (hrest : ∀ p ∈ rest.head?, ∃ tag, p.1 = '/' :: tag) :
    readContent fuel c.pieces.1 (c.pieces.2 ++ rest) = some (c.normalised, rest) := by
  induction c generalizing fuel rest with
  | done text =>
    obtain ⟨fuel, rfl⟩ := Nat.exists_eq_add_of_le' hfuel
    cases rest with
    | nil =>
      change (readText (escape text)).map _ = _
      rw [readText_escape]
      rfl
    | cons p rest =>
      obtain ⟨tag, htag⟩ := hrest p rfl
      obtain ⟨close, next⟩ := p
      dsimp only at htag
      subst htag
      change (readText (escape text)).map _ = _
      rw [readText_escape]
      rfl
  | child text tag inner after hinner hafter =>
    simp only [Content.named, Bool.and_eq_true] at h
    obtain ⟨⟨htag, hinnerNamed⟩, hafterNamed⟩ := h
    obtain ⟨fuel, rfl⟩ := Nat.exists_eq_add_of_le' (Nat.le_trans (Nat.le_add_left 1 _) hfuel)
    have hsize : inner.size + after.size ≤ fuel := Nat.le_of_add_le_add_right hfuel
    have hin : readContent fuel inner.pieces.1
        (inner.pieces.2 ++ ('/' :: tag, after.pieces.1) :: (after.pieces.2 ++ rest)) =
        some (inner.normalised, ('/' :: tag, after.pieces.1) :: (after.pieces.2 ++ rest)) :=
      hinner hinnerNamed (Nat.le_trans (Nat.le_add_right _ _) hsize) (by simp)
    have haf := hafter hafterNamed (Nat.le_trans (Nat.le_add_left _ _) hsize) hrest
    simp only [Content.pieces, List.cons_append, List.append_assoc]
    rw [readContent_open htag, readText_escape, Option.bind_some, hin, Option.bind_some]
    dsimp only
    rw [if_pos rfl, haf]
    rfl

theorem escape_all (s : Str) : (escape s).all isXmlChar = s.all isXmlChar := by
  rw [Bool.eq_iff_iff, List.all_eq_true, List.all_eq_true]
  constructor
  · intro h c hc
    rcases escapeChar_cases c with hent | ⟨-, hself⟩
    · have hall : ∀ e ∈ entities, isXmlChar e.1 = true := by decide
      exact hall _ hent
    · refine h c (List.mem_flatMap.mpr ⟨c, hc, ?_⟩)
      rw [hself]
      exact List.mem_singleton.mpr rfl
  · intro h d hd
    obtain ⟨c, hc, hd⟩ := List.mem_flatMap.mp hd
    rcases escapeChar_cases c with hent | ⟨-, hself⟩
    · have hall : ∀ e ∈ entities, e.2.all isXmlChar = true := by decide
      exact List.all_eq_true.mp (hall _ hent) d hd
    · rw [hself] at hd
      rw [List.mem_singleton.mp hd]
      exact h c hc

theorem Content.write_all {c : Content} (h : c.named = true) :
    c.write.all isXmlChar = c.clean := by
  induction c with
  | done text => exact escape_all text
  | child text tag inner rest hinner hrest =>
    simp only [named, Bool.and_eq_true] at h
    obtain ⟨⟨htag, hinnerNamed⟩, hrestNamed⟩ := h
    have htagAll : tag.all isXmlChar = true :=
      List.all_eq_true.mpr fun c hc => (of_isTagName htag hc).2.2.2
    have hpunct : isXmlChar '<' = true ∧ isXmlChar '>' = true ∧ isXmlChar '/' = true := by decide
    simp only [write, clean, List.all_append, List.all_cons, escape_all, htagAll, hpunct,
      Bool.true_and, hinner hinnerNamed, hrest hrestNamed, Bool.and_assoc]

/-- A written document is read as what was written, with LF for its line ends; one that could not be
written in XML is refused. -/
theorem readXml_write {lead root trail : Str} {inner : Content}
    (h : (Content.child lead root inner (.done trail)).named = true)
    (hlead : (normaliseEol lead ++ normaliseEol trail).all isXmlSpace = true) :
    readXml (xmlDeclaration ++ (Content.child lead root inner (.done trail)).write) =
      if (Content.child lead root inner (.done trail)).clean then some (root, inner.normalised)
      else none := by
  have hdecl : xmlDeclaration.all isXmlChar = true := by decide
  have hbody : xmlDeclaration.isPrefixOf?
      (xmlDeclaration ++ (Content.child lead root inner (.done trail)).write) =
      some (Content.child lead root inner (.done trail)).write :=
    List.isPrefixOf?_eq_some_iff_append_eq.mpr rfl
  have hclean := Content.pieces_clean h
  have hread := @readContent_pieces _ h _ (Content.size_le _) [] nofun
  rw [List.append_nil] at hread
  unfold readXml
  rw [List.all_append, hdecl, Bool.true_and, Content.write_all h]
  refine if_congr Iff.rfl ?_ rfl
  rw [hbody, Option.bind_some, Content.write_eq, tagPieces_join hclean.1 hclean.2, Option.bind_some]
  dsimp only
  rw [hread]
  dsimp only [Content.normalised]
  rw [if_pos hlead]

/-! ## 4. Looking into a document -/

-- text in front of what is there
def Content.prepend (s : Str) : Content → Content
  | .done text => .done (s ++ text)
  | .child text tag inner rest => .child (s ++ text) tag inner rest

-- the elements of a name on this level
def Content.elements (tag : Str) : Content → List Content
  | .done _ => []
  | .child _ tag' inner rest =>
      if tag' = tag then inner :: rest.elements tag else rest.elements tag

-- the text up to the first element
def Content.text : Content → Str
  | .done text => text
  | .child text _ _ _ => text

section
variable (s tag : Str) (c : Content)

@[simp] theorem Content.write_prepend : (c.prepend s).write = escape s ++ c.write := by
  cases c <;> simp [prepend, write, escape_append]

@[simp] theorem Content.named_prepend : (c.prepend s).named = c.named := by
  cases c <;> rfl

@[simp] theorem Content.clean_prepend :
    (c.prepend s).clean = (s.all isXmlChar && c.clean) := by
  cases c <;> simp [prepend, clean, Bool.and_assoc]

@[simp] theorem Content.elements_prepend : (c.prepend s).elements tag = c.elements tag := by
  cases c <;> rfl

theorem Content.text_normalised : c.normalised.text = normaliseEol c.text := by
  cases c <;> rfl

theorem Content.elements_normalised :
    c.normalised.elements tag = (c.elements tag).map Content.normalised := by
  induction c with
  | done text => rfl
  | child text tag' inner rest _ hrest =>
    simp only [normalised, elements]
    split
    · rw [hrest]
      rfl
    · exact hrest

end

theorem escape_eq_self {t : Str} (h : ∀ c ∈ t, c ∉ entities.map Prod.fst) : escape t = t := by
  induction t with
  | nil => rfl
  | cons c t ih =>
    rcases escapeChar_cases c with hent | ⟨-, hself⟩
    · exact absurd (List.mem_map_of_mem hent) (h c List.mem_cons_self)
    · rw [escape_cons, hself, ih fun d hd => h d (List.mem_cons_of_mem _ hd)]
      rfl

end Snail.Reasoning
