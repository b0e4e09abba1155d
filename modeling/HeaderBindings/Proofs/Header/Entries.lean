import HeaderBindings.Header.Enums
import HeaderBindings.Proofs.Header.Head

/-! # Entries of an enumeration

The body of an enumeration as it may be written: entries with values whose brackets match, commas
between them and perhaps one behind them, and blanks anywhere around. Splitting counts brackets of
all three kinds together; where they match, it cuts at the commas between the entries only. -/

namespace HeaderBindings.Header

open List Text

/-! ## Nested text -/

/-- The brackets that belong together. -/
abbrev bracketPairs : List (Char × Char) := [('(', ')'), ('[', ']'), ('{', '}')]

/-- Text in which brackets match. Commas stand inside of brackets only, unless the text itself is
`inside` of some. -/
inductive Nested : Bool → Text → Prop
  | nil (inside : Bool) : Nested inside []
  | char {inside : Bool} {c : Char} {t : Text} (hc : isBracket c = false)
      (hcomma : c = ',' → inside = true) (h : Nested inside t) : Nested inside (c :: t)
  | group {inside : Bool} {opening closing : Char} {part t : Text}
      (hpair : (opening, closing) ∈ bracketPairs) (hpart : Nested true part)
      (h : Nested inside t) : Nested inside (opening :: (part ++ closing :: t))

variable {inside : Bool} {s t : Text}

namespace Nested

theorem of_forall (h : ∀ c ∈ t, isBracket c = false ∧ c ≠ ',') : Nested inside t := by
  induction t with
  | nil => exact .nil inside
  | cons c t ih =>
      obtain ⟨⟨hc, hcomma⟩, h⟩ := List.forall_mem_cons.mp h
      exact .char hc (fun heq => absurd heq hcomma) (ih h)

theorem append (hs : Nested inside s) (ht : Nested inside t) : Nested inside (s ++ t) := by
  induction hs with
  | nil => exact ht
  | char hc hcomma _ ih => exact .char hc hcomma (ih ht)
  | group hpair hpart _ _ ih =>
      rw [List.cons_append, List.append_assoc, List.cons_append]
      exact .group hpair hpart (ih ht)

theorem enclosed (h : Nested inside t) : Nested true t := by
  induction h with
  | nil => exact .nil true
  | char hc _ _ ih => exact .char hc (fun _ => rfl) ih
  | group hpair hpart _ _ ih => exact .group hpair hpart ih

theorem intercalate {pieces : List Text} (h : ∀ piece ∈ pieces, Nested false piece) :
    Nested true ([','].intercalate pieces) := by
  induction pieces with
  | nil => exact .nil true
  | cons piece pieces ih =>
      obtain ⟨hpiece, h⟩ := List.forall_mem_cons.mp h
      cases pieces with
      | nil =>
          rw [List.intercalate_singleton]
          exact hpiece.enclosed
      | cons second others =>
          rw [List.intercalate_cons_cons]
          refine (hpiece.enclosed.append ?_).append (ih h)
          exact .char (by decide) (fun _ => rfl) (.nil true)

theorem balanced (h : Nested inside t) : Balanced '{' '}' t := by
  induction h with
  | nil => exact balanced_of_forall_ne (List.forall_mem_nil _)
  | char hc _ _ ih =>
      apply ih.cons_of_ne
      · rintro rfl
        exact absurd hc (by decide)
      · rintro rfl
        exact absurd hc (by decide)
  | group hpair _ _ hpart ht =>
      simp only [bracketPairs, List.mem_cons, Prod.mk.injEq, List.not_mem_nil, or_false] at hpair
      rcases hpair with ⟨rfl, rfl⟩ | ⟨rfl, rfl⟩ | ⟨rfl, rfl⟩
      · exact (hpart.append (ht.cons_of_ne (by decide) (by decide))).cons_of_ne (by decide)
          (by decide)
      · exact (hpart.append (ht.cons_of_ne (by decide) (by decide))).cons_of_ne (by decide)
          (by decide)
      · simpa using (hpart.enclose (by decide)).append ht

end Nested

theorem isBracket_of_mem_bracketPairs {opening closing : Char}
    (h : (opening, closing) ∈ bracketPairs) :
    isBracket opening = true ∧ isBracket closing = true ∧
      ∀ depth, bracketDepthAfter depth opening = depth + 1 ∧
        bracketDepthAfter (depth + 1) closing = depth := by
  simp only [bracketPairs, List.mem_cons, Prod.mk.injEq, List.not_mem_nil, or_false] at h
  rcases h with ⟨rfl, rfl⟩ | ⟨rfl, rfl⟩ | ⟨rfl, rfl⟩ <;>
    exact ⟨by decide, by decide, fun depth => ⟨rfl, rfl⟩⟩

/-- Splitting passes nested text, and comes out at the depth at which it goes in. -/
theorem Nested.splitOutsideBrackets_append (h : Nested inside t) {depth : Nat}
    (hdepth : inside = true → depth ≠ 0) (rest : Text) :
    splitOutsideBrackets ',' depth (t ++ rest) =
      (splitOutsideBrackets ',' depth rest).modifyHead (t ++ ·) := by
  induction h generalizing depth rest with
  | nil =>
      rw [List.nil_append]
      cases splitOutsideBrackets ',' depth rest <;> rfl
  | @char _ c t hc hcomma h ih =>
      have hnot : ¬ (isBracket c = false ∧ c = ',' ∧ depth = 0) :=
        fun ⟨_, heq, hzero⟩ => hdepth (hcomma heq) hzero
      rw [List.cons_append, splitOutsideBrackets_cons hnot, bracketDepthAfter_of_not_isBracket hc,
        ih hdepth, List.modifyHead_modifyHead]
      rfl
  | @group _ opening closing part t hpair _ _ hpart ht =>
      obtain ⟨hopening, hclosing, hdepths⟩ := isBracket_of_mem_bracketPairs hpair
      rw [List.cons_append, List.append_assoc, List.cons_append,
        splitOutsideBrackets_cons (by simp [hopening]), (hdepths depth).1, hpart (by simp),
        splitOutsideBrackets_cons (by simp [hclosing]), (hdepths depth).2, ht hdepth,
        List.modifyHead_modifyHead, List.modifyHead_modifyHead, List.modifyHead_modifyHead]
      simp [Function.comp_def]

/-- A body is split into the pieces that it was put together from. -/
theorem splitTopLevel_intercalate {pieces : List Text} (hne : pieces ≠ [])
    (h : ∀ piece ∈ pieces, Nested false piece) :
    splitTopLevel ',' ([','].intercalate pieces) = pieces := by
  induction pieces with
  | nil => exact absurd rfl hne
  | cons piece pieces ih =>
      obtain ⟨hpiece, h⟩ := List.forall_mem_cons.mp h
      have hsplit : ∀ rest, splitOutsideBrackets ',' 0 (piece ++ rest) =
          (splitOutsideBrackets ',' 0 rest).modifyHead (piece ++ ·) :=
        hpiece.splitOutsideBrackets_append (by simp)
      cases pieces with
      | nil =>
          rw [List.intercalate_singleton, splitTopLevel, ← List.append_nil piece, hsplit]
          rfl
      | cons second others =>
          have ih := ih (List.cons_ne_nil second others) h
          rw [splitTopLevel] at ih
          rw [List.intercalate_cons_cons, List.append_assoc, List.singleton_append, splitTopLevel,
            hsplit, splitOutsideBrackets, if_pos (by decide), ih, List.modifyHead_cons,
            List.append_nil]

/-! ## Entries -/

/-- An entry as it is written: a name between blanks, and perhaps a value behind an equals
sign. -/
structure EntryText where
  lead : Text
  name : Text
  space : Text
  value? : Option Text
  isBlank_lead : ∀ c ∈ lead, isBlank c = true
  isName : IsName name
  isBlank_space : ∀ c ∈ space, isBlank c = true
  isValue : ∀ value ∈ value?, value ≠ [] ∧ Nested false value

namespace EntryText

/-- What is written behind the blanks. -/
def assigned (e : EntryText) : Text :=
  match e.value? with
  | none => []
  | some value => '=' :: value

def text (e : EntryText) : Text := e.lead ++ (e.name ++ (e.space ++ e.assigned))

/-- The entry that is read, in an enumeration of the given name. -/
def declared (enumName : Text) (e : EntryText) : EnumEntry :=
  ⟨e.name, e.value?.isSome, EnumBlock.boundName enumName e.name⟩

end EntryText

theorem ne_of_isBlank {c d : Char} (hc : isBlank c = true) (hd : isBlank d = false) : c ≠ d := by
  rintro rfl
  rw [hc] at hd
  cases hd

namespace Nested

theorem of_isBlank {gap : Text} (h : ∀ c ∈ gap, isBlank c = true) : Nested inside gap :=
  of_forall fun c hc =>
    ⟨isBracket_eq_false (h c hc) (by decide), ne_of_isBlank (h c hc) (by decide)⟩

theorem of_isName {name : Text} (h : IsName name) : Nested inside name :=
  of_forall fun c hc =>
    ⟨isBracket_of_isNameChar (h.isNameChar c hc), h.ne_of_mem hc (by decide)⟩

end Nested

theorem EntryText.nested (e : EntryText) : Nested false e.text := by
  refine (Nested.of_isBlank e.isBlank_lead).append ((Nested.of_isName e.isName).append
    ((Nested.of_isBlank e.isBlank_space).append ?_))
  rw [assigned]
  cases hvalue : e.value? with
  | none => exact .nil false
  | some value => exact .char (by decide) (by decide) (e.isValue value hvalue).2

theorem IsName.isBlank_of_mem_head?_append {name : Text} (h : IsName name) (t : Text) :
    ∀ c ∈ (name ++ t).head?, isBlank c = false := by
  rw [List.head?_append_of_ne_nil _ h.ne_nil]
  intro c hc
  exact h.isBlank_of_mem (List.mem_of_mem_head? hc)

theorem trim_name_append {name gap : Text} (hname : IsName name)
    (hgap : ∀ c ∈ gap, isBlank c = true) : trim (name ++ gap) = name := by
  rw [trim_eq_trimEnd (hname.isBlank_of_mem_head?_append gap)]
  refine trimEnd_append (fun c hc => ?_) hgap
  exact hname.isBlank_of_mem (List.mem_of_getLast? hc)

/-- Trimming what follows a name and blanks leaves the equals sign. -/
theorem exists_trim_assignment {front : Text} (hfront : ∀ c ∈ front.head?, isBlank c = false)
    (hne : front ≠ []) (value : Text) :
    ∃ rest, trim (front ++ '=' :: value) = front ++ '=' :: rest := by
  obtain ⟨rest, gap, rfl, hgap, hrest⟩ := exists_append_run isBlank value
  refine ⟨rest, ?_⟩
  rw [trim_eq_trimEnd, ← List.cons_append, ← List.append_assoc]
  · refine trimEnd_append (fun c hc => ?_) hgap
    rw [List.getLast?_append_of_ne_nil _ (List.cons_ne_nil '=' rest)] at hc
    rcases List.eq_nil_or_concat' rest with rfl | ⟨rest, d, rfl⟩
    · cases hc
      rfl
    · rw [← List.cons_append, List.getLast?_concat] at hc
      exact hrest c (by rw [List.getLast?_concat]; exact hc)
  · rw [List.head?_append_of_ne_nil _ hne]
    exact hfront

/-- An entry is read as it is written. -/
theorem entryOfPiece?_text (enumName : Text) (e : EntryText) :
    entryOfPiece? enumName e.text = some (e.declared enumName) := by
  have hhead := e.isName.isBlank_of_mem_head?_append e.space
  have hne : e.name ++ e.space ≠ [] := List.append_ne_nil_of_left_ne_nil e.isName.ne_nil _
  have hequals : ∀ c ∈ e.name ++ e.space, (c != '=') = true := by
    intro c hc
    rw [bne_iff_ne]
    rcases List.mem_append.mp hc with hc | hc
    · exact e.isName.ne_of_mem hc (by decide)
    · exact ne_of_isBlank (e.isBlank_space c hc) (by decide)
  have htrim := trim_name_append e.isName e.isBlank_space
  rw [entryOfPiece?, EntryText.text, trim_append_of_forall_isBlank e.isBlank_lead,
    EntryText.declared, EntryText.assigned]
  cases e.value? with
  | none =>
      have hname : ∀ c ∈ e.name, (c != '=') = true := fun c hc =>
        hequals c (List.mem_append_left _ hc)
      have htake : e.name.takeWhile (· != '=') = e.name :=
        List.takeWhile_eq_self_iff.mpr hname
      have hnot : '=' ∉ e.name := fun hmem => absurd (hname '=' hmem) (by decide)
      have hself : trim e.name = e.name := by
        simpa using trim_name_append e.isName (List.forall_mem_nil _)
      rw [List.append_nil, htrim]
      simp [e.isName.ne_nil, htake, hnot, hself]
  | some value =>
      obtain ⟨rest, hrest⟩ := exists_trim_assignment hhead hne value
      have htake : (e.name ++ e.space ++ '=' :: rest).takeWhile (· != '=') = e.name ++ e.space :=
        takeWhile_append_of_head? hequals (by simp)
      rw [← List.append_assoc, hrest]
      simp only [htake, htrim]
      simp

theorem entryOfPiece?_blanks (enumName : Text) {gap : Text} (hgap : ∀ c ∈ gap, isBlank c = true) :
    entryOfPiece? enumName gap = none := by
  have htrim : trim gap = [] := by
    rw [← List.append_nil gap, trim_append_of_forall_isBlank hgap]
    rfl
  rw [entryOfPiece?, htrim]
  rfl

/-- The body of an enumeration: its entries with commas between them, and perhaps blanks behind a
last comma. -/
structure BodyText where
  entries : List EntryText
  last? : Option Text
  isBlank_last : ∀ last ∈ last?, ∀ c ∈ last, isBlank c = true

namespace BodyText

def pieces (b : BodyText) : List Text := b.entries.map EntryText.text ++ b.last?.toList

def text (b : BodyText) : Text := [','].intercalate b.pieces

variable (b : BodyText)

theorem nested_of_mem_pieces : ∀ piece ∈ b.pieces, Nested false piece := by
  intro piece hpiece
  rcases List.mem_append.mp hpiece with hpiece | hpiece
  · obtain ⟨e, -, rfl⟩ := List.mem_map.mp hpiece
    exact e.nested
  · exact .of_isBlank (b.isBlank_last piece (Option.mem_toList.mp hpiece))

theorem balanced : Balanced '{' '}' b.text := (Nested.intercalate b.nested_of_mem_pieces).balanced

theorem enumEntries_text (enumName : Text) :
    enumEntries enumName b.text = b.entries.map (·.declared enumName) := by
  have hread : b.pieces.filterMap (entryOfPiece? enumName) =
      b.entries.map (·.declared enumName) := by
    have hentries : entryOfPiece? enumName ∘ EntryText.text =
        some ∘ (EntryText.declared enumName ·) := funext (entryOfPiece?_text enumName)
    have hlast : b.last?.toList.filterMap (entryOfPiece? enumName) = [] := by
      refine List.filterMap_eq_nil_iff.mpr fun piece hpiece => ?_
      exact entryOfPiece?_blanks enumName (b.isBlank_last piece (Option.mem_toList.mp hpiece))
    rw [pieces, List.filterMap_append, hlast, List.append_nil, List.filterMap_map, hentries,
      List.filterMap_eq_map]
  by_cases hnil : b.pieces = []
  · have hempty : splitTopLevel ',' ([','].intercalate []) = [[]] := rfl
    have hnone := entryOfPiece?_blanks enumName (List.forall_mem_nil _)
    rw [enumEntries, text, hnil, hempty, ← hread, hnil, List.filterMap_cons, hnone]
  · rw [enumEntries, text, splitTopLevel_intercalate hnil b.nested_of_mem_pieces, hread]

end BodyText

end HeaderBindings.Header
