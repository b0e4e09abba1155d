import HeaderBindings.Proofs.Header.Totality
import HeaderBindings.Proofs.Layout

/-! # Heads and parameters in another layout

A type is spelled from its words, and a blank before a marker is closed up; so neither the layout
of a type nor that of the markers behind it changes its spelling, and a head and a parameter list
are read alike in every layout. -/

namespace HeaderBindings

open List Text

variable {s t t' : Text}

/-! ## Words -/

theorem Text.Relaid.exists_pieces (h : Relaid t t') :
    ∃ first others others', pieces isBlank t = first :: others ∧
      pieces isBlank t' = first :: others' ∧
      others.filter (!·.isEmpty) = others'.filter (!·.isEmpty) := by
  induction h with
  | nil => exact ⟨[], [], [], rfl, rfl, rfl⟩
  | char c h ih =>
      obtain ⟨first, others, others', hp, hp', heq⟩ := ih
      rw [pieces, pieces, hp, hp']
      by_cases hc : isBlank c = true
      · rw [if_pos hc, if_pos hc]
        refine ⟨[], first :: others, first :: others', rfl, rfl, ?_⟩
        rw [List.filter_cons, List.filter_cons, heq]
      · rw [if_neg hc, if_neg hc]
        exact ⟨c :: first, others, others', rfl, rfl, heq⟩
  | @gap gap gap' t t' hgap hgap' h ih =>
      obtain ⟨c, gap, rfl⟩ := List.exists_cons_of_ne_nil hgap.ne_nil
      obtain ⟨c', gap', rfl⟩ := List.exists_cons_of_ne_nil hgap'.ne_nil
      obtain ⟨hc, hgap⟩ := List.forall_mem_cons.mp hgap.isBlank
      obtain ⟨hc', hgap'⟩ := List.forall_mem_cons.mp hgap'.isBlank
      obtain ⟨first, others, others', hp, hp', heq⟩ := ih
      rw [List.cons_append, List.cons_append, pieces, pieces, if_pos hc, if_pos hc']
      refine ⟨[], _, _, rfl, rfl, ?_⟩
      have hwords : words t = words t' := by
        rw [words, words, hp, hp', List.filter_cons, List.filter_cons, heq]
      change words (gap ++ t) = words (gap' ++ t')
      rw [words_append_of_forall_isBlank hgap, words_append_of_forall_isBlank hgap', hwords]

theorem Text.Relaid.words_eq (h : Relaid t t') : words t = words t' := by
  obtain ⟨first, others, others', hp, hp', heq⟩ := h.exists_pieces
  rw [words, words, hp, hp', List.filter_cons, List.filter_cons, heq]

theorem Text.Relaid.typeSpelling_eq (h : Relaid t t') : typeSpelling t = typeSpelling t' := by
  rw [typeSpelling, typeSpelling, h.words_eq]

/-! ## Blanks before a marker -/

variable {marker : Char}

theorem closeUp_cons_of_ne {c : Char} (h : ¬ (c = ' ' ∧ t.head? = some marker)) :
    closeUp marker (c :: t) = c :: closeUp marker t := by
  rw [closeUp, if_neg h]

/-- Texts are closed up one by one unless a blank at the end of one stands before a marker. -/
theorem closeUp_append (h : ¬ (s.getLast? = some ' ' ∧ t.head? = some marker)) :
    closeUp marker (s ++ t) = closeUp marker s ++ closeUp marker t := by
  induction s with
  | nil => rfl
  | cons c s ih =>
      cases s with
      | nil =>
          rw [List.singleton_append, closeUp_cons_of_ne (by simpa using h),
            closeUp_cons_of_ne (by simp)]
          rfl
      | cons d s =>
          rw [List.getLast?_cons_cons] at h
          rw [List.cons_append]
          by_cases hclosed : c = ' ' ∧ d = marker
          · rw [closeUp, closeUp, if_pos (by simpa using hclosed), if_pos (by simpa using hclosed),
              ih h]
          · rw [closeUp_cons_of_ne (by simpa using hclosed),
              closeUp_cons_of_ne (by simpa using hclosed), ih h]
            rfl

theorem getLast?_closeUp (s : Text) (c : Char) :
    (closeUp marker (s ++ [c])).getLast? = some c := by
  induction s with
  | nil => simp [closeUp]
  | cons d s ih =>
      rw [List.cons_append, closeUp]
      split
      · exact ih
      · rw [List.getLast?_cons, ih]
        rfl

theorem closeUp_append_blank (h : s.getLast? ≠ some ' ') (t : Text) :
    closeUp marker (s ++ ' ' :: marker :: t) = closeUp marker (s ++ marker :: t) := by
  rw [closeUp_append fun hlast => h hlast.1, closeUp_append fun hlast => h hlast.1, closeUp,
    if_pos ⟨rfl, rfl⟩]

/-- The blank before markers disappears, whichever marker comes first. -/
theorem closeUp_closeUp_append_blank {c : Char} (hc : c ≠ ' ') (s : Text) {markers : Text}
    (hmarkers : markers.head? = some '*' ∨ markers.head? = some '&') :
    closeUp '&' (closeUp '*' (s ++ [c] ++ ' ' :: markers)) =
      closeUp '&' (closeUp '*' (s ++ [c] ++ markers)) := by
  have hlast : (s ++ [c]).getLast? ≠ some ' ' := by simpa using hc
  rcases hmarkers with h | h
  · obtain ⟨rest, rfl⟩ := List.head?_eq_some_iff.mp h
    rw [closeUp_append_blank hlast]
  · obtain ⟨rest, rfl⟩ := List.head?_eq_some_iff.mp h
    have hclosed : (closeUp '*' (s ++ [c])).getLast? ≠ some ' ' := by
      rw [getLast?_closeUp]
      simpa using hc
    rw [closeUp_append fun hstar => hlast hstar.1, closeUp_append fun hstar => hlast hstar.1,
      closeUp_cons_of_ne (by simp), closeUp_cons_of_ne (by simp), closeUp_append_blank hclosed]

/-! ## Markers behind a type -/

theorem exists_words_append {c : Char} (hc : isBlank c = false) (s : Text) :
    ∃ front last, words (s ++ [c]) = front ++ [last ++ [c]] ∧
      ∀ word, (∀ d ∈ word, isBlank d = false) →
        words (s ++ [c] ++ word) = front ++ [last ++ [c] ++ word] := by
  obtain ⟨front, last, rfl, hlast, hfront⟩ := exists_append_run (!isBlank ·) s
  have hwords : ∀ word, (∀ d ∈ word, isBlank d = false) →
      words (front ++ last ++ [c] ++ word) = words front ++ [last ++ [c] ++ word] := by
    intro word hword
    have hone : words (last ++ [c] ++ word) = [last ++ [c] ++ word] := by
      refine words_eq_singleton (by simp) fun d hd => ?_
      simp only [List.mem_append, List.mem_singleton] at hd
      rcases hd with (hd | rfl) | hd
      · simpa using hlast d hd
      · exact hc
      · exact hword d hd
    rcases List.eq_nil_or_concat' front with rfl | ⟨front, b, rfl⟩
    · exact hone
    · have hb : isBlank b = true := by simpa using hfront b (by simp)
      rw [words_append_blank hb, ← hone, ← words_append_cons hb]
      simp
  refine ⟨words front, last, ?_, hwords⟩
  simpa using hwords [] (List.forall_mem_nil _)

theorem intercalate_append_singleton (separator : Text) (l : List Text) (last : Text) :
    separator.intercalate (l ++ [last]) = l.flatMap (· ++ separator) ++ last := by
  induction l with
  | nil => simp
  | cons t l ih =>
      obtain ⟨second, others, h⟩ := List.exists_cons_of_ne_nil (List.concat_ne_nil last l)
      rw [List.cons_append, h, List.intercalate_cons_cons, ← h, ih]
      simp

theorem typeSpelling_append_markers {gap markers : Text} (hgap : ∀ c ∈ gap, isBlank c = true)
    (hmarkers : ∀ c ∈ markers, c = '*' ∨ c = '&') (hlast : ∀ c ∈ s.getLast?, isBlank c = false) :
    typeSpelling (s ++ gap ++ markers) = typeSpelling (s ++ markers) := by
  have hblank : ∀ c ∈ markers, isBlank c = false := by
    intro c hc
    rcases hmarkers c hc with rfl | rfl <;> decide
  rcases List.eq_nil_or_concat' s with rfl | ⟨s, c, rfl⟩
  · rw [typeSpelling, typeSpelling, List.nil_append, List.nil_append,
      words_append_of_forall_isBlank hgap]
  · cases gap with
    | nil => rw [List.append_nil]
    | cons b gap =>
        obtain ⟨hb, hgap⟩ := List.forall_mem_cons.mp hgap
        obtain ⟨front, last, hwords, hlonger⟩ := exists_words_append (hlast c (by simp)) s
        have hsplit : words (s ++ [c] ++ b :: gap ++ markers) =
            words (s ++ [c]) ++ words markers := by
          rw [List.append_assoc, List.cons_append, words_append_cons hb,
            words_append_of_forall_isBlank hgap]
        rw [typeSpelling, typeSpelling, hsplit, hlonger markers hblank, hwords]
        cases markers with
        | nil => simp [words, pieces]
        | cons m markers =>
            have hc : c ≠ ' ' := by
              rintro rfl
              exact absurd (hlast ' ' (by simp)) (by decide)
            have hfirst : (m :: markers).head? = some '*' ∨ (m :: markers).head? = some '&' := by
              simpa using hmarkers m List.mem_cons_self
            have hjoin : [' '].intercalate (front ++ [last ++ [c]] ++ [m :: markers]) =
                front.flatMap (· ++ [' ']) ++ last ++ [c] ++ ' ' :: m :: markers := by
              rw [intercalate_append_singleton]
              simp
            have hjoined : [' '].intercalate (front ++ [last ++ [c] ++ m :: markers]) =
                front.flatMap (· ++ [' ']) ++ last ++ [c] ++ m :: markers := by
              rw [intercalate_append_singleton]
              simp
            rw [words_eq_singleton (by simp) hblank, hjoin, hjoined,
              closeUp_closeUp_append_blank hc _ hfirst]

theorem typeSpelling_dropLast_append {markers : Text} (hne : s ≠ [])
    (hlast : ∀ c ∈ s.getLast?, isBlank c = true) (hmarkers : ∀ c ∈ markers, c = '*' ∨ c = '&') :
    typeSpelling (s.dropLast ++ markers) = typeSpelling (trimEnd s ++ markers) := by
  have hparts : trimEnd s ++ (splitTrailing isBlank s).2 = s :=
    splitTrailing_fst_append_snd isBlank s
  have hend : ∀ c ∈ (trimEnd s).getLast?, isBlank c = false := fun _ =>
    eq_false_of_mem_getLast?_splitTrailing
  have hgap : (splitTrailing isBlank s).2 ≠ [] := by
    intro hnil
    rw [hnil, List.append_nil] at hparts
    have hmem := List.getLast?_eq_some_getLast hne
    have hfalse := hend (s.getLast hne) (by rw [hparts]; exact hmem)
    rw [hlast _ hmem] at hfalse
    cases hfalse
  have hdrop : s.dropLast = trimEnd s ++ (splitTrailing isBlank s).2.dropLast := by
    conv_lhs => rw [← hparts]
    exact List.dropLast_append_of_ne_nil hgap
  rw [hdrop]
  refine typeSpelling_append_markers (fun c hc => ?_) hmarkers hend
  exact mem_snd_splitTrailing (List.mem_of_mem_dropLast hc)

/-! ## Parameters -/

namespace Header

theorem ignoresLayout_not_isBlank : IgnoresLayout (!isBlank ·) :=
  ignoresLayout_isBlank.comp not

/-- The last words of two layouts are the same, and so is the spelling of what is before them. -/
theorem splitAtLastBlank?_relaid (h : Relaid t t') :
    splitAtLastBlank? t = none ∧ splitAtLastBlank? t' = none ∨
      ∃ front front' last, splitAtLastBlank? t = some (front, last) ∧
        splitAtLastBlank? t' = some (front', last) ∧
        ∀ markers, (∀ c ∈ markers, c = '*' ∨ c = '&') →
          typeSpelling (front ++ markers) = typeSpelling (front' ++ markers) := by
  obtain ⟨hstart, hlast⟩ := h.splitTrailing ignoresLayout_not_isBlank
  have hword := hlast.eq_of_forall fun c hc =>
    isAsciiBlank_of_isBlank (by simpa using mem_snd_splitTrailing hc)
  have hblank : ∀ s : Text, ∀ c ∈ (splitTrailing (!isBlank ·) s).1.getLast?, isBlank c = true :=
    fun s c hc => by simpa using eq_false_of_mem_getLast?_splitTrailing hc
  have hsome : ∀ s : Text, (splitTrailing (!isBlank ·) s).1 ≠ [] → splitAtLastBlank? s =
      some ((splitTrailing (!isBlank ·) s).1.dropLast, (splitTrailing (!isBlank ·) s).2) :=
    fun s hs => by simp [splitAtLastBlank?, hs]
  by_cases hnil : (splitTrailing (!isBlank ·) t).1 = []
  · refine .inl ⟨?_, ?_⟩
    · simp [splitAtLastBlank?, hnil]
    · simp [splitAtLastBlank?, hstart.eq_nil_iff.mp hnil]
  · have hnil' := hstart.eq_nil_iff.not.mp hnil
    rw [hsome t hnil, hsome t' hnil', ← hword]
    refine .inr ⟨_, _, _, rfl, rfl, fun markers hmarkers => ?_⟩
    rw [typeSpelling_dropLast_append hnil (hblank t) hmarkers,
      typeSpelling_dropLast_append hnil' (hblank t') hmarkers]
    exact (hstart.trimEnd.append (.refl markers)).typeSpelling_eq

theorem parameter_relaid (index : Nat) (h : Relaid t t') :
    parameter index t = parameter index t' := by
  rcases splitAtLastBlank?_relaid h with ⟨hnone, hnone'⟩ | ⟨front, front', last, hsome, hsome', heq⟩
  · simp only [parameter, hnone, hnone', h.typeSpelling_eq]
  · simp only [parameter, hsome, hsome']
    rw [heq]
    intro c hc
    simpa using List.mem_takeWhile_imp hc

theorem splitOutsideBrackets_relaid {separator : Char} (hseparator : isAsciiBlank separator = false)
    (h : Relaid t t') (depth : Nat) :
    List.Forall₂ Relaid (splitOutsideBrackets separator depth t)
      (splitOutsideBrackets separator depth t') := by
  have hspacing : ∀ gap, IsSpacing gap → ∀ c ∈ gap, c ≠ separator ∧ isBracket c = false := by
    intro gap hgap c hc
    have hblank := hgap.isAsciiBlank c hc
    refine ⟨?_, isBracket_eq_false hblank (by decide)⟩
    rintro rfl
    rw [hblank] at hseparator
    cases hseparator
  have hhead : ∀ {l l' : List Text} {s s' : Text}, List.Forall₂ Relaid l l' → Relaid s s' →
      List.Forall₂ Relaid (l.modifyHead (s ++ ·)) (l'.modifyHead (s' ++ ·)) := by
    intro l l' s s' hl hs
    cases hl with
    | nil => exact .nil
    | cons hfirst hothers => exact .cons (hs.append hfirst) hothers
  induction h generalizing depth with
  | nil => exact .cons .nil .nil
  | char c h ih =>
      by_cases hc : isBracket c = false ∧ c = separator ∧ depth = 0
      · obtain ⟨hbracket, rfl, rfl⟩ := hc
        rw [splitOutsideBrackets, splitOutsideBrackets, if_pos (by simp [hbracket]),
          if_pos (by simp [hbracket])]
        exact .cons .nil (ih 0)
      · rw [splitOutsideBrackets_cons hc, splitOutsideBrackets_cons hc]
        exact hhead (ih _) (.refl [c])
  | gap hgap hgap' h ih =>
      rw [splitOutsideBrackets_append (hspacing _ hgap),
        splitOutsideBrackets_append (hspacing _ hgap')]
      exact hhead (ih depth) (.of_isSpacing hgap hgap')

theorem mapIdx_parameter_relaid {l l' : List Text} (h : List.Forall₂ Relaid l l') :
    l.mapIdx parameter = l'.mapIdx parameter := by
  refine List.ext_getElem (by simpa using h.length_eq) fun index hl hl' => ?_
  rw [List.getElem_mapIdx, List.getElem_mapIdx]
  exact parameter_relaid index (h.get _ _)

/-- A parameter list is read alike in every layout. -/
theorem parameters_relaid (h : Relaid t t') : parameters t = parameters t' := by
  have hvoid : Text.trim t = "void" ↔ Text.trim t' = "void" :=
    h.trim.eq_iff (List.all_iff_forall_prop.mp (by decide))
  have hpieces := splitOutsideBrackets_relaid (by decide : isAsciiBlank ',' = false) h 0
  have htrimmed : List.Forall₂ Relaid ((splitTopLevel ',' t).map Text.trim)
      ((splitTopLevel ',' t').map Text.trim) :=
    List.forall₂_map_left_iff.mpr (List.forall₂_map_right_iff.mpr (hpieces.imp fun _ _ => (·.trim)))
  have hkept := List.rel_filter (p := (!·.isEmpty)) (q := (!·.isEmpty))
    (fun _ _ h => by simp [h.isEmpty_eq]) htrimmed
  rw [parameters, parameters]
  by_cases hlist : Text.trim t = "void"
  · rw [if_pos hlist, if_pos (hvoid.mp hlist)]
  · rw [if_neg hlist, if_neg (hvoid.not.mp hlist)]
    exact mapIdx_parameter_relaid hkept

/-! ## Heads -/

theorem ignoresLayout_utf8Size : IgnoresLayout Char.utf8Size :=
  ignoresLayout_of_forall fun _ => utf8Size_of_isAsciiBlank

theorem cutsBeforeName_relaid (h : Relaid t t') : CutsBeforeName t ↔ CutsBeforeName t' := by
  have hlast := (h.trim.splitTrailing ignoresLayout_isNameChar).1.map_getLast?
    ignoresLayout_utf8Size
  have hsize : ∀ last? : Option Char,
      (∀ c ∈ last?, c.utf8Size = 1) ↔ ∀ size ∈ last?.map Char.utf8Size, size = 1 := by
    intro last?
    cases last? <;> simp
  rw [CutsBeforeName, CutsBeforeName, hsize, hsize, hlast]

/-- A head is split alike in every layout, and cut badly in every layout or in none. -/
theorem signature?_relaid (h : Relaid t t') : Agree Eq (signature? t) (signature? t') := by
  by_cases hcuts : CutsBeforeName t
  · obtain ⟨hfront, hname⟩ := h.trim.splitTrailing ignoresLayout_isNameChar
    have hname := hname.eq_of_forall fun c hc =>
      isAsciiBlank_of_isNameChar (mem_snd_splitTrailing hc)
    obtain ⟨front, name, hparts⟩ :
      ∃ front name, splitTrailing isNameChar (Text.trim t) = (front, name) := ⟨_, _, rfl⟩
    obtain ⟨front', name', hparts'⟩ :
      ∃ front name, splitTrailing isNameChar (Text.trim t') = (front, name) := ⟨_, _, rfl⟩
    rw [hparts, hparts'] at hfront hname
    rw [signature?_of_cutsBeforeName hcuts hparts,
      signature?_of_cutsBeforeName ((cutsBeforeName_relaid h).mp hcuts) hparts',
      hfront.typeSpelling_eq, show name = name' from hname]
    exact .ok rfl
  · have herror : ∀ s, ¬ CutsBeforeName s → ∃ cut, signature? s = .error cut := by
      intro s hs
      cases hsignature : signature? s with
      | error cut => exact ⟨cut, rfl⟩
      | ok signature => exact absurd (cutsBeforeName_of_signature? hsignature) hs
    obtain ⟨cut, hcut⟩ := herror t hcuts
    obtain ⟨cut', hcut'⟩ := herror t' ((cutsBeforeName_relaid h).not.mp hcuts)
    rw [hcut, hcut']
    exact .error cut cut'

end Header

end HeaderBindings
