import HeaderBindings.Proofs.Header.Sequences
import HeaderBindings.Proofs.Header.Spelling

/-! # Parameters in any spacing

A parameter is cut at its last blank, which may stand before, between or behind its markers, so
they come to the type from either side of the cut. White space around them makes no difference:
the type is spelled as its words and the markers right behind them. -/

namespace HeaderBindings

open List Text

variable {s t : Text} {c m marker : Char}

/-! ## Blanks and markers behind a type -/

theorem closeUp_of_not_mem (h : marker ∉ t) : closeUp marker t = t := by
  induction t with
  | nil => rfl
  | cons c t ih =>
      rw [List.mem_cons, not_or] at h
      rw [closeUp_cons_of_ne fun hclosed => h.2 (List.mem_of_head? hclosed.2), ih h.2]

theorem closeUp_append_singleton (hc : c ≠ ' ') (m : Char) :
    closeUp marker (s ++ [c] ++ [m]) = closeUp marker (s ++ [c]) ++ [m] := by
  rw [closeUp_append (by simp [hc])]
  simp [closeUp]

/-- The spelling of a type ends as the type does, and grows with it by a marker. -/
theorem exists_typeSpelling_append (hc : isBlank c = false) (s : Text) :
    ∃ spelled, typeSpelling (s ++ [c]) = spelled ++ [c] ∧
      ∀ m, isBlank m = false → typeSpelling (s ++ [c] ++ [m]) = spelled ++ [c] ++ [m] := by
  have hspace : c ≠ ' ' := by
    rintro rfl
    exact absurd hc (by decide)
  obtain ⟨front, last, hwords, hlonger⟩ := exists_words_append hc s
  have hjoin : ∀ behind, [' '].intercalate (front ++ [last ++ [c] ++ behind]) =
      front.flatMap (· ++ [' ']) ++ last ++ [c] ++ behind := by
    intro behind
    rw [intercalate_append_singleton]
    simp
  have hjoined : [' '].intercalate (words (s ++ [c])) =
      front.flatMap (· ++ [' ']) ++ last ++ [c] := by
    rw [hwords, ← List.append_nil (last ++ [c]), hjoin, List.append_nil]
  have hlast : ∀ marker u, ∃ v, closeUp marker (u ++ [c]) = v ++ [c] := fun marker u =>
    List.getLast?_eq_some_iff.mp (getLast?_closeUp u c)
  obtain ⟨first, hfirst⟩ := hlast '*' (front.flatMap (· ++ [' ']) ++ last)
  obtain ⟨spelled, hspelled⟩ := hlast '&' first
  refine ⟨spelled, ?_, fun m hm => ?_⟩
  · rw [typeSpelling, hjoined, hfirst, hspelled]
  · rw [typeSpelling, hlonger [m] (List.forall_mem_singleton.mpr hm), hjoin,
      closeUp_append_singleton hspace, hfirst, closeUp_append_singleton hspace, hspelled]

theorem typeSpelling_append_right_of_forall_isBlank {gap : Text}
    (h : ∀ c ∈ gap, isBlank c = true) : typeSpelling (t ++ gap) = typeSpelling t := by
  rw [typeSpelling, words_append_right_of_forall_isBlank h, typeSpelling]

theorem exists_append_of_exists_not_isBlank (h : ∃ c ∈ t, isBlank c = false) :
    ∃ front c gap, t = front ++ [c] ++ gap ∧ isBlank c = false ∧ ∀ d ∈ gap, isBlank d = true := by
  obtain ⟨front, gap, rfl, hgap, hlast⟩ := exists_append_run isBlank t
  rcases List.eq_nil_or_concat' front with rfl | ⟨front, c, rfl⟩
  · obtain ⟨c, hc, hblank⟩ := h
    rw [hgap c hc] at hblank
    cases hblank
  · exact ⟨front, c, gap, rfl, hlast c (by simp), hgap⟩

theorem typeSpelling_ne_nil (h : ∃ c ∈ t, isBlank c = false) : typeSpelling t ≠ [] := by
  obtain ⟨front, c, gap, rfl, hc, hgap⟩ := exists_append_of_exists_not_isBlank h
  obtain ⟨spelled, hspelled, -⟩ := exists_typeSpelling_append hc front
  rw [typeSpelling_append_right_of_forall_isBlank hgap, hspelled]
  simp

/-- A marker at the end goes right behind the type, whatever blanks stand before it. -/
theorem typeSpelling_append_marker (h : ∃ c ∈ t, isBlank c = false) (hm : m = '*' ∨ m = '&') :
    typeSpelling (t ++ [m]) = typeSpelling t ++ [m] := by
  obtain ⟨front, c, gap, rfl, hc, hgap⟩ := exists_append_of_exists_not_isBlank h
  have hblank : isBlank m = false := Header.isBlank_of_isMarker (Header.isMarker_iff.mpr hm)
  obtain ⟨spelled, hspelled, hlonger⟩ := exists_typeSpelling_append hc front
  rw [typeSpelling_append_right_of_forall_isBlank hgap,
    typeSpelling_append_markers hgap (List.forall_mem_singleton.mpr hm) (by simpa using hc),
    hspelled, hlonger m hblank]

theorem typeSpelling_append_tail (h : ∃ c ∈ t, isBlank c = false) {tail : Text}
    (htail : ∀ c ∈ tail, isBlank c = true ∨ c = '*' ∨ c = '&') :
    typeSpelling (t ++ tail) = typeSpelling t ++ tail.filter (! isBlank ·) := by
  induction tail using List.reverseRecOn with
  | nil => simp
  | append_singleton tail c ih =>
      rw [List.forall_mem_append, List.forall_mem_singleton] at htail
      have hword : ∃ c ∈ t ++ tail, isBlank c = false := by
        obtain ⟨d, hd, hblank⟩ := h
        exact ⟨d, List.mem_append_left _ hd, hblank⟩
      rw [← List.append_assoc, List.filter_append]
      rcases htail.2 with hblank | hmarker
      · rw [typeSpelling_append_right_of_forall_isBlank (List.forall_mem_singleton.mpr hblank),
          ih htail.1]
        simp [hblank]
      · have hblank : isBlank c = false :=
          Header.isBlank_of_isMarker (Header.isMarker_iff.mpr hmarker)
        rw [typeSpelling_append_marker hword hmarker, ih htail.1]
        simp [hblank]

namespace Header

/-! ## Written parameters -/

/-- A parameter as it may be written: the words of its type with white space between them, markers
with or without white space before them, and the name, which white space somewhere parts from the
words. -/
structure SpacedParameter where
  first : Text
  others : List (Blanks × Text)
  markers : List (Blanks × Char)
  gap : Blanks
  name : Text
  isName_first : IsName first
  isName_others : ∀ word ∈ others, IsName word.2
  isApart_others : ∀ word ∈ others, word.1.val ≠ []
  isMarker_markers : ∀ marker ∈ markers, marker.2 = '*' ∨ marker.2 = '&'
  isName_name : IsName name
  isApart_name : (∃ marker ∈ markers, marker.1.val ≠ []) ∨ gap.val ≠ []

namespace SpacedParameter

variable (p : SpacedParameter)

/-- The words of the type. -/
def words : List Text := p.first :: p.others.map (·.2)

/-- The words with the white space between them. -/
def wordText : Text := p.first ++ laidOut id p.others

/-- The markers with the white space around them. -/
def tail : Text := laidOut ([·]) p.markers ++ p.gap.val

/-- The parameter as it is written. -/
def text : Text := p.wordText ++ p.tail ++ p.name

/-- What the parameter declares: single blanks between the words of its type, the markers right
behind them, and its name. -/
def declared : Parameter := ⟨[' '].intercalate p.words ++ p.markers.map (·.2), p.name⟩

/-! ### Words -/

theorem words_append_laidOut {first : Text} (hfirst : IsName first)
    {others : List (Blanks × Text)} (hothers : ∀ word ∈ others, IsName word.2)
    (hapart : ∀ word ∈ others, word.1.val ≠ []) :
    Text.words (first ++ laidOut id others) = first :: others.map (·.2) := by
  induction others generalizing first with
  | nil =>
      rw [laidOut, List.flatMap_nil, List.append_nil]
      exact words_eq_singleton hfirst.ne_nil fun c hc => hfirst.isBlank_of_mem hc
  | cons word others ih =>
      obtain ⟨⟨gap, hblanks⟩, second⟩ := word
      obtain ⟨c, gap, rfl⟩ := List.exists_cons_of_ne_nil (hapart _ List.mem_cons_self)
      obtain ⟨hc, hgap⟩ := List.forall_mem_cons.mp hblanks
      have htext : first ++ laidOut id ((⟨c :: gap, hblanks⟩, second) :: others) =
          first ++ c :: (gap ++ (second ++ laidOut id others)) := by
        simp [laidOut]
      rw [htext, words_append_cons hc, words_append_of_forall_isBlank hgap,
        ih (hothers _ List.mem_cons_self) (fun word h => hothers word (List.mem_cons_of_mem _ h))
          fun word h => hapart word (List.mem_cons_of_mem _ h),
        words_eq_singleton hfirst.ne_nil fun c hc => hfirst.isBlank_of_mem hc]
      rfl

theorem isName_of_mem_words : ∀ word ∈ p.words, IsName word :=
  List.forall_mem_cons.mpr ⟨p.isName_first, List.forall_mem_map.mpr p.isName_others⟩

/-- Between words without markers there is nothing to close up. -/
theorem typeSpelling_wordText : typeSpelling p.wordText = [' '].intercalate p.words := by
  have hwords : Text.words p.wordText = p.words :=
    words_append_laidOut p.isName_first p.isName_others p.isApart_others
  have hmarker : ∀ m, isNameChar m = false → m ≠ ' ' → m ∉ [' '].intercalate p.words := by
    intro m hm hspace hmem
    rcases mem_intercalate hmem with hblank | ⟨word, hword, hmem⟩
    · exact hspace (List.mem_singleton.mp hblank)
    · exact (p.isName_of_mem_words word hword).ne_of_mem hmem hm rfl
  rw [typeSpelling, hwords, closeUp_of_not_mem (hmarker '*' (by decide) (by decide)),
    closeUp_of_not_mem (hmarker '&' (by decide) (by decide))]

theorem exists_mem_wordText : ∃ c ∈ p.wordText, isBlank c = false := by
  obtain ⟨c, hc⟩ := List.exists_mem_of_ne_nil _ p.isName_first.ne_nil
  exact ⟨c, List.mem_append_left _ hc, p.isName_first.isBlank_of_mem hc⟩

/-! ### Markers -/

theorem mem_tail : ∀ c ∈ p.tail, isBlank c = true ∨ c = '*' ∨ c = '&' := by
  refine List.forall_mem_append.mpr ⟨fun c hc => ?_, fun c hc => .inl (p.gap.property c hc)⟩
  obtain ⟨⟨gap, m⟩, hmarker, hc⟩ := List.mem_flatMap.mp hc
  rcases List.mem_append.mp hc with hgap | hm
  · exact .inl (gap.property c hgap)
  · obtain rfl := List.mem_singleton.mp hm
    exact .inr (p.isMarker_markers _ hmarker)

theorem filter_blanks (gap : Blanks) : gap.val.filter (! isBlank ·) = [] :=
  List.filter_eq_nil_iff.mpr fun c hc => by simp [gap.property c hc]

theorem filter_tail : p.tail.filter (! isBlank ·) = p.markers.map (·.2) := by
  have hmarkers : ∀ markers : List (Blanks × Char),
      (∀ marker ∈ markers, marker.2 = '*' ∨ marker.2 = '&') →
      (laidOut ([·]) markers).filter (! isBlank ·) = markers.map (·.2) := by
    intro markers h
    induction markers with
    | nil => rfl
    | cons marker markers ih =>
        obtain ⟨hm, h⟩ := List.forall_mem_cons.mp h
        rw [laidOut] at ih ⊢
        rw [List.flatMap_cons, List.filter_append, List.filter_append, filter_blanks, ih h]
        simp [isBlank_of_isMarker (isMarker_iff.mpr hm)]
  rw [tail, List.filter_append, filter_blanks, hmarkers _ p.isMarker_markers, List.append_nil]

theorem exists_blank_mem_tail : ∃ c ∈ p.tail, isBlank c = true := by
  rcases p.isApart_name with ⟨⟨gap, m⟩, hmarker, hne⟩ | hne
  · obtain ⟨c, hc⟩ := List.exists_mem_of_ne_nil _ hne
    refine ⟨c, List.mem_append_left _ (List.mem_flatMap.mpr ⟨_, hmarker, ?_⟩), gap.property c hc⟩
    exact List.mem_append_left _ hc
  · obtain ⟨c, hc⟩ := List.exists_mem_of_ne_nil _ hne
    exact ⟨c, List.mem_append_right _ hc, p.gap.property c hc⟩

theorem exists_tail_eq : ∃ front c run, p.tail = front ++ c :: run ∧ isBlank c = true ∧
    (∀ m ∈ run, isMarker m = true) ∧
      (∀ d ∈ front ++ run, isBlank d = true ∨ d = '*' ∨ d = '&') ∧
        (front ++ run).filter (! isBlank ·) = p.markers.map (·.2) := by
  obtain ⟨front, run, htail, hrun, hfront⟩ := exists_append_run (! isBlank ·) p.tail
  have hmem := p.mem_tail
  have hfilter := p.filter_tail
  obtain ⟨b, hb, hblank⟩ := p.exists_blank_mem_tail
  rw [htail] at hmem hfilter hb
  obtain ⟨hmemFront, hmemRun⟩ := List.forall_mem_append.mp hmem
  have hmarker : ∀ m ∈ run, m = '*' ∨ m = '&' := fun m hm =>
    (hmemRun m hm).resolve_left (by simpa using hrun m hm)
  rcases List.eq_nil_or_concat' front with rfl | ⟨front, c, rfl⟩
  · have hnot : isBlank b = false := by simpa using hrun b hb
    rw [hblank] at hnot
    cases hnot
  · have hc : isBlank c = true := by simpa using hfront c (by simp)
    refine ⟨front, c, run, by simpa using htail, hc, fun m hm => isMarker_iff.mpr (hmarker m hm),
      List.forall_mem_append.mpr ⟨fun d hd => hmemFront d (by simp [hd]), hmemRun⟩, ?_⟩
    simpa [hc] using hfilter

/-! ### Reading -/

/-- The type gets its markers from both sides of the cut. -/
theorem parameter_text (index : Nat) : parameter index p.text = p.declared := by
  obtain ⟨front, c, run, htail, hc, hrun, hmem, hmarkers⟩ := p.exists_tail_eq
  have htext : p.text = (p.wordText ++ front) ++ c :: (run ++ p.name) := by
    rw [text, htail]
    simp
  rw [htext, parameter_append_name hc hrun p.isName_name, List.append_assoc,
    typeSpelling_append_tail p.exists_mem_wordText hmem, hmarkers, p.typeSpelling_wordText]
  rfl

theorem mem_text : ∀ c ∈ p.text,
    isNameChar c = true ∨ isBlank c = true ∨ c = '*' ∨ c = '&' := by
  refine List.forall_mem_append.mpr ⟨List.forall_mem_append.mpr ⟨?_, ?_⟩, ?_⟩
  · refine List.forall_mem_append.mpr ⟨fun c hc => .inl (p.isName_first.isNameChar c hc), ?_⟩
    intro c hc
    obtain ⟨⟨gap, word⟩, hword, hc⟩ := List.mem_flatMap.mp hc
    rcases List.mem_append.mp hc with hgap | hc
    · exact .inr (.inl (gap.property c hgap))
    · exact .inl ((p.isName_others _ hword).isNameChar c hc)
  · exact fun c hc => .inr (p.mem_tail c hc)
  · exact fun c hc => .inl (p.isName_name.isNameChar c hc)

theorem trim_text : trim p.text = p.text := by
  refine trim_eq_self ?_ ?_
  · intro c hc
    rw [text, wordText, List.append_assoc, List.append_assoc,
      List.head?_append_of_ne_nil _ p.isName_first.ne_nil] at hc
    exact p.isName_first.isBlank_of_mem (List.mem_of_head? hc)
  · intro c hc
    rw [text, List.getLast?_append_of_ne_nil _ p.isName_name.ne_nil] at hc
    exact p.isName_name.isBlank_of_mem (List.mem_of_getLast? hc)

/-- However it is spaced, a parameter is read as the one it declares. -/
theorem parameters_text : parameters p.text = [p.declared] := by
  have hvoid : p.text ≠ "void" := by
    intro htext
    obtain ⟨c, hc, hblank⟩ := p.exists_blank_mem_tail
    have hmem : c ∈ p.text := List.mem_append_left _ (List.mem_append_right _ hc)
    rw [htext] at hmem
    have hnot : ∀ d ∈ "void".toList, isBlank d = false :=
      List.all_iff_forall_prop.mp (by decide)
    rw [hnot c hmem] at hblank
    cases hblank
  have hplain : ∀ c ∈ p.text, c ≠ ',' ∧ isBracket c = false := by
    have hnot : ∀ d ∈ ',' :: "([\x7b)]\x7d".toList,
        ¬ (isNameChar d = true ∨ isBlank d = true ∨ d = '*' ∨ d = '&') :=
      List.all_iff_forall_prop.mp (by decide)
    intro c hc
    have hmem : c ∉ ',' :: "([\x7b)]\x7d".toList := fun hmem => hnot c hmem (p.mem_text c hc)
    rw [List.mem_cons, not_or] at hmem
    exact ⟨hmem.1, by simpa [isBracket] using hmem.2⟩
  have hne : p.text ≠ [] := List.append_ne_nil_of_right_ne_nil _ p.isName_name.ne_nil
  rw [parameters, p.trim_text, if_neg hvoid, splitTopLevel_eq_singleton hplain]
  simp [p.trim_text, hne, p.parameter_text]

/-- Two words and three markers, the last blank before a marker. -/
theorem parameters_text_constChar : ∃ p : SpacedParameter,
    p.text = "const\tchar * &\u2003*x" ∧ p.declared = ⟨"const char*&*", "x"⟩ ∧
      parameters p.text = [p.declared] := by
  let tab : Blanks := ⟨['\t'], List.forall_mem_singleton.mpr (by decide)⟩
  let wide : Blanks := ⟨['\u2003'], List.forall_mem_singleton.mpr (by decide)⟩
  let p : SpacedParameter :=
    ⟨"const", [(tab, "char")], [(.single, '*'), (.single, '&'), (wide, '*')], .none, "x",
      by decide, by decide, by decide, by decide, by decide, by decide⟩
  exact ⟨p, by decide, by decide, parameters_text p⟩

end SpacedParameter

end Header

end HeaderBindings
