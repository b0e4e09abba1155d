import HeaderBindings.Proofs.Header.ParameterSpacing
import HeaderBindings.Proofs.Header.Provenance
import HeaderBindings.Proofs.Header.TopLevelParts

/-! # Parameters without names

Every parameter that is read has a type. One that is written in one word is named after its
position, and one in several words after what the last word holds behind its markers. Nothing is
left of a last word that is made of markers: such a parameter has no name. -/

namespace HeaderBindings

open List Text

variable {t : Text}

namespace Header

/-! ## One parameter -/

/-- A text with nothing but markers behind its last blank. -/
def EndsInMarkers (t : Text) : Prop :=
  ∃ front c run, t = front ++ c :: run ∧ isBlank c = true ∧ run ≠ [] ∧
    ∀ m ∈ run, m = '*' ∨ m = '&'

/-- A parameter that is read from a text: it has a type, it has a name unless the last word is
made of markers, and the name of one in one word is made from its position. -/
structure IsReadFrom (index : Nat) (t : Text) (q : Parameter) : Prop where
  type_ne_nil : q.type ≠ []
  name_eq_nil_iff : q.name = [] ↔ EndsInMarkers t
  name_eq : (∀ c ∈ t, isBlank c = false) → q.name = "p" ++ Nat.toDigits 10 index

/-- There is only one last blank, so the markers are the last word. -/
theorem endsInMarkers_iff {front last : Text} {c : Char} (hc : isBlank c = true)
    (hne : last ≠ []) (hlast : ∀ d ∈ last, isBlank d = false) :
    EndsInMarkers (front ++ c :: last) ↔ ∀ m ∈ last, m = '*' ∨ m = '&' := by
  refine ⟨?_, fun h => ⟨front, c, last, rfl, hc, hne, h⟩⟩
  rintro ⟨front', c', run, heq, hc', -, hrun⟩
  have hsplit : splitAtLastBlank? (front ++ c :: last) = some (front, last) :=
    splitAtLastBlank?_append hc hlast
  have hword : ∀ m ∈ run, isBlank m = false := fun m hm =>
    isBlank_of_isMarker (isMarker_iff.mpr (hrun m hm))
  rw [heq, splitAtLastBlank?_append hc' hword] at hsplit
  obtain ⟨-, rfl⟩ := Prod.mk.inj (Option.some.inj hsplit)
  exact hrun

/-- A parameter in several words gets its type from all but the last one. -/
theorem isReadFrom_of_isBlank {front last : Text} {c : Char} (hc : isBlank c = true)
    (hne : last ≠ []) (hlast : ∀ d ∈ last, isBlank d = false)
    (hfront : ∃ d ∈ front, isBlank d = false) (index : Nat) :
    IsReadFrom index (front ++ c :: last) (parameter index (front ++ c :: last)) := by
  rw [parameter_of_isBlank hc hlast]
  refine ⟨typeSpelling_ne_nil ?_, ?_, fun h => ?_⟩
  · obtain ⟨d, hd, hblank⟩ := hfront
    exact ⟨d, List.mem_append_left _ hd, hblank⟩
  · rw [endsInMarkers_iff hc hne hlast, List.dropWhile_eq_nil_iff]
    exact forall₂_congr fun m _ => isMarker_iff
  · have hnot := h c (by simp)
    rw [hc] at hnot
    cases hnot

theorem isReadFrom_of_forall (hne : t ≠ []) (h : ∀ c ∈ t, isBlank c = false) (index : Nat) :
    IsReadFrom index t (parameter index t) := by
  rw [parameter_of_forall h]
  refine ⟨typeSpelling_ne_nil ?_, ⟨fun hname => ?_, ?_⟩, fun _ => rfl⟩
  · obtain ⟨c, hc⟩ := List.exists_mem_of_ne_nil t hne
    exact ⟨c, hc, h c hc⟩
  · cases hname
  · rintro ⟨front, c, run, rfl, hc, -⟩
    have hnot := h c (by simp)
    rw [hc] at hnot
    cases hnot

theorem isReadFrom_parameter (hne : t ≠ []) (hhead : ∀ c ∈ t.head?, isBlank c = false)
    (hlast : ∀ c ∈ t.getLast?, isBlank c = false) (index : Nat) :
    IsReadFrom index t (parameter index t) := by
  obtain ⟨front, last, rfl, hword, hfront⟩ := exists_append_run (! isBlank ·) t
  have hword : ∀ d ∈ last, isBlank d = false := fun d hd => by simpa using hword d hd
  rcases List.eq_nil_or_concat' front with rfl | ⟨front, c, rfl⟩
  · exact isReadFrom_of_forall hne hword index
  · have hc : isBlank c = true := by simpa using hfront c (by simp)
    have hlastNe : last ≠ [] := by
      rintro rfl
      have hnot := hlast c (by simp)
      rw [hc] at hnot
      cases hnot
    rw [List.append_assoc, List.singleton_append] at hhead ⊢
    refine isReadFrom_of_isBlank hc hlastNe hword ?_ index
    cases front with
    | nil =>
        have hnot := hhead c rfl
        rw [hc] at hnot
        cases hnot
    | cons d front => exact ⟨d, List.mem_cons_self, hhead d rfl⟩

/-! ## Lists -/

theorem trim_ne_nil_iff : trim t ≠ [] ↔ t.any (!isBlank ·) = true := by
  rw [ne_eq, trim_eq_nil_iff]
  simp

theorem filter_map_trim (parts : List Text) :
    (parts.map trim).filter (!·.isEmpty) = (namingParts parts).map trim := by
  rw [List.filter_map, namingParts]
  refine congrArg (List.map trim) (List.filter_congr fun part _ => ?_)
  rw [Bool.eq_iff_iff, ← trim_ne_nil_iff]
  simp

/-- Each parameter of a list is read from one of its parts, in order. -/
theorem exists_part_of_getElem?_parameters {list : Text} {parts : List Text}
    (h : TopLevelParts ',' list parts) {index : Nat} {q : Parameter}
    (hq : (parameters list)[index]? = some q) :
    ∃ part, (namingParts parts)[index]? = some part ∧ IsReadFrom index (trim part) q := by
  rw [parameters] at hq
  split at hq
  · cases hq
  · rw [splitTopLevel_of_topLevelParts (by decide) h, filter_map_trim, List.getElem?_mapIdx,
      List.getElem?_map, Option.map_map] at hq
    obtain ⟨part, hpart, rfl⟩ := Option.map_eq_some_iff.mp hq
    have hne : trim part ≠ [] :=
      trim_ne_nil_iff.mpr (List.mem_filter.mp (List.mem_of_getElem? hpart)).2
    exact ⟨part, hpart,
      isReadFrom_parameter hne isBlank_of_mem_head?_trim isBlank_of_mem_getLast?_trim index⟩

/-! ## Headers -/

/-- Every parameter of a function that is read from a header has a type, and it has a name unless
markers alone stand behind its last blank. -/
theorem isReadFrom_of_functionsOf {raw : Text} {found : Findings NativeFunction}
    (h : functionsOf raw = .ok found) :
    ∀ d ∈ found.items, ∃ (p : FunctionPlace (blankComments raw) d) (parts : List Text),
      d.span = .between p.start p.stop ∧ TopLevelParts ',' p.list parts ∧
        ∀ index q, d.params[index]? = some q →
          ∃ part, (namingParts parts)[index]? = some part ∧ IsReadFrom index (trim part) q := by
  rw [functionsOf, functionsIn, Cursor.ofText_eq_amid] at h
  intro d hd
  obtain ⟨p, hspan, -⟩ :=
    (inOrder_collect_namespaceRound (List.nil_append _).symm h).exists_place d hd
  obtain ⟨parts, hparts⟩ := exists_topLevelParts ',' p.list
  refine ⟨p, parts, hspan, hparts, fun index q hq => ?_⟩
  rw [p.params_eq] at hq
  exact exists_part_of_getElem?_parameters hparts hq

/-- A pointer, a value and a reference without names, each spaced in its own way, and a name. -/
theorem isReadFrom_of_mixed :
    let raw : Text := "namespace A \x7b static int F(int *, float,, Hash&, char * s) \x7b\x7d \x7d"
    let found : Findings NativeFunction :=
      { items := [⟨"A", "int", "F",
          [⟨"int*", ""⟩, ⟨"float", "p1"⟩, ⟨"Hash&", "p2"⟩, ⟨"char*", "s"⟩], ⟨14, 61⟩⟩]
        problems := [] }
    functionsOf raw = .ok found ∧
      ∀ d ∈ found.items, ∃ (p : FunctionPlace (blankComments raw) d) (parts : List Text),
        d.span = .between p.start p.stop ∧ TopLevelParts ',' p.list parts ∧
          ∀ index q, d.params[index]? = some q →
            ∃ part, (namingParts parts)[index]? = some part ∧
              IsReadFrom index (trim part) q := by
  intro raw found
  have hfound : functionsOf raw = .ok found := by decide +kernel
  exact ⟨hfound, isReadFrom_of_functionsOf hfound⟩

/-- A pointer without a name is left without one where a blank stands before its marker. -/
theorem not_forall_name_ne_nil :
    ¬ ∀ (raw : Text) (found : Findings NativeFunction), functionsOf raw = .ok found →
      ∀ d ∈ found.items, ∀ q ∈ d.params, q.type ≠ [] ∧ q.name ≠ [] := by
  intro h
  have hfound : functionsOf "namespace A \x7b static int F(int *) \x7b\x7d \x7d" =
      .ok { items := [⟨"A", "int", "F", [⟨"int*", ""⟩], ⟨14, 36⟩⟩], problems := [] } := by
    decide +kernel
  have hparam := h _ _ hfound _ List.mem_cons_self _ List.mem_cons_self
  exact hparam.2 rfl

end Header

end HeaderBindings
