import HeaderBindings.Header.Functions
import HeaderBindings.Proofs.Header.Nesting
import HeaderBindings.Proofs.Outcome

/-! # Heads and parameter lists

A head is cut around the blank before its name, and a parameter list at its commas. On types in
normal form and plain names both give back what was written. -/

namespace HeaderBindings.Header

open List Text

/-! ## Names and types -/

/-- A nonempty run of name characters. -/
structure IsName (t : Text) : Prop where
  ne_nil : t ≠ []
  isNameChar : ∀ c ∈ t, Text.isNameChar c = true

/-- A type in normal form, made of names, single blanks and markers and starting with a name. -/
structure IsType (t : Text) : Prop where
  typeSpelling_eq : typeSpelling t = t
  starts : t.head?.any Text.isNameChar = true
  chars : ∀ c ∈ t, Text.isNameChar c = true ∨ c = ' ' ∨ c = '*' ∨ c = '&'

instance (t : Text) : Decidable (IsName t) :=
  decidable_of_iff (t ≠ [] ∧ t.all Text.isNameChar = true)
    ⟨fun h => ⟨h.1, List.all_eq_true.mp h.2⟩,
      fun h => ⟨h.ne_nil, List.all_eq_true.mpr h.isNameChar⟩⟩

instance (t : Text) : Decidable (IsType t) :=
  decidable_of_iff
    (typeSpelling t = t ∧ t.head?.any Text.isNameChar = true ∧
      t.all (fun c => Text.isNameChar c || c = ' ' || c = '*' || c = '&') = true)
    ⟨fun h => ⟨h.1, h.2.1, by simpa [or_assoc] using h.2.2⟩,
      fun h => ⟨h.typeSpelling_eq, h.starts, by simpa [or_assoc] using h.chars⟩⟩

variable {type name : Text}

theorem IsType.ne_nil (h : IsType type) : type ≠ [] := ne_nil_of_head?_any h.starts

theorem IsType.isBlank_of_mem_head? (h : IsType type) {c : Char} (hc : c ∈ type.head?) :
    isBlank c = false := by
  have hstarts := h.starts
  rw [Option.mem_def.mp hc] at hstarts
  exact isBlank_of_isNameChar hstarts

theorem IsName.isBlank_of_mem (h : IsName name) {c : Char} (hc : c ∈ name) : isBlank c = false :=
  isBlank_of_isNameChar (h.isNameChar c hc)

theorem IsName.isBlank_of_mem_getLast? (h : IsName name) (start : Text) :
    ∀ c ∈ (start ++ ' ' :: name).getLast?, isBlank c = false := by
  intro c hc
  rw [List.append_cons, List.getLast?_append_of_ne_nil _ h.ne_nil] at hc
  exact h.isBlank_of_mem (List.mem_of_getLast? hc)

theorem IsType.ne_of_mem (h : IsType type) {c d : Char} (hc : c ∈ type)
    (hd : Text.isNameChar d = false) (hd' : d ∉ [' ', '*', '&']) : c ≠ d := by
  rintro rfl
  rcases h.chars c hc with hname | hother
  · rw [hname] at hd
    exact Bool.false_ne_true hd.symm
  · exact hd' (by simpa using hother)

theorem IsName.ne_of_mem (h : IsName name) {c d : Char} (hc : c ∈ name)
    (hd : Text.isNameChar d = false) : c ≠ d :=
  ne_of_isNameChar (h.isNameChar c hc) hd

theorem trim_type_name (ht : IsType type) (hn : IsName name) :
    trim (type ++ ' ' :: name) = type ++ ' ' :: name := by
  apply trim_eq_self
  · intro c hc
    rw [List.head?_append_of_ne_nil _ ht.ne_nil] at hc
    exact ht.isBlank_of_mem_head? hc
  · exact hn.isBlank_of_mem_getLast? type

theorem typeSpelling_append_blank (t : Text) : typeSpelling (t ++ [' ']) = typeSpelling t := by
  rw [typeSpelling, typeSpelling, words_append_blank (by decide)]

/-! ## Heads -/

/-- A head that is a type and a name is split into these. -/
theorem signature?_type_name (ht : IsType type) (hn : IsName name)
    (hdigit : ∀ c ∈ name.head?, c.isDigit = false) :
    signature? (' ' :: (type ++ ' ' :: name)) = .ok (some (type, name)) := by
  have htrim : trim (' ' :: (type ++ ' ' :: name)) = type ++ ' ' :: name := by
    rw [show ' ' :: (type ++ ' ' :: name) = [' '] ++ (type ++ ' ' :: name) by simp,
      trim_append_of_forall_isBlank forall_isBlank_singleton, trim_type_name ht hn]
  have hfront : (splitTrailing isNameChar (type ++ ' ' :: name)).1 = type ++ [' '] := by
    rw [splitTrailing_append (by decide) hn.isNameChar]
  have hcut : size (type ++ [' ']) = size type + 1 := by simp [show ' '.utf8Size = 1 by decide]
  have hresult : slice 0 (size type + 1) (type ++ ' ' :: name) = .ok (type ++ [' ']) :=
    slice_eq_ok [] (type ++ [' ']) name (by simp) rfl (by simp [← hcut])
  have hname : slice (size type + 1) (size (type ++ ' ' :: name)) (type ++ ' ' :: name) =
      .ok name :=
    slice_eq_ok (type ++ [' ']) name [] (by simp) hcut.symm
      (by simp [Nat.add_assoc])
  have hhead : name.head?.any Char.isDigit = false := by
    cases h : name.head? with
    | none => rfl
    | some c => exact hdigit c h
  simp [signature?, htrim, hfront, hresult, hname, typeSpelling_append_blank,
    ht.typeSpelling_eq, ht.ne_nil, hn.ne_nil, hhead, -size_append, -size_cons]

/-! ## Parameters -/

section Parameters

variable {c : Char}

/-- Whether a character marks a pointer or a reference. -/
def isMarker (c : Char) : Bool := c == '*' || c == '&'

theorem isMarker_iff : isMarker c = true ↔ c = '*' ∨ c = '&' := by
  rw [isMarker, Bool.or_eq_true, beq_iff_eq, beq_iff_eq]

theorem isBlank_of_isMarker (h : isMarker c = true) : isBlank c = false := by
  rcases isMarker_iff.mp h with rfl | rfl <;> decide

theorem IsName.isMarker_of_mem (h : IsName name) (hc : c ∈ name) :
    isMarker c = false := by
  have hstar : c ≠ '*' := h.ne_of_mem hc (by decide)
  have hand : c ≠ '&' := h.ne_of_mem hc (by decide)
  simp [isMarker, hstar, hand]

theorem parameter_of_isBlank {front last : Text} (hc : isBlank c = true)
    (hlast : ∀ d ∈ last, isBlank d = false) (index : Nat) :
    parameter index (front ++ c :: last) =
      ⟨typeSpelling (front ++ last.takeWhile isMarker), last.dropWhile isMarker⟩ := by
  rw [parameter, splitAtLastBlank?_append hc hlast]
  rfl

/-- The markers in front of a name belong to the type. -/
theorem parameter_append_name {front run : Text} (hc : isBlank c = true)
    (hrun : ∀ m ∈ run, isMarker m = true) (hname : IsName name) (index : Nat) :
    parameter index (front ++ c :: (run ++ name)) = ⟨typeSpelling (front ++ run), name⟩ := by
  have hlast : ∀ d ∈ run ++ name, isBlank d = false :=
    List.forall_mem_append.mpr
      ⟨fun m hm => isBlank_of_isMarker (hrun m hm), fun d hd => hname.isBlank_of_mem hd⟩
  have hhead : ∀ d ∈ name.head?, isMarker d = false := fun d hd =>
    hname.isMarker_of_mem (List.mem_of_head? hd)
  rw [parameter_of_isBlank hc hlast, takeWhile_append_of_head? hrun hhead,
    dropWhile_append_of_head? hrun hhead]

theorem parameter_of_forall {t : Text} (h : ∀ c ∈ t, isBlank c = false) (index : Nat) :
    parameter index t = ⟨typeSpelling t, "p" ++ Nat.toDigits 10 index⟩ := by
  have hsplit : splitAtLastBlank? t = none := by
    have hparts : splitTrailing (!isBlank ·) ([] ++ t) = ([], t) :=
      splitTrailing_of_getLast? (by simp) fun c hc => by simp [h c hc]
    rw [List.nil_append] at hparts
    rw [splitAtLastBlank?, hparts]
    rfl
  rw [parameter, hsplit]

end Parameters

/-! ## Parameter lists -/

/-- A parameter as it is written. -/
def parameterText (p : Parameter) : Text := p.type ++ ' ' :: p.name

/-- Parameters with commas between them. -/
def parameterListText (params : List Parameter) : Text :=
  ", ".toList.intercalate (params.map parameterText)

/-- A parameter whose type is in normal form and whose name is plain. -/
structure IsParameter (p : Parameter) : Prop where
  type : IsType p.type
  name : IsName p.name

theorem parameter_parameterText {p : Parameter} (h : IsParameter p) (index : Nat) :
    parameter index (parameterText p) = p := by
  have hread : parameter index (p.type ++ ' ' :: ([] ++ p.name)) =
      ⟨typeSpelling (p.type ++ []), p.name⟩ :=
    parameter_append_name (by decide) (List.forall_mem_nil _) h.name index
  rw [List.nil_append, List.append_nil, h.type.typeSpelling_eq] at hread
  exact hread

theorem parameterText_chars {p : Parameter} (h : IsParameter p) {c d : Char}
    (hc : c ∈ parameterText p) (hd : Text.isNameChar d = false) (hd' : d ∉ [' ', '*', '&']) :
    c ≠ d := by
  rw [parameterText, List.mem_append, List.mem_cons] at hc
  rcases hc with hc | rfl | hc
  · exact h.type.ne_of_mem hc hd hd'
  · rintro rfl
    simp at hd'
  · exact h.name.ne_of_mem hc hd

theorem parameterListText_cons_cons (p q : Parameter) (rest : List Parameter) :
    parameterListText (p :: q :: rest) =
      parameterText p ++ ',' :: ([' '] ++ parameterListText (q :: rest)) := by
  simp [parameterListText, List.intercalate_cons_cons]

theorem parameterListText_singleton (p : Parameter) :
    parameterListText [p] = parameterText p := by
  simp [parameterListText]

/-- A list of parameters holds nothing but these, blanks and commas. -/
theorem parameterListText_chars {params : List Parameter} (h : ∀ p ∈ params, IsParameter p)
    {c d : Char} (hc : c ∈ parameterListText params) (hd : Text.isNameChar d = false)
    (hd' : d ∉ [' ', '*', '&', ',']) : c ≠ d := by
  have hd'' : d ∉ [' ', '*', '&'] := fun hmem => hd' (by simp_all)
  induction params with
  | nil => simp [parameterListText] at hc
  | cons p params ih =>
      cases params with
      | nil =>
          rw [parameterListText_singleton] at hc
          exact parameterText_chars (h p (by simp)) hc hd hd''
      | cons q params =>
          rw [parameterListText_cons_cons, List.mem_append, List.mem_cons, List.mem_append,
            List.mem_singleton] at hc
          rcases hc with hc | rfl | rfl | hc
          · exact parameterText_chars (h p (by simp)) hc hd hd''
          · rintro rfl
            simp at hd'
          · rintro rfl
            simp at hd'
          · exact ih (fun r hr => h r (by simp [hr])) hc

theorem splittable_parameterText {p : Parameter} (h : IsParameter p) :
    ∀ c ∈ parameterText p, c ≠ ',' ∧ isBracket c = false := by
  intro c hc
  refine ⟨parameterText_chars h hc (by decide) (by decide), ?_⟩
  simp only [isBracket, List.mem_cons, List.not_mem_nil, or_false, decide_eq_false_iff_not,
    not_or]
  refine ⟨?_, ?_, ?_, ?_, ?_, ?_⟩ <;>
    exact parameterText_chars h hc (by decide) (by decide)

/-- Every part but the first has the blank behind the comma in front. -/
theorem splitTopLevel_parameterListText {p : Parameter} {rest : List Parameter}
    (h : ∀ q ∈ p :: rest, IsParameter q) {start : Text}
    (hstart : ∀ c ∈ start, c ≠ ',' ∧ isBracket c = false) :
    splitTopLevel ',' (start ++ parameterListText (p :: rest)) =
      (start ++ parameterText p) :: rest.map (' ' :: parameterText ·) := by
  induction rest generalizing p start with
  | nil =>
      have hfirst := splittable_parameterText (h p (by simp))
      rw [parameterListText_singleton, splitTopLevel_eq_singleton fun c hc =>
        (List.mem_append.mp hc).elim (hstart c) (hfirst c)]
      rfl
  | cons q rest ih =>
      have hfirst := splittable_parameterText (h p (by simp))
      have hblank : ∀ c ∈ [' '], c ≠ ',' ∧ isBracket c = false :=
        List.forall_mem_singleton.mpr (by decide)
      have htail := ih (fun r hr => h r (List.mem_cons_of_mem p hr)) hblank
      rw [parameterListText_cons_cons, ← List.append_assoc,
        splitTopLevel_append (by decide) fun c hc =>
          (List.mem_append.mp hc).elim (hstart c) (hfirst c), htail]
      rfl

theorem parameterListText_ne_nil (p : Parameter) (rest : List Parameter) :
    parameterListText (p :: rest) ≠ [] := by
  cases rest <;> simp [parameterListText_cons_cons, parameterListText_singleton, parameterText]

theorem getLast?_parameterListText {params : List Parameter} (h : ∀ p ∈ params, IsParameter p) :
    ∀ c ∈ (parameterListText params).getLast?, isBlank c = false := by
  induction params with
  | nil => simp [parameterListText]
  | cons p params ih =>
      intro c hc
      cases params with
      | nil =>
          rw [parameterListText_singleton] at hc
          exact (h p (by simp)).name.isBlank_of_mem_getLast? p.type c hc
      | cons q params =>
          rw [parameterListText_cons_cons, show parameterText p ++
              ',' :: ([' '] ++ parameterListText (q :: params)) =
              parameterText p ++ [',', ' '] ++ parameterListText (q :: params) by simp,
            List.getLast?_append_of_ne_nil _ (parameterListText_ne_nil q params)] at hc
          exact ih (fun r hr => h r (by simp [hr])) c hc

/-- The blank between type and name tells a parameter from the word for no parameters. -/
theorem trim_parameterListText_ne_void {p : Parameter} {rest : List Parameter}
    (h : ∀ q ∈ p :: rest, IsParameter q) :
    trim (parameterListText (p :: rest)) ≠ "void".toList := by
  obtain ⟨tail, htail⟩ : ∃ tail, parameterListText (p :: rest) = p.type ++ ' ' :: tail := by
    cases rest with
    | nil => exact ⟨_, parameterListText_singleton p⟩
    | cons q rest =>
        refine ⟨p.name ++ ',' :: ([' '] ++ parameterListText (q :: rest)), ?_⟩
        rw [parameterListText_cons_cons, parameterText, List.append_assoc, List.cons_append]
  have htrim : trim (parameterListText (p :: rest)) = parameterListText (p :: rest) := by
    refine trim_eq_self ?_ (getLast?_parameterListText h)
    intro c hc
    have htype := (h p (by simp)).type
    rw [htail, List.head?_append_of_ne_nil _ htype.ne_nil] at hc
    exact htype.isBlank_of_mem_head? hc
  intro hvoid
  have hmem : ' ' ∈ "void".toList := by
    rw [← hvoid, htrim, htail]
    simp
  exact absurd hmem (by decide)

/-- A written list of parameters is read back. -/
theorem parameters_parameterListText {params : List Parameter}
    (h : ∀ p ∈ params, IsParameter p) : parameters (parameterListText params) = params := by
  cases params with
  | nil => rfl
  | cons p rest =>
      have hsplit := splitTopLevel_parameterListText h (List.forall_mem_nil _)
      have hpieces : (splitTopLevel ',' (parameterListText (p :: rest))).map trim =
          (p :: rest).map parameterText := by
        rw [List.nil_append, List.nil_append] at hsplit
        rw [hsplit, List.map_cons, List.map_cons, List.map_map]
        refine congrArg₂ _ ?_ (List.map_congr_left ?_)
        · exact trim_type_name (h p (by simp)).type (h p (by simp)).name
        · intro q hq
          have hq' := h q (by simp [hq])
          exact (trim_append_of_forall_isBlank forall_isBlank_singleton).trans
            (trim_type_name hq'.type hq'.name)
      have hfilter : ((p :: rest).map parameterText).filter (!·.isEmpty) =
          (p :: rest).map parameterText := by
        rw [List.filter_eq_self]
        intro t ht
        obtain ⟨q, -, rfl⟩ := List.mem_map.mp ht
        simp [parameterText]
      have hvoid : trim (parameterListText (p :: rest)) ≠ "void".toList :=
        trim_parameterListText_ne_void h
      rw [parameters, if_neg hvoid, hpieces, hfilter, List.mapIdx_eq_iff]
      intro i
      rw [List.getElem?_map, Option.map_map]
      cases hi : (p :: rest)[i]? with
      | none => rfl
      | some q =>
          exact congrArg some (parameter_parameterText (h q (List.mem_of_getElem? hi)) i).symm

end HeaderBindings.Header
