import HeaderBindings.Proofs.Header.Entries
import HeaderBindings.Proofs.Header.Findings
import HeaderBindings.Proofs.Header.Moves

/-! # Enumerations in arbitrary text

A header in which enumerations are written between fillers is read back to these enumerations. A
filler is any text without the word `enum`, whether its brackets match or not; so an enumeration
is found at every depth. -/

namespace HeaderBindings.Header

open List Text Cursor

/-! ## Enumerations -/

/-- An enumeration as it is written: `enum`, perhaps `class` or `struct`, a name, perhaps a colon
with an underlying type, and the body in braces. -/
structure EnumText where
  gap : Text
  key? : Option (Text × Text)
  name : Text
  space : Text
  underlying? : Option Text
  body : BodyText
  isGap : gap ≠ [] ∧ ∀ c ∈ gap, isBlank c = true
  isKey : ∀ key ∈ key?, (key.1 = "class" ∨ key.1 = "struct") ∧ key.2 ≠ [] ∧
    ∀ c ∈ key.2, isBlank c = true
  isName : IsName name
  ne_key : name ≠ "class" ∧ name ≠ "struct"
  isBlank_space : ∀ c ∈ space, isBlank c = true
  isUnderlying : ∀ underlying ∈ underlying?, ∀ c ∈ underlying,
    isNameChar c = true ∨ isBlank c = true ∨ c = ':'

namespace EnumText

/-- What is written between the word and the name. -/
def front (d : EnumText) : Text :=
  d.gap ++ match d.key? with
    | none => []
    | some (key, gap) => key ++ gap

/-- What is written between the name and the body. -/
def clause (d : EnumText) : Text :=
  d.space ++ match d.underlying? with
    | none => []
    | some underlying => ':' :: underlying

def text (d : EnumText) : Text :=
  "enum".toList ++ (d.front ++ (d.name ++ (d.clause ++ '{' :: (d.body.text ++ ['}', ';']))))

/-- The enumeration that is declared, without its place. -/
def declared (d : EnumText) : EnumBlock :=
  { name := d.name, entries := d.body.entries.map (·.declared d.name) }

end EnumText

theorem nested_modeValue : Nested false " f(1, 2)" := by
  have hcall : Nested true "1, 2" :=
    .char (by decide) (by decide) (.char (by decide) (by decide) (.of_forall
      (List.all_iff_forall_prop.mp (by decide))))
  exact .char (by decide) (by decide) (.char (by decide) (by decide)
    (.group (by decide) hcall (.nil false)))

/-- The enumeration `enum class Mode : unsigned char { MODE_OFF = f(1, 2), On, };`. -/
def modeText : EnumText where
  gap := " "
  key? := some ("class", " ")
  name := "Mode"
  space := " "
  underlying? := some " unsigned char "
  body :=
    { entries :=
        [{  lead := " "
            name := "MODE_OFF"
            space := " "
            value? := some " f(1, 2)"
            isBlank_lead := List.all_eq_true.mp (by decide)
            isName := by decide
            isBlank_space := List.all_eq_true.mp (by decide)
            isValue := by
              rintro _ ⟨⟩
              exact ⟨by decide, nested_modeValue⟩ },
         {  lead := " "
            name := "On"
            space := []
            value? := none
            isBlank_lead := List.all_eq_true.mp (by decide)
            isName := by decide
            isBlank_space := List.all_eq_true.mp (by decide)
            isValue := by simp }]
      last? := some " "
      isBlank_last := by
        rintro _ ⟨⟩
        exact List.all_eq_true.mp (by decide) }
  isGap := ⟨by decide, List.all_eq_true.mp (by decide)⟩
  isKey := by
    rintro _ ⟨⟩
    exact ⟨.inl rfl, by decide, List.all_eq_true.mp (by decide)⟩
  isName := by decide
  ne_key := by decide
  isBlank_space := List.all_eq_true.mp (by decide)
  isUnderlying := by
    rintro _ ⟨⟩
    exact List.all_iff_forall_prop.mp (by decide)

variable {before rest after : Text} (d : EnumText)

theorem head?_append_of_isBlank {gap : Text} (hne : gap ≠ [])
    (hgap : ∀ c ∈ gap, isBlank c = true) (t : Text) :
    ∀ c ∈ (gap ++ t).head?, isNameChar c = false := by
  rw [List.head?_append_of_ne_nil _ hne]
  exact fun c hc => isNameChar_of_isBlank (hgap c (List.mem_of_mem_head? hc))

/-- What stands between the word `enum` and the name. The words `class` and `struct` are names
only behind one of them. -/
inductive LeadsToName (name : Text) : Text → Prop
  | plain {blanks : Text} (hblanks : ∀ c ∈ blanks, isBlank c = true)
      (hname : name ≠ "class" ∧ name ≠ "struct") : LeadsToName name blanks
  | keyed {blanks key space : Text} (hblanks : ∀ c ∈ blanks, isBlank c = true)
      (hkey : key = "class" ∨ key = "struct") (hne : space ≠ [])
      (hspace : ∀ c ∈ space, isBlank c = true) : LeadsToName name (blanks ++ (key ++ space))

theorem isName_of_isKey {key : Text} (h : key = "class" ∨ key = "struct") : IsName key := by
  rcases h with rfl | rfl <;> decide

/-- The name is found behind the word, whether `class` or `struct` stands between them or not. -/
theorem exists_enumName_eq_ok {name head : Text} (hleads : LeadsToName name head)
    (hname : IsName name) (hrest : ∀ c ∈ rest.head?, isNameChar c = false)
    (before after : Text) :
    ∃ place, enumName (amid before (head ++ (name ++ rest)) after) =
      .ok (some (name, place), amid (before ++ (head ++ name)) rest after) := by
  have hblank := hname.isBlank_of_mem_head?_append rest
  rw [enumName]
  cases hleads with
  | plain hblanks hplain =>
      have hother : ¬ (name = "class".toList ∨ name = "struct".toList) := not_or.mpr hplain
      refine ⟨.between (size (before ++ head)) (size (before ++ head) + size name), ?_⟩
      rw [skipBlanks_amid hblanks hblank, ok_bind,
        name_amid hname.ne_nil hname.isNameChar hrest, ok_bind]
      simp only [Option.any_some, if_neg (fun hkey => hother (of_decide_eq_true hkey))]
      rw [List.append_assoc]
      rfl
  | @keyed blanks key space hblanks hkey hne hspace =>
      have hkeyName := isName_of_isKey hkey
      refine ⟨.between (size (before ++ blanks ++ key ++ space))
        (size (before ++ blanks ++ key ++ space) + size name), ?_⟩
      rw [List.append_assoc, List.append_assoc,
        skipBlanks_amid hblanks (hkeyName.isBlank_of_mem_head?_append _), ok_bind,
        name_amid hkeyName.ne_nil hkeyName.isNameChar (head?_append_of_isBlank hne hspace _),
        ok_bind]
      simp only [Option.any_some, if_pos (decide_eq_true hkey)]
      rw [skipBlanks_amid hspace hblank, ok_bind, name_amid hname.ne_nil hname.isNameChar hrest]
      simp only [List.append_assoc]

theorem EnumText.leadsToName_front : LeadsToName d.name d.front := by
  obtain ⟨-, hblank⟩ := d.isGap
  rw [EnumText.front]
  cases hkey : d.key? with
  | none =>
      simp only [List.append_nil]
      exact .plain hblank d.ne_key
  | some key =>
      obtain ⟨hword, hne, hspace⟩ := d.isKey key hkey
      exact .keyed hblank hword hne hspace

theorem not_mem_marks {c : Char} (hc : isNameChar c = true ∨ isBlank c = true ∨ c = ':') :
    c ∉ ['{', ';'] ∧ c ∉ ['{', '(', '}', ')'] := by
  have hmarks : ∀ d ∈ ['{', ';'] ++ ['{', '(', '}', ')'],
      isNameChar d = false ∧ isBlank d = false ∧ d ≠ ':' :=
    List.all_iff_forall_prop.mp (by decide)
  have hnot : c ∉ ['{', ';'] ++ ['{', '(', '}', ')'] := by
    intro hmem
    obtain ⟨hname, hblank, hcolon⟩ := hmarks c hmem
    simp [hname, hblank, hcolon] at hc
  exact ⟨fun hmem => hnot (List.mem_append_left _ hmem),
    fun hmem => hnot (List.mem_append_right _ hmem)⟩

theorem clause_chars : ∀ c ∈ d.clause, c ∉ ['{', ';'] ∧ c ∉ ['{', '(', '}', ')'] := by
  intro c hc
  rw [EnumText.clause] at hc
  rcases List.mem_append.mp hc with hc | hc
  · exact not_mem_marks (.inr (.inl (d.isBlank_space c hc)))
  · cases hunderlying : d.underlying? with
    | none =>
        rw [hunderlying] at hc
        cases hc
    | some underlying =>
        rw [hunderlying] at hc
        rcases List.mem_cons.mp hc with rfl | hc
        · exact not_mem_marks (.inr (.inr rfl))
        · exact not_mem_marks (d.isUnderlying underlying hunderlying c hc)

theorem upToAny_clause (before rest after : Text) :
    (amid before (d.clause ++ '{' :: rest) after).upToAny ['{', ';'] =
      .ok (some ('{', size before + size d.clause),
        amid (before ++ d.clause) ('{' :: rest) after) :=
  upToAny_amid (upToTarget?_append (by decide) (clause_chars d) rest)

theorem head?_clause_append (rest : Text) :
    ∀ c ∈ (d.clause ++ '{' :: rest).head?, isNameChar c = false := by
  intro c hc
  rw [EnumText.clause, List.append_assoc] at hc
  by_cases hspace : d.space = []
  · cases hunderlying : d.underlying? with
    | none =>
        rw [hspace, hunderlying] at hc
        cases hc
        decide
    | some underlying =>
        rw [hspace, hunderlying] at hc
        cases hc
        decide
  · exact head?_append_of_isBlank hspace d.isBlank_space _ c hc

theorem isNameChar_of_mem_enum : ∀ c ∈ "enum".toList, isNameChar c = true :=
  List.all_eq_true.mp (by decide)

theorem separatesWords_front_append (t : Text) : separatesWords (d.front ++ t).head? = true := by
  obtain ⟨hne, hblank⟩ := d.isGap
  cases hhead : (d.front ++ t).head? with
  | none => rfl
  | some c =>
      rw [EnumText.front, List.append_assoc] at hhead
      have hc := head?_append_of_isBlank hne hblank _ c hhead
      simp [separatesWords, hc]

theorem exists_enumRound {filler : Text} (hfiller : ¬ HoldsWord "enum" before.getLast? filler)
    (hend : separatesWords (filler.getLast?.or before.getLast?) = true) (rest after : Text) :
    ∃ span, enumRound (amid before (filler ++ (d.text ++ rest)) after) =
      .ok (.found (.item { d.declared with span := span })
        (amid (before ++ (filler ++ d.text)) rest after)) := by
  have htext : d.text ++ rest = "enum".toList ++ (d.front ++ (d.name ++ (d.clause ++
      '{' :: (d.body.text ++ '}' :: ';' :: rest)))) := by
    unfold EnumText.text
    simp
  have hword := upToWordAt?_eq_some (by decide) isNameChar_of_mem_enum
    (fun c _ => (rfl : sameDepth 0 c = 0)) hfiller hend (separatesWords_front_append d
      (d.name ++ (d.clause ++ '{' :: (d.body.text ++ '}' :: ';' :: rest))))
  obtain ⟨place, hname⟩ := exists_enumName_eq_ok d.leadsToName_front d.isName
    (head?_clause_append d (d.body.text ++ '}' :: ';' :: rest)) (before ++ filler ++ "enum".toList)
    after
  have hpassed : before ++ filler ++ "enum".toList ++ (d.front ++ d.name) ++ d.clause ++
      '{' :: (d.body.text ++ ['}']) ++ [';'] = before ++ (filler ++ d.text) := by
    unfold EnumText.text
    simp
  refine ⟨.between (size (before ++ filler)) (size (before ++ (filler ++ d.text))), ?_⟩
  rw [enumRound, htext, passWord_amid_of_eq_some (by decide) isNameChar_of_mem_enum hword, ok_bind]
  simp only
  rw [hname, ok_bind]
  simp only
  rw [upToAny_clause, ok_bind]
  simp only
  rw [block_amid (by decide) d.body.balanced, ok_bind]
  simp only
  rw [skipBlanks_amid_of_head? (by simp; decide), ok_bind, accept_amid, ok_bind,
    slice_amid_behind_mark _ _ _ (by decide), ok_bind, hpassed, d.body.enumEntries_text]
  rfl

/-! ## Headers -/

/-- A header: enumerations behind fillers, and what follows the last one. -/
def enumHeaderText (parts : List (Text × EnumText)) (last : Text) : Text :=
  parts.flatMap (fun part => part.1 ++ part.2.text) ++ last

instance {before? : Option Char} {t : Text} : Decidable (HoldsWord "enum" before? t) :=
  decidable_of_iff _ (isSome_upToWordAt?_iff (by decide))

/-- What may stand before an enumeration. -/
structure IsFiller (t : Text) : Prop where
  not_holdsWord : ¬ HoldsWord "enum" none t
  separatesWords : separatesWords t.getLast? = true

/-- An enumeration without its place. -/
def unplacedBlock (d : EnumBlock) : EnumBlock := { d with span := ⟨0, 0⟩ }

theorem enumRound_of_not_holdsWord (h : ¬ HoldsWord "enum" none rest) (before after : Text) :
    enumRound (amid before rest after) = .ok .finished := by
  have hword : upToWordAt? "enum" sameDepth 0 before.getLast? rest = none :=
    (upToWordAt?_eq_none_iff (by decide)).mpr fun hword => h hword.of_before
  rw [enumRound, passWord_amid_of_eq_none (by decide) isNameChar_of_mem_enum hword]
  rfl

theorem getLast?_enumText (d : EnumText) (front : Text) :
    (front ++ d.text).getLast? = some ';' := by
  have htext : front ++ d.text = front ++ ("enum".toList ++ (d.front ++ (d.name ++ (d.clause ++
      '{' :: (d.body.text ++ ['}']))))) ++ [';'] := by
    unfold EnumText.text
    simp
  rw [htext, List.getLast?_concat]

/-- A round leaves the cursor behind a semicolon, so no word goes on into the next filler. -/
theorem collect_enumRound (parts : List (Text × EnumText)) (last : Text)
    (hparts : ∀ part ∈ parts, IsFiller part.1) (hlast : ¬ HoldsWord "enum" none last)
    (before : Text) (hbefore : separatesWords before.getLast? = true) :
    ∃ found, collect enumRound (amid before (enumHeaderText parts last) []) = .ok found ∧
      found.items.map unplacedBlock = parts.map (·.2.declared) ∧ found.problems = [] := by
  induction parts generalizing before with
  | nil => exact ⟨{}, collect_of_finished (enumRound_of_not_holdsWord hlast before []), rfl, rfl⟩
  | cons part parts ih =>
      obtain ⟨filler, d⟩ := part
      obtain ⟨hfiller, hrestparts⟩ := List.forall_mem_cons.mp hparts
      have htext : enumHeaderText ((filler, d) :: parts) last =
          filler ++ (d.text ++ enumHeaderText parts last) := by
        simp [enumHeaderText]
      obtain ⟨span, hround⟩ := exists_enumRound d
        (fun hword => hfiller.not_holdsWord hword.of_before)
        (separatesWords_or hfiller.separatesWords hbefore) (enumHeaderText parts last) []
      obtain ⟨later, hlater, hitems, hproblems⟩ := ih hrestparts (before ++ (filler ++ d.text)) (by
        rw [← List.append_assoc, getLast?_enumText]
        rfl)
      have hforward : (amid (before ++ (filler ++ d.text)) (enumHeaderText parts last) []).remaining
          < (amid before (filler ++ (d.text ++ enumHeaderText parts last)) []).remaining := by
        rw [← List.append_assoc filler]
        refine remaining_amid_lt rfl ?_
        unfold EnumText.text
        simp
      rw [htext]
      refine ⟨_, collect_of_found hround hforward hlater, ?_, ?_⟩
      · rw [Findings.items_append, List.map_append, hitems]
        rfl
      · rw [Findings.problems_append, hproblems]
        rfl

/-- Every enumeration of a header is read, in order, whatever stands between them. -/
theorem exists_enumsIn_eq_ok {parts : List (Text × EnumText)} {last : Text}
    (hparts : ∀ part ∈ parts, IsFiller part.1) (hlast : ¬ HoldsWord "enum" none last) :
    ∃ found, enumsIn (enumHeaderText parts last) = .ok found ∧
      found.items.map unplacedBlock = parts.map (·.2.declared) ∧ found.problems = [] := by
  rw [enumsIn, ofText_eq_amid]
  exact collect_enumRound parts last hparts hlast [] rfl

theorem exists_enumsIn_eq_ok_mode :
    let parts : List (Text × EnumText) :=
      [("\x7d renum enum_x (", modeText), (" enums [", modeText)]
    let last : Text := "; \x7b namespace enums"
    (∀ part ∈ parts, IsFiller part.1) ∧ ¬ HoldsWord "enum" none last ∧
      ∃ found, enumsIn (enumHeaderText parts last) = .ok found ∧
        found.items.map unplacedBlock = parts.map (·.2.declared) ∧ found.problems = [] := by
  intro parts last
  have hparts : ∀ part ∈ parts, IsFiller part.1 := by
    simp only [parts, List.forall_mem_cons]
    refine ⟨⟨by decide, by decide⟩, ⟨by decide, by decide⟩, List.forall_mem_nil _⟩
  have hlast : ¬ HoldsWord "enum" none last := by decide
  exact ⟨hparts, hlast, exists_enumsIn_eq_ok hparts hlast⟩

end HeaderBindings.Header
