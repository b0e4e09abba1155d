import HeaderBindings.Proofs.Header.EnumRounds
import HeaderBindings.Proofs.Header.Outcomes
import HeaderBindings.Proofs.Header.RoundTrip
import HeaderBindings.Proofs.Header.Sequences
import HeaderBindings.Proofs.Header.Signature

/-! # Declarations in any layout

Functions, namespace blocks and enumerations as they may be written, with any white space around
their parts. A round reads each of them in one go. -/

namespace HeaderBindings.Header

open List Text Cursor

/-! ## Functions -/

/-- A function as it may be written: a head with a signature, a parameter list in parentheses,
and a body in braces. -/
structure WrittenFunction where
  head : Text
  result : Text
  name : Text
  list : Text
  space : Blanks
  body : Text
  isHead : IsHead head
  isWholeWord : ∀ c ∈ head.head?, isNameChar c = false
  signature : Signature head result name
  balanced_list : Balanced '(' ')' list
  closed_list : Balanced '{' '}' list
  balanced_body : Balanced '{' '}' body

namespace WrittenFunction

def text (d : WrittenFunction) : Text := functionText d.head d.list d.space.val d.body

/-- The function that is declared in a namespace, without its place. -/
def declared (scope : Text) (d : WrittenFunction) : NativeFunction :=
  ⟨scope, d.result, d.name, parameters d.list, ⟨0, 0⟩⟩

variable (d : WrittenFunction)

theorem exists_head_append (rest : Text) :
    ∃ c behind, d.head ++ '(' :: rest = c :: behind ∧ isNameChar c = false := by
  cases hhead : d.head with
  | nil => exact ⟨'(', rest, rfl, by decide⟩
  | cons c head => exact ⟨c, head ++ '(' :: rest, rfl, d.isWholeWord c (by simp [hhead])⟩

theorem separatesWords_head_append (rest : Text) :
    separatesWords (d.head ++ '(' :: rest).head? = true := by
  obtain ⟨c, behind, hbehind, hc⟩ := d.exists_head_append rest
  rw [hbehind]
  exact separatesWords_some hc

/-- Neither the keyword nor the head holds a mark that opens or closes. -/
theorem balanced_front {opening closing : Char} (hopening : opening ∈ ['(', '{', '}', ')'])
    (hclosing : closing ∈ ['(', '{', '}', ')']) :
    Balanced opening closing ("static".toList ++ d.head) := by
  have hmarks : ∀ c ∈ "static".toList ++ d.head, c ∉ ['(', '{', '}', ')'] := by
    intro c hc
    rcases List.mem_append.mp hc with hc | hc
    · exact (List.all_iff_forall_prop.mp (by decide) :
        ∀ c ∈ "static".toList, c ∉ ['(', '{', '}', ')']) c hc
    · have hhead := d.isHead c hc
      simp only [List.mem_cons, List.not_mem_nil, or_false, not_or] at hhead ⊢
      exact ⟨hhead.1, hhead.2.2⟩
  refine balanced_of_forall_ne fun c hc => ⟨?_, ?_⟩
  · rintro rfl
    exact hmarks c hc hopening
  · rintro rfl
    exact hmarks c hc hclosing

theorem text_eq_append : d.text = "static".toList ++ d.head ++ ('(' :: d.list ++ [')'] ++
    (d.space.val ++ ('{' :: d.body ++ ['}']))) := by
  unfold text functionText
  simp

theorem getLast?_text : d.text.getLast? = some '}' := by
  simp only [text_eq_append, ← List.append_assoc, List.getLast?_concat]

/-- The marks of a function match if those of its list and of its body do. -/
theorem balanced_text_of {opening closing : Char} (hopening : opening ∈ ['(', '{', '}', ')'])
    (hclosing : closing ∈ ['(', '{', '}', ')'])
    (hlist : Balanced opening closing ('(' :: d.list ++ [')']))
    (hbody : Balanced opening closing ('{' :: d.body ++ ['}'])) :
    Balanced opening closing d.text := by
  have hblank : ∀ c ∈ ['(', '{', '}', ')'], isBlank c = false :=
    List.all_iff_forall_prop.mp (by decide)
  rw [text_eq_append]
  exact (d.balanced_front hopening hclosing).append
    (hlist.append ((d.space.balanced (hblank _ hopening) (hblank _ hclosing)).append hbody))

theorem balanced_text : Balanced '{' '}' d.text :=
  d.balanced_text_of (by decide) (by decide) (d.closed_list.between (by decide) (by decide))
    (d.balanced_body.enclose (by decide))

theorem balanced_parentheses_text (h : Balanced '(' ')' d.body) : Balanced '(' ')' d.text :=
  d.balanced_text_of (by decide) (by decide) (d.balanced_list.enclose (by decide))
    (h.between (by decide) (by decide))

theorem isReadBy (scope : Text) :
    IsReadBy "static" (functionRound scope) unplaced text fun d => [d.declared scope] where
  isName := by decide
  starts := by
    intro d
    obtain ⟨c, behind, hbehind, hc⟩ := d.exists_head_append
      (d.list ++ ')' :: (d.space.val ++ '{' :: (d.body ++ ['}'])))
    refine ⟨c, behind, ?_, hc⟩
    unfold text functionText
    rw [hbehind]
  ends := by
    intro d
    rw [d.getLast?_text]
    decide
  reads := by
    intro d gap before rest after hbefore
    have hround := functionRound_functionText scope gap.isGap
      (separatesWords_or gap.separatesWords_getLast? hbefore) d.isHead
      (d.separatesWords_head_append []) (signature?_eq_some_of_signature d.signature)
      d.balanced_list d.space.property d.balanced_body rest after
    rw [List.append_assoc gap.val, List.append_assoc before] at hround
    exact ⟨_, hround, rfl, rfl⟩
  finishes := fun gap before after => functionRound_gap scope gap.isGap before after

end WrittenFunction

/-- The function `static int NAME(LIST) {BODY}`. -/
def intFunction (name list body : Text)
    (h : IsName name ∧ name.head?.all (!·.isDigit) = true ∧ Balanced '(' ')' list ∧
      Balanced '{' '}' list ∧ Balanced '{' '}' body) : WrittenFunction where
  head := " int " ++ name
  result := "int"
  name := name
  list := list
  space := .single
  body := body
  isHead := by
    intro c hc
    rcases List.mem_append.mp hc with hc | hc
    · exact (List.all_iff_forall_prop.mp (by decide) :
        ∀ c ∈ " int ".toList, c ∉ ['(', ';', '{', '}', ')']) c hc
    · simp only [List.mem_cons, List.not_mem_nil, or_false, not_or]
      refine ⟨?_, ?_, ?_, ?_, ?_⟩ <;> exact h.1.ne_of_mem hc (by decide)
  isWholeWord := by
    rintro c ⟨⟩
    decide
  signature := by
    have hdigit : ∀ c ∈ name.head?, c.isDigit = false := by
      intro c hc
      have hall := h.2.1
      rw [Option.mem_def.mp hc] at hall
      simpa using hall
    have hsignature : Signature (" int ".toList ++ (name ++ [])) (typeSpelling " int ") name :=
      .intro (by rintro c ⟨⟩; decide) (by decide) h.1 hdigit (List.forall_mem_nil _)
    rw [List.append_nil] at hsignature
    exact hsignature
  balanced_list := h.2.2.1
  closed_list := h.2.2.2.1
  balanced_body := h.2.2.2.2

/-! ## Namespace blocks -/

/-- The name of a block, between a keyword and an opening brace. -/
structure Opening where
  gap : Blanks
  name : Text
  space : Blanks
  gap_ne_nil : gap.val ≠ []
  isName : IsName name

namespace Opening

def text (keyword : Text) (o : Opening) : Text :=
  keyword ++ (o.gap.val ++ (o.name ++ o.space.val))

variable (o : Opening)

theorem text_append (keyword rest : Text) : o.text keyword ++ rest =
    keyword ++ (o.gap.val ++ (o.name ++ (o.space.val ++ rest))) := by
  simp [text]

theorem exists_gap_append (rest : Text) :
    ∃ c behind, o.gap.val ++ rest = c :: behind ∧ isNameChar c = false := by
  obtain ⟨c, gap, hgap⟩ := List.exists_cons_of_ne_nil o.gap_ne_nil
  exact ⟨c, gap ++ rest, by rw [hgap, List.cons_append], o.gap.isNameChar c (by simp [hgap])⟩

theorem separatesWords_gap_append (rest : Text) :
    separatesWords (o.gap.val ++ rest).head? = true := by
  obtain ⟨c, behind, hbehind, hc⟩ := o.exists_gap_append rest
  rw [hbehind]
  exact separatesWords_some hc

theorem isNameChar_of_mem_head?_space (rest : Text) :
    ∀ c ∈ (o.space.val ++ '{' :: rest).head?, isNameChar c = false := by
  cases hspace : o.space.val with
  | nil =>
      rintro c ⟨⟩
      decide
  | cons d space =>
      rintro c ⟨⟩
      exact o.space.isNameChar d (by simp [hspace])

end Opening

theorem balanced_functions (pieces : List (Blanks × WrittenFunction)) (last : Blanks) :
    Balanced '{' '}' (laidOut WrittenFunction.text pieces ++ last.val) :=
  (balanced_laidOut (by decide) (by decide) fun piece _ => piece.2.balanced_text).append
    (last.balanced (by decide) (by decide))

/-- A namespace block as it may be written. -/
structure WrittenScope extends Opening where
  functions : List (Blanks × WrittenFunction)
  last : Blanks

namespace WrittenScope

/-- What is written between the braces. -/
def inside (b : WrittenScope) : Text := laidOut WrittenFunction.text b.functions ++ b.last.val

def text (b : WrittenScope) : Text := b.toOpening.text "namespace" ++ '{' :: (b.inside ++ ['}'])

theorem balanced_inside (b : WrittenScope) : Balanced '{' '}' b.inside :=
  balanced_functions b.functions b.last

theorem balanced_text (b : WrittenScope) : Balanced '{' '}' b.text := by
  have hname : Balanced '{' '}' b.name :=
    balanced_of_forall_ne fun c hc =>
      ⟨b.isName.ne_of_mem hc (by decide), b.isName.ne_of_mem hc (by decide)⟩
  have hfront : Balanced '{' '}' (b.toOpening.text "namespace") :=
    Balanced.append (balanced_of_forall_ne (List.all_iff_forall_prop.mp (by decide)))
      ((b.gap.balanced (by decide) (by decide)).append
        (hname.append (b.space.balanced (by decide) (by decide))))
  exact hfront.append (b.balanced_inside.enclose (by decide))

/-- The functions that are declared in the block, without their places. -/
def declared (b : WrittenScope) : List NativeFunction :=
  b.functions.map fun piece => piece.2.declared b.name

end WrittenScope

section Scopes

variable {before inside rest after : Text} (o : Opening) (gap : Blanks)

theorem exists_namespaceRound_eq (hbefore : separatesWords before.getLast? = true)
    (rest after : Text) :
    ∃ place, namespaceRound
        (amid before (gap.val ++ (o.text "namespace" ++ '{' :: rest)) after) =
      scopeRound o.name place (amid (before ++ (gap.val ++ ("namespace".toList ++
        (o.gap.val ++ o.name)))) (o.space.val ++ '{' :: rest) after) := by
  unfold namespaceRound
  rw [o.text_append, passKeyword_amid_of_gap rfl gap.isGap
      (separatesWords_or gap.separatesWords_getLast? hbefore) (o.separatesWords_gap_append _),
    ok_bind]
  simp only
  rw [skipBlanks_amid o.gap.property (o.isName.isBlank_of_mem_head?_append _), ok_bind,
    name_amid o.isName.ne_nil o.isName.isNameChar (o.isNameChar_of_mem_head?_space rest), ok_bind]
  simp only [List.append_assoc]
  exact ⟨_, rfl⟩

theorem namespaceRound_of_balanced (hbefore : separatesWords before.getLast? = true)
    (hinside : Balanced '{' '}' inside) {found : Findings NativeFunction}
    (hfound : collect (functionRound o.name)
      (amid (before ++ (gap.val ++ o.text "namespace") ++ ['{']) inside ('}' :: (rest ++ after))) =
        .ok found) :
    namespaceRound (amid before
        (gap.val ++ (o.text "namespace" ++ '{' :: (inside ++ '}' :: rest))) after) =
      .ok (.found found (amid
        (before ++ (gap.val ++ (o.text "namespace" ++ '{' :: (inside ++ ['}'])))) rest after)) := by
  obtain ⟨place, hround⟩ := exists_namespaceRound_eq o gap hbefore (inside ++ '}' :: rest) after
  have hpassed : before ++ (gap.val ++ ("namespace".toList ++ (o.gap.val ++ o.name))) ++
      o.space.val = before ++ (gap.val ++ o.text "namespace") := by
    simp [Opening.text]
  rw [hround, scopeRound_of_balanced o.space.property hinside, hpassed, hfound, ok_bind]
  simp only [List.append_assoc]
  rfl

/-- A round over a block that is never closed reports it and recovers. -/
theorem exists_namespaceRound_of_unclosed (hbefore : separatesWords before.getLast? = true)
    (hinside : NeverCloses '{' '}' inside) {next : Cursor}
    (hnext : recover "namespace" (size (before ++ (gap.val ++ o.text "namespace")))
      (amid (before ++ (gap.val ++ o.text "namespace")) ('{' :: inside) after) = .ok next) :
    ∃ offset place, namespaceRound
        (amid before (gap.val ++ (o.text "namespace" ++ '{' :: inside)) after) =
      .ok (.found (.problem (.namespaceBlock o.name (.unterminated '{' offset) place)) next) := by
  obtain ⟨place, hround⟩ := exists_namespaceRound_eq o gap hbefore inside after
  have hpassed : before ++ (gap.val ++ ("namespace".toList ++ (o.gap.val ++ o.name))) ++
      o.space.val = before ++ (gap.val ++ o.text "namespace") := by
    simp [Opening.text]
  refine ⟨size (before ++ (gap.val ++ o.text "namespace")), place, ?_⟩
  rw [hround, scopeRound_of_unclosed o.space.property (blockInside?_eq_none (by decide) hinside),
    hpassed, hnext]
  rfl

end Scopes

theorem WrittenScope.isReadBy :
    IsReadBy "namespace" namespaceRound unplaced WrittenScope.text WrittenScope.declared where
  isName := by decide
  starts := by
    intro b
    obtain ⟨c, behind, hbehind, hc⟩ :=
      b.exists_gap_append (b.name ++ (b.space.val ++ '{' :: (b.inside ++ ['}'])))
    exact ⟨c, behind, by rw [WrittenScope.text, b.text_append, hbehind], hc⟩
  ends := by
    intro b
    simp only [WrittenScope.text, ← List.cons_append, ← List.append_assoc, List.getLast?_concat]
    decide
  reads := by
    intro b gap before rest after hbefore
    have htext : b.text ++ rest =
        b.toOpening.text "namespace" ++ '{' :: (b.inside ++ '}' :: rest) := by
      simp [WrittenScope.text]
    have hfirst : separatesWords
        (before ++ (gap.val ++ b.toOpening.text "namespace") ++ ['{']).getLast? = true := by
      rw [List.getLast?_concat]
      decide
    obtain ⟨found, hfound, hitems, hproblems⟩ :=
      (WrittenFunction.isReadBy b.name).exists_collect_laidOut b.functions b.last
        ('}' :: (rest ++ after)) hfirst
    have hround := namespaceRound_of_balanced b.toOpening gap hbefore b.balanced_inside hfound
    rw [htext]
    refine ⟨found, hround, ?_, hproblems⟩
    rw [hitems, WrittenScope.declared, List.map_eq_flatMap]
  finishes := fun gap before after => namespaceRound_gap gap.isGap before after

/-! ## Enumerations -/

namespace EnumText

variable (d : EnumText)

theorem front_chars : ∀ c ∈ d.front, isNameChar c = true ∨ isBlank c = true := by
  intro c hc
  rw [front] at hc
  rcases List.mem_append.mp hc with hc | hc
  · exact .inr (d.isGap.2 c hc)
  · cases hkey : d.key? with
    | none =>
        rw [hkey] at hc
        cases hc
    | some key =>
        rw [hkey] at hc
        obtain ⟨hword, -, hspace⟩ := d.isKey key hkey
        have hname : IsName key.1 := by
          rcases hword with hword | hword <;>
            · rw [hword]
              decide
        rcases List.mem_append.mp hc with hc | hc
        · exact .inl (hname.isNameChar c hc)
        · exact .inr (hspace c hc)

theorem balanced_text : Balanced '{' '}' d.text := by
  have hbefore : ∀ c ∈ "enum".toList ++ d.front ++ d.name ++ d.clause, c ≠ '{' ∧ c ≠ '}' := by
    intro c hc
    have hmarks : c ∉ ['{', '(', '}', ')'] := by
      rcases List.mem_append.mp hc with hc | hc
      · refine (not_mem_marks ?_).2
        rcases List.mem_append.mp hc with hc | hc
        · rcases List.mem_append.mp hc with hc | hc
          · exact .inl (isNameChar_of_mem_enum c hc)
          · exact (d.front_chars c hc).imp id .inl
        · exact .inl (d.isName.isNameChar c hc)
      · exact (clause_chars d c hc).2
    simp only [List.mem_cons, List.not_mem_nil, or_false, not_or] at hmarks
    exact ⟨hmarks.1, hmarks.2.2.1⟩
  have htext : d.text = "enum".toList ++ d.front ++ d.name ++ d.clause ++
      ('{' :: d.body.text ++ ['}'] ++ [';']) := by
    unfold text
    simp
  rw [htext]
  exact (balanced_of_forall_ne hbefore).append
    ((d.body.balanced.enclose (by decide)).append (balanced_of_forall_ne (by simp)))

theorem isReadBy :
    IsReadBy "enum" enumRound unplacedBlock text fun d => [d.declared] where
  isName := by decide
  starts := by
    intro d
    obtain ⟨hne, hblank⟩ := d.isGap
    obtain ⟨c, gap, hgap⟩ := List.exists_cons_of_ne_nil hne
    have hc : isNameChar c = false := isNameChar_of_isBlank (hblank c (by simp [hgap]))
    unfold text front
    rw [hgap]
    exact ⟨c, _, rfl, hc⟩
  ends := by
    intro d
    have hlast := getLast?_enumText d []
    rw [List.nil_append] at hlast
    rw [hlast]
    decide
  reads := by
    intro d gap before rest after hbefore
    have hword : ¬ HoldsWord "enum" before.getLast? gap.val :=
      not_holdsWord_of_forall (by decide) isNameChar_of_mem_enum gap.isNameChar
    obtain ⟨span, hround⟩ := exists_enumRound d hword
      (separatesWords_or gap.separatesWords_getLast? hbefore) rest after
    exact ⟨_, hround, rfl, rfl⟩
  finishes := by
    intro gap before after
    refine enumRound_of_not_holdsWord ?_ before after
    exact not_holdsWord_of_forall (by decide) isNameChar_of_mem_enum gap.isNameChar

/-- A run reads enumerations behind any text without the word `enum`. -/
theorem exists_collect_behind {filler : Text} (hfiller : ¬ HoldsWord "enum" none filler)
    {before : Text} (hend : separatesWords (before ++ filler).getLast? = true)
    (pieces : List (Blanks × EnumText)) (last : Blanks) (after : Text) :
    ∃ found, collect enumRound
        (amid before (filler ++ (laidOut text pieces ++ last.val)) after) = .ok found ∧
      found.items.map unplacedBlock = (pieces.flatMap fun piece => [piece.2.declared]) ∧
      found.problems = [] := by
  have hbehind : ∀ gap : Blanks, ¬ HoldsWord "enum" none (filler ++ gap.val) := fun gap =>
    not_holdsWord_append (by decide) isNameChar_of_mem_enum hfiller gap.isNameChar
  cases pieces with
  | nil =>
      exact ⟨{}, collect_of_finished (enumRound_of_not_holdsWord (hbehind last) before after), rfl,
        rfl⟩
  | cons piece pieces =>
      obtain ⟨gap, d⟩ := piece
      have hword : separatesWords ((filler ++ gap.val).getLast?.or before.getLast?) = true := by
        rw [← List.getLast?_append, ← List.append_assoc]
        exact separatesWords_getLast?_append hend gap.separatesWords_getLast?
      obtain ⟨span, hround⟩ := exists_enumRound d (fun h => hbehind gap h.of_before) hword
        (laidOut text pieces ++ last.val) after
      have hpassed : separatesWords (before ++ (filler ++ gap.val ++ d.text)).getLast? = true := by
        rw [← List.append_assoc, getLast?_enumText]
        decide
      obtain ⟨later, hlater, hitems, hproblems⟩ :=
        isReadBy.exists_collect_laidOut pieces last after hpassed
      have hforward : (amid (before ++ (filler ++ gap.val ++ d.text))
            (laidOut text pieces ++ last.val) after).remaining <
          (amid before (filler ++ gap.val ++ (d.text ++ (laidOut text pieces ++ last.val)))
            after).remaining :=
        remaining_amid_lt (by simp) (by simp [isReadBy.text_ne_nil d])
      have htext : filler ++ (laidOut text ((gap, d) :: pieces) ++ last.val) =
          filler ++ gap.val ++ (d.text ++ (laidOut text pieces ++ last.val)) := by
        simp [laidOut]
      rw [htext]
      refine ⟨_, collect_of_found hround hforward hlater, ?_, ?_⟩
      · rw [Findings.items_append, List.map_append, hitems]
        rfl
      · rw [Findings.problems_append, hproblems]
        rfl

end EnumText

end HeaderBindings.Header
