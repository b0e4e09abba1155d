import HeaderBindings.Proofs.Header.Comment
import HeaderBindings.Proofs.Header.Findings
import HeaderBindings.Proofs.Header.Rounds

/-! # Reading back a printed header

Headers are printed as namespace blocks of function definitions on one line each. Reading a
printed header gives back its definitions in order, whatever their bodies hold, as long as the
braces of a body balance and no comment starts in it. -/

namespace HeaderBindings.Header

open List Text

/-! ## Printing -/

/-- A function definition that can be printed. -/
structure Definition where
  result : Text
  name : Text
  params : List Parameter
  body : Text
  isType_result : IsType result
  isName_name : IsName name
  isDigit_name : ∀ c ∈ name.head?, c.isDigit = false
  isParameter : ∀ p ∈ params, IsParameter p
  balanced : Balanced '{' '}' body
  commentFree : CommentFree body

/-- A namespace block of such definitions. -/
structure Block where
  scope : Text
  definitions : List Definition
  isName_scope : IsName scope

/-- A function without its place. -/
def unplaced (d : NativeFunction) : NativeFunction := { d with span := ⟨0, 0⟩ }

namespace Definition

/-- What stands between the keyword and the parameter list. -/
def head (d : Definition) : Text := ' ' :: (d.result ++ ' ' :: d.name)

/-- What stands between the braces. -/
def inside (d : Definition) : Text := ' ' :: (d.body ++ [' '])

/-- `static RET NAME(T1 n1, T2 n2) { BODY }`. -/
def text (d : Definition) : Text :=
  functionText d.head (parameterListText d.params) [' '] d.inside

/-- What is read from the definition in a namespace block, up to its place. -/
def declared (scope : Text) (d : Definition) : NativeFunction :=
  ⟨scope, d.result, d.name, d.params, ⟨0, 0⟩⟩

end Definition

namespace Block

/-- The definitions of a block, each behind a blank, and a last blank. -/
def inside (b : Block) : Text := b.definitions.flatMap (fun d => ' ' :: d.text) ++ [' ']

/-- `namespace NS { … }`. -/
def text (b : Block) : Text := namespaceText b.scope b.inside

/-- What is read from the block, up to the places. -/
def declared (b : Block) : List NativeFunction := b.definitions.map (·.declared b.scope)

end Block

/-- A header of one block a line. -/
def headerText (blocks : List Block) : Text := blocks.flatMap fun b => b.text ++ ['\n']

/-! ## Printed text is balanced and free of comments -/

theorem balanced_blank : Balanced '{' '}' [' '] := balanced_of_forall_ne (by simp)

namespace Definition

variable (d : Definition)

theorem balanced_inside : Balanced '{' '}' d.inside :=
  (balanced_blank.append d.balanced).append balanced_blank

theorem balanced_parameterListText : Balanced '(' ')' (parameterListText d.params) :=
  balanced_of_forall_ne fun _ hc =>
    ⟨parameterListText_chars d.isParameter hc (by decide) (by decide),
      parameterListText_chars d.isParameter hc (by decide) (by decide)⟩

theorem head_chars {c e : Char} (hc : c ∈ d.head) (he : Text.isNameChar e = false)
    (he' : e ∉ [' ', '*', '&']) : c ≠ e := by
  rw [head, List.mem_cons, List.mem_append, List.mem_cons] at hc
  rcases hc with rfl | hc | rfl | hc
  · rintro rfl
    simp at he'
  · exact d.isType_result.ne_of_mem hc he he'
  · rintro rfl
    simp at he'
  · exact d.isName_name.ne_of_mem hc he

theorem signature?_head : signature? d.head = .ok (some (d.result, d.name)) :=
  signature?_type_name d.isType_result d.isName_name d.isDigit_name

theorem isHead_head : IsHead d.head := by
  intro c hc
  simp only [List.mem_cons, List.not_mem_nil, or_false, not_or]
  refine ⟨?_, ?_, ?_, ?_, ?_⟩ <;>
    exact d.head_chars hc (by decide) (by decide)

theorem front_chars {c e : Char}
    (hc : c ∈ "static".toList ++ d.head ++ '(' :: (parameterListText d.params ++ [')', ' ']))
    (he : Text.isNameChar e = false) (he' : e ∉ [' ', '*', '&', ',', '(', ')']) : c ≠ e := by
  have hhead : e ∉ [' ', '*', '&'] := fun hmem => he' (by simp_all)
  have hlist : e ∉ [' ', '*', '&', ','] := fun hmem => he' (by simp_all)
  rcases List.mem_append.mp hc with hc | hc
  · rcases List.mem_append.mp hc with hc | hc
    · exact ne_of_isNameChar (List.all_eq_true.mp (by decide) c hc) he
    · exact d.head_chars hc he hhead
  · rw [List.mem_cons, List.mem_append] at hc
    rcases hc with rfl | hc | hc
    · rintro rfl
      simp at he'
    · exact parameterListText_chars d.isParameter hc he hlist
    · rintro rfl
      exact he' (by simp_all)

theorem text_eq_front_append : d.text =
    ("static".toList ++ d.head ++ '(' :: (parameterListText d.params ++ [')', ' '])) ++
      ('{' :: d.inside ++ ['}']) := by
  unfold text functionText
  simp only [List.append_assoc, List.cons_append, List.nil_append]

theorem balanced_text : Balanced '{' '}' d.text := by
  rw [text_eq_front_append]
  refine Balanced.append (balanced_of_forall_ne ?_) (d.balanced_inside.enclose (by decide))
  intro c hc
  exact ⟨d.front_chars hc (by decide) (by decide), d.front_chars hc (by decide) (by decide)⟩

theorem getLast?_text : d.text.getLast? = some '}' := by
  rw [text_eq_front_append, ← List.append_assoc, List.getLast?_concat]

theorem commentFree_text : CommentFree d.text := by
  have hfront : CommentFree ("static".toList ++ d.head ++
      '(' :: (parameterListText d.params ++ [')', ' ']) ++ ['{']) := by
    apply commentFree_of_not_mem
    intro hmem
    rcases List.mem_append.mp hmem with hmem | hmem
    · exact d.front_chars hmem (by decide) (by decide) rfl
    · simp at hmem
  have hend := d.commentFree.append_blank (commentFree_singleton '}')
  rw [text_eq_front_append]
  simpa [inside] using hfront.append_blank hend

end Definition

namespace Block

variable (b : Block)

theorem balanced_inside : Balanced '{' '}' b.inside :=
  (Balanced.flatMap fun d _ => balanced_blank.append d.balanced_text).append balanced_blank

theorem text_eq_front_append : b.text = "namespace".toList ++ [' '] ++ b.scope ++ [' ', '{'] ++
    b.definitions.flatMap (fun d => ' ' :: d.text) ++ ' ' :: ['}'] := by
  unfold text inside namespaceText
  simp only [List.append_assoc, List.cons_append, List.nil_append]

theorem slash_not_mem_front : '/' ∉ "namespace".toList ++ [' '] ++ b.scope ++ [' ', '{'] := by
  intro hmem
  rcases List.mem_append.mp hmem with hmem | hmem
  · rcases List.mem_append.mp hmem with hmem | hmem
    · revert hmem
      decide
    · exact b.isName_scope.ne_of_mem hmem (by decide) rfl
  · revert hmem
    decide

theorem commentFree_text : CommentFree b.text := by
  have hinside : CommentFree (b.definitions.flatMap fun d => ' ' :: d.text) := by
    apply CommentFree.flatMap
    · intro d _
      exact commentFree_nil.append_blank d.commentFree_text
    · intro d _ hslash
      rw [List.getLast?_cons, d.getLast?_text] at hslash
      exact absurd (Option.some.inj hslash) (by decide)
  have hfront := (commentFree_of_not_mem b.slash_not_mem_front).append hinside fun hslash =>
    absurd (List.mem_of_getLast? hslash) b.slash_not_mem_front
  rw [text_eq_front_append]
  exact hfront.append_blank (commentFree_singleton '}')

end Block

/-- A printed header is read as it stands. -/
theorem blankComments_headerText (blocks : List Block) :
    blankComments (headerText blocks) = headerText blocks := by
  rw [headerText]
  refine blankComments_of_commentFree (CommentFree.flatMap ?_ ?_)
  · intro b _
    exact b.commentFree_text.append (commentFree_singleton '\n') fun _ c hc => by
      rw [← Option.some.inj hc]
      decide
  · intro b _
    rw [List.getLast?_concat]
    decide

/-! ## Rounds -/

theorem functionRound_text (scope : Text) (d : Definition) (before : Text) {gap : Text}
    (hgap : IsGap gap) (hbefore : separatesWords (gap.getLast?.or before.getLast?) = true)
    (rest after : Text) :
    functionRound scope (Cursor.amid before (gap ++ d.text ++ rest) after) =
      .ok (.found
        (.item { d.declared scope with
          span := .between (size before + size gap) (size before + size gap + size d.text) })
        (Cursor.amid (before ++ gap ++ d.text) rest after)) := by
  have hround := functionRound_functionText scope hgap hbefore d.isHead_head rfl
    d.signature?_head d.balanced_parameterListText forall_isBlank_singleton d.balanced_inside
    rest after
  rw [parameters_parameterListText d.isParameter] at hround
  exact hround

/-- The rounds over the definitions of a block find all of them and report nothing. The blank
behind a definition is the gap before the next one. -/
theorem collect_functionRound (scope : Text) (definitions : List Definition)
    (before after : Text) :
    ∃ found, collect (functionRound scope) (Cursor.amid before
        (definitions.flatMap (fun d => ' ' :: d.text) ++ [' ']) after) = .ok found ∧
      found.items.map unplaced = definitions.map (·.declared scope) ∧
      found.problems = [] := by
  have hblank : IsGap [' '] := .of_forall_eq_blank (by simp)
  induction definitions generalizing before with
  | nil => exact ⟨{}, collect_of_finished (functionRound_gap scope hblank before after), rfl, rfl⟩
  | cons d definitions ih =>
      obtain ⟨later, hlater, hitems, hproblems⟩ := ih (before ++ [' '] ++ d.text)
      have hround := functionRound_text scope d before hblank rfl
        (definitions.flatMap (fun d => ' ' :: d.text) ++ [' ']) after
      have htext : (d :: definitions).flatMap (fun d => ' ' :: d.text) ++ [' '] =
          [' '] ++ d.text ++ (definitions.flatMap (fun d => ' ' :: d.text) ++ [' ']) := by
        simp
      rw [htext]
      refine ⟨_, collect_of_found hround ?_ hlater, ?_, ?_⟩
      · simp only [Cursor.remaining_amid, size_append]
        have hpos : 0 < size [' '] := by decide
        omega
      · rw [Findings.items_append, List.map_append, hitems]
        rfl
      · rw [Findings.problems_append, hproblems]
        rfl

theorem namespaceRound_text (b : Block) {before gap : Text} (hgap : IsGap gap)
    (hbefore : separatesWords (gap.getLast?.or before.getLast?) = true) (rest after : Text) :
    ∃ found, namespaceRound (Cursor.amid before (gap ++ b.text ++ rest) after) =
        .ok (.found found (Cursor.amid (before ++ gap ++ b.text) rest after)) ∧
      found.items.map unplaced = b.declared ∧ found.problems = [] := by
  obtain ⟨found, hfound, hitems, hproblems⟩ := collect_functionRound b.scope b.definitions
    (before ++ gap ++ "namespace".toList ++ [' '] ++ b.scope ++ [' '] ++ ['{'])
    ('}' :: (rest ++ after))
  have hround := namespaceRound_namespaceText hgap hbefore b.isName_scope b.balanced_inside hfound
  exact ⟨found, hround, hitems, hproblems⟩

/-- The rounds over the blocks of a header find all of their definitions and report nothing. -/
theorem collect_namespaceRound (blocks : List Block) (before : Text) {gap : Text}
    (hgap : IsGap gap) (hbefore : separatesWords (gap.getLast?.or before.getLast?) = true) :
    ∃ found, collect namespaceRound (Cursor.amid before (gap ++ headerText blocks) []) =
        .ok found ∧
      found.items.map unplaced = blocks.flatMap Block.declared ∧ found.problems = [] := by
  have hline : IsGap ['\n'] := .of_forall_eq_blank (by simp)
  induction blocks generalizing before gap with
  | nil =>
      rw [show gap ++ headerText [] = gap by simp [headerText]]
      exact ⟨{}, collect_of_finished (namespaceRound_gap hgap before []), rfl, rfl⟩
  | cons b blocks ih =>
      have hlast : separatesWords (['\n'].getLast?.or (before ++ gap ++ b.text).getLast?) = true :=
        rfl
      obtain ⟨later, hlater, hitemsLater, hproblemsLater⟩ := ih _ hline hlast
      obtain ⟨found, hround, hitems, hproblems⟩ := namespaceRound_text b hgap hbefore
        (['\n'] ++ headerText blocks) []
      have htext : gap ++ headerText (b :: blocks) =
          gap ++ b.text ++ (['\n'] ++ headerText blocks) := by
        simp [headerText]
      rw [htext]
      refine ⟨found ++ later, collect_of_found hround ?_ hlater, ?_, ?_⟩
      · have hpos : 0 < size b.text := size_pos_of_ne_nil (by simp [b.text_eq_front_append])
        simp only [Cursor.remaining_amid, size_append]
        omega
      · rw [Findings.items_append, List.map_append, hitems, hitemsLater, List.flatMap_cons]
      · rw [Findings.problems_append, hproblems, hproblemsLater]
        rfl

/-- Reading a printed header gives back the definitions of its blocks, in order and without a
report. -/
theorem functionsOf_headerText (blocks : List Block) :
    ∃ found, functionsOf (headerText blocks) = .ok found ∧
      found.items.map unplaced = blocks.flatMap Block.declared ∧ found.diagnostics = [] := by
  have hgap : IsGap [] := .of_forall_eq_blank (by simp)
  obtain ⟨found, hfound, hitems, hproblems⟩ :=
    collect_namespaceRound blocks [] hgap rfl
  refine ⟨found, ?_, hitems, ?_⟩
  · rw [functionsOf, blankComments_headerText, functionsIn, Cursor.ofText_eq_amid]
    exact hfound
  · rw [Findings.diagnostics, hproblems]
    rfl

/-- A body may hold keywords, commas and unmatched parentheses. -/
theorem functionsOf_headerText_getName : ∃ blocks : List Block,
    headerText blocks =
      "namespace ENTITY \x7b static const char* GET_NAME(Hash model, int& length) " ++
        "\x7b namespace \x7b static (b, \x7d \x7d \x7d\nnamespace AUDIO \x7b \x7d\n" ∧
      ∃ found, functionsOf (headerText blocks) = .ok found ∧
        found.items.map unplaced = [⟨"ENTITY", "const char*", "GET_NAME",
          [⟨"Hash", "model"⟩, ⟨"int&", "length"⟩], ⟨0, 0⟩⟩] ∧ found.diagnostics = [] := by
  let d : Definition :=
    { result := "const char*"
      name := "GET_NAME"
      params := [⟨"Hash", "model"⟩, ⟨"int&", "length"⟩]
      body := "namespace \x7b static (b, \x7d"
      isType_result := by decide +kernel
      isName_name := by decide +kernel
      isDigit_name := by simp
      isParameter := by
        intro p hp
        rcases List.mem_pair.mp hp with rfl | rfl <;> exact ⟨by decide +kernel, by decide +kernel⟩
      balanced := by decide +kernel
      commentFree := commentFree_of_not_mem (by decide +kernel) }
  let blocks : List Block := [⟨"ENTITY", [d], by decide⟩, ⟨"AUDIO", [], by decide⟩]
  exact ⟨blocks, by decide +kernel, functionsOf_headerText blocks⟩

end HeaderBindings.Header
