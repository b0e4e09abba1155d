import HeaderBindings.Header.Functions
import HeaderBindings.Proofs.Header.Cursor
import HeaderBindings.Proofs.Header.Head

/-! # Rounds over well-formed text

One round over the text of a function or of a namespace block. Neither what stands before the
text nor what stands behind it matters, as long as the keyword is found. -/

namespace HeaderBindings.Header

open List Text Cursor

/-- A function from its head, its parameter list, the space behind that list and the inside of
its body. -/
def functionText (head list space inside : Text) : Text :=
  "static".toList ++ (head ++ '(' :: (list ++ ')' :: (space ++ '{' :: (inside ++ ['}']))))

/-- A namespace block from its scope and its inside. -/
def namespaceText (scope inside : Text) : Text :=
  "namespace".toList ++ ([' '] ++ (scope ++ ([' '] ++ '{' :: (inside ++ ['}']))))

/-- Every mark that ends a head is also one that opens or closes something, or a semicolon. -/
def IsHead (head : Text) : Prop := ∀ c ∈ head, c ∉ ['(', ';', '{', '}', ')']

variable {scope before gap head list space inside rest after result name : Text}

/-! ## Functions -/

theorem functionRound_gap (scope : Text) (hgap : IsGap gap) (before after : Text) :
    functionRound scope (amid before gap after) = .ok .finished := by
  unfold functionRound
  rw [passKeyword_amid_gap rfl hgap]
  rfl

theorem upToAny_head (hhead : IsHead head) (rest : Text) :
    upToTarget? ['(', ';', '{', '}'] 0 (head ++ '(' :: rest) = some (head, '(') := by
  refine upToTarget?_append (by decide) ?_ rest
  intro c hc
  have h := hhead c hc
  simp only [List.mem_cons, List.not_mem_nil, or_false, not_or] at h ⊢
  exact ⟨⟨h.1, h.2.1, h.2.2.1, h.2.2.2.1⟩, h.2.2.1, h.1, h.2.2.2.1, h.2.2.2.2⟩

/-- A round reads the function behind the gap and stops right behind it. -/
theorem functionRound_functionText (scope : Text) (hgap : IsGap gap)
    (hbefore : separatesWords (gap.getLast?.or before.getLast?) = true) (hhead : IsHead head)
    (hword : separatesWords (head ++ ['(']).head? = true)
    (hsignature : signature? head = .ok (some (result, name)))
    (hlist : Balanced '(' ')' list) (hspace : ∀ c ∈ space, isBlank c = true)
    (hinside : Balanced '{' '}' inside) (rest after : Text) :
    functionRound scope (amid before (gap ++ functionText head list space inside ++ rest) after) =
      .ok (.found
        (.item ⟨scope, result, name, parameters list, .between (size before + size gap)
          (size before + size gap + size (functionText head list space inside))⟩)
        (amid (before ++ gap ++ functionText head list space inside) rest after)) := by
  have htext : gap ++ functionText head list space inside ++ rest =
      gap ++ ("static".toList ++ (head ++ '(' :: (list ++
        ')' :: (space ++ '{' :: (inside ++ '}' :: rest))))) := by
    unfold functionText
    simp only [List.append_assoc, List.cons_append, List.nil_append]
  have hread : before ++ gap ++ "static".toList ++ head ++ '(' :: (list ++ [')']) ++ space ++
      '{' :: (inside ++ ['}']) = before ++ gap ++ functionText head list space inside := by
    unfold functionText
    simp only [List.append_assoc, List.cons_append, List.nil_append]
  have hkeyword : separatesWords (head ++ '(' :: (list ++
      ')' :: (space ++ '{' :: (inside ++ '}' :: rest)))).head? = true := by
    cases head with
    | nil => exact hword
    | cons c head => exact hword
  have hbrace : ∀ c ∈ ('{' :: (inside ++ '}' :: rest)).head?, isBlank c = false := by
    simp only [List.head?_cons, Option.mem_def, Option.some.injEq, forall_eq']
    decide
  unfold functionRound
  rw [htext, passKeyword_amid_of_gap rfl hgap hbefore hkeyword, ok_bind]
  simp only
  rw [upToAny_amid (upToAny_head hhead _), ok_bind]
  simp only
  rw [pos_amid, slice_amid, ok_bind, hsignature, ok_bind]
  simp only
  rw [block_amid (by decide) hlist, ok_bind]
  simp only
  rw [skipBlanks_amid hspace hbrace, ok_bind, peek_amid, ok_bind, List.head?_cons,
    if_neg (by simp), block_amid (by decide) hinside, ok_bind]
  simp only
  rw [slice_eq_ok (before ++ gap ++ "static".toList ++ head ++ ['(']) list
      (')' :: (space ++ '{' :: (inside ++ '}' :: rest ++ after))) (by simp) (by simp; rfl)
      (by simp; rfl),
    ok_bind, pos_amid, hread, size_append, size_append]
  rfl

/-! ## Namespace blocks -/

theorem namespaceRound_gap (hgap : IsGap gap) (before after : Text) :
    namespaceRound (amid before gap after) = .ok .finished := by
  unfold namespaceRound
  rw [passKeyword_amid_gap rfl hgap]
  rfl

/-- A round reads the functions of the block behind the gap and stops right behind it. -/
theorem namespaceRound_namespaceText {found : Findings NativeFunction} (hgap : IsGap gap)
    (hbefore : separatesWords (gap.getLast?.or before.getLast?) = true) (hscope : IsName scope)
    (hinside : Balanced '{' '}' inside)
    (hfound : collect (functionRound scope)
      (amid (before ++ gap ++ "namespace".toList ++ [' '] ++ scope ++ [' '] ++ ['{']) inside
        ('}' :: (rest ++ after))) = .ok found) :
    namespaceRound (amid before (gap ++ namespaceText scope inside ++ rest) after) =
      .ok (.found found (amid (before ++ gap ++ namespaceText scope inside) rest after)) := by
  have htext : gap ++ namespaceText scope inside ++ rest = gap ++ ("namespace".toList ++
      ([' '] ++ (scope ++ ([' '] ++ '{' :: (inside ++ '}' :: rest))))) := by
    unfold namespaceText
    simp only [List.append_assoc, List.cons_append, List.nil_append]
  have hread : before ++ gap ++ "namespace".toList ++ [' '] ++ scope ++ [' '] ++
      '{' :: (inside ++ ['}']) = before ++ gap ++ namespaceText scope inside := by
    unfold namespaceText
    simp only [List.append_assoc, List.cons_append, List.nil_append]
  have hname : ∀ c ∈ (scope ++ ([' '] ++ '{' :: (inside ++ '}' :: rest))).head?,
      isBlank c = false := by
    intro c hc
    rw [List.head?_append_of_ne_nil _ hscope.ne_nil] at hc
    exact hscope.isBlank_of_mem (List.mem_of_head? hc)
  have hend : ∀ c ∈ ([' '] ++ '{' :: (inside ++ '}' :: rest)).head?, isNameChar c = false := by
    simp only [List.singleton_append, List.head?_cons, Option.mem_def, Option.some.injEq,
      forall_eq']
    decide
  have hbrace : ∀ c ∈ ('{' :: (inside ++ '}' :: rest)).head?, isBlank c = false := by
    simp only [List.head?_cons, Option.mem_def, Option.some.injEq, forall_eq']
    decide
  unfold namespaceRound
  rw [htext, passKeyword_amid_of_gap rfl hgap hbefore rfl, ok_bind]
  simp only
  rw [skipBlanks_amid forall_isBlank_singleton hname, ok_bind,
    name_amid hscope.ne_nil hscope.isNameChar hend, ok_bind]
  simp only
  rw [skipBlanks_amid forall_isBlank_singleton hbrace, ok_bind, block_amid (by decide) hinside,
    ok_bind]
  simp only
  rw [inside_amid (by decide), hfound, ok_bind, hread]
  rfl

end HeaderBindings.Header
