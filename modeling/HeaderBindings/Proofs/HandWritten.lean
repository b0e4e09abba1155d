import HeaderBindings.Proofs.Exclusion

/-! # Mentions of natives

A source mentions `scope::function` where the scope starts a word and the function reaches to the
end of its run of name characters. Reading from left to right consumes a mention whole, so of two
mentions that overlap the second is lost; they overlap where the function of one is the scope of
the other. Every other mention is collected, and its native is left out. -/

namespace HeaderBindings

open List Text

/-! ## Mentions -/

/-- A capital followed by capitals, digits and underscores. -/
structure IsScope (t : Text) : Prop where
  starts : t.head?.any Char.isUpper = true
  isScopeChar : ∀ c ∈ t, HeaderBindings.isScopeChar c = true

instance (t : Text) : Decidable (IsScope t) :=
  decidable_of_iff (_ ∧ t.all isScopeChar = true)
    ⟨fun h => ⟨h.1, List.all_eq_true.mp h.2⟩,
      fun h => ⟨h.starts, List.all_eq_true.mpr h.isScopeChar⟩⟩

/-- A place where a text behind `before?` mentions a native. -/
structure Mention (before? : Option Char) (t : Text) where
  front : Text
  scope : Text
  function : Text
  back : Text
  text_eq : t = front ++ (scope ++ "::" ++ function ++ back)
  isScope : IsScope scope
  isName : Header.IsName function
  starts : (front.getLast?.or before?).any isWordChar = false
  ends : back.head?.any isNameChar = false

variable {before? : Option Char} {t : Text}

namespace Mention

/-- The qualified name that is mentioned. -/
def name (m : Mention before? t) : Text := m.scope ++ "::" ++ m.function

/-- The function of the outer mention is the scope of the other. -/
def Qualifies (outer m : Mention before? t) : Prop :=
  m.front = outer.front ++ (outer.scope ++ "::")

/-- A mention in the text behind a part. -/
def behind {part : Text} (hne : part ≠ []) (m : Mention part.getLast? t) :
    Mention before? (part ++ t) where
  front := part ++ m.front
  scope := m.scope
  function := m.function
  back := m.back
  text_eq := by
    conv_lhs => rw [m.text_eq]
    exact (List.append_assoc part m.front _).symm
  isScope := m.isScope
  isName := m.isName
  starts := by
    rw [getLast?_append_or hne]
    exact m.starts
  ends := m.ends

theorem exists_behind_eq {part : Text} (hne : part ≠ []) (m : Mention before? (part ++ t))
    (h : part <+: m.front) : ∃ tail : Mention part.getLast? t, tail.behind hne = m := by
  obtain ⟨front, scope, function, back, htext, hscope, hname, hstarts, hends⟩ := m
  obtain ⟨front, rfl⟩ := h
  rw [List.append_assoc] at htext
  rw [getLast?_append_or hne] at hstarts
  exact ⟨⟨front, scope, function, back, List.append_cancel_left htext, hscope, hname, hstarts,
    hends⟩, rfl⟩

theorem Qualifies.behind {part : Text} (hne : part ≠ []) {outer m : Mention part.getLast? t}
    (h : outer.Qualifies m) :
    (outer.behind hne : Mention before? (part ++ t)).Qualifies (m.behind hne) :=
  (congrArg (part ++ ·) h).trans (List.append_assoc part outer.front _).symm

theorem Qualifies.suffix {outer m : Mention before? t} (h : outer.Qualifies m) :
    "::".toList <:+ m.front :=
  ⟨outer.front ++ outer.scope, by rw [h, List.append_assoc]⟩

/-- Reading from left to right collects the mention or the one that qualifies it. -/
def Collected (m : Mention before? t) : Prop :=
  m.name ∈ mentions before? t ∨
    ∃ outer : Mention before? t, outer.Qualifies m ∧ outer.name ∈ mentions before? t

end Mention

theorem isNameChar_of_isScopeChar {c : Char} (h : isScopeChar c = true) : isNameChar c = true := by
  simp only [isScopeChar, Bool.or_eq_true] at h
  rcases h with (h | h) | h
  · have halpha : c.isAlpha = true := by
      change (c.isUpper || c.isLower) = true
      rw [h, Bool.true_or]
    simp [isNameChar, Char.isAlphanum, halpha]
  · simp [isNameChar, Char.isAlphanum, h]
  · simp [isNameChar, h]

theorem isScopeChar_of_isUpper {c : Char} (h : c.isUpper = true) : isScopeChar c = true := by
  simp [isScopeChar, h]

/-! ## A mention at the start -/

theorem mentionAtStart?_of_isScope {scope function after : Text} (hscope : IsScope scope)
    (hname : Header.IsName function) (hafter : after.head?.any isNameChar = false) :
    mentionAtStart? (scope ++ "::" ++ function ++ after) =
      some (scope ++ "::" ++ function, after) := by
  cases scope with
  | nil => exact absurd hscope.starts (by simp)
  | cons c scope =>
      have hupper : c.isUpper = true := hscope.starts
      have htail : ∀ d ∈ scope, isScopeChar d = true := fun d hd =>
        hscope.isScopeChar d (by simp [hd])
      have hcolon : ∀ d ∈ (':' :: ':' :: (function ++ after)).head?, isScopeChar d = false := by
        simp only [List.head?_cons, Option.mem_def, Option.some.injEq, forall_eq']
        decide
      have htext : c :: scope ++ "::".toList ++ function ++ after =
          c :: (scope ++ ':' :: ':' :: (function ++ after)) := by
        simp
      rw [htext, mentionAtStart?, if_pos hupper, dropWhile_append_of_head? htail hcolon,
        takeWhile_append_of_head? htail hcolon]
      simp only
      rw [takeWhile_append_of_head? hname.isNameChar (eq_false_of_any_eq_false hafter),
        dropWhile_append_of_head? hname.isNameChar (eq_false_of_any_eq_false hafter),
        if_neg (by simpa using hname.ne_nil)]

theorem exists_of_mentionAtStart? {found after : Text}
    (h : mentionAtStart? t = some (found, after)) :
    ∃ scope function, IsScope scope ∧ Header.IsName function ∧
      after.head?.any isNameChar = false ∧ found = scope ++ "::" ++ function ∧
      t = found ++ after := by
  cases t with
  | nil => exact absurd h (by simp [mentionAtStart?])
  | cons c rest =>
      rw [mentionAtStart?] at h
      split at h
      next hupper =>
        split at h
        next tail htail =>
          simp only at h
          split at h
          next => exact absurd h (by simp)
          next hne =>
            cases h
            refine ⟨c :: rest.takeWhile isScopeChar, tail.takeWhile isNameChar, ⟨hupper, ?_⟩,
              ⟨by simpa using hne, ?_⟩, ?_, rfl, ?_⟩
            · intro d hd
              rcases List.mem_cons.mp hd with rfl | hd
              · exact isScopeChar_of_isUpper hupper
              · exact List.mem_takeWhile_imp hd
            · intro d hd
              exact List.mem_takeWhile_imp hd
            · cases hhead : (tail.dropWhile isNameChar).head? with
              | none => rfl
              | some d => exact eq_false_of_mem_head?_dropWhile hhead
            · have hrest : rest = rest.takeWhile isScopeChar ++ (':' :: ':' ::
                  (tail.takeWhile isNameChar ++ tail.dropWhile isNameChar)) := by
                rw [List.takeWhile_append_dropWhile, ← htail, List.takeWhile_append_dropWhile]
              conv_lhs => rw [hrest]
              simp
        next => exact absurd h (by simp)
      next => exact absurd h (by simp)

/-! ## Reading from left to right -/

theorem mentions_of_eq_some {found after : Text} (hbefore : before?.any isWordChar = false)
    (h : mentionAtStart? t = some (found, after)) :
    mentions before? t = found :: mentions found.getLast? after := by
  cases t with
  | nil => exact absurd h (by simp [mentionAtStart?])
  | cons c rest =>
      rw [mentions]
      split
      next found' after' hfound =>
        rw [hbefore, if_neg (by simp), h] at hfound
        cases hfound
        rfl
      next hnone =>
        rw [hbefore, if_neg (by simp), h] at hnone
        cases hnone

theorem mentions_cons {c : Char} {rest : Text}
    (h : before?.any isWordChar = true ∨ mentionAtStart? (c :: rest) = none) :
    mentions before? (c :: rest) = mentions (some c) rest := by
  rw [mentions]
  split
  next found after hfound =>
    rcases h with h | h
    · rw [h, if_pos rfl] at hfound
      cases hfound
    · rw [h, ite_self] at hfound
      cases hfound
  next => rfl

/-! ## Mentions that overlap -/

theorem not_forall_isNameChar {front run : Text} (hlast : front.getLast?.any isWordChar = false)
    (hrun : run <:+ front) (hne : run ≠ []) : ¬ ∀ c ∈ run, isNameChar c = true := by
  intro hname
  obtain ⟨before, rfl⟩ := hrun
  rw [List.getLast?_append_of_ne_nil before hne, List.getLast?_eq_some_getLast hne,
    Option.any_some, isWordChar_of_isNameChar (hname _ (List.getLast_mem hne))] at hlast
  cases hlast

/-- A mention that starts within another one starts behind its colons. -/
theorem eq_scope_of_append_eq {scope function front back rest : Text} {c : Char}
    (hscope : ∀ d ∈ scope, isNameChar d = true) (hfunction : ∀ d ∈ function, isNameChar d = true)
    (hc : isNameChar c = true) (hne : front ≠ [])
    (hlast : front.getLast?.any isWordChar = false)
    (hshort : front.length < (scope ++ "::" ++ function).length)
    (h : scope ++ "::" ++ function ++ back = front ++ c :: rest) : front = scope ++ "::" := by
  have hcolon : isNameChar ':' = false := by decide
  rw [show scope ++ "::".toList ++ function ++ back = scope ++ (':' :: ':' :: (function ++ back)) by
    simp] at h
  rcases List.append_eq_append_iff.mp h with ⟨part, rfl, hpart⟩ | ⟨part, rfl, -⟩
  · match part, hpart with
    | [], hpart =>
        rw [List.append_nil] at hlast hne
        exact absurd hscope (not_forall_isNameChar hlast List.suffix_rfl hne)
    | [_], hpart =>
        obtain ⟨-, rfl, -⟩ : _ ∧ ':' = c ∧ _ := by simpa using hpart
        rw [hcolon] at hc
        cases hc
    | _ :: _ :: part, hpart =>
        obtain ⟨rfl, rfl, htail⟩ : ':' = _ ∧ ':' = _ ∧ function ++ back = part ++ c :: rest := by
          simpa using hpart
        by_cases hnil : part = []
        · rw [hnil]
          rfl
        · have hbegins : part <+: function := by
            refine List.prefix_of_prefix_length_le ⟨_, htail.symm⟩ ⟨_, rfl⟩ ?_
            simp only [List.length_append, List.length_cons] at hshort
            have hcolons : ("::".toList).length = 2 := rfl
            omega
          have hsuffix : part <:+ scope ++ ':' :: ':' :: part := ⟨scope ++ [':', ':'], by simp⟩
          refine absurd ?_ (not_forall_isNameChar hlast hsuffix hnil)
          intro d hd
          exact hfunction d (hbegins.subset hd)
  · refine absurd ?_ (not_forall_isNameChar hlast List.suffix_rfl hne)
    intro d hd
    exact hscope d (List.mem_append_left _ hd)

namespace Mention

theorem Collected.behind {part : Text} (hne : part ≠ []) {m : Mention part.getLast? t}
    (h : m.Collected) (hmem : mentions part.getLast? t ⊆ mentions before? (part ++ t)) :
    (m.behind hne : Mention before? (part ++ t)).Collected := by
  rcases h with h | ⟨outer, hqualifies, h⟩
  · exact .inl (hmem h)
  · exact .inr ⟨outer.behind hne, hqualifies.behind hne, hmem h⟩

theorem isUpper_of_isScope {scope : Text} (h : IsScope scope) :
    ∃ c rest, scope = c :: rest ∧ c.isUpper = true := by
  cases scope with
  | nil => exact absurd h.starts (by simp)
  | cons c rest => exact ⟨c, rest, rfl, h.starts⟩

theorem collected_of_front_eq_nil (m : Mention before? t) (h : m.front = []) : m.Collected := by
  have htext : t = m.scope ++ "::" ++ m.function ++ m.back := by
    have htext := m.text_eq
    rwa [h, List.nil_append] at htext
  have hbefore : before?.any isWordChar = false := by
    have hstarts := m.starts
    rwa [h] at hstarts
  have hfound : mentionAtStart? t = some (m.name, m.back) := by
    conv_lhs => rw [htext]
    exact mentionAtStart?_of_isScope m.isScope m.isName m.ends
  refine .inl ?_
  rw [mentions_of_eq_some hbefore hfound]
  exact List.mem_cons_self

/-- A mention within the one at the start of the text is qualified by it. -/
theorem collected_of_not_prefix {found after : Text} (hbefore : before?.any isWordChar = false)
    (hfound : mentionAtStart? t = some (found, after)) (m : Mention before? t)
    (hne : m.front ≠ []) (h : ¬ found <+: m.front) : m.Collected := by
  obtain ⟨scope, function, hscope, hname, hafter, rfl, htext⟩ := exists_of_mentionAtStart? hfound
  obtain ⟨c, rest, hc, hupper⟩ := isUpper_of_isScope m.isScope
  have hsplit : scope ++ "::" ++ function ++ after =
      m.front ++ c :: (rest ++ "::" ++ m.function ++ m.back) := by
    rw [← htext]
    conv_lhs => rw [m.text_eq, hc]
    simp
  have hshort : m.front.length < (scope ++ "::" ++ function).length := by
    by_contra hlong
    exact h (List.prefix_of_prefix_length_le ⟨_, rfl⟩ ⟨_, hsplit.symm⟩ (by omega))
  have hlast : m.front.getLast?.any isWordChar = false := by
    have hstarts := m.starts
    rw [List.getLast?_eq_some_getLast hne] at hstarts ⊢
    exact hstarts
  refine .inr ⟨⟨[], scope, function, after, htext, hscope, hname, hbefore, hafter⟩, ?_, ?_⟩
  · exact eq_scope_of_append_eq (fun d hd => isNameChar_of_isScopeChar (hscope.isScopeChar d hd))
      hname.isNameChar (isNameChar_of_isScopeChar (isScopeChar_of_isUpper hupper)) hne hlast
      hshort hsplit
  · rw [mentions_of_eq_some hbefore hfound]
    exact List.mem_cons_self

theorem collected (m : Mention before? t) : m.Collected := by
  induction hlength : t.length using Nat.strong_induction_on generalizing before? t with
  | _ length ih =>
    by_cases hnil : m.front = []
    · exact collected_of_front_eq_nil m hnil
    by_cases hstart : before?.any isWordChar = true ∨ mentionAtStart? t = none
    · cases t with
      | nil => exact absurd m.text_eq (by simp)
      | cons c rest =>
          have hc : [c] <+: m.front := by
            refine List.prefix_of_prefix_length_le ⟨rest, rfl⟩ ⟨_, m.text_eq.symm⟩ ?_
            exact List.length_pos_of_ne_nil hnil
          obtain ⟨tail, rfl⟩ := exists_behind_eq (List.cons_ne_nil c []) m hc
          refine (ih rest.length (by simp [← hlength]) tail rfl).behind _ ?_
          rw [List.singleton_append, mentions_cons hstart]
          exact List.Subset.refl _
    · rw [not_or, Bool.not_eq_true] at hstart
      obtain ⟨hbefore, hsome⟩ := hstart
      obtain ⟨⟨found, after⟩, hfound⟩ := Option.ne_none_iff_exists'.mp hsome
      by_cases hbegins : found <+: m.front
      · obtain ⟨-, -, -, -, -, -, rfl⟩ := exists_of_mentionAtStart? hfound
        have hne : found ≠ [] := by
          rintro rfl
          exact absurd (length_of_mentionAtStart? hfound) (by simp)
        obtain ⟨tail, rfl⟩ := exists_behind_eq hne m hbegins
        have hless : after.length < length := hlength ▸ length_of_mentionAtStart? hfound
        refine (ih after.length hless tail rfl).behind hne ?_
        rw [mentions_of_eq_some hbefore hfound]
        exact List.subset_cons_self _ _
      · exact collected_of_not_prefix hbefore hfound m hnil hbegins

end Mention

/-! ## The set of names -/

namespace HandWritten

theorem mem_names_insert_iff {name added : Text} {o : HandWritten} :
    name ∈ (o.insert added).names ↔ name = added ∨ name ∈ o.names :=
  Keyed.mem_insert_id_iff

theorem mem_names_addMentions_iff {source name : Text} {o : HandWritten} :
    name ∈ (o.addMentions source).names ↔ name ∈ mentions none source ∨ name ∈ o.names := by
  rw [addMentions]
  induction mentions none source generalizing o with
  | nil => simp
  | cons found rest ih =>
      rw [List.foldl_cons, ih, mem_names_insert_iff, List.mem_cons]
      tauto

theorem mem_names_foldl_addMentions_iff {name : Text} {sources : List Text} {o : HandWritten} :
    name ∈ (sources.foldl (fun set source => addMentions source set) o).names ↔
      (∃ source ∈ sources, name ∈ mentions none source) ∨ name ∈ o.names := by
  induction sources generalizing o with
  | nil => simp
  | cons source sources ih =>
      rw [List.foldl_cons, ih, mem_names_addMentions_iff, List.exists_mem_cons_iff, or_left_comm,
        or_assoc]

end HandWritten

open Binding in
/-- A declaration whose qualified name was collected is left out of the generated code. -/
theorem MemberPolicy.not_bound_of_mem_names {policy : MemberPolicy} {mapping : TypeMapping}
    {functions : List NativeFunction} {name : Text} (h : name ∈ policy.handWritten.names) :
    let bindings := nativeBindings mapping (policy.classify functions)
    name ∉ bindings.lambdas.map (·.native) ∧ name ∉ bindings.code.failed := by
  have hverdict : ∀ d : NativeFunction, d.qualifiedName = name → ∀ m, policy.member d ≠ .ok m := by
    rintro d rfl m hm
    have hnone := omission?_eq_none_of_member_eq_ok hm
    rw [omission?, NameFilter.omission?_of_mem h] at hnone
    cases hnone
  constructor
  · intro hmem
    obtain ⟨call, hcall, rfl⟩ := List.mem_map.mp hmem
    obtain ⟨m, -, hm, hname⟩ := exists_function_of_mem_lambdas hcall
    exact hverdict m.function hname m hm
  · intro hmem
    obtain ⟨m, hfailed, rfl⟩ := List.mem_map.mp hmem
    obtain ⟨-, hm⟩ := exists_function_of_mem_failed hfailed
    exact hverdict m.function rfl m hm

open Binding in
/-- A mention that no other one qualifies is collected, whichever sources are read before and
after, and no declaration of its name is generated. -/
theorem omitted_of_not_qualified {source : Text} (m : Mention none source)
    (halone : ∀ outer : Mention none source, ¬ outer.Qualifies m) {sources : List Text}
    (hsource : source ∈ sources) :
    let set := sources.foldl (fun set source => HandWritten.addMentions source set) {}
    set.contains m.name = true ∧
      ∀ (policy : MemberPolicy) (mapping : TypeMapping) (functions : List NativeFunction),
        policy.handWritten = set →
          let bindings := nativeBindings mapping (policy.classify functions)
          m.name ∉ bindings.lambdas.map (·.native) ∧ m.name ∉ bindings.code.failed := by
  intro set
  have hmem : m.name ∈ set.names := by
    refine HandWritten.mem_names_foldl_addMentions_iff.mpr (.inl ⟨source, hsource, ?_⟩)
    rcases m.collected with h | ⟨outer, hqualifies, -⟩
    · exact h
    · exact absurd hqualifies (halone outer)
  refine ⟨NameFilter.contains_iff.mpr hmem, ?_⟩
  intro policy mapping functions hpolicy
  apply MemberPolicy.not_bound_of_mem_names
  rw [hpolicy]
  exact hmem

theorem omitted_position :
    let source : Text := "return ENTITY::POSITION(p);"
    let set := [source].foldl (fun set source => HandWritten.addMentions source set) {}
    set.contains "ENTITY::POSITION" = true ∧
      ∀ (policy : MemberPolicy) (mapping : TypeMapping) (functions : List NativeFunction),
        policy.handWritten = set →
          let bindings := Binding.nativeBindings mapping (policy.classify functions)
          "ENTITY::POSITION".toList ∉ bindings.lambdas.map (·.native) ∧
            "ENTITY::POSITION".toList ∉ bindings.code.failed :=
  let m : Mention none "return ENTITY::POSITION(p);" :=
    ⟨"return ", "ENTITY", "POSITION", "(p);", by decide,
      ⟨by decide, List.all_eq_true.mp (by decide)⟩, by decide, by decide, by decide⟩
  have halone : ∀ outer : Mention none "return ENTITY::POSITION(p);", ¬ outer.Qualifies m := by
    intro outer h
    exact absurd (h.suffix : "::".toList <:+ "return ".toList) (by decide)
  omitted_of_not_qualified m halone List.mem_cons_self

/-- Of two mentions where one qualifies the other, the second is lost. -/
theorem exists_mention_not_collected :
    ∃ m : Mention none "NATIVE::PED::IS_PED_ARMED(ped, 7);",
      m.name = "PED::IS_PED_ARMED" ∧
        (HandWritten.addMentions "NATIVE::PED::IS_PED_ARMED(ped, 7);" {}).contains m.name =
          false := by
  refine ⟨⟨"NATIVE::", "PED", "IS_PED_ARMED", "(ped, 7);", by decide,
    ⟨by decide, List.all_eq_true.mp (by decide)⟩, by decide, by decide +kernel, by decide⟩, rfl, ?_⟩
  decide +kernel

end HeaderBindings
