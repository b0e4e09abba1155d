import HeaderBindings.Proofs.Binding.Declarations
import HeaderBindings.Proofs.Mentions

/-! # What registration code mentions

Registration code is put together from lines without mentions and from lines that each call the
natives of one entry. Where the types and names that it spells out hold no colon, it mentions the
natives that its lambdas call, call by call, and nothing else. -/

namespace HeaderBindings

open List Text

/-! ## Texts without colons -/

theorem not_mem_of_isNameChar {t : Text} (h : ∀ c ∈ t, isNameChar c = true) : ':' ∉ t :=
  fun hmem => absurd (h ':' hmem) (by decide)

namespace Binding

/-- A lambda calls a native of a scope, and holds no colons but those of its name. -/
structure Lambda.IsClear (call : Lambda) : Prop where
  exists_native : ∃ scope function, IsScope scope ∧ Header.IsName function ∧
    call.native = scope ++ "::" ++ function
  type_clear : ∀ p ∈ call.params, ':' ∉ p.type
  name_clear : ∀ p ∈ call.params, ':' ∉ p.name
  result_clear : ':' ∉ call.result

/-- The attribute or the type that an entry spells out. -/
def Entry.word : Entry → Text
  | constructor type => type
  | property name _ _ | readonly name _ | setter name _ | method name _ | static name _ => name

/-- An entry spells out no colons but those of the natives that it calls. -/
structure Entry.IsClear (e : Entry) : Prop where
  word_clear : ':' ∉ e.word
  lambdas_clear : ∀ call ∈ e.lambdas, call.IsClear

theorem not_mem_wrapperOf {type : Text} (h : ':' ∉ type) : ':' ∉ wrapperOf type := by
  rw [wrapperOf, List.mem_append, not_or]
  exact ⟨by decide, h⟩

theorem Lambda.IsClear.declaration_clear {call : Lambda} (h : call.IsClear)
    {p : BoundParameter} (hp : p ∈ call.params) : ':' ∉ p.declaration := by
  have htype : ':' ∉ if p.isWrapped then wrapperOf p.type else p.type := by
    split
    · exact not_mem_wrapperOf (h.type_clear p hp)
    · exact h.type_clear p hp
  simp only [BoundParameter.declaration, List.mem_append, not_or]
  exact ⟨⟨htype, by decide⟩, h.name_clear p hp⟩

theorem Lambda.IsClear.argument_clear {call : Lambda} (h : call.IsClear)
    {p : BoundParameter} (hp : p ∈ call.params) : ':' ∉ p.argument := by
  rw [BoundParameter.argument]
  split
  · rw [List.mem_append, not_or]
    exact ⟨h.name_clear p hp, by decide⟩
  · exact h.name_clear p hp

theorem not_mem_intercalate_map {α : Type} {items : List α} {text : α → Text}
    (h : ∀ a ∈ items, ':' ∉ text a) : ':' ∉ [','].intercalate (items.map text) := by
  intro hmem
  rcases mem_intercalate hmem with hseparator | ⟨t, ht, hcolon⟩
  · exact absurd hseparator (by decide)
  · obtain ⟨a, ha, rfl⟩ := List.mem_map.mp ht
    exact h a ha hcolon

/-- The code of a lambda mentions the native that it calls. -/
theorem Lambda.IsClear.yields {call : Lambda} (h : call.IsClear) :
    Yields call.code [call.native] := by
  obtain ⟨scope, function, hscope, hname, hnative⟩ := h.exists_native
  have hdeclarations : ':' ∉ [','].intercalate (call.params.map (·.declaration)) :=
    not_mem_intercalate_map fun _ => h.declaration_clear
  have harguments : ':' ∉ [','].intercalate (call.params.map (·.argument)) :=
    not_mem_intercalate_map fun _ => h.argument_clear
  have hfront : Yields ("[](" ++ [','].intercalate (call.params.map (·.declaration)) ++ ") -> " ++
      call.result ++ " \x7b return") [] :=
    ((((EndsClear.of_not_mem (by decide)).append hdeclarations).append (by decide)).append
      h.result_clear).yields_append (by decide)
  have hback : Yields ([','].intercalate (call.params.map (·.argument)) ++ "); \x7d") [] :=
    (EndsClear.of_not_mem harguments).yields_append (by decide)
  have hcode : call.code = "[](" ++ [','].intercalate (call.params.map (·.declaration)) ++
      ") -> " ++ call.result ++ " \x7b return" ++ ([' '] ++ call.native ++ ['(']) ++
      ([','].intercalate (call.params.map (·.argument)) ++ "); \x7d") := by
    unfold Lambda.code
    simp
  rw [hcode, hnative]
  exact (hfront.append (yields_call hscope hname)).append hback

/-! ## Entries -/

theorem yields_opening {start name : Text} (hstart : ':' ∉ start) (hname : ':' ∉ name) :
    Yields (start ++ name ++ "\", ") [] :=
  ((EndsClear.of_not_mem hstart).append hname).yields_append (by decide)

theorem yields_bracket : Yields ")" [] := IsQuiet.yields (by decide)

theorem yields_binding {start name : Text} (hstart : ':' ∉ start) (hname : ':' ∉ name)
    {call : Lambda} (hcall : call.IsClear) :
    Yields (start ++ name ++ "\", " ++ call.code ++ ")") [call.native] :=
  ((yields_opening hstart hname).append hcall.yields).append yields_bracket

/-- The code of an entry mentions the natives that its lambdas call. -/
theorem Entry.IsClear.yields {e : Entry} (h : e.IsClear) :
    Yields e.code (e.lambdas.map (·.native)) := by
  obtain ⟨hword, hlambdas⟩ := h
  cases e with
  | constructor type =>
      have hinit : IsQuiet ".def(py::init<" := by decide
      exact ((EndsClear.of_isQuiet hinit).append hword).yields_append (by decide)
  | property name get set =>
      obtain ⟨hget, hset⟩ : get.IsClear ∧ set.IsClear := by
        simpa [Entry.lambdas] using hlambdas
      have hfront : Yields (".def_property(\"" ++ name ++ "\", ") [] :=
        yields_opening (by decide) hword
      have hcomma : Yields ", " [] := IsQuiet.yields (by decide)
      exact (((hfront.append hget.yields).append hcomma).append hset.yields).append yields_bracket
  | readonly name call =>
      exact yields_binding (by decide) hword (hlambdas call (List.mem_singleton_self call))
  | setter name call =>
      exact yields_binding (by decide) hword (hlambdas call (List.mem_singleton_self call))
  | method name call =>
      exact yields_binding (by decide) hword (hlambdas call (List.mem_singleton_self call))
  | static name call =>
      exact yields_binding (by decide) hword (hlambdas call (List.mem_singleton_self call))

/-! ## Lines -/

theorem yields_render {code : Text} {names : List Text} (h : Yields (code ++ "\n") names)
    (indent : Nat) : Yields (Line.render ⟨indent, code⟩) names := by
  by_cases hne : code = []
  · rw [hne] at h ⊢
    exact h
  · have htabs : Yields (List.replicate indent '\t') [] := by
      apply (EndsClear.of_not_mem (by simp)).yields
      rw [List.getLast?_replicate]
      split
      · rfl
      · decide
    rw [render_of_ne_nil hne, List.append_assoc]
    exact htabs.append h

theorem yields_render_of_endsClear {code : Text} (h : EndsClear code) (indent : Nat) :
    Yields (Line.render ⟨indent, code⟩) [] :=
  yields_render (h.yields_append (by decide)) indent

theorem Entry.IsClear.yields_render {e : Entry} (h : e.IsClear) (indent : Nat) :
    Yields (Line.render ⟨indent, e.code⟩) (e.lambdas.map (·.native)) := by
  have hnewline : Yields "\n" [] := IsQuiet.yields (by decide)
  apply Binding.yields_render
  rw [← List.append_nil (e.lambdas.map _)]
  exact h.yields.append hnewline

theorem yields_lines {lines : List Line} (h : ∀ line ∈ lines, EndsClear line.code) :
    Yields (render lines) [] := by
  have hlines : Yields (lines.flatMap Line.render) (lines.flatMap fun _ => []) :=
    Yields.flatMap fun line hline => yields_render_of_endsClear (h line hline) line.indent
  rwa [List.flatMap_eq_nil_iff.mpr fun _ _ => rfl] at hlines

/-! ## Classes -/

/-- The types and the entries of a class are clear. -/
structure ClassBlock.IsClear (b : ClassBlock) : Prop where
  type_clear : ':' ∉ b.type
  parent_clear : ∀ parent ∈ b.parent, ':' ∉ parent
  entries_clear : ∀ e ∈ b.body.entries, e.IsClear

theorem not_mem_handle {type : Text} (h : ':' ∉ type) : ':' ∉ ClassBlock.handle type := by
  rw [ClassBlock.handle, List.mem_append, not_or]
  exact ⟨by decide, h⟩

theorem endsClear_handleLine {type : Text} (h : ':' ∉ type) {parent? : Option Text}
    (hparent : ∀ parent ∈ parent?, ':' ∉ parent) : EndsClear (handleLine type parent?).code := by
  have hopening : EndsClear ("py::class_<" ++ wrapperOf type ++ "> " ++ ClassBlock.handle type) :=
    (((EndsClear.of_isQuiet (by decide)).append (not_mem_wrapperOf h)).append (by decide)).append
      (not_mem_handle h)
  have hnamed : EndsClear ("py::class_<" ++ wrapperOf type ++ "> " ++ ClassBlock.handle type ++
      "(m, \"" ++ type ++ "\"") :=
    ((hopening.append (by decide)).append h).append (by decide)
  refine (hnamed.append ?_).append (by decide)
  cases parent? with
  | none => exact List.not_mem_nil
  | some parent =>
      rw [List.mem_append, not_or]
      exact ⟨by decide, not_mem_handle (hparent parent rfl)⟩

namespace ClassBlock.IsClear

variable {b : ClassBlock}

theorem endsClear_declarationLines (h : b.IsClear) :
    ∀ line ∈ b.declarationLines, EndsClear line.code := by
  have hhandle : EndsClear (ClassBlock.handle b.type) :=
    .of_not_mem (not_mem_handle h.type_clear)
  rw [declarationLines_eq]
  refine List.forall_mem_cons.mpr ⟨endsClear_handleLine h.type_clear h.parent_clear, ?_⟩
  split
  · rw [List.forall_mem_singleton]
    exact ((hhandle.append (by decide)).append (not_mem_wrapperOf h.type_clear)).append (by decide)
  · exact List.forall_mem_nil _

theorem yields_lines (h : b.IsClear) :
    Yields (render b.lines) (b.body.lambdas.map (·.native)) := by
  have hdeclaration : Yields (render (b.declarationLines ++ [⟨1, handle b.type⟩])) [] := by
    apply Binding.yields_lines
    refine List.forall_mem_append.mpr ⟨h.endsClear_declarationLines, ?_⟩
    exact List.forall_mem_singleton.mpr (.of_not_mem (not_mem_handle h.type_clear))
  have hentries : Yields (render (b.body.entries.map fun e => ⟨2, e.code⟩))
      (b.body.lambdas.map (·.native)) := by
    rw [ClassBody.lambdas, List.map_flatMap, render, List.flatMap_map]
    exact Yields.flatMap fun e he => (h.entries_clear e he).yields_render 2
  have hclosing : Yields (render [⟨1, ";"⟩, ⟨1, "custom(" ++ handle b.type ++ ");"⟩]) [] := by
    apply Binding.yields_lines
    have hcall : EndsClear ("custom(" ++ handle b.type ++ ");") :=
      ((EndsClear.of_not_mem (by decide)).append (not_mem_handle h.type_clear)).append (by decide)
    simpa using ⟨EndsClear.of_not_mem (by decide), hcall⟩
  rw [lines, render_append, render_append, ← List.append_nil (b.body.lambdas.map _)]
  exact (hdeclaration.append hentries).append hclosing

end ClassBlock.IsClear

/-! ## The registration code -/

/-- The hooks and the classes are clear. -/
structure NativeBindings.IsClear (b : NativeBindings) : Prop where
  hooks_clear : ∀ type ∈ b.hooks, ':' ∉ type
  classes_clear : ∀ block ∈ b.classes, block.IsClear

theorem endsClear_openingLines {hooks : List Text} (h : ∀ type ∈ hooks, ':' ∉ type) :
    ∀ line ∈ openingLines hooks, EndsClear line.code := by
  have hvector : IsQuiet vectorBinding := by decide +kernel
  have hdefinition : IsQuiet "void defNatives(py::module m) \x7b" := by decide
  refine List.forall_mem_append.mpr ⟨List.forall_mem_append.mpr ⟨?_, ?_⟩, ?_⟩
  · have hinclusions : ∀ line ∈ [banner, ⟨0, "#include \"pybind11/pybind11.h\""⟩,
        ⟨0, "#include \"scripthook/natives.h\""⟩, ⟨0, "#include \"natives_type.h\""⟩,
        ⟨0, "namespace py = pybind11;"⟩, ⟨0, ""⟩], ':' ∉ line.code := by decide
    exact fun line hline => .of_not_mem (hinclusions line hline)
  · intro line hline
    obtain ⟨type, htype, rfl⟩ := List.mem_map.mp hline
    exact ((EndsClear.of_isQuiet (by decide)).append (not_mem_wrapperOf (h type htype))).append
      (by decide)
  · intro line hline
    rcases hline with _ | ⟨_, _ | ⟨_, _ | ⟨_, ⟨⟩⟩⟩⟩
    · exact .of_not_mem (by decide)
    · exact .of_isQuiet hdefinition
    · exact .of_isQuiet hvector

/-- The registration code mentions the natives that are called, call by call, and no others. -/
theorem NativeBindings.IsClear.mentions_eq {b : NativeBindings} (h : b.IsClear) :
    mentions none (registrationCode b) = b.lambdas.map (·.native) := by
  have hopening : Yields (render (openingLines b.hooks)) [] :=
    yields_lines (endsClear_openingLines h.hooks_clear)
  have hclasses : Yields (b.classes.flatMap fun block => render block.lines)
      (b.lambdas.map (·.native)) := by
    rw [NativeBindings.lambdas, List.map_flatMap]
    exact Yields.flatMap fun block hblock => (h.classes_clear block hblock).yields_lines
  have hclosing : Yields "\x7d\n" [] := IsQuiet.yields (by decide)
  apply Yields.mentions_eq
  rw [registrationCode_eq_append, ← List.append_nil (b.lambdas.map _)]
  exact (hopening.append hclasses).append hclosing

end Binding

end HeaderBindings
