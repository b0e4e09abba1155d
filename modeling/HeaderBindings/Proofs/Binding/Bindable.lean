import HeaderBindings.Proofs.Binding.Coverage

/-! # Members that can be bound

The entries of a class come from the members that can be bound. A member without a mapping may
change the group of another, since the setter of a failing getter becomes a plain one, but it does
so exactly as if the getter were not there. -/

namespace HeaderBindings.Binding

open List

variable (mapping : TypeMapping) (type : Text)

/-- Whether the types of a member have mappings. -/
def canBind (m : Member) : Bool := (lambda? mapping type m).isSome

/-- The setters that are bound as plain ones. -/
def plainSetters (b : TypeMembers) : List Member :=
  (freedSetters mapping type b).foldl (fun sorted s => Keyed.insert Member.exposed s sorted)
    b.groups.setters

variable {mapping type}

theorem canBind_eq_false_iff {m : Member} :
    canBind mapping type m = false ↔ ∃ cause, lambdaOf mapping type m = .error cause := by
  rw [canBind, lambda?]
  cases lambdaOf mapping type m <;> simp [Except.toOption]

theorem canBind_eq_true_iff {m : Member} :
    canBind mapping type m = true ↔ ∃ call, lambdaOf mapping type m = .ok call := by
  rw [canBind, lambda?]
  cases lambdaOf mapping type m <;> simp [Except.toOption]

theorem flatMap_filter_of_eq_nil {α β : Type} {test : α → Bool} {f : α → List β} (l : List α)
    (h : ∀ a, test a = false → f a = []) : (l.filter test).flatMap f = l.flatMap f := by
  induction l with
  | nil => rfl
  | cons a l ih =>
      rw [List.flatMap_cons, ← ih, List.filter_cons]
      split
      · rfl
      next ha => rw [h a (by simpa using ha), List.nil_append]

/-! ## Single entries -/

theorem entries_bindMember_eq_nil (entry : Text → Lambda → Entry) {m : Member}
    (h : canBind mapping type m = false) : (bindMember mapping type entry m).entries = [] := by
  obtain ⟨cause, hcause⟩ := canBind_eq_false_iff.mp h
  simp [bindMember, hcause]

theorem entries_bindProperty_eq_nil {p : Property} (h : canBind mapping type p.getter = false) :
    (bindProperty mapping type p).entries = [] := by
  obtain ⟨cause, hcause⟩ := canBind_eq_false_iff.mp h
  simp [bindProperty, hcause]

/-- A setter without a mapping is as good as none. -/
theorem entries_bindProperty_filter (name : Text) (getter : Member) (setter : Option Member) :
    (bindProperty mapping type ⟨name, getter, setter.filter (canBind mapping type)⟩).entries =
      (bindProperty mapping type ⟨name, getter, setter⟩).entries := by
  cases setter with
  | none => rfl
  | some s =>
      cases hs : canBind mapping type s with
      | true => rw [Option.filter_some, if_pos hs]
      | false =>
          obtain ⟨cause, hcause⟩ := canBind_eq_false_iff.mp hs
          simp only [Option.filter_some, hs, bindProperty, hcause]
          cases lambdaOf mapping type getter <;> rfl

/-! ## Plain setters -/

variable {b : TypeMembers}

theorem sorted_plainSetters (h : b.Ordered) :
    Keyed.Sorted Member.exposed (plainSetters mapping type b) :=
  Keyed.sorted_foldl_insert _ (List.Pairwise.filter _ (h.sorted .setter))

theorem mem_freedSetters_iff (h : b.Ordered) {s : Member} :
    s ∈ freedSetters mapping type b ↔ s ∈ b.setters ∧
      ∃ g, b.find? .getter s.exposed = some g ∧ canBind mapping type g = false := by
  have hfreed : ∀ g : Member,
      freedSetter? mapping type ⟨g.exposed, g, b.find? .setter g.exposed⟩ = some s ↔
        canBind mapping type g = false ∧ b.find? .setter g.exposed = some s := by
    intro g
    rw [freedSetter?, canBind, lambda?]
    cases lambdaOf mapping type g <;> simp [Except.toOption]
  simp only [freedSetters, TypeMembers.groups, List.mem_filterMap, List.mem_map,
    exists_exists_and_eq_and, hfreed]
  constructor
  · rintro ⟨g, hg, hbind, hs⟩
    obtain ⟨hmem, hkey⟩ := (h.sorted .setter).find?_eq_some_iff.mp hs
    refine ⟨hmem, g, ?_, hbind⟩
    rw [hkey]
    exact (h.sorted .getter).find?_eq_some_of_mem hg
  · rintro ⟨hs, g, hg, hbind⟩
    obtain ⟨hmem, hkey⟩ := (h.sorted .getter).find?_eq_some_iff.mp hg
    refine ⟨g, hmem, hbind, ?_⟩
    rw [hkey]
    exact (h.sorted .setter).find?_eq_some_of_mem hs

/-- A setter is a plain one unless a getter of its name can be bound. -/
theorem mem_plainSetters_iff (h : b.Ordered) {s : Member} :
    s ∈ plainSetters mapping type b ↔ s ∈ b.setters ∧
      (b.find? .getter s.exposed).filter (canBind mapping type) = none := by
  rw [plainSetters, (plainSetters_perm h).mem_iff, List.mem_append, mem_freedSetters_iff h]
  simp only [TypeMembers.groups, List.mem_filter]
  cases b.find? .getter s.exposed with
  | none => simp
  | some g => simp [Option.filter_some]

theorem plainSetters_filter (h : b.Ordered) :
    plainSetters mapping type (b.filter (canBind mapping type)) =
      (plainSetters mapping type b).filter (canBind mapping type) := by
  have hfilter := h.filter (canBind mapping type)
  refine (sorted_plainSetters hfilter).eq_of_mem_iff
    (List.Pairwise.filter _ (sorted_plainSetters h)) ?_
  intro s
  rw [mem_plainSetters_iff hfilter, List.mem_filter, mem_plainSetters_iff h, h.find?_filter,
    Option.filter_filter]
  simp only [TypeMembers.filter, List.mem_filter, Bool.and_self]
  tauto

/-! ## All entries -/

theorem entries_classBody (b : TypeMembers) :
    (classBody mapping type b).entries =
      b.getters.flatMap (fun g =>
          (bindProperty mapping type ⟨g.exposed, g, b.find? .setter g.exposed⟩).entries) ++
        (plainSetters mapping type b).flatMap
          (fun m => (bindMember mapping type .setter m).entries) ++
        b.methods.flatMap (fun m => (bindMember mapping type .method m).entries) ++
        b.statics.flatMap (fun m => (bindMember mapping type .static m).entries) := by
  have happend : ∀ x y : ClassBody, (x ++ y).entries = x.entries ++ y.entries := fun _ _ => rfl
  simp only [classBody, happend, ClassBody.concat, List.flatMap_map, TypeMembers.groups]
  rfl

theorem entries_classBody_filter (h : b.Ordered) :
    (classBody mapping type (b.filter (canBind mapping type))).entries =
      (classBody mapping type b).entries := by
  have hproperty : ∀ g : Member,
      (bindProperty mapping type ⟨g.exposed, g,
        (b.filter (canBind mapping type)).find? .setter g.exposed⟩).entries =
      (bindProperty mapping type ⟨g.exposed, g, b.find? .setter g.exposed⟩).entries := by
    intro g
    rw [h.find?_filter, entries_bindProperty_filter]
  rw [entries_classBody, entries_classBody, plainSetters_filter h]
  simp only [hproperty]
  simp only [TypeMembers.filter]
  rw [flatMap_filter_of_eq_nil b.getters fun g hg => entries_bindProperty_eq_nil hg,
    flatMap_filter_of_eq_nil (plainSetters mapping type b) fun _ => entries_bindMember_eq_nil _,
    flatMap_filter_of_eq_nil b.methods fun _ => entries_bindMember_eq_nil _,
    flatMap_filter_of_eq_nil b.statics fun _ => entries_bindMember_eq_nil _]

end HeaderBindings.Binding
