import HeaderBindings.Binding.ClassBody
import HeaderBindings.Proofs.TypeMembers
import Mathlib.Data.List.Basic

/-! # Coverage of one class

The body of a class binds every member of its type that can be wrapped by one lambda, and reports
every other as failed once. A setter whose getter fails changes its group and is not lost. -/

namespace HeaderBindings.Binding

open List

/-- The lambdas of a class. -/
def ClassBody.lambdas (body : ClassBody) : List Lambda := body.entries.flatMap Entry.lambdas

/-- The lambda that binds a member, if its types have mappings. -/
def lambda? (mapping : TypeMapping) (type : Text) (m : Member) : Option Lambda :=
  (lambdaOf mapping type m).toOption

theorem lambda?_eq_some_iff {mapping : TypeMapping} {type : Text} {m : Member} {call : Lambda} :
    lambda? mapping type m = some call ↔ lambdaOf mapping type m = .ok call := by
  rw [lambda?]
  cases lambdaOf mapping type m <;> simp [Except.toOption]

/-- A lambda calls the native that its member was declared as. -/
theorem native_of_lambda?_eq_some {mapping : TypeMapping} {type : Text} {m : Member}
    {call : Lambda} (h : lambda? mapping type m = some call) :
    call.native = m.function.qualifiedName := by
  have h := lambda?_eq_some_iff.mp h
  rw [lambdaOf] at h
  cases hparams : boundParameters mapping type m 0 m.function.params with
  | error _ => simp [hparams, bind, Except.bind] at h
  | ok params =>
      cases hresult : mapping.result m.function.result with
      | error _ => simp [hparams, hresult, bind, Except.bind] at h
      | ok result =>
          simp only [hparams, hresult, bind, Except.bind, pure, Except.pure,
            Except.ok.injEq] at h
          rw [← h]

section

variable (mapping : TypeMapping) (type : Text)

/-- A body binds or reports each of the members, and nothing else. -/
structure Covers (body : ClassBody) (members : List Member) : Prop where
  lambdas : body.lambdas ~ members.filterMap (lambda? mapping type)
  failed : body.failed ~ members.filter fun m => (lambda? mapping type m).isNone

variable {mapping type}

theorem covers_nil : Covers mapping type {} [] where
  lambdas := .nil
  failed := .nil

theorem Covers.perm {body : ClassBody} {members others : List Member}
    (h : Covers mapping type body members) (hperm : members ~ others) :
    Covers mapping type body others where
  lambdas := h.lambdas.trans (hperm.filterMap _)
  failed := h.failed.trans (hperm.filter _)

theorem Covers.append {a b : ClassBody} {members others : List Member}
    (ha : Covers mapping type a members) (hb : Covers mapping type b others) :
    Covers mapping type (a ++ b) (members ++ others) where
  lambdas := by
    have hsplit : (a ++ b).lambdas = a.lambdas ++ b.lambdas := List.flatMap_append
    rw [hsplit, List.filterMap_append]
    exact ha.lambdas.append hb.lambdas
  failed := by
    rw [List.filter_append]
    exact ha.failed.append hb.failed

theorem Covers.concat {α : Type} (l : List α) {body : α → ClassBody} {members : α → List Member}
    (h : ∀ a ∈ l, Covers mapping type (body a) (members a)) :
    Covers mapping type (ClassBody.concat (l.map body)) (l.flatMap members) := by
  induction l with
  | nil => exact covers_nil
  | cons a l ih =>
      have hrest := ih fun b hb => h b (List.mem_cons_of_mem a hb)
      exact (h a (by simp)).append hrest

/-! ## Single members -/

theorem covers_bindMember {entry : Text → Lambda → Entry}
    (hentry : ∀ name call, (entry name call).lambdas = [call]) (m : Member) :
    Covers mapping type (bindMember mapping type entry m) [m] := by
  rw [bindMember]
  split
  next call hcall =>
    have hlambda : lambda? mapping type m = some call := lambda?_eq_some_iff.mpr hcall
    exact ⟨by simp [ClassBody.lambdas, hentry, hlambda], by simp [hlambda]⟩
  next failure hfailure =>
    have hlambda : lambda? mapping type m = none := by simp [lambda?, hfailure, Except.toOption]
    exact ⟨by simp [ClassBody.lambdas, hlambda], by simp [hlambda]⟩

variable (mapping type) in
theorem covers_map_bindMember (entry : Text → Lambda → Entry)
    (hentry : ∀ name call, (entry name call).lambdas = [call]) (members : List Member) :
    Covers mapping type (ClassBody.concat (members.map (bindMember mapping type entry)))
      members := by
  have hsingle : Covers mapping type
      (ClassBody.concat (members.map (bindMember mapping type entry)))
      (members.flatMap fun m => [m]) := .concat members fun m _ => covers_bindMember hentry m
  simpa using hsingle

/-! ## Properties -/

variable (mapping type) in
/-- The setter of a property whose getter can be wrapped. -/
def keptSetter? (p : Property) : Option Member :=
  match lambdaOf mapping type p.getter with
  | .error _ => none
  | .ok _ => p.setter

theorem keptSetter?_append_freedSetter? (p : Property) :
    (keptSetter? mapping type p).toList ++ (freedSetter? mapping type p).toList =
      p.setter.toList := by
  rw [keptSetter?, freedSetter?]
  cases lambdaOf mapping type p.getter <;> simp

variable (mapping type) in
theorem covers_bindProperty (p : Property) :
    Covers mapping type (bindProperty mapping type p)
      (p.getter :: (keptSetter? mapping type p).toList) := by
  rw [bindProperty, keptSetter?]
  cases hgetter : lambdaOf mapping type p.getter with
  | error failure =>
      have hnone : lambda? mapping type p.getter = none := by
        simp [lambda?, hgetter, Except.toOption]
      exact ⟨by simp [ClassBody.lambdas, hnone], by simp [hnone]⟩
  | ok getter =>
      have hsome : lambda? mapping type p.getter = some getter := lambda?_eq_some_iff.mpr hgetter
      cases hp : p.setter with
      | none => exact ⟨by simp [ClassBody.lambdas, Entry.lambdas, hsome], by simp [hsome]⟩
      | some s =>
          cases hs : lambdaOf mapping type s with
          | error failure =>
              have hnone : lambda? mapping type s = none := by
                simp [lambda?, hs, Except.toOption]
              exact ⟨by simp [ClassBody.lambdas, Entry.lambdas, hsome, hnone, hs],
                by simp [hsome, hnone, hs]⟩
          | ok setter =>
              have hsetter : lambda? mapping type s = some setter := lambda?_eq_some_iff.mpr hs
              exact ⟨by simp [ClassBody.lambdas, Entry.lambdas, hsome, hsetter, hs],
                by simp [hsome, hsetter, hs]⟩

/-! ## All members of a type -/

variable (mapping type) in
/-- The setters that lose their property because its getter fails. -/
def freedSetters (b : TypeMembers) : List Member :=
  b.groups.properties.filterMap (freedSetter? mapping type)

theorem setter_of_freedSetter?_eq_some {p : Property} {s : Member}
    (h : freedSetter? mapping type p = some s) : p.setter = some s := by
  rw [freedSetter?] at h
  split at h
  · exact h
  · exact absurd h (by simp)

variable (mapping type) in
theorem freedSetters_sublist (b : TypeMembers) :
    (freedSetters mapping type b).Sublist b.pairedSetters := by
  rw [freedSetters, TypeMembers.pairedSetters]
  induction b.groups.properties with
  | nil => exact List.Sublist.refl _
  | cons p properties ih =>
      cases hfreed : freedSetter? mapping type p with
      | none =>
          rw [List.filterMap_cons_none hfreed]
          cases hp : p.setter with
          | none => rwa [List.filterMap_cons_none hp]
          | some s =>
              rw [List.filterMap_cons_some hp]
              exact ih.cons s
      | some s =>
          rw [List.filterMap_cons_some hfreed,
            List.filterMap_cons_some (setter_of_freedSetter?_eq_some hfreed)]
          exact ih.cons_cons s

/-- The plain setters are those without a getter together with those that lost their property. -/
theorem plainSetters_perm {b : TypeMembers} (h : b.Ordered) :
    (freedSetters mapping type b).foldl (fun sorted s => Keyed.insert Member.exposed s sorted)
      b.groups.setters ~ freedSetters mapping type b ++ b.groups.setters := by
  have hsub := freedSetters_sublist mapping type b
  have hsorted : Keyed.Sorted Member.exposed b.groups.setters :=
    List.Pairwise.filter _ (h.sorted .setter)
  refine hsorted.foldl_insert_perm _ ?_ ?_
  · intro s hs t ht
    exact TypeMembers.exposed_ne_of_mem_pairedSetters h (hsub.subset hs) ht
  · exact (TypeMembers.pairedSetters_sorted h).nodup_keys.sublist (hsub.map _)

/-- The properties take the getters and the setters that keep theirs. -/
theorem properties_append_freedSetters_perm (b : TypeMembers) :
    b.groups.properties.flatMap (fun p => p.getter :: (keptSetter? mapping type p).toList) ++
      freedSetters mapping type b ~ b.getters ++ b.pairedSetters := by
  have hgetters : b.groups.properties.flatMap (fun p => [p.getter]) = b.getters := by
    simp [TypeMembers.groups, List.flatMap_map]
  have hsetters : b.groups.properties.flatMap (fun p => (keptSetter? mapping type p).toList) ++
      freedSetters mapping type b ~ b.pairedSetters := by
    rw [freedSetters, TypeMembers.pairedSetters, List.filterMap_eq_flatMap_toList,
      List.filterMap_eq_flatMap_toList]
    refine (List.flatMap_append_perm _ _ _).trans (List.Perm.of_eq ?_)
    simp only [keptSetter?_append_freedSetter?]
  calc
    b.groups.properties.flatMap (fun p => p.getter :: (keptSetter? mapping type p).toList) ++
        freedSetters mapping type b ~
        (b.groups.properties.flatMap (fun p => [p.getter]) ++
          b.groups.properties.flatMap (fun p => (keptSetter? mapping type p).toList)) ++
          freedSetters mapping type b :=
      ((List.flatMap_append_perm b.groups.properties (fun p => [p.getter]) _).symm.append_right
        (freedSetters mapping type b))
    _ ~ b.getters ++ b.pairedSetters := by
      rw [hgetters, List.append_assoc]
      exact hsetters.append_left _

variable (mapping type) in
/-- The body of a class covers the members of its type. -/
theorem covers_classBody {b : TypeMembers} (h : b.Ordered) :
    Covers mapping type (classBody mapping type b) b.members := by
  have hproperties := Covers.concat b.groups.properties
    fun p _ => covers_bindProperty mapping type p
  have hsetters := covers_map_bindMember mapping type .setter (fun _ _ => rfl)
    ((freedSetters mapping type b).foldl
      (fun sorted s => Keyed.insert Member.exposed s sorted) b.groups.setters)
  have hmethods := covers_map_bindMember mapping type .method (fun _ _ => rfl) b.methods
  have hstatics := covers_map_bindMember mapping type .static (fun _ _ => rfl) b.statics
  refine (((hproperties.append hsetters).append hmethods).append hstatics).perm ?_
  rw [TypeMembers.members]
  refine (List.Perm.append_right _ ?_).append_right _
  calc
    b.groups.properties.flatMap (fun p => p.getter :: (keptSetter? mapping type p).toList) ++
        (freedSetters mapping type b).foldl
          (fun sorted s => Keyed.insert Member.exposed s sorted) b.groups.setters ~
        b.groups.properties.flatMap (fun p => p.getter :: (keptSetter? mapping type p).toList) ++
          (freedSetters mapping type b ++ b.groups.setters) :=
      (plainSetters_perm h).append_left _
    _ ~ (b.getters ++ b.pairedSetters) ++ b.groups.setters := by
      rw [← List.append_assoc]
      exact (properties_append_freedSetters_perm b).append_right _
    _ ~ b.getters ++ b.setters := by
      rw [List.append_assoc]
      exact (TypeMembers.pairedSetters_append_perm h).append_left _

end

end HeaderBindings.Binding
