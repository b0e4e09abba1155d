import HeaderBindings.Binding.NativeCode
import HeaderBindings.Proofs.Binding.Coverage
import HeaderBindings.Proofs.TypeTable

/-! # The order of classes

Classes are registered for the types of the table and then for the other types that occur as
namespaces. Each type of a classification comes up once in that order, so walking through it
passes over the members of every type once. -/

namespace HeaderBindings.Binding

open List

variable (mapping : TypeMapping) (c : Classification)

/-- The types in the order in which their classes are registered. -/
def emissionOrder : List Text := mapping.table.names ++ namespaceTypes mapping c

/-- What is bound for the members of a type. -/
def memberBody (types : List TypeMembers) (type : Text) : ClassBody :=
  match Keyed.find? TypeMembers.typeName type types with
  | some found => classBody mapping type found
  | none => {}

theorem failed_nativeBindings :
    (nativeBindings mapping c).failed =
      (emissionOrder mapping c).flatMap fun type => (memberBody mapping c.types type).failed := by
  simp only [NativeBindings.failed, nativeBindings, emissionOrder, TypeTable.names,
    List.flatMap_append, List.flatMap_map]
  rfl

theorem lambdas_registeredClass (types : List TypeMembers) (type : LogicalType) :
    (registeredClass mapping types type).body.lambdas =
      (memberBody mapping types type.name).lambdas := by
  have hconstructor : ∀ init : Option Text,
      (init.toList.map Entry.constructor).flatMap Entry.lambdas = [] := by
    intro init
    cases init <;> rfl
  have hsplit : (registeredClass mapping types type).body.lambdas =
      (type.init.toList.map Entry.constructor).flatMap Entry.lambdas ++
        (memberBody mapping types type.name).lambdas := List.flatMap_append
  rw [hsplit, hconstructor, List.nil_append]

theorem lambdas_nativeBindings :
    (nativeBindings mapping c).lambdas =
      (emissionOrder mapping c).flatMap fun type => (memberBody mapping c.types type).lambdas := by
  have hclasses : (nativeBindings mapping c).lambdas =
      (nativeBindings mapping c).classes.flatMap fun block => block.body.lambdas := rfl
  rw [hclasses]
  simp only [nativeBindings, emissionOrder, TypeTable.names, List.flatMap_append,
    List.flatMap_map, lambdas_registeredClass]
  rfl

variable {mapping c}

theorem exists_mem_types_of_mem_flatMap {α : Type} (part : ClassBody → List α)
    (hpart : part {} = []) {order : List Text} {a : α}
    (h : a ∈ order.flatMap fun type => part (memberBody mapping c.types type)) :
    ∃ b ∈ c.types, a ∈ part (classBody mapping b.typeName b) := by
  obtain ⟨type, -, ha⟩ := List.mem_flatMap.mp h
  rw [memberBody] at ha
  split at ha
  next b hb =>
    have htype : b.typeName = type := Keyed.key_of_find?_eq_some hb
    exact ⟨b, Keyed.mem_of_find?_eq_some hb, htype.symm ▸ ha⟩
  next =>
    rw [hpart] at ha
    exact absurd ha List.not_mem_nil

theorem nodup_emissionOrder (h : mapping.table.names.Nodup) :
    (emissionOrder mapping c).Nodup := by
  refine List.nodup_append.mpr ⟨h, TypeTable.nodup_unregistered _ _, ?_⟩
  rintro name hname _ hother rfl
  exact (TypeTable.mem_unregistered.mp hother).2 hname

theorem mem_emissionOrder {type : Text} :
    type ∈ emissionOrder mapping c ↔
      type ∈ mapping.table.names ∨ type ∈ c.types.map (·.typeName) := by
  rw [emissionOrder, namespaceTypes, List.mem_append, TypeTable.mem_unregistered]
  tauto

theorem mem_emissionOrder_of_mem_types {b : TypeMembers} (h : b ∈ c.types) :
    b.typeName ∈ emissionOrder mapping c :=
  mem_emissionOrder.mpr (.inr (List.mem_map_of_mem h))

/-- A walk over all classes passes over every type of the classification once. -/
theorem flatMap_memberBody_perm {α : Type} (hnames : mapping.table.names.Nodup)
    (hsorted : Keyed.Sorted TypeMembers.typeName c.types) (part : ClassBody → List α)
    (hpart : part {} = []) :
    ((emissionOrder mapping c).flatMap fun type => part (memberBody mapping c.types type)) ~
      c.types.flatMap fun b => part (classBody mapping b.typeName b) := by
  have hwalk : ∀ types : List Text,
      (types.flatMap fun type => part (memberBody mapping c.types type)) =
        (types.filterMap (Keyed.find? TypeMembers.typeName · c.types)).flatMap
          fun b => part (classBody mapping b.typeName b) := by
    intro types
    induction types with
    | nil => rfl
    | cons type types ih =>
        rw [List.flatMap_cons, ih, memberBody]
        cases hfound : Keyed.find? TypeMembers.typeName type c.types with
        | none => simp only [List.filterMap_cons, hfound, hpart, List.nil_append]
        | some b =>
            simp only [List.filterMap_cons, hfound, List.flatMap_cons,
              Keyed.key_of_find?_eq_some hfound]
  rw [hwalk]
  exact (hsorted.filterMap_find?_perm (nodup_emissionOrder hnames)
    fun b hb => mem_emissionOrder_of_mem_types hb).flatMap_right _

end HeaderBindings.Binding
