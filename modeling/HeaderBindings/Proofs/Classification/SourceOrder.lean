import HeaderBindings.Binding.NativeCode
import HeaderBindings.Proofs.Classification.Places

/-! # Independence of source order

The order of functions decides only between those that compete for one place. Functions may
otherwise be moved about freely: the members of every type, and with them all generated code,
stay the same. -/

namespace HeaderBindings

open List

namespace Binding

/-- Code is generated from the members of the types alone, not from what was left out. -/
theorem nativeCode_congr (mapping : TypeMapping) {c c' : Classification}
    (h : c.types = c'.types) : nativeCode mapping c = nativeCode mapping c' := by
  simp only [nativeCode, nativeBindings, namespaceTypes, h]

end Binding

namespace MemberPolicy

variable {policy : MemberPolicy} {functions others : List NativeFunction}

/-- The same functions in another order, where those that compete for a place stand in the order
they had. -/
structure Rearranged (policy : MemberPolicy) (functions others : List NativeFunction) :
    Prop where
  perm : functions ~ others
  contenders_eq : ∀ place, policy.contenders place functions = policy.contenders place others

theorem Rearranged.gather_eq (h : policy.Rearranged functions others) (type : Text) :
    policy.gather type functions = policy.gather type others := by
  refine (policy.ordered_gather type functions).eq_of_find?_eq
    (policy.ordered_gather type others) ?_ ?_
  · rw [typeName_gather, typeName_gather]
  · intro kind exposed
    rw [find?_gather, find?_gather, h.contenders_eq]

theorem Rearranged.types_eq (h : policy.Rearranged functions others) :
    (policy.classify functions).types = (policy.classify others).types := by
  refine Keyed.eq_of_find?_eq (policy.sorted_types_classify functions)
    (policy.sorted_types_classify others) ?_
  intro type
  have hex : (∃ d ∈ functions, d.typeName = type) ↔ ∃ d ∈ others, d.typeName = type := by
    simp only [h.perm.mem_iff]
  rw [find?_types_classify, find?_types_classify, h.gather_eq type]
  simp only [hex]

/-- Rearranged functions give the same types and the same generated texts, with the failures in
the same order. -/
theorem code_eq_of_rearranged (mapping : TypeMapping)
    (h : policy.Rearranged functions others) :
    (policy.classify functions).types = (policy.classify others).types ∧
      Binding.nativeCode mapping (policy.classify functions) =
        Binding.nativeCode mapping (policy.classify others) :=
  ⟨h.types_eq, Binding.nativeCode_congr mapping h.types_eq⟩

theorem code_eq_of_timer_first :
    let health : NativeFunction := ⟨"PED", "int", "GET_PED_HEALTH", [⟨"Ped", "ped"⟩], ⟨0, 9⟩⟩
    let unnamed : NativeFunction := ⟨"PED", "int", "_GET_PED_HEALTH", [⟨"Ped", "p0"⟩], ⟨9, 19⟩⟩
    let timer : NativeFunction := ⟨"MISC", "int", "GET_GAME_TIMER", [], ⟨19, 29⟩⟩
    let policy : MemberPolicy := ⟨⟨stockTypes⟩, {}, {}⟩
    policy.Rearranged [health, unnamed, timer] [timer, health, unnamed] ∧
      (policy.classify [health, unnamed, timer]).types =
        (policy.classify [timer, health, unnamed]).types ∧
      Binding.nativeCode ⟨⟨stockTypes⟩, {}⟩ (policy.classify [health, unnamed, timer]) =
        Binding.nativeCode ⟨⟨stockTypes⟩, {}⟩ (policy.classify [timer, health, unnamed]) := by
  intro health unnamed timer policy
  have hhealth : policy.place? health = some ⟨"Ped", .getter, "health"⟩ := by decide +kernel
  have hunnamed : policy.place? unnamed = some ⟨"Ped", .getter, "health"⟩ := by decide +kernel
  have htimer : policy.place? timer = some ⟨"Misc", .static, "get_game_timer"⟩ := by
    decide +kernel
  have h : policy.Rearranged [health, unnamed, timer] [timer, health, unnamed] := by
    refine ⟨(List.perm_append_comm : [health, unnamed] ++ [timer] ~ _), ?_⟩
    intro place
    by_cases hplace : place = ⟨"Misc", .static, "get_game_timer"⟩
    · subst hplace
      simp [contenders, hhealth, hunnamed, htimer]
    · have hmoved : decide (policy.place? timer = some place) = false := by
        rw [htimer]
        exact decide_eq_false fun heq => hplace (Option.some.inj heq).symm
      simp only [contenders, List.filter_cons, List.filter_nil, hmoved, Bool.false_eq_true,
        if_false]
  exact ⟨h, code_eq_of_rearranged ⟨⟨stockTypes⟩, {}⟩ h⟩

end MemberPolicy

end HeaderBindings
