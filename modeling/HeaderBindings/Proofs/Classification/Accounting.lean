import HeaderBindings.Proofs.Classification.Places

/-! # What becomes of every function

A classification neither loses nor doubles a function: each is left out, and reported with a
reason that holds, or is a member of its type. -/

namespace HeaderBindings

open List

/-- The members of all types. -/
def Classification.members (c : Classification) : List Member := c.types.flatMap (·.members)

namespace MemberPolicy

variable {policy : MemberPolicy}

/-- A report that a function is left out, for a reason that holds: its name keeps it out, or
another function takes its place. -/
inductive LeftOut (policy : MemberPolicy) (functions : List NativeFunction)
    (d : NativeFunction) : Text × Omission → Prop where
  | byName {reason : Omission} (h : policy.member d = .error reason) :
      LeftOut policy functions d (d.qualifiedName, reason)
  | shadowed {winner : NativeFunction} {place : Place} (hmem : winner ∈ functions)
      (hd : policy.place? d = some place) (hw : policy.place? winner = some place) :
      LeftOut policy functions d (d.qualifiedName, .shadowed winner.qualifiedName)

theorem LeftOut.mono {functions more : List NativeFunction} (hsub : functions ⊆ more)
    {d : NativeFunction} {entry : Text × Omission} (h : LeftOut policy functions d entry) :
    LeftOut policy more d entry := by
  cases h with
  | byName h => exact .byName h
  | shadowed hmem hd hw => exact .shadowed (hsub hmem) hd hw

theorem LeftOut.name_eq {functions : List NativeFunction} {d : NativeFunction}
    {entry : Text × Omission} (h : LeftOut policy functions d entry) :
    entry.1 = d.qualifiedName := by
  cases h <;> rfl

/-! ## One more function -/

/-- The member that gives way to a function classified after the others. -/
def loser? (policy : MemberPolicy) (functions : List NativeFunction) (d : NativeFunction) :
    Option Member :=
  (policy.member? d).bind fun m => (policy.gather d.typeName functions).find? m.kind m.exposed

/-- The functions that a further one leaves out: itself, or the one whose place it takes. -/
def leftOutBy (policy : MemberPolicy) (functions : List NativeFunction) (d : NativeFunction) :
    List NativeFunction :=
  match policy.member d with
  | .error _ => [d]
  | .ok _ => (policy.loser? functions d).toList.map (·.function)

/-- What is reported when a further function is classified. -/
def reports (policy : MemberPolicy) (functions : List NativeFunction) (d : NativeFunction) :
    List (Text × Omission) :=
  match policy.member d with
  | .error reason => [(d.qualifiedName, reason)]
  | .ok _ => (policy.loser? functions d).toList.map fun loser =>
      (loser.function.qualifiedName, .shadowed d.qualifiedName)

theorem skipped_classify_append_singleton (functions : List NativeFunction)
    (d : NativeFunction) :
    (policy.classify (functions ++ [d])).skipped =
      (policy.classify functions).skipped ++ policy.reports functions d := by
  rw [classify_append_singleton, add, getD_find?_types_classify, reports, loser?, member?]
  cases policy.member d <;> rfl

theorem place?_of_loser?_eq_some {functions : List NativeFunction} {d : NativeFunction}
    {loser : Member} (h : policy.loser? functions d = some loser) :
    ∃ place, policy.place? d = some place ∧ policy.place? loser.function = some place := by
  obtain ⟨m, hm, hloser⟩ := Option.bind_eq_some_iff.mp h
  refine ⟨⟨d.typeName, m.kind, m.exposed⟩, by simp [place?, hm], ?_⟩
  rw [find?_gather] at hloser
  obtain ⟨e, hlast, he⟩ := Option.bind_eq_some_iff.mp hloser
  rw [function_of_member?_eq_some he]
  simpa using (List.mem_filter.mp (List.mem_of_getLast? hlast)).2

theorem forall₂_leftOut_reports (functions : List NativeFunction) (d : NativeFunction) :
    List.Forall₂ (LeftOut policy (functions ++ [d])) (policy.leftOutBy functions d)
      (policy.reports functions d) := by
  rw [leftOutBy, reports]
  cases hm : policy.member d with
  | error reason => exact .cons (.byName hm) .nil
  | ok m =>
      cases hloser : policy.loser? functions d with
      | none => exact .nil
      | some loser =>
          obtain ⟨place, hd, hplace⟩ := place?_of_loser?_eq_some hloser
          exact .cons (.shadowed (by simp) hplace hd) .nil

variable (policy) in
/-- A further function that is not left out joins the members, and the one whose place it takes
leaves them. -/
theorem members_classify_append_singleton_perm (functions : List NativeFunction)
    (d : NativeFunction) :
    (policy.loser? functions d).toList ++ (policy.classify (functions ++ [d])).members ~
      (policy.member? d).toList ++ (policy.classify functions).members := by
  have hsorted := policy.sorted_types_classify functions
  have hold := policy.getD_find?_types_classify d.typeName functions
  have htrade := (hsorted.insert_perm
    (policy.receive (policy.gather d.typeName functions) d)).flatMap_right (·.members)
  rw [List.flatMap_append, List.flatMap_cons, typeName_receive, typeName_gather] at htrade
  have hfound : (Keyed.find? TypeMembers.typeName d.typeName
      (policy.classify functions).types).toList.flatMap (·.members) =
      (policy.gather d.typeName functions).members := by
    rw [← hold]
    cases Keyed.find? TypeMembers.typeName d.typeName (policy.classify functions).types <;>
      simp [TypeMembers.members]
  rw [hfound] at htrade
  rw [Classification.members, Classification.members, classify_append_singleton, types_add, hold]
  refine (List.perm_append_left_iff (policy.gather d.typeName functions).members).mp ?_
  rw [receive] at htrade ⊢
  rw [loser?, member?]
  cases hm : policy.member d with
  | error reason => simpa [hm, Except.toOption] using htrade
  | ok m =>
      have hinsert := (policy.ordered_gather d.typeName functions).members_insert_perm m
      simp only [hm] at htrade
      simp only [Except.toOption, Option.bind_some, Option.toList_some]
      refine List.perm_iff_count.mpr ?_
      intro n
      have htrade := List.perm_iff_count.mp htrade n
      have hinsert := List.perm_iff_count.mp hinsert n
      simp only [List.count_append, List.count_cons, List.count_nil] at htrade hinsert ⊢
      omega

/-! ## All functions -/

variable (policy) in
/-- The functions are those left out, one for each report, together with those of all members. -/
theorem exists_leftOut (functions : List NativeFunction) :
    ∃ leftOut, functions ~ leftOut ++ (policy.classify functions).members.map (·.function) ∧
      List.Forall₂ (LeftOut policy functions) leftOut (policy.classify functions).skipped := by
  induction functions using List.reverseRecOn with
  | nil => exact ⟨[], by simp [classify, Classification.members], .nil⟩
  | append_singleton functions d ih =>
      obtain ⟨leftOut, hperm, hreports⟩ := ih
      refine ⟨leftOut ++ policy.leftOutBy functions d, ?_, ?_⟩
      · have hstep := (policy.members_classify_append_singleton_perm functions d).map
          (·.function)
        have hself : policy.leftOutBy functions d ++
            (policy.member? d).toList.map (·.function) ~
            d :: (policy.loser? functions d).toList.map (·.function) := by
          rw [leftOutBy, loser?, member?]
          cases hm : policy.member d with
          | error reason => simp [Except.toOption]
          | ok m =>
              have hfunction := function_of_member_eq_ok hm
              simp [Except.toOption, hfunction]
        refine List.perm_iff_count.mpr ?_
        intro e
        have hperm := List.perm_iff_count.mp hperm e
        have hstep := List.perm_iff_count.mp hstep e
        have hself := List.perm_iff_count.mp hself e
        simp only [List.map_append, List.count_append, List.count_cons, List.count_nil]
          at hperm hstep hself ⊢
        omega
      · rw [skipped_classify_append_singleton]
        refine List.rel_append (hreports.imp fun _ _ h => h.mono ?_)
          (forall₂_leftOut_reports functions d)
        exact List.subset_append_left _ _

end MemberPolicy

end HeaderBindings
