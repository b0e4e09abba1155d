import HeaderBindings.Proofs.Classification.Verdict
import Mathlib.Data.List.Dedup

/-! # Succession at a place

Of the functions that compete for a place the last one in source order holds it. Each of the others
gives way to the next one, and is reported once for it. -/

namespace HeaderBindings

open List

/-! ## Lists -/

/-- The elements of a list but the last, each with the next one. -/
def successions {α : Type} (l : List α) : List (α × α) := l.zip l.tail

theorem successions_append_singleton {α : Type} (l : List α) (a : α) :
    successions (l ++ [a]) = successions l ++ l.getLast?.toList.map (·, a) := by
  induction l with
  | nil => rfl
  | cons b l ih =>
      cases l with
      | nil => rfl
      | cons c l =>
          rw [List.getLast?_cons_cons]
          exact congrArg ((b, c) :: ·) ih

theorem flatMap_perm_of_eq_append {α β : Type} {l : List α} (hl : l.Nodup) {f g : α → List β}
    {a : α} {more : List β} (ha : a ∈ l) (hself : g a = f a ++ more)
    (hothers : ∀ b, b ≠ a → g b = f b) : l.flatMap g ~ l.flatMap f ++ more := by
  obtain ⟨front, back, rfl⟩ := List.append_of_mem ha
  obtain ⟨-, hback, hfront⟩ := List.nodup_append.mp hl
  have hfrontEq : front.flatMap g = front.flatMap f :=
    List.flatMap_congr fun b hb => hothers b (hfront b hb a List.mem_cons_self)
  have hbackEq : back.flatMap g = back.flatMap f :=
    List.flatMap_congr fun b hb => hothers b fun heq => (List.nodup_cons.mp hback).1 (heq ▸ hb)
  calc
    (front ++ a :: back).flatMap g =
        front.flatMap f ++ (f a ++ (more ++ back.flatMap f)) := by
      rw [List.flatMap_append, List.flatMap_cons, hfrontEq, hbackEq, hself, List.append_assoc]
    _ ~ front.flatMap f ++ (f a ++ (back.flatMap f ++ more)) :=
      (List.perm_append_comm.append_left (f a)).append_left (front.flatMap f)
    _ = (front ++ a :: back).flatMap f ++ more := by
      rw [List.flatMap_append, List.flatMap_cons, List.append_assoc, List.append_assoc]

/-! ## Reports of one place -/

/-- Whether a function is left out because another took its place. -/
def Omission.isShadowed : Omission → Bool
  | shadowed _ => true
  | handWritten | hexName => false

namespace MemberPolicy

variable {policy : MemberPolicy} {functions : List NativeFunction}

/-- The report that the first function gave way to the second. -/
def displacement (pair : NativeFunction × NativeFunction) : Text × Omission :=
  (pair.1.qualifiedName, .shadowed pair.2.qualifiedName)

/-- The places that are taken, each once. -/
def places (policy : MemberPolicy) (functions : List NativeFunction) : List Place :=
  (functions.filterMap policy.place?).dedup

theorem isShadowed_eq_false_of_member_eq_error {d : NativeFunction} {reason : Omission}
    (h : policy.member d = .error reason) : reason.isShadowed = false := by
  have hreason := member_eq_error_iff.mp h
  rw [omission?] at hreason
  rcases NameFilter.omission?_cases policy.names policy.handWritten d with
    ⟨-, hd⟩ | ⟨-, -, hd⟩ | ⟨-, -, hd⟩
  · obtain rfl := Option.some.inj (hd.symm.trans hreason)
    rfl
  · obtain rfl := Option.some.inj (hd.symm.trans hreason)
    rfl
  · exact absurd (hd.symm.trans hreason) (by simp)

/-- A function that is not left out displaces the last one that took its place before. -/
theorem reports_of_member_eq_ok {d : NativeFunction} {m : Member} (h : policy.member d = .ok m) :
    policy.reports functions d =
      (policy.contenders ⟨d.typeName, m.kind, m.exposed⟩ functions).getLast?.toList.map
        fun last => displacement (last, d) := by
  rw [reports, h, loser?, member?_eq_some_iff.mpr h, Option.bind_some, find?_gather]
  cases hlast : (policy.contenders ⟨d.typeName, m.kind, m.exposed⟩ functions).getLast? with
  | none => rfl
  | some last =>
      have hplace : policy.place? last = some ⟨d.typeName, m.kind, m.exposed⟩ := by
        simpa using (List.mem_filter.mp (List.mem_of_getLast? hlast)).2
      obtain ⟨held, hheld, -⟩ := place?_eq_some_iff.mp hplace
      have hfunction := function_of_member_eq_ok hheld
      simp [member?_eq_some_iff.mpr hheld, hfunction, displacement]

/-- The reports that functions gave way, place by place: one for each function that competes for
the place and the next one that does. From the end, a further function meets the last one before it
at its place. -/
theorem filter_isShadowed_skipped_perm {places : List Place} (hplaces : places.Nodup)
    (hall : ∀ d ∈ functions, ∀ place, policy.place? d = some place → place ∈ places) :
    (policy.classify functions).skipped.filter (·.2.isShadowed) ~
      places.flatMap fun place =>
        (successions (policy.contenders place functions)).map displacement := by
  induction functions using List.reverseRecOn with
  | nil =>
      simp [classify, contenders, successions]
  | append_singleton functions d ih =>
      have ih := ih fun e he => hall e (List.mem_append_left _ he)
      rw [skipped_classify_append_singleton, List.filter_append]
      cases hm : policy.member d with
      | error reason =>
          have hplace := place?_eq_none_of_member_eq_error hm
          have hreports : (policy.reports functions d).filter (·.2.isShadowed) = [] := by
            simp [reports, hm, isShadowed_eq_false_of_member_eq_error hm]
          rw [hreports, List.append_nil]
          simpa only [contenders_append_singleton, hplace, reduceCtorEq, if_false] using ih
      | ok m =>
          have hplace : policy.place? d = some ⟨d.typeName, m.kind, m.exposed⟩ :=
            place?_eq_some_iff.mpr ⟨m, hm, rfl⟩
          have hreports : (policy.reports functions d).filter (·.2.isShadowed) =
              policy.reports functions d := by
            rw [List.filter_eq_self, reports_of_member_eq_ok hm]
            intro entry hentry
            obtain ⟨last, -, rfl⟩ := List.mem_map.mp hentry
            rfl
          rw [hreports]
          refine (ih.append_right _).trans (flatMap_perm_of_eq_append hplaces
            (hall d (by simp) _ hplace) ?_ ?_).symm
          · rw [contenders_append_singleton, if_pos hplace, successions_append_singleton,
              List.map_append, reports_of_member_eq_ok hm, List.map_map]
            rfl
          · intro place hne
            rw [contenders_append_singleton, if_neg]
            rw [hplace]
            exact fun heq => hne (Option.some.inj heq).symm

/-! ## All places -/

/-- At every place the later function wins, and every loser is reported once: with the next
function at the place as its winner. -/
structure LaterWins (policy : MemberPolicy) (functions : List NativeFunction)
    (result : Classification) : Prop where
  held : ∀ place last, (policy.contenders place functions).getLast? = some last →
    ∃ b m, Keyed.find? TypeMembers.typeName place.type result.types = some b ∧
      b.find? place.kind place.exposed = some m ∧ policy.member last = .ok m ∧ m.function = last
  shadowed_perm : result.skipped.filter (·.2.isShadowed) ~
    (policy.places functions).flatMap fun place =>
      (successions (policy.contenders place functions)).map displacement

theorem laterWins_classify (policy : MemberPolicy) (functions : List NativeFunction) :
    LaterWins policy functions (policy.classify functions) where
  held := by
    rintro ⟨type, kind, exposed⟩ last hlast
    obtain ⟨hmem, hplace⟩ := List.mem_filter.mp (List.mem_of_getLast? hlast)
    obtain ⟨m, hm, heq⟩ := place?_eq_some_iff.mp (of_decide_eq_true hplace)
    have htype : last.typeName = type := congrArg Place.type heq
    refine ⟨policy.gather type functions, m, ?_, ?_, hm, function_of_member_eq_ok hm⟩
    · rw [find?_types_classify, if_pos ⟨last, hmem, htype⟩]
    · rw [find?_gather, hlast, Option.bind_some, member?_eq_some_iff.mpr hm]
  shadowed_perm := by
    refine filter_isShadowed_skipped_perm (List.nodup_dedup _) ?_
    intro d hd place hplace
    exact List.mem_dedup.mpr (List.mem_filterMap.mpr ⟨d, hd, hplace⟩)

/-- Each gives way to the next one, not to the one that holds the place in the end. -/
example :
    let health : NativeFunction := ⟨"PED", "int", "GET_PED_HEALTH", [⟨"Ped", "ped"⟩], ⟨0, 9⟩⟩
    let unnamed : NativeFunction := ⟨"PED", "int", "_GET_PED_HEALTH", [⟨"Ped", "p0"⟩], ⟨9, 19⟩⟩
    let short : NativeFunction := ⟨"PED", "int", "GET_HEALTH", [⟨"Ped", "ped"⟩], ⟨19, 29⟩⟩
    (classify ⟨⟨stockTypes⟩, {}, {}⟩ [health, unnamed, short]).skipped =
      [displacement (health, unnamed), displacement (unnamed, short)] := by
  decide +kernel

end MemberPolicy

end HeaderBindings
