import HeaderBindings.Proofs.Classification.Succession
import Mathlib.Data.List.Pairwise

/-! # The order of the reports

What is left out is reported when it is settled: a function that its name keeps out at its own
place, one that gives way at the place of the next function that takes its place. The reports
therefore stand in source order unless another function is left out in between. -/

namespace HeaderBindings

open List

/-- The last of the elements that pass a test, between those before and those behind it. -/
theorem exists_append_of_getLast?_filter {α : Type} {test : α → Bool} {l : List α} {a : α}
    (h : (l.filter test).getLast? = some a) :
    ∃ front back, l = front ++ a :: back ∧ test a = true ∧ ∀ b ∈ back, test b = false := by
  obtain ⟨passed, hpassed⟩ := List.getLast?_eq_some_iff.mp h
  obtain ⟨first, rest, rfl, -, hrest⟩ := List.filter_eq_append_iff.mp hpassed
  obtain ⟨skipped, back, rfl, -, ha, hback⟩ := List.filter_eq_cons_iff.mp hrest
  refine ⟨first ++ skipped, back, (List.append_assoc _ _ _).symm, ha, ?_⟩
  simpa using List.filter_eq_nil_iff.mp hback

theorem sublist_drop_of_pairwise_lt {α : Type} {l m : List α} {positions : List Nat}
    (hget : Forall₂ (fun i a => l[i]? = some a) positions m)
    (hlt : positions.Pairwise (· < ·)) {k : Nat} (hk : ∀ i ∈ positions, k ≤ i) :
    m <+ l.drop k := by
  induction hget generalizing k with
  | nil => exact List.nil_sublist _
  | @cons i a positions m hi hget ih =>
      obtain ⟨hfirst, hlt⟩ := List.pairwise_cons.mp hlt
      obtain ⟨hbound, rfl⟩ := List.getElem?_eq_some_iff.mp hi
      calc
        l[i] :: m <+ l[i] :: l.drop (i + 1) := (ih hlt hfirst).cons_cons _
        _ = l.drop i := (List.drop_eq_getElem_cons hbound).symm
        _ <+ l.drop k := List.drop_sublist_drop_left l (hk i List.mem_cons_self)

namespace MemberPolicy

variable {policy : MemberPolicy} {functions others : List NativeFunction} {d : NativeFunction}

/-- A function that is left out: where it stands, and where the function stands that settles
it. -/
structure Withdrawal where
  position : Nat
  settledAt : Nat
deriving DecidableEq

/-- A withdrawal with its report: a name keeps out its own function, and a function gives way to
the next one that takes its place. -/
inductive Withdraws (policy : MemberPolicy) (functions : List NativeFunction) :
    Withdrawal → Text × Omission → Prop
  | byName {i : Nat} {d : NativeFunction} {reason : Omission} (hd : functions[i]? = some d)
      (h : policy.member d = .error reason) :
      Withdraws policy functions ⟨i, i⟩ (d.qualifiedName, reason)
  | displaced {i j : Nat} {d winner : NativeFunction} {place : Place}
      (hd : functions[i]? = some d) (hwinner : functions[j]? = some winner) (hlt : i < j)
      (hplace : policy.place? d = some place) (hsame : policy.place? winner = some place)
      (hnext : ∀ k e, i < k → k < j → functions[k]? = some e → policy.place? e ≠ some place) :
      Withdraws policy functions ⟨i, j⟩ (displacement (d, winner))

/-! ## One withdrawal -/

namespace Withdraws

variable {w : Withdrawal} {entry entry' : Text × Omission} {i i' j j' : Nat}

theorem exists_function (h : Withdraws policy functions w entry) :
    ∃ d, functions[w.position]? = some d ∧ d.qualifiedName = entry.1 := by
  cases h with
  | byName hd _ => exact ⟨_, hd, rfl⟩
  | displaced hd _ _ _ _ _ => exact ⟨_, hd, rfl⟩

theorem settledAt_lt (h : Withdraws policy functions w entry) :
    w.settledAt < functions.length := by
  cases h with
  | byName hd _ => exact (List.getElem?_eq_some_iff.mp hd).1
  | displaced _ hwinner _ _ _ _ => exact (List.getElem?_eq_some_iff.mp hwinner).1

/-- A function is left out at most once. -/
theorem settledAt_unique (h : Withdraws policy functions ⟨i, j⟩ entry)
    (h' : Withdraws policy functions ⟨i, j'⟩ entry') : j = j' := by
  cases h with
  | byName hd herror =>
      cases h' with
      | byName _ _ => rfl
      | displaced hd' _ _ hplace _ _ =>
          obtain rfl := Option.some.inj (hd.symm.trans hd')
          simp [place?_eq_none_of_member_eq_error herror] at hplace
  | displaced hd hwinner hlt hplace hsame hnext =>
      cases h' with
      | byName hd' herror =>
          obtain rfl := Option.some.inj (hd.symm.trans hd')
          simp [place?_eq_none_of_member_eq_error herror] at hplace
      | displaced hd' hwinner' hlt' hplace' hsame' hnext' =>
          obtain rfl := Option.some.inj (hd.symm.trans hd')
          obtain rfl := Option.some.inj (hplace.symm.trans hplace')
          rcases Nat.lt_trichotomy j j' with hj | hj | hj
          · exact absurd hsame (hnext' j _ hlt hj hwinner)
          · exact hj
          · exact absurd hsame' (hnext j' _ hlt' hj hwinner')

/-- A function settles at most one withdrawal. -/
theorem position_unique (h : Withdraws policy functions ⟨i, j⟩ entry)
    (h' : Withdraws policy functions ⟨i', j⟩ entry') : i = i' := by
  cases h with
  | byName hd herror =>
      cases h' with
      | byName _ _ => rfl
      | displaced _ hwinner _ _ hsame _ =>
          obtain rfl := Option.some.inj (hd.symm.trans hwinner)
          simp [place?_eq_none_of_member_eq_error herror] at hsame
  | displaced hd hwinner hlt hplace hsame hnext =>
      cases h' with
      | byName hd' herror =>
          obtain rfl := Option.some.inj (hwinner.symm.trans hd')
          simp [place?_eq_none_of_member_eq_error herror] at hsame
      | displaced hd' hwinner' hlt' hplace' hsame' hnext' =>
          obtain rfl := Option.some.inj (hwinner.symm.trans hwinner')
          obtain rfl := Option.some.inj (hsame.symm.trans hsame')
          rcases Nat.lt_trichotomy i i' with hi | hi | hi
          · exact absurd hplace' (hnext i' _ hi hlt' hd')
          · exact hi
          · exact absurd hplace (hnext' i _ hi hlt hd)

theorem some_eq_some_iff (h : Withdraws policy functions ⟨i, j⟩ entry) :
    some ⟨i, j⟩ = some w ↔ w.settledAt = j ∧ ∃ entry, Withdraws policy functions w entry := by
  constructor
  · intro heq
    obtain rfl := Option.some.inj heq
    exact ⟨rfl, entry, h⟩
  · obtain ⟨i', j'⟩ := w
    rintro ⟨rfl, entry', h'⟩
    rw [h.position_unique h']

theorem congr (hget : ∀ k, k ≤ w.settledAt → others[k]? = functions[k]?)
    (h : Withdraws policy functions w entry) : Withdraws policy others w entry := by
  cases h with
  | byName hd herror => exact .byName ((hget _ le_rfl).trans hd) herror
  | displaced hd hwinner hlt hplace hsame hnext =>
      refine .displaced ((hget _ hlt.le).trans hd) ((hget _ le_rfl).trans hwinner) hlt hplace
        hsame ?_
      intro k e hik hkj he
      exact hnext k e hik hkj ((hget k hkj.le).symm.trans he)

end Withdraws

theorem withdraws_append_iff {w : Withdrawal} {entry : Text × Omission}
    (hw : w.settledAt < functions.length) :
    Withdraws policy (functions ++ others) w entry ↔ Withdraws policy functions w entry := by
  have hget : ∀ k, k ≤ w.settledAt → (functions ++ others)[k]? = functions[k]? :=
    fun k hk => List.getElem?_append_left (hk.trans_lt hw)
  exact ⟨.congr fun k hk => (hget k hk).symm, .congr hget⟩

/-! ## The last function -/

/-- A function that is not left out displaces the last one that took its place before. -/
theorem withdraws_last {loser : NativeFunction} {place : Place}
    (hplace : policy.place? d = some place)
    (hloser : (policy.contenders place functions).getLast? = some loser) :
    ∃ i, Withdraws policy (functions ++ [d]) ⟨i, functions.length⟩ (displacement (loser, d)) := by
  obtain ⟨front, back, rfl, htest, hback⟩ := exists_append_of_getLast?_filter hloser
  refine ⟨front.length, .displaced ?_ List.getElem?_concat_length (by simp)
    (of_decide_eq_true htest) hplace ?_⟩
  · simp
  · intro k e hk hklt he
    rw [List.getElem?_append_left hklt, List.getElem?_append_right hk.le, List.getElem?_cons,
      if_neg (by omega)] at he
    exact of_decide_eq_false (hback e (List.mem_of_getElem? he))

theorem not_withdraws_last {place : Place} (hplace : policy.place? d = some place)
    (hfirst : policy.contenders place functions = []) {w : Withdrawal}
    (hw : w.settledAt = functions.length) (entry : Text × Omission) :
    ¬ Withdraws policy (functions ++ [d]) w entry := by
  have hlast : (functions ++ [d])[functions.length]? = some d := List.getElem?_concat_length
  intro h
  cases h with
  | byName hd herror =>
      obtain rfl := hw
      obtain rfl := Option.some.inj (hlast.symm.trans hd)
      simp [place?_eq_none_of_member_eq_error herror] at hplace
  | displaced hd hwinner hlt hloser hsame _ =>
      obtain rfl := hw
      obtain rfl := Option.some.inj (hlast.symm.trans hwinner)
      obtain rfl := Option.some.inj (hplace.symm.trans hsame)
      rw [List.getElem?_append_left hlt] at hd
      exact List.filter_eq_nil_iff.mp hfirst _ (List.mem_of_getElem? hd) (decide_eq_true hloser)

/-- What one more function settles is what is reported for it. -/
theorem exists_settled (policy : MemberPolicy) (functions : List NativeFunction)
    (d : NativeFunction) :
    ∃ settled : Option Withdrawal,
      Forall₂ (Withdraws policy (functions ++ [d])) settled.toList (policy.reports functions d) ∧
        ∀ w, settled = some w ↔
          w.settledAt = functions.length ∧
            ∃ entry, Withdraws policy (functions ++ [d]) w entry := by
  cases hd : policy.member d with
  | error reason =>
      have h : Withdraws policy (functions ++ [d]) ⟨functions.length, functions.length⟩
          (d.qualifiedName, reason) := .byName List.getElem?_concat_length hd
      refine ⟨some ⟨functions.length, functions.length⟩, ?_, fun w => h.some_eq_some_iff⟩
      rw [reports, hd]
      exact .cons h .nil
  | ok m =>
      have hplace : policy.place? d = some ⟨d.typeName, m.kind, m.exposed⟩ :=
        place?_eq_some_iff.mpr ⟨m, hd, rfl⟩
      rw [reports_of_member_eq_ok hd]
      cases hloser : (policy.contenders ⟨d.typeName, m.kind, m.exposed⟩ functions).getLast? with
      | none =>
          refine ⟨none, .nil, fun w => ⟨fun h => absurd h (by simp), ?_⟩⟩
          rintro ⟨hw, entry, h⟩
          exact absurd h (not_withdraws_last hplace (List.getLast?_eq_none_iff.mp hloser) hw entry)
      | some loser =>
          obtain ⟨i, h⟩ := withdraws_last hplace hloser
          exact ⟨some ⟨i, functions.length⟩, .cons h .nil, fun w => h.some_eq_some_iff⟩

/-! ## All functions -/

/-- The withdrawals of a classification in the order of the functions that settle them, each with
its report. -/
structure ReportOrder (policy : MemberPolicy) (functions : List NativeFunction)
    (skipped : List (Text × Omission)) (withdrawals : List Withdrawal) : Prop where
  mem_iff : ∀ w, w ∈ withdrawals ↔ ∃ entry, Withdraws policy functions w entry
  reports : Forall₂ (Withdraws policy functions) withdrawals skipped
  settled_ascend : withdrawals.Pairwise (·.settledAt < ·.settledAt)

/-- What the last function settles is reported last, so the induction is from the end. -/
theorem exists_reportOrder (policy : MemberPolicy) (functions : List NativeFunction) :
    ∃ withdrawals,
      ReportOrder policy functions (policy.classify functions).skipped withdrawals := by
  induction functions using List.reverseRecOn with
  | nil =>
      refine ⟨[], fun w => ?_, .nil, .nil⟩
      have hnone : ∀ entry, ¬ Withdraws policy [] w entry :=
        fun entry h => Nat.not_lt_zero _ h.settledAt_lt
      simp [hnone]
  | append_singleton functions d ih =>
      obtain ⟨withdrawals, ih⟩ := ih
      obtain ⟨settled, hreports, hsettled⟩ := exists_settled policy functions d
      have hlt : ∀ w ∈ withdrawals, w.settledAt < functions.length := by
        intro w hw
        obtain ⟨entry, h⟩ := (ih.mem_iff w).mp hw
        exact h.settledAt_lt
      refine ⟨withdrawals ++ settled.toList, ?_, ?_, ?_⟩
      · intro w
        rw [List.mem_append, Option.mem_toList, hsettled, ih.mem_iff]
        constructor
        · rintro (⟨entry, h⟩ | ⟨-, h⟩)
          · exact ⟨entry, (withdraws_append_iff h.settledAt_lt).mpr h⟩
          · exact h
        · rintro ⟨entry, h⟩
          have hbound : w.settledAt < functions.length + 1 := by
            simpa using h.settledAt_lt
          rcases Nat.lt_succ_iff_lt_or_eq.mp hbound with hw | hw
          · exact .inl ⟨entry, (withdraws_append_iff hw).mp h⟩
          · exact .inr ⟨hw, entry, h⟩
      · rw [skipped_classify_append_singleton]
        refine List.rel_append (ih.reports.imp fun w entry h => ?_) hreports
        exact (withdraws_append_iff h.settledAt_lt).mpr h
      · refine List.pairwise_append.mpr ⟨ih.settled_ascend, ?_, ?_⟩
        · cases settled <;> simp
        · intro w hw last hlast
          have hat := ((hsettled last).mp (Option.mem_toList.mp hlast)).1
          exact hat ▸ hlt w hw

/-! ## Source order -/

/-- Whether another function is left out while the first one still waits to be displaced. -/
def Withdrawal.Encloses (outer inner : Withdrawal) : Prop :=
  outer.position < inner.position ∧ inner.settledAt < outer.settledAt

/-- The functions that the reports name stand in this order. -/
def InSourceOrder (functions : List NativeFunction) (skipped : List (Text × Omission)) : Prop :=
  skipped.map (·.1) <+ functions.map (·.qualifiedName)

instance (functions : List NativeFunction) (skipped : List (Text × Omission)) :
    Decidable (InSourceOrder functions skipped) :=
  inferInstanceAs (Decidable (_ <+ _))

namespace ReportOrder

variable {skipped : List (Text × Omission)} {withdrawals : List Withdrawal}

theorem positions_ascend_iff (h : ReportOrder policy functions skipped withdrawals) :
    withdrawals.Pairwise (·.position < ·.position) ↔
      ∀ outer ∈ withdrawals, ∀ inner ∈ withdrawals, ¬ outer.Encloses inner := by
  constructor
  · rintro hascend outer houter inner hinner ⟨hposition, hsettled⟩
    have hmono : ∀ ⦃v⦄, v ∈ withdrawals → ∀ ⦃w⦄, w ∈ withdrawals →
        v.settledAt < w.settledAt → v.position < w.position := by
      refine List.Pairwise.forall_of_forall_of_flip ?_ ?_ ?_
      · exact fun w _ hlt => absurd hlt (lt_irrefl _)
      · refine hascend.imp ?_
        exact fun hlt _ => hlt
      · refine h.settled_ascend.imp ?_
        exact fun hlt hgt => absurd hlt hgt.not_gt
    exact absurd hposition (hmono hinner houter hsettled).not_gt
  · intro hnone
    refine h.settled_ascend.imp_of_mem fun {v w} hv hw hlt => ?_
    rcases Nat.lt_trichotomy v.position w.position with hposition | hposition | hposition
    · exact hposition
    · obtain ⟨entry, hentry⟩ := (h.mem_iff v).mp hv
      obtain ⟨entry', hentry'⟩ := (h.mem_iff w).mp hw
      obtain ⟨i, j⟩ := v
      obtain ⟨i', j'⟩ := w
      obtain rfl : i = i' := hposition
      exact absurd (hentry.settledAt_unique hentry') hlt.ne
    · exact absurd ⟨hposition, hlt⟩ (hnone w hw v hv)

theorem inSourceOrder (h : ReportOrder policy functions skipped withdrawals)
    (hascend : withdrawals.Pairwise (·.position < ·.position)) :
    InSourceOrder functions skipped := by
  have hget : Forall₂ (fun i name => (functions.map (·.qualifiedName))[i]? = some name)
      (withdrawals.map (·.position)) (skipped.map (·.1)) := by
    rw [List.forall₂_map_left_iff, List.forall₂_map_right_iff]
    refine h.reports.imp fun w entry hw => ?_
    obtain ⟨d, hd, hname⟩ := hw.exists_function
    rw [List.getElem?_map, hd, Option.map_some, hname]
  exact sublist_drop_of_pairwise_lt hget (List.pairwise_map.mpr hascend) fun i _ => Nat.zero_le i

end ReportOrder

/-- The reports stand in the order in which they are settled. That is source order, unless another
function is left out while one still waits to be displaced. -/
theorem skipped_order (policy : MemberPolicy) (functions : List NativeFunction) :
    ∃ withdrawals,
      ReportOrder policy functions (policy.classify functions).skipped withdrawals ∧
        (withdrawals.Pairwise (·.position < ·.position) ↔
          ∀ outer ∈ withdrawals, ∀ inner ∈ withdrawals, ¬ outer.Encloses inner) ∧
        (withdrawals.Pairwise (·.position < ·.position) →
          InSourceOrder functions (policy.classify functions).skipped) := by
  obtain ⟨withdrawals, h⟩ := exists_reportOrder policy functions
  exact ⟨withdrawals, h, h.positions_ascend_iff, h.inSourceOrder⟩

/-- A hexadecimal name between two functions of one place. -/
theorem not_forall_inSourceOrder_skipped :
    ¬ ∀ (policy : MemberPolicy) (functions : List NativeFunction),
      InSourceOrder functions (policy.classify functions).skipped := by
  intro h
  have hhealth := h ⟨⟨stockTypes⟩, {}, {}⟩
    [⟨"PED", "int", "GET_PED_HEALTH", [⟨"Ped", "ped"⟩], ⟨0, 9⟩⟩,
      ⟨"AUDIO", "void", "_0xDEADBEEF", [], ⟨9, 19⟩⟩,
      ⟨"PED", "int", "_GET_PED_HEALTH", [⟨"Ped", "ped"⟩], ⟨19, 29⟩⟩]
  revert hhealth
  decide +kernel

end MemberPolicy

end HeaderBindings
