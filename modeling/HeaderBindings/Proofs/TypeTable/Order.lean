import HeaderBindings.Proofs.TypeTable.Verdict
import Mathlib.Data.Prod.Lex
import Mathlib.Order.Lattice.Nat

/-! # The order of an accepted table

The entries stand in the order of their first mention, by themselves or as an ancestor, and those
that are first mentioned together stand from the root down. A list in which parents stand before
their children keeps its order. -/

namespace HeaderBindings

open List Relation

namespace LogicalType

open TypeTable (WellFormed lineage_snd_of_wellFormed)

variable {entries front back added ordered pool : List LogicalType} {d e : LogicalType}
  {name child parent ancestor : Text} {m n : ℕ}

/-- How far a type is below the root of its chain of parents. -/
inductive Depth (entries : List LogicalType) : Text → ℕ → Prop
  | root {e : LogicalType} (mem : e ∈ entries) (rootless : e.parent = none) :
      Depth entries e.name 0
  | child {e : LogicalType} {parent : Text} {n : ℕ} (mem : e ∈ entries)
      (given : e.parent = some parent) (above : Depth entries parent n) :
      Depth entries e.name (n + 1)

/-- The places of a list that mention a type: its own and those of its descendants. -/
def mentionedAt (entries : List LogicalType) (name : Text) : Set ℕ :=
  {i | ∃ d, entries[i]? = some d ∧ ReflTransGen (Inherits entries) d.name name}

/-! ## Depth -/

theorem exists_depth_of_lineage (hsub : pool ⊆ entries) (hend : (lineage name pool).2 = none) :
    ∃ n, Depth entries name n := by
  induction name, pool using lineage.induct with
  | case1 name pool hnone =>
      rw [lineage_of_find?_eq_none hnone] at hend
      cases hend
  | case2 name pool e hfound hparent =>
      obtain rfl := name_eq_of_find?_eq_some hfound
      exact ⟨0, .root (hsub (List.mem_of_find?_eq_some hfound)) hparent⟩
  | case3 name pool e hfound parent hparent others missing hothers ih =>
      obtain rfl := name_eq_of_find?_eq_some hfound
      rw [lineage_of_parent_eq_some hfound hparent] at hend
      obtain ⟨n, hn⟩ := ih (fun d hd => hsub (List.mem_of_mem_erase hd)) hend
      exact ⟨n + 1, .child (hsub (List.mem_of_find?_eq_some hfound)) hparent hn⟩

theorem Depth.lt_of_inherits (hnames : (entries.map (·.name)).Nodup) (h : Depth entries child m)
    (hparent : Inherits entries child parent) : ∃ n < m, Depth entries parent n := by
  cases h with
  | root he hroot =>
      have hsome := (inherits_name_iff hnames he).mp hparent
      exact absurd (hsome.symm.trans hroot) (Option.some_ne_none parent)
  | @child e other n he hgiven habove =>
      have hsome := (inherits_name_iff hnames he).mp hparent
      obtain rfl := Option.some.inj (hgiven.symm.trans hsome)
      exact ⟨n, Nat.lt_succ_self n, habove⟩

theorem Depth.unique (hnames : (entries.map (·.name)).Nodup) (hm : Depth entries name m)
    (hn : Depth entries name n) : m = n := by
  induction hm generalizing n with
  | @root e he hroot =>
      generalize hname : e.name = name at hn
      cases hn with
      | root => rfl
      | child hd hgiven =>
          obtain rfl := List.inj_on_of_nodup_map hnames hd he hname.symm
          exact absurd (hgiven.symm.trans hroot) (Option.some_ne_none _)
  | @child e parent m he hgiven hm ih =>
      generalize hname : e.name = name at hn
      cases hn with
      | root hd hroot =>
          obtain rfl := List.inj_on_of_nodup_map hnames hd he hname.symm
          exact absurd (hgiven.symm.trans hroot) (Option.some_ne_none _)
      | child hd hother hn =>
          obtain rfl := List.inj_on_of_nodup_map hnames hd he hname.symm
          obtain rfl := Option.some.inj (hgiven.symm.trans hother)
          rw [ih hn]

theorem Depth.lt_of_transGen (hnames : (entries.map (·.name)).Nodup)
    (hm : Depth entries child m) (hn : Depth entries ancestor n)
    (h : TransGen (Inherits entries) child ancestor) : n < m := by
  induction h using TransGen.head_induction_on generalizing m with
  | single hstep =>
      obtain ⟨k, hk, hdepth⟩ := hm.lt_of_inherits hnames hstep
      rwa [hn.unique hnames hdepth]
  | head hstep _ ih =>
      obtain ⟨k, hk, hdepth⟩ := hm.lt_of_inherits hnames hstep
      exact (ih hdepth).trans hk

/-! ## Walks in a well-formed table -/

theorem pairwise_lineage (h : WellFormed entries) (he : e ∈ entries) :
    (lineage e.name entries).1.Pairwise
      fun a b => TransGen (Inherits entries) a.name b.name := by
  have hchain := isChain_passed_lineage e.name entries
  rw [passed, lineage_snd_of_wellFormed h he, Option.toList_none, List.append_nil] at hchain
  have hpairs : ((lineage e.name entries).1.map (·.name)).Pairwise
      (TransGen (Inherits entries)) :=
    List.isChain_iff_pairwise.mp (hchain.imp fun _ _ => TransGen.single)
  exact List.pairwise_map.mp hpairs

theorem mem_lineage_iff (h : WellFormed entries) (he : e ∈ entries) (hd : d ∈ entries) :
    d ∈ (lineage e.name entries).1 ↔ ReflTransGen (Inherits entries) e.name d.name := by
  have hend := lineage_snd_of_wellFormed h he
  constructor
  · intro hmem
    have hchain := isChain_passed_lineage e.name entries
    have hhead := head?_passed_lineage e.name entries
    rw [passed, hend, Option.toList_none, List.append_nil] at hchain hhead
    refine hchain.induction (ReflTransGen (Inherits entries) e.name ·) _
      (fun _ _ hstep hreach => hreach.tail hstep) ?_ d.name (List.mem_map_of_mem hmem)
    intro hne
    rw [List.head?_eq_some_head hne] at hhead
    rw [Option.some.inj hhead]
  · intro hreach
    exact mem_of_mem_names h.nodup_names (lineage_subset _ _) hd
      (mem_names_lineage_of_reflTransGen h.nodup_names (List.Subset.refl entries) hend hreach)

/-! ## Adding walks -/

/-- Added entries of different names go behind the others, except those that are there. -/
theorem foldl_addNew_eq (hadded : (added.map (·.name)).Nodup) :
    added.foldl addNew ordered =
      ordered ++ added.filter (fun e => e.name ∉ ordered.map (·.name)) := by
  induction added generalizing ordered with
  | nil => simp
  | cons e added ih =>
      obtain ⟨hnew, hrest⟩ : e.name ∉ added.map (·.name) ∧ (added.map (·.name)).Nodup :=
        List.nodup_cons.mp hadded
      rw [List.foldl_cons, ih hrest, addNew]
      by_cases hmem : e.name ∈ ordered.map (·.name)
      · rw [if_pos (isSome_find?_iff.mpr hmem), List.filter_cons_of_neg (by simpa using hmem)]
      · rw [if_neg (isSome_find?_iff.not.mpr hmem), List.filter_cons_of_pos (by simpa using hmem),
          List.append_assoc, List.singleton_append]
        congr 2
        refine List.filter_congr fun d hd => ?_
        have hne : d.name ≠ e.name := by
          intro heq
          rw [← heq] at hnew
          exact hnew (List.mem_map_of_mem hd)
        simp [hne]

/-- The walks from the first entries of a list, added one after the other. -/
def arranged (entries front : List LogicalType) : List LogicalType :=
  (lineages front entries).foldl addNew []

theorem arranged_concat (h : WellFormed entries) (d : LogicalType) :
    arranged entries (front ++ [d]) =
      arranged entries front ++ (lineage d.name entries).1.reverse.filter
        (fun e => e.name ∉ (arranged entries front).map (·.name)) := by
  have hwalk : ((lineage d.name entries).1.reverse.map (·.name)).Nodup := by
    rw [List.map_reverse]
    exact List.nodup_reverse.mpr (nodup_names_lineage h.nodup_names)
  rw [arranged, lineages, List.flatMap_append, List.flatMap_singleton, List.foldl_append,
    foldl_addNew_eq hwalk]
  rfl

theorem mem_names_arranged_iff (h : WellFormed entries) (hsplit : entries = front ++ back)
    (he : e ∈ entries) :
    e.name ∈ (arranged entries front).map (·.name) ↔
      ∃ i < front.length, i ∈ mentionedAt entries e.name := by
  have hwalk : ∀ d ∈ front, e.name ∈ (lineage d.name entries).1.map (·.name) ↔
      ReflTransGen (Inherits entries) d.name e.name := by
    intro d hd
    have hmem : d ∈ entries := hsplit ▸ List.mem_append_left back hd
    rw [← mem_lineage_iff h hmem he]
    exact ⟨mem_of_mem_names h.nodup_names (lineage_subset _ _) he, List.mem_map_of_mem⟩
  rw [arranged, mem_names_foldl_addNew, lineages, List.map_flatMap, List.mem_flatMap]
  simp only [List.map_reverse, List.mem_reverse, List.map_nil, List.not_mem_nil, or_false]
  constructor
  · rintro ⟨d, hd, hname⟩
    obtain ⟨i, hi, rfl⟩ := List.mem_iff_getElem.mp hd
    have hat : entries[i]? = some front[i] := by
      rw [hsplit, List.getElem?_append_left hi, List.getElem?_eq_getElem hi]
    exact ⟨i, hi, front[i], hat, (hwalk _ hd).mp hname⟩
  · rintro ⟨i, hi, d, hd, hreach⟩
    have hmem : d ∈ front := by
      rw [hsplit, List.getElem?_append_left hi] at hd
      exact List.mem_of_getElem? hd
    exact ⟨d, hmem, (hwalk d hmem).mpr hreach⟩

/-! ## The order of first mentions -/

/-- What the entries are sorted by: the first mention of a type and its depth. -/
structure IsRank (entries : List LogicalType) (name : Text) (first depth : ℕ) : Prop where
  first : IsLeast (mentionedAt entries name) first
  depth : Depth entries name depth

theorem exists_isRank (h : WellFormed entries) (he : e ∈ entries) :
    ∃ first depth, IsRank entries e.name first depth := by
  obtain ⟨i, hi, rfl⟩ := List.mem_iff_getElem.mp he
  obtain ⟨n, hn⟩ := exists_depth_of_lineage (List.Subset.refl entries)
    (lineage_snd_of_wellFormed h he)
  have hmention : (mentionedAt entries entries[i].name).Nonempty :=
    ⟨i, entries[i], List.getElem?_eq_getElem hi, .refl⟩
  exact ⟨_, n, ⟨Nat.sInf_mem hmention, fun _ => Nat.sInf_le⟩, hn⟩

/-- Adding the walks keeps the order: new entries are mentioned here for the first time, and a walk
backwards goes down from the root. -/
theorem pairwise_arranged (h : WellFormed entries) {first depth : LogicalType → ℕ}
    (hrank : ∀ e ∈ entries, IsRank entries e.name (first e) (depth e))
    (hsplit : entries = front ++ back) :
    (arranged entries front).Pairwise
      fun a b => toLex (first a, depth a) < toLex (first b, depth b) := by
  induction front using List.reverseRecOn generalizing back with
  | nil => exact List.Pairwise.nil
  | append_singleton front d ih =>
      rw [List.append_assoc, List.singleton_append] at hsplit
      have hd : d ∈ entries := by simp [hsplit]
      have hat : entries[front.length]? = some d := by simp [hsplit]
      have hnew : ∀ e ∈ (lineage d.name entries).1,
          e.name ∉ (arranged entries front).map (·.name) → first e = front.length := by
        intro e hmem hout
        have he : e ∈ entries := lineage_subset _ _ hmem
        rw [mem_names_arranged_iff h hsplit he] at hout
        have hmention : front.length ∈ mentionedAt entries e.name :=
          ⟨d, hat, (mem_lineage_iff h hd he).mp hmem⟩
        refine Nat.le_antisymm ((hrank e he).first.2 hmention) ?_
        by_contra hlt
        exact hout ⟨first e, by omega, (hrank e he).first.1⟩
      rw [arranged_concat h]
      refine List.pairwise_append.mpr ⟨ih hsplit, ?_, ?_⟩
      · have hwalk := List.pairwise_reverse.mpr (pairwise_lineage h hd)
        refine (hwalk.filter _).imp_of_mem ?_
        intro a b ha hb hanc
        simp only [List.mem_filter, List.mem_reverse, decide_eq_true_eq] at ha hb
        rw [Prod.Lex.toLex_lt_toLex, hnew a ha.1 ha.2, hnew b hb.1 hb.2]
        exact .inr ⟨rfl, (hrank b (lineage_subset _ _ hb.1)).depth.lt_of_transGen h.nodup_names
          (hrank a (lineage_subset _ _ ha.1)).depth hanc⟩
      · intro a ha b hb
        simp only [List.mem_filter, List.mem_reverse, decide_eq_true_eq] at hb
        have hmem : a ∈ entries := foldl_lineages_subset _ _ ha
        obtain ⟨i, hi, hmention⟩ :=
          (mem_names_arranged_iff h hsplit hmem).mp (List.mem_map_of_mem ha)
        rw [Prod.Lex.toLex_lt_toLex, hnew b hb.1 hb.2]
        exact .inl (((hrank a hmem).first.2 hmention).trans_lt hi)

/-! ## Lists that are in order -/

/-- In a list with parents first all ancestors of a type stand before it. -/
theorem ParentsFirst.mem_of_transGen (hnames : (entries.map (·.name)).Nodup)
    (h : ParentsFirst entries) (hsplit : entries = front ++ d :: back)
    (hanc : TransGen (Inherits entries) d.name ancestor) : ancestor ∈ front.map (·.name) := by
  induction hanc with
  | single hstep =>
      exact h front d back hsplit _ ((inherits_name_iff hnames (by simp [hsplit])).mp hstep)
  | tail _ hstep ih =>
      obtain ⟨c, hc, hname⟩ := List.mem_map.mp ih
      obtain ⟨before, behind, rfl⟩ := List.append_of_mem hc
      rw [← hname] at hstep
      have hgiven := (inherits_name_iff hnames (by simp [hsplit])).mp hstep
      have hmem := h before c (behind ++ d :: back) (by simp [hsplit]) _ hgiven
      rw [List.map_append]
      exact List.mem_append_left _ hmem

theorem arranged_eq_of_parentsFirst (h : WellFormed entries) (hfirst : ParentsFirst entries)
    (hsplit : entries = front ++ back) : arranged entries front = front := by
  induction front using List.reverseRecOn generalizing back with
  | nil => rfl
  | append_singleton front d ih =>
      rw [List.append_assoc, List.singleton_append] at hsplit
      have hd : d ∈ entries := by simp [hsplit]
      have hnew : d.name ∉ front.map (·.name) := by
        have hnames := h.nodup_names
        rw [hsplit, List.map_append, List.map_cons, List.nodup_append] at hnames
        exact fun hmem => hnames.2.2 _ hmem _ List.mem_cons_self rfl
      rw [arranged_concat h, ih hsplit]
      congr 1
      have hnodup : ((lineage d.name entries).1.reverse.filter
          (fun e => e.name ∉ front.map (·.name))).Nodup :=
        (List.nodup_reverse.mpr (nodup_names_lineage h.nodup_names).of_map).filter _
      rw [← List.perm_singleton, List.perm_ext_iff_of_nodup hnodup (List.nodup_singleton d)]
      intro e
      simp only [List.mem_filter, List.mem_reverse, decide_eq_true_eq, List.mem_singleton]
      constructor
      · rintro ⟨hmem, hout⟩
        have he : e ∈ entries := lineage_subset _ _ hmem
        have hreach := (mem_lineage_iff h hd he).mp hmem
        rcases Relation.reflTransGen_iff_eq_or_transGen.mp hreach with hname | hanc
        · exact List.inj_on_of_nodup_map h.nodup_names he hd hname
        · exact absurd (hfirst.mem_of_transGen h.nodup_names hsplit hanc) hout
      · rintro rfl
        exact ⟨(mem_lineage_iff h hd hd).mpr .refl, hnew⟩

theorem ancestorsFirst_eq_arranged (entries : List LogicalType) :
    ancestorsFirst entries = arranged entries entries :=
  ancestorsFirst_eq entries

theorem wellFormed_of_perm {other : List LogicalType} (h : WellFormed entries)
    (hperm : other ~ entries) : WellFormed other := by
  have hinherits : Inherits other = Inherits entries := by
    funext child parent
    simp only [Inherits, hperm.mem_iff]
  constructor
  · exact (hperm.map _).nodup_iff.mpr h.nodup_names
  · intro e he parent hparent
    rw [(hperm.map _).mem_iff]
    exact h.parents_known e (hperm.mem_iff.mp he) parent hparent
  · rw [hinherits]
    exact h.acyclic

end LogicalType

namespace TypeTable

open LogicalType

variable {entries : List LogicalType} {table : TypeTable}

/-- How the entries of a table are arranged, given the list that it was made of. -/
structure Arranged (entries : List LogicalType) (table : TypeTable) : Prop where
  perm : table.entries ~ entries
  nodup_names : table.names.Nodup
  /-- Entries ascend by their first mention in the list, and by depth where that is the same. -/
  ascending : ∃ first depth : LogicalType → ℕ,
    (∀ e ∈ entries, IsRank entries e.name (first e) (depth e)) ∧
      table.entries.Pairwise fun a b => toLex (first a, depth a) < toLex (first b, depth b)
  parents_first : ParentsFirst table.entries
  kept : ParentsFirst entries → table.entries = entries
  rebuilt : ofEntries table.entries = .ok table

/-- A list with parents first is accepted in its own order. -/
theorem entries_eq_of_parentsFirst (h : ofEntries entries = .ok table)
    (hfirst : ParentsFirst entries) : table.entries = entries := by
  have hwell : WellFormed entries := exists_ofEntries_eq_ok_iff.mp ⟨table, h⟩
  obtain ⟨-, -, -, rfl⟩ := ofEntries_eq_ok_iff.mp h
  change ancestorsFirst entries = entries
  rw [ancestorsFirst_eq_arranged]
  exact arranged_eq_of_parentsFirst hwell hfirst (List.append_nil entries).symm

/-- The order of an accepted table, whatever list of types it was made of. -/
theorem arranged_of_ofEntries (h : ofEntries entries = .ok table) : Arranged entries table := by
  have hwell : WellFormed entries := exists_ofEntries_eq_ok_iff.mp ⟨table, h⟩
  have hperm := entries_perm_of_ofEntries h
  have hfirst := parentsFirst_of_ofEntries h
  refine ⟨hperm, nodup_names_of_ofEntries h, ?_, hfirst, entries_eq_of_parentsFirst h, ?_⟩
  · choose! first depth hrank using fun e (he : e ∈ entries) => exists_isRank hwell he
    refine ⟨first, depth, hrank, ?_⟩
    obtain ⟨-, -, -, rfl⟩ := ofEntries_eq_ok_iff.mp h
    change (ancestorsFirst entries).Pairwise _
    rw [ancestorsFirst_eq_arranged]
    exact pairwise_arranged hwell hrank (List.append_nil entries).symm
  · obtain ⟨again, hagain⟩ := exists_ofEntries_eq_ok_iff.mpr (wellFormed_of_perm hwell hperm)
    have hsame : again.entries = table.entries := entries_eq_of_parentsFirst hagain hfirst
    rw [hagain]
    exact congrArg Except.ok (congrArg TypeTable.mk hsame)

theorem arranged_of_childrenFirst :
    let listed : List LogicalType :=
      [⟨"Ped", "int", some "Entity", none⟩, ⟨"Blip", "int", none, none⟩,
        ⟨"Vehicle", "int", some "Entity", none⟩, ⟨"Entity", "int", some "Any", none⟩,
        ⟨"Any", "DWORD", none, none⟩]
    let table : TypeTable :=
      ⟨[⟨"Any", "DWORD", none, none⟩, ⟨"Entity", "int", some "Any", none⟩,
        ⟨"Ped", "int", some "Entity", none⟩, ⟨"Blip", "int", none, none⟩,
        ⟨"Vehicle", "int", some "Entity", none⟩]⟩
    ofEntries listed = .ok table ∧ Arranged listed table :=
  have h : ofEntries _ = .ok _ := by decide +kernel
  ⟨h, arranged_of_ofEntries h⟩

end TypeTable

end HeaderBindings
