import HeaderBindings.Proofs.TypeTable
import Mathlib.Data.List.Chain
import Mathlib.Logic.Relation

/-! # Following parents

The parents of a table are a relation between names. A walk along them passes each name once. It
ends at a type without a parent, and then it has passed all ancestors and there is no cycle ahead,
or at a name that it has passed before, and then it has run into a cycle. -/

namespace HeaderBindings.LogicalType

open List Relation

variable {entries pool : List LogicalType} {e : LogicalType} {name child parent : Text}

/-- A type of the table gives the other name as its parent. -/
def Inherits (entries : List LogicalType) (child parent : Text) : Prop :=
  ∃ e ∈ entries, e.name = child ∧ e.parent = some parent

/-- Following the parents of a type leads into a cycle, of which it need not be a part. -/
def RunsIntoCycle (entries : List LogicalType) (name : Text) : Prop :=
  ∃ looped, ReflTransGen (Inherits entries) name looped ∧
    TransGen (Inherits entries) looped looped

theorem Inherits.mono (hsub : pool ⊆ entries) (h : Inherits pool child parent) :
    Inherits entries child parent := by
  obtain ⟨e, he, hname, hparent⟩ := h
  exact ⟨e, hsub he, hname, hparent⟩

/-- Where names are unique, a type inherits from the parent of its entry only. -/
theorem inherits_name_iff (hnames : (entries.map (·.name)).Nodup) (he : e ∈ entries) :
    Inherits entries e.name parent ↔ e.parent = some parent := by
  constructor
  · rintro ⟨d, hd, hname, hparent⟩
    obtain rfl : d = e := List.inj_on_of_nodup_map hnames hd he hname
    exact hparent
  · intro hparent
    exact ⟨e, he, rfl, hparent⟩

theorem rightUnique_inherits (hnames : (entries.map (·.name)).Nodup) :
    Relator.RightUnique (Inherits entries) := by
  rintro child parent other ⟨e, he, rfl, hparent⟩ hother
  exact Option.some.inj (hparent.symm.trans ((inherits_name_iff hnames he).mp hother))

/-- The parent of a type that runs into a cycle runs into it as well: if the type is part of the
cycle, its parent is the next on the way around. -/
theorem RunsIntoCycle.of_inherits (hnames : (entries.map (·.name)).Nodup)
    (h : RunsIntoCycle entries child) (hparent : Inherits entries child parent) :
    RunsIntoCycle entries parent := by
  have hunique := rightUnique_inherits hnames
  obtain ⟨looped, hreach, hloop⟩ := h
  rcases hreach.cases_head with rfl | ⟨next, hnext, hrest⟩
  · obtain ⟨next, hnext, hback⟩ := TransGen.head'_iff.mp hloop
    obtain rfl := hunique hparent hnext
    exact ⟨parent, .refl, TransGen.tail' hback hparent⟩
  · obtain rfl := hunique hparent hnext
    exact ⟨looped, hrest, hloop⟩

/-! ## What a walk passes -/

/-- The names that a walk passes, with the one at which it does not go on. -/
def passed (walk : List LogicalType × Option Text) : List Text :=
  walk.1.map (·.name) ++ walk.2.toList

theorem head?_passed_lineage (name : Text) (pool : List LogicalType) :
    (passed (lineage name pool)).head? = some name := by
  induction name, pool using lineage.induct with
  | case1 name pool hnone =>
      rw [lineage_of_find?_eq_none hnone]
      rfl
  | case2 name pool e hfound hparent =>
      rw [lineage_of_parent_eq_none hfound hparent, ← name_eq_of_find?_eq_some hfound]
      rfl
  | case3 name pool e hfound parent hparent =>
      rw [lineage_of_parent_eq_some hfound hparent, ← name_eq_of_find?_eq_some hfound]
      rfl

theorem isChain_passed_lineage (name : Text) (pool : List LogicalType) :
    (passed (lineage name pool)).IsChain (Inherits pool) := by
  induction name, pool using lineage.induct with
  | case1 name pool hnone =>
      rw [lineage_of_find?_eq_none hnone]
      exact .singleton name
  | case2 name pool e hfound hparent =>
      rw [lineage_of_parent_eq_none hfound hparent]
      exact .singleton e.name
  | case3 name pool e hfound parent hparent others missing hothers ih =>
      rw [lineage_of_parent_eq_some hfound hparent]
      refine List.IsChain.cons (ih.imp fun _ _ => Inherits.mono List.erase_subset) ?_
      intro next hnext
      have hhead := head?_passed_lineage parent (pool.erase e)
      obtain rfl : parent = next := Option.some.inj (hhead.symm.trans hnext)
      exact ⟨e, List.mem_of_find?_eq_some hfound, rfl, hparent⟩

theorem nodup_names_lineage (hnames : (pool.map (·.name)).Nodup) :
    ((lineage name pool).1.map (·.name)).Nodup := by
  induction name, pool using lineage.induct with
  | case1 name pool hnone =>
      rw [lineage_of_find?_eq_none hnone]
      exact List.nodup_nil
  | case2 name pool e hfound hparent =>
      rw [lineage_of_parent_eq_none hfound hparent]
      exact List.nodup_singleton _
  | case3 name pool e hfound parent hparent others missing hothers ih =>
      rw [lineage_of_parent_eq_some hfound hparent]
      have hmem : e ∈ pool := List.mem_of_find?_eq_some hfound
      refine List.nodup_cons.mpr ⟨?_, ih (hnames.sublist (List.erase_sublist.map _))⟩
      intro hagain
      obtain ⟨d, hd, hname⟩ := List.mem_map.mp hagain
      have herased : d ∈ pool.erase e := lineage_subset _ _ hd
      obtain rfl : d = e :=
        List.inj_on_of_nodup_map hnames (List.mem_of_mem_erase herased) hmem hname
      exact hnames.of_map.not_mem_erase herased

/-- A walk does not go on at a name that it has passed before or that has no entry. -/
theorem mem_or_not_mem_of_lineage {stop : Text} (h : (lineage name pool).2 = some stop) :
    stop ∈ (lineage name pool).1.map (·.name) ∨ stop ∉ pool.map (·.name) := by
  induction name, pool using lineage.induct with
  | case1 name pool hnone =>
      rw [lineage_of_find?_eq_none hnone] at h
      obtain rfl := Option.some.inj h
      exact .inr (find?_eq_none_iff.mp hnone)
  | case2 name pool e hfound hparent =>
      rw [lineage_of_parent_eq_none hfound hparent] at h
      cases h
  | case3 name pool e hfound parent hparent others missing hothers ih =>
      rw [lineage_of_parent_eq_some hfound hparent] at h ⊢
      rcases ih h with hmem | hout
      · exact .inl (List.mem_cons_of_mem _ hmem)
      · by_cases hname : stop = e.name
        · exact .inl (by simp [hname])
        · refine .inr fun hmem => hout ?_
          obtain ⟨d, hd, rfl⟩ := List.mem_map.mp hmem
          have hne : d ≠ e := fun heq => hname (heq ▸ rfl)
          exact List.mem_map_of_mem ((List.mem_erase_of_ne hne).mpr hd)

/-! ## Where a walk ends -/

/-- A walk that comes to a name twice runs into a cycle. -/
theorem runsIntoCycle_of_isChain {walk : List Text} {stop : Text}
    (hhead : (walk ++ [stop]).head? = some name)
    (hchain : (walk ++ [stop]).IsChain (Inherits entries)) (hmem : stop ∈ walk) :
    RunsIntoCycle entries name := by
  obtain ⟨front, back, rfl⟩ := List.append_of_mem hmem
  have hreach : (front ++ [stop]).IsChain (Inherits entries) :=
    hchain.prefix ⟨back ++ [stop], by simp⟩
  have hloop : (stop :: (back ++ [stop])).IsChain (Inherits entries) :=
    hchain.suffix ⟨front, by simp⟩
  refine ⟨stop, ?_, ?_⟩
  · cases front with
    | nil =>
        obtain rfl : stop = name := by simpa using hhead
        exact .refl
    | cons first front =>
        obtain rfl : first = name := by simpa using hhead
        exact List.relationReflTransGen_of_exists_isChain_cons _ hreach (by simp)
  · cases back with
    | nil => exact .single (List.isChain_cons_cons.mp hloop).1
    | cons next back =>
        obtain ⟨hnext, hrest⟩ := List.isChain_cons_cons.mp hloop
        exact TransGen.head' hnext
          (List.relationReflTransGen_of_exists_isChain_cons _ hrest (by simp))

theorem eq_of_reflTransGen {ancestor : Text} (hnames : (entries.map (·.name)).Nodup)
    (he : e ∈ entries) (hparent : e.parent = none)
    (h : ReflTransGen (Inherits entries) e.name ancestor) : ancestor = e.name := by
  rcases h.cases_head with rfl | ⟨next, hnext, -⟩
  · rfl
  · have hsome := (inherits_name_iff hnames he).mp hnext
    exact absurd (hsome.symm.trans hparent) (Option.some_ne_none next)

/-- Ahead of a walk that ends at a type without a parent there is no cycle. -/
theorem not_runsIntoCycle_of_lineage (hnames : (entries.map (·.name)).Nodup)
    (hsub : pool ⊆ entries) (hend : (lineage name pool).2 = none) :
    ¬ RunsIntoCycle entries name := by
  induction name, pool using lineage.induct with
  | case1 name pool hnone =>
      rw [lineage_of_find?_eq_none hnone] at hend
      cases hend
  | case2 name pool e hfound hparent =>
      obtain rfl := name_eq_of_find?_eq_some hfound
      have he : e ∈ entries := hsub (List.mem_of_find?_eq_some hfound)
      rintro ⟨looped, hreach, hloop⟩
      obtain rfl := eq_of_reflTransGen hnames he hparent hreach
      obtain ⟨next, hnext, -⟩ := TransGen.head'_iff.mp hloop
      have hsome := (inherits_name_iff hnames he).mp hnext
      exact absurd (hsome.symm.trans hparent) (Option.some_ne_none next)
  | case3 name pool e hfound parent hparent others missing hothers ih =>
      obtain rfl := name_eq_of_find?_eq_some hfound
      rw [lineage_of_parent_eq_some hfound hparent] at hend
      have hstep : Inherits entries e.name parent :=
        ⟨e, hsub (List.mem_of_find?_eq_some hfound), rfl, hparent⟩
      intro hcycle
      exact ih (fun d hd => hsub (List.mem_of_mem_erase hd)) hend
        (hcycle.of_inherits hnames hstep)

/-- A walk that ends at a type without a parent passes all ancestors. -/
theorem mem_names_lineage_of_reflTransGen {ancestor : Text}
    (hnames : (entries.map (·.name)).Nodup) (hsub : pool ⊆ entries)
    (hend : (lineage name pool).2 = none) (h : ReflTransGen (Inherits entries) name ancestor) :
    ancestor ∈ (lineage name pool).1.map (·.name) := by
  induction name, pool using lineage.induct with
  | case1 name pool hnone =>
      rw [lineage_of_find?_eq_none hnone] at hend
      cases hend
  | case2 name pool e hfound hparent =>
      obtain rfl := name_eq_of_find?_eq_some hfound
      have he : e ∈ entries := hsub (List.mem_of_find?_eq_some hfound)
      obtain rfl := eq_of_reflTransGen hnames he hparent h
      rw [lineage_of_parent_eq_none hfound hparent]
      exact List.mem_singleton_self _
  | case3 name pool e hfound parent hparent others missing hothers ih =>
      obtain rfl := name_eq_of_find?_eq_some hfound
      rw [lineage_of_parent_eq_some hfound hparent] at hend ⊢
      have he : e ∈ entries := hsub (List.mem_of_find?_eq_some hfound)
      rcases h.cases_head with rfl | ⟨next, hnext, hrest⟩
      · exact List.mem_cons_self
      · have hsome := (inherits_name_iff hnames he).mp hnext
        obtain rfl := Option.some.inj (hparent.symm.trans hsome)
        exact List.mem_cons_of_mem _
          (ih (fun d hd => hsub (List.mem_of_mem_erase hd)) hend hrest)

end HeaderBindings.LogicalType
