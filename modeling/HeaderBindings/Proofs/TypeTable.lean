import HeaderBindings.Proofs.Keyed
import HeaderBindings.TypeTable

/-! # Accepted tables

An accepted table holds the given entries in an order in which each parent stands before its
children. It names each type once, and the unregistered candidates are the others, each once. -/

namespace HeaderBindings

open List

namespace LogicalType

/-! ## Names -/

variable {entries ordered part pool : List LogicalType} {e : LogicalType} {name : Text}

theorem find?_eq_none_iff : find? name entries = none ↔ name ∉ entries.map (·.name) := by
  simp [find?]

theorem isSome_find?_iff : (find? name entries).isSome = true ↔ name ∈ entries.map (·.name) := by
  rw [Option.isSome_iff_ne_none, ne_eq, find?_eq_none_iff, not_not]

/-- Where names are unique, a part of the table that holds the name of an entry holds the entry. -/
theorem mem_of_mem_names (hnames : (entries.map (·.name)).Nodup) (hpart : part ⊆ entries)
    (he : e ∈ entries) (h : e.name ∈ part.map (·.name)) : e ∈ part := by
  obtain ⟨d, hd, hname⟩ := List.mem_map.mp h
  rwa [← List.inj_on_of_nodup_map hnames (hpart hd) he hname]

theorem nodup_names_addNew (h : (ordered.map (·.name)).Nodup) (e : LogicalType) :
    ((addNew ordered e).map (·.name)).Nodup := by
  rw [addNew]
  split
  next => exact h
  next hnew =>
    rw [isSome_find?_iff] at hnew
    rw [List.map_append, List.nodup_append]
    refine ⟨h, by simp, ?_⟩
    intro name hname other hother heq
    obtain rfl : other = e.name := List.mem_singleton.mp hother
    exact hnew (heq ▸ hname)

theorem nodup_names_foldl_addNew (added : List LogicalType)
    (h : (ordered.map (·.name)).Nodup) :
    ((added.foldl addNew ordered).map (·.name)).Nodup := by
  induction added generalizing ordered with
  | nil => exact h
  | cons e added ih => exact ih (nodup_names_addNew h e)

theorem nodup_names_of_firstDuplicate?_eq_none {seen : List Text}
    (h : firstDuplicate? seen entries = none) :
    (entries.map (·.name)).Nodup ∧ ∀ name ∈ entries.map (·.name), name ∉ seen := by
  induction entries generalizing seen with
  | nil => simp
  | cons e rest ih =>
      change (if e.name ∈ seen then some e.name else firstDuplicate? (e.name :: seen) rest) =
        none at h
      split at h
      next => exact absurd h (Option.some_ne_none _)
      next hnew =>
        obtain ⟨hnodup, hrest⟩ := ih h
        refine ⟨List.nodup_cons.mpr ⟨fun hmem => hrest _ hmem (by simp), hnodup⟩, ?_⟩
        intro name hname
        rcases List.mem_cons.mp hname with rfl | hname
        · exact hnew
        · exact fun hseen => hrest name hname (List.mem_cons_of_mem _ hseen)

/-! ## Parents -/

/-- The parent of every entry stands before it. -/
def ParentsFirst (entries : List LogicalType) : Prop :=
  ∀ front e back, entries = front ++ e :: back →
    ∀ parent, e.parent = some parent → parent ∈ front.map (·.name)

theorem parentsFirst_nil : ParentsFirst [] := by
  intro front e back h
  exact absurd h.symm (by simp)

theorem ParentsFirst.concat (h : ParentsFirst entries)
    (he : ∀ parent, e.parent = some parent → parent ∈ entries.map (·.name)) :
    ParentsFirst (entries ++ [e]) := by
  intro front other back hsplit
  rcases List.eq_nil_or_concat' back with rfl | ⟨back, last, rfl⟩
  · obtain ⟨rfl, rfl⟩ := List.append_singleton_inj.mp hsplit
    exact he
  · rw [← List.cons_append, ← List.append_assoc] at hsplit
    exact h front other back (List.append_singleton_inj.mp hsplit).1

theorem mem_names_addNew :
    name ∈ (addNew ordered e).map (·.name) ↔ name = e.name ∨ name ∈ ordered.map (·.name) := by
  rw [addNew]
  split
  next hold =>
    refine ⟨.inr, ?_⟩
    rintro (rfl | h)
    · exact isSome_find?_iff.mp hold
    · exact h
  next => rw [List.map_append, List.mem_append, List.map_singleton, List.mem_singleton, or_comm]

theorem mem_names_foldl_addNew (added : List LogicalType) :
    name ∈ (added.foldl addNew ordered).map (·.name) ↔
      name ∈ added.map (·.name) ∨ name ∈ ordered.map (·.name) := by
  induction added generalizing ordered with
  | nil => simp
  | cons e added ih =>
      rw [List.foldl_cons, ih, mem_names_addNew, List.map_cons, List.mem_cons]
      tauto

theorem ParentsFirst.addNew (h : ParentsFirst ordered)
    (he : ∀ parent, e.parent = some parent → parent ∈ ordered.map (·.name)) :
    ParentsFirst (addNew ordered e) := by
  rw [LogicalType.addNew]
  split
  · exact h
  · exact h.concat he

/-! ## Walks along parents -/

theorem name_eq_of_find?_eq_some (h : find? name pool = some e) :
    e.name = name := by
  simpa using List.find?_some h

theorem lineage_of_find?_eq_none (h : find? name pool = none) :
    lineage name pool = ([], some name) := by
  rw [lineage]
  split
  next => rfl
  next hfound => exact absurd (hfound.symm.trans h) (Option.some_ne_none _)

theorem lineage_of_parent_eq_none (h : find? name pool = some e)
    (hparent : e.parent = none) : lineage name pool = ([e], none) := by
  rw [lineage]
  split
  next hnone => exact absurd (h.symm.trans hnone) (Option.some_ne_none e)
  next found hfound =>
    obtain rfl : found = e := Option.some.inj (hfound.symm.trans h)
    rw [hparent]

theorem lineage_of_parent_eq_some {parent : Text}
    (h : find? name pool = some e) (hparent : e.parent = some parent) :
    lineage name pool =
      (e :: (lineage parent (pool.erase e)).1, (lineage parent (pool.erase e)).2) := by
  rw [lineage]
  split
  next hnone => exact absurd (h.symm.trans hnone) (Option.some_ne_none e)
  next found hfound =>
    obtain rfl : found = e := Option.some.inj (hfound.symm.trans h)
    rw [hparent]

/-- A walk along parents that ends, taken backwards, adds each entry behind its parent. The
walk's last entry has no parent, so the induction is on the walk. -/
theorem ParentsFirst.foldl_lineage (h : ParentsFirst ordered)
    (hend : (lineage name pool).2 = none) :
    ParentsFirst ((lineage name pool).1.reverse.foldl LogicalType.addNew ordered) ∧
      name ∈ (lineage name pool).1.map (·.name) := by
  induction name, pool using lineage.induct with
  | case1 name pool hnone =>
      rw [lineage_of_find?_eq_none hnone] at hend
      cases hend
  | case2 name pool e hfound hparent =>
      rw [lineage_of_parent_eq_none hfound hparent]
      refine ⟨h.addNew ?_, by simp [name_eq_of_find?_eq_some hfound]⟩
      rw [hparent]
      exact fun _ hsome => absurd hsome.symm (Option.some_ne_none _)
  | case3 name pool e hfound parent hparent others missing hothers ih =>
      rw [lineage_of_parent_eq_some hfound hparent] at hend ⊢
      obtain ⟨hbefore, hmem⟩ := ih hend
      refine ⟨?_, by simp [name_eq_of_find?_eq_some hfound]⟩
      rw [List.reverse_cons, List.foldl_append, List.foldl_cons, List.foldl_nil]
      refine hbefore.addNew ?_
      rw [hparent]
      rintro _ ⟨⟩
      rw [mem_names_foldl_addNew, List.map_reverse, List.mem_reverse]
      exact .inl hmem

theorem lineage_subset (name : Text) (pool : List LogicalType) : (lineage name pool).1 ⊆ pool := by
  induction name, pool using lineage.induct with
  | case1 name pool hnone =>
      rw [lineage_of_find?_eq_none hnone]
      exact List.nil_subset pool
  | case2 name pool e hfound hparent =>
      rw [lineage_of_parent_eq_none hfound hparent]
      exact List.cons_subset.mpr ⟨List.mem_of_find?_eq_some hfound, List.nil_subset pool⟩
  | case3 name pool e hfound parent hparent others missing hothers ih =>
      rw [lineage_of_parent_eq_some hfound hparent]
      exact List.cons_subset.mpr
        ⟨List.mem_of_find?_eq_some hfound, fun a ha => List.mem_of_mem_erase (ih ha)⟩

theorem foldl_addNew_subset (added ordered : List LogicalType) :
    added.foldl addNew ordered ⊆ ordered ++ added := by
  induction added generalizing ordered with
  | nil => simp
  | cons e added ih =>
      intro a ha
      have hstep : addNew ordered e ⊆ ordered ++ [e] := by
        rw [addNew]
        split
        · exact List.subset_append_left _ _
        · exact List.Subset.refl _
      have hmem := ih (addNew ordered e) ha
      simp only [List.mem_append, List.mem_cons] at hmem ⊢
      have := @hstep a
      simp only [List.mem_append, List.mem_singleton] at this
      tauto

/-! ## The order of a table -/

/-- The walks from the entries of a table, each backwards and one after the other. -/
def lineages (listed entries : List LogicalType) : List LogicalType :=
  listed.flatMap fun e => (lineage e.name entries).1.reverse

theorem ancestorsFirst_eq (entries : List LogicalType) :
    ancestorsFirst entries = (lineages entries entries).foldl addNew [] := by
  rw [ancestorsFirst, lineages, List.foldl_flatMap]

theorem nodup_names_ancestorsFirst (entries : List LogicalType) :
    ((ancestorsFirst entries).map (·.name)).Nodup := by
  rw [ancestorsFirst_eq]
  exact nodup_names_foldl_addNew _ List.nodup_nil

theorem foldl_lineages_subset (listed entries : List LogicalType) :
    (lineages listed entries).foldl addNew [] ⊆ entries := by
  intro a ha
  obtain ⟨e, -, ha⟩ := List.mem_flatMap.mp (foldl_addNew_subset _ _ ha)
  exact lineage_subset _ _ (List.mem_reverse.mp ha)

theorem lineage_snd_eq_none (h : firstCycle? entries = none) (he : e ∈ entries) :
    (lineage e.name entries).2 = none := by
  have hnone := List.findSome?_eq_none_iff.mp h e he
  split at hnone
  next => exact absurd hnone (Option.some_ne_none _)
  next _ hwalk => rw [hwalk]

theorem parentsFirst_ancestorsFirst (h : firstCycle? entries = none) :
    ParentsFirst (ancestorsFirst entries) := by
  suffices ∀ listed ⊆ entries, ∀ ordered, ParentsFirst ordered →
      ParentsFirst ((lineages listed entries).foldl addNew ordered) by
    rw [ancestorsFirst_eq]
    exact this entries (List.Subset.refl _) [] parentsFirst_nil
  intro listed
  induction listed with
  | nil => exact fun _ _ hordered => hordered
  | cons e listed ih =>
      intro hlisted ordered hordered
      obtain ⟨he, hrest⟩ := List.cons_subset.mp hlisted
      rw [lineages, List.flatMap_cons, List.foldl_append]
      exact ih hrest _ (hordered.foldl_lineage (lineage_snd_eq_none h he)).1

/-- No entry is lost or repeated on the way into that order. -/
theorem ancestorsFirst_perm (hnames : (entries.map (·.name)).Nodup)
    (h : firstCycle? entries = none) : ancestorsFirst entries ~ entries := by
  have hsub : ancestorsFirst entries ⊆ entries := by
    rw [ancestorsFirst_eq]
    exact foldl_lineages_subset entries entries
  have hnodup : (ancestorsFirst entries).Nodup := (nodup_names_ancestorsFirst entries).of_map
  refine (List.perm_ext_iff_of_nodup hnodup hnames.of_map).mpr ?_
  intro e
  refine ⟨fun he => hsub he, fun he => ?_⟩
  have hwalk := (parentsFirst_nil.foldl_lineage (lineage_snd_eq_none h he)).2
  refine mem_of_mem_names hnames hsub he ?_
  rw [ancestorsFirst_eq, mem_names_foldl_addNew, lineages, List.map_flatMap, List.mem_flatMap]
  exact .inl ⟨e, he, by rwa [List.map_reverse, List.mem_reverse]⟩

end LogicalType

namespace TypeTable

open LogicalType (ParentsFirst)

variable {entries : List LogicalType} {table : TypeTable}

theorem ofEntries_eq_ok_iff :
    ofEntries entries = .ok table ↔
      LogicalType.firstDuplicate? [] entries = none ∧ LogicalType.firstOrphan? entries = none ∧
        LogicalType.firstCycle? entries = none ∧
        table = ⟨LogicalType.ancestorsFirst entries⟩ := by
  rw [ofEntries]
  cases LogicalType.firstDuplicate? [] entries <;> cases LogicalType.firstOrphan? entries <;>
    cases LogicalType.firstCycle? entries <;> simp [eq_comm]

/-- No name is registered twice in an accepted table. -/
theorem nodup_names_of_ofEntries {entries : List LogicalType} {table : TypeTable}
    (h : ofEntries entries = .ok table) : table.names.Nodup := by
  obtain ⟨-, -, -, rfl⟩ := ofEntries_eq_ok_iff.mp h
  exact LogicalType.nodup_names_ancestorsFirst entries

/-- An accepted table holds what it was made of. -/
theorem entries_perm_of_ofEntries (h : ofEntries entries = .ok table) :
    table.entries ~ entries := by
  obtain ⟨hdiff, -, hcycle, rfl⟩ := ofEntries_eq_ok_iff.mp h
  exact LogicalType.ancestorsFirst_perm
    (LogicalType.nodup_names_of_firstDuplicate?_eq_none hdiff).1 hcycle

/-- In an accepted table the parent of every type stands before it. -/
theorem parentsFirst_of_ofEntries (h : ofEntries entries = .ok table) :
    ParentsFirst table.entries := by
  obtain ⟨-, -, hcycle, rfl⟩ := ofEntries_eq_ok_iff.mp h
  exact LogicalType.parentsFirst_ancestorsFirst hcycle

theorem contains_iff {table : TypeTable} {name : Text} :
    table.contains name = true ↔ name ∈ table.names :=
  LogicalType.isSome_find?_iff

theorem mem_unregistered {table : TypeTable} {candidates : List Text} {name : Text} :
    name ∈ table.unregistered candidates ↔ name ∈ candidates ∧ name ∉ table.names := by
  rw [unregistered, Keyed.mem_ofList, List.mem_filter, ← contains_iff]
  simp

theorem nodup_unregistered (table : TypeTable) (candidates : List Text) :
    (table.unregistered candidates).Nodup := Keyed.nodup_ofList _

end TypeTable

end HeaderBindings
