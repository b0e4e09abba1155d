import HeaderBindings.Proofs.TypeTable.Lineage

/-! # Which tables are accepted

A table is accepted if and only if its names are unique, its parents are known and no chain of
parents loops. Every other table is refused for its first fault: repeated names come before unknown
parents and those before cycles, and of one kind the fault of the first entry that has it. -/

namespace HeaderBindings

open List Relation

namespace LogicalType

variable {entries : List LogicalType} {e : LogicalType} {name : Text} {seen : List Text}

/-! ## Repeated names -/

theorem firstDuplicate?_nil : firstDuplicate? seen [] = none := rfl

theorem firstDuplicate?_cons_of_mem (h : e.name ∈ seen) :
    firstDuplicate? seen (e :: entries) = some e.name := if_pos h

theorem firstDuplicate?_cons_of_not_mem (h : e.name ∉ seen) :
    firstDuplicate? seen (e :: entries) = firstDuplicate? (e.name :: seen) entries := if_neg h

theorem firstDuplicate?_eq_some_iff :
    firstDuplicate? seen entries = some name ↔
      ∃ front e back, entries = front ++ e :: back ∧ firstDuplicate? seen front = none ∧
        (e.name ∈ seen ∨ e.name ∈ front.map (·.name)) ∧ e.name = name := by
  induction entries generalizing seen with
  | nil => simp [firstDuplicate?_nil]
  | cons d rest ih =>
      by_cases hseen : d.name ∈ seen
      · rw [firstDuplicate?_cons_of_mem hseen]
        constructor
        · intro h
          exact ⟨[], d, rest, rfl, rfl, .inl hseen, Option.some.inj h⟩
        · rintro ⟨front, e, back, hsplit, hfront, -, rfl⟩
          cases front with
          | nil =>
              obtain ⟨rfl, -⟩ := List.cons.inj hsplit
              rfl
          | cons c front =>
              obtain ⟨rfl, -⟩ := List.cons.inj hsplit
              rw [firstDuplicate?_cons_of_mem hseen] at hfront
              cases hfront
      · rw [firstDuplicate?_cons_of_not_mem hseen, ih]
        constructor
        · rintro ⟨front, e, back, rfl, hfront, hmem, rfl⟩
          refine ⟨d :: front, e, back, rfl, ?_, ?_, rfl⟩
          · rw [firstDuplicate?_cons_of_not_mem hseen, hfront]
          · simp only [List.mem_cons, List.map_cons] at hmem ⊢
            tauto
        · rintro ⟨front, e, back, hsplit, hfront, hmem, rfl⟩
          cases front with
          | nil =>
              obtain ⟨rfl, -⟩ := List.cons.inj hsplit
              simp [hseen] at hmem
          | cons c front =>
              obtain ⟨rfl, rfl⟩ := List.cons.inj hsplit
              rw [firstDuplicate?_cons_of_not_mem hseen] at hfront
              refine ⟨front, e, back, rfl, hfront, ?_, rfl⟩
              simp only [List.mem_cons, List.map_cons] at hmem ⊢
              tauto

theorem firstDuplicate?_eq_none_iff :
    firstDuplicate? [] entries = none ↔ (entries.map (·.name)).Nodup := by
  constructor
  · intro h
    exact (nodup_names_of_firstDuplicate?_eq_none h).1
  · intro h
    cases hfirst : firstDuplicate? [] entries with
    | none => rfl
    | some name =>
        obtain ⟨front, e, back, rfl, -, hmem, -⟩ := firstDuplicate?_eq_some_iff.mp hfirst
        rw [List.map_append, List.map_cons, List.nodup_append] at h
        have hfront : e.name ∈ front.map (·.name) := by simpa using hmem
        exact absurd rfl (h.2.2 _ hfront _ List.mem_cons_self)

/-! ## Unknown parents -/

/-- The parent, if one is given, has an entry in the table. -/
def HasKnownParent (entries : List LogicalType) (e : LogicalType) : Prop :=
  ∀ parent, e.parent = some parent → parent ∈ entries.map (·.name)

/-- The parent of an entry, if it is not in the table. -/
def orphan? (entries : List LogicalType) (e : LogicalType) : Option (Text × Text) :=
  e.parent.bind fun parent =>
    if (find? parent entries).isSome then none else some (e.name, parent)

theorem orphan?_eq_none_iff : orphan? entries e = none ↔ HasKnownParent entries e := by
  rw [orphan?, HasKnownParent]
  cases e.parent with
  | none => simp
  | some parent => simp [isSome_find?_iff, -List.mem_map]

theorem orphan?_eq_some_iff {type parent : Text} :
    orphan? entries e = some (type, parent) ↔
      e.parent = some parent ∧ parent ∉ entries.map (·.name) ∧ e.name = type := by
  rw [orphan?]
  cases e.parent with
  | none => simp
  | some other =>
      simp only [Option.bind_some, isSome_find?_iff, Option.some.injEq]
      split
      next hmem =>
        refine ⟨fun h => absurd h.symm (Option.some_ne_none _), ?_⟩
        rintro ⟨rfl, hmissing, -⟩
        exact absurd hmem hmissing
      next hmissing =>
        simp only [Option.some.injEq, Prod.mk.injEq]
        constructor
        · rintro ⟨rfl, rfl⟩
          exact ⟨rfl, hmissing, rfl⟩
        · rintro ⟨rfl, -, rfl⟩
          exact ⟨rfl, rfl⟩

theorem mem_names_of_mem_passed (hknown : ∀ d ∈ entries, HasKnownParent entries d)
    (he : e ∈ entries) :
    ∀ name ∈ passed (lineage e.name entries), name ∈ entries.map (·.name) := by
  refine (isChain_passed_lineage e.name entries).induction _ _ ?_ ?_
  · rintro child parent ⟨d, hd, -, hparent⟩ -
    exact hknown d hd parent hparent
  · intro hne
    have hhead := head?_passed_lineage e.name entries
    rw [List.head?_eq_some_head hne] at hhead
    rw [Option.some.inj hhead]
    exact List.mem_map_of_mem he

/-! ## Cycles -/

/-- A way from a type along the parents, up to the first name that it passes again. -/
structure WayAround (entries : List LogicalType) (name : Text) (chain : List Text) : Prop where
  starts : chain.head? = some name
  follows : chain.IsChain (Inherits entries)
  ends : ∃ walk repeated, chain = walk ++ [repeated] ∧ walk.Nodup ∧ repeated ∈ walk

theorem WayAround.runsIntoCycle {chain : List Text} (h : WayAround entries name chain) :
    RunsIntoCycle entries name := by
  obtain ⟨walk, repeated, rfl, -, hmem⟩ := h.ends
  exact runsIntoCycle_of_isChain h.starts h.follows hmem

/-- Ways along a relation that leads on to one place only go the same way. -/
theorem prefix_or_prefix_of_isChain {α : Type} {r : α → α → Prop} (hr : Relator.RightUnique r)
    {l k : List α} (hl : l.IsChain r) (hk : k.IsChain r) (hhead : l.head? = k.head?) :
    l <+: k ∨ k <+: l := by
  induction l generalizing k with
  | nil => exact .inl List.nil_prefix
  | cons a l ih =>
      cases k with
      | nil => exact .inr List.nil_prefix
      | cons b k =>
          obtain rfl : a = b := Option.some.inj hhead
          have hnext : l = [] ∨ k = [] ∨ l.head? = k.head? := by
            cases l with
            | nil => exact .inl rfl
            | cons c l =>
                cases k with
                | nil => exact .inr (.inl rfl)
                | cons d k =>
                    have hcd := hr (List.isChain_cons_cons.mp hl).1 (List.isChain_cons_cons.mp hk).1
                    exact .inr (.inr (congrArg some hcd))
          rcases hnext with rfl | rfl | hnext
          · exact .inl (List.cons_prefix_cons.mpr ⟨rfl, List.nil_prefix⟩)
          · exact .inr (List.cons_prefix_cons.mpr ⟨rfl, List.nil_prefix⟩)
          · simpa [List.cons_prefix_cons] using ih hl.tail hk.tail hnext

/-- Before its end no way passes a name twice, so none goes on behind another. -/
theorem WayAround.eq_of_isPrefix {chain other : List Text} (h : WayAround entries name chain)
    (hother : WayAround entries name other) (hinitial : chain <+: other) : chain = other := by
  obtain ⟨walk, repeated, rfl, -, hmem⟩ := h.ends
  obtain ⟨otherWalk, otherRepeated, rfl, hnodup, -⟩ := hother.ends
  rcases List.prefix_concat_iff.mp hinitial with heq | hinside
  · exact heq
  · have hwalk := hnodup.sublist hinside.sublist
    rw [List.nodup_append] at hwalk
    exact absurd rfl (hwalk.2.2 _ hmem _ (List.mem_singleton_self repeated))

theorem WayAround.unique {chain other : List Text} (hnames : (entries.map (·.name)).Nodup)
    (h : WayAround entries name chain) (hother : WayAround entries name other) :
    chain = other := by
  rcases prefix_or_prefix_of_isChain (rightUnique_inherits hnames) h.follows hother.follows
    (h.starts.trans hother.starts.symm) with hinitial | hinitial
  · exact h.eq_of_isPrefix hother hinitial
  · exact (hother.eq_of_isPrefix h hinitial).symm

/-- The way from a type into a cycle, as a walk finds it. -/
def wayAround? (entries : List LogicalType) (name : Text) : Option (List Text) :=
  (lineage name entries).2.map fun repeated =>
    (lineage name entries).1.map (·.name) ++ [repeated]

theorem firstCycle?_eq (entries : List LogicalType) :
    firstCycle? entries = entries.findSome? fun e => wayAround? entries e.name := by
  rw [firstCycle?]
  congr 1
  funext e
  rw [wayAround?]
  split
  next hwalk => rw [hwalk]; rfl
  next hwalk => rw [hwalk]; rfl

section Walks

variable (hnames : (entries.map (·.name)).Nodup)
  (hknown : ∀ d ∈ entries, HasKnownParent entries d) (he : e ∈ entries)

include hnames hknown he

theorem wayAround_of_lineage {repeated : Text}
    (h : (lineage e.name entries).2 = some repeated) :
    WayAround entries e.name ((lineage e.name entries).1.map (·.name) ++ [repeated]) := by
  have hpassed : passed (lineage e.name entries) =
      (lineage e.name entries).1.map (·.name) ++ [repeated] := by
    rw [passed, h]
    rfl
  refine ⟨hpassed ▸ head?_passed_lineage _ _, hpassed ▸ isChain_passed_lineage _ _, _, _, rfl,
    nodup_names_lineage hnames, ?_⟩
  rcases mem_or_not_mem_of_lineage h with hmem | hout
  · exact hmem
  · exact absurd (mem_names_of_mem_passed hknown he repeated (by simp [hpassed])) hout

theorem wayAround?_eq_none_iff :
    wayAround? entries e.name = none ↔ ¬ RunsIntoCycle entries e.name := by
  rw [wayAround?, Option.map_eq_none_iff]
  constructor
  · exact not_runsIntoCycle_of_lineage hnames (List.Subset.refl entries)
  · intro h
    by_contra hsome
    obtain ⟨repeated, hrepeated⟩ := Option.ne_none_iff_exists'.mp hsome
    exact h (wayAround_of_lineage hnames hknown he hrepeated).runsIntoCycle

theorem wayAround?_eq_some_iff {chain : List Text} :
    wayAround? entries e.name = some chain ↔ WayAround entries e.name chain := by
  have hsound : ∀ {found}, wayAround? entries e.name = some found →
      WayAround entries e.name found := by
    intro found hfound
    obtain ⟨repeated, hrepeated, rfl⟩ := Option.map_eq_some_iff.mp hfound
    exact wayAround_of_lineage hnames hknown he hrepeated
  refine ⟨hsound, fun hway => ?_⟩
  cases hfound : wayAround? entries e.name with
  | none => exact absurd hway.runsIntoCycle ((wayAround?_eq_none_iff hnames hknown he).mp hfound)
  | some found => rw [(hsound hfound).unique hnames hway]

end Walks

end LogicalType

/-! ## The verdict -/

namespace TypeTable

open LogicalType

variable {entries : List LogicalType}

/-- What an accepted table has to be. -/
structure WellFormed (entries : List LogicalType) : Prop where
  nodup_names : (entries.map (·.name)).Nodup
  parents_known : ∀ e ∈ entries, HasKnownParent entries e
  acyclic : ∀ name, ¬ TransGen (Inherits entries) name name

/-- The fault for which a table is refused, found at the entry between `front` and `back`. -/
inductive Refused (entries : List LogicalType) : TypeTableError → Prop
  | duplicateType {front back : List LogicalType} {e : LogicalType}
      (split : entries = front ++ e :: back) (before : (front.map (·.name)).Nodup)
      (repeated : e.name ∈ front.map (·.name)) : Refused entries (.duplicateType e.name)
  | unknownParent {front back : List LogicalType} {e : LogicalType} {parent : Text}
      (nodup_names : (entries.map (·.name)).Nodup)
      (split : entries = front ++ e :: back) (before : ∀ d ∈ front, HasKnownParent entries d)
      (given : e.parent = some parent) (missing : parent ∉ entries.map (·.name)) :
      Refused entries (.unknownParent e.name parent)
  | parentCycle {front back : List LogicalType} {e : LogicalType} {chain : List Text}
      (nodup_names : (entries.map (·.name)).Nodup)
      (parents_known : ∀ d ∈ entries, HasKnownParent entries d)
      (split : entries = front ++ e :: back)
      (before : ∀ d ∈ front, ¬ RunsIntoCycle entries d.name)
      (way : WayAround entries e.name chain) : Refused entries (.parentCycle chain)

theorem firstOrphan?_eq_none_iff :
    firstOrphan? entries = none ↔ ∀ e ∈ entries, HasKnownParent entries e := by
  simp only [← orphan?_eq_none_iff]
  exact List.findSome?_eq_none_iff

theorem firstCycle?_eq_none_iff (hnames : (entries.map (·.name)).Nodup)
    (hknown : ∀ e ∈ entries, HasKnownParent entries e) :
    firstCycle? entries = none ↔ ∀ name, ¬ TransGen (Inherits entries) name name := by
  rw [firstCycle?_eq, List.findSome?_eq_none_iff]
  constructor
  · intro h name hloop
    obtain ⟨_, ⟨e, he, rfl, -⟩, -⟩ := TransGen.head'_iff.mp hloop
    exact (wayAround?_eq_none_iff hnames hknown he).mp (h e he) ⟨e.name, .refl, hloop⟩
  · intro h e he
    rw [wayAround?_eq_none_iff hnames hknown he]
    rintro ⟨looped, -, hloop⟩
    exact h looped hloop

/-- In a well-formed table every walk ends at a type without a parent. -/
theorem lineage_snd_of_wellFormed (h : WellFormed entries) {e : LogicalType} (he : e ∈ entries) :
    (lineage e.name entries).2 = none :=
  lineage_snd_eq_none ((firstCycle?_eq_none_iff h.nodup_names h.parents_known).mpr h.acyclic) he

/-- A table is accepted if and only if it is well formed. -/
theorem exists_ofEntries_eq_ok_iff :
    (∃ table, ofEntries entries = .ok table) ↔ WellFormed entries := by
  simp only [ofEntries_eq_ok_iff, firstDuplicate?_eq_none_iff, firstOrphan?_eq_none_iff]
  constructor
  · rintro ⟨-, hnames, hknown, hcycle, -⟩
    exact ⟨hnames, hknown, (firstCycle?_eq_none_iff hnames hknown).mp hcycle⟩
  · intro h
    exact ⟨_, h.nodup_names, h.parents_known,
      (firstCycle?_eq_none_iff h.nodup_names h.parents_known).mpr h.acyclic, rfl⟩

/-- A table is refused for its first fault and for no other. -/
theorem ofEntries_eq_error_iff {error : TypeTableError} :
    ofEntries entries = .error error ↔ Refused entries error := by
  constructor
  · intro h
    rw [ofEntries] at h
    split at h
    next hduplicate =>
      cases h
      obtain ⟨front, e, back, hsplit, hfront, hmem, rfl⟩ :=
        firstDuplicate?_eq_some_iff.mp hduplicate
      exact .duplicateType hsplit (firstDuplicate?_eq_none_iff.mp hfront) (by simpa using hmem)
    next hduplicate =>
      have hnames := firstDuplicate?_eq_none_iff.mp hduplicate
      split at h
      next horphan =>
        cases h
        obtain ⟨front, e, back, hsplit, he, hfront⟩ := List.findSome?_eq_some_iff.mp horphan
        obtain ⟨hparent, hmissing, rfl⟩ := orphan?_eq_some_iff.mp he
        exact .unknownParent hnames hsplit
          (fun d hd => orphan?_eq_none_iff.mp (hfront d hd)) hparent hmissing
      next horphan =>
        have hknown := firstOrphan?_eq_none_iff.mp horphan
        split at h
        next hcycle =>
          cases h
          rw [firstCycle?_eq] at hcycle
          obtain ⟨front, e, back, hsplit, he, hfront⟩ := List.findSome?_eq_some_iff.mp hcycle
          have hmem : e ∈ entries := by simp [hsplit]
          refine .parentCycle hnames hknown hsplit ?_
            ((wayAround?_eq_some_iff hnames hknown hmem).mp he)
          intro d hd
          have hmem : d ∈ entries := by simp [hsplit, hd]
          exact (wayAround?_eq_none_iff hnames hknown hmem).mp (hfront d hd)
        next => cases h
  · intro h
    cases h with
    | duplicateType hsplit hfront hmem =>
        have hduplicate := firstDuplicate?_eq_some_iff.mpr
          ⟨_, _, _, hsplit, firstDuplicate?_eq_none_iff.mpr hfront, .inr hmem, rfl⟩
        rw [ofEntries, hduplicate]
    | unknownParent hnames hsplit hfront hparent hmissing =>
        have horphan : firstOrphan? entries = some _ := List.findSome?_eq_some_iff.mpr
          ⟨_, _, _, hsplit, orphan?_eq_some_iff.mpr ⟨hparent, hmissing, rfl⟩,
            fun d hd => orphan?_eq_none_iff.mpr (hfront d hd)⟩
        rw [ofEntries, firstDuplicate?_eq_none_iff.mpr hnames, horphan]
    | @parentCycle front back e chain hnames hknown hsplit hfront hway =>
        have he : e ∈ entries := by simp [hsplit]
        have hcycle : firstCycle? entries = some chain := by
          rw [firstCycle?_eq]
          refine List.findSome?_eq_some_iff.mpr
            ⟨front, e, back, hsplit, (wayAround?_eq_some_iff hnames hknown he).mpr hway, ?_⟩
          intro d hd
          have hmem : d ∈ entries := by simp [hsplit, hd]
          exact (wayAround?_eq_none_iff hnames hknown hmem).mpr (hfront d hd)
        rw [ofEntries, firstDuplicate?_eq_none_iff.mpr hnames,
          firstOrphan?_eq_none_iff.mpr hknown, hcycle]

/-- Only a cycle is left without advice. -/
theorem help?_eq_none_iff_of_refused {error : TypeTableError} (h : Refused entries error) :
    error.help? = none ↔
      (entries.map (·.name)).Nodup ∧ ∀ e ∈ entries, HasKnownParent entries e := by
  cases h with
  | @duplicateType front back e hsplit _ hmem =>
      refine iff_of_false (Option.some_ne_none _) fun hfine => ?_
      rw [hsplit, List.map_append, List.map_cons, List.nodup_append] at hfine
      exact hfine.1.2.2 e.name hmem e.name List.mem_cons_self rfl
  | unknownParent _ hsplit _ hparent hmissing =>
      refine iff_of_false (Option.some_ne_none _) fun hfine => hmissing ?_
      exact hfine.2 _ (by simp [hsplit]) _ hparent
  | parentCycle hnames hknown => exact iff_of_true rfl ⟨hnames, hknown⟩

/-- What the check of a table decides, and where it looks for that. -/
structure DecidedExactly (entries : List LogicalType) : Prop where
  accepted_iff : (∃ table, ofEntries entries = .ok table) ↔ WellFormed entries
  refused_iff : ∀ error, ofEntries entries = .error error ↔ Refused entries error
  /-- Parents are followed only where all of them are known, and then every name that is looked
  up has an entry. -/
  looked_up : (∀ e ∈ entries, HasKnownParent entries e) →
    ∀ e ∈ entries, ∀ name ∈ passed (lineage e.name entries), name ∈ entries.map (·.name)
  /-- The walks that arrange the entries are made in well-formed tables only, where each ends at a
  type without a parent. -/
  walks_end : WellFormed entries → ∀ e ∈ entries, (lineage e.name entries).2 = none

/-- Every list of types is accepted or refused as its names and parents demand. -/
theorem decidedExactly_ofEntries (entries : List LogicalType) : DecidedExactly entries where
  accepted_iff := exists_ofEntries_eq_ok_iff
  refused_iff _ := ofEntries_eq_error_iff
  looked_up hknown _ he := mem_names_of_mem_passed hknown he
  walks_end h _ he := lineage_snd_of_wellFormed h he

/-- The way may lead into a cycle that its first type is not a part of. -/
example :
    ofEntries [⟨"Blip", "int", none, none⟩, ⟨"Ped", "int", some "Any", none⟩,
      ⟨"Any", "int", some "Hash", none⟩, ⟨"Hash", "int", some "Any", none⟩] =
      .error (.parentCycle ["Ped", "Any", "Hash", "Any"]) := by decide +kernel

end TypeTable

end HeaderBindings
