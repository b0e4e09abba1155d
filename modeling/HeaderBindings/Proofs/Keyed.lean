import HeaderBindings.Keyed
import Mathlib.Data.List.Nodup

/-! # Ordered lists as finite maps

An ordered list holds at most one element for each key. A look-up therefore is membership, an
insertion trades the element of its key for the new one, and looking up every key once gives
back the list. -/

namespace HeaderBindings.Keyed

open List Text

variable {α : Type} {key : α → Text}

/-! ## Look-ups -/

theorem mem_of_find?_eq_some {l : List α} {k : Text} {a : α} (h : find? key k l = some a) :
    a ∈ l := List.mem_of_find?_eq_some h

theorem key_of_find?_eq_some {l : List α} {k : Text} {a : α} (h : find? key k l = some a) :
    key a = k := by
  simpa using List.find?_some h

theorem find?_eq_none_iff {l : List α} {k : Text} :
    find? key k l = none ↔ ∀ a ∈ l, key a ≠ k := by
  simp [find?]

theorem Sorted.nodup_keys {l : List α} (h : Sorted key l) : (l.map key).Nodup := by
  refine List.pairwise_map.mpr (h.imp ?_)
  intro a b hab heq
  rw [heq, precedes_irrefl] at hab
  exact Bool.false_ne_true hab

theorem Sorted.nodup {l : List α} (h : Sorted key l) : l.Nodup :=
  h.nodup_keys.of_map key

theorem Sorted.find?_eq_some_of_mem {l : List α} (h : Sorted key l) {a : α} (ha : a ∈ l) :
    find? key (key a) l = some a := by
  induction l with
  | nil => exact absurd ha List.not_mem_nil
  | cons b rest ih =>
      obtain ⟨hb, hrest⟩ := List.pairwise_cons.mp h
      rcases List.mem_cons.mp ha with rfl | ha
      · simp [find?]
      · have hne : key b ≠ key a := by
          intro heq
          have hlt := hb a ha
          rw [heq, precedes_irrefl] at hlt
          exact Bool.false_ne_true hlt
        have hfound := ih hrest ha
        simp only [find?] at hfound ⊢
        rw [List.find?_cons_of_neg (by simpa using hne)]
        exact hfound

/-- In an ordered list a look-up finds exactly the element with the key. -/
theorem Sorted.find?_eq_some_iff {l : List α} (h : Sorted key l) {k : Text} {a : α} :
    find? key k l = some a ↔ a ∈ l ∧ key a = k := by
  constructor
  · intro hfound
    exact ⟨mem_of_find?_eq_some hfound, key_of_find?_eq_some hfound⟩
  · rintro ⟨ha, rfl⟩
    exact h.find?_eq_some_of_mem ha

/-- Ordered lists with the same elements are equal. -/
theorem Sorted.eq_of_mem_iff {l m : List α} (hl : Sorted key l) (hm : Sorted key m)
    (h : ∀ a, a ∈ l ↔ a ∈ m) : l = m := by
  refine eq_of_find?_eq hl hm ?_
  intro k
  refine Option.ext fun a => ?_
  rw [hl.find?_eq_some_iff, hm.find?_eq_some_iff, h a]

theorem Sorted.find?_filter {l : List α} (h : Sorted key l) (test : α → Bool) (k : Text) :
    find? key k (l.filter test) = (find? key k l).filter test := by
  have hfilter : Sorted key (l.filter test) := List.Pairwise.filter _ h
  refine Option.ext fun a => ?_
  rw [hfilter.find?_eq_some_iff, Option.filter_eq_some_iff, h.find?_eq_some_iff, List.mem_filter]
  tauto

/-- Of what the elements of an ordered list yield, that which is tagged with a key comes from the
element that has the key. -/
theorem Sorted.filter_filterMap {β : Type} {f : α → Option β} {tag : β → Option Text}
    {l : List α} (h : Sorted key l) (htag : ∀ a ∈ l, ∀ b, f a = some b → tag b = some (key a))
    (k : Text) :
    (l.filterMap f).filter (tag · = some k) = ((find? key k l).bind f).toList := by
  induction l with
  | nil => rfl
  | cons a l ih =>
      obtain ⟨ha, hrest⟩ := List.pairwise_cons.mp h
      have ih := ih hrest fun b hb => htag b (List.mem_cons_of_mem a hb)
      have htag := htag a List.mem_cons_self
      by_cases hk : key a = k
      · have hnone : find? key k l = none :=
          find?_eq_none_of_precedes fun b hb => hk ▸ ha b hb
        have hfound : find? key k (a :: l) = some a := by simp [find?, hk]
        rw [hnone, Option.bind_none, Option.toList_none] at ih
        rw [hfound, Option.bind_some]
        cases hf : f a with
        | none => rw [List.filterMap_cons_none hf, ih, Option.toList_none]
        | some b =>
            rw [List.filterMap_cons_some hf, List.filter_cons_of_pos (by simp [htag b hf, hk]), ih,
              Option.toList_some]
      · have hskip : find? key k (a :: l) = find? key k l :=
          List.find?_cons_of_neg (by simpa using hk)
        rw [hskip, ← ih]
        cases hf : f a with
        | none => rw [List.filterMap_cons_none hf]
        | some b =>
            rw [List.filterMap_cons_some hf, List.filter_cons_of_neg (by simp [htag b hf, hk])]

theorem Sorted.filter_filter {tag : α → Option Text} {l : List α} (h : Sorted key l)
    (htag : ∀ a ∈ l, tag a = some (key a)) (test : α → Bool) (k : Text) :
    (l.filter test).filter (tag · = some k) = ((find? key k l).filter test).toList := by
  have hguard : (l.filterMap (Option.guard test)).filter (tag · = some k) =
      ((find? key k l).bind (Option.guard test)).toList := by
    refine h.filter_filterMap ?_ k
    intro a ha b hb
    obtain ⟨rfl, -⟩ := Option.guard_eq_some_iff.mp hb
    exact htag a ha
  rwa [List.filterMap_eq_filter, Option.bind_guard] at hguard

/-! ## Insertion -/

theorem sorted_foldl_insert (added : List α) {l : List α} (h : Sorted key l) :
    Sorted key (added.foldl (fun sorted a => insert key a sorted) l) := by
  induction added generalizing l with
  | nil => exact h
  | cons a added ih => exact ih (sorted_insert a h)

/-- An insertion trades the element that has the key, if there is one, for the new element. -/
theorem Sorted.insert_perm {l : List α} (h : Sorted key l) (a : α) :
    (find? key (key a) l).toList ++ insert key a l ~ a :: l := by
  induction l with
  | nil => simp [find?, insert]
  | cons b rest ih =>
      obtain ⟨hb, hrest⟩ := List.pairwise_cons.mp h
      rw [insert]
      split
      next hab =>
        have hnone : find? key (key a) (b :: rest) = none := by
          refine find?_eq_none_of_precedes ?_
          intro c hc
          rcases List.mem_cons.mp hc with rfl | hc
          · exact hab
          · exact precedes_trans hab (hb c hc)
        simp [hnone]
      next hab =>
        split
        next heq =>
          have hfound : find? key (key a) (b :: rest) = some b := by simp [find?, heq]
          rw [hfound]
          exact List.Perm.swap a b rest
        next hne =>
          have hskip : find? key (key a) (b :: rest) = find? key (key a) rest := by
            simp only [find?]
            exact List.find?_cons_of_neg (by simpa using fun e => hne e.symm)
          rw [hskip]
          calc
            (find? key (key a) rest).toList ++ b :: insert key a rest ~
                b :: ((find? key (key a) rest).toList ++ insert key a rest) :=
              List.perm_middle
            _ ~ b :: a :: rest := (ih hrest).cons b
            _ ~ a :: b :: rest := List.Perm.swap a b rest

/-- Elements with new and different keys are added to the others by successive insertions. -/
theorem Sorted.foldl_insert_perm {l : List α} (h : Sorted key l) (added : List α)
    (hnew : ∀ a ∈ added, ∀ b ∈ l, key b ≠ key a) (hdiff : (added.map key).Nodup) :
    added.foldl (fun sorted a => insert key a sorted) l ~ added ++ l := by
  induction added generalizing l with
  | nil => exact List.Perm.refl l
  | cons a added ih =>
      obtain ⟨ha, hdiff⟩ := List.nodup_cons.mp hdiff
      have hnone : find? key (key a) l = none := find?_eq_none_iff.mpr (hnew a (by simp))
      have hperm : insert key a l ~ a :: l := by simpa [hnone] using h.insert_perm a
      have hnew' : ∀ c ∈ added, ∀ b ∈ insert key a l, key b ≠ key c := by
        intro c hc b hb
        rcases mem_insert hb with rfl | hb
        · exact fun heq => ha (heq ▸ List.mem_map_of_mem hc)
        · exact hnew c (by simp [hc]) b hb
      calc
        added.foldl (fun sorted a => insert key a sorted) (insert key a l) ~
            added ++ insert key a l := ih (sorted_insert a h) hnew' hdiff
        _ ~ added ++ a :: l := hperm.append_left added
        _ ~ a :: (added ++ l) := List.perm_middle

/-! ## The elements of a set of keys -/

/-- Looking up different keys, among them those of all elements, gives every element once. -/
theorem Sorted.filterMap_find?_perm {l : List α} (h : Sorted key l) {keys : List Text}
    (hdiff : keys.Nodup) (hall : ∀ a ∈ l, key a ∈ keys) :
    keys.filterMap (find? key · l) ~ l := by
  refine (List.perm_ext_iff_of_nodup ?_ h.nodup).mpr ?_
  · refine hdiff.filterMap ?_
    intro k k' a hk hk'
    rw [← key_of_find?_eq_some hk, key_of_find?_eq_some hk']
  · intro a
    rw [List.mem_filterMap]
    constructor
    · rintro ⟨k, -, hk⟩
      exact mem_of_find?_eq_some hk
    · intro ha
      exact ⟨key a, hall a ha, h.find?_eq_some_of_mem ha⟩

theorem mem_insert_id_iff {a t : Text} {l : List Text} :
    t ∈ insert id a l ↔ t = a ∨ t ∈ l := by
  refine ⟨mem_insert, ?_⟩
  induction l with
  | nil => simp [insert]
  | cons b l ih =>
      rw [insert]
      split
      · simp
      · split
        next heq =>
          have heq : a = b := heq
          simp [heq]
        next =>
          intro ht
          rcases ht with ht | ht
          · exact List.mem_cons_of_mem b (ih (.inl ht))
          · rcases List.mem_cons.mp ht with rfl | ht
            · exact List.mem_cons_self
            · exact List.mem_cons_of_mem b (ih (.inr ht))

theorem mem_ofList {t : Text} {l : List Text} : t ∈ ofList id l ↔ t ∈ l := by
  suffices ∀ sorted,
      (t ∈ l.foldl (fun sorted a => insert id a sorted) sorted ↔ t ∈ l ∨ t ∈ sorted) by
    simpa [ofList] using this []
  induction l with
  | nil => simp
  | cons a l ih =>
      intro sorted
      rw [List.foldl_cons, ih, mem_insert_id_iff, List.mem_cons]
      tauto

theorem nodup_ofList (l : List Text) : (ofList id l).Nodup := (sorted_ofList id l).nodup

end HeaderBindings.Keyed
