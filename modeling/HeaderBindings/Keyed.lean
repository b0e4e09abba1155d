import HeaderBindings.Text.Pieces

/-! Lists kept in strictly ascending order of a key, each element carrying its own key. Main
statements: insertion keeps the order (`sorted_insert`), a look-up after an insertion finds the
new element under its key and the old ones elsewhere (`find?_insert`), and two ordered lists
with the same look-ups are equal (`eq_of_find?_eq`). -/

namespace HeaderBindings.Keyed

open Text

variable {α : Type} (key : α → Text)

/-- The keys ascend strictly. -/
def Sorted (l : List α) : Prop := l.Pairwise fun a b => precedes (key a) (key b) = true

/-- Inserts an element at the place of its key, instead of one that has the same key. -/
def insert (a : α) : List α → List α
  | [] => [a]
  | b :: rest =>
    if precedes (key a) (key b) then a :: b :: rest
    else if key a = key b then a :: rest
    else b :: insert a rest

/-- The element that has the given key. -/
def find? (k : Text) (l : List α) : Option α := l.find? fun a => key a = k

/-- The ordered list of the given elements; of several with one key the last is kept. -/
def ofList (l : List α) : List α := l.foldl (fun sorted a => insert key a sorted) []

theorem mem_insert {key : α → Text} {a b : α} {l : List α} (h : b ∈ insert key a l) :
    b = a ∨ b ∈ l := by
  induction l with
  | nil => simpa [insert] using h
  | cons c rest ih =>
      rw [insert] at h
      split at h
      · simpa using h
      · split at h
        · rcases List.mem_cons.1 h with h | h
          · exact .inl h
          · exact .inr (List.mem_cons_of_mem _ h)
        · rcases List.mem_cons.1 h with h | h
          · exact .inr (by simp [h])
          · exact (ih h).imp id (List.mem_cons_of_mem _)

theorem sorted_insert {key : α → Text} (a : α) {l : List α} (h : Sorted key l) :
    Sorted key (insert key a l) := by
  induction l with
  | nil => simp [insert, Sorted]
  | cons b rest ih =>
      obtain ⟨hb, hrest⟩ := List.pairwise_cons.1 h
      rw [insert]
      split
      next hab =>
        refine List.pairwise_cons.2 ⟨?_, h⟩
        intro c hc
        rcases List.mem_cons.1 hc with rfl | hc
        · exact hab
        · exact precedes_trans hab (hb c hc)
      next hab =>
        split
        next heq => exact List.pairwise_cons.2 ⟨fun c hc => heq ▸ hb c hc, hrest⟩
        next hne =>
          refine List.pairwise_cons.2 ⟨?_, ih hrest⟩
          intro c hc
          rcases mem_insert hc with rfl | hc
          · exact (precedes_total hne).resolve_left hab
          · exact hb c hc

theorem find?_insert {key : α → Text} (a : α) {l : List α} (h : Sorted key l) (k : Text) :
    find? key k (insert key a l) = if key a = k then some a else find? key k l := by
  induction l with
  | nil => simp [insert, find?, List.find?_cons]; split <;> simp_all
  | cons b rest ih =>
      obtain ⟨hb, hrest⟩ := List.pairwise_cons.1 h
      have ih := ih hrest
      simp only [find?] at ih ⊢
      rw [insert]
      split
      next hab => rw [List.find?_cons]; by_cases hk : key a = k <;> simp [hk]
      next hab =>
        split
        next heq =>
          by_cases hk : key a = k
          · simp [hk]
          · have : key b ≠ k := fun e => hk (heq.trans e)
            simp [hk, this]
        next hne =>
          rw [List.find?_cons, ih, List.find?_cons]
          by_cases hk : key a = k
          · have : key b ≠ k := fun e => hne (hk.trans e.symm)
            simp [hk, this]
          · by_cases hb : key b = k <;> simp [hk, hb]

/-- No element of an ordered list stands before its head. -/
theorem find?_eq_none_of_precedes {key : α → Text} {k : Text} {l : List α}
    (h : ∀ a ∈ l, precedes k (key a) = true) : find? key k l = none := by
  simp only [find?, List.find?_eq_none, decide_eq_true_eq]
  intro a ha heq
  have := h a ha
  rw [heq, precedes_irrefl] at this
  exact absurd this (by simp)

theorem eq_of_find?_eq {key : α → Text} {l m : List α} (hl : Sorted key l) (hm : Sorted key m)
    (h : ∀ k, find? key k l = find? key k m) : l = m := by
  induction l generalizing m with
  | nil =>
      cases m with
      | nil => rfl
      | cons b m => have := h (key b); simp [find?] at this
  | cons a l ih =>
      cases m with
      | nil => have := h (key a); simp [find?] at this
      | cons b m =>
          obtain ⟨ha, hl'⟩ := List.pairwise_cons.1 hl
          obtain ⟨hb, hm'⟩ := List.pairwise_cons.1 hm
          have hab : key a = key b := by
            by_cases hne : key a = key b
            · exact hne
            rcases precedes_total hne with hlt | hlt
            · have hnone : find? key (key a) (b :: m) = none := by
                refine find?_eq_none_of_precedes fun c hc => ?_
                rcases List.mem_cons.1 hc with rfl | hc
                · exact hlt
                · exact precedes_trans hlt (hb c hc)
              have := h (key a)
              rw [hnone] at this
              simp [find?] at this
            · have hnone : find? key (key b) (a :: l) = none := by
                refine find?_eq_none_of_precedes fun c hc => ?_
                rcases List.mem_cons.1 hc with rfl | hc
                · exact hlt
                · exact precedes_trans hlt (ha c hc)
              have := h (key b)
              rw [hnone] at this
              simp [find?] at this
          have heq : a = b := by
            have := h (key a)
            simpa [find?, hab] using this
          subst heq
          congr 1
          refine ih hl' hm' fun k => ?_
          by_cases hk : key a = k
          · subst hk
            rw [find?_eq_none_of_precedes ha, find?_eq_none_of_precedes hb]
          · have := h k
            simpa [find?, List.find?_cons, hk] using this

theorem sorted_ofList (l : List α) : Sorted key (ofList key l) := by
  suffices ∀ sorted, Sorted key sorted →
      Sorted key (l.foldl (fun sorted a => insert key a sorted) sorted) from
    this [] List.Pairwise.nil
  induction l with
  | nil => intro sorted h; exact h
  | cons a l ih => intro sorted h; exact ih _ (sorted_insert a h)

end HeaderBindings.Keyed
