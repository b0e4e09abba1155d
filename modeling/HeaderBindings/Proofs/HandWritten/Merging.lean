import HeaderBindings.Proofs.HandWritten

/-! # Sources that are merged

The names that several sources mention are those that each of them mentions: neither the order nor
repetitions matter, and one text that holds all sources, each on lines of its own, mentions the
same names, since no mention reaches over the end of a line. Every name that is collected stands
in one of the sources as a mention. -/

namespace HeaderBindings

open List Text

/-! ## Reading from left to right -/

/-- The reading of a text as its induction: it takes a mention, or passes one character. -/
theorem mentions_induction {motive : Option Char → Text → Prop}
    (nil : ∀ before?, motive before? [])
    (taken : ∀ before? t found after, before?.any isWordChar = false →
      mentionAtStart? t = some (found, after) → motive found.getLast? after → motive before? t)
    (passed : ∀ before? c rest,
      before?.any isWordChar = true ∨ mentionAtStart? (c :: rest) = none →
        motive (some c) rest → motive before? (c :: rest))
    (before? : Option Char) (t : Text) : motive before? t := by
  induction before?, t using mentions.induct with
  | case1 before? => exact nil before?
  | case2 before? c rest found after hfound ih =>
      split at hfound
      next => cases hfound
      next hbefore => exact taken before? (c :: rest) found after (by simpa using hbefore) hfound ih
  | case3 before? c rest hnone ih =>
      apply passed before? c rest _ ih
      split at hnone
      next hbefore => exact .inl hbefore
      next => exact .inr hnone

theorem exists_mention_of_mem_mentions {before? : Option Char} {t name : Text}
    (h : name ∈ mentions before? t) : ∃ m : Mention before? t, m.name = name := by
  induction before?, t using mentions_induction with
  | nil before? => simp [mentions] at h
  | taken before? t found after hbefore hfound ih =>
      obtain ⟨scope, function, hscope, hname, hafter, rfl, rfl⟩ := exists_of_mentionAtStart? hfound
      rw [mentions_of_eq_some hbefore hfound] at h
      rcases List.mem_cons.mp h with rfl | h
      · exact ⟨⟨[], scope, function, after, rfl, hscope, hname, hbefore, hafter⟩, rfl⟩
      · obtain ⟨m, hm⟩ := ih h
        exact ⟨m.behind (by simp), hm⟩
  | passed before? c rest hskip ih =>
      rw [mentions_cons hskip] at h
      obtain ⟨m, hm⟩ := ih h
      have hne : [c] ≠ [] := List.cons_ne_nil c []
      exact ⟨m.behind hne, hm⟩

theorem mentions_congr {before? other? : Option Char}
    (h : before?.any isWordChar = other?.any isWordChar) (t : Text) :
    mentions before? t = mentions other? t := by
  cases t with
  | nil => simp [mentions]
  | cons c rest =>
      by_cases hskip : before?.any isWordChar = true ∨ mentionAtStart? (c :: rest) = none
      · rw [mentions_cons hskip, mentions_cons (h ▸ hskip)]
      · rw [not_or, Bool.not_eq_true] at hskip
        obtain ⟨⟨found, after⟩, hfound⟩ := Option.ne_none_iff_exists'.mp hskip.2
        rw [mentions_of_eq_some hskip.1 hfound, mentions_of_eq_some (h ▸ hskip.1) hfound]

/-! ## Seams -/

section Seam

variable {c : Char}

theorem head?_append_cons_any (hc : isNameChar c = false) {s : Text} (t : Text)
    (hs : s.head?.any isNameChar = false) : (s ++ c :: t).head?.any isNameChar = false := by
  cases s with
  | nil => simpa using hc
  | cons d s => exact hs

/-- A mention lies before a character that no mention holds, or behind it. -/
theorem mentionAtStart?_append_cons (hc : isNameChar c = false) (hcolon : c ≠ ':') (s t : Text) :
    mentionAtStart? (s ++ c :: t) =
      (mentionAtStart? s).map fun found => (found.1, found.2 ++ c :: t) := by
  cases hfound : mentionAtStart? s with
  | some found =>
      obtain ⟨name, after⟩ := found
      obtain ⟨scope, function, hscope, hname, hafter, rfl, rfl⟩ := exists_of_mentionAtStart? hfound
      have hstart := mentionAtStart?_of_isScope hscope hname (head?_append_cons_any hc t hafter)
      rw [List.append_assoc, hstart, Option.map_some]
  | none =>
      cases hlong : mentionAtStart? (s ++ c :: t) with
      | none => rfl
      | some found =>
          exfalso
          obtain ⟨name, after⟩ := found
          obtain ⟨scope, function, hscope, hname, hafter, rfl, htext⟩ :=
            exists_of_mentionAtStart? hlong
          have hmem : c ∉ scope ++ "::".toList ++ function := by
            intro hmem
            simp only [List.mem_append] at hmem
            rcases hmem with (hmem | hmem) | hmem
            · rw [isNameChar_of_isScopeChar (hscope.isScopeChar c hmem)] at hc
              cases hc
            · simp [hcolon] at hmem
            · rw [hname.isNameChar c hmem] at hc
              cases hc
          obtain ⟨behind, rfl, rfl⟩ := exists_append_of_not_mem hmem htext.symm
          have hbehind : behind.head?.any isNameChar = false := by
            cases behind with
            | nil => rfl
            | cons d behind => exact hafter
          rw [mentionAtStart?_of_isScope hscope hname hbehind] at hfound
          cases hfound

/-- A text with such a character mentions what its two parts mention. -/
theorem mentions_append_cons (hc : isNameChar c = false) (hcolon : c ≠ ':')
    (before? : Option Char) (s t : Text) :
    mentions before? (s ++ c :: t) = mentions before? s ++ mentions (some c) t := by
  induction before?, s using mentions_induction with
  | nil before? =>
      have hnone : mentionAtStart? (c :: t) = none := mentionAtStart?_append_cons hc hcolon [] t
      rw [List.nil_append, mentions_cons (.inr hnone), mentions, List.nil_append]
  | taken before? s found after hbefore hfound ih =>
      have hlong : mentionAtStart? (s ++ c :: t) = some (found, after ++ c :: t) := by
        rw [mentionAtStart?_append_cons hc hcolon, hfound, Option.map_some]
      rw [mentions_of_eq_some hbefore hlong, mentions_of_eq_some hbefore hfound, ih,
        List.cons_append]
  | passed before? d rest hskip ih =>
      have hlong : before?.any isWordChar = true ∨
          mentionAtStart? (d :: (rest ++ c :: t)) = none := by
        refine hskip.imp id fun hnone => ?_
        rw [← List.cons_append, mentionAtStart?_append_cons hc hcolon, hnone, Option.map_none]
      rw [List.cons_append, mentions_cons hlong, mentions_cons hskip, ih]

end Seam

/-- Sources that are joined with newlines mention what each of them mentions. -/
theorem mentions_intercalate (sources : List Text) :
    mentions none (['\n'].intercalate sources) = sources.flatMap (mentions none) := by
  induction sources with
  | nil => simp [mentions]
  | cons source sources ih =>
      cases sources with
      | nil => simp
      | cons next sources =>
          have hnewline : mentions (some '\n') (['\n'].intercalate (next :: sources)) =
              mentions none (['\n'].intercalate (next :: sources)) :=
            mentions_congr (by decide) _
          rw [List.intercalate_cons_cons, List.append_assoc, List.singleton_append,
            mentions_append_cons (by decide) (by decide), hnewline, ih, ← List.flatMap_cons]

/-! ## Sets of names -/

namespace HandWritten

/-- The names that some sources mention, collected from one source after the other. -/
def ofSources (sources : List Text) : HandWritten :=
  sources.foldl (fun set source => set.addMentions source) {}

/-- The sources add up to the set of all names that they mention. -/
theorem ofSources_eq_ofNames (sources : List Text) :
    ofSources sources = ofNames (sources.flatMap (mentions none)) :=
  List.foldl_flatMap.symm

theorem sorted_names_ofNames (names : List Text) : Keyed.Sorted id (ofNames names).names := by
  induction names using List.reverseRecOn with
  | nil => exact List.Pairwise.nil
  | append_singleton names name ih =>
      rw [ofNames, List.foldl_concat]
      exact Keyed.sorted_insert name ih

theorem sorted_names_ofSources (sources : List Text) :
    Keyed.Sorted id (ofSources sources).names :=
  ofSources_eq_ofNames sources ▸ sorted_names_ofNames _

theorem mem_names_ofSources_iff {sources : List Text} {name : Text} :
    name ∈ (ofSources sources).names ↔ ∃ source ∈ sources, name ∈ mentions none source := by
  simp [ofSources, mem_names_foldl_addMentions_iff]

theorem eq_of_mem_names_iff {set other : HandWritten} (hset : Keyed.Sorted id set.names)
    (hother : Keyed.Sorted id other.names) (h : ∀ name, name ∈ set.names ↔ name ∈ other.names) :
    set = other := by
  obtain ⟨names⟩ := set
  obtain ⟨others⟩ := other
  exact congrArg HandWritten.mk (hset.eq_of_mem_iff hother h)

theorem ofSources_eq_of_subset {sources others : List Text} (h : others ⊆ sources)
    (hsources : sources ⊆ others) : ofSources others = ofSources sources := by
  apply eq_of_mem_names_iff (sorted_names_ofSources others) (sorted_names_ofSources sources)
  intro name
  rw [mem_names_ofSources_iff, mem_names_ofSources_iff]
  constructor
  · rintro ⟨source, hsource, hname⟩
    exact ⟨source, h hsource, hname⟩
  · rintro ⟨source, hsource, hname⟩
    exact ⟨source, hsources hsource, hname⟩

theorem addMentions_intercalate (sources : List Text) :
    addMentions (['\n'].intercalate sources) {} = ofSources sources := by
  rw [ofSources_eq_ofNames, ← mentions_intercalate]
  rfl

/-- What a set has from its sources. -/
structure MergesSources (sources : List Text) (set : HandWritten) : Prop where
  /-- Neither the order of the sources nor repetitions matter. -/
  eq_ofSources : ∀ others, others ⊆ sources → sources ⊆ others → ofSources others = set
  /-- The sources may as well be one text. -/
  eq_addMentions : addMentions (['\n'].intercalate sources) {} = set
  /-- Every name stands in a source: its scope starts a word there, and its function ends one. -/
  mentioned : ∀ name ∈ set.names, ∃ source ∈ sources, ∃ m : Mention none source, m.name = name

/-- The set of the names that sources mention is determined by the sources. -/
theorem mergesSources_ofSources (sources : List Text) :
    MergesSources sources (ofSources sources) where
  eq_ofSources _ := ofSources_eq_of_subset
  eq_addMentions := addMentions_intercalate sources
  mentioned := by
    intro name hname
    obtain ⟨source, hsource, hmem⟩ := mem_names_ofSources_iff.mp hname
    exact ⟨source, hsource, exists_mention_of_mem_mentions hmem⟩

end HandWritten

end HeaderBindings
