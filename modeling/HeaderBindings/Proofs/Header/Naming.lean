import HeaderBindings.Proofs.Header.Findings
import HeaderBindings.Proofs.Header.Head

/-! # The names of functions that were read

Whatever a header holds, the scope and the name of each function that is read from it are runs of
name characters, so its qualified name tells both. -/

namespace HeaderBindings.Header

open List Text

/-! ## Heads -/

theorem dropBytes?_size_add (s t : Text) (n : Nat) :
    dropBytes? (size s + n) (s ++ t) = dropBytes? n t := by
  induction s with
  | nil => rw [size_nil, Nat.zero_add, List.nil_append]
  | cons c s ih =>
      obtain ⟨k, hk⟩ := Nat.exists_eq_add_of_le' (one_le_utf8Size c)
      have hsize : size (c :: s) + n = (k + size s + n) + 1 := by
        rw [size_cons]
        omega
      rw [hsize, List.cons_append, dropBytes?, if_pos (by omega),
        show k + size s + n + 1 - c.utf8Size = size s + n by omega, ih]

/-- A cut one byte behind the start of a character misses if the character is longer. -/
theorem slice_behind {front rest part : Text} {c : Char} {stop : Nat}
    (h : slice (size front + 1) stop (front ++ c :: rest) = .ok part) : c.utf8Size = 1 := by
  rw [slice] at h
  split at h
  next part' hpart =>
    split at hpart
    · rw [dropBytes?_size_add, dropBytes?, Option.bind_eq_some_iff] at hpart
      obtain ⟨_, hdrop, -⟩ := hpart
      have hpos := one_le_utf8Size c
      split at hdrop
      · omega
      · exact absurd hdrop (by simp)
    · exact absurd hpart (by simp)
  next => exact absurd h (by simp)

/-- A head is cut right before its trailing run of name characters, or not at all. -/
theorem eq_snd_splitTrailing_of_slice {head name : Text}
    (h : slice (if (splitTrailing isNameChar head).1.isEmpty then 0
      else size (splitTrailing isNameChar head).1.dropLast + 1) (size head) head = .ok name) :
    name = (splitTrailing isNameChar head).2 := by
  have hhead := splitTrailing_fst_append_snd isNameChar head
  rcases List.eq_nil_or_concat' (splitTrailing isNameChar head).1 with hfront | ⟨front, c, hfront⟩
  · rw [hfront, List.nil_append] at hhead
    rw [hfront, List.isEmpty_nil, if_pos rfl] at h
    have hall : slice 0 (size head) head = .ok head :=
      slice_eq_ok [] head [] (by simp) rfl (by simp)
    rw [hhead]
    exact Except.ok.inj (h.symm.trans hall)
  · have hcut : (if (front ++ [c]).isEmpty then 0 else size (front ++ [c]).dropLast + 1) =
        size front + 1 := by simp
    rw [hfront] at hhead h
    rw [hcut] at h
    have hchar : c.utf8Size = 1 := by
      rw [List.append_assoc, List.singleton_append] at hhead
      exact slice_behind (hhead.symm ▸ h)
    have htrailing : slice (size front + 1) (size head) head =
        .ok (splitTrailing isNameChar head).2 :=
      slice_eq_ok (front ++ [c]) _ [] (by simpa using hhead.symm)
        (by simp [hchar]) (by rw [← size_append, hhead])
    exact Except.ok.inj (h.symm.trans htrailing)

theorem isName_of_signature?_eq_some {head result name : Text}
    (h : signature? head = .ok (some (result, name))) : IsName name := by
  unfold signature? at h
  simp only [bind_eq_ok_iff] at h
  obtain ⟨spelled, -, cut, hcut, h⟩ := h
  split at h
  · cases h
  next hparts =>
    cases h
    simp only [Bool.or_eq_true, not_or, List.isEmpty_iff] at hparts
    refine ⟨hparts.1.2, ?_⟩
    rw [eq_snd_splitTrailing_of_slice hcut]
    intro c hc
    exact mem_snd_splitTrailing hc

/-! ## Rounds -/

theorem exists_problem_of_recover {problem : Problem} {keyword : Text} {offset : Nat}
    {s next : Cursor} {batch : Findings NativeFunction}
    (h : (recover keyword offset s >>= fun later =>
      pure (Round.found (.problem problem) later)) = .ok (Round.found batch next)) :
    ∃ problem, batch = .problem problem := by
  obtain ⟨later, -, h⟩ := bind_eq_ok_iff.mp h
  cases h
  exact ⟨problem, rfl⟩

/-- A round over functions reports one problem or reads one function, whose name comes from its
head. -/
theorem of_functionRound_eq_found {scope : Text} {s next : Cursor}
    {batch : Findings NativeFunction} (h : functionRound scope s = .ok (.found batch next)) :
    (∃ problem, batch = .problem problem) ∨
      ∃ head result name list span, signature? head = .ok (some (result, name)) ∧
        batch = .item ⟨scope, result, name, parameters list, span⟩ := by
  unfold functionRound at h
  obtain ⟨⟨start?, s₁⟩, -, h⟩ := bind_eq_ok_iff.mp h
  cases start? with
  | none => cases h
  | some start =>
      obtain ⟨⟨target?, s₂⟩, -, h⟩ := bind_eq_ok_iff.mp h
      simp only at h
      split at h
      · cases h
      next paren =>
        obtain ⟨head, -, h⟩ := bind_eq_ok_iff.mp h
        obtain ⟨signature, hsignature, h⟩ := bind_eq_ok_iff.mp h
        cases signature with
        | none =>
            obtain ⟨⟨list, s₃⟩, -, h⟩ := bind_eq_ok_iff.mp h
            left
            cases list with
            | error cause => exact exists_problem_of_recover h
            | ok marks =>
                cases h
                exact ⟨_, rfl⟩
        | some signature =>
            obtain ⟨⟨list, s₃⟩, -, h⟩ := bind_eq_ok_iff.mp h
            cases list with
            | error cause => exact .inl (exists_problem_of_recover h)
            | ok marks =>
                simp only at h
                obtain ⟨s₄, -, h⟩ := bind_eq_ok_iff.mp h
                obtain ⟨c?, -, h⟩ := bind_eq_ok_iff.mp h
                split at h
                · cases h
                  exact .inl ⟨_, rfl⟩
                obtain ⟨⟨body, s₅⟩, -, h⟩ := bind_eq_ok_iff.mp h
                cases body with
                | error cause => exact .inl (exists_problem_of_recover h)
                | ok bodyMarks =>
                    obtain ⟨list, -, h⟩ := bind_eq_ok_iff.mp h
                    cases h
                    exact .inr ⟨head, _, _, list, _, hsignature, rfl⟩
      next found offset _ =>
        left
        split at h
        next =>
          obtain ⟨⟨body, s₃⟩, -, h⟩ := bind_eq_ok_iff.mp h
          cases body <;>
            · cases h
              exact ⟨_, rfl⟩
        next =>
          cases h
          exact ⟨_, rfl⟩

theorem isName_of_name_eq_some {s next : Cursor} {name : Text} {place : Span}
    (h : s.name = .ok (some (name, place), next)) : IsName name := by
  unfold Cursor.name at h
  obtain ⟨rest, -, h⟩ := bind_eq_ok_iff.mp h
  simp only at h
  split at h
  · cases h
  next hne =>
    cases h
    refine ⟨by simpa using hne, ?_⟩
    intro c hc
    exact List.mem_takeWhile_imp hc

theorem of_namespaceRound_eq_found {s next : Cursor} {batch : Findings NativeFunction}
    (h : namespaceRound s = .ok (.found batch next)) :
    (∃ problem, batch = .problem problem) ∨
      ∃ scope inside, IsName scope ∧ collect (functionRound scope) inside = .ok batch := by
  unfold namespaceRound at h
  obtain ⟨⟨start?, s₁⟩, -, h⟩ := bind_eq_ok_iff.mp h
  cases start? with
  | none => cases h
  | some start =>
      simp only at h
      obtain ⟨s₂, -, h⟩ := bind_eq_ok_iff.mp h
      obtain ⟨⟨name?, s₃⟩, hname, h⟩ := bind_eq_ok_iff.mp h
      cases name? with
      | none =>
          cases h
          exact .inl ⟨_, rfl⟩
      | some name =>
          simp only at h
          obtain ⟨s₄, -, h⟩ := bind_eq_ok_iff.mp h
          obtain ⟨⟨body, s₅⟩, -, h⟩ := bind_eq_ok_iff.mp h
          cases body with
          | error cause =>
              left
              cases cause with
              | unterminated => exact exists_problem_of_recover h
              | expected =>
                  cases h
                  exact ⟨_, rfl⟩
          | ok marks =>
              simp only at h
              obtain ⟨inside, hinside, h⟩ := bind_eq_ok_iff.mp h
              cases h
              exact .inr ⟨_, _, isName_of_name_eq_some hname, hinside⟩

/-! ## Functions -/

/-- The scope and the name of a function are names. -/
structure IsNamed (d : NativeFunction) : Prop where
  scope : IsName d.scope
  name : IsName d.name

theorem isNamed_of_functionRound {scope : Text} (hscope : IsName scope) {s next : Cursor}
    {batch : Findings NativeFunction} (h : functionRound scope s = .ok (.found batch next)) :
    ∀ d ∈ batch.items, IsNamed d := by
  rcases of_functionRound_eq_found h with ⟨problem, rfl⟩ | ⟨head, _, _, _, _, hhead, rfl⟩
  · intro d hd
    exact absurd hd List.not_mem_nil
  · intro d hd
    rw [List.mem_singleton.mp hd]
    exact ⟨hscope, isName_of_signature?_eq_some hhead⟩

/-- Every function that is read from a header is named, whatever the header holds. -/
theorem isNamed_of_functionsOf {raw : Text} {found : Findings NativeFunction}
    (h : functionsOf raw = .ok found) : ∀ d ∈ found.items, IsNamed d := by
  refine forall_mem_of_collect ?_ h
  intro s batch next hround
  rcases of_namespaceRound_eq_found hround with ⟨problem, rfl⟩ | ⟨scope, inside, hscope, hinside⟩
  · intro d hd
    exact absurd hd List.not_mem_nil
  · exact forall_mem_of_collect (fun _ _ _ => isNamed_of_functionRound hscope) hinside

/-- The qualified name of a named function tells its scope and its name. -/
theorem IsNamed.eq_of_qualifiedName_eq {d e : NativeFunction} (hd : IsNamed d) (he : IsNamed e)
    (h : d.qualifiedName = e.qualifiedName) : d.scope = e.scope ∧ d.name = e.name := by
  have hcolon : ∀ {t : Text}, IsName t → ∀ c ∈ t, (c != ':') = true := by
    intro t ht c hc
    simpa using ht.ne_of_mem hc (by decide)
  have hscope : ∀ {d : NativeFunction}, IsNamed d →
      d.qualifiedName.takeWhile (· != ':') = d.scope := by
    intro d hd
    rw [NativeFunction.qualifiedName, List.append_assoc]
    exact takeWhile_append_of_head? (hcolon hd.scope) (by simp)
  have heq : d.scope = e.scope := by rw [← hscope hd, ← hscope he, h]
  refine ⟨heq, ?_⟩
  rw [NativeFunction.qualifiedName, NativeFunction.qualifiedName, heq] at h
  exact List.append_cancel_left h

end HeaderBindings.Header
