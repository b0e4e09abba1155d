import HeaderBindings.Generator
import HeaderBindings.Proofs.Header.Reports
import HeaderBindings.Proofs.Source
import Mathlib.Data.List.Forall2

/-! # Warnings

The line about a problem names a place of the header as written, though the problem was found in
the text without comments: comments are blanked in place, and a problem is reported where no blank
stands. -/

namespace HeaderBindings

open List Text Header

/-- A line about a problem names the place of a span of the file: `lines` and `column` are the whole
lines and the part of a line before the span. Neither the length of the span nor the column is
counted below zero. -/
structure PointsInto (file : SourceFile) (d : Diagnostic) (line : Text) (span : Span)
    (lines column behind : Text) : Prop where
  span_eq : d.span = some span
  content_eq : file.content = lines ++ column ++ behind
  lines_eq : lines = [] ∨ lines.getLast? = some '\n'
  not_mem_column : '\n' ∉ column
  start_eq : span.start.toNat = size (lines ++ column)
  start_le_stop : span.start ≤ span.stop
  stop_le_size : span.stop.toNat ≤ size file.content
  lineStart_le : file.lineStart span.start ≤ span.start
  line_eq : line = file.path ++ ":" ++ Nat.toDigits 10 ((lines ++ column).count '\n' + 1) ++ ":" ++
    Nat.toDigits 10 (size column + 1) ++ ": " ++ d.message

/-- There is one line for each problem, and each names the place of its problem. -/
def AllPointInto {α : Type} (file : SourceFile) (found : Findings α) (report : List Text) : Prop :=
  Forall₂ (fun d line => ∃ span lines column behind,
    PointsInto file d line span lines column behind) found.diagnostics report

variable {file : SourceFile}

/-- A place in the text without comments is a place in the text as written. -/
theorem exists_pointsInto (hsize : size file.content < 4294967296) {problem : Problem}
    (h : IsPlaced (blankComments file.content) problem) :
    ∃ span lines column behind, PointsInto file problem.diagnostic
      (problem.diagnostic.summary file) span lines column behind := by
  obtain ⟨start, stop, ⟨front, c, back, htext, rfl, hc⟩, horder, hstop, hspan⟩ := h
  rw [size_blankComments] at hstop
  obtain ⟨before, behind, hcontent, hbefore⟩ := exists_eq_append_cons_of_blankComments hc htext
  rw [← hbefore] at horder hspan
  obtain ⟨hfirst, hend⟩ := Span.toNat_between horder (Nat.lt_of_le_of_lt hstop hsize)
  obtain ⟨lines, hlines, hcolumn, hends⟩ := exists_append_lastLine before
  refine ⟨_, lines, lastLine before, c :: behind, hspan, ?_, ?_, hcolumn, ?_, ?_, ?_, ?_, ?_⟩
  · rw [← hlines, hcontent]
  · rcases hends with hnil | ⟨whole, rfl⟩
    · exact .inl hnil
    · exact .inr List.getLast?_concat
  · rw [hfirst, ← hlines]
  · rwa [UInt32.le_iff_toNat_le, hfirst, hend]
  · rwa [hend]
  · exact SourceFile.lineStart_le hcontent hsize
  · have hlocation := SourceFile.location_eq hcontent hsize
    rw [Diagnostic.summary, hspan, ← hlines]
    exact congrArg (· ++ ": " ++ problem.diagnostic.message) hlocation

theorem allPointInto_warnings {α : Type} {found : Findings α}
    (hsize : size file.content < 4294967296)
    (h : ∀ problem ∈ found.problems, IsPlaced (blankComments file.content) problem) :
    AllPointInto file found (Generator.warnings file found) := by
  rw [AllPointInto, Generator.warnings, List.forall₂_map_right_iff, List.forall₂_same]
  intro d hd
  obtain ⟨problem, hproblem, rfl⟩ := List.mem_map.mp hd
  exact exists_pointsInto hsize (h problem hproblem)

/-- Every problem of a header has a place in the header as written, and its line tells this
place. -/
theorem warnings_pointInto (hsize : size file.content < 4294967296) :
    (∀ blocks report, Generator.readEnums file = .ok (blocks, report) →
      ∃ found, enumsOf file.content = .ok found ∧ found.items = blocks ∧
        AllPointInto file found report) ∧
    (∀ functions report, Generator.readNatives file = .ok (functions, report) →
      ∃ found, functionsOf file.content = .ok found ∧ found.items = functions ∧
        AllPointInto file found report) := by
  constructor
  · intro blocks report h
    obtain ⟨found, hfound, h⟩ := bind_eq_ok_iff.mp h
    cases h
    exact ⟨found, hfound, rfl, allPointInto_warnings hsize (isPlaced_of_enumsIn hfound)⟩
  · intro functions report h
    obtain ⟨found, hfound, h⟩ := bind_eq_ok_iff.mp h
    cases h
    exact ⟨found, hfound, rfl, allPointInto_warnings hsize (isPlaced_of_functionsIn hfound)⟩

/-- A header with problems of both readers behind comments. -/
def commentedFile : SourceFile where
  path := "é.h"
  content := "// enum é \x7b\n/* ü\n */ enum A; enum \x7b /* é */ \x7d; namespace \x7b"

theorem warnings_pointInto_commentedFile :
    size commentedFile.content < 4294967296 ∧
    (∃ found, enumsOf commentedFile.content = .ok found ∧ found.items = [] ∧
      AllPointInto commentedFile found ["é.h:3:13: enum without a name"]) ∧
    (∃ found, functionsOf commentedFile.content = .ok found ∧ found.items = [] ∧
      AllPointInto commentedFile found ["é.h:3:32: namespace without a name"]) := by
  have hsize : size commentedFile.content < 4294967296 := by decide +kernel
  have henums : Generator.readEnums commentedFile =
      .ok ([], ["é.h:3:13: enum without a name"]) := by
    decide +kernel
  have hnatives : Generator.readNatives commentedFile =
      .ok ([], ["é.h:3:32: namespace without a name"]) := by
    decide +kernel
  obtain ⟨hreadEnums, hreadNatives⟩ := warnings_pointInto hsize
  exact ⟨hsize, hreadEnums _ _ henums, hreadNatives _ _ hnatives⟩

end HeaderBindings
