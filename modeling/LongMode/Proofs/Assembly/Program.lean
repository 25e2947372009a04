import Mathlib.Data.List.Forall2
import LongMode.Proofs.Assembly.Respelling

/-!
# Programs line by line

Programs one below the other have their lines one after the other, and the lines of a program, one below the other, are
the program again.

* `splitLines_eq_splitOn`: the lines of a text are its parts between the line feeds.
* `isBare_of_mem_programLines`: what counts of a line holds no comment and has no white space at its ends.
* `isWritten_bareLine`: the line itself is that with white space around it and a comment behind it.
* `programLines_eq_map`: which lines of a text count.
* `programLines_append` and `programLines_intercalate`: programs and lines one below the other.
* `programLines_composes`: all of these, and that a line is read like what counts of it.
-/

namespace LongMode

namespace Assembly

variable {line raw : List Char}

/-- An instruction and nothing else: no comment, no other line, no white space at the ends. -/
structure IsBare (line : List Char) : Prop where
  ne_nil : line ≠ []
  plain : ∀ c ∈ line, c ≠ ';' ∧ c ≠ '#' ∧ c ≠ '\n'
  head_not_blank : ∀ c, line.head? = some c → Text.isBlank c = false
  last_not_blank : ∀ c, line.getLast? = some c → Text.isBlank c = false

/-- A line as it may be written: with white space around it and a comment behind it. -/
def IsWritten (line raw : List Char) : Prop :=
  ∃ lead trail comment, raw = lead ++ (line ++ (trail ++ comment)) ∧ (∀ c ∈ lead, Text.isBlank c = true) ∧
    (∀ c ∈ trail, Text.isBlank c = true) ∧ IsComment comment

/-- Something else than white space stands in front of the comment. -/
def holdsStatement (raw : List Char) : Bool :=
  (raw.takeWhile fun c => !startsComment c).any fun c => !Text.isBlank c

/-! ### The lines of a text -/

theorem splitLines_eq_splitOn (s : List Char) : splitLines s = s.splitOn '\n' := by
  induction s with
  | nil => exact (List.splitOn_nil '\n').symm
  | cons c s ih =>
    rw [splitLines, List.splitOn_cons_eq_if_modifyHead, ih]
    by_cases hc : c = '\n'
    · rw [if_pos hc, if_pos (beq_iff_eq.2 hc)]
    · rw [if_neg hc, if_neg fun h => hc (beq_iff_eq.1 h)]
      -- there is a first line to put the character in front of
      obtain ⟨first, rest, hlines⟩ := List.exists_cons_of_ne_nil (List.splitOn_ne_nil '\n' s)
      rw [hlines]
      rfl

/-! ### What counts of a line -/

theorem isBare_bareLine (h : '\n' ∉ raw) (hne : bareLine raw ≠ []) : IsBare (bareLine raw) := by
  refine ⟨hne, fun c hc => ?_, fun c => Text.head?_trim, fun c => Text.getLast?_trim⟩
  obtain ⟨trail, hline, -, -⟩ := Text.exists_append_trim (withoutComment raw)
  have hmem : c ∈ withoutComment raw := by
    rw [hline]
    exact List.mem_append_right _ (List.mem_append_left _ hc)
  have hmark : startsComment c = false := startsComment_of_mem h hmem
  rw [withoutComment_eq_takeWhile h] at hmem
  refine ⟨?_, ?_, ?_⟩
  · rintro rfl
    cases hmark
  · rintro rfl
    cases hmark
  · rintro rfl
    exact h ((List.takeWhile_subset _) hmem)

theorem isWritten_bareLine (h : '\n' ∉ raw) : IsWritten (bareLine raw) raw := by
  obtain ⟨trail, hline, hlead, htrail⟩ := Text.exists_append_trim (withoutComment raw)
  have hcut : (withoutComment raw).takeWhile Text.isBlank ++ (bareLine raw ++ trail) ++
      raw.dropWhile (fun c => !startsComment c) = raw := by
    rw [bareLine, ← hline, withoutComment_eq_takeWhile h, List.takeWhile_append_dropWhile]
  have hcomment : IsComment (raw.dropWhile fun c => !startsComment c) := by
    cases hrest : raw.dropWhile fun c => !startsComment c with
    | nil => exact .inl rfl
    | cons mark rest =>
      have hmark := List.head?_dropWhile_not (fun c => !startsComment c) raw
      have hsublist := List.dropWhile_sublist (l := raw) fun c => !startsComment c
      rw [hrest] at hmark hsublist
      exact .inr ⟨mark, rest, rfl, by simpa using hmark,
        fun hfeed => h (hsublist.subset (List.mem_cons_of_mem _ hfeed))⟩
  rw [List.append_assoc, List.append_assoc] at hcut
  exact ⟨_, trail, _, hcut.symm, hlead, htrail, hcomment⟩

theorem bareLine_ne_nil_iff (h : '\n' ∉ raw) : bareLine raw ≠ [] ↔ holdsStatement raw = true := by
  rw [bareLine, Text.trim_ne_nil, withoutComment_eq_takeWhile h, holdsStatement, List.any_eq_true]
  simp only [Bool.not_eq_true']

theorem IsBare.bareLine_eq (h : IsBare line) : bareLine line = line := by
  have hplain : withoutComment line = line := withoutComment_eq_self fun c hc => by
    obtain ⟨hsemicolon, hnumber, -⟩ := h.plain c hc
    simp [startsComment, hsemicolon, hnumber]
  rw [bareLine, hplain, Text.trim_eq_self h.head_not_blank h.last_not_blank]

/-! ### Programs -/

/-- The lines that count, without what does not count of them. -/
theorem programLines_eq_map (source : List Char) :
    programLines source = ((source.splitOn '\n').filter holdsStatement).map bareLine := by
  rw [programLines, splitLines_eq_splitOn, List.filter_map]
  refine congrArg _ (List.filter_congr fun raw hraw => ?_)
  rw [← splitLines_eq_splitOn] at hraw
  rw [Bool.eq_iff_iff, ← bareLine_ne_nil_iff (lineFeed_not_mem hraw)]
  simp

theorem isBare_of_mem_programLines {source : List Char} (h : line ∈ programLines source) : IsBare line := by
  obtain ⟨hmem, hne⟩ := List.mem_filter.1 h
  obtain ⟨raw, hraw, rfl⟩ := List.mem_map.1 hmem
  exact isBare_bareLine (lineFeed_not_mem hraw) (by simpa using hne)

theorem programLines_append (a b : List Char) :
    programLines (a ++ '\n' :: b) = programLines a ++ programLines b := by
  rw [programLines_eq_map, programLines_eq_map, programLines_eq_map, List.splitOn_append_cons_self, List.filter_append,
    List.map_append]

theorem programLines_intercalate {lines : List (List Char)} (h : ∀ line ∈ lines, IsBare line) :
    programLines (['\n'].intercalate lines) = lines := by
  cases hlines : lines with
  | nil => rfl
  | cons first rest =>
    rw [← hlines]
    have hsplit : (['\n'].intercalate lines).splitOn '\n' = lines :=
      List.splitOn_intercalate '\n' (fun line hline hfeed => ((h line hline).plain _ hfeed).2.2 rfl) (by simp [hlines])
    have hbare : lines.map bareLine = lines := by
      rw [List.map_congr_left fun line hline => (h line hline).bareLine_eq, List.map_id']
    rw [programLines, splitLines_eq_splitOn, hsplit, hbare]
    exact List.filter_eq_self.2 fun line hline => by simp [(h line hline).ne_nil]

/-- Programs one below the other; what each line is; the lines one below the other; and how a line is written and
read. -/
theorem programLines_composes (a b : List Char) :
    programLines (a ++ '\n' :: b) = programLines a ++ programLines b ∧
      (∀ line ∈ programLines a, IsBare line) ∧
      programLines (['\n'].intercalate (programLines a)) = programLines a ∧
      List.Forall₂ (fun raw line => IsWritten line raw ∧ ∀ i, parse line = .ok i ↔ parse raw = .ok i)
        ((a.splitOn '\n').filter holdsStatement) (programLines a) := by
  have hbare : ∀ line ∈ programLines a, IsBare line := fun line hline => isBare_of_mem_programLines hline
  refine ⟨programLines_append a b, hbare, programLines_intercalate hbare, ?_⟩
  rw [programLines_eq_map, List.forall₂_map_right_iff, List.forall₂_same]
  intro raw hraw
  have hline : raw ∈ splitLines a := by
    rw [splitLines_eq_splitOn]
    exact (List.mem_filter.1 hraw).1
  have hfeed := lineFeed_not_mem hline
  exact ⟨isWritten_bareLine hfeed, fun i => (sameReading_bareLine hfeed).ok_iff.symm⟩

/-- Lines that end in carriage returns, the second of them blank and the third a comment. -/
theorem programLines_composes_carriage_returns :
    "inc rax".toList ∈ programLines "inc rax ; one\r\n\r\n\x0b# two".toList ∧ IsBare "inc rax".toList ∧
      programLines ("inc rax ; one\r\n\r\n\x0b# two".toList ++ '\n' :: "\tPOP rbx\r".toList) =
        ["inc rax".toList, "POP rbx".toList] := by
  obtain ⟨hcompose, hbare, -, -⟩ :=
    programLines_composes "inc rax ; one\r\n\r\n\x0b# two".toList "\tPOP rbx\r".toList
  have hmem : "inc rax".toList ∈ programLines "inc rax ; one\r\n\r\n\x0b# two".toList := by decide
  exact ⟨hmem, hbare _ hmem, hcompose.trans (by decide)⟩

end Assembly

end LongMode
