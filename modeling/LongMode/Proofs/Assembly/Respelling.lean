import LongMode.Proofs.Assembly.Layout
import LongMode.Proofs.Assembly.LetterCase

/-!
# Letter case and layout carry no meaning

A line may be written with other letter case, with white space around it and with a comment behind it.

* `withoutComment_eq_takeWhile`: the comment of a single line starts at the first mark.
* `exists_withoutComment_append`: so a line is found again between white space, whatever comment follows.
* `parse_respelled`: the instruction is the same, or the kind of the error.
-/

namespace LongMode

namespace Assembly

variable {text body before after comment : List Char}

theorem SameReading.kind_eq {α : Type} {x y : Except ParseError α} (h : SameReading id x y) :
    x.mapError ParseError.kind = y.mapError ParseError.kind := by
  cases x with
  | ok a =>
    cases y with
    | ok b => exact congrArg Except.ok (Except.ok.inj h)
    | error e => cases h
  | error e =>
    cases y with
    | ok b => cases h
    | error e' =>
      have hcomplaint : e.complaint = e'.complaint := Except.error.inj h
      exact congrArg (fun c : Complaint => Except.error c.kind) hcomplaint

theorem withoutComment_eq_takeWhile (h : '\n' ∉ text) :
    withoutComment text = text.takeWhile fun c => !startsComment c := by
  induction text with
  | nil => rfl
  | cons c rest ih =>
    rw [List.mem_cons, not_or] at h
    rw [withoutComment, afterLine_eq_nil h.2, List.takeWhile_cons, ih h.2]
    cases startsComment c <;> rfl

/-- What is appended to a line: a comment, or nothing. -/
def IsComment (s : List Char) : Prop := s = [] ∨ ∃ mark rest, s = mark :: rest ∧ startsComment mark = true ∧ '\n' ∉ rest

private theorem startsComment_of_blank {c : Char} (hc : Text.isBlank c = true) : startsComment c = false := by
  cases hmark : startsComment c with
  | false => rfl
  | true =>
    have hcases : c = ';' ∨ c = '#' := by simpa [startsComment] using hmark
    rcases hcases with rfl | rfl <;> cases hc

/-- The comment of the line itself may end it too, and then nothing of what follows is left. -/
theorem exists_withoutComment_append (hbody : '\n' ∉ body) (hbefore : ∀ c ∈ before, Text.isBlank c = true ∧ c ≠ '\n')
    (hafter : ∀ c ∈ after, Text.isBlank c = true ∧ c ≠ '\n') (hcomment : IsComment comment) :
    ∃ trail, withoutComment (before ++ (body ++ (after ++ comment))) = before ++ (withoutComment body ++ trail) ∧
      ∀ c ∈ trail, Text.isBlank c = true := by
  have hplain : ∀ s : List Char, (∀ c ∈ s, Text.isBlank c = true ∧ c ≠ '\n') →
      ∀ c ∈ s, (!startsComment c) = true := by
    intro s hs c hc
    rw [startsComment_of_blank (hs c hc).1]
    rfl
  have hcut : comment.takeWhile (fun c => !startsComment c) = [] ∧ '\n' ∉ comment := by
    rcases hcomment with rfl | ⟨mark, rest, rfl, hmark, hrest⟩
    · exact ⟨rfl, List.not_mem_nil⟩
    · have hfeed : '\n' ≠ mark := by
        rintro rfl
        cases hmark
      rw [List.takeWhile_cons, hmark, List.mem_cons, not_or]
      exact ⟨rfl, hfeed, hrest⟩
  have hline : '\n' ∉ before ++ (body ++ (after ++ comment)) := by
    simp only [List.mem_append, not_or]
    exact ⟨fun h => (hbefore _ h).2 rfl, hbody, fun h => (hafter _ h).2 rfl, hcut.2⟩
  have hbehind : (after ++ comment).takeWhile (fun c => !startsComment c) = after := by
    rw [List.takeWhile_append_of_pos (hplain after hafter), hcut.1, List.append_nil]
  rw [withoutComment_eq_takeWhile hline, withoutComment_eq_takeWhile hbody,
    List.takeWhile_append_of_pos (hplain before hbefore), List.takeWhile_append, hbehind]
  split
  · rename_i hwhole
    refine ⟨after, ?_, fun c hc => (hafter c hc).1⟩
    rw [(List.takeWhile_prefix _).eq_of_length hwhole]
  · exact ⟨[], by rw [List.append_nil], nofun⟩

/-- A single line, and the same line with other letter case, white space around it and a comment behind it. -/
theorem parse_respelled (htext : '\n' ∉ text) (hcase : Text.lower body = Text.lower text)
    (hbefore : ∀ c ∈ before, Text.isBlank c = true ∧ c ≠ '\n')
    (hafter : ∀ c ∈ after, Text.isBlank c = true ∧ c ≠ '\n') (hcomment : IsComment comment) :
    (parse (before ++ (body ++ (after ++ comment)))).mapError ParseError.kind =
      (parse text).mapError ParseError.kind := by
  have hfeed : ∀ x : Char, x.toLower = '\n' ↔ x = '\n' := fun x => Text.toLower_eq_iff (by decide)
  have hbody : '\n' ∉ body := by
    rw [← Text.mem_lower hfeed, hcase, Text.mem_lower hfeed]
    exact htext
  obtain ⟨trail, hline, htrail⟩ := exists_withoutComment_append hbody hbefore hafter hcomment
  calc (parse (before ++ (body ++ (after ++ comment)))).mapError ParseError.kind
      = (parse body).mapError ParseError.kind :=
        (sameReading_parse hline rfl (fun c hc => (hbefore c hc).1) htrail).kind_eq
    _ = (parse (Text.lower text)).mapError ParseError.kind := by rw [← parse_lower, hcase]
    _ = (parse text).mapError ParseError.kind := parse_lower text

/-- Capitals in every kind of word, and a comment that looks like an operand. -/
theorem parse_respelled_capitals : '\n' ∉ "mov eax, dword ptr [rbx+0x1f]".toList ∧
    Text.lower "MOV Eax, DWORD PTR [RBX+0X1F]".toList = Text.lower "mov eax, dword ptr [rbx+0x1f]".toList ∧
    IsComment "; , 0x".toList ∧
    (parse "\t MOV Eax, DWORD PTR [RBX+0X1F] ; , 0x".toList).mapError ParseError.kind =
      .ok ⟨.mov, [.register (.low .rax .dword), .memory ⟨⟨some .rbx, none, .one, 31⟩, .dword⟩]⟩ := by
  have hline : '\n' ∉ "mov eax, dword ptr [rbx+0x1f]".toList := by decide
  have hcase : Text.lower "MOV Eax, DWORD PTR [RBX+0X1F]".toList =
      Text.lower "mov eax, dword ptr [rbx+0x1f]".toList := by decide
  have hbefore : ∀ c ∈ "\t ".toList, Text.isBlank c = true ∧ c ≠ '\n' := Text.forall_mem_of_all (by decide)
  have hafter : ∀ c ∈ " ".toList, Text.isBlank c = true ∧ c ≠ '\n' := Text.forall_mem_of_all (by decide)
  have hcomment : IsComment "; , 0x".toList := .inr ⟨';', " , 0x".toList, rfl, rfl, by decide⟩
  exact ⟨hline, hcase, hcomment, (parse_respelled hline hcase hbefore hafter hcomment).trans rfl⟩

end Assembly

end LongMode
