import LongMode.Assembly.Program

/-!
# Lines and comments

* `withoutComment_eq_self`: a text without comment marks stays as it is.
* `startsComment_of_mem`: a line, once its comment is removed, holds no comment mark.
* `lineFeed_not_mem`: a line of a text holds no line feed.
-/

namespace LongMode.Assembly

theorem withoutComment_eq_self {s : List Char} (h : ∀ c ∈ s, startsComment c = false) : withoutComment s = s := by
  induction s with
  | nil => rfl
  | cons c s ih =>
    have hc := h c List.mem_cons_self
    rw [withoutComment, hc, Bool.false_and, if_neg Bool.false_ne_true, ih fun c hc => h c (List.mem_cons_of_mem _ hc)]

theorem afterLine_eq_nil {s : List Char} (h : '\n' ∉ s) : afterLine s = [] := by
  have hd : (s ++ []).dropWhile (fun c => c != '\n') = [].dropWhile fun c => c != '\n' :=
    List.dropWhile_append_of_pos fun c hc => by simpa using fun hn : c = '\n' => h (hn ▸ hc)
  rwa [List.append_nil] at hd

theorem startsComment_of_mem {line : List Char} (h : '\n' ∉ line) {c : Char} (hc : c ∈ withoutComment line) :
    startsComment c = false := by
  induction line with
  | nil => cases hc
  | cons d rest ih =>
    have hrest : '\n' ∉ rest := fun hn => h (List.mem_cons_of_mem _ hn)
    rw [withoutComment, afterLine_eq_nil hrest] at hc
    cases hd : startsComment d with
    | true => simp [hd] at hc
    | false =>
      rw [hd, Bool.false_and, if_neg Bool.false_ne_true, List.mem_cons] at hc
      rcases hc with rfl | hc
      · exact hd
      · exact ih hrest hc

theorem lineFeed_not_mem {source line : List Char} (h : line ∈ splitLines source) : '\n' ∉ line := by
  induction source generalizing line with
  | nil =>
    obtain rfl := List.mem_singleton.1 h
    exact List.not_mem_nil
  | cons c rest ih =>
    rw [splitLines] at h
    split at h
    · rcases List.mem_cons.1 h with rfl | h
      · exact List.not_mem_nil
      · exact ih h
    · rename_i hc
      cases hlines : splitLines rest with
      | nil =>
        rw [hlines, prepend, List.mem_singleton] at h
        subst h
        simpa using fun hn => hc hn.symm
      | cons first others =>
        rw [hlines] at ih h
        rcases List.mem_cons.1 h with rfl | h
        · rw [List.mem_cons, not_or]
          exact ⟨fun hn => hc hn.symm, ih List.mem_cons_self⟩
        · exact ih (List.mem_cons_of_mem _ h)

end LongMode.Assembly
