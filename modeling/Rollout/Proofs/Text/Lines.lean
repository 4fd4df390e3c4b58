import Rollout.Text.Lines
/-!
The lines of a text by its line feeds.  A text is cut at every line feed, and each piece but the last loses one carriage
return from its end (`lines_eq`).  So a text that is put together of lines has these lines again, unless one of them
holds a line feed or ends in a carriage return (`lines_join`, `flatMap_cut_eq_iff`).

What comes out of one line when the text that it stands in is cut is `cut`: as many lines as there are line feeds in it,
and one more.  What comes out of a text is what comes out of each of its lines, so it is enough to ask which lines come
through unchanged (`Whole`).  How a text ends is decided by what stands after its last separator, unless it ends like
the separator itself.
-/
namespace Rollout.Text

def trimmed (piece : List Char) : String := String.ofList (dropReturn piece.reverse).reverse

/-- The lines that the pieces between the line feeds of a text make.  No line feed ends the last piece, which is a line
only if it is not empty. -/
def linesOf : List (List Char) → List String
  | [] => []
  | [last] => if last.isEmpty then [] else [String.ofList last]
  | piece :: next :: rest => trimmed piece :: linesOf (next :: rest)

theorem linesOf_cons (piece : List Char) {pieces : List (List Char)} (h : pieces ≠ []) :
    linesOf (piece :: pieces) = trimmed piece :: linesOf pieces := by
  cases pieces with
  | nil => exact absurd rfl h
  | cons next rest => rfl

theorem linesOf_append_nil (pieces : List (List Char)) : linesOf (pieces ++ [[]]) = pieces.map trimmed := by
  induction pieces with
  | nil => rfl
  | cons piece pieces ih => rw [List.cons_append, linesOf_cons piece (by simp), ih, List.map_cons]

theorem linesFrom_eq (line rest : List Char) (h : '\n' ∉ line) :
    linesFrom line rest = linesOf ((line.reverse ++ rest).splitOn '\n') := by
  induction rest generalizing line with
  | nil =>
    rw [List.append_nil, List.splitOn_eq_singleton (by simpa using h)]
    simp [linesFrom, linesOf]
  | cons c rest ih =>
    unfold linesFrom
    split
    · next hc =>
      rw [hc, List.splitOn_append_cons_self_of_not_mem (by simpa using h), linesOf_cons _ (List.splitOn_ne_nil _ _),
        ih [] List.not_mem_nil, trimmed, List.reverse_reverse]
      rfl
    · next hc =>
      rw [ih (c :: line) (by simpa [hc, eq_comm] using h)]
      simp

/-- **The lines of a text are its pieces between line feeds.** -/
theorem lines_eq (text : String) : lines text = linesOf (text.toList.splitOn '\n') :=
  linesFrom_eq [] text.toList List.not_mem_nil

/-! ## Texts that are put together of lines -/

theorem splitOn_flatMap (ls : List (List Char)) :
    (ls.flatMap (· ++ ['\n'])).splitOn '\n' = ls.flatMap (·.splitOn '\n') ++ [[]] := by
  induction ls with
  | nil => rw [List.flatMap_nil, List.flatMap_nil, List.splitOn_nil, List.nil_append]
  | cons l ls ih =>
    rw [List.flatMap_cons, List.append_assoc, List.singleton_append, List.splitOn_append_cons_self, ih,
      List.flatMap_cons, List.append_assoc]

theorem flatMap_splitOn {ls : List (List Char)} (h : ∀ l ∈ ls, '\n' ∉ l) : ls.flatMap (·.splitOn '\n') = ls := by
  induction ls with
  | nil => rfl
  | cons l ls ih =>
    obtain ⟨hl, hls⟩ := List.forall_mem_cons.1 h
    rw [List.flatMap_cons, List.splitOn_eq_singleton hl, ih hls]
    rfl

theorem toList_joined (ls : List String) :
    (String.join (ls.map (· ++ "\n"))).toList = (ls.map String.toList).flatMap (· ++ ['\n']) := by
  rw [String.toList_join, List.flatMap_map, List.flatMap_map]
  simp only [String.toList_append]
  rfl

def cut (line : String) : List String := (line.toList.splitOn '\n').map trimmed

/-- **What comes out of a text is what comes out of each of its lines.** -/
theorem lines_join (ls : List String) : lines (String.join (ls.map (· ++ "\n"))) = ls.flatMap cut := by
  rw [lines_eq, toList_joined, splitOn_flatMap, linesOf_append_nil, List.flatMap_map, List.map_flatMap]
  rfl

theorem length_cut (line : String) : (cut line).length = line.toList.count '\n' + 1 := by
  unfold cut
  rw [List.length_map]
  induction line.toList with
  | nil => rw [List.splitOn_nil]; rfl
  | cons c rest ih =>
    rw [List.splitOn_cons_eq_if_modifyHead, List.count_cons]
    split
    · rw [List.length_cons, ih]
    · rw [List.length_modifyHead, ih, Nat.add_zero]

/-- A line that comes through unchanged: it holds no line feed and does not end in a carriage return. -/
def Whole (line : String) : Prop := '\n' ∉ line.toList ∧ line.toList.getLast? ≠ some '\r'

theorem trimmed_eq_iff (line : String) : trimmed line.toList = line ↔ line.toList.getLast? ≠ some '\r' := by
  have hhead : line.toList.getLast? = line.toList.reverse.head? := by rw [List.head?_reverse]
  unfold trimmed
  rw [hhead, ← String.toList_inj, String.toList_ofList, List.reverse_eq_iff]
  cases line.toList.reverse with
  | nil => simp [dropReturn]
  | cons c rest =>
    by_cases hc : c = '\r'
    · subst hc
      simp [dropReturn]
    · simp [dropReturn, hc]

theorem cut_eq_singleton_iff (line : String) : cut line = [line] ↔ Whole line := by
  constructor
  · intro h
    have hnone : '\n' ∉ line.toList := by
      rw [← List.count_eq_zero]
      have hlength := length_cut line
      rw [h] at hlength
      simpa using hlength.symm
    unfold cut at h
    rw [List.splitOn_eq_singleton hnone] at h
    exact ⟨hnone, (trimmed_eq_iff line).1 (List.singleton_inj.1 h)⟩
  · rintro ⟨hnone, hend⟩
    unfold cut
    rw [List.splitOn_eq_singleton hnone, List.map_singleton, (trimmed_eq_iff line).2 hend]

theorem length_flatMap_cut (ls : List String) :
    (ls.flatMap cut).length = ls.length + (ls.flatMap String.toList).count '\n' := by
  induction ls with
  | nil => rfl
  | cons line ls ih =>
    rw [List.flatMap_cons, List.flatMap_cons, List.length_append, length_cut, ih, List.length_cons, List.count_append]
    omega

/-- **Lines come out as they went in if and only if each of them is whole.** -/
theorem flatMap_cut_eq_iff (ls : List String) : ls.flatMap cut = ls ↔ ∀ line ∈ ls, Whole line := by
  induction ls with
  | nil => simp
  | cons line ls ih =>
    rw [List.flatMap_cons, List.forall_mem_cons, ← ih, ← cut_eq_singleton_iff]
    constructor
    · intro h
      -- no line comes out as nothing, so the first one comes out as one
      have hlength := congrArg List.length h
      rw [List.length_append, List.length_cons, length_cut] at hlength
      have hrest := length_flatMap_cut ls
      have hone : (cut line).length = [line].length := by
        rw [length_cut, List.length_singleton]
        omega
      exact List.append_inj h hone
    · rintro ⟨hline, hls⟩
      rw [hline, hls]
      rfl

/-! ## Words with a separator between them -/

theorem mem_intercalate {c : Char} {separator : List Char} (hc : c ∉ separator) : ∀ words : List (List Char),
    c ∈ separator.intercalate words ↔ ∃ word ∈ words, c ∈ word
  | [] => by simp
  | [_] => by simp
  | word :: next :: rest => by
    have ih := mem_intercalate hc (next :: rest)
    rw [List.intercalate_cons_cons, List.mem_append, List.mem_append, ih, or_iff_left hc]
    simp

theorem getLast?_append_separator {c d : Char} {separator : List Char} (hseparator : separator.getLast? = some d)
    (hc : d ≠ c) (before after : List Char) :
    (before ++ separator ++ after).getLast? = some c ↔ after.getLast? = some c := by
  rw [List.getLast?_append, List.getLast?_append, hseparator]
  cases after.getLast? with
  | none => simpa using hc
  | some last => simp

theorem getLast?_intercalate {c d : Char} {separator : List Char} (hseparator : separator.getLast? = some d)
    (hc : d ≠ c) : ∀ words : List (List Char),
      (separator.intercalate words).getLast? = some c ↔ (words.getLast?.getD []).getLast? = some c
  | [] => by simp
  | [_] => by simp
  | word :: next :: rest => by
    have ih := getLast?_intercalate hseparator hc (next :: rest)
    rw [List.intercalate_cons_cons, getLast?_append_separator hseparator hc, ih, List.getLast?_cons_cons]

end Rollout.Text
