import BisimPlay.Text.Line

/-!
# Lines and words as pieces of a text

Reading line by line and word by word is a recursion over characters. What it finds can be said
at once: the lines are the pieces between the line feeds, each but the last without a carriage
return at its end (`lines_eq_splitLines`), and the words of a line are its pieces between blanks
that are not empty (`words_eq_splitWords`).
-/

namespace BisimPlay

namespace Text

variable {c : Char} {piece : List Char} {pieces : List (List Char)}

/-- A piece before a line feed without the carriage return that belongs to the line end. -/
def dropReturn (piece : List Char) : List Char :=
  if piece.getLast? = some '\r' then piece.dropLast else piece

/-- The lines that the pieces between line feeds make. No line feed follows the last of them. -/
def ofPieces (pieces : List (List Char)) : List (List Char) :=
  pieces.dropLast.map dropReturn ++ pieces.getLast?.toList

def splitLines (text : List Char) : List (List Char) :=
  ofPieces (text.splitOn '\n')

def splitWords (line : List Char) : List (List Char) :=
  (line.splitOnP isBlank).filter (· ≠ [])

@[simp] theorem ofPieces_singleton (piece : List Char) : ofPieces [piece] = [piece] := rfl

theorem ofPieces_cons (h : pieces ≠ []) :
    ofPieces (piece :: pieces) = dropReturn piece :: ofPieces pieces := by
  obtain ⟨next, rest, rfl⟩ := List.exists_cons_of_ne_nil h
  simp [ofPieces, List.getLast?_cons_cons]

theorem dropReturn_cons (h : c ≠ '\r' ∨ piece ≠ []) :
    dropReturn (c :: piece) = c :: dropReturn piece := by
  cases piece with
  | nil =>
      have hc : c ≠ '\r' := h.resolve_right fun hne => hne rfl
      simp [dropReturn, hc]
  | cons d rest =>
      rw [dropReturn, dropReturn, List.getLast?_cons_cons]
      split <;> rfl

theorem splitOn_newline (rest : List Char) :
    ('\n' :: rest).splitOn '\n' = [] :: rest.splitOn '\n' := by
  simp [List.splitOn_cons_eq_if_modifyHead]

theorem splitOn_cons_of_ne (h : c ≠ '\n') (rest : List Char) :
    (c :: rest).splitOn '\n' = (rest.splitOn '\n').modifyHead (List.cons c) := by
  simp [List.splitOn_cons_eq_if_modifyHead, h]

theorem exists_eq_newline_cons {text : List Char} (hpieces : pieces ≠ [])
    (h : text.splitOn '\n' = [] :: pieces) : ∃ rest, text = '\n' :: rest := by
  cases text with
  | nil =>
      rw [List.splitOn_nil] at h
      exact absurd (List.cons.inj h).2.symm hpieces
  | cons c rest =>
      by_cases hc : c = '\n'
      · exact ⟨rest, hc ▸ rfl⟩
      · obtain ⟨first, others, hsplit⟩ :=
          List.exists_cons_of_ne_nil (List.splitOn_ne_nil '\n' rest)
        rw [splitOn_cons_of_ne hc, hsplit, List.modifyHead_cons] at h
        exact absurd (List.cons.inj h).1 (List.cons_ne_nil c first)

/-- Reading line by line finds the pieces between the line feeds. -/
theorem lines_eq_splitLines (text : List Char) : lines text = splitLines text := by
  induction text using lines.induct with
  | case1 => rfl
  | case2 rest ih =>
      rw [lines_newline, ih, splitLines, splitLines, splitOn_newline,
        ofPieces_cons (List.splitOn_ne_nil '\n' rest)]
      rfl
  | case3 rest ih =>
      rw [lines, ih, splitLines, splitLines, splitOn_cons_of_ne (by decide), splitOn_newline,
        List.modifyHead_cons, ofPieces_cons (List.splitOn_ne_nil '\n' rest)]
      rfl
  | case4 c rest hnewline hreturn ih =>
      rw [lines.eq_4 c rest hnewline hreturn, ih, splitLines, splitLines,
        splitOn_cons_of_ne hnewline]
      obtain ⟨first, others, hsplit⟩ :=
        List.exists_cons_of_ne_nil (List.splitOn_ne_nil '\n' rest)
      rw [hsplit, List.modifyHead_cons]
      by_cases hothers : others = []
      · subst hothers
        rfl
      · -- The return of a line end would have been read together with its line feed.
        have hkept : c ≠ '\r' ∨ first ≠ [] := by
          by_cases hfirst : first = []
          · subst hfirst
            obtain ⟨later, rfl⟩ := exists_eq_newline_cons hothers hsplit
            exact .inl fun hc => hreturn later hc rfl
          · exact .inr hfirst
        rw [ofPieces_cons hothers, ofPieces_cons hothers, dropReturn_cons hkept]
        rfl

theorem words_eq_splitWords (line : List Char) : words line = splitWords line := by
  have hsplit {c : Char} (rest : List Char) := List.splitOnP_cons_eq_if_modifyHead c rest
    (p := isBlank)
  induction line using words.induct with
  | case1 => simp [splitWords]
  | case2 c hblank => simp [words, splitWords, hsplit, hblank]
  | case3 c hblank => simp [words, splitWords, hsplit, hblank]
  | case4 c d rest hblank ih =>
      rw [words, if_pos hblank, ih, splitWords, splitWords, hsplit (c := c), if_pos hblank]
      rfl
  | case5 c d rest hblank hnext ih =>
      rw [words, if_neg hblank, if_pos hnext, ih, splitWords, splitWords, hsplit (c := c),
        if_neg hblank, hsplit, if_pos hnext]
      rfl
  | case6 c d rest hblank hnext ih =>
      obtain ⟨first, others, hrest⟩ :=
        List.exists_cons_of_ne_nil (List.splitOnP_ne_nil isBlank rest)
      rw [words, if_neg hblank, if_neg hnext, ih, splitWords, splitWords, hsplit (c := c),
        if_neg hblank, hsplit, if_neg hnext, hrest]
      rfl

end Text

end BisimPlay
