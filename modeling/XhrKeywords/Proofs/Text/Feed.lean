import XhrKeywords.Text.Lines

/-!
# Lines ended by a line feed

A text that is put together from pieces is read again as lines that only line feeds end. A piece
starts a line of its own unless the one in front of it lacks the line feed; then it goes on with
the line of that piece.
-/

namespace XhrKeywords.Text

/-- The lines of a text that only line feeds end, of which the characters of the first line so far
are given, last one first. -/
def feedLinesFrom (line : List Char) : List Char → List (List Char)
  | [] => if line.isEmpty then [] else [line.reverse]
  | c :: rest =>
    if c = '\n' then (c :: line).reverse :: feedLinesFrom [] rest
    else feedLinesFrom (c :: line) rest

/-- The lines of a text that only line feeds end; the last one may be ended by the text. -/
def feedLines (text : List Char) : List (List Char) := feedLinesFrom [] text

/-- A piece of a text that can make at most one line. -/
structure IsPiece (piece : List Char) : Prop where
  ne_nil : piece ≠ []
  /-- A line feed is the last character. -/
  feed : '\n' ∉ piece.dropLast

/-- Whether a piece has a line feed at its end. -/
def isFed (piece : List Char) : Bool := piece.getLast? == some '\n'

/-- The pieces that start a line; `fresh` tells whether the first one does. -/
def leading (fresh : Bool) : List (List Char) → List (List Char)
  | [] => []
  | piece :: others =>
    if fresh then piece :: leading (isFed piece) others else leading (isFed piece) others

theorem feedLinesFrom_append {body : List Char} (h : '\n' ∉ body) (line rest : List Char) :
    feedLinesFrom line (body ++ rest) = feedLinesFrom (body.reverse ++ line) rest := by
  induction body generalizing line with
  | nil => rfl
  | cons c body ih =>
    rw [List.mem_cons, not_or] at h
    rw [List.cons_append, feedLinesFrom, if_neg (Ne.symm h.1), ih h.2, List.reverse_cons,
      List.append_assoc, List.singleton_append]

theorem feedLinesFrom_feed (line rest : List Char) :
    feedLinesFrom line ('\n' :: rest) = ('\n' :: line).reverse :: feedLinesFrom [] rest := by
  rw [feedLinesFrom, if_pos rfl]

/-- A piece is some characters and a line feed, or there is no line feed in it. -/
theorem IsPiece.cases {piece : List Char} (h : IsPiece piece) :
    (∃ body, '\n' ∉ body ∧ piece = body ++ ['\n'] ∧ isFed piece = true) ∨
      ('\n' ∉ piece ∧ isFed piece = false) := by
  obtain ⟨body, last, rfl⟩ : ∃ body last, piece = body ++ [last] :=
    ⟨_, _, (List.dropLast_concat_getLast h.ne_nil).symm⟩
  have hbody : '\n' ∉ body := by simpa using h.feed
  rw [isFed, List.getLast?_concat]
  by_cases hlast : last = '\n'
  · subst hlast
    exact .inl ⟨body, hbody, rfl, rfl⟩
  · refine .inr ⟨?_, by simpa using hlast⟩
    rw [List.mem_append, List.mem_singleton, not_or]
    exact ⟨hbody, Ne.symm hlast⟩

/-- Lines start as the pieces do that start a line. An open line is continued by the first piece. -/
theorem map_head?_feedLinesFrom {pieces : List (List Char)} (h : ∀ piece ∈ pieces, IsPiece piece)
    (line : List Char) :
    (feedLinesFrom line pieces.flatten).map List.head? =
      (if line = [] then leading true pieces
        else line.reverse :: leading false pieces).map List.head? := by
  -- A line is open while pieces without a line feed are put together, so the induction is for every
  -- open line.
  induction pieces generalizing line with
  | nil =>
    rw [List.flatten_nil, feedLinesFrom, leading, leading]
    simp only [List.isEmpty_iff]
  | cons piece others ih =>
    rw [List.forall_mem_cons] at h
    have hstart : (if line = [] then leading true (piece :: others)
        else line.reverse :: leading false (piece :: others)).map List.head? =
          (line.reverse ++ piece).head? :: (leading (isFed piece) others).map List.head? := by
      split
      · rename_i hline
        rw [hline, leading, if_pos rfl]
        rfl
      · rename_i hline
        obtain ⟨c, tail, hreverse⟩ :=
          List.exists_cons_of_ne_nil (List.reverse_ne_nil_iff.mpr hline)
        rw [leading, if_neg Bool.false_ne_true, hreverse]
        rfl
    rw [hstart, List.flatten_cons]
    rcases h.1.cases with ⟨body, hbody, hpiece, hfed⟩ | ⟨hbody, hfed⟩
    · rw [hfed, hpiece, List.append_assoc, feedLinesFrom_append hbody, List.singleton_append,
        feedLinesFrom_feed, List.map_cons, ih h.2, if_pos rfl]
      simp
    · rw [hfed, feedLinesFrom_append hbody, ih h.2, if_neg (by simp [h.1.ne_nil])]
      simp

/-- The lines of pieces start as the pieces do that start a line. -/
theorem map_head?_feedLines {pieces : List (List Char)} (h : ∀ piece ∈ pieces, IsPiece piece) :
    (feedLines pieces.flatten).map List.head? = (leading true pieces).map List.head? :=
  map_head?_feedLinesFrom h []

/-- A character in front of a piece belongs to it. -/
theorem IsPiece.cons {piece : List Char} {c : Char} (h : IsPiece piece) (hc : c ≠ '\n') :
    IsPiece (c :: piece) := by
  refine ⟨List.cons_ne_nil _ _, ?_⟩
  rw [List.dropLast_cons_of_ne_nil h.ne_nil, List.mem_cons, not_or]
  exact ⟨Ne.symm hc, h.feed⟩

theorem isPiece_reverse {line : List Char} (h : '\n' ∉ line) (c : Char) :
    IsPiece (c :: line).reverse := by
  refine ⟨by simp, ?_⟩
  rw [List.reverse_cons, List.dropLast_concat, List.mem_reverse]
  exact h

/-- The lines of a text are pieces, whatever ends them. -/
theorem isPiece_of_linesFrom {line text : List Char} (h : '\n' ∉ line) :
    ∀ piece ∈ linesFrom line text, IsPiece piece := by
  fun_induction linesFrom line text with
  | case1 line hempty => simp
  | case2 line hline =>
    rw [List.forall_mem_singleton]
    obtain ⟨c, line, rfl⟩ := List.exists_cons_of_ne_nil (by simpa using hline)
    exact isPiece_reverse (List.not_mem_of_not_mem_cons h) c
  | case3 line rest ih =>
    rw [List.forall_mem_cons]
    exact ⟨isPiece_reverse (by simpa using h) _, ih (by simp)⟩
  | case4 line c rest _ hend ih =>
    rw [List.forall_mem_cons]
    exact ⟨isPiece_reverse h _, ih (by simp)⟩
  | case5 line c rest _ hinner ih =>
    refine ih ?_
    rw [List.mem_cons, not_or]
    refine ⟨?_, h⟩
    rintro rfl
    exact hinner rfl

theorem map_toList_lines (text : String) :
    (lines text).map String.toList = linesFrom [] text.toList := by
  simp [lines, Function.comp_def]

theorem isPiece_of_lines {text line : String} (h : line ∈ lines text) : IsPiece line.toList := by
  have hline := List.mem_map_of_mem (f := String.toList) h
  rw [map_toList_lines] at hline
  exact isPiece_of_linesFrom (by simp) _ hline

/-- A text is known by its lines. -/
theorem lines_injective {old new : String} (h : lines old = lines new) : old = new := by
  have htext := congrArg (fun found => (found.map String.toList).flatten) h
  simp only [map_toList_lines, flatten_linesFrom] at htext
  exact String.toList_inj.mp htext

variable {m : List Char → Bool}

theorem leading_sublist (fresh : Bool) (pieces : List (List Char)) :
    (leading fresh pieces).Sublist pieces := by
  induction pieces generalizing fresh with
  | nil => exact .slnil
  | cons piece others ih =>
    rw [leading]
    split
    · exact (ih _).cons_cons piece
    · exact (ih _).cons piece

/-- Every counted piece starts a line. -/
def EachLeads (m : List Char → Bool) (pieces : List (List Char)) : Prop :=
  ∀ piece other, [piece, other] <:+: pieces → m other = true → isFed piece = true

theorem eachLeads_cons {piece other : List Char} {others : List (List Char)} :
    EachLeads m (piece :: other :: others) ↔
      (m other = true → isFed piece = true) ∧ EachLeads m (other :: others) := by
  constructor
  · intro h
    exact ⟨h piece other ⟨[], others, rfl⟩,
      fun first second hwithin => h first second (List.infix_cons hwithin)⟩
  · rintro ⟨hfirst, h⟩ first second hwithin
    rcases List.infix_cons_iff.mp hwithin with hfront | hwithin
    · rw [List.cons_prefix_cons, List.cons_prefix_cons] at hfront
      obtain ⟨rfl, rfl, -⟩ := hfront
      exact hfirst
    · exact h first second hwithin

/-- As many counted pieces as there are start a line exactly when no counted one goes on with a
line. -/
theorem countP_leading (pieces : List (List Char)) :
    (leading true pieces).countP m = pieces.countP m ↔ EachLeads m pieces := by
  cases pieces with
  | nil =>
    refine iff_of_true rfl fun first second hwithin => ?_
    cases hwithin.length_le
  | cons piece others =>
    rw [leading, if_pos rfl, List.countP_cons, List.countP_cons, Nat.add_right_cancel_iff]
    induction others generalizing piece with
    | nil =>
      refine iff_of_true rfl fun first second hwithin => ?_
      have hlength := hwithin.length_le
      simp at hlength
    | cons other others ih =>
      rw [eachLeads_cons, ← ih, leading]
      cases hfed : isFed piece with
      | true =>
        rw [if_pos rfl, List.countP_cons, List.countP_cons, Nat.add_right_cancel_iff]
        simp
      | false =>
        have hle : (leading (isFed other) others).countP m ≤ others.countP m :=
          (leading_sublist _ _).countP_le
        rw [if_neg Bool.false_ne_true, List.countP_cons]
        cases hm : m other with
        | true =>
          simp
          omega
        | false => simp

/-- Where every piece ends with a line feed, all pieces start lines. -/
theorem eachLeads_of_fed {pieces : List (List Char)} (h : ∀ piece ∈ pieces, isFed piece = true) :
    EachLeads m pieces :=
  fun piece _ hwithin _ => h piece (hwithin.subset List.mem_cons_self)

end XhrKeywords.Text
