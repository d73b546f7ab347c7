import Mathlib.Data.List.TakeWhile
import XhrKeywords.Proofs.Token.Progress

/-!
# Texts that end with a line

Heredoc bodies and block comments run through the first line of a kind: the line with the tag, or
the line that starts with the end mark. Only an opener announces a body.
-/

namespace XhrKeywords.Token

/-- Whole lines up to the first one of a kind, which is the last one and has no line feed behind
it. -/
def Through (ends : List Char → Prop) (text : List Char) : Prop :=
  ∃ (before : List (List Char)) (last : List Char),
    text = before.flatMap (· ++ ['\n']) ++ last ∧
    (∀ line ∈ before, '\n' ∉ line ∧ ¬ends line) ∧ '\n' ∉ last ∧ ends last

section Through

variable {ends : List Char → Prop} {line text : List Char}

theorem Through.sole (hline : '\n' ∉ line) (hends : ends line) : Through ends line :=
  ⟨[], line, rfl, nofun, hline, hends⟩

theorem Through.cons (h : Through ends text) (hline : '\n' ∉ line) (hends : ¬ends line) :
    Through ends (line ++ '\n' :: text) := by
  obtain ⟨before, last, rfl, hbefore, hlast⟩ := h
  refine ⟨line :: before, last, by simp, ?_, hlast⟩
  exact List.forall_mem_cons.mpr ⟨⟨hline, hends⟩, hbefore⟩

end Through

/-- The body of a heredoc at the head of a text: lines through the one that ends it, with the line
feed behind it unless the text ends there. -/
def HasBody (h : Heredoc) (text : List Char) (length : Nat) : Prop :=
  ∃ body ending rest, text = body ++ (ending ++ rest) ∧ length = (body ++ ending).length ∧
    Through (h.endsWith · = true) body ∧ (ending = ['\n'] ∨ ending = [] ∧ rest = [])

/-- The characters through the end of a body, when a part of a line lies behind. -/
theorem exists_of_bodyEnd? {h : Heredoc} {line text : List Char} {taken found : Nat}
    (hfound : h.bodyEnd? line taken text = some found) (hline : '\n' ∉ line) :
    ∃ body ending rest, text = body ++ (ending ++ rest) ∧
      found = taken + (body ++ ending).length ∧
      Through (h.endsWith · = true) (line.reverse ++ body) ∧
      (ending = ['\n'] ∨ ending = [] ∧ rest = []) := by
  have hreverse : '\n' ∉ line.reverse := by rwa [List.mem_reverse]
  induction text generalizing line taken with
  | nil =>
    rw [Heredoc.bodyEnd?] at hfound
    split at hfound
    · rename_i hends
      cases hfound
      refine ⟨[], [], [], rfl, rfl, ?_, Or.inr ⟨rfl, rfl⟩⟩
      rw [List.append_nil]
      exact .sole hreverse hends
    · cases hfound
  | cons c rest ih =>
    rw [Heredoc.bodyEnd?] at hfound
    split at hfound
    · rename_i hbreak
      subst hbreak
      split at hfound
      · rename_i hends
        cases hfound
        refine ⟨[], ['\n'], rest, rfl, rfl, ?_, Or.inl rfl⟩
        rw [List.append_nil]
        exact .sole hreverse hends
      · rename_i hends
        obtain ⟨body, ending, behind, rfl, rfl, hthrough, hending⟩ :=
          ih hfound List.not_mem_nil List.not_mem_nil
        exact ⟨'\n' :: body, ending, behind, rfl, by simp; omega,
          hthrough.cons hreverse hends, hending⟩
    · rename_i hc
      have hmore : '\n' ∉ c :: line := by
        rintro (_ | ⟨_, hmem⟩)
        · exact hc rfl
        · exact hline hmem
      obtain ⟨body, ending, behind, rfl, rfl, hthrough, hending⟩ :=
        ih hfound hmore (by rwa [List.mem_reverse])
      refine ⟨c :: body, ending, behind, rfl, by simp; omega, ?_, hending⟩
      rwa [List.reverse_cons, List.append_assoc] at hthrough

theorem hasBody_of_bodyLength? {h : Heredoc} {text : List Char} {length : Nat}
    (hlength : h.bodyLength? text = some length) : HasBody h text length := by
  obtain ⟨body, ending, rest, htext, hfound, hthrough⟩ :=
    exists_of_bodyEnd? hlength List.not_mem_nil
  exact ⟨body, ending, rest, htext, by rw [hfound, Nat.zero_add], hthrough⟩

/-- A body ends within its text; where it does not end with the text, it ends with a line feed. -/
theorem HasBody.le {h : Heredoc} {text : List Char} {length : Nat} (hbody : HasBody h text length) :
    length ≤ text.length ∧
      (text.drop length = [] ∨ (text.take length).getLast? = some '\n') := by
  obtain ⟨body, ending, rest, rfl, rfl, -, hending⟩ := hbody
  rw [← List.append_assoc, List.drop_left, List.take_left, List.length_append]
  refine ⟨by simp only [List.length_append]; omega, ?_⟩
  rcases hending with rfl | ⟨rfl, rfl⟩
  · exact Or.inr List.getLast?_concat
  · exact Or.inl rfl

/-- Several bodies are the first one and then the others. -/
theorem exists_of_bodiesLength_cons {h : Heredoc} {others : List Heredoc} {text : List Char}
    {total : Nat} (htotal : Heredoc.bodiesLength (h :: others) text = .ok total) :
    ∃ length behind, HasBody h text length ∧
      Heredoc.bodiesLength others (text.drop length) = .ok behind ∧ total = length + behind := by
  rw [Heredoc.bodiesLength] at htotal
  cases hlength : h.bodyLength? text with
  | none => simp [hlength] at htotal
  | some length =>
    simp only [hlength] at htotal
    cases hbehind : Heredoc.bodiesLength others (text.drop length) with
    | error fault => simp [hbehind] at htotal
    | ok behind =>
      simp only [hbehind] at htotal
      cases htotal
      exact ⟨length, behind, hasBody_of_bodyLength? hlength, hbehind, rfl⟩

/-- The first line of a text, without what ends it. -/
def IsLine (text line rest : List Char) : Prop :=
  text = line ++ rest ∧ '\n' ∉ line ∧ (rest = [] ∨ rest.head? = some '\n')

/-- Carriage returns at the end of a line do not count. -/
def IsBare (line bare : List Char) : Prop :=
  ∃ returns, line = bare ++ returns ∧ ∀ c ∈ returns, c = '\r'

/-- A block comment at the head of a text: a line that starts with `=begin`, and the lines through
the first one that starts with `=end`. -/
def HasBlock (text : List Char) (length : Nat) : Prop :=
  ∃ line behind block rest, text = line ++ '\n' :: (block ++ rest) ∧
    length = (line ++ '\n' :: block).length ∧ '\n' ∉ line ∧
    IsBare line ("=begin".toList ++ behind) ∧
    (behind = [] ∨ behind.head? = some ' ' ∨ behind.head? = some '\t') ∧
    Through ("=end".toList <+: ·) block ∧ (rest = [] ∨ rest.head? = some '\n')

theorem isLine_takeWhile (text : List Char) :
    IsLine text (text.takeWhile (· != '\n')) (text.dropWhile (· != '\n')) := by
  refine ⟨List.takeWhile_append_dropWhile.symm, ?_, ?_⟩
  · intro hmem
    simpa using List.mem_takeWhile_imp hmem
  · cases hrest : text.dropWhile (· != '\n') with
    | nil => exact Or.inl rfl
    | cons c rest =>
      have hc : ¬(c != '\n') = true := by
        have := List.dropWhile_get_zero_not (· != '\n') text (by simp [hrest])
        simpa [hrest] using this
      exact Or.inr (by simpa using hc)

theorem takeWhile_of_isLine {text line rest : List Char} (h : IsLine text line rest) :
    text.takeWhile (· != '\n') = line := by
  obtain ⟨rfl, hline, hrest⟩ := h
  have hall : ∀ c ∈ line, (c != '\n') = true := by
    intro c hc
    have hne : c ≠ '\n' := fun heq => hline (heq ▸ hc)
    simpa using hne
  rw [List.takeWhile_append_of_pos hall]
  rcases hrest with rfl | hrest
  · exact List.append_nil line
  · obtain ⟨others, rfl⟩ : ∃ others, rest = '\n' :: others := by
      cases rest with
      | nil => cases hrest
      | cons c others =>
        cases hrest
        exact ⟨others, rfl⟩
    simp

/-- The mark at the head of a text is on its first line. -/
theorem prefix_takeWhile {mark text : List Char} (hmark : '\n' ∉ mark) (h : mark <+: text) :
    mark <+: text.takeWhile (· != '\n') := by
  obtain ⟨rest, rfl⟩ := h
  rw [List.takeWhile_append_of_pos]
  · exact List.prefix_append _ _
  · intro c hc
    have hne : c ≠ '\n' := fun heq => hmark (heq ▸ hc)
    simpa using hne

/-- The characters through the line that ends a block comment. -/
theorem exists_of_blockEnd? {taken found : Nat} {text : List Char}
    (h : blockEnd? taken text = some found) :
    ∃ line block rest, text = line ++ '\n' :: (block ++ rest) ∧
      found = taken + (line ++ '\n' :: block).length ∧ '\n' ∉ line ∧
      Through ("=end".toList <+: ·) block ∧ (rest = [] ∨ rest.head? = some '\n') := by
  induction text generalizing taken with
  | nil => cases h
  | cons c rest ih =>
    rw [blockEnd?] at h
    split at h
    · rename_i hend
      simp only [Bool.and_eq_true, decide_eq_true_eq, List.isPrefixOf_iff_prefix] at hend
      obtain ⟨rfl, hmark⟩ := hend
      cases h
      obtain ⟨hrest, hline, hbehind⟩ := isLine_takeWhile rest
      exact ⟨[], _, _, congrArg _ hrest, by simp; omega, List.not_mem_nil,
        .sole hline (prefix_takeWhile (by decide) hmark), hbehind⟩
    · rename_i hend
      obtain ⟨line, block, behind, rfl, rfl, hline, hthrough, hbehind⟩ := ih h
      by_cases hc : c = '\n'
      · subst hc
        have hunmarked : ¬"=end".toList <+: line := by
          intro hmark
          refine hend ?_
          simp only [decide_true, Bool.true_and, List.isPrefixOf_iff_prefix]
          exact hmark.trans (List.prefix_append _ _)
        exact ⟨[], line ++ '\n' :: block, behind, by simp, by simp; omega, List.not_mem_nil,
          hthrough.cons hline hunmarked, hbehind⟩
      · refine ⟨c :: line, block, behind, rfl, by simp; omega, ?_, hthrough, hbehind⟩
        rintro (_ | ⟨_, hmem⟩)
        · exact hc rfl
        · exact hline hmem

/-- What is left of a line without the carriage returns at its end. -/
theorem isBare_dropWhile (line : List Char) :
    IsBare line (line.reverse.dropWhile (· == '\r')).reverse := by
  refine ⟨(line.reverse.takeWhile (· == '\r')).reverse, ?_, ?_⟩
  · rw [← List.reverse_append, List.takeWhile_append_dropWhile, List.reverse_reverse]
  · intro c hc
    rw [List.mem_reverse] at hc
    have hreturn := List.mem_takeWhile_imp hc
    exact beq_iff_eq.mp hreturn

/-- The end mark of the program at the head of a text: a line of its own. -/
def HasEndMark (text : List Char) : Prop :=
  ∃ line rest, IsLine text line rest ∧ IsBare line "__END__".toList

/-- A passage is a block comment, or it is all that is left from the end mark on. -/
theorem passage_cases {text : List Char} {length : Nat}
    (h : passage? text = .ok (some length)) :
    HasBlock text length ∨ HasEndMark text ∧ length = text.length := by
  have hline := isLine_takeWhile text
  have hbare := isBare_dropWhile (text.takeWhile (· != '\n'))
  unfold passage? at h
  extract_lets line behind at h
  change IsBare _ line at hbare
  -- The line of the end mark comes first; what opens a block is looked for only behind it.
  split at h
  · rename_i hend
    rw [beq_iff_eq] at hend
    cases h
    exact Or.inr ⟨⟨_, _, hline, hend ▸ hbare⟩, rfl⟩
  · split at h
    · rename_i hbegin
      simp only [Bool.and_eq_true, Bool.or_eq_true, beq_iff_eq, List.isEmpty_iff,
        List.isPrefixOf_iff_prefix] at hbegin
      obtain ⟨⟨more, hmore⟩, hbehind⟩ := hbegin
      cases hblock : blockEnd? 0 text with
      | none => simp [hblock] at h
      | some found =>
        rw [hblock] at h
        cases h
        obtain ⟨first, block, rest, htext, hfound, hfirst, hthrough, hrest⟩ :=
          exists_of_blockEnd? hblock
        have hsame : text.takeWhile (· != '\n') = first :=
          takeWhile_of_isLine ⟨htext, hfirst, Or.inr rfl⟩
        rw [hsame, ← hmore] at hbare
        have hdrop : behind = more := by
          simp only [behind, ← hmore]
          rfl
        rw [hdrop] at hbehind
        refine Or.inl ⟨first, more, block, rest, htext, by rw [hfound, Nat.zero_add], hfirst, hbare,
          ?_, hthrough, hrest⟩
        rw [or_assoc] at hbehind
        refine hbehind.imp id (Or.imp ?_ ?_) <;>
        · intro hblank
          cases more with
          | nil => cases hblank
          | cons c others => exact congrArg some hblank
    · cases h

end XhrKeywords.Token
