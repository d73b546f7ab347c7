import XhrKeywords.Proofs.Token.Bodies
import XhrKeywords.Proofs.Token.Readable
import XhrKeywords.Proofs.Token.Spelling

/-!
# Method calls that go on on the next line

A line break is no token when the next line goes on with a method call. The lexer finds out by
looking over blanks, line breaks and comments, and it passes more than these on its way to the call:
form feeds, vertical tabs, hidden line breaks and block comments. So a line break that is a token
may come right before the dot of a call, but only with one of those in between.
-/

namespace XhrKeywords

open Token Unicode

namespace Token

/-- Text that the look for a method call passes: blanks, line breaks, and comments with the line
feeds that end them. -/
inductive Transparent : List Char → Prop
  | nil : Transparent []
  | blank {c : Char} {rest : List Char} (hc : c = ' ' ∨ c = '\t' ∨ isLineBreak c = true)
      (h : Transparent rest) : Transparent (c :: rest)
  | comment {line rest : List Char} (hline : '\n' ∉ line) (h : Transparent rest) :
      Transparent ('#' :: (line ++ '\n' :: rest))

/-- Text that goes on with a method call: a safe navigation operator, or a dot that starts no
range. -/
def StartsCall (text : List Char) : Prop :=
  (peek text 0 = '&' ∧ peek text 1 = '.') ∨ (peek text 0 = '.' ∧ peek text 1 ≠ '.')

section look

open Lexer

variable {front rest line : List Char} {c : Char}

/-- In a comment, all is passed up to the line feed. -/
theorem continuesChain_comment (hline : '\n' ∉ line) (rest : List Char) :
    continuesChain true (line ++ '\n' :: rest) = continuesChain false rest := by
  induction line with
  | nil => rw [List.nil_append, continuesChain, if_pos rfl, bne_self_eq_false]
  | cons c others ih =>
    rw [List.mem_cons, not_or] at hline
    rw [List.cons_append, continuesChain, if_pos rfl, bne_iff_ne.mpr (Ne.symm hline.1)]
    exact ih hline.2

theorem continuesChain_blank (hc : c = ' ' ∨ c = '\t' ∨ isLineBreak c = true) (rest : List Char) :
    continuesChain false (c :: rest) = continuesChain false rest := by
  have hblank : (c == ' ' || c == '\t' || isLineBreak c) = true := by
    simpa only [Bool.or_eq_true, beq_iff_eq, or_assoc] using hc
  rw [continuesChain, if_neg (by decide), if_pos hblank]

/-- What the look passes does not count. -/
theorem Transparent.continuesChain_append (h : Transparent front) (rest : List Char) :
    continuesChain false (front ++ rest) = continuesChain false rest := by
  induction h with
  | nil => rfl
  | blank hc _ ih => rw [List.cons_append, continuesChain_blank hc, ih]
  | @comment line others hline _ ih =>
    rw [List.cons_append, List.append_assoc, List.cons_append, continuesChain,
      if_neg (by decide), if_neg (by decide), if_pos (by decide), continuesChain_comment hline, ih]

theorem continuesChain_of_startsCall (h : StartsCall rest) : continuesChain false rest = true := by
  cases rest with
  | nil => rcases h with ⟨h, -⟩ | ⟨h, -⟩ <;> cases h
  | cons c others =>
    rcases h with ⟨hsign, hdot⟩ | ⟨hdot, hnext⟩
    · obtain rfl : c = '&' := hsign
      have hdot : peek others 0 = '.' := hdot
      simp [continuesChain, isLineBreak, hdot]
    · obtain rfl : c = '.' := hdot
      have hnext : peek others 0 ≠ '.' := hnext
      simp [continuesChain, isLineBreak, hnext]

end look

/-- The kinds of tokens that join a method call to what it is called on. -/
def Kind.isCallMark (kind : Kind) : Bool :=
  kind == .dot || kind == .andDot

/-- Two dots are no dot. -/
theorem not_dot_of_read {rest : List Char} {found : Lexeme}
    (h : Operator.read ('.' :: '.' :: rest) = .ok found) : found.kind ≠ .dot := by
  cases rest with
  | nil =>
    cases h
    decide
  | cons c others =>
    by_cases hc : '.' = c
    · subst hc
      cases h
      decide
    · have hrange : Operator.read ('.' :: '.' :: c :: others) =
          .ok { kind := .dot2, text := .ofList "..".toList, length := 2 } := by
        simp [Operator.read, Operator.table, List.isPrefixOf, hc]
      rw [hrange] at h
      cases h
      decide

/-- A lexeme that joins a method call stands where one starts. -/
theorem startsCall_of_readLexeme {context : Context} {text : List Char} {found : Lexeme}
    (h : readLexeme context text = .ok found) (hkind : found.kind.isCallMark) :
    StartsCall text := by
  have hspelled := isSpelled_readLexeme h
  have htext := List.take_append_drop found.length text
  rw [(shaped_readLexeme h).take_eq] at htext
  rw [Kind.isCallMark, Bool.or_eq_true, beq_iff_eq, beq_iff_eq] at hkind
  rcases hkind with hkind | hkind <;> rw [hkind] at hspelled htext
  · have hword : found.text.toList = ['.'] := by
      simpa [Operator.table, Kind.keywords] using hspelled rfl
    rw [hword] at htext
    change '.' :: text.drop found.length = text at htext
    refine Or.inr ⟨by rw [← htext]; rfl, fun hnext => ?_⟩
    rw [← htext, peek_cons_succ] at hnext
    cases hrest : text.drop found.length with
    | nil =>
      rw [hrest] at hnext
      cases hnext
    | cons c rest =>
      rw [hrest] at hnext htext
      obtain rfl : c = '.' := hnext
      rw [← htext, readLexeme_operator (by decide)] at h
      exact not_dot_of_read h hkind
  · have hword : found.text.toList = ['&', '.'] := by
      simpa [Operator.table, Kind.keywords] using hspelled rfl
    rw [hword] at htext
    rw [← htext]
    exact Or.inl ⟨rfl, rfl⟩

namespace Lexer

variable {s t u : Lexer}

/-- On its way a lexer adds tokens to those it has. -/
theorem Leads.suffix (h : Leads s u) : s.emitted <:+ u.emitted := by
  apply h.keeps (I := fun t => s.emitted <:+ t.emitted) _ (List.suffix_refl _)
  intro v w _ hstep hv
  cases emits_of_step hstep with
  | nothing h => rwa [h]
  | newline _ h =>
    rw [h]
    exact hv.trans (List.suffix_cons _ _)
  | lexeme found h =>
    rw [h.eq]
    exact hv.trans (List.suffix_cons _ _)

/-- A step adds one token at most. -/
theorem exists_of_step (h : s.step = .ok t) :
    t.emitted = s.emitted ∨ ∃ x, t.emitted = x :: s.emitted := by
  cases emits_of_step h with
  | nothing h => exact Or.inl h
  | newline _ h => exact Or.inr ⟨_, h⟩
  | lexeme found h => exact Or.inr ⟨_, congrArg emitted h.eq⟩

/-- The step that adds a token comes when the lexer has those in front of it. -/
theorem Leads.exists_adding {x : Token} {later earlier : List Token} (h : Leads s u)
    (hu : u.emitted = later ++ x :: earlier) (hs : s.emitted.length ≤ earlier.length) :
    ∃ v w, Leads s v ∧ v.cursor.rest ≠ [] ∧ v.step = .ok w ∧ Leads w u ∧
      v.emitted = earlier ∧ w.emitted = x :: earlier := by
  induction h with
  | refl s =>
    rw [hu, List.length_append, List.length_cons] at hs
    omega
  | @step s t u hrest hstep hbehind ih =>
    by_cases ht : t.emitted.length ≤ earlier.length
    · obtain ⟨v, w, hv, hturn⟩ := ih hu ht
      exact ⟨v, w, .step hrest hstep hv, hturn⟩
    · -- The first step is the one, and what it adds is the token.
      obtain hsame | ⟨y, hadded⟩ := exists_of_step hstep
      · rw [hsame] at ht
        exact absurd hs ht
      · rw [hadded, List.length_cons] at ht
        have hlater := hbehind.suffix
        have hsuffix : x :: earlier <:+ u.emitted := hu ▸ List.suffix_append later _
        have heq : t.emitted = x :: earlier := by
          apply List.IsSuffix.eq_of_length_le
          · apply List.suffix_of_suffix_length_le hlater hsuffix
            rw [hadded, List.length_cons, List.length_cons]
            omega
          · rw [hadded, List.length_cons, List.length_cons]
            omega
        rw [hadded] at heq
        exact ⟨s, t, .refl s, hrest, hstep, hbehind, (List.cons.inj heq).2, hadded.trans heq⟩

/-- Between two tokens, one right behind the other, the lexer adds nothing. -/
theorem exists_between {source : List Char} {tokens front behind : List Token} {x y : Token}
    {last : Lexer} (h : Finished source tokens last) (hsplit : tokens = front ++ x :: y :: behind)
    (hy : y.kind ≠ .eof) :
    ∃ s t u v, Leads (start source) s ∧ s.cursor.rest ≠ [] ∧ s.step = .ok t ∧
      s.emitted = front.reverse ∧ t.emitted = x :: s.emitted ∧ Leads t u ∧ u.cursor.rest ≠ [] ∧
      u.step = .ok v ∧ u.emitted = t.emitted ∧ v.emitted = y :: u.emitted := by
  have hreverse := congrArg List.reverse (h.tokens.symm.trans hsplit)
  rw [List.reverse_reverse] at hreverse
  obtain ⟨later, hemitted⟩ : ∃ later, last.emitted = later ++ y :: x :: front.reverse := by
    cases hbehind : behind.reverse with
    | nil =>
      simp only [List.reverse_append, List.reverse_cons, hbehind, List.nil_append,
        List.cons_append] at hreverse
      obtain ⟨rfl, -⟩ := List.cons.inj hreverse
      exact absurd rfl hy
    | cons z others =>
      refine ⟨others, ?_⟩
      simp only [List.reverse_append, List.reverse_cons, hbehind, List.append_assoc,
        List.cons_append] at hreverse
      exact (List.cons.inj hreverse).2
  have hfirst : last.emitted = (later ++ [y]) ++ x :: front.reverse := by simp [hemitted]
  obtain ⟨s, t, hs, hrest, hstep, ht, hsfront, htfront⟩ :=
    h.leads.exists_adding hfirst (Nat.zero_le _)
  obtain ⟨u, v, hu, hurest, hustep, -, hufront, hvfront⟩ :=
    ht.exists_adding hemitted (by rw [htfront])
  exact ⟨s, t, u, v, hs, hrest, hstep, hsfront, by rw [htfront, hsfront], hu, hurest, hustep,
    by rw [hufront, htfront], by rw [hvfront, hufront]⟩

end Lexer

/-- The token of a line break ends a line, and the next line starts behind the bodies of heredocs
that tokens in front of it have opened. -/
def EndsLine (source : List Char) (before : List Token) (newline : Token) (next : Nat) : Prop :=
  ∃ ending rest heredocs bodies, source.drop newline.start = ending ++ rest ∧ IsBreak ending rest ∧
    (∀ h ∈ heredocs, ∃ t ∈ before, t.Opens source h) ∧
    Heredoc.bodiesLength heredocs rest = .ok bodies ∧
    next = newline.start + ending.length + bodies

namespace Lexer

variable {source : List Char} {s t : Lexer}

/-- A line break becomes a token only if the look behind it finds no method call. -/
theorem continuesChain_of_breakLine {length : Nat} (h : s.breakLine length = .ok t)
    (hadded : t.emitted = s.placeNewline :: s.emitted) :
    continuesChain false t.cursor.rest = false := by
  have hsame : s.emitted ≠ s.placeNewline :: s.emitted := (List.cons_ne_self _ _).symm
  rw [breakLine] at h
  split at h
  · obtain ⟨_, -, h⟩ := bind_eq_ok_iff.mp h
    dsimp only at h
    split at h
    · cases h
      exact absurd hadded hsame
    · split at h
      · cases h
        exact absurd hadded hsame
      · rename_i hchain
        cases h
        exact Bool.eq_false_iff.mpr hchain
  · cases h

/-- What a step does that puts out the token of a line break. -/
theorem endsLine_of_step {x : Token} (hplaced : s.Placed source) (haccounts : s.Accounts source)
    (hstep : s.step = .ok t) (hadded : t.emitted = x :: s.emitted) (hkind : x.kind = .newline) :
    t.heredocs = [] ∧ continuesChain false t.cursor.rest = false ∧
      EndsLine source s.emitted x t.cursor.offset := by
  obtain ⟨item, hitem, htake⟩ := step_eq_ok_iff.mp hstep
  have hsame : s.emitted ≠ x :: s.emitted := (List.cons_ne_self _ _).symm
  cases found_of_readItem hitem with
  | passage | blank | hiddenBreak | comment =>
    cases htake
    exact absurd hadded hsame
  | lexeme hread =>
    cases htake
    obtain ⟨rfl, -⟩ := List.cons.inj hadded
    exact absurd hkind (shaped_readLexeme hread).kind_ne.1
  | lineBreak hbreak =>
    obtain ⟨ending, rest, htext, hending, hlength⟩ := exists_isBreak hbreak
    obtain ⟨bodies, hbodies, hcursor, -, hheredocs, hemitted⟩ := of_breakLine htake
    have hnewline : t.emitted = s.placeNewline :: s.emitted :=
      hemitted.resolve_left fun heq => hsame (heq.symm.trans hadded)
    have hchain := continuesChain_of_breakLine htake hnewline
    rw [hnewline] at hadded
    obtain ⟨rfl, -⟩ := List.cons.inj hadded
    refine ⟨hheredocs, hchain, ending, rest, s.heredocs, bodies, ?_, hending,
      haccounts.opened, ?_, ?_⟩
    · exact hplaced.rest.symm.trans htext
    · rwa [hlength, htext, List.drop_left] at hbodies
    · rw [hcursor, Cursor.offset_advance, hlength, Nat.add_assoc]
      rfl

/-- A step that puts out a token of a method call stands in front of one. -/
theorem startsCall_of_step {x : Token} (hstep : s.step = .ok t)
    (hadded : t.emitted = x :: s.emitted) (hkind : x.kind.isCallMark) :
    x.start = s.cursor.offset ∧ StartsCall s.cursor.rest := by
  cases emits_of_step hstep with
  | nothing h =>
    rw [h] at hadded
    exact absurd hadded (List.cons_ne_self _ _).symm
  | newline _ h =>
    rw [h] at hadded
    obtain ⟨rfl, -⟩ := List.cons.inj hadded
    cases hkind
  | lexeme found h =>
    have hemitted : t.emitted = s.place found :: s.emitted := congrArg emitted h.eq
    rw [hemitted] at hadded
    obtain ⟨rfl, -⟩ := List.cons.inj hadded
    exact ⟨rfl, startsCall_of_readLexeme h.reads hkind⟩

/-- What holds in front of a source and after each step holds on the way. -/
theorem Leads.accounts (h : Leads (start source) s) :
    s.Placed source ∧ s.Ordered source ∧ s.Accounts source :=
  h.keeps (I := fun u => u.Placed source ∧ u.Ordered source ∧ u.Accounts source)
    (fun _ _ hrest hstep hu =>
      ⟨hu.1.step hrest hstep, hu.2.1.step hu.1 hstep, hu.2.2.step hu.1 hu.2.1 hrest hstep⟩)
    ⟨placed_start source, ordered_start source, accounts_start source⟩

/-- A lexer that has passed the token of a line break, and the way to the call behind it. -/
structure Breaks (source : List Char) (front : List Token) (newline mark : Token)
    (t u : Lexer) : Prop where
  leads : Leads (start source) t
  ends : EndsLine source front newline t.cursor.offset
  heredocs : t.heredocs = []
  looked : continuesChain false t.cursor.rest = false
  silent : Leads t u
  same : u.emitted = t.emitted
  start : mark.start = u.cursor.offset
  call : StartsCall u.cursor.rest

/-- The steps that put out the token of a line break and the one of a call right behind it. -/
theorem exists_breaks {tokens front behind : List Token} {newline mark : Token} {last : Lexer}
    (h : Finished source tokens last) (hsplit : tokens = front ++ newline :: mark :: behind)
    (hnewline : newline.kind = .newline) (hmark : mark.kind.isCallMark) :
    ∃ t u, Breaks source front newline mark t u := by
  have hkind : mark.kind ≠ .eof := by
    intro heof
    rw [heof] at hmark
    cases hmark
  obtain ⟨s, t, u, v, hs, hrest, hstep, hfront, ht, hu, -, hustep, hsame, hv⟩ :=
    exists_between h hsplit hkind
  obtain ⟨hplaced, -, haccounts⟩ := hs.accounts
  obtain ⟨hheredocs, hchain, hends⟩ := endsLine_of_step hplaced haccounts hstep ht hnewline
  obtain ⟨hstart, hcall⟩ := startsCall_of_step hustep hv hmark
  refine ⟨t, u, hs.trans (.single hrest hstep), ?_, hheredocs, hchain, hu, hsame, hstart, hcall⟩
  obtain ⟨ending, rest, heredocs, bodies, htext, hending, hopened, hall⟩ := hends
  refine ⟨ending, rest, heredocs, bodies, htext, hending, fun heredoc hmem => ?_, hall⟩
  obtain ⟨opener, hopener, hopens⟩ := hopened heredoc hmem
  rw [hfront, List.mem_reverse] at hopener
  exact ⟨opener, hopener, hopens⟩

/-- What lies ahead of a lexer is what it passes on its way and what lies ahead then. -/
theorem Leads.exists_gap (h : Leads s t) (hs : s.Placed source) :
    ∃ gap, s.cursor.rest = gap ++ t.cursor.rest := by
  have hle := h.offset_le
  refine ⟨s.cursor.rest.take (t.cursor.offset - s.cursor.offset), ?_⟩
  have hrest : t.cursor.rest = s.cursor.rest.drop (t.cursor.offset - s.cursor.offset) := by
    rw [(h.placed hs).rest, hs.rest, List.drop_drop, Nat.add_sub_cancel' hle]
  rw [hrest, List.take_append_drop]

end Lexer

open Lexer

/-- Where the token of a line break is right in front of a method call, the text between the start
of the next line and the call is not all blanks, line breaks and comments. -/
theorem not_transparent_of_newline {source : String} {tokens front behind : List Token}
    {newline mark : Token} (h : tokenize source = .ok tokens)
    (hsplit : tokens = front ++ newline :: mark :: behind) (hnewline : newline.kind = .newline)
    (hmark : mark.kind.isCallMark) :
    ∃ next gap, EndsLine source.toList front newline next ∧
      source.toList.drop next = gap ++ source.toList.drop mark.start ∧ ¬Transparent gap := by
  obtain ⟨last, hlast⟩ := finished_of_tokenize h
  obtain ⟨t, u, hbreaks⟩ := exists_breaks hlast hsplit hnewline hmark
  have hplaced := hbreaks.leads.accounts.1
  obtain ⟨gap, hgap⟩ := hbreaks.silent.exists_gap hplaced
  refine ⟨t.cursor.offset, gap, hbreaks.ends, ?_, fun htransparent => ?_⟩
  · rwa [hbreaks.start, ← hplaced.rest, ← (hbreaks.silent.placed hplaced).rest]
  · have hlooked := hbreaks.looked
    rw [hgap, htransparent.continuesChain_append, continuesChain_of_startsCall hbreaks.call]
      at hlooked
    cases hlooked

/-- A form feed in front of a call is not looked over. -/
theorem not_transparent_feed :
    ∃ next gap, EndsLine "a\n\x0c.b".toList [⟨.ident, "a", 1, 1, 0, false, 1, 2, 1⟩]
        ⟨.newline, "\n", 1, 2, 1, false, 1, 3, 2⟩ next ∧
      "a\n\x0c.b".toList.drop next = gap ++ "a\n\x0c.b".toList.drop 3 ∧ ¬Transparent gap := by
  have htokens : tokenize "a\n\x0c.b" = .ok
      [⟨.ident, "a", 1, 1, 0, false, 1, 2, 1⟩, ⟨.newline, "\n", 1, 2, 1, false, 1, 3, 2⟩,
        ⟨.dot, ".", 2, 2, 3, true, 2, 3, 4⟩, ⟨.ident, "b", 2, 3, 4, false, 2, 4, 5⟩,
        ⟨.eof, "", 2, 4, 5, false, 2, 4, 5⟩] :=
    eq_ok_of_toOption (by decide +kernel)
  exact not_transparent_of_newline htokens List.singleton_append.symm rfl rfl

/-- The token of a line break comes right in front of a dot, when there is a form feed between. -/
theorem newline_in_front_of_dot :
    ∃ tokens front newline mark behind, tokenize "a\n\x0c.b" = .ok tokens ∧
      tokens = front ++ newline :: mark :: behind ∧ newline.kind = .newline ∧
      mark.kind.isCallMark :=
  ⟨_, [⟨.ident, "a", 1, 1, 0, false, 1, 2, 1⟩], ⟨.newline, "\n", 1, 2, 1, false, 1, 3, 2⟩,
    ⟨.dot, ".", 2, 2, 3, true, 2, 3, 4⟩,
    [⟨.ident, "b", 2, 3, 4, false, 2, 4, 5⟩, ⟨.eof, "", 2, 4, 5, false, 2, 4, 5⟩],
    eq_ok_of_toOption (by decide +kernel), rfl, rfl, rfl⟩

/-- A source that has nothing between its lines but spaces, tabs, comments and line breaks of whole
lines. -/
structure IsPlain (source : List Char) : Prop where
  /-- Blank space is made of spaces and tabs. -/
  blanks : ∀ c ∈ source, isInlineBlank c = true → c = ' ' ∨ c = '\t'
  /-- No backslash hides a line break. -/
  shown : ∀ i, peek source i = '\\' → isLineBreak (peek source (i + 1)) = false
  /-- A line feed comes behind every carriage return. -/
  feeds : ∀ i, peek source i = '\r' → peek source (i + 1) = '\n'
  /-- No line starts a block comment. -/
  unblocked : ∀ i, IsLineStart source i → ¬"=begin".toList <+: source.drop i

theorem Transparent.append {front back : List Char} (h : Transparent front)
    (hback : Transparent back) : Transparent (front ++ back) := by
  induction h with
  | nil => exact hback
  | blank hc _ ih => exact .blank hc ih
  | @comment line rest hline _ ih =>
    rw [List.cons_append, List.append_assoc, List.cons_append]
    exact .comment hline ih

theorem transparent_of_blank {text : List Char}
    (h : ∀ c ∈ text, c = ' ' ∨ c = '\t' ∨ isLineBreak c = true) : Transparent text := by
  induction text with
  | nil => exact .nil
  | cons c rest ih =>
    obtain ⟨hc, hrest⟩ := List.forall_mem_cons.mp h
    exact .blank hc (ih hrest)

/-- Behind a line break, the rest is as transparent as before. -/
theorem Transparent.of_cons {c : Char} {rest : List Char} (h : Transparent (c :: rest))
    (hc : c ≠ '#') : Transparent rest := by
  cases h with
  | blank _ h => exact h
  | comment => exact absurd rfl hc

/-- A method call starts with neither a line break nor NUL. -/
theorem StartsCall.not_endsComment {text : List Char} (h : StartsCall text) :
    endsComment (peek text 0) = false := by
  rcases h with ⟨h, -⟩ | ⟨h, -⟩ <;> rw [h] <;> rfl

/-- A comment is transparent together with the transparent text that it ends in front of. -/
theorem transparent_comment {text gap behind : List Char} (hmark : peek text 0 = '#')
    (hrest : text.drop (commentLength text) = gap ++ behind) (hgap : Transparent gap)
    (hfeeds : ∀ i, peek text i = '\r' → peek text (i + 1) = '\n') (hcall : StartsCall behind) :
    Transparent (text.take (commentLength text) ++ gap) := by
  have hends := endsComment_commentLength text
  have hpeek (i : Nat) : peek text (commentLength text + i) = peek (gap ++ behind) i := by
    rw [← hrest, peek_drop]
  have hfirst := hpeek 0
  rw [Nat.add_zero] at hfirst
  obtain ⟨line, htake, hline⟩ : ∃ line, text.take (commentLength text) = '#' :: line ∧
      '\n' ∉ line := by
    cases text with
    | nil => cases hmark
    | cons c rest =>
      obtain rfl : c = '#' := hmark
      refine ⟨rest.takeWhile fun c => !isLineBreak c && c != '\x00', ?_, fun hmem => ?_⟩
      · change ('#' :: rest).take ((rest.takeWhile _).length + 1) = _
        rw [List.take_succ_cons, ← List.prefix_iff_eq_take.mp (List.takeWhile_prefix _)]
      · simpa [isLineBreak] using List.mem_takeWhile_imp hmem
  rw [htake]
  -- The break that ends the comment is the first character of the gap, unless the call follows at
  -- once.
  cases gap with
  | nil =>
    rw [hfirst, List.nil_append, hcall.not_endsComment] at hends
    cases hends
  | cons c more =>
    rw [hfirst] at hends
    have hmore : Transparent more := by
      refine hgap.of_cons ?_
      rintro rfl
      cases hends
    have hbreak : c = '\n' ∨ c = '\r' := by
      cases hgap with
      | blank hc =>
        rcases hc with rfl | rfl | hc
        · cases hends
        · cases hends
        · simpa [isLineBreak] using hc
      | comment => cases hends
    rcases hbreak with rfl | rfl
    · exact .comment hline hmore
    · have hfeed := hfeeds _ hfirst
      rw [hpeek 1] at hfeed
      cases more with
      | nil =>
        have hends := hcall.not_endsComment
        rw [show peek behind 0 = '\n' from hfeed] at hends
        cases hends
      | cons d others =>
        obtain rfl : d = '\n' := hfeed
        -- A carriage return belongs to the comment, and the line feed behind it ends the line.
        have hreturn : '\n' ∉ line ++ ['\r'] := by simpa using hline
        have hcomment := Transparent.comment hreturn (hmore.of_cons (by decide))
        rwa [List.append_assoc, List.singleton_append] at hcomment

namespace Lexer

variable {source : List Char} {s t u : Lexer}

/-- What a lexer passes in a plain source without adding a token is transparent. -/
theorem Leads.transparent (hplain : IsPlain source) (h : Leads t u) (hplaced : t.Placed source)
    (hordered : t.Ordered source) (haccounts : t.Accounts source) (hheredocs : t.heredocs = [])
    (hsame : u.emitted = t.emitted) (hcall : StartsCall u.cursor.rest) :
    ∃ gap, t.cursor.rest = gap ++ u.cursor.rest ∧ Transparent gap := by
  induction h with
  | refl s => exact ⟨[], rfl, .nil⟩
  | @step s t u hrest hstep hbehind ih =>
    have htsame : t.emitted = s.emitted := by
      have hlength := hbehind.suffix.length_le
      refine (exists_of_step hstep).resolve_right ?_
      rintro ⟨x, hadded⟩
      rw [hsame, hadded, List.length_cons] at hlength
      omega
    -- What is ahead behind the step is transparent up to the call, so only its item is left.
    have hmore (hnone : t.heredocs = []) :
        ∃ gap, t.cursor.rest = gap ++ u.cursor.rest ∧ Transparent gap :=
      ih (hplaced.step hrest hstep) (hordered.step hplaced hstep)
        (haccounts.step hplaced hordered hrest hstep) hnone (hsame.trans htsame.symm) hcall
    have hmem : ∀ c ∈ s.cursor.rest, c ∈ source := by
      rw [hplaced.rest]
      exact fun c hc => List.mem_of_mem_drop hc
    have hpeek (i : Nat) : peek s.cursor.rest i = peek source (s.cursor.offset + i) := by
      rw [hplaced.rest, peek_drop]
    have hjoin {n : Nat} {gap : List Char} (hgap : s.cursor.rest.drop n = gap ++ u.cursor.rest) :
        s.cursor.rest = (s.cursor.rest.take n ++ gap) ++ u.cursor.rest := by
      rw [List.append_assoc, ← hgap, List.take_append_drop]
    obtain ⟨item, hitem, htake⟩ := step_eq_ok_iff.mp hstep
    -- An item that emits nothing is a blank, a comment or a break. A hidden break and a passage are
    -- excluded by the plainness of the source, up to a passage that leaves no call behind it.
    cases found_of_readItem hitem with
    | lexeme =>
      cases htake
      exact absurd htsame (List.cons_ne_self _ _)
    | hiddenBreak hslash hbreak =>
      rw [hpeek] at hslash hbreak
      rw [hplain.shown _ hslash] at hbreak
      cases hbreak
    | passage hline hpassage =>
      have hstart := (haccounts.line hline).resolve_left hrest
      cases htake
      rcases passage_cases hpassage with hblock | ⟨-, rfl⟩
      · obtain ⟨line, behind, block, rest, htext, -, -, ⟨returns, rfl, -⟩, -⟩ := hblock
        refine absurd ?_ (hplain.unblocked _ hstart)
        rw [← hplaced.rest, htext, List.append_assoc, List.append_assoc]
        exact List.prefix_append _ _
      · obtain ⟨gap, hgap, -⟩ := hmore hheredocs
        change s.cursor.rest.drop s.cursor.rest.length = _ at hgap
        rw [List.drop_length] at hgap
        rw [(List.append_eq_nil_iff.mp hgap.symm).2] at hcall
        rcases hcall with ⟨hnone, -⟩ | ⟨hnone, -⟩ <;> cases hnone
    | blank =>
      cases htake
      obtain ⟨gap, hgap, htransparent⟩ := hmore hheredocs
      refine ⟨_, hjoin hgap, Transparent.append (transparent_of_blank fun c hc => ?_) htransparent⟩
      rw [← List.prefix_iff_eq_take.mp (List.takeWhile_prefix _)] at hc
      have hblank := hplain.blanks c (hmem c ((List.takeWhile_prefix _).mem hc))
        (List.mem_takeWhile_imp hc)
      exact hblank.imp_right Or.inl
    | comment hmark =>
      cases htake
      obtain ⟨gap, hgap, htransparent⟩ := hmore hheredocs
      refine ⟨_, hjoin hgap, transparent_comment hmark hgap htransparent (fun i hi => ?_) hcall⟩
      rw [hpeek] at hi ⊢
      exact hplain.feeds _ hi
    | lineBreak hbreak =>
      obtain ⟨bodies, hbodies, hcursor, -, hnone, -⟩ := of_breakLine htake
      obtain ⟨gap, hgap, htransparent⟩ := hmore hnone
      obtain ⟨ending, rest, htext, hending, hlength⟩ := exists_isBreak hbreak
      rw [hheredocs] at hbodies
      cases hbodies
      rw [hcursor, hlength, Cursor.rest_advance] at hgap
      refine ⟨_, hjoin hgap, Transparent.append (transparent_of_blank fun c hc => ?_) htransparent⟩
      rw [Nat.add_zero, htext, List.take_left] at hc
      cases hending <;> simp only [List.mem_cons, List.not_mem_nil, or_false] at hc
      · exact Or.inr (Or.inr (by rw [hc]; rfl))
      · rcases hc with rfl | rfl <;> exact Or.inr (Or.inr rfl)
      · exact Or.inr (Or.inr (by rw [hc]; rfl))

end Lexer

/-- In a plain source a line that goes on with a method call behind blank lines and comments goes on
with it: the token of a line break is never right in front of one. -/
theorem kind_ne_newline_of_call {source : String} {tokens front behind : List Token}
    {before mark : Token} (hplain : IsPlain source.toList) (h : tokenize source = .ok tokens)
    (hsplit : tokens = front ++ before :: mark :: behind) (hmark : mark.kind.isCallMark) :
    before.kind ≠ .newline := by
  intro hnewline
  obtain ⟨last, hlast⟩ := finished_of_tokenize h
  obtain ⟨t, u, hbreaks⟩ := exists_breaks hlast hsplit hnewline hmark
  obtain ⟨hplaced, hordered, haccounts⟩ := hbreaks.leads.accounts
  obtain ⟨gap, hgap, htransparent⟩ := hbreaks.silent.transparent hplain hplaced hordered haccounts
    hbreaks.heredocs hbreaks.same hbreaks.call
  have hlooked := hbreaks.looked
  rw [hgap, htransparent.continuesChain_append, continuesChain_of_startsCall hbreaks.call]
    at hlooked
  cases hlooked

end Token

end XhrKeywords
