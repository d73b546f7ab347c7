import XhrKeywords.Proofs.Grammar.Watch.Program

/-!
# Productions build trees of the grammar of trees

What a production builds fits its place, and its span lies among the tokens: it starts and ends no
later than the last of them. Statement lists and parameter lists are left out of the second part,
because an empty one lies at the token behind it, which may be the end of the source. Main
statement: `program_of_parseTokens`.
-/

namespace XhrKeywords.Grammar

open Syntax hiding Kind
open Token (Kind)

/-- A token has characters and does not end behind an offset, unless it is the end of the source. -/
def IsWithin (limit : Nat) (t : Token) : Prop :=
  t.kind ≠ .eof → t.start < t.stop ∧ t.stop ≤ limit

/-- Tokens up to an offset: the last one taken does not end behind it, and those ahead have
characters and do not either, the end of the source aside. -/
structure State.Within (limit : Nat) (s : State) : Prop where
  previous : s.previous.stop ≤ limit
  ahead : ∀ t ∈ s.current :: s.ahead, IsWithin limit t

/-- The span of a tree lies up to an offset, and that of a call does not end before it starts. -/
def Inside (limit : Nat) (kind : Syntax.Kind) (span : Option Span) : Prop :=
  kind.mayBeHollow ∨
    ∃ s, span = some s ∧ s.start ≤ limit ∧ s.stop ≤ limit ∧ (kind = .call → s.start ≤ s.stop)

variable {limit : Nat} {s : State} {t : Token}

/-- A tree may start with a token. -/
theorem IsWithin.start_le (h : IsWithin limit t) (hkind : t.kind ≠ .eof) :
    t.start ≤ limit :=
  Nat.le_of_lt (Nat.lt_of_lt_of_le (h hkind).1 (h hkind).2)

namespace State.Within

/-- A token that is taken lies up to the offset. -/
theorem advance (h : s.Within limit) (hkind : s.current.kind ≠ .eof) :
    s.advance.Within limit := by
  obtain ⟨hprevious, hahead⟩ := h
  have hstop := (hahead s.current List.mem_cons_self hkind).2
  rw [State.advance]
  split
  · exact ⟨hstop, hahead⟩
  · rename_i t others heq
    rw [heq] at hahead
    exact ⟨hstop, fun u hu => hahead u (List.mem_cons_of_mem _ hu)⟩

theorem current (h : s.Within limit) : IsWithin limit s.current :=
  h.ahead s.current List.mem_cons_self

/-- The scopes and the count of kept `do`s do not matter. -/
theorem congr (h : s.Within limit) (blocked : Nat) (scope : List String)
    (outer : List (List String)) :
    State.Within limit ⟨s.current, s.ahead, s.previous, blocked, scope, outer⟩ :=
  ⟨h.previous, h.ahead⟩

end State.Within

namespace Inside

variable {kind : Syntax.Kind} {span : Span}

/-- A span up to a place in front of the offset lies up to the offset. -/
theorem upTo (kind : Syntax.Kind) {start : Mark} {line column stop : Nat}
    (hstart : start.start ≤ limit) (hstop : stop ≤ limit) :
    Inside limit kind (some (start.upTo line column stop)) := by
  refine Or.inr ⟨_, rfl, ?_⟩
  rw [Mark.upTo]
  split
  · exact ⟨hstart, hstart, fun _ => Nat.le_refl _⟩
  · rename_i hle
    exact ⟨hstart, hstop, fun _ => Nat.le_of_not_lt hle⟩

/-- The end of a tree that is no call may be any place up to the offset. -/
theorem stoppedAt (h : Inside limit kind (some span)) (hkind : kind.isCall = false)
    {other : Span} (hstart : other.start = span.start)
    (hstop : span.stop ≤ limit → other.stop ≤ limit) : Inside limit kind (some other) := by
  rcases h with hhollow | ⟨_, ⟨⟩, hfirst, hlast, -⟩
  · exact Or.inl hhollow
  · refine Or.inr ⟨_, rfl, hstart ▸ hfirst, hstop hlast, ?_⟩
    rintro rfl
    cases hkind

/-- The name in front of the colon of a label lies up to the offset. -/
theorem of_label (h : IsWithin limit t) (hkind : t.kind = .label) (kind : Syntax.Kind) :
    Inside limit kind (some (shorten t.span)) := by
  obtain ⟨hlt, hle⟩ := h (by rw [hkind]; decide)
  refine Or.inr ⟨_, rfl, Nat.le_of_lt (Nat.lt_of_lt_of_le hlt hle),
    Nat.le_trans (Nat.sub_le _ _) hle, fun _ => Nat.le_sub_one_of_lt hlt⟩

end Inside

/-- A value starts and ends up to the offset. -/
theorem bounds_of_fits {n : Node} (h : Fits (Inside limit) .value n) :
    (ofNode n).start ≤ limit ∧ (spanOf n).stop ≤ limit := by
  obtain ⟨kind, span, children, rfl, hinside, hhollow⟩ := h.tree_of_value
  rcases hinside with hloose | ⟨s, rfl, hstart, hstop, -⟩
  · rw [hhollow] at hloose
    cases hloose
  · exact ⟨hstart, hstop⟩

/-- The variable of a bare call lies where the call does. -/
theorem fits_variable {span : Option Span} {name : Leaf}
    (h : Fits (Inside limit) .value (.tree .call span [.absent, .leaf name])) (content : Leaf) :
    Fits (Inside limit) .value (.tree .lvar span [.leaf content]) := by
  obtain ⟨hinside, -⟩ := h.parts_of_call (.inl rfl)
  refine .literal rfl ?_ content
  rcases hinside with hhollow | ⟨s, rfl, hstart, hstop, -⟩
  · cases hhollow
  · exact Or.inr ⟨s, rfl, hstart, hstop, nofun⟩

/-- Tokens up to an offset build trees that fit and lie up to it. Only the end of the source may lie
behind it, so it is never taken. -/
def fitWatch (limit : Nat) : Watch where
  Holds _ := State.Within limit
  Takes t := t.kind ≠ .eof
  Sound := IsWithin limit
  Starts start := start.start ≤ limit
  Lies := Inside limit
  Knows := Fits (Inside limit)
  takes h := h
  advance h hkind := h.advance hkind
  declare h _ := h.congr _ _ _
  sound h := h.current
  scope h _ := ⟨(), h.congr _ _ _, fun _ ht => ht.congr _ _ _⟩
  count h _ := ⟨(), h.congr _ _ _, fun _ ht => ht.congr _ _ _⟩
  opens h hkind := h.start_le hkind
  starts h := (bounds_of_fits h).1
  lies h kind hstart := .upTo kind hstart h.previous
  encloses kind hfirst hlast := .upTo kind (bounds_of_fits hfirst).1 (bounds_of_fits hlast).2
  hollow h _ := Or.inl h
  endsAt h hkind ht htakes := h.stoppedAt hkind rfl fun _ => (ht htakes).2
  shortens h hkind := h.stoppedAt hkind rfl fun hstop => Nat.le_trans (Nat.sub_le _ _) hstop
  labels h hkind kind := .of_label h hkind kind
  rule h := h.fits
  target h := fits_variable h _
  label h hkind := .call (.inl rfl) (.of_label h hkind .call) .absent _ nofun

theorem calls_fitWatch (limit : Nat) : (fitWatch limit).Calls := by
  apply Watch.Calls.of_heads
  intro kind receiver name hkind hreceiver hname span found hspan hfound
  cases hname with
  | implied => exact .call hkind hspan hreceiver _ hfound
  | token => exact .call hkind hspan hreceiver _ hfound

/-- What is read from tokens up to an offset is a program whose statements fit up to it. -/
theorem program_of_parseTokens {tokens : List Token} {tree : Node}
    (htokens : ∀ t ∈ tokens, t.kind ≠ .eof → t.start < t.stop ∧ t.stop ≤ limit)
    (h : parseTokens tokens = .ok tree) :
    ∃ span found, tree = .tree .program span found ∧
      ∀ n ∈ found, Fits (Inside limit) .value n := by
  cases tokens with
  | nil =>
    cases h
    exact ⟨_, _, rfl, nofun⟩
  | cons first others =>
    have hwithin : (State.start first others).Within limit := ⟨Nat.zero_le _, htokens⟩
    exact program_of_tokens (calls_fitWatch limit) (fun _ => trivial) (i := ()) hwithin h

end XhrKeywords.Grammar
