import XhrKeywords.Proofs.Grammar.Watch.Program

/-!
# Productions build exposed trees

Where the tokens ahead end as those of a source do, every production builds a tree that hides no
word: the leaves have the texts of tokens that are no line breaks, a sign or an equals sign aside,
and the name of a call comes from a token that is not the name of a setter. Main statement:
`exposed_of_parse`.
-/

namespace XhrKeywords.Grammar

open Syntax hiding Kind
open Token (Kind AllEnd)

/-- The tokens ahead end as those of a source do. -/
def State.Tidy (s : State) : Prop := AllEnd (s.current :: s.ahead)

/-- A token ends as one of a source does, unless it is a line break. -/
def IsTidy (t : Token) : Prop := t.kind ≠ .newline → t.kind.Ends t.text

variable {s : State} {t : Token} {content : Leaf}

theorem State.Tidy.advance (h : s.Tidy) : s.advance.Tidy := by
  rw [State.advance]
  split
  · exact h
  · rename_i next others hahead
    rw [State.Tidy, hahead] at h
    exact fun u hu => h u (List.mem_cons_of_mem _ hu)

theorem State.Tidy.isTidy (h : s.Tidy) : IsTidy s.current := h s.current List.mem_cons_self

/-- A sign in front of a number leaves its end alone. -/
theorem IsTidy.isTrim_negative (h : IsTidy t) (hkind : t.kind = .int ∨ t.kind = .float) :
    IsTrim ("-" ++ t.text) := by
  intro hlast
  have hword : t.kind ≠ .newline := by
    rcases hkind with hkind | hkind <;> rw [hkind] <;> decide
  rw [String.toList_append, List.getLast?_append] at hlast
  cases hend : t.text.toList.getLast? with
  | none =>
    rw [hend] at hlast
    exact absurd hlast (by decide)
  | some c =>
    rw [hend] at hlast
    obtain rfl : c = '\n' := Option.some.inj hlast
    obtain ⟨hstring, -⟩ := (h hword).lineFeed hend
    rcases hkind with hkind | hkind <;> rw [hkind] at hstring <;> cases hstring

/-- A call without a receiver may have any name. -/
theorem exposed_bare_call {span : Option Span} (h : IsTrim content.text) :
    Exposed (.tree .call span [.absent, .leaf content]) := by
  apply Exposed.tree (.call (.inl rfl) h (.inl rfl))
  simp [Exposed.absent, Exposed.leaf fun _ => h]

/-- A variable has no other word than its name. -/
theorem exposed_variable {span : Option Span} (h : IsTrim content.text) :
    Exposed (.tree .lvar span [.leaf content]) := by
  apply Exposed.tree (.all rfl)
  simp [Exposed.leaf fun _ => h]

/-- Where the tokens ahead end as those of a source do, the trees that are built are exposed. -/
def exposedWatch : Watch where
  Holds _ := State.Tidy
  Sound := IsTidy
  Word content := content.role.isContent → IsTrim content.text
  Knows _ := Exposed
  advance h _ := h.advance
  declare h _ := h
  sound h := h.isTidy
  scope h _ := ⟨(), h, fun _ ht => ht⟩
  count h _ := ⟨(), h, fun _ ht => ht⟩
  word h hword htext _ := htext ▸ (h hword).isTrim
  negative h hkind htext _ := htext ▸ h.isTrim_negative hkind
  trim h _ := h
  mark h hcontent := absurd (h.symm.trans hcontent) Bool.false_ne_true
  rule h := h.closed .absent .leaf fun _ bares all => .tree bares all
  target h := exposed_variable (h.bares.setter_of_call (.inl rfl)).1
  label h hkind := exposed_bare_call (h (by rw [hkind]; decide)).isTrim

/-- The name of a call is not the name of a setter. -/
theorem name_of_isName {n : Node} (h : exposedWatch.IsName n) :
    ∃ content, n = .leaf content ∧ IsTrim content.text ∧
      Printer.setterName? content.text = none := by
  cases h with
  | implied => exact ⟨_, rfl, fun hlast => absurd hlast (by decide), by decide⟩
  | @token t role h hnames =>
    have hword : t.kind ≠ .newline := by
      intro hkind
      rw [hkind] at hnames
      cases hnames
    exact ⟨_, rfl, (h hword).isTrim, (h hword).setterName hnames⟩

theorem calls_exposedWatch : exposedWatch.Calls := by
  apply Watch.Calls.of_heads
  intro kind receiver name hkind hreceiver hname span found _ hfound
  obtain ⟨content, rfl, htrim, hsetter⟩ := name_of_isName hname
  apply Exposed.tree (.call hkind htrim (.inr hsetter))
  exact Watch.KnowsAll.cons hreceiver (.cons (.leaf fun _ => htrim) hfound)

/-- What is read from the tokens of a source is exposed. -/
theorem exposed_of_parseTokens {tokens : List Token} {tree : Node}
    (htokens : Token.AllEnd tokens) (h : parseTokens tokens = .ok tree) : Exposed tree := by
  cases tokens with
  | nil =>
    cases h
    exact .tree (.all rfl) fun _ hn => absurd hn List.not_mem_nil
  | cons first others =>
    have htidy : (State.start first others).Tidy := htokens
    obtain ⟨span, found, rfl, hfound⟩ :=
      program_of_tokens calls_exposedWatch (fun _ => trivial) (i := ()) htidy h
    exact .tree (.all rfl) hfound

/-- The tree of a source is exposed. -/
theorem exposed_of_parse {source : String} {tree : Node} (h : parse source = .ok tree) :
    Exposed tree := by
  obtain ⟨tokens, htokens, htree⟩ := bind_eq_ok_iff.mp h
  rw [mapError_eq_ok_iff] at htokens htree
  exact exposed_of_parseTokens (Token.ends_of_tokenize htokens) htree

end XhrKeywords.Grammar
