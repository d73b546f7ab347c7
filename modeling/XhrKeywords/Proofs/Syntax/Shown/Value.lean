import XhrKeywords.Proofs.Syntax.Shown.Basic

/-!
# Values show their words

Literals, series, calls, pairs and operations, each with the words of their parts shown.
-/

namespace XhrKeywords.Syntax.Printer

open Node (wordsAll)

variable {level : Int} {nodes : List Node}

theorem showsValue_literal {kind : Kind} {span : Option Span} (literal : kind.isLiteral)
    (content : Leaf) : ShowsValue (.tree kind span [.leaf content]) := by
  refine showsValue_of_text ?_ ?_ fun level => ?_
  · cases kind <;> first | contradiction | rfl
  · rintro rfl
    cases literal
  · rw [Node.wordsAll_singleton]
    cases kind <;> first | contradiction | rw [print]
    case sym => exact gives_pure ((Occurs.leaf content).behind ":")
    all_goals exact gives_ok (.leaf content)

theorem showsValue_word {kind : Kind} {span : Option Span} (word : kind.isWord) :
    ShowsValue (.tree kind span []) := by
  refine showsValue_of_text ?_ ?_ fun level => ?_
  · cases kind <;> first | contradiction | rfl
  · rintro rfl
    cases word
  · rw [Node.wordsAll_nil]
    cases kind <;> first | contradiction | exact gives_ok (.nil _)

/-- What shows the words of some nodes shows them where it is left out if there are none. -/
theorem gives_unless_empty {text : String} {x : Result} (h : Gives (Occurs (wordsAll nodes)) x) :
    Gives (Occurs (wordsAll nodes)) (if nodes.isEmpty then .ok text else x) := by
  split
  · rename_i hnone
    rw [List.isEmpty_iff.mp hnone, Node.wordsAll_nil]
    exact gives_ok (.nil _)
  · exact h

theorem occurs_unless_empty {text : String} (h : Occurs (wordsAll nodes) text) :
    Occurs (wordsAll nodes) (if nodes.isEmpty then "" else text) := by
  split
  · rename_i hnone
    rw [List.isEmpty_iff.mp hnone, Node.wordsAll_nil]
    exact .nil _
  · exact h

/-- The same of a node that may be left out. -/
theorem occurs_unless_absent {n : Node} {text : String} (h : Occurs n.words text) :
    Occurs n.words (if n.isAbsent then "" else text) := by
  split
  · cases n with
    | absent => exact .nil _
    | leaf | tree => contradiction
  · exact h

theorem shows_series {kind : Kind} {span : Option Span} (series : kind.isSeries)
    (bares : Bares kind nodes) (h : ∀ n ∈ nodes, ShowsValue n) :
    ShowsValue (.tree kind span nodes) := by
  refine ⟨fun level => ?_, ?_, ?_⟩
  · have hall : Gives (Series (wordsAll nodes)) (printAll level nodes) := shows_printAll h
    have harguments : Gives (Series (wordsAll nodes)) (printArguments level nodes) :=
      shows_printArguments h
    rw [Node.words_tree]
    cases kind <;> first | contradiction | rw [print]
    case splat | blockPass =>
      refine (shows_printFirst h (bares.length_le rfl)).bind fun text htext => ?_
      exact gives_pure (htext.behind _)
    case dstr => exact hall.bind fun texts htexts => gives_pure (htexts.joined " ")
    case paren | array | mlhs =>
      exact hall.bind fun texts htexts => gives_pure (((htexts.joined _).behind _).before _)
    case hash =>
      refine gives_unless_empty (hall.bind fun texts htexts => gives_pure ?_)
      exact ((htexts.joined ", ").behind _).before _
    case returnStmt | breakStmt | nextStmt =>
      refine gives_unless_empty (harguments.bind fun texts htexts => gives_pure ?_)
      exact (htexts.joined ", ").behind _
    case yieldCall | superCall =>
      refine gives_unless_empty (harguments.bind fun texts htexts => gives_pure ?_)
      exact ((htexts.joined ", ").behind _).before _
  · rintro _ _ _ ⟨⟩ - level
    rw [Node.words_tree]
    exact shows_printAll h
  · rintro _ _ ⟨⟩
    cases series

/-- A call shows its words in either style, since no setter is printed without its equals sign. -/
theorem shows_printCall {dot : String} {parens : Bool} {receiver : Node} {name : Leaf}
    (hreceiver : Gives (Occurs receiver.words) (print level receiver))
    (setter : receiver.isAbsent ∨ setterName? name.text = none) (h : ∀ n ∈ nodes, ShowsValue n) :
    Gives (Occurs (wordsAll (receiver :: .leaf name :: nodes)))
      (printCall dot parens level (receiver :: .leaf name :: nodes)) := by
  have hassigned : assignedName? receiver name.text nodes = none := by
    rw [assignedName?]
    split
    · rfl
    · rename_i hpresent
      exact setter.resolve_left fun habsent => by simp [habsent] at hpresent
  rw [printCall, Node.wordsAll_cons, Node.wordsAll_cons, ← List.append_assoc]
  refine hreceiver.bind fun object hobject => ?_
  rw [hassigned]
  dsimp only
  have hhead : Occurs (receiver.words ++ (Node.leaf name).words)
      (if receiver.isAbsent then name.text else object ++ dot ++ name.text) := by
    split
    · rename_i habsent
      cases receiver with
      | absent => exact .leaf name
      | leaf | tree => cases habsent
    · rw [String.append_assoc]
      exact hobject.append ((Occurs.leaf name).behind dot)
  split
  · rename_i hnone
    rw [List.isEmpty_iff.mp hnone, Node.wordsAll_nil, List.append_nil]
    exact gives_pure hhead
  · refine (shows_printArguments h).bind fun texts htexts => gives_pure ?_
    split
    · exact ((hhead.before "(").append (htexts.joined ", ")).before ")"
    · exact (hhead.before " ").append (htexts.joined ", ")

section Symbols

variable {ok : Kind → Option Span → Prop} {key value : Node} {text : String}

/-- A symbol holds one leaf. -/
theorem content_of_sym {span : Option Span} (h : Fits ok .value (.tree .sym span nodes)) :
    ∃ content, nodes = [.leaf content] := by
  cases h with
  | literal _ _ content => exact ⟨content, rfl⟩
  | word hkind | series hkind => cases hkind
  | single hkind | couple hkind | operation hkind | modifier hkind | call hkind | named hkind =>
    simp at hkind

/-- A key shows its words as a label. -/
theorem occurs_label (hkey : Fits ok .value key) (h : label? key = some text) :
    Occurs key.words text := by
  unfold label? at h
  split at h
  · obtain ⟨content, heq⟩ := content_of_sym hkey
    obtain ⟨rfl, rfl⟩ : _ ∧ _ := by simpa using heq
    split at h
    · cases h
      rw [Node.words_tree, Node.wordsAll_singleton]
      exact (Occurs.leaf _).before ":"
    · cases h
  · cases h

/-- A symbol shows its words without its colon. -/
theorem occurs_symbolText (hkey : Fits ok .value key) (h : symbolText? key = some text) :
    Occurs key.words text := by
  unfold symbolText? at h
  split at h
  · obtain ⟨content, heq⟩ := content_of_sym hkey
    obtain ⟨rfl, rfl⟩ : _ ∧ _ := by simpa using heq
    cases h
    rw [Node.words_tree, Node.wordsAll_singleton]
    exact .leaf _
  · cases h

theorem shows_printPair (fits : Fits ok .value key) (hkey : ShowsValue key)
    (hvalue : ShowsValue value) :
    Gives (Occurs (wordsAll [key, value])) (printPair level [key, value]) := by
  rw [Node.wordsAll_pair, printPair]
  split
  · rename_i label hlabel
    have hfront := (occurs_label fits hlabel).before " "
    exact (hvalue.text level).bind fun text htext => gives_pure (hfront.append htext)
  · refine (hkey.text level).bind fun front hfront => (hvalue.text level).bind fun text htext => ?_
    exact gives_pure ((hfront.before " => ").append htext)

/-- What follows a name in an alias may rely on its words being shown, without the colon of a
symbol. -/
theorem gives_aliasName {Q : String → Prop} {next : String → Result} (fits : Fits ok .value key)
    (hkey : ShowsValue key) (hnext : ∀ text, Occurs key.words text → Gives Q (next text)) :
    Gives Q (match symbolText? key with
      | some text => pure text >>= next
      | none => print 0 key >>= next) := by
  split
  · rename_i text htext
    exact hnext text (occurs_symbolText fits htext)
  · exact (hkey.text 0).bind hnext

theorem shows_printAlias (fitsNew : Fits ok .value key) (hnew : ShowsValue key)
    (fitsOld : Fits ok .value value) (hold : ShowsValue value) :
    Gives (Occurs (wordsAll [key, value])) (printAlias [key, value]) := by
  rw [Node.wordsAll_pair, printAlias]
  refine gives_aliasName fitsNew hnew fun first hfirst => ?_
  refine gives_aliasName fitsOld hold fun second hsecond => gives_pure ?_
  exact ((hfirst.behind "alias ").before " ").append hsecond

end Symbols

/-- Two operands and the operator between them show their words. -/
theorem shows_printBinary {kind : Kind} {gap : String} {left right : Node} {operator : Leaf}
    (hleft : Gives (Occurs left.words) (print level left))
    (hright : Gives (Occurs right.words) (print level right)) :
    Gives (Occurs (wordsAll [left, .leaf operator, right]))
      (printBinary kind gap level [left, .leaf operator, right]) := by
  rw [printBinary]
  refine hleft.bind fun before hbefore => hright.bind fun text htext => gives_pure ?_
  have := hbefore.append (((Occurs.leaf operator).behind gap).append (htext.behind gap))
  simpa [String.append_assoc] using this

/-- An operator shows its own text, which is none of the words, and the words of its operand. -/
theorem shows_printUnary {operator : Leaf} {inner : Node} (hinner : ShowsValue inner) :
    Gives (Occurs (wordsAll [.leaf operator, inner]))
      (printUnary level [.leaf operator, inner]) := by
  rw [Node.wordsAll_pair, printUnary]
  refine (hinner.text level).bind fun text htext => gives_pure ?_
  exact ((Occurs.leaf operator).before _).append htext

theorem shows_printChoice {test first other : Node} (htest : ShowsValue test)
    (hfirst : ShowsValue first) (hother : ShowsValue other) :
    Gives (Occurs (wordsAll [test, first, other])) (printChoice level [test, first, other]) := by
  rw [printChoice]
  refine (htest.text level).bind fun before hbefore => ?_
  refine (hfirst.text level).bind fun chosen hchosen => ?_
  refine (hother.text level).bind fun text htext => gives_pure ?_
  simpa using (((hbefore.before " ? ").append hchosen).before " : ").append htext

theorem shows_printRescue {statement fallback : Node} (hstatement : ShowsValue statement)
    (hfallback : ShowsValue fallback) :
    Gives (Occurs (wordsAll [statement, fallback])) (printRescue level [statement, fallback]) := by
  rw [Node.wordsAll_pair, printRescue]
  refine (hstatement.text level).bind fun before hbefore => ?_
  refine (hfallback.text level).bind fun text htext => gives_pure ?_
  exact (hbefore.before " rescue ").append htext

theorem shows_printTuple {tuple : Option Span} {targets : List Node} {value : Node}
    (htargets : ∀ n ∈ targets, ShowsValue n) (hvalue : ShowsValue value) :
    Gives (Occurs (wordsAll [.tree .mlhs tuple targets, value]))
      (printTuple level [.tree .mlhs tuple targets, value]) := by
  rw [Node.wordsAll_pair, Node.words_tree,
    printTuple.eq_def]
  have hleft : Gives (Series (wordsAll targets)) (printAll level targets) :=
    shows_printAll htargets
  split
  · rename_i span values heq
    simp only [List.cons.injEq, Node.tree.injEq, and_true] at heq
    obtain ⟨⟨-, -, rfl⟩, rfl⟩ := heq
    refine hleft.bind fun left hleft => (hvalue.elements rfl rfl level).bind fun right hright => ?_
    dsimp only
    split
    · exact gives_pure (((hleft.joined _).before " = ").append (hright.joined _))
    · exact gives_pure ((((hleft.joined _).before " = [").append (hright.joined _)).before "]")
  · rename_i heq
    simp only [List.cons.injEq, Node.tree.injEq, and_true] at heq
    obtain ⟨⟨-, -, rfl⟩, rfl⟩ := heq
    refine hleft.bind fun left hleft => (hvalue.text level).bind fun right hright => ?_
    exact gives_pure (((hleft.joined _).before " = ").append hright)
  · rename_i h
    exact absurd rfl (h .mlhs tuple targets value)

theorem shows_printConstant {scope : Node} {name : Leaf}
    (hscope : Gives (Occurs scope.words) (print level scope)) :
    Gives (Occurs (wordsAll [scope, .leaf name])) (printConstant level [scope, .leaf name]) := by
  rw [Node.wordsAll_pair,
    printConstant.eq_def]
  split
  case h_1 heq =>
    simp only [List.cons.injEq, Node.leaf.injEq, and_true] at heq
    obtain ⟨rfl, rfl⟩ := heq
    rw [Node.words_absent, List.nil_append]
    exact gives_ok (.leaf _)
  case h_2 heq =>
    simp only [List.cons.injEq, Node.leaf.injEq, and_true] at heq
    obtain ⟨rfl, rfl⟩ := heq
    refine hscope.bind fun text htext => gives_pure ?_
    exact (htext.before "::").append (.leaf _)
  case h_3 h => exact absurd rfl (h _ name)

/-- A modifier shows the words of its parts in the order of the source, in which its keyword stands
between them. -/
theorem shows_printModifier {kind : Kind} {keyword : Leaf} {statement test : Node}
    (role : keyword.role = .keyword) (hstatement : ShowsValue statement) (htest : ShowsValue test) :
    Gives (Occurs (wordsAll [.leaf keyword, statement, test]))
      (printModifier kind level [.leaf keyword, statement, test]) := by
  rw [Node.wordsAll_cons, Node.wordsAll_pair, Node.words_mark (by rw [role]; rfl),
    List.nil_append, printModifier]
  refine (hstatement.text level).bind fun before hbefore => ?_
  refine (htest.text level).bind fun text htext => gives_pure ?_
  exact ((((hbefore.before " ").before keyword.text).before " ")).append htext

theorem shows_printIndex {receiver : Node} (hreceiver : ShowsValue receiver)
    (h : ∀ n ∈ nodes, ShowsValue n) :
    Gives (Occurs (wordsAll (receiver :: nodes))) (printIndex level (receiver :: nodes)) := by
  rw [Node.wordsAll_cons, printIndex]
  refine (hreceiver.text level).bind fun head hhead => ?_
  refine (shows_printArguments h).bind fun texts htexts => gives_pure ?_
  exact ((hhead.before "[").append (htexts.joined ", ")).before "]"

end XhrKeywords.Syntax.Printer
