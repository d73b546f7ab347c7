import XhrKeywords.Proofs.Syntax.Shown.Body

/-!
# Printing loses no word

A tree of the grammar shows its words in print if it is exposed and declares no block-local
variables, which print behind the parameters that they stand among.
-/

namespace XhrKeywords.Syntax

/-- A list of statements, with clauses or without, is no condition. -/
theorem Fits.kind_of_suite {ok : Kind → Option Span → Prop} {kind : Kind} {span : Option Span}
    {children : List Node} (h : Fits ok .suite (.tree kind span children)) :
    kind = .body ∨ kind = .bodyStmt := by
  cases h with
  | plain hn =>
    cases hn with
    | body => exact .inl rfl
  | bodyStatement => exact .inr rfl

open Printer in
/-- A clear node that fits the grammar shows its words as its form demands. -/
theorem Fits.shows {ok : Kind → Option Span → Prop} {form : Form} {n : Node} (h : Fits ok form n) :
    Clear n → Shows form n := by
  -- The induction is on the form of the tree: a case for each rule, in which the parts are clear
  -- because the tree is.
  induction h with
  | literal literal fit content => exact fun _ => showsValue_literal literal content
  | word word fit => exact fun _ => showsValue_word word
  | series series fit all ih =>
    intro hclear
    exact shows_series series hclear.exposed.bares fun n hn => ih n hn (hclear.children n hn)
  | @single kind span inner single fit hinner ih =>
    intro hclear
    have hshown := ih (hclear.children inner (by simp))
    rcases single with rfl | rfl
    · refine showsValue_of_text rfl (by decide) fun level => ?_
      rw [Node.wordsAll_singleton, print, printSingle]
      exact (hshown.text level).bind fun text htext => gives_pure (htext.behind "**")
    · refine showsValue_of_text rfl (by decide) fun level => ?_
      rw [Node.wordsAll_singleton, print, printSingle]
      refine (hshown.text level).bind fun text htext => gives_pure ?_
      exact (htext.behind "defined?(").before ")"
  | @couple kind span first second couple fit hfirst hsecond ihfirst ihsecond =>
    intro hclear
    replace ihfirst := ihfirst (hclear.children first (by simp))
    replace ihsecond := ihsecond (hclear.children second (by simp))
    rcases couple with rfl | rfl | rfl
    · refine showsValue_of_text rfl (by decide) fun level => ?_
      rw [print]
      exact shows_printPair hfirst ihfirst ihsecond
    · refine showsValue_of_text rfl (by decide) fun level => ?_
      rw [print]
      exact shows_printAlias hfirst ihfirst hsecond ihsecond
    · refine showsValue_of_text rfl (by decide) fun level => ?_
      rw [print]
      exact shows_printRescue ihfirst ihsecond
  | @operation kind span left right operation fit hleft operator hright ihleft ihright =>
    intro hclear
    replace ihleft := ihleft (hclear.children left (by simp))
    replace ihright := ihright (hclear.children right (by simp))
    rcases operation with rfl | rfl
    · refine showsValue_of_text rfl (by decide) fun level => ?_
      rw [print]
      exact shows_printBinary (ihleft.text level) (ihright.text level)
    · refine showsValue_of_text rfl (by decide) fun level => ?_
      rw [print]
      exact shows_printBinary (ihleft.text level) (ihright.text level)
  | @range span lower upper fit hlower operator hupper ihlower ihupper =>
    intro hclear
    replace ihlower := ihlower (hclear.children lower (by simp))
    replace ihupper := ihupper (hclear.children upper (by simp))
    refine showsValue_of_text rfl (by decide) fun level => ?_
    rw [print]
    exact shows_printBinary (ihlower level) (ihupper level)
  | @unop span inner fit operator hinner ih =>
    intro hclear
    replace ih := ih (hclear.children inner (by simp))
    refine showsValue_of_text rfl (by decide) fun level => ?_
    rw [print]
    exact shows_printUnary ih
  | @ternary span test first other fit htest hfirst hother ihtest ihfirst ihother =>
    intro hclear
    replace ihtest := ihtest (hclear.children test (by simp))
    replace ihfirst := ihfirst (hclear.children first (by simp))
    replace ihother := ihother (hclear.children other (by simp))
    refine showsValue_of_text rfl (by decide) fun level => ?_
    rw [print]
    exact shows_printChoice ihtest ihfirst ihother
  | @masgn span tuple targets value fit htuple htargets hvalue ihtargets ihvalue =>
    intro hclear
    have htuple := hclear.children (.tree .mlhs tuple targets) (by simp)
    replace ihtargets := fun n hn => ihtargets n hn (htuple.children n hn)
    replace ihvalue := ihvalue (hclear.children value (by simp))
    refine showsValue_of_text rfl (by decide) fun level => ?_
    rw [print]
    exact shows_printTuple ihtargets ihvalue
  | @const span scope fit hscope name ih =>
    intro hclear
    replace ih := ih (hclear.children scope (by simp))
    refine showsValue_of_text rfl (by decide) fun level => ?_
    rw [print]
    exact shows_printConstant (ih level)
  | @modifier kind span inner test modifier fit keyword hinner htest ihinner ihtest =>
    intro hclear
    replace ihinner := ihinner (hclear.children inner (by simp))
    replace ihtest := ihtest (hclear.children test (by simp))
    rcases modifier with rfl | rfl
    · refine showsValue_of_text rfl (by decide) fun level => ?_
      rw [print]
      exact shows_printModifier (hclear.exposed.bares.role_eq rfl) ihinner ihtest
    · refine showsValue_of_text rfl (by decide) fun level => ?_
      rw [print]
      exact shows_printModifier (hclear.exposed.bares.role_eq rfl) ihinner ihtest
  | @call kind span receiver arguments call fit hreceiver name harguments ihreceiver iharguments =>
    intro hclear
    obtain ⟨hclearReceiver, -, hclearArguments⟩ : _ ∧ _ ∧ _ := by simpa using hclear.children
    replace ihreceiver := ihreceiver hclearReceiver
    replace iharguments := fun n hn => iharguments n hn (hclearArguments n hn)
    obtain ⟨-, setter⟩ := hclear.exposed.bares.setter_of_call call
    rcases call with rfl | rfl
    · refine showsValue_of_text rfl (by decide) fun level => ?_
      rw [print]
      exact shows_printCall (ihreceiver level) setter iharguments
    · refine showsValue_of_text rfl (by decide) fun level => ?_
      rw [print]
      exact shows_printCall (ihreceiver level) setter iharguments
  | @index span receiver arguments fit hreceiver harguments ihreceiver iharguments =>
    intro hclear
    obtain ⟨hclearReceiver, hclearArguments⟩ := List.forall_mem_cons.mp hclear.children
    refine showsValue_of_text rfl (by decide) fun level => ?_
    rw [print]
    exact shows_printIndex (ihreceiver hclearReceiver) fun n hn =>
      iharguments n hn (hclearArguments n hn)
  | @block span call bound inner fit hcall hbound hinner style braces ihcall ihbound ihinner
      ihbraces =>
    intro hclear
    have hclearInner := hclear.children inner (by simp)
    refine showsValue_of_text rfl (by decide) fun level => ?_
    rw [print]
    exact shows_printBlock hclear.exposed.bares.style_of_block
      (ihcall (hclear.children call (by simp))) (ihbound (hclear.children bound (by simp)))
      (ihinner hclearInner) fun hstyle => ihbraces hstyle hclearInner
  | @lambda span bound inner fit hbound hinner style braces ihbound ihinner ihbraces =>
    intro hclear
    have hclearInner := hclear.children inner (by simp)
    refine showsValue_of_text rfl (by decide) fun level => ?_
    rw [print]
    exact shows_printLambda hclear.exposed.bares.style_of_lambda
      (ihbound (hclear.children bound (by simp))) (ihinner hclearInner)
      fun hstyle => ihbraces hstyle hclearInner
  | @definition span owner listed args inner fit howner name hlisted hargs hinner ihowner ihargs
      ihinner =>
    intro hclear
    have hlisted := hclear.children (.tree .args listed args) (by simp)
    refine showsValue_of_text rfl (by decide) fun level => ?_
    rw [print]
    exact shows_printDefinition (ihowner (hclear.children owner (by simp)) level)
      (fun n hn => ihargs n hn (hlisted.children n hn)) (ihinner (hclear.children inner (by simp)))
  | @classDefinition span path parent inner fit hpath hparent hinner ihpath ihparent ihinner =>
    intro hclear
    refine showsValue_of_text rfl (by decide) fun level => ?_
    rw [print]
    exact shows_printClass (ihpath (hclear.children path (by simp)))
      (ihparent (hclear.children parent (by simp)) level)
      (ihinner (hclear.children inner (by simp)))
  | @named kind span name inner named fit hname hinner ihname ihinner =>
    intro hclear
    replace ihname := ihname (hclear.children name (by simp))
    replace ihinner := ihinner (hclear.children inner (by simp))
    rcases named with rfl | rfl
    · refine showsValue_of_text rfl (by decide) fun level => ?_
      rw [print]
      exact shows_printNamed ihname ihinner
    · refine showsValue_of_text rfl (by decide) fun level => ?_
      rw [print]
      exact shows_printNamed ihname ihinner
  | @condition span test inner other fit keyword htest hinner hother ihtest ihinner ihother =>
    intro hclear
    exact showsValue_condition (hclear.exposed.bares.role_eq rfl)
      (ihtest (hclear.children test (by simp))) (ihinner (hclear.children inner (by simp)))
      (ihother (hclear.children other (by simp)))
  | @whileLoop span test inner fit keyword htest hinner ihtest ihinner =>
    intro hclear
    refine showsValue_of_text rfl (by decide) fun level => ?_
    rw [print]
    exact shows_printWhile (ihtest (hclear.children test (by simp)))
      (ihinner (hclear.children inner (by simp)))
  | @forLoop span bound collection inner fit hbound hcollection hinner ihbound ihcollection
      ihinner =>
    intro hclear
    refine showsValue_of_text rfl (by decide) fun level => ?_
    rw [print]
    exact shows_printFor (ihbound (hclear.children bound (by simp)))
      (ihcollection (hclear.children collection (by simp)))
      (ihinner (hclear.children inner (by simp)))
  | @caseChoice span subject clauses other fit hsubject some hclauses hother ihsubject ihclauses
      ihother =>
    intro hclear
    refine showsValue_of_text rfl (by decide) fun level => ?_
    rw [print]
    exact shows_printCase (ihsubject (hclear.children subject (by simp)) level) some
      (fun n hn => ihclauses n hn (hclear.children n (by simp [hn])))
      (ihother (hclear.children other (by simp)))
  | @beginBlock span inner fit hinner ih =>
    intro hclear
    refine showsValue_of_text rfl (by decide) fun level => ?_
    rw [print]
    exact shows_printBegin (ih (hclear.children inner (by simp)))
  | absent => exact fun _ level => gives_ok (.nil _)
  | present hn ih => exact fun hclear => (ih hclear).text
  | body fit all ih =>
    exact fun hclear => showsStatements_body fun n hn => ih n hn (hclear.children n hn)
  | plain hn ih =>
    intro hclear
    refine ⟨fun level => ?_, ?_⟩
    · obtain ⟨text, hprint, htext⟩ := (ih hclear).text level
      exact ⟨text, hprint, htext.asLine⟩
    · rintro _ _ rfl
      cases hn
  | @bodyStatement span main clauses fit hmain hclauses ihmain ihclauses =>
    intro hclear
    obtain ⟨hclearMain, hclearClauses⟩ := List.forall_mem_cons.mp hclear.children
    have trim := hclear.exposed.isTrim
    rw [Node.words_tree] at trim
    exact showsSuite_bodyStatement trim (ihmain hclearMain) fun n hn =>
      ihclauses n hn (hclearClauses n hn)
  | nothing => exact fun _ => ⟨fun level => gives_ok (.nil _), nofun⟩
  | branch hn ih =>
    intro hclear
    refine ⟨(ih hclear).lines, ?_⟩
    rintro _ _ rfl
    rcases hn.kind_of_suite with h | h <;> cases h
  | conditional condition hn ih =>
    intro hclear
    refine ⟨fun level => ?_, (ih hclear).branches⟩
    obtain ⟨text, hprint, htext⟩ := (ih hclear).text level
    exact ⟨text, hprint, htext.asLine⟩
  | @rescueClause span listed classes bound handler fit hlisted hclasses hbound hhandler ihclasses
      ihbound ihhandler =>
    intro hclear
    have hlisted := hclear.children (.tree .excList listed classes) (by simp)
    exact shows_rescueClause (fun n hn => ihclasses n hn (hlisted.children n hn))
      (ihbound (hclear.children bound (by simp))) (ihhandler (hclear.children handler (by simp)))
  | @bodyClause kind span inner bodyClause fit hinner ih =>
    exact fun hclear => shows_bodyClause bodyClause (ih (hclear.children inner (by simp)))
  | @whenClause span values inner fit hvalues hinner ihvalues ihinner =>
    intro hclear
    exact shows_when (fun n hn => ihvalues n hn (hclear.children n (by simp [hn])))
      (ihinner (hclear.children inner (by simp)))
  | @plainParameter kind span children plain fit all =>
    intro hclear
    have marked : kind.isMarked := by cases kind <;> first | contradiction | rfl
    exact shows_plainParameter plain hclear.kind_ne all (hclear.exposed.bares.length_le marked)
  | @defaultParameter kind span value withDefault fit name hvalue ih =>
    exact fun hclear => shows_defaultParameter withDefault (ih (hclear.children value (by simp)))
  | parameterGroup fit all ih =>
    exact fun hclear => shows_parameterGroup fun n hn => ih n hn (hclear.children n hn)
  | noSignature => exact fun _ opener closer level => gives_ok (.nil _)
  | parameters fit all ih =>
    intro hclear opener closer level
    rw [printSignature, Node.words_tree]
    refine (shows_printParameters (fun n hn => ih n hn (hclear.children n hn)) .nil).bind
      fun text htext => gives_pure ?_
    exact (htext.behind opener).before closer

end XhrKeywords.Syntax
