import XhrKeywords.Proofs.Migration.Frame
import XhrKeywords.Proofs.Outcome
import XhrKeywords.Proofs.Syntax.Printable

/-!
# Which calls are converted

A legacy call that fits the grammar of trees and has its place in the source is converted unless
something speaks against it, and then it is refused: no other failure is possible, because both the
call and its replacement have a text.
-/

namespace XhrKeywords.Migration

open Syntax Printer

variable {ok : Kind → Option Span → Prop}

/-- The keywords of a request are those for the headers and the parameters and the mark. -/
theorem eq_of_mem_keywords {params headers n : Node} (h : n ∈ (keywords params headers).children) :
    n = keyword "headers" headers ∨ n = keyword "params" params ∨
      n = keyword legacyMethod (.made .trueLit []) := by
  rw [keywords, Node.made, Node.children, List.mem_append, List.mem_append, headersKeyword,
    paramsKeyword] at h
  grind

/-- What holds of every argument and of what is left out holds of the first argument. -/
theorem headD_of_forall {p : Node → Prop} (habsent : p .absent) {nodes : List Node}
    (h : ∀ n ∈ nodes, p n) : p (nodes.headD .absent) := by
  cases nodes with
  | nil => exact habsent
  | cons n others => exact h n List.mem_cons_self

/-- The keywords of a request print. -/
theorem prints_keywords {params headers : Node} (hparams : Prints .optional params)
    (hheaders : Prints .optional headers) : Prints .value (keywords params headers) := by
  have hpair : ∀ name {value : Node}, Prints .optional value →
      Prints .value (keyword name value) :=
    fun name _ hvalue => prints_pair (fun _ => answers_ok _) hvalue
  refine prints_series rfl ?_
  intro n hn
  obtain rfl | rfl | rfl := eq_of_mem_keywords hn
  · exact hpair _ hheaders
  · exact hpair _ hparams
  · exact hpair _ fun _ => answers_ok _

/-- The call in keyword style for printable arguments prints. -/
theorem answers_replacementFor {verb : String} {path : Node} {listed : List Node}
    {block : Option Node} (hpath : Prints .value path) (hlisted : ∀ n ∈ listed, Prints .value n)
    (hblock : ∀ b ∈ block, Prints .value b) (command : Bool) :
    Answers ((replacementFor verb path listed block).print command) := by
  have habsent : Prints .optional .absent := fun _ => answers_ok _
  refine answers_print_call habsent ?_ command
  intro n hn
  simp only [List.append_eq, List.cons_append, List.nil_append, List.mem_cons,
    Option.mem_toList] at hn
  rcases hn with rfl | rfl | hn
  · exact hpath
  · exact prints_keywords (headD_of_forall habsent hlisted)
      (headD_of_forall habsent fun n hn => hlisted n (List.mem_of_mem_tail hn))
  · exact hblock n hn

/-- The trailing arguments are arguments of the call. -/
theorem mem_of_mem_trailingArguments {call n : Node} (h : n ∈ trailingArguments call) :
    n ∈ call.children.drop 4 := by
  rw [trailingArguments] at h
  split at h
  · exact List.dropLast_subset _ h
  · exact h

/-- A call against which nothing speaks has a replacement that prints. -/
theorem answers_replacement {span : Option Span} {children : List Node}
    (h : Fits ok .value (.tree .call span children))
    (hnone : objection? (.tree .call span children) = none) (command : Bool) :
    Answers ((replacement (.tree .call span children)
      (trailingArguments (.tree .call span children))).print command) := by
  obtain ⟨-, receiver, name, arguments, rfl, -, harguments⟩ := h.call_parts
  have hverb : (verb? (.tree .call span (receiver :: .leaf name :: arguments))).isSome := by
    rw [objection?] at hnone
    split at hnone
    · cases hnone
    · split at hnone
      · cases hnone
      · split at hnone
        · cases hnone
        · rename_i hsome
          rwa [Bool.not_eq_true, Option.isNone_eq_false_iff] at hsome
  match arguments, harguments with
  | [], _ => simp [verb?, verbAndPath?, Node.children] at hverb
  | [_], _ => simp [verb?, verbAndPath?, Node.children] at hverb
  | verb :: path :: others, harguments =>
    refine answers_replacementFor (harguments path (by simp)).prints ?_ ?_ command
    · intro n hn
      have hmem := mem_of_mem_trailingArguments hn
      exact (harguments n (List.mem_cons_of_mem _ (List.mem_cons_of_mem _ hmem))).prints
    · intro b hb
      change (verb :: path :: others).getLast?.filter (·.isKind .blockPass) = some b at hb
      have hlast := Option.eq_some_of_filter_eq_some hb
      exact (harguments b (List.mem_of_getLast? hlast)).prints

/-- A call that has its place and against which nothing speaks is converted. -/
theorem convert_eq_ok (source : List Char) (isStatement : Bool) {span : Span}
    {children : List Node} (h : Fits ok .value (.tree .call (some span) children))
    (hspan : span.start ≤ span.stop)
    (hnone : objection? (.tree .call (some span) children) = none) :
    ∃ conversion, convert source ⟨.tree .call (some span) children, isStatement⟩ =
      .ok conversion := by
  obtain ⟨text, htext⟩ := answers_replacement h hnone
    (isCommand source ⟨.tree .call (some span) children, isStatement⟩)
  have hpatch : ∃ p, Patch.ofSpan span.start span.stop text = .ok p := by
    rw [Patch.ofSpan, dif_pos (by omega)]
    exact ⟨_, rfl⟩
  obtain ⟨p, hp⟩ := hpatch
  simp only [convert, arguments, hnone, bind, Except.bind, htext, Except.mapError, Node.extent?,
    Option.map_some, hp]
  exact ⟨_, rfl⟩

/-- A call against which something speaks is refused. -/
theorem convert_eq_refused (source : List Char) (isStatement : Bool) {span : Option Span}
    {children : List Node} {cause : Cause} (h : Fits ok .value (.tree .call span children))
    (hcause : objection? (.tree .call span children) = some cause) :
    ∃ refusal, convert source ⟨.tree .call span children, isStatement⟩ =
      .error (.refused refusal) := by
  obtain ⟨-, receiver, name, arguments, rfl, hreceiver, harguments⟩ := h.call_parts
  have hprint : Answers ((Node.tree .call span (receiver :: .leaf name :: arguments)).print true) :=
    answers_print_call hreceiver.prints (fun n hn => (harguments n hn).prints) true
  obtain ⟨text, htext⟩ := hprint
  simp only [convert, Migration.arguments, hcause, refuse, htext, bind, Except.bind]
  exact ⟨_, rfl⟩

end XhrKeywords.Migration
