import XhrKeywords.Proofs.Migration.Converted

/-!
# Heredocs of converted calls

The body of a heredoc follows the line of its opener and stays in its place when a call is
converted, so no opener may be lost and openers on one line must keep their order. In keyword style
the headers come before the parameters: the order changes when both open heredocs.
-/

namespace XhrKeywords

open Syntax

namespace Migration

/-- The opener of a heredoc. -/
def opener? : Node → Option String
  | .tree kind _ (.leaf content :: _) =>
    if kind = .str ∧ ['<', '<'].isPrefixOf content.text.toList then some content.text else none
  | _ => none

/-- The openers of the heredocs in a node, from left to right. -/
def openers (n : Node) : List String := n.subtrees.filterMap opener?

theorem openers_absent : openers .absent = [] := rfl

theorem openers_leaf (content : Leaf) : openers (.leaf content) = [] := rfl

/-- The openers in a tree are its own and those of its children. -/
theorem openers_tree (kind : Kind) (span : Option Span) (children : List Node) :
    openers (.tree kind span children) =
      (opener? (.tree kind span children)).toList ++ children.flatMap openers := by
  have hchildren : ∀ nodes : List Node,
      (Node.subtreesAll nodes).filterMap opener? = nodes.flatMap openers := by
    intro nodes
    induction nodes with
    | nil => rfl
    | cons n others ih =>
      rw [Node.subtreesAll_cons, List.filterMap_append, ih, List.flatMap_cons, openers]
  rw [openers, Node.subtrees_tree, List.filterMap_cons, hchildren]
  cases opener? (.tree kind span children) <;> rfl

/-- Only strings open heredocs themselves. -/
theorem openers_of_ne_str (kind : Kind) (h : kind ≠ .str) (span : Option Span)
    (children : List Node) : openers (.tree kind span children) = children.flatMap openers := by
  have hnone : opener? (.tree kind span children) = none := by
    unfold opener?
    split
    · rename_i heq
      injection heq with hkind
      exact if_neg fun hstr => h (hkind.trans hstr.1)
    · rfl
  rw [openers_tree, hnone]
  rfl

/-- A node without children opens no heredoc. -/
theorem openers_of_children_eq_nil {n : Node} (h : n.children = []) : openers n = [] := by
  match n with
  | .absent | .leaf _ => rfl
  | .tree kind span [] =>
    rw [openers_tree]
    simp [opener?]

/-- A keyword opens the heredocs of its value. -/
theorem openers_keyword (name : String) (value : Node) :
    openers (keyword name value) = openers value := by
  have hsymbol : openers (.symbol name) = [] := openers_of_ne_str .sym (by decide) _ _
  rw [keyword, Node.made, openers_of_ne_str .pair (by decide)]
  simp [hsymbol]

/-- The keywords of a request open the heredocs of the headers and then those of the parameters. -/
theorem openers_keywords (params headers : Node) :
    openers (keywords params headers) = openers headers ++ openers params := by
  have hheaders : (headersKeyword headers).flatMap openers = openers headers := by
    cases headers <;> simp [headersKeyword, Node.isAbsent, openers_keyword, openers_absent]
  have hparams : (paramsKeyword params).flatMap openers = openers params := by
    rw [paramsKeyword]
    split
    · rename_i hempty
      exact (openers_of_children_eq_nil (List.isEmpty_iff.mp hempty)).symm
    · simp [openers_keyword]
  have hflag : openers (.made .trueLit []) = [] := openers_of_children_eq_nil rfl
  rw [keywords, Node.made, openers_of_ne_str .hash (by decide), List.flatMap_append,
    List.flatMap_append, hheaders, hparams]
  simp [openers_keyword, hflag]

/-- The heredocs of a replacement. -/
theorem openers_replacementFor (verb : String) (path : Node) (listed : List Node)
    (block : Option Node) :
    openers (replacementFor verb path listed block) =
      openers path ++ (openers (listed.tail.headD .absent) ++ openers (listed.headD .absent)) ++
        block.toList.flatMap openers := by
  rw [replacementFor, Node.made, openers_of_ne_str .call (by decide), List.flatMap_append]
  simp [openers_keywords, openers_absent, openers_leaf, Node.word]

/-- A symbol opens no heredoc. -/
theorem openers_of_symbolName? {ok : Kind → Option Span → Prop} {n : Node} {text : String}
    (h : Fits ok .value n) (hname : n.symbolName? = some text) : openers n = [] := by
  match n with
  | .tree kind span children =>
    obtain rfl : kind = .sym := by
      by_contra hkind
      rw [Node.symbolName?_eq_none hkind] at hname
      cases hname
    cases h with
    | literal hkind fit content => rfl
    | word hkind | series hkind => cases hkind
    | single hkind | couple hkind | operation hkind | modifier hkind | named hkind | call hkind =>
      simp at hkind
  | .absent | .leaf _ => cases hname

/-- Up to two arguments open the heredocs of the first and the second. -/
theorem flatMap_openers {listed : List Node} (h : listed.length ≤ 2) :
    listed.flatMap openers =
      openers (listed.headD .absent) ++ openers (listed.tail.headD .absent) := by
  match listed, h with
  | [], _ => rfl
  | [params], _ => simp [openers_absent]
  | [params, headers], _ => simp

/-- A legacy call that is accepted opens the heredocs of its receiver, its path, its parameters, its
headers and its block. The replacement opens them without those of the receiver and with those of
the headers in front of those of the parameters. -/
theorem openers_replacement {source : String} {tree call : Node} (h : parse source = .ok tree)
    (hcall : call ∈ tree.subtrees) (hlegacy : isLegacyCall call) (hnone : objection? call = none) :
    ∃ path block,
      openers call = openers (call.children.headD .absent) ++ (path ++
        (openers ((trailingArguments call).headD .absent) ++
          openers ((trailingArguments call).tail.headD .absent)) ++ block) ∧
      openers (replacement call (trailingArguments call)) = path ++
        (openers ((trailingArguments call).tail.headD .absent) ++
          openers ((trailingArguments call).headD .absent)) ++ block := by
  obtain ⟨receiver, name, verb, path, others, text, hchildren, hname, -, -, -⟩ :=
    exists_parts_of_objection?_eq_none hnone
  have hlength : (trailingArguments call).length ≤ 2 := by
    rw [objection?] at hnone
    grind
  have hrest := drop_children_of_objection?_eq_none hnone
  have hreplacement : replacement call (trailingArguments call) =
      replacementFor (verb.symbolName?.getD "") path (trailingArguments call)
        (passedBlock? call) := by
    rw [replacement, verbAndPath?, hchildren]
  refine ⟨openers path, (passedBlock? call).toList.flatMap openers, ?_, ?_⟩
  · obtain ⟨span, children, rfl, hfits, -⟩ := placed_of_parse h hcall hlegacy
    obtain ⟨-, _, content, arguments, rfl, -, harguments⟩ := hfits.call_parts
    obtain ⟨rfl, rfl, rfl⟩ : _ = receiver ∧ Node.leaf content = name ∧
      arguments = verb :: path :: others := by simpa [Node.children] using hchildren
    have hverb := openers_of_symbolName? (harguments verb List.mem_cons_self) hname
    have hothers := (congrArg (List.flatMap openers) hrest).trans List.flatMap_append
    rw [flatMap_openers hlength] at hothers
    change others.flatMap openers = _ at hothers
    rw [openers_of_ne_str .call (by decide), Node.children, List.headD_cons, List.flatMap_cons,
      List.flatMap_cons, List.flatMap_cons, List.flatMap_cons, openers_leaf, hverb, hothers]
    simp
  -- The keywords of the replacement are the headers and then the params.
  · rw [hreplacement, openers_replacementFor]

/-- The replacement of an accepted legacy call opens the heredocs of the call in their order exactly
if the receiver opens none, since it is dropped, and those of the headers may as well come in front
of those of the parameters. -/
theorem openers_replacement_eq_iff {source : String} {tree call : Node}
    (h : parse source = .ok tree) (hcall : call ∈ tree.subtrees) (hlegacy : isLegacyCall call)
    (hnone : objection? call = none) :
    openers (replacement call (trailingArguments call)) = openers call ↔
      openers (call.children.headD .absent) = [] ∧
        openers ((trailingArguments call).tail.headD .absent) ++
            openers ((trailingArguments call).headD .absent) =
          openers ((trailingArguments call).headD .absent) ++
            openers ((trailingArguments call).tail.headD .absent) := by
  obtain ⟨path, block, hold, hnew⟩ := openers_replacement h hcall hlegacy hnone
  rw [hold, hnew]
  generalize openers (call.children.headD .absent) = receiver,
    openers ((trailingArguments call).headD .absent) = params,
    openers ((trailingArguments call).tail.headD .absent) = headers
  constructor
  · intro heq
    have hlength := congrArg List.length heq
    simp only [List.length_append] at hlength
    obtain rfl : receiver = [] := List.length_eq_zero_iff.mp (by omega)
    rw [List.nil_append] at heq
    exact ⟨rfl, List.append_cancel_left (List.append_cancel_right heq)⟩
  · rintro ⟨rfl, hsame⟩
    rw [hsame, List.nil_append]

/-- Heredocs in the path and in the parameters keep their order. -/
theorem openers_replacement_params :
    ∃ tree call, parse "xhr :get, <<A, <<B\na\nA\nb\nB\n" = .ok tree ∧ call ∈ tree.subtrees ∧
      isLegacyCall call ∧ objection? call = none ∧ openers call = ["<<A", "<<B"] ∧
      openers (replacement call (trailingArguments call)) = openers call := by
  have hfound : (parse "xhr :get, <<A, <<B\na\nA\nb\nB\n").toOption.any (fun tree =>
      tree.subtrees.any fun call => isLegacyCall call ∧ objection? call = none ∧
        openers call = ["<<A", "<<B"] ∧ openers (call.children.headD .absent) = [] ∧
        openers ((trailingArguments call).tail.headD .absent) = []) = true := by
    decide +kernel
  simp only [Option.any_eq_true, List.any_eq_true, decide_eq_true_eq] at hfound
  obtain ⟨tree, htree, call, hcall, hlegacy, hnone, hopeners, hreceiver, hheaders⟩ := hfound
  have hparse := eq_ok_of_toOption htree
  refine ⟨tree, call, hparse, hcall, hlegacy, hnone, hopeners, ?_⟩
  refine (openers_replacement_eq_iff hparse hcall hlegacy hnone).mpr ⟨hreceiver, ?_⟩
  rw [hheaders, List.nil_append, List.append_nil]

/-- With heredocs in both the bodies are read for the wrong openers. -/
theorem not_tokenize_of_reordered_heredocs :
    migrate "xhr :get, a, <<A, <<B\n1\nA\n2\nB\n" =
        .ok "get a, headers: <<B, params: <<A, xhr: true\n1\nA\n2\nB\n" ∧
      (∃ tokens, Token.tokenize "xhr :get, a, <<A, <<B\n1\nA\n2\nB\n" = .ok tokens) ∧
      ∀ tokens, Token.tokenize "get a, headers: <<B, params: <<A, xhr: true\n1\nA\n2\nB\n" ≠
        .ok tokens := by
  have hold : (Token.tokenize "xhr :get, a, <<A, <<B\n1\nA\n2\nB\n").toOption.isSome = true := by
    decide +kernel
  have hnew : (Token.tokenize
      "get a, headers: <<B, params: <<A, xhr: true\n1\nA\n2\nB\n").toOption.isNone = true := by
    decide +kernel
  obtain ⟨tokens, htokens⟩ := Option.isSome_iff_exists.mp hold
  refine ⟨by decide +kernel, ⟨tokens, eq_ok_of_toOption htokens⟩, ?_⟩
  intro tokens htokens
  rw [htokens] at hnew
  cases hnew

/-- A single heredoc keeps its body. -/
example : migrate "xhr :get, a, <<A\n1\nA\n" = .ok "get a, params: <<A, xhr: true\n1\nA\n" := by
  decide +kernel

end Migration

end XhrKeywords
