import XhrKeywords.Proofs.Migration.Convertible
import XhrKeywords.Proofs.Migration.Overlap

/-!
# What replacements carry

The replacement of a legacy call passes on its path, its headers and its block. The parameters are
left out when they are a tree without children, which is right for `nil` and empty literals but not
for values that have no children to begin with, such as `self` and `true`.
-/

namespace XhrKeywords

open Syntax

namespace Migration

/-- Whether a node is `nil` or an empty literal. -/
def isBlank : Node → Bool
  | .tree .nilLit _ _ => true
  | .tree kind _ [] => kind == .hash || kind == .array || kind == .paren
  | _ => false

/-- The kinds of values and jumps that a keyword stands for, alone or with empty parentheses. -/
def isBareKind : Kind → Bool
  | .selfRef | .trueLit | .falseLit | .zsuper | .superCall | .yieldCall | .redoStmt | .retryStmt
  | .returnStmt | .breakStmt | .nextStmt => true
  | _ => false

/-- Whether a node is such a keyword. -/
def isBare : Node → Bool
  | .tree kind _ [] => isBareKind kind
  | _ => false

/-- The pairs of the keywords that follow the path of a call. -/
def options (call : Node) : List Node := (call.children.getD 3 .absent).children

/-- The replacement of a call with the listed arguments carries all that the call passes, but for
parameters that are `nil` or an empty literal. -/
structure Carries (call : Node) (listed : List Node) : Prop where
  rest : call.children.drop 4 = listed ++ (passedBlock? call).toList
  path : ∃ verb path, verbAndPath? call = some (verb, path) ∧
    (replacement call listed).children[2]? = some path
  block (b : Node) (h : passedBlock? call = some b) :
    passedBlock? (replacement call listed) = some b
  headers (n : Node) (h : listed[1]? = some n) :
    keyword "headers" n ∈ options (replacement call listed)
  params (n : Node) (h : listed[0]? = some n) (hblank : isBlank n = false) :
    keyword "params" n ∈ options (replacement call listed)

/-- A call against which nothing speaks has a verb and a path, and neither the path nor one of the
other arguments stands for several. -/
theorem exists_parts_of_objection?_eq_none {call : Node} (h : objection? call = none) :
    ∃ receiver name verb path others text,
      call.children = receiver :: name :: verb :: path :: others ∧
      verb.symbolName? = some text ∧ verb? call = some text ∧
      isSplatted path = false ∧ ∀ n ∈ trailingArguments call, isSplatted n = false := by
  have hcauses : (verb? call).isNone = false ∧ (trailingArguments call).any isSplatted = false := by
    rw [objection?] at h
    grind
  obtain ⟨hverb, hlisted⟩ := hcauses
  rw [List.any_eq_false] at hlisted
  obtain ⟨text, htext⟩ := Option.isSome_iff_exists.mp (Option.isNone_eq_false_iff.mp hverb)
  have hfilter := htext
  rw [verb?, verbAndPath?] at hfilter
  rcases hchildren : call.children with _ | ⟨receiver, _ | ⟨name, _ | ⟨verb, _ | ⟨path, others⟩⟩⟩⟩
  case cons.cons.cons.cons =>
    simp only [hchildren, Option.filter_eq_some_iff, Bool.and_eq_true, Bool.not_eq_true'] at hfilter
    obtain ⟨hname, -, hpath⟩ := hfilter
    exact ⟨receiver, name, verb, path, others, text, rfl, hname, htext, hpath,
      fun n hn => by simpa using hlisted n hn⟩
  all_goals simp [hchildren] at hfilter

/-- The arguments behind the path are the trailing ones and the passed block. -/
theorem drop_children_of_objection?_eq_none {call : Node} (h : objection? call = none) :
    call.children.drop 4 = trailingArguments call ++ (passedBlock? call).toList := by
  obtain ⟨receiver, name, verb, path, others, -, hchildren, -, -, hpath, -⟩ :=
    exists_parts_of_objection?_eq_none h
  rw [trailingArguments, passedBlock?, hchildren]
  simp only [List.drop_succ_cons, List.drop_zero]
  rcases List.eq_nil_or_concat others with rfl | ⟨front, last, rfl⟩
  · -- The path would be the block, but it is one argument.
    have hno : path.isKind .blockPass = false := (Bool.or_eq_false_iff.mp hpath).2
    simp [hno]
  · have hlast : (verb :: path :: front.concat last).getLast? = some last := by
      rw [List.concat_eq_append, ← List.cons_append, ← List.cons_append, List.getLast?_concat]
    rw [hlast, Option.filter_some]
    cases last.isKind .blockPass <;> simp

/-- A keyword for the parameters is none of the others. -/
theorem paramsKeyword_mem_keywords_iff {params headers : Node} :
    keyword "params" params ∈ (keywords params headers).children ↔ params.children ≠ [] := by
  have hheaders : keyword "params" params ∉ headersKeyword headers := by
    rw [headersKeyword]
    split <;> simp [keyword, Node.made, Node.symbol, Node.word]
  have hlegacy : keyword "params" params ≠ keyword legacyMethod (.made .trueLit []) := by
    simp [keyword, legacyMethod, Node.made, Node.symbol, Node.word]
  rw [keywords, Node.made, Node.children, List.mem_append, List.mem_append, List.mem_singleton]
  simp [hheaders, hlegacy, paramsKeyword]

/-- The keywords of a replacement are those of the arguments. -/
theorem options_replacement {call verb path : Node} (listed : List Node)
    (h : verbAndPath? call = some (verb, path)) :
    options (replacement call listed) =
      (keywords (listed.headD .absent) (listed.tail.headD .absent)).children := by
  rw [replacement, h]
  rfl

/-- Headers that are not left out have a keyword. -/
theorem headersKeyword_mem_keywords {params headers : Node} (h : headers.isAbsent = false) :
    keyword "headers" headers ∈ (keywords params headers).children := by
  rw [keywords, Node.made, Node.children, List.append_assoc]
  refine List.mem_append_left _ ?_
  simp [headersKeyword, h]

/-- A block is passed by the replacement as well. -/
theorem passedBlock?_replacementFor {call b : Node} (verb : String) (path : Node)
    (listed : List Node) (h : passedBlock? call = some b) :
    passedBlock? (replacementFor verb path listed (some b)) = some b := by
  have hkind : b.isKind .blockPass = true := by
    rw [passedBlock?] at h
    split at h
    · exact (Option.filter_eq_some_iff.mp h).2
    · cases h
  change Option.filter (·.isKind .blockPass) (some b) = some b
  rw [Option.filter_some, if_pos hkind]

/-- The trailing arguments of a call that is read from a source have children unless their kinds do
without. -/
theorem filled_of_mem_trailingArguments {source : String} {tree call n : Node}
    (h : parse source = .ok tree) (hcall : call ∈ tree.subtrees) (hlegacy : isLegacyCall call)
    (hn : n ∈ trailingArguments call) : n.Filled := by
  obtain ⟨tokens, hi, -, hnested⟩ := nested_of_parse h
  obtain ⟨span, children, rfl, hfit, -⟩ :=
    hnested.sits_in hcall (isKind_of_isLegacyCall hlegacy)
  have hmem := mem_of_mem_trailingArguments hn
  exact hfit.filled n (List.drop_subset_drop_left _ (by decide) hmem)

/-- A value without children that does not stand for several is `nil`, an empty literal or a
keyword. -/
theorem isBare_iff_of_filled {n : Node} (h : n.Filled) (hone : isSplatted n = false) :
    isBare n ↔ n.children = [] ∧ isBlank n = false := by
  cases n with
  | absent | leaf _ => cases h
  | tree kind span children =>
    cases children with
    | cons child others => simp [isBare, Node.children]
    | nil =>
      have hkind := h rfl
      cases kind <;> simp_all [Kind.mayBeEmpty, isBare, isBareKind, isBlank, isSplatted,
        Node.isKind, Node.kind?, Node.children]

end Migration

open Migration in
/-- The replacement of a call that is accepted carries all that the call passes, but for parameters
that are `nil` or an empty literal, exactly when the parameters are not a keyword without
arguments. -/
theorem carries_iff {source : String} {tree call : Node} {listed : List Node}
    (h : parse source = .ok tree) (hcall : call ∈ tree.subtrees) (hlegacy : isLegacyCall call)
    (haccepted : arguments call = .ok listed) :
    Carries call listed ↔ ∀ params ∈ listed[0]?, isBare params = false := by
  have hnone := exists_arguments_eq_ok_iff.mp ⟨listed, haccepted⟩
  have hlisted : trailingArguments call = listed := by
    rw [arguments, hnone] at haccepted
    exact Except.ok.inj haccepted
  obtain ⟨receiver, name, verb, path, others, text, hchildren, -, -, -, hone⟩ :=
    exists_parts_of_objection?_eq_none hnone
  have hfilled : ∀ n ∈ listed, n.Filled :=
    fun n hn => filled_of_mem_trailingArguments h hcall hlegacy (hlisted.symm ▸ hn)
  have hchildless : ∀ n ∈ listed, isBare n ↔ n.children = [] ∧ isBlank n = false :=
    fun n hn => isBare_iff_of_filled (hfilled n hn) (hone n (hlisted ▸ hn))
  have hverb : verbAndPath? call = some (verb, path) := by
    rw [verbAndPath?, hchildren]
  have hreplacement : replacement call listed =
      replacementFor (verb.symbolName?.getD "") path listed (passedBlock? call) := by
    rw [replacement, hverb]
  have hoptions := options_replacement listed hverb
  have hrest := drop_children_of_objection?_eq_none hnone
  rw [hlisted] at hrest
  constructor
  -- A value without children is dropped though it is not blank, so it would have to be carried.
  · intro hcarries params hparams
    refine Bool.eq_false_iff.mpr fun hbare => ?_
    obtain ⟨hempty, hblank⟩ := (hchildless params (List.mem_of_getElem? hparams)).mp hbare
    have hmem := hcarries.params params hparams hblank
    obtain ⟨_, rfl⟩ := List.head?_eq_some_iff.mp (List.head?_eq_getElem?.trans hparams)
    rw [hoptions] at hmem
    exact paramsKeyword_mem_keywords_iff.mp hmem hempty
  · intro hbare
    refine ⟨hrest, ⟨verb, path, hverb, ?_⟩, ?_, ?_, ?_⟩
    · rw [hreplacement]
      rfl
    · intro b hb
      rw [hreplacement, hb]
      exact passedBlock?_replacementFor _ _ _ hb
    · intro headers hheaders
      obtain ⟨params, rest, rfl⟩ : ∃ params rest, listed = params :: headers :: rest := by
        rcases listed with _ | ⟨params, _ | ⟨second, rest⟩⟩
        · cases hheaders
        · cases hheaders
        · cases hheaders
          exact ⟨params, rest, rfl⟩
      have hhere : headers.isAbsent = false := by
        have hfill := hfilled headers (List.mem_cons_of_mem _ List.mem_cons_self)
        cases headers with
        | absent => cases hfill
        | leaf _ | tree _ _ _ => rfl
      rw [hoptions]
      exact headersKeyword_mem_keywords hhere
    · intro params hparams hblank
      -- What is not blank has children here, so the test on children keeps it.
      have hsome : params.children ≠ [] := fun hempty => by
        have hyes := (hchildless params (List.mem_of_getElem? hparams)).mpr ⟨hempty, hblank⟩
        rw [hbare params hparams] at hyes
        cases hyes
      obtain ⟨rest, rfl⟩ := List.head?_eq_some_iff.mp (List.head?_eq_getElem?.trans hparams)
      rw [hoptions]
      exact paramsKeyword_mem_keywords_iff.mpr hsome

open Migration in
/-- Next to `nil` in place of the parameters, the headers and the block are carried. -/
theorem carries_headers_and_block :
    ∃ tree call listed, parse "xhr :get, a, nil, b, &c" = .ok tree ∧ call ∈ tree.subtrees ∧
      isLegacyCall call ∧ arguments call = .ok listed ∧ listed.length = 2 ∧
      (passedBlock? call).isSome ∧ Carries call listed := by
  have hread : (parse "xhr :get, a, nil, b, &c").toOption.any (fun tree =>
      tree.subtrees.any fun call => isLegacyCall call && (objection? call).isNone &&
        ((trailingArguments call).map isBare == [false, false] &&
          (passedBlock? call).isSome)) = true := by
    decide +kernel
  simp only [Option.any_eq_true, List.any_eq_true, Bool.and_eq_true, beq_iff_eq,
    Option.isNone_iff_eq_none] at hread
  obtain ⟨tree, htree, call, hcall, ⟨hlegacy, hnone⟩, hbare, hblock⟩ := hread
  have haccepted : arguments call = .ok (trailingArguments call) := by
    rw [arguments, hnone]
  have hparse := eq_ok_of_toOption htree
  have hcarries := carries_iff hparse hcall hlegacy haccepted
  refine ⟨tree, call, trailingArguments call, hparse, hcall, hlegacy, haccepted, ?_, hblock,
    hcarries.mpr fun params hparams => ?_⟩
  · rw [← List.length_map (f := isBare), hbare]
    rfl
  · have hmem := List.mem_map_of_mem (f := isBare) (List.mem_of_getElem? hparams)
    rw [hbare] at hmem
    simpa using hmem

open Migration in
/-- The parameters `self` are lost. -/
theorem not_carries_self :
    migrate "xhr :get, a, self" = .ok "get a, xhr: true" ∧
      ∃ tree call listed, parse "xhr :get, a, self" = .ok tree ∧ call ∈ tree.subtrees ∧
        isLegacyCall call ∧ arguments call = .ok listed ∧ ¬ Carries call listed := by
  refine ⟨by decide +kernel, ?_⟩
  have hread : (parse "xhr :get, a, self").toOption.any (fun tree =>
      tree.subtrees.any fun call => isLegacyCall call && (objection? call).isNone &&
        (verbAndPath? call).isSome && (trailingArguments call).head?.any fun params =>
          params.children.isEmpty && !isBlank params) = true := by
    decide +kernel
  simp only [Option.any_eq_true, List.any_eq_true, Bool.and_eq_true, Option.isNone_iff_eq_none,
    Option.isSome_iff_exists, List.isEmpty_iff, Bool.not_eq_true', Prod.exists] at hread
  obtain ⟨tree, htree, call, hcall, ⟨⟨hlegacy, hnone⟩, verb, path, hverb⟩, params, hparams, hempty,
    hblank⟩ := hread
  refine ⟨tree, call, trailingArguments call, eq_ok_of_toOption htree, hcall, hlegacy, ?_, ?_⟩
  · rw [arguments, hnone]
  · intro hcarries
    have hmem := hcarries.params params (List.head?_eq_getElem?.symm.trans hparams) hblank
    obtain ⟨rest, hlisted⟩ := List.head?_eq_some_iff.mp hparams
    rw [options_replacement _ hverb, hlisted] at hmem
    exact paramsKeyword_mem_keywords_iff.mp hmem hempty

/-- Empty parameters are left out, and the headers behind them are kept. -/
example : migrate "xhr :get, a, \x7b\x7d, b" = .ok "get a, headers: b, xhr: true" := by
  decide +kernel

end XhrKeywords
