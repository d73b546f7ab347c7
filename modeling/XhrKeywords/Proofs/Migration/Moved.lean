import Mathlib.Control.Monad.Basic
import XhrKeywords.Migration.Conversion
import XhrKeywords.Proofs.Grammar.Moved.Program
import XhrKeywords.Proofs.Patch.Moved

/-!
# Converting a source behind a line without tokens

Everything that decides about a call is told by its texts and by differences of places, the
parenthesis behind its name and the heredocs inside it among them. So a line without tokens in
front of a source is kept by the conversion, and what is said about the source is said about the
next line.
-/

namespace XhrKeywords

open Syntax

namespace Migration

instance : Movable Occurrence := ⟨fun d found => { found with call := moved d found.call }⟩

/-- A refusal names the line of its call. -/
instance : Movable Refusal := ⟨fun _ r => { r with line := r.line.map (· + 1) }⟩

instance : Movable Failure where
  moved d
    | .refused refusal => .refused (moved d refusal)
    | .print error => .print error
    | .patch error => .patch (moved d error)

instance : Movable Conversion where
  moved d c := { c with line := c.line.map (· + 1), patch := moved d c.patch }

variable {d : Nat}

/-- A call is a legacy call wherever it lies. -/
theorem isLegacyCall_moved (n : Node) : isLegacyCall (moved d n) = isLegacyCall n := by
  match n with
  | .absent | .leaf _ => rfl
  | .tree kind _ [] | .tree kind _ [_] | .tree kind _ (_ :: .absent :: _)
  | .tree kind _ (_ :: .leaf _ :: _) | .tree kind _ (_ :: .tree .. :: _) => cases kind <;> rfl

/-- A tree and whether it is a statement, moved. -/
def movedTree (d : Nat) (found : Node × Bool) : Node × Bool := (moved d found.1, found.2)

mutual

/-- The trees of a moved one are moved, and statements stay statements. -/
theorem statementTrees_relocate (isStatement : Bool) (n : Node) :
    statementTrees isStatement (n.relocate d) =
      (statementTrees isStatement n).map (movedTree d) := by
  cases n with
  | absent | leaf _ => rfl
  | tree kind span children =>
    rw [Node.relocate, statementTrees, statementTrees, List.map_cons,
      statementTreesAll_relocateAll]
    rfl

/-- The trees of moved nodes, one node after another. -/
theorem statementTreesAll_relocateAll (areStatements : Bool) (nodes : List Node) :
    statementTreesAll areStatements (Node.relocateAll d nodes) =
      (statementTreesAll areStatements nodes).map (movedTree d) := by
  cases nodes with
  | nil => rfl
  | cons n others =>
    rw [Node.relocateAll, statementTreesAll, statementTreesAll, List.map_append,
      statementTrees_relocate, statementTreesAll_relocateAll]

end

/-- The legacy calls of a moved tree. -/
theorem occurrences_moved (tree : Node) :
    occurrences (moved d tree) = moved d (occurrences tree) := by
  have htrees : statementTrees false (moved d tree) =
      (statementTrees false tree).map (movedTree d) := statementTrees_relocate false tree
  rw [occurrences, occurrences, htrees, List.filterMap_map]
  change _ = List.map _ _
  rw [List.map_filterMap]
  refine congrArg (List.filterMap · _) (funext fun found => ?_)
  simp only [Function.comp, movedTree, isLegacyCall_moved]
  split <;> rfl

/-- The children of a moved node are the moved children. -/
theorem children_moved (n : Node) : (moved d n).children = moved d n.children :=
  (n.children_relocate d).trans (Node.relocateAll_eq d _)

/-- The kind of a node stays. -/
theorem isKind_moved (n : Node) (kind : Kind) : (moved d n).isKind kind = n.isKind kind :=
  n.isKind_relocate d kind

/-- A symbol keeps its name. -/
theorem symbolName?_moved (n : Node) : (moved d n).symbolName? = n.symbolName? := by
  match n with
  | .absent | .leaf _ => rfl
  | .tree kind _ [] | .tree kind _ (.absent :: _) | .tree kind _ (.leaf _ :: _)
  | .tree kind _ (.tree .. :: _) => cases kind <;> rfl

/-- The first two arguments are told by their order. -/
theorem verbAndPath?_moved (call : Node) :
    verbAndPath? (moved d call) = (verbAndPath? call).map (moved d) := by
  rw [verbAndPath?, verbAndPath?, children_moved]
  match call.children with
  | [] | [_] | [_, _] | [_, _, _] | _ :: _ :: _ :: _ :: _ => rfl

/-- A block that is passed is told by its kind. -/
theorem passedBlock?_moved (call : Node) :
    passedBlock? (moved d call) = (passedBlock? call).map (moved d) := by
  rw [passedBlock?, passedBlock?, children_moved]
  rcases call.children with _ | ⟨_, _ | ⟨_, arguments⟩⟩
  · rfl
  · rfl
  · have hkind : ((·.isKind .blockPass) ∘ moved d) = fun n : Node => n.isKind .blockPass :=
      funext fun n => isKind_moved n .blockPass
    change (arguments.map (moved d)).getLast?.filter _ = (arguments.getLast?.filter _).map _
    rw [List.getLast?_map, Option.filter_map, hkind]

/-- The arguments behind the path are told by their order. -/
theorem trailingArguments_moved (call : Node) :
    trailingArguments (moved d call) = moved d (trailingArguments call) := by
  have hdrop : (moved d call.children).drop 4 = moved d (call.children.drop 4) := List.map_drop.symm
  have hlast : (moved d (call.children.drop 4)).dropLast =
      moved d (call.children.drop 4).dropLast := List.map_dropLast.symm
  rw [trailingArguments, trailingArguments, passedBlock?_moved, Option.isSome_map, children_moved,
    hdrop, hlast]
  split <;> rfl

/-- The first key of a hash keeps its name. -/
theorem firstKey?_moved (n : Node) : firstKey? (moved d n) = firstKey? n := by
  match n with
  | .absent | .leaf _ => rfl
  | .tree kind _ [] | .tree kind _ (.absent :: _) | .tree kind _ (.leaf _ :: _) =>
    cases kind <;> rfl
  | .tree kind _ (.tree inner _ [] :: _) =>
    cases kind with
    | hash => cases inner <;> rfl
    | _ => rfl
  | .tree kind span (.tree inner innerSpan (key :: others) :: behind) =>
    cases kind with
    | hash =>
      cases inner with
      | pair => exact symbolName?_moved key
      | _ => rfl
    | _ => rfl

/-- Arguments that are migrated already stay so. -/
theorem areMigrated_moved (arguments : List Node) :
    areMigrated (moved d arguments) = areMigrated arguments := by
  match arguments with
  | [] | _ :: _ :: _ => rfl
  | [only] => exact congrArg (Option.any _) (firstKey?_moved only)

/-- An argument with a star keeps it. -/
theorem isSplatted_moved (n : Node) : isSplatted (moved d n) = isSplatted n := by
  rw [isSplatted, isSplatted, isKind_moved, isKind_moved]

/-- Whether any argument has a star does not depend on the place. -/
theorem any_isSplatted_moved (arguments : List Node) :
    (moved d arguments).any isSplatted = arguments.any isSplatted := by
  change (arguments.map (moved d)).any _ = _
  rw [List.any_map]
  exact congrArg (List.any _) (funext isSplatted_moved)

/-- A heredoc opens before a line as its moved form does before the next one. -/
theorem opensHeredocBefore_moved (line : Nat) (n : Node) :
    opensHeredocBefore (line + 1) (moved d n) = opensHeredocBefore line n := by
  match n with
  | .absent | .leaf _ => rfl
  | .tree kind _ [] | .tree kind _ (.absent :: _) | .tree kind _ (.tree .. :: _) =>
    cases kind <;> rfl
  | .tree kind span (.leaf ⟨role, text, place⟩ :: others) =>
    obtain ⟨placeLine, _, _, _, _, _⟩ := place
    have hline : (placeLine.map (· + 1)).any (· < line + 1) = placeLine.any (· < line) := by
      cases placeLine <;> simp
    cases kind <;> first | rfl | exact congrArg (['<', '<'].isPrefixOf text.toList && ·) hline

mutual

/-- The subtrees of a moved node are the moved ones. -/
theorem subtrees_relocate (n : Node) :
    (n.relocate d).subtrees = n.subtrees.map (Node.relocate d) := by
  cases n with
  | absent | leaf _ => rfl
  | tree kind span children =>
    rw [Node.relocate, Node.subtrees, Node.subtrees, List.map_cons, subtreesAll_relocateAll,
      Node.relocate]

/-- The subtrees of moved nodes, one node after another. -/
theorem subtreesAll_relocateAll (nodes : List Node) :
    Node.subtreesAll (Node.relocateAll d nodes) =
      (Node.subtreesAll nodes).map (Node.relocate d) := by
  cases nodes with
  | nil => rfl
  | cons n others =>
    rw [Node.relocateAll, Node.subtreesAll, Node.subtreesAll, List.map_append, subtrees_relocate,
      subtreesAll_relocateAll]

end

/-- The body of a heredoc lies inside the call if both are moved. -/
theorem hasHeredocInside_moved (n : Node) :
    hasHeredocInside (moved d n) = hasHeredocInside n := by
  match n with
  | .absent | .leaf _ | .tree _ none _ => rfl
  | .tree kind (some span) children =>
    have hsubtrees : (moved d (Node.tree kind (some span) children)).subtrees =
        (Node.tree kind (some span) children).subtrees.map (moved d) := subtrees_relocate _
    rw [Node.moved_tree, Option.map_some] at hsubtrees ⊢
    rw [hasHeredocInside, hasHeredocInside, hsubtrees, List.any_map]
    exact congrArg (List.any _) (funext (opensHeredocBefore_moved span.endLine))

/-- The verb of a call is a text. -/
theorem verb?_moved (call : Node) : verb? (moved d call) = verb? call := by
  rw [verb?, verb?, verbAndPath?_moved]
  cases verbAndPath? call with
  | none => rfl
  | some found =>
    obtain ⟨verb, path⟩ := found
    change (moved d verb).symbolName?.filter (fun name => _ && !isSplatted (moved d path)) = _
    rw [symbolName?_moved, isSplatted_moved]

/-- The same speaks against a moved call. -/
theorem objection?_moved (call : Node) : objection? (moved d call) = objection? call := by
  have hlength : (moved d (trailingArguments call)).length = (trailingArguments call).length :=
    List.length_map _
  rw [objection?, objection?, trailingArguments_moved, areMigrated_moved, hlength, verb?_moved,
    any_isSplatted_moved, hasHeredocInside_moved]

/-- The line of a node is one further down behind a line in front. -/
theorem line?_moved (n : Node) : (moved d n).line? = n.line?.map (· + 1) := by
  cases n with
  | absent | leaf _ => rfl
  | tree kind span children => cases span <;> rfl

/-- A refusal names the moved line. -/
theorem refuse_moved (call : Node) (cause : Cause) :
    refuse (moved d call) cause = moved d (refuse call cause) := by
  rw [refuse, refuse, Node.print_moved, line?_moved]
  cases call.print true <;> rfl

/-- The arguments of a call move with it. -/
theorem arguments_moved (call : Node) :
    arguments (moved d call) = moved d (arguments call) := by
  rw [arguments, arguments, objection?_moved, trailingArguments_moved]
  cases objection? call with
  | some cause => exact congrArg Except.error (refuse_moved call cause)
  | none => rfl

/-- The first node moves, and a missing one stays missing. -/
theorem headD_moved (nodes : List Node) :
    (moved d nodes).headD .absent = moved d (nodes.headD .absent) := by
  cases nodes <;> rfl

/-- The pair of headers moves with its value. -/
theorem headersKeyword_moved (headers : Node) :
    headersKeyword (moved d headers) = moved d (headersKeyword headers) := by
  have habsent : (moved d headers).isAbsent = headers.isAbsent := headers.isAbsent_relocate d
  rw [headersKeyword, headersKeyword, habsent]
  split <;> rfl

/-- The pair of params moves with its value, unless it is empty. -/
theorem paramsKeyword_moved (params : Node) :
    paramsKeyword (moved d params) = moved d (paramsKeyword params) := by
  have hempty : (moved d params).children.isEmpty = params.children.isEmpty := by
    rw [children_moved]
    exact List.isEmpty_map
  rw [paramsKeyword, paramsKeyword, hempty]
  split <;> rfl

/-- What is made for a conversion has no place; only what is taken from the call is moved. -/
theorem replacementFor_moved (verb : String) (path : Node) (listed : List Node)
    (block : Option Node) :
    replacementFor verb (moved d path) (moved d listed) (block.map (moved d)) =
      moved d (replacementFor verb path listed block) := by
  have htail : (moved d listed).tail = moved d listed.tail := List.map_tail.symm
  have hblock : (block.map (moved d)).toList = moved d block.toList := by cases block <;> rfl
  rw [replacementFor, replacementFor, htail, headD_moved, headD_moved, hblock, keywords,
    headersKeyword_moved, paramsKeyword_moved, Node.made, Node.made, keywords]
  simp only [Node.made, Node.moved_tree, moved_append, moved_cons, moved_nil, Node.moved_absent,
    Option.map_none]
  rfl

/-- The replacement is built of the moved parts. -/
theorem replacement_moved (call : Node) (listed : List Node) :
    replacement (moved d call) (moved d listed) = moved d (replacement call listed) := by
  rw [replacement, replacement, verbAndPath?_moved, passedBlock?_moved]
  cases verbAndPath? call with
  | none => rfl
  | some found =>
    obtain ⟨verb, path⟩ := found
    change replacementFor ((moved d verb).symbolName?.getD "") (moved d path) _ _ = _
    rw [symbolName?_moved, replacementFor_moved]

/-- A parenthesis behind the name of a call stays behind it. -/
theorem hasParens_moved (front source : List Char) (call : Node) :
    hasParens (front ++ source) (moved front.length call) = hasParens source call := by
  rw [hasParens, hasParens, children_moved]
  match call.children with
  | [] | [_] | _ :: .absent :: _ | _ :: .tree .. :: _ => rfl
  | _ :: .leaf ⟨role, text, place⟩ :: _ =>
    obtain ⟨_, _, _, _, _, stop⟩ := place
    cases stop with
    | none => rfl
    | some stop =>
      exact congrArg (fun rest : List Char => rest.head? == some '(')
        (Patch.drop_front front source stop)

/-- A call is converted to a patch further behind. -/
theorem convert_moved (front source : List Char) (found : Occurrence) :
    convert (front ++ source) (moved front.length found) =
      moved front.length (convert source found) := by
  obtain ⟨call, isStatement⟩ := found
  have hcommand : isCommand (front ++ source) (moved front.length ⟨call, isStatement⟩) =
      isCommand source ⟨call, isStatement⟩ :=
    congrArg (isStatement || !·) (hasParens_moved front source call)
  rw [convert, convert, hcommand]
  change (arguments (moved front.length call) >>= _) = _
  rw [arguments_moved]
  refine bind_moved fun listed => ?_
  change ((replacement (moved _ call) (moved _ listed)).print _).mapError _ >>= _ = _
  rw [replacement_moved, Node.print_moved]
  cases (replacement call listed).print (isCommand source ⟨call, isStatement⟩) with
  | error e => rfl
  | ok text =>
    have hextent : (moved front.length (⟨call, isStatement⟩ : Occurrence)).call.extent? = _ :=
      call.extent?_relocate front.length
    rw [hextent]
    cases call.extent? with
    | none => rfl
    | some extent =>
      obtain ⟨start, stop⟩ := extent
      change ((Patch.ofSpan ↑(start + front.length) ↑(stop + front.length) text).mapError _ >>= _) =
        moved front.length ((Patch.ofSpan start stop text).mapError _ >>= _)
      rw [Patch.ofSpan_moved, Patch.slice_front]
      cases Patch.ofSpan start stop text with
      | error e => rfl
      | ok patch =>
        exact congrArg (fun line => Except.ok (Conversion.mk line _ _)) (line?_moved call)

/-- Calls are converted up to the first one that is refused. -/
theorem convertAll_moved (front source : List Char) (calls : List Occurrence) :
    convertAll (front ++ source) (moved front.length calls) =
      (moved front.length (convertAll source calls).1,
        (convertAll source calls).2.map (moved front.length)) := by
  induction calls with
  | nil => rfl
  | cons found others ih =>
    rw [moved_cons, convertAll, convertAll, convert_moved]
    cases convert source found with
    | error failure => rfl
    | ok conversion => rw [moved_ok, ih]; rfl

/-- The calls of a tree are converted behind a front as they are without it. -/
theorem convertTree_moved (front source : String) (tree : Node) :
    convertTree (front ++ source) (moved front.length tree) =
      ⟨moved front.length (convertTree source tree).conversions,
        ((convertTree source tree).result.mapError (moved front.length)).map (front ++ ·)⟩ := by
  have hpatches (conversions : List Conversion) :
      (moved front.length conversions).map (·.patch) =
        moved front.length (conversions.map (·.patch)) := by
    induction conversions with
    | nil => rfl
    | cons c others ih => exact congrArg (moved front.length c.patch :: ·) ih
  rw [convertTree, convertTree, occurrences_moved, String.toList_append, ← String.length_toList,
    convertAll_moved, String.length_toList]
  obtain ⟨conversions, failure⟩ := convertAll source.toList (occurrences tree)
  cases failure with
  | some failure => rfl
  | none =>
    dsimp only [Option.map_none]
    rw [hpatches, Patch.apply_front]
    cases Patch.apply source (conversions.map (·.patch)) <;> rfl

end Migration

/-- A moved error has the same cause and the same texts. -/
instance : Movable MigrationError where
  moved d
    | .read error => .read (moved d error)
    | .failed failure => .failed (moved d failure)

/-- A line in front of a source moves everything that is read and found in the source, and is kept
in front of what the source becomes. -/
structure Shifts (front source : String) : Prop where
  /-- The tokens are the moved tokens. -/
  tokens : Token.tokenize (front ++ source) = moved front.length (Token.tokenize source)
  /-- The tree is the moved tree. -/
  tree : parse (front ++ source) = moved front.length (parse source)
  /-- The conversions, with their patches, are the moved conversions. -/
  conversions (tree : Syntax.Node) :
    (Migration.convertTree (front ++ source) (moved front.length tree)).conversions =
      moved front.length (Migration.convertTree source tree).conversions
  /-- The new text is the new text behind the line. -/
  migrated (text : String) (h : migrate source = .ok text) :
    migrate (front ++ source) = .ok (front ++ text)
  /-- A failure is the same one on the next line. -/
  failed (e : MigrationError) (h : migrate source = .error e) :
    migrate (front ++ source) = .error (moved front.length e)

/-- A source is converted behind a line without tokens as it is without the line. -/
theorem migrate_tokenFree {front : String} (hfront : Token.TokenFree front.toList)
    (source : String) :
    migrate (front ++ source) =
      ((migrate source).mapError (moved front.length)).map (front ++ ·) := by
  rw [migrate, migrate, parse_tokenFree hfront]
  cases parse source with
  | error e => rfl
  | ok tree =>
    change (Migration.convertTree _ (moved _ tree)).result.mapError _ = _
    rw [Migration.convertTree_moved]
    change _ = (((Migration.convertTree source tree).result.mapError _).mapError _).map _
    cases (Migration.convertTree source tree).result <;> rfl

/-- A line break, or a comment with its line break, shifts a source. -/
theorem shifts_of_tokenFree {front : String} (hfront : Token.TokenFree front.toList)
    (source : String) : Shifts front source where
  tokens := Token.tokenize_tokenFree hfront source
  tree := parse_tokenFree hfront source
  conversions tree := by rw [Migration.convertTree_moved]
  migrated text h := by rw [migrate_tokenFree hfront, h]; rfl
  failed e h := by rw [migrate_tokenFree hfront, h]; rfl

/-- A comment in front is kept, and the report of a failure names the next line. -/
theorem shifts_behind_comment :
    Token.TokenFree "# old\n".toList ∧
      migrate ("# old\n" ++ "xhr :get, a") = .ok ("# old\n" ++ "get a, xhr: true") ∧
      migrate ("# old\n" ++ "xhr 1, a") =
        .error (.failed (.refused ⟨.noVerbOrPath, "xhr 1, a", some 2⟩)) := by
  have hline : "# old\n".toList = '#' :: [' ', 'o', 'l', 'd'] ++ ['\n'] := by decide +kernel
  have hfront : Token.TokenFree "# old\n".toList := by
    rw [hline]
    exact .comment (by simp)
  have hmigrate : migrate "xhr :get, a" = .ok "get a, xhr: true" := by decide +kernel
  have hfails : migrate "xhr 1, a" =
      .error (.failed (.refused ⟨.noVerbOrPath, "xhr 1, a", some 1⟩)) := by decide +kernel
  have hfailed := (shifts_of_tokenFree hfront "xhr 1, a").failed _ hfails
  exact ⟨hfront, (shifts_of_tokenFree hfront "xhr :get, a").migrated _ hmigrate, hfailed⟩

/-- A blank line in front is kept. -/
example : migrate "\nxhr :get, a" = .ok "\nget a, xhr: true" := by decide +kernel

end XhrKeywords
