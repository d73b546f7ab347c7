import XhrKeywords.Proofs.Grammar.Reread.Command
import XhrKeywords.Proofs.Migration.Frame
import XhrKeywords.Proofs.Migration.Quiet

/-!
# Printed calls are converted into printed calls

A legacy call of plain expressions that stands alone and is printed in command style is converted
into its replacement, printed in the same style, and the replacement is left as it is.
-/

namespace XhrKeywords

open Syntax

namespace Migration

theorem erase_keyword (name : String) (value : Node) :
    (keyword name value).erase = keyword name value.erase := by
  simp [keyword, Node.symbol]

theorem erase_keywords (params headers : Node) :
    (keywords params headers).erase = keywords params.erase headers.erase := by
  have hheaders : (headersKeyword headers).map Node.erase = headersKeyword headers.erase := by
    rw [headersKeyword, headersKeyword, Node.isAbsent_erase]
    split
    · rfl
    · rw [List.map_singleton, erase_keyword]
  have hparams : (paramsKeyword params).map Node.erase = paramsKeyword params.erase := by
    rw [paramsKeyword, paramsKeyword, Node.children_erase, List.isEmpty_map]
    split
    · rfl
    · rw [List.map_singleton, erase_keyword]
  rw [keywords, Node.erase_made, List.map_append, List.map_append, hheaders, hparams,
    List.map_singleton, erase_keyword]
  simp [keywords]

/-- Places make no difference to the replacement of a call. -/
theorem erase_replacementFor (verb : String) (path : Node) (listed : List Node) :
    (replacementFor verb path listed none).erase =
      replacementFor verb path.erase (listed.map Node.erase) none := by
  have hhead : ∀ nodes : List Node,
      (nodes.headD .absent).erase = (nodes.map Node.erase).headD .absent := by
    rintro (_ | _) <;> rfl
  simp only [replacementFor, Node.erase_made, Option.toList_none, List.append_nil, List.map_cons,
    List.map_nil, erase_keywords, hhead, List.map_tail, Node.erase_absent, Node.erase_word]

/-- The keywords of a request are plain where its parameters and headers are. -/
theorem plain_keywords {params headers : Node} (hparams : params = .absent ∨ Plain params)
    (hheaders : headers = .absent ∨ Plain headers) : Plain (keywords params headers) := by
  let pairs := (if headers.isAbsent then [] else [("headers", headers)]) ++
    (if params.children.isEmpty then [] else [("params", params)]) ++
    [(legacyMethod, Node.made .trueLit [])]
  have heq : keywords params headers = .made .hash (pairs.map fun p => keyword p.1 p.2) := by
    simp only [keywords, headersKeyword, paramsKeyword, pairs]
    split <;> split <;> rfl
  have hpairs : ∀ p ∈ pairs, isLowerName p.1 = true ∧ Plain p.2 := by
    intro p hp
    rcases List.mem_append.mp hp with hp | hp
    · rcases List.mem_append.mp hp with hp | hp
      · split at hp
        · cases hp
        · rename_i hpresent
          rw [List.mem_singleton.mp hp]
          refine ⟨show isLowerName "headers" = true by decide, hheaders.resolve_left ?_⟩
          rintro rfl
          exact hpresent rfl
      · split at hp
        · cases hp
        · rename_i hchildren
          rw [List.mem_singleton.mp hp]
          refine ⟨show isLowerName "params" = true by decide, hparams.resolve_left ?_⟩
          rintro rfl
          exact hchildren rfl
    · rw [List.mem_singleton.mp hp]
      exact ⟨by decide, Plain.value (by decide)⟩
  rw [heq]
  exact Plain.hash (fun p hp => (hpairs p hp).1) fun p hp => (hpairs p hp).2

/-- The legacy calls of a program of one call whose arguments hold none. -/
theorem sites_program (span : Option Span) {call : Node}
    (h : ∀ m ∈ Node.subtreesAll call.children, isLegacyCall m = false)
    (hcall : call.isKind .call = true) :
    sites (.tree .program span [call]) =
      if isLegacyCall call then [(some (.tree .program span [call]), call)] else [] := by
  obtain ⟨kind, callSpan, children, rfl⟩ :
      ∃ kind span children, call = .tree kind span children := by
    cases call with
    | absent | leaf _ => cases hcall
    | tree kind span children => exact ⟨kind, span, children, rfl⟩
  have hinner : (Node.familyAll (some (.tree kind callSpan children)) children).filter
      (fun site => isLegacyCall site.2) = [] := by
    rw [List.filter_eq_nil_iff]
    intro site hsite
    have hmem := List.mem_map_of_mem (f := Prod.snd) hsite
    rw [Node.map_snd_familyAll] at hmem
    rw [h site.2 hmem]
    exact Bool.false_ne_true
  have hprogram : isLegacyCall (.tree .program span [.tree kind callSpan children]) = false := rfl
  rw [sites, Node.family, Node.familyAll, Node.familyAll, Node.family, List.append_nil,
    List.filter_cons_of_neg (by rw [hprogram]; exact Bool.false_ne_true), List.filter_cons, hinner]

/-- A patch for the whole text leaves its own text. -/
theorem apply_whole {source new : String} {p : Patch} (hstart : p.start = 0)
    (hstop : p.stop = source.length) (htext : p.text = new) :
    Patch.apply source [p] = .ok new := by
  have hsplice : Patch.splice source.toList 0 [p] = .ok new.toList := by
    have hdrop : source.toList.drop source.length = [] :=
      List.drop_eq_nil_of_le (Nat.le_of_eq String.length_toList)
    simp [Patch.splice, Patch.slice, hstart, hstop, htext, hdrop, bind, Except.bind, pure,
      Except.pure, String.length_toList]
  change (Patch.splice source.toList 0 [p] >>= _) = _
  rw [hsplice]
  exact congrArg Except.ok String.ofList_toList

theorem firstKey?_eq_none {kind : Kind} {span : Option Span} {children : List Node}
    (h : kind ≠ .hash) : firstKey? (.tree kind span children) = none := by
  rw [firstKey?]
  intro _ _ _ _ _ heq
  injection heq with hkind
  exact h hkind

/-- A hash has its first key without its place too. -/
theorem firstKey?_erase (n : Node) : firstKey? n.erase = firstKey? n := by
  cases n with
  | absent | leaf _ => rfl
  | tree kind span children =>
    rw [Node.erase_tree, Node.made]
    by_cases hkind : kind = .hash
    · subst hkind
      rcases children with _ | ⟨_ | _ | ⟨k, s, inner⟩, others⟩
      · rfl
      · rfl
      · rfl
      · rw [List.map_cons, Node.erase_tree, Node.made]
        by_cases hpair : k = .pair
        · subst hpair
          cases inner with
          | nil => rfl
          | cons key rest => exact Node.symbolName?_erase key
        · rw [firstKey?, firstKey?]
          · intro _ _ _ _ _ heq
            simp [hpair] at heq
          · intro _ _ _ _ _ heq
            simp [hpair] at heq
    · rw [firstKey?_eq_none hkind, firstKey?_eq_none hkind]

theorem areMigrated_map_erase (nodes : List Node) :
    areMigrated (nodes.map Node.erase) = areMigrated nodes := by
  match nodes with
  | [] | _ :: _ :: _ => rfl
  | [only] =>
    change (firstKey? only.erase).any _ = (firstKey? only).any _
    rw [firstKey?_erase]

/-- A plain expression passes one argument. -/
theorem isSplatted_of_plain_erase {n : Node} (h : Plain n.erase) : isSplatted n = false := by
  have hplain : ∀ {m : Node}, Plain m → m.isKind .splat = false ∧ m.isKind .blockPass = false := by
    intro m hm
    cases hm with
    | value h => exact (by decide : ∀ kind ∈ wordKinds, (Node.made kind []).isKind .splat = false ∧
        (Node.made kind []).isKind .blockPass = false) _ h
    | _ => exact ⟨rfl, rfl⟩
  obtain ⟨hsplat, hblock⟩ := hplain h
  rw [Node.isKind_of_erase_eq (Node.erase_erase n)] at hsplat hblock
  rw [isSplatted, hsplat, hblock, Bool.or_self]

/-- A call of plain expressions passes no block. -/
theorem passedBlock?_eq_none {span : Option Span} {receiver name : Node} {arguments : List Node}
    (h : ∀ n ∈ arguments, Plain n.erase) :
    passedBlock? (.tree .call span (receiver :: name :: arguments)) = none := by
  change arguments.getLast?.filter (·.isKind .blockPass) = none
  rw [Option.filter_eq_none_iff]
  intro n hn hblock
  have hnot := isSplatted_of_plain_erase (h n (List.mem_of_getLast? hn))
  rw [isSplatted, hblock, Bool.or_true] at hnot
  cases hnot

/-- Nothing speaks against a legacy call of plain expressions. -/
theorem objection?_eq_none {span : Option Span} {name : Leaf} {verb path : Node}
    {verbName : String} {listed : List Node} (hverb : isLowerName verbName = true)
    (hsymbol : verb.erase = .symbol verbName) (hplain : ∀ n ∈ path :: listed, Plain n.erase)
    (hlength : listed.length ≤ 2) (hmigrated : areMigrated listed = false) :
    objection? (.tree .call span (.absent :: .leaf name :: verb :: path :: listed)) = none := by
  let call : Node := .tree .call span (.absent :: .leaf name :: verb :: path :: listed)
  have harguments : ∀ n ∈ verb :: path :: listed, Plain n.erase :=
    List.forall_mem_cons.mpr ⟨by rw [hsymbol]; exact Plain.sym hverb, hplain⟩
  have htrailing : trailingArguments call = listed := by
    rw [trailingArguments, passedBlock?_eq_none harguments]
    rfl
  have hname : verb.symbolName? = some verbName := by
    rw [← Node.symbolName?_erase, hsymbol]
    rfl
  have hverb? : verb? call = some verbName := by
    change verb.symbolName?.filter _ = _
    rw [hname, Option.filter_some, isIdentifier_of_isLowerName hverb,
      isSplatted_of_plain_erase (hplain path List.mem_cons_self)]
    rfl
  have hsplatted : listed.any isSplatted = false := by
    rw [List.any_eq_false]
    intro n hn
    rw [isSplatted_of_plain_erase (hplain n (List.mem_cons_of_mem _ hn))]
    exact Bool.false_ne_true
  -- A plain argument opens no heredoc, and neither does the call around it.
  have hheredoc : hasHeredocInside call = false := by
    cases span with
    | none => rfl
    | some span =>
      change call.subtrees.any (opensHeredocBefore span.endLine) = false
      rw [List.any_eq_false]
      intro m hm
      rw [Node.subtrees] at hm
      rcases List.mem_cons.mp hm with rfl | hm
      · exact Bool.false_ne_true
      · rw [(quiet_of_plain_arguments harguments hm).2]
        exact Bool.false_ne_true
  rw [objection?, htrailing, hmigrated, if_neg Bool.false_ne_true,
    if_neg (Nat.not_lt.mpr hlength), hverb?, Option.isNone_some, if_neg Bool.false_ne_true,
    hsplatted, if_neg Bool.false_ne_true, hheredoc, if_neg Bool.false_ne_true]

/-- When every occurrence is converted, there is no failure. -/
theorem convertAll_eq {source : List Char} {found : List Occurrence}
    {conversions : List Conversion}
    (h : List.Forall₂ (fun o c => convert source o = .ok c) found conversions) :
    convertAll source found = (conversions, none) := by
  induction h with
  | nil => rfl
  | cons hc _ ih => rw [convertAll, hc, ih]

/-- The new text is that of all conversions. -/
theorem migrate_eq {source out : String} {tree : Node} (conversions : List Conversion)
    (hparse : parse source = .ok tree)
    (h : List.Forall₂ (fun o c => convert source.toList o = .ok c) (occurrences tree) conversions)
    (happly : Patch.apply source (conversions.map (·.patch)) = .ok out) :
    migrate source = .ok out := by
  rw [migrate, hparse]
  change (convertTree source tree).result.mapError _ = _
  rw [convertTree, convertAll_eq h]
  change ((Patch.apply source _).mapError _).mapError _ = _
  rw [happly]
  rfl

/-- A call of plain expressions that is read from a source, and its parts. -/
theorem exists_parts {call : Node} {name : String} {arguments : List Node}
    (h : call.erase = (Node.made .call
      (.absent :: .word (.token .ident) name :: arguments.map Node.erase)).erase) :
    ∃ span place nodes,
      call = .tree .call span (.absent :: .leaf ⟨.token .ident, name, place⟩ :: nodes) ∧
        nodes.map Node.erase = arguments.map Node.erase := by
  obtain ⟨span, receiver, place, nodes, rfl, hreceiver, hnodes⟩ :=
    Grammar.exists_call_of_erase_eq h
  rw [Node.erase_eq_absent_iff.mp hreceiver]
  rw [List.map_map, Node.erase_comp_erase] at hnodes
  exact ⟨span, place, nodes, rfl, hnodes⟩

/-- Nodes that differ in their places are plain together. -/
theorem plain_of_map_erase {nodes arguments : List Node}
    (h : nodes.map Node.erase = arguments.map Node.erase)
    (hplain : ∀ n ∈ arguments, Plain n.erase) : ∀ n ∈ nodes, Plain n.erase := by
  intro n hn
  obtain ⟨m, hm, heq⟩ := List.mem_map.mp (h ▸ List.mem_map_of_mem hn)
  rw [← heq]
  exact hplain m hm

/-- A source of one call of another method is left as it is. -/
theorem migrate_other {source name : String} {span : Option Span} {call : Node}
    {arguments : List Node} (hparse : parse source = .ok (.tree .program span [call]))
    (hcall : call.erase = (Node.made .call
      (.absent :: .word (.token .ident) name :: arguments.map Node.erase)).erase)
    (hname : name ≠ legacyMethod) (hplain : ∀ n ∈ arguments, Plain n.erase) :
    migrate source = .ok source := by
  obtain ⟨callSpan, place, nodes, rfl, hnodes⟩ := exists_parts hcall
  let call : Node := .tree .call callSpan (.absent :: .leaf ⟨.token .ident, name, place⟩ :: nodes)
  have hlegacy : isLegacyCall call = false := beq_eq_false_iff_ne.mpr hname
  have hsites : sites (.tree .program span [call]) = [] := by
    rw [sites_program span (fun m hm =>
      (quiet_of_plain_arguments (plain_of_map_erase hnodes hplain) hm).1) rfl, hlegacy]
    rfl
  refine migrate_eq [] hparse ?_ ?_
  · rw [occurrences_eq, hsites]
    exact List.Forall₂.nil
  · exact congrArg Except.ok String.ofList_toList

/-- A call that covers the whole source is converted into a patch for all of it. -/
theorem convert_whole {source new : String} {call : Node} (hnone : objection? call = none)
    (hprint : (replacement call (trailingArguments call)).print true = .ok new)
    (hextent : call.extent? = some (0, source.length)) :
    ∃ c, convert source.toList ⟨call, true⟩ = .ok c ∧
      Patch.apply source [c.patch] = .ok new := by
  let p : Patch := ⟨0, source.length, new, Nat.zero_le _⟩
  have hpatch : Patch.ofSpan (0 : Nat) source.length new = .ok p := by
    rw [Patch.ofSpan, dif_pos (by omega)]
    rfl
  refine ⟨⟨call.line?, .ofList (Patch.slice source.toList 0 source.length), p⟩, ?_,
    apply_whole rfl rfl rfl⟩
  simp only [convert, arguments, hnone, isCommand, Bool.true_or, hprint, bind, Except.bind,
    Except.mapError, hextent, hpatch]
  rfl

/-- The printed replacement takes the place of a source of one legacy call. -/
theorem migrate_legacy {source new verb : String} {span : Option Span} {call path : Node}
    {listed : List Node} (hparse : parse source = .ok (.tree .program span [call]))
    (hcall : call.erase = (Node.made .call (.absent :: .word (.token .ident) legacyMethod ::
      (.symbol verb :: path :: listed).map Node.erase)).erase)
    (hextent : call.extent? = some (0, source.length)) (hverb : isLowerName verb = true)
    (hplain : ∀ n ∈ path :: listed, Plain n.erase) (hlength : listed.length ≤ 2)
    (hmigrated : areMigrated listed = false)
    (hnew : ∀ m : Node, m.erase = (replacementFor verb path listed none).erase →
      m.print true = .ok new) :
    migrate source = .ok new := by
  obtain ⟨callSpan, place, nodes, rfl, hnodes⟩ := exists_parts hcall
  obtain ⟨verbNode, rest, rfl, hverbNode, hrest⟩ := List.map_eq_cons_iff.mp hnodes
  obtain ⟨pathNode, others, rfl, hpathNode, hothers⟩ := List.map_eq_cons_iff.mp hrest
  let call : Node := .tree .call callSpan
    (.absent :: .leaf ⟨.token .ident, legacyMethod, place⟩ :: verbNode :: pathNode :: others)
  have hread : ∀ n ∈ pathNode :: others, Plain n.erase := plain_of_map_erase hrest hplain
  have harguments : ∀ n ∈ verbNode :: pathNode :: others, Plain n.erase := by
    refine List.forall_mem_cons.mpr ⟨?_, hread⟩
    rw [hverbNode]
    exact Plain.sym hverb
  -- Nothing objects to the call, so all that is left is that its replacement prints the new text.
  have hnone : objection? call = none := by
    refine objection?_eq_none hverb (hverbNode.trans (Node.erase_made ..)) hread ?_ ?_
    · rwa [← List.length_map (f := Node.erase), hothers, List.length_map]
    · rw [← areMigrated_map_erase, hothers, areMigrated_map_erase, hmigrated]
  have hblock : passedBlock? call = none := passedBlock?_eq_none harguments
  have htrailing : trailingArguments call = others := by
    rw [trailingArguments, hblock]
    rfl
  have hname : verbNode.symbolName? = some verb := by
    rw [← Node.symbolName?_erase, hverbNode]
    rfl
  have hreplacement : replacement call others = replacementFor verb pathNode others none := by
    change replacementFor (verbNode.symbolName?.getD "") pathNode others (passedBlock? call) = _
    rw [hname, hblock]
    rfl
  have hprint : (replacement call (trailingArguments call)).print true = .ok new := by
    refine hnew _ ?_
    rw [htrailing, hreplacement, erase_replacementFor, erase_replacementFor, hpathNode, hothers]
  have hsites : sites (.tree .program span [call]) = [(some (.tree .program span [call]), call)] :=
    sites_program span (fun m hm => (quiet_of_plain_arguments harguments hm).1) rfl
  obtain ⟨conversion, hconvert, happly⟩ := convert_whole hnone hprint hextent
  refine migrate_eq [conversion] hparse ?_ happly
  rw [occurrences_eq, hsites]
  exact List.Forall₂.cons hconvert List.Forall₂.nil

/-- A legacy call that is made of a verb, a path, and parameters and headers. -/
def legacyCall (verb : String) (path : Node) (listed : List Node) : Node :=
  .made .call (.absent :: .word (.token .ident) legacyMethod :: .symbol verb :: path :: listed)

/-- The path and the keywords of a request are plain where its arguments are. -/
theorem plain_replacement {path : Node} {listed : List Node} (hpath : Plain path.erase)
    (hlisted : ∀ n ∈ listed, Plain n.erase) :
    ∀ n ∈ [path, keywords (listed.headD .absent) (listed.tail.headD .absent)], Plain n.erase := by
  have hoptional : ∀ nodes : List Node, (∀ n ∈ nodes, Plain n.erase) →
      (nodes.headD .absent).erase = .absent ∨ Plain (nodes.headD .absent).erase := by
    rintro (_ | ⟨n, others⟩) hnodes
    · exact Or.inl rfl
    · exact Or.inr (hnodes n List.mem_cons_self)
  have hkeywords : Plain (keywords (listed.headD .absent) (listed.tail.headD .absent)).erase := by
    rw [erase_keywords]
    exact plain_keywords (hoptional _ hlisted)
      (hoptional _ fun n hn => hlisted n (List.mem_of_mem_tail hn))
  exact List.forall_mem_cons.mpr ⟨hpath, List.forall_mem_singleton.mpr hkeywords⟩

/-- A legacy call of plain expressions, printed as a statement, is converted into its replacement,
printed in the same way, and this one is read as a source of one call. -/
theorem exists_migrated_print {verb : String} {path : Node} {listed : List Node}
    (hverb : isLowerName verb = true) (hkeyword : Token.Kind.ofKeyword? verb = none)
    (hpath : Plain path.erase) (hhash : path.isKind .hash = false)
    (hlisted : ∀ n ∈ listed, Plain n.erase) (hlength : listed.length ≤ 2)
    (hmigrated : areMigrated listed = false) :
    ∃ old new span call, (legacyCall verb path listed).print true = .ok old ∧
      (replacementFor verb path listed none).print true = .ok new ∧ migrate old = .ok new ∧
      parse new = .ok (.tree .program span [call]) ∧
      call.erase = (Node.made .call (.absent :: .word (.token .ident) verb ::
        [path, keywords (listed.headD .absent) (listed.tail.headD .absent)].map
          Node.erase)).erase := by
  have hplain : ∀ n ∈ path :: listed, Plain n.erase := List.forall_mem_cons.mpr ⟨hpath, hlisted⟩
  have hsymbol : Plain (Node.symbol verb).erase := Plain.sym hverb
  have hold := Grammar.isCommand_of_plain legacyMethod (by decide) (by decide)
    (List.forall_mem_cons.mpr ⟨hsymbol, hplain⟩) rfl
  obtain ⟨old, hprint, span, call, hparse, hcall, hextent⟩ := hold.exists_text
  have hnew := Grammar.isCommand_of_plain verb hverb hkeyword (plain_replacement hpath hlisted)
    hhash
  obtain ⟨new, hprint', span', call', hparse', hcall', -⟩ := hnew.exists_text
  have hreplacement : ∀ m : Node, m.erase = (replacementFor verb path listed none).erase →
      m.print true = .ok new := by
    intro m hm
    refine hprint' m (hm.trans ?_)
    simp [replacementFor]
  refine ⟨old, new, span', call', hprint _ ?_, hreplacement _ rfl, ?_, hparse', hcall'⟩
  · simp [legacyCall]
  · exact migrate_legacy hparse hcall hextent hverb hplain hlength hmigrated hreplacement

end Migration

open Migration in
/-- A legacy call of plain expressions, printed as a statement, is converted into its replacement,
printed in the same way, and this one is left as it is. -/
theorem migrate_print_legacyCall {verb : String} {path : Node} {listed : List Node}
    (hverb : isMethodName verb = true) (hpath : Plain path.erase)
    (hhash : path.isKind .hash = false) (hlisted : ∀ n ∈ listed, Plain n.erase)
    (hlength : listed.length ≤ 2) (hmigrated : areMigrated listed = false) :
    ∃ old new, (legacyCall verb path listed).print true = .ok old ∧
      (replacementFor verb path listed none).print true = .ok new ∧
      migrate old = .ok new ∧ migrate new = .ok new := by
  obtain ⟨hlower, hkeyword, hother⟩ := isMethodName_facts hverb
  obtain ⟨old, new, span, call, hold, hnew, hmigrate, hparse, hcall⟩ :=
    exists_migrated_print hlower hkeyword hpath hhash hlisted hlength hmigrated
  exact ⟨old, new, hold, hnew, hmigrate,
    migrate_other hparse hcall hother (plain_replacement hpath hlisted)⟩

open Migration in
/-- A call with parameters and headers, with its texts. -/
theorem migrate_print_get :
    isMethodName "get" = true ∧
      migrate "xhr :get, @path, \x7b id: 7 \x7d, nil" =
        .ok "get @path, headers: nil, params: \x7b id: 7 \x7d, xhr: true" ∧
      migrate "get @path, headers: nil, params: \x7b id: 7 \x7d, xhr: true" =
        .ok "get @path, headers: nil, params: \x7b id: 7 \x7d, xhr: true" := by
  let path : Node := .made .ivar [.word (.token .ivar) "@path"]
  let seven : Node := .made .int [.word (.token .int) "7"]
  let params : Node := .made .hash [keyword "id" seven]
  let headers : Node := .made .nilLit []
  have hpath : Plain (.made .ivar [.word (.token .ivar) ("@" ++ "path")]) :=
    Plain.ivar (by decide)
  have hparams : Plain (.made .hash ([("id", seven)].map fun p => keyword p.1 p.2)) :=
    Plain.hash (by decide) (List.forall_mem_singleton.mpr (Plain.int (by decide)))
  have hlisted : ∀ n ∈ [params, headers], Plain n.erase :=
    List.forall_mem_cons.mpr ⟨hparams, List.forall_mem_singleton.mpr (Plain.value (by decide))⟩
  have hname : isMethodName "get" = true := by decide
  obtain ⟨old, new, hold, hnew, hmigrate, hkept⟩ :
      ∃ old new, (legacyCall "get" path [params, headers]).print true = .ok old ∧
        (replacementFor "get" path [params, headers] none).print true = .ok new ∧
        migrate old = .ok new ∧ migrate new = .ok new :=
    migrate_print_legacyCall hname hpath rfl hlisted (by decide) rfl
  have hold' : (legacyCall "get" path [params, headers]).print true =
      .ok "xhr :get, @path, \x7b id: 7 \x7d, nil" := by
    decide +kernel
  have hnew' : (replacementFor "get" path [params, headers] none).print true =
      .ok "get @path, headers: nil, params: \x7b id: 7 \x7d, xhr: true" := by
    decide +kernel
  rw [hold, Except.ok.injEq] at hold'
  rw [hnew, Except.ok.injEq] at hnew'
  subst hold' hnew'
  exact ⟨hname, hmigrate, hkept⟩

/-- A verb with a capital is a symbol as good as any, but the new text cannot be read. -/
example : migrate "xhr :Get, path" = .ok "Get path, xhr: true" ∧
    (parse "Get path, xhr: true").toOption.isNone = true := by
  decide +kernel

end XhrKeywords
