import XhrKeywords.Proofs.Migration.Carried
import XhrKeywords.Proofs.Migration.RoundTrip

/-!
# Converted trees

What a second run finds in a converted source depends on the tree that is read from it. When that is
the old tree with the legacy calls replaced, a legacy call is left exactly where the verb of a
request is the name of the legacy method itself.
-/

namespace XhrKeywords

open Syntax

namespace Migration

mutual

/-- A node with its legacy calls in keyword style; those in other ones are left to them. -/
def converted : Node → Node
  | .tree kind span children =>
    let n := Node.tree kind span children
    if isLegacyCall n then replacement n (trailingArguments n)
    else .tree kind span (convertedAll children)
  | .absent => .absent
  | .leaf content => .leaf content

/-- Several nodes with their legacy calls in keyword style. -/
def convertedAll : List Node → List Node
  | [] => []
  | n :: others => converted n :: convertedAll others

end

/-- Whether there is a legacy call in a node. -/
def HasLegacyCall (n : Node) : Prop := ∃ m ∈ n.subtrees, isLegacyCall m

theorem convertedAll_eq_map (nodes : List Node) : convertedAll nodes = nodes.map converted := by
  induction nodes with
  | nil => rfl
  | cons n others ih => rw [convertedAll, ih, List.map_cons]

/-- A legacy call is a call whose second child is the name of the legacy method. -/
theorem isLegacyCall_iff {n : Node} :
    isLegacyCall n ↔
      n.isKind .call ∧ ∃ name, n.children[1]? = some (.leaf name) ∧ name.text = legacyMethod := by
  unfold isLegacyCall
  split
  · simp [Node.isKind, Node.kind?, Node.children]
  · rename_i hshape
    refine iff_of_false Bool.false_ne_true ?_
    rintro ⟨hkind, name, hname, -⟩
    cases n with
    | absent | leaf _ => simp [Node.children] at hname
    | tree kind span children =>
      obtain rfl : kind = .call := by simpa [Node.isKind, Node.kind?] using hkind
      rcases children with _ | ⟨receiver, _ | ⟨second, others⟩⟩
      · cases hname
      · cases hname
      · cases hname
        exact hshape _ _ _ _ rfl

/-- A call is a legacy call without its place too. -/
theorem isLegacyCall_erase_iff {n : Node} : isLegacyCall n.erase ↔ isLegacyCall n := by
  refine ⟨fun h => ?_, isLegacyCall_erase⟩
  obtain ⟨hkind, name, hname, htext⟩ := isLegacyCall_iff.mp h
  rw [Node.isKind, Node.kind?_erase] at hkind
  rw [Node.children_erase, List.getElem?_map, Option.map_eq_some_iff] at hname
  obtain ⟨m, hm, hleaf⟩ := hname
  cases m with
  | leaf content =>
    cases hleaf
    exact isLegacyCall_iff.mpr ⟨hkind, content, hm, htext⟩
  | absent | tree _ _ _ => simp [Node.made] at hleaf

/-- Without places there are the same legacy calls in a node. -/
theorem hasLegacyCall_erase_iff {n : Node} : HasLegacyCall n.erase ↔ HasLegacyCall n := by
  rw [HasLegacyCall, Node.subtrees_erase]
  simp [HasLegacyCall, isLegacyCall_erase_iff]

/-- A tree has a legacy call when it is one or one of its children has one. -/
theorem hasLegacyCall_tree_iff {kind : Kind} {span : Option Span} {children : List Node} :
    HasLegacyCall (.tree kind span children) ↔
      isLegacyCall (.tree kind span children) ∨ ∃ n ∈ children, HasLegacyCall n := by
  simp only [HasLegacyCall, Node.subtrees_tree, List.mem_cons, Node.mem_subtreesAll]
  grind

/-- Only leaves become leaves. -/
theorem converted_eq_leaf_iff {n : Node} {name : Leaf} :
    converted n = .leaf name ↔ n = .leaf name := by
  cases n with
  | absent | leaf _ => rw [converted]
  | tree kind span children =>
    rw [converted]
    split
    · rw [replacement]
      split <;> simp [replacementFor, Node.made]
    · simp

/-- Converting the children of a tree does not make it a legacy call. -/
theorem isLegacyCall_convertedAll (kind : Kind) (span : Option Span) (children : List Node) :
    isLegacyCall (.tree kind span (convertedAll children)) ↔
      isLegacyCall (.tree kind span children) := by
  have hleaf : ∀ n name, converted n = .leaf name ↔ n = .leaf name :=
    fun n name => converted_eq_leaf_iff
  simp [isLegacyCall_iff, convertedAll_eq_map, Node.isKind, Node.kind?, Node.children, hleaf]

/-- There is no legacy call in what is left out. -/
theorem not_hasLegacyCall_absent : ¬ HasLegacyCall .absent := fun ⟨_, hm, _⟩ => by cases hm

/-- There is no legacy call in a keyword for a value without one. -/
theorem not_hasLegacyCall_keyword {name : String} {value : Node} (h : ¬ HasLegacyCall value) :
    ¬ HasLegacyCall (keyword name value) := by
  have hsymbol : ¬ HasLegacyCall (.symbol name) := by
    simp [HasLegacyCall, Node.symbol, Node.made, Node.subtrees_tree, Node.subtreesAll,
      Node.word, Node.subtrees_leaf, isLegacyCall]
  rw [keyword, Node.made, hasLegacyCall_tree_iff]
  simp [isLegacyCall, hsymbol, h]

/-- There is no legacy call in keywords for arguments without one. -/
theorem not_hasLegacyCall_keywords {params headers : Node} (hparams : ¬ HasLegacyCall params)
    (hheaders : ¬ HasLegacyCall headers) : ¬ HasLegacyCall (keywords params headers) := by
  have hflag : ¬ HasLegacyCall (.made .trueLit []) := by
    simp [Node.made, hasLegacyCall_tree_iff, isLegacyCall]
  rw [keywords, Node.made, hasLegacyCall_tree_iff]
  rintro (hself | ⟨n, hn, hlegacy⟩)
  · cases hself
  · obtain rfl | rfl | rfl := eq_of_mem_keywords hn
    · exact not_hasLegacyCall_keyword hheaders hlegacy
    · exact not_hasLegacyCall_keyword hparams hlegacy
    · exact not_hasLegacyCall_keyword hflag hlegacy

/-- There is a legacy call in the call of a verb with arguments without one exactly when the verb is
the name of the legacy method. -/
theorem hasLegacyCall_replacementFor_iff {verb : String} {path : Node} {listed : List Node}
    {block : Option Node} (hpath : ¬ HasLegacyCall path) (hlisted : ∀ n ∈ listed, ¬ HasLegacyCall n)
    (hblock : ∀ b ∈ block, ¬ HasLegacyCall b) :
    HasLegacyCall (replacementFor verb path listed block) ↔ verb = legacyMethod := by
  have hkeywords := not_hasLegacyCall_keywords
    (headD_of_forall not_hasLegacyCall_absent hlisted)
    (headD_of_forall not_hasLegacyCall_absent fun n hn => hlisted n (List.mem_of_mem_tail hn))
  have hword : ¬ HasLegacyCall (.word (.token .ident) verb) := fun ⟨_, hm, _⟩ => by cases hm
  rw [replacementFor, Node.made, hasLegacyCall_tree_iff]
  have hself : isLegacyCall (.tree .call none ([.absent, .word (.token .ident) verb, path,
      keywords (listed.headD .absent) (listed.tail.headD .absent)] ++ block.toList)) ↔
      verb = legacyMethod := by
    rw [List.cons_append, List.cons_append, Node.word, isLegacyCall, beq_iff_eq]
  rw [hself, or_iff_left]
  rintro ⟨n, hn, hlegacy⟩
  rcases List.mem_append.mp hn with hn | hn
  · simp only [List.mem_cons, List.not_mem_nil, or_false] at hn
    obtain rfl | rfl | rfl | rfl := hn
    · exact not_hasLegacyCall_absent hlegacy
    · exact hword hlegacy
    · exact hpath hlegacy
    · exact hkeywords hlegacy
  · exact hblock n (Option.mem_toList.mp hn) hlegacy

/-- There is a legacy call in the replacement of a call that is accepted and holds no other legacy
call exactly when its verb is the name of the legacy method. -/
theorem hasLegacyCall_replacement_iff {call : Node} (hnone : objection? call = none)
    (hinner : ∀ d ∈ call.inner, ¬ isLegacyCall d) :
    HasLegacyCall (replacement call (trailingArguments call)) ↔
      verb? call = some legacyMethod := by
  obtain ⟨receiver, name, verb, path, others, text, hchildren, hname, hverb, -, -⟩ :=
    exists_parts_of_objection?_eq_none hnone
  have hchild : ∀ n ∈ call.children, ¬ HasLegacyCall n := fun n hn ⟨d, hd, hlegacy⟩ =>
    hinner d (Node.mem_subtreesAll.mpr ⟨n, hn, hd⟩) hlegacy
  have hblock : ∀ b ∈ passedBlock? call, b ∈ call.children := by
    intro b hb
    rw [passedBlock?, hchildren] at hb
    have hlast := List.mem_of_getLast? (Option.eq_some_of_filter_eq_some hb)
    rw [hchildren]
    exact List.mem_cons_of_mem _ (List.mem_cons_of_mem _ hlast)
  have hpath : path ∈ call.children := by simp [hchildren]
  rw [replacement, verbAndPath?, hchildren]
  refine (hasLegacyCall_replacementFor_iff (hchild path hpath)
    (fun n hn => hchild n (List.mem_of_mem_drop (mem_of_mem_trailingArguments hn)))
    fun b hb => hchild b (hblock b hb)).trans ?_
  rw [hname, hverb, Option.getD_some, Option.some_inj]

/-- A call that may be converted: nothing speaks against it and it holds no other legacy call. -/
def IsConvertible (call : Node) : Prop :=
  objection? call = none ∧ ∀ d ∈ call.inner, ¬ isLegacyCall d

mutual

/-- When the legacy calls of a node may be converted, there is one left exactly where the verb is
the name of the legacy method. -/
theorem hasLegacyCall_converted_iff {n : Node}
    (h : ∀ c ∈ n.subtrees, isLegacyCall c → IsConvertible c) :
    HasLegacyCall (converted n) ↔
      ∃ c ∈ n.subtrees, isLegacyCall c ∧ verb? c = some legacyMethod := by
  match n with
  | .absent | .leaf _ => simp [converted, HasLegacyCall, Node.subtrees]
  | .tree kind span children =>
    rw [Node.subtrees_tree] at h ⊢
    obtain ⟨hself, hchildren⟩ := List.forall_mem_cons.mp h
    rw [converted]
    by_cases hlegacy : isLegacyCall (.tree kind span children)
    · obtain ⟨hnone, hinner⟩ := hself hlegacy
      rw [if_pos hlegacy, hasLegacyCall_replacement_iff hnone hinner]
      constructor
      · exact fun hverb => ⟨_, List.mem_cons_self, hlegacy, hverb⟩
      · rintro ⟨c, hc, hcall, hverb⟩
        rcases List.mem_cons.mp hc with rfl | hc
        · exact hverb
        · exact absurd hcall (hinner c hc)
    · rw [if_neg hlegacy, hasLegacyCall_tree_iff, isLegacyCall_convertedAll,
        or_iff_right hlegacy, hasLegacyCall_convertedAll_iff hchildren]
      simp [hlegacy]

/-- The same of several nodes. -/
theorem hasLegacyCall_convertedAll_iff {nodes : List Node}
    (h : ∀ c ∈ Node.subtreesAll nodes, isLegacyCall c → IsConvertible c) :
    (∃ n ∈ convertedAll nodes, HasLegacyCall n) ↔
      ∃ c ∈ Node.subtreesAll nodes, isLegacyCall c ∧ verb? c = some legacyMethod := by
  match nodes with
  | [] => simp [convertedAll, Node.subtreesAll]
  | n :: others =>
    rw [Node.subtreesAll_cons] at h ⊢
    obtain ⟨hfirst, hothers⟩ := List.forall_mem_append.mp h
    simp only [convertedAll, List.mem_cons, List.mem_append, or_and_right, exists_or,
      exists_eq_left, hasLegacyCall_converted_iff hfirst, hasLegacyCall_convertedAll_iff hothers]

end

/-- The legacy calls of a source that is converted may be converted. -/
theorem isConvertible_of_migrate {source out : String} {tree : Node} (h : migrate source = .ok out)
    (hparse : parse source = .ok tree) :
    ∀ c ∈ tree.subtrees, isLegacyCall c → IsConvertible c := by
  obtain ⟨read, conversions, hread, hconverted, happly⟩ := conversions_of_migrate h
  obtain rfl : tree = read := Except.ok.inj (hparse.symm.trans hread)
  have hstretches := stretches_of_convertAll source.toList (convertAll_eq hconverted)
  have hapart := (Patch.rewrites_of_apply happly).1
  obtain ⟨tokens, hi, -, hnested⟩ := nested_of_parse hparse
  have hnone := (pairwise_stretches_iff hnested).mp (by
    rw [← hstretches, List.pairwise_map]
    exact hapart)
  rw [occurrences_eq, List.forall₂_map_left_iff] at hconverted
  have haccepted : ∀ site ∈ sites tree, objection? site.2 = none := by
    refine ((List.forall₂_and_left _ _).mp (hconverted.imp fun site c hc => ⟨?_, hc⟩)).1
    obtain ⟨-, listed, hlisted, -⟩ := replaces_of_convert hc
    exact exists_arguments_eq_ok_iff.mp ⟨listed, hlisted⟩
  intro c hc hlegacy
  refine ⟨?_, fun d hd hinner => hnone ⟨c, hc, hlegacy, d, hd, hinner⟩⟩
  have hmem : c ∈ (sites tree).map Prod.snd := by
    rw [map_snd_sites]
    exact List.mem_filter.mpr ⟨hc, hlegacy⟩
  obtain ⟨site, hsite, rfl⟩ := List.mem_map.mp hmem
  exact haccepted site hsite

/-- A source without legacy calls is left as it is. -/
theorem migrate_of_not_hasLegacyCall {source : String} {tree : Node}
    (hparse : parse source = .ok tree) (h : ¬ HasLegacyCall tree) :
    migrate source = .ok source := by
  have hsites : sites tree = [] := by
    rw [← List.map_eq_nil_iff (f := Prod.snd), map_snd_sites, List.filter_eq_nil_iff]
    exact fun c hc hlegacy => h ⟨c, hc, hlegacy⟩
  refine migrate_eq [] hparse ?_ (congrArg Except.ok String.ofList_toList)
  rw [occurrences_eq, hsites]
  exact List.Forall₂.nil

end Migration

open Migration in
/-- When a converted source is read as the old tree with its legacy calls in keyword style,
positions aside, it has a legacy call exactly if the verb of an old one is the name of the legacy
method. If there is none, another run leaves the text as it is. -/
theorem settled_of_migrate {source out : String} {tree read : Node} (h : migrate source = .ok out)
    (hparse : parse source = .ok tree) (hread : parse out = .ok read)
    (hsame : read.erase = (converted tree).erase) :
    ((∀ n ∈ read.subtrees, ¬ isLegacyCall n) ↔
      ∀ c ∈ tree.subtrees, isLegacyCall c → verb? c ≠ some legacyMethod) ∧
      ((∀ n ∈ read.subtrees, ¬ isLegacyCall n) → migrate out = .ok out) := by
  have hconvertible := isConvertible_of_migrate h hparse
  have hleft : HasLegacyCall read ↔
      ∃ c ∈ tree.subtrees, isLegacyCall c ∧ verb? c = some legacyMethod := by
    rw [← hasLegacyCall_erase_iff, hsame, hasLegacyCall_erase_iff,
      hasLegacyCall_converted_iff hconvertible]
  constructor
  · have hfree := not_congr hleft
    simp only [HasLegacyCall, not_exists, not_and] at hfree
    exact hfree
  · exact fun hnone => migrate_of_not_hasLegacyCall hread fun ⟨n, hn, hlegacy⟩ =>
      hnone n hn hlegacy

open Migration in
/-- A converted call among the arguments of another one is read as it was meant and left alone. -/
theorem settled_argument :
    migrate "foo(xhr(:get, a))\n" = .ok "foo(get(a, xhr: true))\n" ∧
      (∃ read, parse "foo(get(a, xhr: true))\n" = .ok read ∧
        ∀ n ∈ read.subtrees, ¬ isLegacyCall n) ∧
      migrate "foo(get(a, xhr: true))\n" = .ok "foo(get(a, xhr: true))\n" := by
  have hmigrate : migrate "foo(xhr(:get, a))\n" = .ok "foo(get(a, xhr: true))\n" := by
    decide +kernel
  have htrees : (parse "foo(xhr(:get, a))\n").toOption.any (fun tree =>
      (parse "foo(get(a, xhr: true))\n").toOption.any fun read =>
        read.erase = (converted tree).erase ∧ tree.subtrees.all fun c =>
          !isLegacyCall c || verb? c != some legacyMethod) = true := by
    decide +kernel
  simp only [Option.any_eq_true, decide_eq_true_eq, List.all_eq_true, Bool.or_eq_true,
    Bool.not_eq_true', bne_iff_ne] at htrees
  obtain ⟨tree, htree, read, hread, hsame, hverbs⟩ := htrees
  obtain ⟨hleft, hkept⟩ := settled_of_migrate hmigrate (eq_ok_of_toOption htree)
    (eq_ok_of_toOption hread) hsame
  have hnone : ∀ n ∈ read.subtrees, ¬ isLegacyCall n :=
    hleft.mpr fun c hc hlegacy => (hverbs c hc).resolve_left (by simp [hlegacy])
  exact ⟨hmigrate, ⟨read, eq_ok_of_toOption hread, hnone⟩, hkept hnone⟩

open Migration in
/-- A legacy call of plain expressions is converted into a text that is read again, and a legacy
call is left in it exactly if the verb is the name of the legacy method. -/
theorem settled_print_plain {verb : String} {path : Node} {listed : List Node}
    (hverb : isLowerName verb = true) (hkeyword : Token.Kind.ofKeyword? verb = none)
    (hpath : Plain path.erase) (hhash : path.isKind .hash = false)
    (hlisted : ∀ n ∈ listed, Plain n.erase) (hlength : listed.length ≤ 2)
    (hmigrated : areMigrated listed = false) :
    ∃ old new read, (legacyCall verb path listed).print true = .ok old ∧
      migrate old = .ok new ∧ parse new = .ok read ∧
      ((∀ n ∈ read.subtrees, ¬ isLegacyCall n) ↔ verb ≠ legacyMethod) ∧
      (verb ≠ legacyMethod → migrate new = .ok new) := by
  obtain ⟨old, new, span, call, hold, -, hmigrate, hparse, hcall⟩ :=
    exists_migrated_print hverb hkeyword hpath hhash hlisted hlength hmigrated
  have hplain := plain_replacement hpath hlisted
  refine ⟨old, new, _, hold, hmigrate, hparse, ?_,
    fun hother => migrate_other hparse hcall hother hplain⟩
  obtain ⟨callSpan, place, nodes, rfl, hnodes⟩ := exists_parts hcall
  have hquiet : ∀ m ∈ Node.subtreesAll (.absent :: .leaf ⟨.token .ident, verb, place⟩ :: nodes),
      isLegacyCall m = false := fun m hm =>
    (quiet_of_plain_arguments (plain_of_map_erase hnodes hplain) hm).1
  -- Only the call itself can be one: the program is no call, and nothing in plain arguments is.
  simp only [Node.subtrees_tree, Node.subtreesAll, List.append_nil, List.forall_mem_cons]
  constructor
  · rintro ⟨-, hself, -⟩ rfl
    exact hself (beq_self_eq_true legacyMethod)
  · intro hother
    refine ⟨Bool.false_ne_true, fun hself => hother (beq_iff_eq.mp hself), fun m hm => ?_⟩
    rw [hquiet m hm]
    exact Bool.false_ne_true

open Migration in
/-- The verb of a request may be the name of the legacy method, and its call is refused then. -/
theorem not_settled_legacy_verb :
    migrate "xhr :xhr, a" = .ok "xhr a, xhr: true" ∧
      (∃ read, parse "xhr a, xhr: true" = .ok read ∧ ∃ n ∈ read.subtrees, isLegacyCall n) ∧
      ∀ out, migrate "xhr a, xhr: true" ≠ .ok out := by
  have hread : (parse "xhr a, xhr: true").toOption.any (fun read =>
      read.subtrees.any isLegacyCall) = true := by
    decide +kernel
  obtain ⟨read, hread, hlegacy⟩ := (Option.any_eq_true _ _).mp hread
  have hfails : (migrate "xhr a, xhr: true").toOption.isNone = true := by decide +kernel
  refine ⟨by decide +kernel, ⟨read, eq_ok_of_toOption hread, List.any_eq_true.mp hlegacy⟩, ?_⟩
  intro out hout
  rw [hout] at hfails
  cases hfails

/-- A call in keyword style is left alone. -/
example : migrate "get a, xhr: true" = .ok "get a, xhr: true" := by decide +kernel

end XhrKeywords
