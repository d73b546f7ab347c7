import XhrKeywords.Proofs.Grammar.Printable
import XhrKeywords.Proofs.Migration.Overlap

/-!
# Which calls are refused, and which refusal is reported

A legacy call is refused because it has keywords already, because it has too many arguments, or
because no call in keyword style can be made of it, in this order; all other calls are accepted.
The first call that is refused decides the failure of the source, whatever the other calls are.
-/

namespace XhrKeywords

open Syntax

namespace Syntax.Node

/-- A text holds code when it has the two characters that open code somewhere. -/
theorem interpolates_iff {text : List Char} :
    interpolates text = true ↔ ['#', '\x7b'] <:+: text := by
  fun_induction interpolates text with
  | case1 rest => simpa using List.infix_append [] ['#', '\x7b'] rest
  | case2 c rest hne ih =>
    rw [ih, List.infix_cons_iff, or_iff_right]
    rintro ⟨behind, heq⟩
    obtain ⟨rfl, rfl⟩ := List.cons.inj heq
    exact hne behind rfl rfl
  | case3 => simp

/-- What stands between the quotes is all but the first and the last character. -/
theorem unquote_eq (text : List Char) : unquote text = text.tail.dropLast := by
  rw [unquote, List.dropLast_eq_take, List.length_tail, List.drop_one, Nat.sub_sub]

/-- `Names n name` says that `n` is a symbol with that name, bare or between quotes; a quoted
symbol with code in it has no name. -/
inductive Names : Node → String → Prop
  | bare {span : Option Span} {content : Leaf} {others : List Node}
      (bare : content.role ≠ .token .string) :
      Names (.tree .sym span (.leaf content :: others)) content.text
  | quoted {span : Option Span} {content : Leaf} {others : List Node}
      (quoted : content.role = .token .string)
      (plain : ¬ ['#', '\x7b'] <:+: content.text.toList.tail.dropLast) :
      Names (.tree .sym span (.leaf content :: others))
        (.ofList content.text.toList.tail.dropLast)

/-- The name that is read off a symbol is the one that it has. -/
theorem symbolName?_eq_some_iff {n : Node} {name : String} :
    n.symbolName? = some name ↔ Names n name := by
  constructor
  · intro h
    unfold symbolName? at h
    split at h
    · rename_i span content others
      split at h
      case isTrue hrole =>
        simp only [unquote_eq] at h
        split at h
        · cases h
        · rename_i hplain
          cases h
          exact Names.quoted hrole (mt interpolates_iff.mpr hplain)
      case isFalse hrole =>
        cases h
        exact Names.bare hrole
    · cases h
  · rintro (⟨hrole⟩ | ⟨hrole, hplain⟩)
    · rw [symbolName?, if_neg hrole]
    · rw [← unquote_eq, ← interpolates_iff] at hplain
      rw [symbolName?, if_pos hrole, ← unquote_eq]
      exact if_neg hplain

end Syntax.Node

namespace Migration

variable {call : Node} {listed : List Node}

/-- The arguments from the fifth child on without a block that is passed at the end. -/
def argumentsBehindPath (call : Node) : List Node :=
  let behind := call.children.drop 4
  if behind.getLast?.any (·.isKind .blockPass) then behind.dropLast else behind

/-- The arguments are one hash, and its first child is a pair with the key `params` or `headers`. -/
def Keyworded (listed : List Node) : Prop :=
  ∃ hash pair key parts others,
    listed = [.tree .hash hash (.tree .pair pair (key :: parts) :: others)] ∧
      (key.Names "params" ∨ key.Names "headers")

/-- A node passes several arguments or a block. -/
def Spreads (n : Node) : Prop := n.isKind .splat ∨ n.isKind .blockPass

/-- A call has no path, its verb is no symbol that names a method, or its path may be several
arguments. -/
def LacksVerbOrPath (call : Node) : Prop :=
  call.children.length < 4 ∨
    (¬ ∃ verb name, call.children[2]? = some verb ∧ verb.Names name ∧ Unicode.isIdentifier name) ∨
    ∃ path, call.children[3]? = some path ∧ Spreads path

/-- A node holds a string that is the opener of a heredoc on a line before the given one. -/
def OpensHeredocBefore (line : Nat) (n : Node) : Prop :=
  ∃ span content others, .tree .str span (.leaf content :: others) ∈ n.subtrees ∧
    ['<', '<'] <+: content.text.toList ∧ ∃ opened ∈ content.place.line, opened < line

/-- The arguments of a legacy call are those behind its path. -/
theorem trailingArguments_eq (h : isLegacyCall call) :
    trailingArguments call = argumentsBehindPath call := by
  unfold isLegacyCall at h
  split at h
  · rename_i span receiver name arguments
    change (if (arguments.getLast?.filter (·.isKind .blockPass)).isSome then
      (arguments.drop 2).dropLast else arguments.drop 2) =
        if (arguments.drop 2).getLast?.any (·.isKind .blockPass) then
          (arguments.drop 2).dropLast else arguments.drop 2
    rw [Option.isSome_filter]
    cases hbehind : arguments.drop 2 with
    | nil => simp
    | cons n others =>
      have hlast : (n :: others).getLast? = arguments.getLast? := by
        rw [← hbehind, List.getLast?_drop, if_neg]
        intro hlength
        rw [List.drop_eq_nil_of_le hlength] at hbehind
        cases hbehind
      rw [hlast]
  · cases h

/-- The check for keywords finds them. -/
theorem areMigrated_iff : areMigrated listed = true ↔ Keyworded listed := by
  have hkeys : ∀ name : String,
      migratedKeys.contains name ↔ name = "params" ∨ name = "headers" := by
    simp [migratedKeys]
  constructor
  · intro h
    unfold areMigrated at h
    split at h
    · rename_i only
      unfold firstKey? at h
      split at h
      · rename_i hash pair key parts others
        obtain ⟨name, hname, hkey⟩ := (Option.any_eq_true ..).mp h
        rw [Node.symbolName?_eq_some_iff] at hname
        refine ⟨hash, pair, key, parts, others, rfl, ?_⟩
        rcases (hkeys name).mp hkey with rfl | rfl
        · exact Or.inl hname
        · exact Or.inr hname
      · cases h
    · cases h
  · rintro ⟨hash, pair, key, parts, others, rfl, hkey⟩
    change (key.symbolName?.any migratedKeys.contains) = true
    rcases hkey with hkey | hkey
    · rw [Node.symbolName?_eq_some_iff.mpr hkey]
      rfl
    · rw [Node.symbolName?_eq_some_iff.mpr hkey]
      rfl

/-- The check for several arguments or a block finds them. -/
theorem isSplatted_iff {n : Node} : isSplatted n = true ↔ Spreads n := by
  rw [isSplatted, Bool.or_eq_true, Spreads]

/-- A call has no verb when the verb or the path is lacking. -/
theorem verb?_eq_none_iff (h : isLegacyCall call) :
    verb? call = none ↔ LacksVerbOrPath call := by
  unfold isLegacyCall at h
  split at h
  · rename_i span receiver content arguments
    rcases arguments with _ | ⟨verb, _ | ⟨path, others⟩⟩
    · exact iff_of_true rfl (Or.inl (by decide : 2 < 4))
    · exact iff_of_true rfl (Or.inl (by decide : 3 < 4))
    change verb.symbolName?.filter (fun name => Unicode.isIdentifier name && !isSplatted path) =
      none ↔ _
    have hnamed : (∃ n name, (receiver :: .leaf content :: verb :: path :: others)[2]? = some n ∧
        n.Names name ∧ Unicode.isIdentifier name) ↔
        ∃ name, verb.Names name ∧ Unicode.isIdentifier name := by
      simp
    have hspreads : (∃ n, (receiver :: .leaf content :: verb :: path :: others)[3]? = some n ∧
        Spreads n) ↔ Spreads path := by
      simp
    rw [LacksVerbOrPath, Node.children, or_iff_right (by simp), hnamed, hspreads,
      Option.filter_eq_none_iff]
    simp only [Node.symbolName?_eq_some_iff, Bool.and_eq_true, Bool.not_eq_true', not_and,
      Bool.not_eq_false, isSplatted_iff]
    constructor
    · intro hall
      rw [or_iff_not_imp_right]
      rintro hpath ⟨name, hname, hidentifier⟩
      exact hpath (hall name hname hidentifier)
    · rintro (hverb | hpath) name hname hidentifier
      · exact absurd ⟨name, hname, hidentifier⟩ hverb
      · exact hpath
  · cases h

/-- The check for heredocs finds their openers. -/
theorem hasHeredocInside_iff {kind : Kind} {span : Span} {children : List Node} :
    hasHeredocInside (.tree kind (some span) children) = true ↔
      OpensHeredocBefore span.endLine (.tree kind (some span) children) := by
  rw [hasHeredocInside, List.any_eq_true]
  constructor
  · rintro ⟨n, hn, hopens⟩
    unfold opensHeredocBefore at hopens
    split at hopens
    · rename_i content others
      rw [Bool.and_eq_true, List.isPrefixOf_iff_prefix] at hopens
      obtain ⟨line, hline, hlt⟩ := (Option.any_eq_true ..).mp hopens.2
      exact ⟨_, content, others, hn, hopens.1, line, hline, of_decide_eq_true hlt⟩
    · cases hopens
  · rintro ⟨s, content, others, hn, hmark, line, hline, hlt⟩
    refine ⟨_, hn, ?_⟩
    rw [opensHeredocBefore, Bool.and_eq_true, List.isPrefixOf_iff_prefix]
    exact ⟨hmark, (Option.any_eq_true ..).mpr ⟨line, hline, decide_eq_true hlt⟩⟩

/-- A call is refused; the report shows its text in command style and the line that it starts on. -/
def Refused (call : Node) (cause : Cause) : Prop :=
  ∃ text, call.print true = .ok text ∧
    arguments call = .error (.refused ⟨cause, text, call.line?⟩)

/-- No call in keyword style can be made of a call that ends on the given line. -/
def Unsupported (call : Node) (lastLine : Nat) : Prop :=
  LacksVerbOrPath call ∨ (∃ n ∈ argumentsBehindPath call, Spreads n) ∨
    OpensHeredocBefore lastLine call

/-- What becomes of a call that ends on the given line: of several causes against it the first one
is reported, and without any its arguments are accepted. -/
structure Judged (call : Node) (lastLine : Nat) : Prop where
  keyworded : Refused call .alreadyMigrated ↔ Keyworded (argumentsBehindPath call)
  tooMany (hkeyworded : ¬ Keyworded (argumentsBehindPath call)) :
    Refused call (.tooManyArguments (argumentsBehindPath call).length) ↔
      2 < (argumentsBehindPath call).length
  unsupported (hkeyworded : ¬ Keyworded (argumentsBehindPath call))
    (hmany : (argumentsBehindPath call).length ≤ 2) :
    (∃ cause ∈ [.noVerbOrPath, .splattedArgument, .heredocInside], Refused call cause) ↔
      Unsupported call lastLine
  accepted (hkeyworded : ¬ Keyworded (argumentsBehindPath call))
    (hmany : (argumentsBehindPath call).length ≤ 2) (hunsupported : ¬ Unsupported call lastLine) :
    arguments call = .ok (argumentsBehindPath call)

/-- A call that prints is refused for what speaks against it. -/
theorem refused_iff {text : String} (hprint : call.print true = .ok text) {cause : Cause} :
    Refused call cause ↔ objection? call = some cause := by
  rw [Refused, arguments]
  cases objection? call with
  | none => simp
  | some other => simp [refuse, hprint]

/-- Against a call without keywords and with few enough arguments speaks that it is not
supported. -/
theorem objection?_eq_some_iff {span : Span} {children : List Node}
    (h : isLegacyCall (.tree .call (some span) children))
    (hkeyworded : ¬ areMigrated (argumentsBehindPath (.tree .call (some span) children)))
    (hmany : ¬ 2 < (argumentsBehindPath (.tree .call (some span) children)).length) :
    (∃ cause ∈ [.noVerbOrPath, .splattedArgument, .heredocInside],
      objection? (.tree .call (some span) children) = some cause) ↔
      Unsupported (.tree .call (some span) children) span.endLine := by
  have hspreads : (argumentsBehindPath (.tree .call (some span) children)).any isSplatted = true ↔
      ∃ n ∈ argumentsBehindPath (.tree .call (some span) children), Spreads n := by
    simp only [List.any_eq_true, isSplatted_iff]
  rw [Unsupported, ← verb?_eq_none_iff h, ← hspreads, ← hasHeredocInside_iff, objection?,
    trailingArguments_eq h, if_neg hkeyworded, if_neg hmany, ← Option.isNone_iff_eq_none]
  by_cases hverb : (verb? (.tree .call (some span) children)).isNone
  · rw [if_pos hverb]
    exact iff_of_true ⟨_, by simp, rfl⟩ (Or.inl hverb)
  rw [if_neg hverb, or_iff_right hverb]
  by_cases hsplatted : (argumentsBehindPath (.tree .call (some span) children)).any isSplatted
  · rw [if_pos hsplatted]
    exact iff_of_true ⟨_, by simp, rfl⟩ (Or.inl hsplatted)
  rw [if_neg hsplatted, or_iff_right hsplatted]
  by_cases hheredoc : hasHeredocInside (.tree .call (some span) children)
  · rw [if_pos hheredoc]
    exact iff_of_true ⟨_, by simp, rfl⟩ hheredoc
  · rw [if_neg hheredoc]
    exact iff_of_false (by simp) hheredoc

/-- A legacy call that has its place and prints is judged by its arguments. -/
theorem judged_of_print {span : Span} {children : List Node} {text : String}
    (h : isLegacyCall (.tree .call (some span) children))
    (hprint : (Node.tree .call (some span) children).print true = .ok text) :
    Judged (.tree .call (some span) children) span.endLine := by
  have htrailing := trailingArguments_eq h
  refine ⟨?_, ?_, ?_, ?_⟩
  · rw [refused_iff hprint, ← areMigrated_iff, objection?, htrailing]
    split
    case isTrue hmigrated => exact iff_of_true rfl hmigrated
    case isFalse hmigrated =>
      refine iff_of_false ?_ hmigrated
      repeat' split
      all_goals simp
  · intro hkeyworded
    rw [← areMigrated_iff] at hkeyworded
    rw [refused_iff hprint, objection?, htrailing, if_neg hkeyworded]
    split
    case isTrue hmany => exact iff_of_true rfl hmany
    case isFalse hmany =>
      refine iff_of_false ?_ hmany
      repeat' split
      all_goals simp
  · intro hkeyworded hmany
    rw [← areMigrated_iff] at hkeyworded
    simp only [refused_iff hprint]
    exact objection?_eq_some_iff h hkeyworded (Nat.not_lt.mpr hmany)
  -- What is not refused is accepted with the arguments that trail the path.
  · intro hkeyworded hmany hunsupported
    rw [← areMigrated_iff] at hkeyworded
    rw [← objection?_eq_some_iff h hkeyworded (Nat.not_lt.mpr hmany)] at hunsupported
    have hnone : objection? (.tree .call (some span) children) = none := by
      rw [objection?, htrailing, if_neg hkeyworded, if_neg (Nat.not_lt.mpr hmany)] at hunsupported ⊢
      repeat' split
      all_goals simp_all
    rw [arguments, hnone, htrailing]

/-- Calls are converted up to the first one that fails. -/
theorem convertAll_of_first {source : List Char} {found : Occurrence} {failure : Failure}
    (before after : List Occurrence) (hbefore : ∀ o ∈ before, ∃ c, convert source o = .ok c)
    (hfound : convert source found = .error failure) :
    ∃ conversions, convertAll source (before ++ found :: after) =
      (conversions, some failure) := by
  induction before with
  | nil => exact ⟨[], by rw [List.nil_append, convertAll, hfound]⟩
  | cons o before ih =>
    obtain ⟨c, hc⟩ := hbefore o List.mem_cons_self
    obtain ⟨cs, hcs⟩ := ih fun p hp => hbefore p (List.mem_cons_of_mem _ hp)
    exact ⟨c :: cs, by rw [List.cons_append, convertAll, hc, hcs]⟩

/-- A legacy call of a source that is accepted is converted. -/
theorem exists_convert_eq_ok {source : String} {tree : Node} (h : parse source = .ok tree)
    {o : Occurrence} (hcall : o.call ∈ tree.subtrees.filter isLegacyCall)
    (haccepted : ∃ listed, arguments o.call = .ok listed) :
    ∃ c, convert source.toList o = .ok c := by
  obtain ⟨hsubtree, hlegacy⟩ := List.mem_filter.mp hcall
  obtain ⟨span, children, heq, hfits, hordered, -⟩ := placed_of_parse h hsubtree hlegacy
  rw [exists_arguments_eq_ok_iff, heq] at haccepted
  obtain ⟨c, hc⟩ := convert_eq_ok source.toList o.isStatement hfits hordered haccepted
  rw [← heq] at hc
  exact ⟨c, hc⟩

/-- The first legacy call that is refused decides the failure of the source. -/
theorem migrate_eq_first_failure {source : String} {tree : Node} (h : parse source = .ok tree)
    {before after : List Node} {call : Node} {failure : Failure}
    (hcalls : tree.subtrees.filter isLegacyCall = before ++ call :: after)
    (hbefore : ∀ c ∈ before, ∃ listed, arguments c = .ok listed)
    (hcall : arguments call = .error failure) :
    migrate source = .error (.failed failure) := by
  have hsites := map_snd_sites tree
  rw [hcalls] at hsites
  obtain ⟨front, behind, hsplit, hfront, hbehind⟩ := List.map_eq_append_iff.mp hsites
  obtain ⟨site, back, rfl, rfl, rfl⟩ := List.map_eq_cons_iff.mp hbehind
  have hconverted : ∀ o ∈ front.map occurrenceAt, ∃ c, convert source.toList o = .ok c := by
    intro o ho
    obtain ⟨s, hs, rfl⟩ := List.mem_map.mp ho
    have hmem : s.2 ∈ before := hfront ▸ List.mem_map_of_mem hs
    refine exists_convert_eq_ok h ?_ (hbefore _ hmem)
    rw [hcalls]
    exact List.mem_append_left _ hmem
  have hfails : convert source.toList (occurrenceAt site) = .error failure := by
    change (arguments site.2 >>= _) = _
    rw [hcall]
    rfl
  obtain ⟨conversions, hall⟩ := convertAll_of_first _ (back.map occurrenceAt) hconverted hfails
  rw [migrate, h]
  change (convertTree source tree).result.mapError MigrationError.failed = _
  rw [convertTree, occurrences_eq, hsplit, List.map_append, List.map_cons, hall]
  rfl

end Migration

open Migration in
/-- Every legacy call of a source is judged by its arguments, and the first call that is refused, in
the order of a walk over the tree, decides the failure of the source; when none is refused, the
source is not refused either. -/
theorem judged_of_parse {source : String} {tree : Node} (h : parse source = .ok tree) :
    (∀ call ∈ tree.subtrees, isLegacyCall call →
      ∃ span children, call = .tree .call (some span) children ∧ Judged call span.endLine) ∧
      (∀ before call after failure,
        tree.subtrees.filter isLegacyCall = before ++ call :: after →
        (∀ c ∈ before, ∃ listed, arguments c = .ok listed) →
        arguments call = .error failure → migrate source = .error (.failed failure)) ∧
      ((∀ call ∈ tree.subtrees, isLegacyCall call → ∃ listed, arguments call = .ok listed) →
        ∀ refusal, migrate source ≠ .error (.failed (.refused refusal))) := by
  refine ⟨?_, fun _ _ _ _ => migrate_eq_first_failure h, ?_⟩
  · intro call hcall hlegacy
    obtain ⟨span, children, rfl, hfits, -⟩ := placed_of_parse h hcall hlegacy
    obtain ⟨text, hprint⟩ := hfits.answers_print true
    exact ⟨span, children, rfl, judged_of_print hlegacy hprint⟩
  · intro haccepted refusal hrefused
    obtain ⟨conversions, hall⟩ := exists_conversions h fun c hc hlegacy =>
      exists_arguments_eq_ok_iff.mp (haccepted c hc hlegacy)
    rw [migrate, h] at hrefused
    change (convertTree source tree).result.mapError MigrationError.failed = _ at hrefused
    rw [convertTree, hall] at hrefused
    obtain ⟨_, hresult, ⟨⟩⟩ := mapError_eq_error_iff.mp hrefused
    obtain ⟨_, -, ⟨⟩⟩ := mapError_eq_error_iff.mp hresult

open Migration in
/-- The verb of the second call speaks against it before the third call has too many arguments. -/
theorem judged_verb_first :
    ∃ tree, parse "xhr :get, a\nxhr 'get', b\nxhr :get, c, d, e, f" = .ok tree ∧
      migrate "xhr :get, a\nxhr 'get', b\nxhr :get, c, d, e, f" =
        .error (.failed (.refused ⟨.noVerbOrPath, "xhr 'get', b", some 2⟩)) := by
  have hread : (parse "xhr :get, a\nxhr 'get', b\nxhr :get, c, d, e, f").toOption.any (fun tree =>
      (tree.subtrees.filter isLegacyCall)[0]?.any (fun c => objection? c == none) &&
        (tree.subtrees.filter isLegacyCall)[1]?.any fun c =>
          objection? c == some .noVerbOrPath && c.line? == some 2 &&
            (c.print true).toOption == some "xhr 'get', b") = true := by
    decide +kernel
  obtain ⟨tree, htree, hcalls⟩ := (Option.any_eq_true ..).mp hread
  have hparse := eq_ok_of_toOption htree
  rcases hfound : tree.subtrees.filter isLegacyCall with _ | ⟨first, _ | ⟨second, others⟩⟩
  · rw [hfound] at hcalls
    cases hcalls
  · rw [hfound, Bool.and_eq_true] at hcalls
    cases hcalls.2
  · simp only [hfound, List.getElem?_cons_zero, List.getElem?_cons_succ, Option.any_some,
      Bool.and_eq_true, beq_iff_eq] at hcalls
    obtain ⟨hfirst, ⟨hobjection, hline⟩, htext⟩ := hcalls
    have hrefused : arguments second =
        .error (.refused ⟨.noVerbOrPath, "xhr 'get', b", some 2⟩) := by
      rw [arguments, hobjection]
      simp only [refuse, eq_ok_of_toOption htext, hline]
    have haccepted : ∀ c ∈ [first], ∃ listed, arguments c = .ok listed := by
      intro c hc
      obtain rfl := List.mem_singleton.mp hc
      exact exists_arguments_eq_ok_iff.mpr hfirst
    exact ⟨tree, hparse, (judged_of_parse hparse).2.1 [first] second others _ hfound haccepted
      hrefused⟩

end XhrKeywords
