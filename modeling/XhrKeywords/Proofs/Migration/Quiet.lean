import XhrKeywords.Migration.Arguments
import XhrKeywords.Proofs.Syntax.Descent
import XhrKeywords.Proofs.Syntax.Plain

/-!
# Nothing to convert in plain expressions

Plain expressions call other methods and write their texts in quotes: no tree in one of them is a
legacy call or a heredoc.
-/

namespace XhrKeywords

open Syntax

namespace Migration

/-- Whether a node is a heredoc. -/
def isHeredoc : Node → Bool
  | .tree .str _ (.leaf content :: _) => ['<', '<'].isPrefixOf content.text.toList
  | _ => false

/-- A node without legacy calls and heredocs in it. -/
def IsQuiet (n : Node) : Prop :=
  ∀ m ∈ n.subtrees, isLegacyCall m = false ∧ isHeredoc m = false

theorem isQuiet_word (role : Role) (text : String) : IsQuiet (.word role text) :=
  fun _ hm => absurd hm List.not_mem_nil

theorem isQuiet_absent : IsQuiet .absent :=
  fun _ hm => absurd hm List.not_mem_nil

/-- A tree is quiet when its children are and it is neither a legacy call nor a heredoc. -/
theorem isQuiet_made {kind : Kind} {children : List Node}
    (hlegacy : isLegacyCall (.made kind children) = false)
    (hheredoc : isHeredoc (.made kind children) = false) (h : ∀ n ∈ children, IsQuiet n) :
    IsQuiet (.made kind children) := by
  intro m hm
  rw [Node.made, Node.subtrees] at hm
  rcases List.mem_cons.mp hm with rfl | hm
  · exact ⟨hlegacy, hheredoc⟩
  · obtain ⟨n, hn, hm⟩ := Node.mem_subtreesAll.mp hm
    exact h n hn m hm

/-- A tree of one leaf is quiet unless it is a string. -/
theorem isQuiet_leaf (kind : Kind) {role : Role} {text : String} (h : kind ≠ .str) :
    IsQuiet (.made kind [.word role text]) := by
  refine isQuiet_made ?_ ?_ (List.forall_mem_singleton.mpr (isQuiet_word role text))
  · rw [isLegacyCall]
    rintro span receiver name others ⟨⟩
  · rw [isHeredoc]
    rintro span content others ⟨⟩
    exact h rfl

theorem isQuiet_keyword {key : String} {value : Node} (h : IsQuiet value) :
    IsQuiet (keyword key value) := by
  refine isQuiet_made rfl rfl ?_
  rintro n (_ | ⟨_, _ | ⟨_, ⟨⟩⟩⟩)
  · exact isQuiet_leaf .sym (by decide)
  · exact h

/-- A call of another method is quiet when its receiver and its arguments are. -/
theorem isQuiet_call {receiver : Node} {name : String} {arguments : List Node}
    (hname : isMethodName name = true) (hreceiver : IsQuiet receiver)
    (h : ∀ n ∈ arguments, IsQuiet n) :
    IsQuiet (.made .call (receiver :: .word (.token .ident) name :: arguments)) := by
  obtain ⟨-, -, hlegacy⟩ := isMethodName_facts hname
  refine isQuiet_made (beq_eq_false_iff_ne.mpr hlegacy) rfl ?_
  exact List.forall_mem_cons.mpr ⟨hreceiver, List.forall_mem_cons.mpr ⟨isQuiet_word _ _, h⟩⟩

/-- There are no legacy calls and no heredocs in a plain expression. -/
theorem isQuiet_of_plain {n : Node} (h : Plain n) : IsQuiet n := by
  induction h with
  | int _ => exact isQuiet_leaf .int (by decide)
  | str h =>
    obtain ⟨inner, htext, -⟩ := h
    refine isQuiet_made rfl ?_ (List.forall_mem_singleton.mpr (isQuiet_word _ _))
    change ['<', '<'].isPrefixOf (_ : String).toList = false
    rw [htext]
    rfl
  | ivar _ => exact isQuiet_leaf .ivar (by decide)
  | sym _ => exact isQuiet_leaf .sym (by decide)
  | const _ =>
    refine isQuiet_made rfl rfl ?_
    exact List.forall_mem_cons.mpr ⟨isQuiet_absent,
      List.forall_mem_singleton.mpr (isQuiet_word _ _)⟩
  | value h =>
    have hkinds : ∀ kind ∈ wordKinds, isLegacyCall (.made kind []) = false ∧
        isHeredoc (.made kind []) = false := by
      decide
    obtain ⟨hlegacy, hheredoc⟩ := hkinds _ h
    exact isQuiet_made hlegacy hheredoc nofun
  | array _ ih => exact isQuiet_made rfl rfl ih
  | hash _ _ ih =>
    refine isQuiet_made rfl rfl ?_
    intro n hn
    obtain ⟨p, hp, rfl⟩ := List.mem_map.mp hn
    exact isQuiet_keyword (ih p hp)
  | call hname _ ih => exact isQuiet_call hname isQuiet_absent ih
  | methodCall _ _ hname _ hreceiver ih => exact isQuiet_call hname hreceiver ih

theorem isLegacyCall_erase {n : Node} (h : isLegacyCall n = true) :
    isLegacyCall n.erase = true := by
  unfold isLegacyCall at h
  split at h
  · rw [Node.erase_tree]
    exact h
  · cases h

theorem isHeredoc_erase {n : Node} {line : Nat} (h : opensHeredocBefore line n = true) :
    isHeredoc n.erase = true := by
  unfold opensHeredocBefore at h
  split at h
  · rw [Bool.and_eq_true] at h
    rw [Node.erase_tree]
    exact h.1
  · cases h

/-- With their places, plain expressions still have no legacy calls and no heredocs in them. -/
theorem quiet_of_plain_erase {n m : Node} (h : Plain n.erase) (hm : m ∈ n.subtrees) :
    isLegacyCall m = false ∧ ∀ line, opensHeredocBefore line m = false := by
  have hmem : m.erase ∈ n.erase.subtrees := by
    rw [Node.subtrees_erase]
    exact List.mem_map_of_mem hm
  obtain ⟨hlegacy, hheredoc⟩ := isQuiet_of_plain h m.erase hmem
  constructor
  · refine Bool.eq_false_iff.mpr fun heq => ?_
    rw [isLegacyCall_erase heq] at hlegacy
    cases hlegacy
  · intro line
    refine Bool.eq_false_iff.mpr fun heq => ?_
    rw [isHeredoc_erase heq] at hheredoc
    cases hheredoc

/-- The same holds of all that stands behind the name of a call with plain arguments. -/
theorem quiet_of_plain_arguments {name : Leaf} {arguments : List Node} {m : Node}
    (h : ∀ n ∈ arguments, Plain n.erase)
    (hm : m ∈ Node.subtreesAll (.absent :: .leaf name :: arguments)) :
    isLegacyCall m = false ∧ ∀ line, opensHeredocBefore line m = false := by
  obtain ⟨n, hn, hm⟩ := Node.mem_subtreesAll.mp hm
  rcases List.mem_cons.mp hn with rfl | hn
  · cases hm
  · rcases List.mem_cons.mp hn with rfl | hn
    · cases hm
    · exact quiet_of_plain_erase (h n hn) hm

end Migration

end XhrKeywords
