import XhrKeywords.Proofs.Grammar.Progress.Basic

/-!
# Arguments and literals take tokens

Every argument and every pair takes a token, so argument lists and hashes end.
-/

namespace XhrKeywords.Grammar

open Syntax hiding Kind
open Token (Kind)

variable {T pre : Token → Prop} {k n : Nat} {g : Rules}

/-- The name of a label has been taken already. -/
theorem keeps_nameReference (label : Token) : Keeps T k (nameReference label) :=
  promises_look (fun s => isLocal_run s _) fun _ => (leaves_pure _).ite (leaves_pure _)

/-- A look for the closing mark of a list, if it has one. -/
theorem leaves_seesCloser (closer : Option Kind) : LeavesAt T pre k k (seesCloser closer) := by
  cases closer with
  | none => exact leaves_pure false
  | some kind => exact leaves_look fun s => sees_run s kind

/-- Line breaks are passed over in a list with a closing mark. -/
theorem leaves_skipNewlinesWithin (closer : Option Kind) :
    LeavesAt T pre k k (skipNewlinesWithin closer) :=
  leaves_skipNewlines.ite (leaves_pure ())

section Single

variable (hg : g.Bounded T n) (hk : k ≤ n)

include hg hk

/-- A label without a value is the token of an error. -/
theorem keeps_labelValue (closer : Option Kind) {label : Token} (hlabel : T label) :
    Keeps T k (labelValue g closer label) := by
  apply promises_look fun s => seesClass_run s _
  intro stops
  apply (leaves_seesCloser closer).bind
  intro closes
  apply Promises.ite
  · exact (keeps_nameReference label).ite (promises_failAt hlabel nofun)
  · exact hg.keeps .assignment hk

/-- A pair `name: value` takes its label. -/
theorem lowersAt_labelPair (closer : Option Kind) : LowersAt T k (labelPair g closer) := by
  apply promises_take
  intro label hlabel
  apply (leaves_build ..).bind
  intro key
  apply (keeps_labelValue hg hk closer hlabel).bind
  intro value
  exact leaves_build ..

/-- A pair `**value` takes its stars. -/
theorem lowersAt_doubleSplat : LowersAt T k (doubleSplat g) := by
  apply promises_take
  intro mark _
  apply (hg.keeps .assignment hk).bind
  intro inner
  exact leaves_build ..

/-- The arrow of a pair is taken and then the value read. -/
theorem keeps_arrowPair (key : Node) : Keeps T k (arrowPair g key) := by
  apply leaves_skipNewlines.bind
  intro _
  apply (hg.keeps .assignment hk).bind
  intro value
  exact leaves_build ..

/-- The value behind a star or an ampersand may be left out. -/
theorem keeps_markedValue (closer : Option Kind) : Keeps T k (markedValue g closer) := by
  apply promises_look fun s => sees_run s .comma
  intro comma
  apply (leaves_seesCloser closer).bind
  intro closes
  apply Promises.ite
  · exact leaves_pure _
  · exact (hg.keeps .assignment hk).bind fun _ => leaves_pure _

/-- An argument `*value` or `&value` takes its mark. -/
theorem lowersAt_markedArgument (closer : Option Kind) (kind : Syntax.Kind) :
    LowersAt T k (markedArgument g closer kind) := by
  apply promises_take
  intro mark _
  apply (keeps_markedValue hg hk closer).bind
  intro inner
  exact leaves_build ..

end Single

/-- An element of a list takes its star, or what the element takes. -/
theorem lowers_splatOr {element : Parser Node} (helement : Lowers T k element) :
    Lowers T k (splatOr element) := by
  apply promises_if_sees
  · apply promises_take_kind .star nofun
    intro star _
    apply helement.fewer.bind
    intro inner
    exact leaves_build ..
  · exact helement

/-- An argument takes its value or its key. -/
theorem lowers_valueOrPair (hg : g.Bounded T n) (hk : k < n) (closer : Option Kind)
    (c : Collected) : Lowers T k (valueOrPair g closer c) := by
  apply (hg.read _ hk).bind
  intro value
  apply (leaves_accept .assoc).cond
  · exact (keeps_arrowPair hg (Nat.le_of_lt hk) value).bind fun _ => leaves_pure _
  · exact leaves_pure _

/-- An argument takes a token whatever its first token is. -/
theorem lowers_argument (hg : g.Bounded T n) (hk : k < n) (closer : Option Kind) (c : Collected) :
    Lowers T k (argument g closer c) := by
  have hle : k ≤ n := Nat.le_of_lt hk
  have hmarked {kind : Syntax.Kind} := lowersAt_markedArgument hg hle closer kind
  have hlabel := lowersAt_labelPair hg hle closer
  apply promises_at_current
  intro t
  split
  · exact (hmarked.at_token ‹_› (by decide)).bind fun _ => leaves_pure _
  · exact (hmarked.at_token ‹_› (by decide)).bind fun _ => leaves_pure _
  · exact ((lowersAt_doubleSplat hg hle).at_token ‹_› (by decide)).bind fun _ => leaves_pure _
  · exact (hlabel.at_token ‹_› (by decide)).bind fun _ => leaves_pure _
  · exact (hlabel.at_token ‹_› (by decide)).bind fun _ => leaves_pure _
  · exact (lowers_valueOrPair hg hk closer c).any

/-- A round of an argument list takes an argument, or it is the last one. -/
theorem turns_argumentRound (hg : g.Bounded T n) (hk : k < n) (closer : Option Kind) :
    Turns T k (argumentRound g closer) := by
  intro c
  apply (leaves_skipNewlinesWithin closer).bind
  intro _
  apply (leaves_seesCloser closer).cond
  · exact lowered_pure _
  · apply Promises.lowered
    apply (lowers_argument hg hk closer c).bind
    intro more
    apply (leaves_skipNewlinesWithin closer).bind
    intro _
    exact leaves_listRound more

section Lists

variable (hg : g.Bounded T n) (hk : k ≤ n)

include hg hk

/-- An argument list may be empty. -/
theorem keeps_arguments (closer : Option Kind) : Keeps T k (arguments g closer) := by
  apply (hg.keeps_loop (fun _ hj => turns_argumentRound hg hj closer) hk .empty).bind
  intro c
  cases closer with
  | none => exact leaves_pure _
  | some kind =>
    apply (leaves_expectOr kind (.unclosedArguments kind) fun _ => nofun).bind
    intro _
    exact leaves_pure _

/-- Arguments between parentheses or brackets take the opening one. -/
theorem lowersAt_delimitedArguments (closer : Kind) :
    LowersAt T k (delimitedArguments g closer) := by
  apply promises_take
  intro _ _
  exact leaves_bracketed (keeps_arguments hg hk _)

end Lists

/-- A literal or a name takes its token. -/
theorem lowersAt_single (kind : Syntax.Kind) : LowersAt T k (single kind) :=
  promises_take fun _ _ => leaves_build ..

/-- A literal or a name in a role takes its token. -/
theorem lowersAt_singleAs (kind : Syntax.Kind) (role : Role) :
    LowersAt T k (singleAs kind role) :=
  promises_take fun _ _ => leaves_build ..

/-- A word takes its token. -/
theorem lowersAt_bare (kind : Syntax.Kind) : LowersAt T k (bare kind) :=
  promises_take fun _ _ => leaves_build ..

/-- A further string literal takes its token, or there is none. -/
theorem turns_stringRound : Turns T k stringRound := by
  intro found
  apply promises_at_current
  intro t
  apply promises_look previous_run
  intro last
  split
  · rename_i hstring
    obtain ⟨hkind, -⟩ := Bool.and_eq_true_iff.mp hstring
    exact ((lowersAt_single .str).at_token (beq_iff_eq.mp hkind) (by decide)).againWith.lowered
  · exact lowered_pure _

/-- Where no string was found, none stood there. -/
theorem lowers_strings (hg : g.Bounded T n) (hk : k ≤ n) : Lowers T k (strings g) := by
  intro s hs _
  have hloop := hg.lowersUnless_loop (fun _ _ => turns_stringRound) hk [] hs trivial
  rw [strings, bind_run]
  revert hloop
  cases g.loop stringRound [] s with
  | error e => exact id
  | ok answer =>
    obtain ⟨found, t⟩ := answer
    rintro (ht | ⟨rfl, ht⟩)
    · match found with
      | [] => exact ⟨nofun, ht.current⟩
      | [only] => exact ht
      | first :: second :: others => exact ht
    · exact ⟨nofun, ht.current⟩

/-- A pair of a hash literal takes its key. -/
theorem lowers_rocketPair (hg : g.Bounded T n) (hk : k < n) : Lowers T k (rocketPair g) := by
  apply (hg.read .assignment hk).bind
  intro key
  apply leaves_skipNewlines.bind
  intro _
  apply (leaves_expectOr .assoc .missingRocket fun _ => nofun).bind
  intro _
  exact keeps_arrowPair hg (Nat.le_of_lt hk) key

/-- An element of a hash literal takes a label, its stars or its key. -/
theorem lowers_hashElement (hg : g.Bounded T n) (hk : k < n) : Lowers T k (hashElement g) := by
  have hle : k ≤ n := Nat.le_of_lt hk
  have hlabel := lowersAt_labelPair hg hle (some .rbrace)
  apply promises_at_current
  intro t
  split
  · exact (lowersAt_doubleSplat hg hle).at_token ‹_› (by decide)
  · exact hlabel.at_token ‹_› (by decide)
  · exact hlabel.at_token ‹_› (by decide)
  · exact (lowers_rocketPair hg hk).any

/-- A round of a hash literal takes an element, or it is the last one. -/
theorem turns_hashRound (hg : g.Bounded T n) (hk : k < n) : Turns T k (hashRound g) := by
  intro found
  apply leaves_skipNewlines.bind
  intro _
  apply (leaves_look fun s => sees_run s .rbrace).cond
  · exact lowered_pure _
  · apply Promises.lowered
    apply (lowers_hashElement hg hk).bind
    intro next
    apply leaves_skipNewlines.bind
    intro _
    exact leaves_commaRound _

/-- A hash literal takes its opening brace. -/
theorem lowers_hash (hg : g.Bounded T n) (hk : k ≤ n) : Lowers T k (hash g) := by
  apply leaves_bracketed
  apply (lowers_expect .lbrace nofun).bind
  intro start
  apply (hg.keeps_loop (fun _ hj => turns_hashRound hg hj) hk []).bind
  intro pairs
  apply leaves_skipNewlines.bind
  intro _
  apply (leaves_expectCloser .rbrace _ _).bind
  intro _
  exact leaves_build ..

/-- An operator that names a method is not the end of the source. -/
theorem isTaken_of_isOperatorMethod {t : Token} (h : t.kind.isOperatorMethod) : IsTaken t := by
  intro heof
  rw [heof] at h
  cases h

/-- A name in an `alias` takes its token. -/
theorem lowers_aliasName : Lowers T k aliasName := by
  have hsymbol := lowersAt_singleAs (T := T) (k := k) .sym (.token .ident)
  apply promises_at_current
  intro t
  split
  · exact hsymbol.at_token ‹_› (by decide)
  · exact hsymbol.at_token ‹_› (by decide)
  · exact hsymbol.at_token ‹_› (by decide)
  · exact (lowersAt_single .gvar).at_token ‹_› (by decide)
  · split
    · exact hsymbol.weaken fun u hu => hu ▸ isTaken_of_isOperatorMethod ‹_›
    · exact promises_fail fun _ => nofun

end XhrKeywords.Grammar
