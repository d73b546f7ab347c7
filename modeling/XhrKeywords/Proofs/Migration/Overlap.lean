import XhrKeywords.Proofs.Grammar.Nest.Program
import XhrKeywords.Proofs.Migration.Overrun
import XhrKeywords.Proofs.Patch.Overlap

/-!
# Calls lie in each other or apart

The calls of a source form a laminar family: a call below another one lies inside it, and all others
lie apart. Patches of convertible calls therefore overlap exactly when one legacy call holds another
one.
-/

namespace XhrKeywords

open Syntax Grammar

namespace Migration

variable {source : String} {tree : Node}

/-- The calls of a source are nested. -/
theorem nested_of_parse (h : parse source = .ok tree) :
    ∃ tokens hi, Token.tokenize source = .ok tokens ∧ Nested (CallFit tokens) 0 hi [tree] := by
  obtain ⟨tokens, htokens, htree⟩ := bind_eq_ok_iff.mp h
  rw [mapError_eq_ok_iff] at htokens htree
  obtain ⟨hi, hnested⟩ := nested_of_parseTokens (Token.tokens_inOrder htokens) htree
  exact ⟨tokens, hi, htokens, hnested⟩

/-- A colon at an offset of a text. -/
theorem getElem?_of_peek_drop {text : List Char} {k : Nat} (h : peek (text.drop k) 0 = ':') :
    text[k]? = some ':' := by
  rw [peek, List.getD_eq_getElem?_getD, List.getElem?_drop, Nat.add_zero] at h
  cases hk : text[k]? with
  | none =>
    rw [hk] at h
    exact absurd h (by decide)
  | some c =>
    rw [hk] at h
    exact congrArg some h

/-- A call is accepted when nothing speaks against it. -/
theorem exists_arguments_eq_ok_iff {call : Node} :
    (∃ listed, arguments call = .ok listed) ↔ objection? call = none := by
  rw [arguments]
  cases objection? call <;> simp

/-- When nothing speaks against the legacy calls of a source, all of them are converted. -/
theorem exists_conversions (h : parse source = .ok tree)
    (hnone : ∀ c ∈ tree.subtrees, isLegacyCall c → objection? c = none) :
    ∃ conversions, convertAll source.toList (occurrences tree) = (conversions, none) := by
  have hmem : ∀ o ∈ occurrences tree, o.call ∈ tree.subtrees ∧ isLegacyCall o.call :=
    fun _ ho => List.mem_filter.mp (call_mem_of_mem_occurrences ho)
  exact convertAll_of_convertible source.toList
    (fun o ho => placed_of_parse h (hmem o ho).1 (hmem o ho).2)
    fun o ho => hnone _ (hmem o ho).1 (hmem o ho).2

/-- Conversions of all calls fail as their patches do. -/
theorem migrate_eq_failed_patch_iff (h : parse source = .ok tree) {conversions : List Conversion}
    (hall : convertAll source.toList (occurrences tree) = (conversions, none)) {e : Patch.Error} :
    migrate source = .error (.failed (.patch e)) ↔
      Patch.apply source (conversions.map (·.patch)) = .error e := by
  have hmigrate : migrate source =
      (convertTree source tree).result.mapError MigrationError.failed := by
    rw [migrate, h]
    rfl
  rw [hmigrate, convertTree, hall]
  simp [mapError_eq_error_iff]

/-- The stretches of the legacy calls lie apart exactly when none of the calls holds another one. -/
theorem pairwise_stretches_iff {tokens : List Token} {hi : Nat}
    (hnested : Nested (CallFit tokens) 0 hi [tree]) :
    (stretches tree).Pairwise (fun p q => p.2 ≤ q.1 ∨ q.2 ≤ p.1) ↔
      ¬ ∃ c ∈ tree.subtrees, isLegacyCall c ∧ ∃ d ∈ c.inner, isLegacyCall d := by
  have hapart := hnested.pairwise_apart_iff (fun _ _ hfit => hfit.lt)
    (fun _ => isKind_of_isLegacyCall)
  rw [Node.subtreesAll_cons, Node.subtreesAll, List.append_nil] at hapart
  rw [stretches, List.pairwise_filterMap]
  refine Iff.trans hapart ?_
  push Not
  rfl

/-- When every legacy call is accepted and none ends behind the source, the conversion fails for an
overlap exactly when a legacy call holds another one. -/
theorem migrate_overlap_iff (h : parse source = .ok tree) {tokens : List Token} {hi : Nat}
    (hnested : Nested (CallFit tokens) 0 hi [tree])
    (hnone : ∀ c ∈ tree.subtrees, isLegacyCall c → objection? c = none)
    (hinside : ∀ c ∈ tree.subtrees, isLegacyCall c → ∀ span ∈ c.extent?, span.2 ≤ source.length) :
    (∃ start stop reached replaced,
      migrate source = .error (.failed (.patch (.overlap start stop reached replaced)))) ↔
      ∃ c ∈ tree.subtrees, isLegacyCall c ∧ ∃ d ∈ c.inner, isLegacyCall d := by
  obtain ⟨conversions, hall⟩ := exists_conversions h hnone
  have hstretches := stretches_of_convertAll source.toList hall
  have hcall : ∀ p ∈ conversions.map (·.patch), ∃ c ∈ tree.subtrees, isLegacyCall c ∧
      c.extent? = some p.stretch := by
    intro p hp
    have hmem : p.stretch ∈ stretches tree := hstretches ▸ List.mem_map_of_mem hp
    obtain ⟨c, hc, hextent⟩ := List.mem_filterMap.mp hmem
    obtain ⟨hc, hlegacy⟩ := List.mem_filter.mp hc
    exact ⟨c, hc, hlegacy, hextent⟩
  have hends : ∀ p ∈ conversions.map (·.patch), p.stop ≤ source.length := by
    intro p hp
    obtain ⟨c, hc, hlegacy, hextent⟩ := hcall p hp
    exact hinside c hc hlegacy _ hextent
  simp only [migrate_eq_failed_patch_iff h hall]
  rw [Patch.exists_apply_eq_overlap_iff hends, not_iff_comm,
    ← pairwise_stretches_iff hnested, ← hstretches, List.pairwise_map]
  rfl

end Migration

open Migration in
/-- The calls of a source lie inside the calls that hold them, apart from all others, and start in
the order of a walk over the tree. Each has characters, starts with a token and ends with one that
is no line break, or in front of the colon of a label that is read as its name. When every legacy
call is accepted and none ends behind the source, the conversion fails for an overlap exactly when
a legacy call holds another one. -/
theorem laminar_of_parse {source : String} {tree : Node} (h : parse source = .ok tree) :
    Laminar tree ∧
      (∃ tokens, Token.tokenize source = .ok tokens ∧ ∀ c ∈ tree.subtrees, c.isKind .call →
        ∃ start stop, c.extent? = some (start, stop) ∧ start < stop ∧
          (∃ t ∈ tokens, t.start = start) ∧
          ((∃ t ∈ tokens, t.kind ≠ .newline ∧ t.kind ≠ .eof ∧ t.stop = stop) ∨
            ∃ t ∈ tokens, t.kind = .label ∧ t.start = start ∧ t.stop = stop + 1 ∧
              source.toList[stop]? = some ':' ∧
              ∃ name, c.children = [.absent, .leaf name] ∧ name.text = t.text)) ∧
      ((∀ c ∈ tree.subtrees, isLegacyCall c → ∃ listed, arguments c = .ok listed) →
        (∀ c ∈ tree.subtrees, isLegacyCall c → ∀ span ∈ c.extent?, span.2 ≤ source.length) →
        ((∃ start stop reached replaced,
          migrate source = .error (.failed (.patch (.overlap start stop reached replaced)))) ↔
          ∃ c ∈ tree.subtrees, isLegacyCall c ∧ ∃ d ∈ c.inner, isLegacyCall d)) := by
  obtain ⟨tokens, hi, htokens, hnested⟩ := nested_of_parse h
  refine ⟨hnested.laminar, ⟨tokens, htokens, ?_⟩, ?_⟩
  · intro c hc hkind
    obtain ⟨span, children, rfl, hfit, -⟩ :=
      hnested.sits_in hc hkind
    refine ⟨span.start, span.stop, rfl, hfit.lt, hfit.starts, hfit.ends.imp_right ?_⟩
    rintro ⟨t, ht, hlabel, hstart, hstop, hname⟩
    have hcolon := Token.colon_of_label htokens ht hlabel
    rw [hstop, Nat.add_sub_cancel] at hcolon
    exact ⟨t, ht, hlabel, hstart, hstop, getElem?_of_peek_drop hcolon, hname⟩
  · intro haccepted hinside
    exact migrate_overlap_iff h hnested
      (fun c hc hlegacy => exists_arguments_eq_ok_iff.mp (haccepted c hc hlegacy)) hinside

open Migration in
/-- A call in the path of another one overlaps it. -/
theorem laminar_of_call_in_path :
    ∃ tree, parse "xhr :get, xhr(:post, a)" = .ok tree ∧ Laminar tree ∧
      ∃ start stop reached replaced, migrate "xhr :get, xhr(:post, a)" =
        .error (.failed (.patch (.overlap start stop reached replaced))) := by
  have hread : (parse "xhr :get, xhr(:post, a)").toOption.any (fun tree =>
      tree.subtrees.all (fun c => !isLegacyCall c || (objection? c).isNone &&
        c.extent?.all (fun span => span.2 ≤ "xhr :get, xhr(:post, a)".length)) &&
      tree.subtrees.any fun c => isLegacyCall c && c.inner.any isLegacyCall) = true := by
    decide +kernel
  obtain ⟨tree, htree, hcalls⟩ := (Option.any_eq_true _ _).mp hread
  simp only [Bool.and_eq_true, List.all_eq_true, List.any_eq_true, Bool.or_eq_true,
    Bool.not_eq_true', Option.isNone_iff_eq_none, Option.all_eq_true, decide_eq_true_eq] at hcalls
  obtain ⟨hfine, c, hc, hlegacy, d, hd, hinner⟩ := hcalls
  have hparse := eq_ok_of_toOption htree
  obtain ⟨hlaminar, -, hoverlap⟩ := laminar_of_parse hparse
  refine ⟨tree, hparse, hlaminar, (hoverlap ?_ ?_).mpr ⟨c, hc, hlegacy, d, hd, hinner⟩⟩
  · intro c hc hlegacy
    obtain hno | ⟨hnone, -⟩ := hfine c hc
    · exact absurd hlegacy (by simp [hno])
    · exact exists_arguments_eq_ok_iff.mpr hnone
  · intro c hc hlegacy
    obtain hno | ⟨-, hspan⟩ := hfine c hc
    · exact absurd hlegacy (by simp [hno])
    · exact fun span hs => hspan span hs

/-- A call in the block of another one lies beside it, so that both are converted. -/
example : migrate "xhr(:get, a) \x7b xhr :get, b \x7d" =
    .ok "get(a, xhr: true) \x7b get b, xhr: true \x7d" := by
  decide +kernel

end XhrKeywords
