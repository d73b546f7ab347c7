import XhrKeywords.Proofs.Migration.Sites
import XhrKeywords.Proofs.Patch.Splice

/-!
# A conversion changes legacy calls alone

A source that is converted differs from its new text in the stretches of its legacy calls. These
lie inside the source and apart from each other, and in place of each stands the printed call in
keyword style. What lies between them is kept, once and in order.
-/

namespace XhrKeywords

open Syntax

namespace Migration

/-- The patch of a legacy call: it covers the call and puts the printed call in keyword style in
its place, in command style where the call is a statement of its own or had no parentheses. -/
def Replaces (source : List Char) (site : Option Node × Node) (p : Patch) : Prop :=
  site.2.extent? = some (p.start, p.stop) ∧
    ∃ listed, arguments site.2 = .ok listed ∧
      (replacement site.2 listed).print
        (Node.holdsStatements site.1 || !hasParens source site.2) = .ok p.text

/-- A valid span gives a patch of that span. -/
theorem ofSpan_eq_ok {start stop : Nat} {text : String} {p : Patch}
    (h : Patch.ofSpan start stop text = .ok p) :
    p.start = start ∧ p.stop = stop ∧ p.text = text := by
  rw [Patch.ofSpan] at h
  split at h
  · cases h
    simp
  · cases h

/-- The patch of a converted occurrence replaces the call at its site. -/
theorem replaces_of_convert {source : List Char} {site : Option Node × Node} {c : Conversion}
    (h : convert source (occurrenceAt site) = .ok c) : Replaces source site c.patch := by
  simp only [convert, occurrenceAt, isCommand, bind, Except.bind, pure, Except.pure] at h
  cases ha : arguments site.2 with
  | error e => simp [ha] at h
  | ok listed =>
    simp only [ha] at h
    cases ht : (replacement site.2 listed).print
        (Node.holdsStatements site.1 || !hasParens source site.2) with
    | error e => simp [ht, Except.mapError] at h
    | ok text =>
      simp only [ht, Except.mapError] at h
      cases he : site.2.extent? with
      | none => simp [he] at h
      | some extent =>
        obtain ⟨start, stop⟩ := extent
        simp only [he] at h
        cases hp : Patch.ofSpan start stop text with
        | error e => simp [hp] at h
        | ok p =>
          simp only [hp, Except.ok.injEq] at h
          obtain ⟨hstart, hstop, htext⟩ := ofSpan_eq_ok hp
          subst h
          exact ⟨by rw [he, hstart, hstop], listed, ha, by rw [htext, ht]⟩

/-- Without a failure every occurrence is converted, one after the other. -/
theorem forall₂_of_convertAll {source : List Char} {found : List Occurrence}
    {conversions : List Conversion} (h : convertAll source found = (conversions, none)) :
    List.Forall₂ (fun o c => convert source o = .ok c) found conversions := by
  induction found generalizing conversions with
  | nil =>
    cases h
    exact List.Forall₂.nil
  | cons o others ih =>
    rw [convertAll] at h
    cases hc : convert source o with
    | error failure => simp [hc] at h
    | ok c =>
      obtain ⟨cs, hcs⟩ : ∃ cs, convertAll source others = (cs, none) := by
        rcases hrest : convertAll source others with ⟨cs, failure⟩
        simp only [hc, hrest, Prod.mk.injEq] at h
        exact ⟨cs, by rw [h.2]⟩
      simp only [hc, hcs, Prod.mk.injEq, and_true] at h
      subst h
      exact List.Forall₂.cons hc (ih hcs)

/-- The tree, the conversions and the spliced patches of a source that is converted. -/
theorem conversions_of_migrate {source out : String} (h : migrate source = .ok out) :
    ∃ tree conversions, parse source = .ok tree ∧
      List.Forall₂ (fun o c => convert source.toList o = .ok c) (occurrences tree) conversions ∧
      Patch.apply source (conversions.map (·.patch)) = .ok out := by
  simp only [migrate, bind, Except.bind] at h
  cases hp : parse source with
  | error e => simp [hp, Except.mapError] at h
  | ok tree =>
    simp only [hp, Except.mapError, convertTree] at h
    rcases hc : convertAll source.toList (occurrences tree) with ⟨conversions, failure⟩
    cases failure with
    | some failure => simp [hc] at h
    | none =>
      simp only [hc] at h
      refine ⟨tree, conversions, rfl, forall₂_of_convertAll hc, ?_⟩
      cases ha : Patch.apply source (conversions.map (·.patch)) with
      | error e => simp [ha] at h
      | ok spliced =>
        simp only [ha, Except.ok.injEq] at h
        rw [h]

/-- The patches of a source that is converted: each replaces the legacy call at its site. -/
theorem replaces_of_migrate {source out : String} (h : migrate source = .ok out) :
    ∃ tree patches, parse source = .ok tree ∧
      List.Forall₂ (Replaces source.toList) (sites tree) patches ∧
      Patch.apply source patches = .ok out := by
  obtain ⟨tree, conversions, hparse, hconverted, happly⟩ := conversions_of_migrate h
  rw [occurrences_eq, List.forall₂_map_left_iff] at hconverted
  refine ⟨tree, conversions.map (·.patch), hparse, ?_, happly⟩
  rw [List.forall₂_map_right_iff]
  exact hconverted.imp fun _ _ hc => replaces_of_convert hc

end Migration

open Migration in
/-- A converted source differs from the old one exactly in the legacy calls of its tree: each is
replaced by its printed call in keyword style, their stretches lie inside the source and apart from
each other, and a source without legacy calls stays as it is. -/
theorem migrate_rewrites_sites {source out : String} (h : migrate source = .ok out) :
    ∃ tree patches, parse source = .ok tree ∧
      (sites tree).map Prod.snd = tree.subtrees.filter isLegacyCall ∧
      List.Forall₂ (Replaces source.toList) (sites tree) patches ∧
      patches.Pairwise Patch.Apart ∧ (∀ p ∈ patches, p.stop ≤ source.length) ∧
      (∃ ordered, ordered.Perm patches ∧
        Patch.Rewrites 0 ordered source.toList out.toList) ∧
      (tree.subtrees.filter isLegacyCall = [] → out = source) := by
  obtain ⟨tree, patches, hparse, hreplaces, happly⟩ := replaces_of_migrate h
  obtain ⟨hapart, hinside, hrewrites⟩ := Patch.rewrites_of_apply happly
  refine ⟨tree, patches, hparse, map_snd_sites tree, hreplaces, hapart, hinside,
    ⟨_, Patch.sort_perm _, hrewrites⟩, ?_⟩
  intro hnone
  have hsites : sites tree = [] := by
    rw [← map_snd_sites, List.map_eq_nil_iff] at hnone
    exact hnone
  rw [hsites] at hreplaces
  rw [List.forall₂_nil_left_iff.mp hreplaces] at hrewrites
  exact (String.toList_inj.mp (Patch.rewrites_nil_iff.mp hrewrites)).symm

open Migration in
/-- Around a converted argument the call and the comment are kept. -/
theorem migrate_rewrites_argument :
    migrate "foo(xhr(:post, b, c: 1)) # old\n" =
        .ok "foo(post(b, params: \x7b c: 1 \x7d, xhr: true)) # old\n" ∧
      ∃ tree patches, parse "foo(xhr(:post, b, c: 1)) # old\n" = .ok tree ∧
        List.Forall₂ (Replaces "foo(xhr(:post, b, c: 1)) # old\n".toList) (sites tree) patches ∧
        ∃ ordered, ordered.Perm patches ∧
          Patch.Rewrites 0 ordered "foo(xhr(:post, b, c: 1)) # old\n".toList
            "foo(post(b, params: \x7b c: 1 \x7d, xhr: true)) # old\n".toList := by
  have hmigrate : migrate "foo(xhr(:post, b, c: 1)) # old\n" =
      .ok "foo(post(b, params: \x7b c: 1 \x7d, xhr: true)) # old\n" := by
    decide +kernel
  obtain ⟨tree, patches, hparse, -, hreplaces, -, -, hordered, -⟩ :=
    migrate_rewrites_sites hmigrate
  exact ⟨hmigrate, tree, patches, hparse, hreplaces, hordered⟩

end XhrKeywords
