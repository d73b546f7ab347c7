import XhrKeywords.CommandLine.Run
import XhrKeywords.Proofs.Grammar.Fit
import XhrKeywords.Proofs.Migration.Convertible
import XhrKeywords.Proofs.Patch.Outside
import XhrKeywords.Proofs.Syntax.Descent
import XhrKeywords.Proofs.Token.Placement

/-!
# The one source that stops a run

A source that can be read is converted, refused, or its calls overlap, and a run goes on behind it.
There is one exception: a legacy call that ends in a character literal without its character, at
the very end of the source. That literal ends one place behind the source, and so does the patch.
-/

namespace XhrKeywords

open Syntax Grammar

namespace Migration

/-- A call that fits the grammar of trees and has its place in a source. -/
structure Placed (limit : Nat) (call : Node) (span : Span) (children : List Node) : Prop where
  call_eq : call = .tree .call (some span) children
  fits : Fits (Inside limit) .value (.tree .call (some span) children)
  ordered : span.start ≤ span.stop
  stop_le : span.stop ≤ limit

/-- A legacy call is a call. -/
theorem isKind_of_isLegacyCall {n : Node} (h : isLegacyCall n) : n.isKind .call := by
  unfold isLegacyCall at h
  split at h
  · rfl
  · cases h

/-- The legacy calls of a source have their places in it. -/
theorem placed_of_parse {source : String} {tree : Node} (h : parse source = .ok tree) {call : Node}
    (hcall : call ∈ tree.subtrees) (hlegacy : isLegacyCall call) :
    ∃ span children, Placed (Token.reach source.toList) call span children := by
  obtain ⟨tokens, htokens, htree⟩ := bind_eq_ok_iff.mp h
  rw [mapError_eq_ok_iff] at htokens htree
  obtain ⟨whole, found, rfl, hfound⟩ :=
    program_of_parseTokens (Token.tokens_placed htokens) htree
  have hcalls : CallsFit (Inside (Token.reach source.toList)) (.tree .program whole found) :=
    callsFit_tree nofun fun n hn => (hfound n hn).calls
  have hkind := isKind_of_isLegacyCall hlegacy
  have hfits := hcalls call hcall hkind
  obtain ⟨kind, span, children, rfl, -, -⟩ := hfits.tree_of_value
  rw [Node.isKind, Node.kind?, beq_iff_eq, Option.some.injEq] at hkind
  subst hkind
  obtain ⟨hhollow | ⟨s, rfl, -, hstop, hordered⟩, -⟩ := hfits.call_parts
  · cases hhollow
  · exact ⟨s, children, rfl, hfits, hordered rfl, hstop⟩

variable (source : List Char) {limit : Nat} {found : List Occurrence}

/-- Calls against which nothing speaks are all converted. -/
theorem convertAll_of_convertible
    (hplaced : ∀ o ∈ found, ∃ span children, Placed limit o.call span children)
    (hnone : ∀ o ∈ found, objection? o.call = none) :
    ∃ conversions, convertAll source found = (conversions, none) := by
  induction found with
  | nil => exact ⟨[], rfl⟩
  | cons o others ih =>
    obtain ⟨span, children, heq, hfits, hordered, -⟩ := hplaced o List.mem_cons_self
    have ho := hnone o List.mem_cons_self
    rw [heq] at ho
    obtain ⟨c, hc⟩ := convert_eq_ok source o.isStatement hfits hordered ho
    obtain ⟨cs, hcs⟩ := ih (fun p hp => hplaced p (List.mem_cons_of_mem _ hp))
      fun p hp => hnone p (List.mem_cons_of_mem _ hp)
    rw [← heq] at hc
    exact ⟨c :: cs, by rw [convertAll, hc, hcs]⟩

/-- When something speaks against one of several calls, one of them is refused. -/
theorem convertAll_of_objection
    (hplaced : ∀ o ∈ found, ∃ span children, Placed limit o.call span children)
    (hsome : ∃ o ∈ found, objection? o.call ≠ none) :
    ∃ conversions refusal, convertAll source found = (conversions, some (.refused refusal)) := by
  induction found with
  | nil =>
    obtain ⟨o, ho, -⟩ := hsome
    cases ho
  | cons o others ih =>
    obtain ⟨span, children, heq, hfits, hordered, -⟩ := hplaced o List.mem_cons_self
    cases ho : objection? o.call with
    | some cause =>
      rw [heq] at ho
      obtain ⟨refusal, hr⟩ := convert_eq_refused source o.isStatement hfits ho
      rw [← heq] at hr
      exact ⟨[], refusal, by rw [convertAll, hr]⟩
    | none =>
      have hrest : ∃ p ∈ others, objection? p.call ≠ none := by
        obtain ⟨p, hp, hpn⟩ := hsome
        rcases List.mem_cons.mp hp with rfl | hp
        · exact absurd ho hpn
        · exact ⟨p, hp, hpn⟩
      obtain ⟨cs, refusal, hcs⟩ := ih (fun p hp => hplaced p (List.mem_cons_of_mem _ hp)) hrest
      rw [heq] at ho
      obtain ⟨c, hc⟩ := convert_eq_ok source o.isStatement hfits hordered ho
      rw [← heq] at hc
      exact ⟨c :: cs, refusal, by rw [convertAll, hc, hcs]⟩

/-- The stretches of the legacy calls of a tree, each before those in it. -/
def stretches (tree : Node) : List (Nat × Nat) :=
  (tree.subtrees.filter isLegacyCall).filterMap Node.extent?

/-- The patches of converted calls cover the calls. -/
theorem stretches_of_convertAll {tree : Node} {conversions : List Conversion}
    (h : convertAll source (occurrences tree) = (conversions, none)) :
    (conversions.map (·.patch)).map Patch.stretch = stretches tree := by
  have hconverted := forall₂_of_convertAll h
  rw [occurrences_eq, List.forall₂_map_left_iff] at hconverted
  rw [stretches, ← map_snd_sites]
  clear h
  generalize sites tree = found at hconverted ⊢
  induction hconverted with
  | nil => rfl
  | cons hc _ ih =>
    rw [List.map_cons, List.map_cons, List.map_cons, ih,
      List.filterMap_cons_some (replaces_of_convert hc).1]
    rfl

/-- A tree whose conversion fails with a defect: nothing speaks against its calls, and one of them
ends behind the source. -/
theorem convertTree_isDefect_iff {source : String} {tree : Node}
    (h : parse source = .ok tree) :
    (∃ f, (convertTree source tree).result = .error f ∧ f.isDefect) ↔
      (∀ call ∈ tree.subtrees.filter isLegacyCall, objection? call = none) ∧
        Patch.Overrun source.length (stretches tree) := by
  have hmem : ∀ o ∈ occurrences tree, o.call ∈ tree.subtrees.filter isLegacyCall :=
    fun _ ho => call_mem_of_mem_occurrences ho
  have hplaced : ∀ o ∈ occurrences tree, ∃ span children,
      Placed (Token.reach source.toList) o.call span children := by
    intro o ho
    obtain ⟨hcall, hlegacy⟩ := List.mem_filter.mp (hmem o ho)
    exact placed_of_parse h hcall hlegacy
  -- A refusal is met before any patch is applied, and it is no defect.
  by_cases hnone : ∀ call ∈ tree.subtrees.filter isLegacyCall, objection? call = none
  · obtain ⟨conversions, hall⟩ := convertAll_of_convertible source.toList hplaced
      fun o ho => hnone _ (hmem o ho)
    rw [← stretches_of_convertAll _ hall, ← Patch.apply_eq_outside_iff, convertTree, hall]
    simp only [mapError_eq_error_iff]
    constructor
    · rintro ⟨_, ⟨e, he, rfl⟩, hdefect⟩
      refine ⟨hnone, ?_⟩
      cases e with
      | outside start stop => exact ⟨start, stop, he⟩
      | overlap => cases hdefect
      | invalid start stop => exact absurd he Patch.apply_ne_invalid
    · rintro ⟨-, start, stop, he⟩
      exact ⟨_, ⟨_, he, rfl⟩, rfl⟩
  · constructor
    · rintro ⟨f, hf, hdefect⟩
      have hsome : ∃ o ∈ occurrences tree, objection? o.call ≠ none := by
        simp only [not_forall] at hnone
        obtain ⟨call, hcall, hobjection⟩ := hnone
        rw [← map_snd_sites, List.mem_map] at hcall
        obtain ⟨site, hsite, rfl⟩ := hcall
        rw [occurrences_eq]
        exact ⟨occurrenceAt site, List.mem_map_of_mem hsite, hobjection⟩
      obtain ⟨conversions, refusal, hall⟩ :=
        convertAll_of_objection source.toList hplaced hsome
      rw [convertTree, hall] at hf
      cases hf
      cases hdefect
    · rintro ⟨hall, -⟩
      exact absurd hall hnone

/-- A source that ends in a character literal without its character, behind legacy calls that are
all convertible: in the order of their starts they lie one behind the other, up to one that ends
with that literal. -/
def CutShort (source : String) : Prop :=
  ∃ tree, parse source = .ok tree ∧ Literal.openCharacter <:+ source.toList ∧
    (∀ call ∈ tree.subtrees.filter isLegacyCall, objection? call = none) ∧
    Patch.Overrun source.length (stretches tree)

/-- A call can end behind the source only where the source ends in an open literal. -/
theorem openCharacter_of_overrun {source : String} {tree : Node} (h : parse source = .ok tree)
    (hover : Patch.Overrun source.length (stretches tree)) :
    Literal.openCharacter <:+ source.toList := by
  obtain ⟨before, last, after, hperm, -, -, -, hlast⟩ := hover
  have hmem : last ∈ stretches tree := hperm.mem_iff.mp (by simp)
  obtain ⟨call, hcall, hextent⟩ := List.mem_filterMap.mp hmem
  obtain ⟨hsubtree, hlegacy⟩ := List.mem_filter.mp hcall
  obtain ⟨span, children, rfl, -, -, hstop⟩ := placed_of_parse h hsubtree hlegacy
  cases hextent
  rw [Token.reach] at hstop
  split at hstop
  · rename_i hsuffix
    exact List.isSuffixOf_iff_suffix.mp hsuffix
  · rw [String.length_toList] at hstop
    exact absurd hlast (Nat.not_lt.mpr hstop)

/-- A conversion fails with a defect exactly when the source is cut short. -/
theorem migrate_isDefect_iff (source : String) :
    (∃ f, migrate source = .error (.failed f) ∧ f.isDefect) ↔ CutShort source := by
  rw [migrate, CutShort]
  cases h : parse source with
  | error e => simp [Except.mapError, bind, Except.bind]
  | ok tree =>
    have hdefect := convertTree_isDefect_iff h
    have hopen := openCharacter_of_overrun h
    constructor
    · rintro ⟨f, hf, hisDefect⟩
      obtain ⟨_, hresult, ⟨⟩⟩ := mapError_eq_error_iff.mp hf
      obtain ⟨hnone, hover⟩ := hdefect.mp ⟨f, hresult, hisDefect⟩
      exact ⟨tree, rfl, hopen hover, hnone, hover⟩
    · rintro ⟨_, ⟨⟩, -, hnone, hover⟩
      obtain ⟨f, hresult, hisDefect⟩ := hdefect.mpr ⟨hnone, hover⟩
      exact ⟨f, mapError_eq_error_iff.mpr ⟨f, hresult, rfl⟩, hisDefect⟩

end Migration

namespace CommandLine

open Migration

/-- What is traced for a source is its conversion. -/
theorem trace_snd (path : Path) (source : String) : (trace path source).2 = migrate source := by
  simp only [trace, migrate, parse, bind, Except.bind]
  cases Token.tokenize source with
  | error e => rfl
  | ok tokens =>
    simp only [Except.mapError]
    cases Grammar.parseTokens tokens <;> rfl

namespace Report

/-- A report stops the run exactly when its error is a defect. -/
theorem ofError_stops_iff (path : Path) (log : List Entry) (e : FileError) (f : Migration.Failure) :
    (ofError path log e).ending = .stopped f ↔ e.defect? = some f := by
  rw [ofError]
  cases e.defect? with
  | none => simp
  | some failure => simp

/-- The report of a converted source stops no run. -/
theorem ofConverted_ending (o : Options) (path : Path) (log : List Entry) (old new : String) :
    (ofConverted o path log old new).ending = .converted := by
  rw [ofConverted]
  split
  · rfl
  · split <;> rfl

/-- The run stops at a source whose conversion fails with a defect, and at no other. -/
theorem ofSource_stops_iff (o : Options) (path : Path) (source : String) (f : Migration.Failure) :
    (ofSource o path source).ending = .stopped f ↔
      migrate source = .error (.failed f) ∧ f.isDefect := by
  rw [← trace_snd path, ofSource]
  rcases trace path source with ⟨log, error | new⟩
  · rw [ofError_stops_iff, Except.error.injEq]
    cases error with
    | read e => simp [FileError.defect?]
    | failed failure =>
      simp only [FileError.defect?, Option.ite_none_right_eq_some, Option.some.injEq,
        MigrationError.failed.injEq]
      exact ⟨fun ⟨hdefect, heq⟩ => ⟨heq, heq ▸ hdefect⟩, fun ⟨heq, hdefect⟩ => ⟨heq ▸ hdefect, heq⟩⟩
  · simp [ofConverted_ending]

/-- Among the octets of files, only those of a source that is cut short stop a run. -/
theorem ofContents_stops_iff (o : Options) (path : Path)
    (contents : Except AccessError (List UInt8)) :
    (∃ f, (ofContents o path contents).ending = .stopped f) ↔
      ∃ octets source, contents = .ok octets ∧ Utf8.decode octets = .ok source ∧
        CutShort source := by
  simp only [← migrate_isDefect_iff]
  cases contents with
  | error e => simp [ofContents, ofError_stops_iff, FileError.defect?]
  | ok octets =>
    cases hdecode : Utf8.decode octets with
    | error e => simp [ofContents, hdecode, ofError_stops_iff, FileError.defect?]
    | ok source => simp [ofContents, hdecode, ofSource_stops_iff]

/-- Only the report of a converted source has octets to write. -/
theorem ending_of_update {o : Options} {path : Path} {contents : Except AccessError (List UInt8)}
    {octets : List UInt8} (h : (ofContents o path contents).update = some octets) :
    (ofContents o path contents).ending = .converted := by
  have hError : ∀ {log e}, (ofError path log e).update = none := by
    intro log e
    rw [ofError]
    cases e.defect? <;> rfl
  cases contents with
  | error e => cases hError.symm.trans h
  | ok read =>
    simp only [ofContents] at h ⊢
    cases hdecode : Utf8.decode read with
    | error e =>
      rw [hdecode] at h
      cases hError.symm.trans h
    | ok source =>
      simp only [hdecode, ofSource] at h ⊢
      rcases htrace : trace path source with ⟨log, error | new⟩
      · rw [htrace] at h
        cases hError.symm.trans h
      · exact ofConverted_ending _ _ _ _ _

end Report

namespace Run

/-- Writing the octets of a file stops no run. -/
theorem carryOut_stops_iff (directory : Directory) (o : Options) (path : Path)
    (contents : Except AccessError (List UInt8)) (f : Migration.Failure) :
    (carryOut directory path (.ofContents o path contents)).2.ending = .stopped f ↔
      (Report.ofContents o path contents).ending = .stopped f := by
  rw [carryOut]
  cases hupdate : (Report.ofContents o path contents).update with
  | none => rfl
  | some octets =>
    have hending := Report.ending_of_update hupdate
    cases hwrite : directory.write path octets with
    | ok written => simp [hwrite, Report.settle, hupdate, hending]
    | error error => simp [hwrite, Report.settle, hupdate, hending]

/-- The file of a path holds a source that is cut short. -/
def StopsAt (directory : Directory) (path : Path) : Prop :=
  ∃ octets source, directory.read path = .ok octets ∧ Utf8.decode octets = .ok source ∧
    CutShort source

/-- A run that goes on is stopped by its next file exactly when that file is cut short. -/
theorem visit_stops_iff (o : Options) (r : Run) (path : Path) :
    (visit o r path).defect.isSome ↔ r.defect.isSome ∨ StopsAt r.directory path := by
  rw [visit]
  by_cases hstopped : r.defect.isSome
  · simp [hstopped]
  · rw [if_neg hstopped, StopsAt, ← Report.ofContents_stops_iff o path]
    simp only [← carryOut_stops_iff r.directory]
    obtain ⟨directory, report⟩ :=
      carryOut r.directory path (.ofContents o path (r.directory.read path))
    cases hending : report.ending <;> simp [add, hstopped, hending]

/-- Files stop a run exactly when one of them is cut short as the run comes to it. -/
theorem foldl_visit_stops_iff (o : Options) (paths : List Path) (r : Run) :
    (paths.foldl (visit o) r).defect.isSome ↔ r.defect.isSome ∨
      ∃ before path after, paths = before ++ path :: after ∧
        StopsAt (before.foldl (visit o) r).directory path := by
  induction paths generalizing r with
  | nil => simp
  | cons first others ih =>
    rw [List.foldl_cons, ih, visit_stops_iff, or_assoc]
    refine or_congr_right ⟨?_, ?_⟩
    · rintro (hfirst | ⟨before, path, after, rfl, hstops⟩)
      · exact ⟨[], first, others, rfl, hfirst⟩
      · exact ⟨first :: before, path, after, rfl, hstops⟩
    · rintro ⟨_ | ⟨p, before⟩, path, after, heq, hstops⟩
      · cases heq
        exact Or.inl hstops
      · cases heq
        exact Or.inr ⟨before, path, after, rfl, hstops⟩

end Run

/-- Every source is converted or fails in a way that a run reports, except one that is cut short;
and a run reaches all of its files, except those behind a file with such a source. -/
theorem stops_iff_cutShort (source : String) (o : Options) (directory : Directory)
    (paths : List Path) :
    ((∃ f, migrate source = .error (.failed f) ∧ f.isDefect) ↔ CutShort source) ∧
      ((Run.convert o directory paths).defect.isSome ↔
        ∃ before path after, paths = before ++ path :: after ∧
          Run.StopsAt (before.foldl (Run.visit o) (.start directory)).directory path) := by
  refine ⟨migrate_isDefect_iff source, ?_⟩
  have hrun := Run.foldl_visit_stops_iff o paths (.start directory)
  rw [Run.convert, hrun]
  simp [Run.start]

/-- A character literal without its character at the end of the path stops a run. -/
theorem stops_at_open_character :
    migrate "xhr :get, ?\\" = .error (.failed (.patch (.outside 0 13))) ∧
      (Failure.patch (.outside 0 13)).isDefect := by
  decide +kernel

end CommandLine

end XhrKeywords
