import Mathlib.Logic.Function.Iterate
import XhrKeywords.Proofs.CommandLine.Directory
import XhrKeywords.Proofs.Diff.Unified
import XhrKeywords.Proofs.Migration.Overrun
import XhrKeywords.Proofs.Text.Utf8

/-!
# The files of a run stand apart

A file is converted by what it holds when the run comes to it. A file that fails is left as it is;
any other file prints what the options ask for and, when it is written, holds its new text and
nothing else. What the run does to one file does not depend on the others. A file that fails prints
nothing, with one exception: where the new text is to be written, the system refuses and a diff is
asked for, the diff has been printed before the file fails.
-/

namespace XhrKeywords

namespace CommandLine

open Migration

/-- A text and what it is converted to. -/
structure Rewriting where
  old : String
  new : String
  deriving DecidableEq, Repr

/-- The rewriting of what reading a file gives. There is none if the file cannot be read, holds no
text or cannot be converted. -/
def rewriting? (contents : Except AccessError (List UInt8)) : Option Rewriting := do
  let octets ← contents.toOption
  let old ← (Utf8.decode octets).toOption
  let new ← (migrate old).toOption
  return ⟨old, new⟩

theorem rewriting?_eq_some_iff {contents : Except AccessError (List UInt8)} {r : Rewriting} :
    rewriting? contents = some r ↔ ∃ octets, contents = .ok octets ∧
      Utf8.decode octets = .ok r.old ∧ migrate r.old = .ok r.new := by
  obtain ⟨old, new⟩ := r
  simp only [rewriting?, Option.bind_eq_bind, Option.bind_eq_some_iff, Option.pure_def,
    Option.some.injEq, Rewriting.mk.injEq]
  constructor
  · rintro ⟨octets, hread, _, hdecode, _, hmigrate, rfl, rfl⟩
    exact ⟨octets, eq_ok_of_toOption hread, eq_ok_of_toOption hdecode, eq_ok_of_toOption hmigrate⟩
  · rintro ⟨octets, rfl, hdecode, hmigrate⟩
    exact ⟨octets, rfl, old, by rw [hdecode]; rfl, new, by rw [hmigrate]; rfl, rfl, rfl⟩

namespace Report

/-- The report of an error prints and writes nothing. -/
theorem ofError_eq (path : Path) (log : List Entry) (e : FileError) :
    (ofError path log e).output = "" ∧ (ofError path log e).update = none ∧
      (ofError path log e).ending ≠ .converted := by
  rw [ofError]
  cases e.defect? with
  | none => exact ⟨rfl, rfl, Ending.noConfusion⟩
  | some failure => exact ⟨rfl, rfl, Ending.noConfusion⟩

variable (o : Options) (path : Path) {contents : Except AccessError (List UInt8)}

/-- Without a rewriting there is an error. -/
theorem ofContents_of_none (h : rewriting? contents = none) :
    ∃ log e, ofContents o path contents = ofError path log e := by
  have hnone : ∀ r, rewriting? contents ≠ some r := by
    rw [h]
    exact nofun
  simp only [ne_eq, rewriting?_eq_some_iff] at hnone
  cases contents with
  | error e => exact ⟨[], .access e, rfl⟩
  | ok octets =>
    simp only [ofContents]
    cases hdecode : Utf8.decode octets with
    | error e => exact ⟨[], .encoding e, rfl⟩
    | ok old =>
      simp only [ofSource]
      rcases htrace : trace path old with ⟨log, error | new⟩
      · exact ⟨log, .migration error, rfl⟩
      · have hmigrate : migrate old = .ok new := by rw [← trace_snd path, htrace]
        exact absurd ⟨octets, rfl, hdecode, hmigrate⟩ (hnone ⟨old, new⟩)

/-- A rewriting is carried out. -/
theorem ofContents_of_some {r : Rewriting} (h : rewriting? contents = some r) :
    ∃ log, ofContents o path contents = ofConverted o path log r.old r.new := by
  obtain ⟨octets, rfl, hdecode, hmigrate⟩ := rewriting?_eq_some_iff.mp h
  refine ⟨(trace path r.old).1, ?_⟩
  have htrace : trace path r.old = ((trace path r.old).1, .ok r.new) :=
    Prod.ext rfl ((trace_snd path r.old).trans hmigrate)
  simp only [ofContents, hdecode, ofSource]
  rw [htrace]

theorem ofConverted_output (o : Options) (path : Path) (log : List Entry) (old new : String) :
    (ofConverted o path log old new).output = printed o path old new := by
  rw [ofConverted]
  split
  · rfl
  · split <;> rfl

/-- What is written are the octets of the new text, if they are others. -/
theorem ofConverted_update (o : Options) (path : Path) (log : List Entry) (old new : String) :
    (ofConverted o path log old new).update =
      if o.write ∧ new ≠ old then some (Utf8.encode new) else none := by
  rw [ofConverted]
  split
  · rename_i hwrite
    rw [if_neg fun h => by simp [h.1] at hwrite]
  · split
    · rename_i hsame
      rw [if_neg fun h => h.2 hsame]
    · rename_i hwrite hsame
      rw [if_pos ⟨by simpa using hwrite, hsame⟩]

end Report

/-- A path and the directory in which a run comes to it. -/
structure Turn where
  path : Path
  directory : Directory
  deriving DecidableEq, Repr

namespace Turn

/-- The rewriting of the file of a turn. -/
def rewriting? (t : Turn) : Option Rewriting :=
  CommandLine.rewriting? (t.directory.read t.path)

/-- Why the new text of a turn is not written, if it is to be and the system refuses. -/
def refusal? (o : Options) (t : Turn) : Option AccessError :=
  match t.rewriting?, t.directory.grant .write t.path with
  | some r, .error error => if o.write ∧ r.new ≠ r.old then some error else none
  | _, _ => none

/-- Whether the file of a turn fails: it has no rewriting, or the new text is not written. -/
def fails (o : Options) (t : Turn) : Bool :=
  t.rewriting?.isNone || (t.refusal? o).isSome

/-- What a turn prints: nothing without a rewriting, otherwise a diff, the new text, or nothing. -/
def shown (o : Options) (t : Turn) : String :=
  match t.rewriting? with
  | none => ""
  | some r =>
    if o.diff then Diff.unified ("a/" ++ t.path.text) ("b/" ++ t.path.text) r.old r.new
    else if o.write then ""
    else r.new

/-- The directory behind a turn. -/
def after (o : Options) (t : Turn) : Directory :=
  match t.rewriting?, t.directory.grant .write t.path with
  | some r, .ok names =>
    if o.write ∧ r.new ≠ r.old then t.directory.replace names (Utf8.encode r.new) else t.directory
  | _, _ => t.directory

variable {o : Options} {t : Turn}

/-- A text is refused exactly if it is another one, it is to be written and no write is granted. -/
theorem refusal?_eq_some_iff {error : AccessError} :
    t.refusal? o = some error ↔ ∃ r, t.rewriting? = some r ∧ o.write ∧ r.new ≠ r.old ∧
      t.directory.grant .write t.path = .error error := by
  rw [refusal?]
  split
  · rename_i r e hr he
    rw [hr, he, Option.ite_none_right_eq_some]
    exact ⟨fun ⟨⟨hwrite, hne⟩, h⟩ => ⟨r, rfl, hwrite, hne, by rw [Option.some.inj h]⟩,
      fun ⟨_, hr', hwrite, hne, h⟩ => by cases hr'; cases h; exact ⟨⟨hwrite, hne⟩, rfl⟩⟩
  · rename_i hnone
    exact ⟨nofun, fun ⟨r, hr, _, _, he⟩ => absurd he (hnone r error hr)⟩

/-- A file that fails leaves the directory as it is. -/
theorem after_of_fails (h : t.fails o) : t.after o = t.directory := by
  rw [after]
  split
  · rename_i r names hr hnames
    rw [fails, hr, Option.isNone_some, Bool.false_or, Option.isSome_iff_exists] at h
    obtain ⟨e, he⟩ := h
    obtain ⟨-, -, -, -, hrefused⟩ := refusal?_eq_some_iff.mp he
    cases hnames.symm.trans hrefused
  · rfl

/-- A file that fails prints something exactly if a diff has been printed for a text that is
refused. -/
theorem shown_ne_empty_iff (h : t.fails o) :
    t.shown o ≠ "" ↔ o.diff ∧ (t.refusal? o).isSome := by
  cases hr : t.rewriting? with
  | none => simp [shown, refusal?, hr]
  | some r =>
    rw [fails, hr, Option.isNone_some, Bool.false_or] at h
    obtain ⟨e, he⟩ := Option.isSome_iff_exists.mp h
    obtain ⟨_, hr', hwrite, hne, -⟩ := refusal?_eq_some_iff.mp he
    cases hr.symm.trans hr'
    simp only [shown, hr, h, and_true, hwrite, if_true]
    split
    · rename_i hdiff
      exact iff_of_true (Diff.unified_ne_empty hne.symm _ _) hdiff
    · rename_i hdiff
      exact iff_of_false (absurd rfl) hdiff

/-- Unless files are written, the directory stays as it is. -/
theorem after_of_not_write (h : o.write = false) : t.after o = t.directory := by
  rw [after]
  split
  · rw [if_neg (by simp [h])]
  · rfl

/-- A file that is not to get another text stays as it is and does not fail. -/
theorem after_of_same {r : Rewriting} (hr : t.rewriting? = some r)
    (h : ¬(o.write ∧ r.new ≠ r.old)) : t.after o = t.directory ∧ t.fails o = false := by
  rw [after, fails, refusal?, hr]
  cases t.directory.grant .write t.path with
  | ok names => exact ⟨if_neg h, rfl⟩
  | error e => simp [h]

/-- What the octets of a file come to when the file is written. -/
def rewritten (octets : List UInt8) : List UInt8 :=
  (CommandLine.rewriting? (.ok octets)).elim octets fun r => Utf8.encode r.new

/-- A turn changes no file but that of its path, and that one by what it holds. -/
theorem lookup_after (names : List String) :
    (t.after o).files.lookup names = (t.directory.files.lookup names).map
      (if o.write ∧ t.directory.fileAt t.path = .ok names ∧ t.directory.Editable names
        then rewritten else id) := by
  by_cases hmine : o.write ∧ t.directory.fileAt t.path = .ok names ∧ t.directory.Editable names
  · obtain ⟨hwrite, hnames, hreads, hwrites⟩ := hmine
    obtain ⟨octets, hoctets⟩ :=
      Option.isSome_iff_exists.mp (Directory.isSome_lookup_of_fileAt hnames)
    have hread : t.directory.read t.path = .ok octets :=
      Directory.read_eq_ok_iff.mpr ⟨names, Directory.grant_eq_ok_iff.mpr ⟨hnames, hreads⟩, hoctets⟩
    have hgrant := Directory.grant_eq_ok_iff.mpr ⟨hnames, hwrites⟩
    rw [if_pos ⟨hwrite, hnames, hreads, hwrites⟩, hoctets, Option.map_some, rewritten, ← hread]
    change _ = some (t.rewriting?.elim octets _)
    cases hrewriting : t.rewriting? with
    | none =>
      rw [after_of_fails (by rw [fails, hrewriting]; rfl), hoctets]
      rfl
    | some r =>
      simp only [after, hrewriting, hgrant, hwrite, true_and, Option.elim_some]
      split
      · rw [Directory.lookup_replace, hoctets, Option.map_some, if_pos rfl]
      · rename_i hsame
        obtain ⟨_, hread', hdecode, -⟩ := rewriting?_eq_some_iff.mp hrewriting
        cases hread.symm.trans hread'
        rw [hoctets, not_not.mp hsame, Utf8.decode_eq_ok_iff.mp hdecode]
  · rw [if_neg hmine, Option.map_id, id, after]
    split
    · rename_i r other hrewriting hother
      split
      · rename_i hwrite
        -- The file has been read, so it may be both read and written.
        obtain ⟨hplace, hwrites⟩ := Directory.grant_eq_ok_iff.mp hother
        obtain ⟨_, hread, -⟩ := rewriting?_eq_some_iff.mp hrewriting
        obtain ⟨_, hgrant, -⟩ := Directory.read_eq_ok_iff.mp hread
        obtain ⟨hplace', hreads⟩ := Directory.grant_eq_ok_iff.mp hgrant
        cases hplace.symm.trans hplace'
        have hne : names ≠ other := by
          rintro rfl
          exact hmine ⟨hwrite.1, hplace, hreads, hwrites⟩
        simp [Directory.lookup_replace, hne]
      · rfl
    · rfl

/-- A turn changes no place and no refusal. -/
theorem sameAccess_after (o : Options) (t : Turn) :
    Directory.SameAccess t.directory (t.after o) := by
  rw [after]
  split
  · split
    · exact Directory.sameAccess_replace
    · exact .refl _
  · exact .refl _

/-- What a path reads behind a turn. -/
theorem read_after (path : Path) :
    (t.after o).read path = (t.directory.read path).map
      (if o.write ∧ t.directory.fileAt t.path = t.directory.fileAt path ∧
        (t.directory.grant .write path).isOk then rewritten else id) :=
  Directory.read_map (sameAccess_after o t) fun names hnames => by
    rw [lookup_after, (Directory.grant_eq_ok_iff.mp hnames).1,
      if_congr (and_congr_right fun _ => and_congr_right fun _ =>
        Directory.editable_iff_isOk hnames) rfl rfl]

/-- A file that is written without failing holds its new text. -/
theorem read_after_self {r : Rewriting} (hr : t.rewriting? = some r) (hwrite : o.write = true)
    (h : t.fails o = false) : (t.after o).read t.path = .ok (Utf8.encode r.new) := by
  obtain ⟨octets, hread, hdecode, -⟩ := rewriting?_eq_some_iff.mp hr
  rw [read_after, hread]
  cases hgrant : t.directory.grant .write t.path with
  | ok names =>
    have hnew : rewritten octets = Utf8.encode r.new := by
      rw [rewritten, ← hread]
      exact congrArg (Option.elim · _ _) hr
    rw [if_pos ⟨hwrite, rfl, rfl⟩, ← hnew]
    rfl
  | error e =>
    have hsame : r.new = r.old := by
      by_contra hne
      have hrefused := refusal?_eq_some_iff.mpr ⟨r, hr, hwrite, hne, hgrant⟩
      rw [fails, hrefused, Option.isSome_some, Bool.or_true] at h
      cases h
    rw [if_neg fun hgranted => Bool.false_ne_true hgranted.2.2, hsame,
      ← Utf8.decode_eq_ok_iff.mp hdecode]
    rfl

end Turn

namespace Run

/-- A report without octets is settled as it is. -/
theorem carryOut_of_none {d : Directory} {path : Path} {report : Report}
    (h : report.update = none) : carryOut d path report = (d, report) := by
  rw [carryOut, h]

/-- Where a write is granted, the octets of a report are written. -/
theorem carryOut_of_granted {d : Directory} {path : Path} {names : List String} {report : Report}
    {octets : List UInt8} (h : report.update = some octets)
    (hgrant : d.grant .write path = .ok names) :
    ∃ log, carryOut d path report = (d.replace names octets, { report with log }) := by
  simp only [carryOut, h, Directory.write_eq, hgrant, Except.map, Report.settle]
  exact ⟨_, rfl⟩

/-- Where a write is refused, nothing is written and the file fails; its output stays. -/
theorem carryOut_of_refused {d : Directory} {path : Path} {error : AccessError} {report : Report}
    {octets : List UInt8} (h : report.update = some octets)
    (hgrant : d.grant .write path = .error error) :
    ∃ log, carryOut d path report = (d, { report with log, ending := .failed }) := by
  simp only [carryOut, h, Directory.write_eq, hgrant, Except.map, Report.settle]
  exact ⟨_, rfl⟩

/-- What a turn does to a run that goes on. -/
structure Took (o : Options) (r : Run) (path : Path) (r' : Run) : Prop where
  directory_eq : r'.directory = Turn.after o ⟨path, r.directory⟩
  output_eq : r'.output = r.output ++ Turn.shown o ⟨path, r.directory⟩
  failed_eq : r'.failed = r.failed + if Turn.fails o ⟨path, r.directory⟩ then 1 else 0

/-- A file without a rewriting fails and does nothing. -/
theorem took_of_none {o : Options} {r : Run} {path : Path}
    (hrewriting : Turn.rewriting? ⟨path, r.directory⟩ = none)
    (hgoes : r.defect = none) (h : (visit o r path).defect = none) :
    Took o r path (visit o r path) := by
  obtain ⟨log, e, hreport⟩ := Report.ofContents_of_none o path hrewriting
  obtain ⟨houtput, hupdate, hending⟩ := Report.ofError_eq path log e
  have hfails : Turn.fails o ⟨path, r.directory⟩ = true := by
    rw [Turn.fails, hrewriting]
    rfl
  rw [visit, if_neg (by simp [hgoes]), hreport, carryOut_of_none hupdate] at h ⊢
  simp only [add] at h ⊢
  refine ⟨(Turn.after_of_fails hfails).symm, ?_, ?_⟩
  · rw [Turn.shown, hrewriting, houtput]
  · rw [hfails, if_pos rfl]
    cases hcase : (Report.ofError path log e).ending with
    | converted => exact absurd hcase hending
    | failed => rfl
    | stopped f => simp [hcase] at h

/-- A file with a rewriting prints it and, if asked to, writes it, unless that is refused. -/
theorem took_of_some {o : Options} {r : Run} {path : Path} {w : Rewriting}
    (hrewriting : Turn.rewriting? ⟨path, r.directory⟩ = some w) (hgoes : r.defect = none) :
    Took o r path (visit o r path) := by
  obtain ⟨log, hreport⟩ := Report.ofContents_of_some o path hrewriting
  have hupdate := Report.ofConverted_update o path log w.old w.new
  have houtput : (Report.ofConverted o path log w.old w.new).output =
      Turn.shown o ⟨path, r.directory⟩ := by
    rw [Report.ofConverted_output, Turn.shown, hrewriting]
    rfl
  rw [visit, if_neg (by simp [hgoes]), hreport]
  -- Only a new text is written, and only a write can be refused; the output is the same either way.
  by_cases hnew : o.write ∧ w.new ≠ w.old
  · rw [if_pos hnew] at hupdate
    cases hgrant : r.directory.grant .write path with
    | ok names =>
      obtain ⟨settled, hcarried⟩ := carryOut_of_granted hupdate hgrant
      rw [hcarried]
      refine ⟨?_, congrArg (r.output ++ ·) houtput, ?_⟩
      · simp only [Turn.after, hrewriting, hgrant, if_pos hnew]
        rfl
      · simp only [Turn.fails, Turn.refusal?, hrewriting, hgrant, add, Report.ofConverted_ending]
        rfl
    | error e =>
      obtain ⟨settled, hcarried⟩ := carryOut_of_refused hupdate hgrant
      rw [hcarried]
      refine ⟨?_, congrArg (r.output ++ ·) houtput, ?_⟩
      · simp only [Turn.after, hrewriting, hgrant]
        rfl
      · simp only [Turn.fails, Turn.refusal?, hrewriting, hgrant, if_pos hnew]
        rfl
  · rw [if_neg hnew] at hupdate
    rw [carryOut_of_none hupdate]
    obtain ⟨hafter, hfails⟩ := Turn.after_of_same hrewriting hnew
    refine ⟨hafter.symm, congrArg (r.output ++ ·) houtput, ?_⟩
    simp only [hfails, add, Report.ofConverted_ending]
    rfl

/-- What the next file does to a run that goes on. -/
theorem visit_turn {o : Options} {r : Run} {path : Path} (hgoes : r.defect = none)
    (h : (visit o r path).defect = none) : Took o r path (visit o r path) := by
  cases hrewriting : Turn.rewriting? ⟨path, r.directory⟩ with
  | none => exact took_of_none hrewriting hgoes h
  | some w => exact took_of_some hrewriting hgoes

/-- A run that has been stopped stays as it is. -/
theorem foldl_visit_of_defect {o : Options} {r : Run} (paths : List Path)
    (h : r.defect.isSome) : paths.foldl (visit o) r = r := by
  induction paths with
  | nil => rfl
  | cons path others ih => rw [List.foldl_cons, visit, if_pos h, ih]

/-- The turns of a run: each path with the directory that the run over the paths before it leaves
behind. -/
def turns (o : Options) (directory : Directory) (paths : List Path) : List Turn :=
  paths.mapIdx fun i path => ⟨path, (convert o directory (paths.take i)).directory⟩

theorem turns_append (o : Options) (directory : Directory) (before : List Path) (path : Path) :
    turns o directory (before ++ [path]) =
      turns o directory before ++ [⟨path, (convert o directory before).directory⟩] := by
  rw [turns, List.mapIdx_append, turns]
  congr 1
  · refine List.mapIdx_eq_mapIdx_iff.mpr fun i hi => ?_
    rw [List.take_append_of_le_length hi.le]
  · simp

theorem foldl_visit_append (o : Options) (r : Run) (before : List Path) (path : Path) :
    (before ++ [path]).foldl (visit o) r = visit o (before.foldl (visit o) r) path := by
  rw [List.foldl_append]
  rfl

/-- What holds of a run that is not stopped holds of the run over the first of its paths. -/
theorem defect_of_append {o : Options} {directory : Directory} {before after : List Path}
    (h : (convert o directory (before ++ after)).defect = none) :
    (convert o directory before).defect = none := by
  rw [← Option.not_isSome_iff_eq_none]
  intro hstopped
  simp only [convert, List.foldl_append] at h hstopped
  rw [foldl_visit_of_defect after hstopped] at h
  simp [h] at hstopped

/-- The run over one more path. -/
theorem convert_append {o : Options} {directory : Directory} {before : List Path} {path : Path}
    (h : (convert o directory (before ++ [path])).defect = none) :
    Took o (convert o directory before) path (convert o directory (before ++ [path])) := by
  have hbefore := defect_of_append h
  simp only [convert, foldl_visit_append] at h hbefore ⊢
  obtain ⟨hdirectory, houtput, hfailed⟩ := visit_turn hbefore h
  exact ⟨hdirectory, houtput, hfailed⟩

variable {o : Options} {directory : Directory} {paths : List Path}

/-- A run prints what its turns print. -/
theorem output_eq (h : (convert o directory paths).defect = none) :
    (convert o directory paths).output =
      String.join ((turns o directory paths).map (Turn.shown o)) := by
  induction paths using List.reverseRecOn with
  | nil => rfl
  | append_singleton before path ih =>
    rw [(convert_append h).output_eq, ih (defect_of_append h), turns_append, List.map_append]
    simp

/-- The failures of a run are the turns that fail. -/
theorem failed_eq (h : (convert o directory paths).defect = none) :
    (convert o directory paths).failed =
      (turns o directory paths).countP (Turn.fails o) := by
  induction paths using List.reverseRecOn with
  | nil => rfl
  | append_singleton before path ih =>
    rw [(convert_append h).failed_eq, ih (defect_of_append h), turns_append, List.countP_append,
      List.countP_singleton]

theorem status_of_countP {α : Type} (p : α → Bool) (xs : List α) :
    status (xs.countP p) = if xs.any p then 1 else 0 := by
  rw [status]
  by_cases hany : xs.any p
  · rw [if_pos hany, if_neg]
    rw [List.countP_eq_zero]
    obtain ⟨x, hx, hp⟩ := List.any_eq_true.mp hany
    exact fun hnone => hnone x hx hp
  · rw [if_neg hany, if_pos]
    rw [List.countP_eq_zero]
    exact fun x hx hp => hany (List.any_eq_true.mpr ⟨x, hx, hp⟩)

/-- The directory as a run comes to the path at a place, or behind its last path. -/
def directoryAt (o : Options) (directory : Directory) (paths : List Path) (i : Nat) : Directory :=
  (convert o directory (paths.take i)).directory

/-- Each turn leads from the directory that it finds to the one that the next turn finds. -/
theorem directoryAt_succ (h : (convert o directory paths).defect = none) {i : Nat} {t : Turn}
    (ht : (turns o directory paths)[i]? = some t) :
    t.directory = directoryAt o directory paths i ∧
      directoryAt o directory paths (i + 1) = t.after o := by
  rw [turns, List.getElem?_mapIdx] at ht
  obtain ⟨path, hpath, rfl⟩ := Option.map_eq_some_iff.mp ht
  have htake : paths.take (i + 1) = paths.take i ++ [path] := by
    rw [List.take_add_one, hpath]
    rfl
  refine ⟨rfl, ?_⟩
  rw [directoryAt, htake]
  rw [← List.take_append_drop (i + 1) paths, htake] at h
  exact (convert_append (defect_of_append h)).directory_eq

/-- A run changes no place and no refusal. -/
theorem sameAccess_convert (h : (convert o directory paths).defect = none) :
    Directory.SameAccess directory (convert o directory paths).directory := by
  induction paths using List.reverseRecOn with
  | nil => exact .refl _
  | append_singleton before _ ih =>
    rw [(convert_append h).directory_eq]
    exact (ih (defect_of_append h)).trans (Turn.sameAccess_after o ⟨_, _⟩)

theorem sameAccess_directoryAt (h : (convert o directory paths).defect = none) (i : Nat) :
    Directory.SameAccess directory (directoryAt o directory paths i) := by
  rw [← List.take_append_drop i paths] at h
  exact sameAccess_convert (defect_of_append h)

/-- What a file holds behind a run: if it may be read and written, it is rewritten once for every
path that leads to it. -/
theorem lookup_convert (h : (convert o directory paths).defect = none) (names : List String) :
    (convert o directory paths).directory.files.lookup names =
      (directory.files.lookup names).map
        (Turn.rewritten^[if o.write ∧ directory.Editable names then
          paths.countP fun path => directory.fileAt path = .ok names else 0]) := by
  induction paths using List.reverseRecOn with
  | nil =>
    rw [List.countP_nil, ite_self, Function.iterate_zero, Option.map_id]
    rfl
  | append_singleton before path ih =>
    have hbefore := defect_of_append h
    have haccess := sameAccess_convert hbefore
    rw [(convert_append h).directory_eq, Turn.lookup_after, ih hbefore, Option.map_map,
      List.countP_append, List.countP_singleton]
    simp only [haccess.fileAt_eq, haccess.editable_iff]
    congr 1
    by_cases hedit : o.write ∧ directory.Editable names
    · by_cases hmine : directory.fileAt path = .ok names
      · simp only [hedit, hmine, if_true, and_true, decide_true]
        exact (Function.iterate_succ' _ _).symm
      · simp [hedit, hmine]
    · rw [if_neg hedit, if_neg hedit, if_neg fun hall => hedit ⟨hall.1, hall.2.2⟩]
      rfl

/-- What a run comes to, file by file. -/
structure Isolated (o : Options) (directory : Directory) (paths : List Path) : Prop where
  /-- The status tells whether a file has failed. -/
  status_eq : status (convert o directory paths).failed =
    if (turns o directory paths).any (Turn.fails o) then 1 else 0
  /-- What is printed is what the turns print, one after the other. -/
  output_eq : (convert o directory paths).output =
    String.join ((turns o directory paths).map (Turn.shown o))
  /-- A file that fails prints nothing, unless its diff has been printed when its new text is
  refused. -/
  silent : ∀ t ∈ turns o directory paths, t.fails o →
    (t.shown o ≠ "" ↔ o.diff ∧ (t.refusal? o).isSome)
  /-- A file that fails, and every file that is not to be written, stays as it is, and so does all
  else. -/
  kept : ∀ i t, (turns o directory paths)[i]? = some t → t.fails o ∨ o.write = false →
    directoryAt o directory paths (i + 1) = t.directory
  /-- A file that is written holds its new text. -/
  written : ∀ i t r, (turns o directory paths)[i]? = some t → t.rewriting? = some r →
    o.write = true → t.fails o = false →
    (directoryAt o directory paths (i + 1)).read t.path = .ok (Utf8.encode r.new)
  /-- No turn changes the file of another path. -/
  apart : ∀ i t path, (turns o directory paths)[i]? = some t →
    directory.fileAt path ≠ directory.fileAt t.path →
    (directoryAt o directory paths (i + 1)).read path = t.directory.read path
  /-- What a file holds at any time is decided by what it has held at first, by whether it may be
  written and by how often the run has come to it. -/
  own : ∀ i path, (directoryAt o directory paths i).read path = (directory.read path).map
    (Turn.rewritten^[if o.write ∧ (directory.grant .write path).isOk then
      (paths.take i).countP fun other => directory.fileAt other = directory.fileAt path else 0])

end Run

/-- Every run that is not stopped treats its files apart from each other. -/
theorem isolated_convert (o : Options) (directory : Directory) (paths : List Path)
    (h : (Run.convert o directory paths).defect = none) : Run.Isolated o directory paths where
  status_eq := by rw [Run.failed_eq h, Run.status_of_countP]
  output_eq := Run.output_eq h
  silent _ _ hfails := Turn.shown_ne_empty_iff hfails
  kept := by
    rintro i t ht (hfailed | hwrite)
    · rw [(Run.directoryAt_succ h ht).2, Turn.after_of_fails hfailed]
    · rw [(Run.directoryAt_succ h ht).2, Turn.after_of_not_write hwrite]
  written := by
    intro i t r ht hr hwrite hgoes
    rw [(Run.directoryAt_succ h ht).2, Turn.read_after_self hr hwrite hgoes]
  apart := by
    intro i t path ht hne
    obtain ⟨hbefore, hafter⟩ := Run.directoryAt_succ h ht
    have haccess := Run.sameAccess_directoryAt h i
    rw [hafter, Turn.read_after, if_neg]
    · cases t.directory.read path <;> rfl
    · rw [hbefore, haccess.fileAt_eq, haccess.fileAt_eq]
      exact fun hsame => hne hsame.2.1.symm
  own := by
    intro i path
    have htake := h
    rw [← List.take_append_drop i paths] at htake
    refine Directory.read_map (Run.sameAccess_directoryAt h i) fun names hnames => ?_
    rw [Run.directoryAt, Run.lookup_convert (Run.defect_of_append htake),
      (Directory.grant_eq_ok_iff.mp hnames).1,
      if_congr (and_congr_right fun _ => Directory.editable_iff_isOk hnames) rfl rfl]

/-- A file that is converted, a file that holds no text, and one whose write is refused: its diff is
printed, and it stays as it is. -/
theorem isolated_with_refusal :
    let directory : Directory :=
      ⟨[], [[]], [(["a"], Utf8.encode "xhr :get, b"), (["c"], [0xFF]),
        (["d"], Utf8.encode "xhr :put, e")], [((["d"], .write), .permissionDenied)]⟩
    let paths : List Path := [⟨.here, ["c"]⟩, ⟨.top, ["a"]⟩, ⟨.here, ["d"]⟩]
    (Run.convert ⟨true, false, false⟩ directory paths).defect = none ∧
      (Run.directoryAt ⟨true, false, false⟩ directory paths 3).read ⟨.here, ["a"]⟩ =
        .ok (Utf8.encode "get b, xhr: true") ∧
      (Run.directoryAt ⟨true, false, false⟩ directory paths 3).read ⟨.here, ["d"]⟩ =
        .ok (Utf8.encode "xhr :put, e") := by
  intro directory paths
  have hgoes : (Run.convert ⟨true, false, false⟩ directory paths).defect = none := by
    decide +kernel
  have hisolated := isolated_convert ⟨true, false, false⟩ directory paths hgoes
  rw [hisolated.own 3 ⟨.here, ["a"]⟩, hisolated.own 3 ⟨.here, ["d"]⟩]
  exact ⟨hgoes, by decide +kernel, by decide +kernel⟩

/-- A file whose write is refused has printed its diff and fails. -/
theorem not_silent_of_refused_write :
    let directory : Directory := ⟨[], [[]], [(["a.rb"], Utf8.encode "xhr :get, a\n")],
      [((["a.rb"], .write), .permissionDenied)]⟩
    let run := Run.convert ⟨true, true, false⟩ directory [.ofString "a.rb"]
    run.defect = none ∧ status run.failed = 1 ∧ run.directory = directory ∧
      run.output = "--- a/a.rb\n+++ b/a.rb\n@@ -1 +1 @@\n-xhr :get, a\n+get a, xhr: true\n" := by
  decide +kernel

end CommandLine

end XhrKeywords
