import Mathlib.Data.List.Basic
import XhrKeywords.CommandLine.Directory
import XhrKeywords.Proofs.Outcome

/-!
# Reading and writing files

A file is read or written where a path leads to it and the system grants the access. New octets for
a file change no place, no refusal and no other file.
-/

namespace XhrKeywords

namespace Directory

variable {d : Directory} {names : List String} {octets : List UInt8}

theorem lookup_map_replace (files : List (List String × List UInt8)) (other : List String) :
    (files.map fun file => if file.1 = names then (names, octets) else file).lookup other =
      (files.lookup other).map fun old => if other = names then octets else old := by
  induction files with
  | nil => rfl
  | cons file others ih =>
    obtain ⟨name, old⟩ := file
    by_cases hother : other = name
    · subst hother
      by_cases hname : other = names <;> simp [hname]
    · have hne : (other == name) = false := beq_eq_false_iff_ne.mpr hother
      by_cases hname : name = names
      · subst hname
        simpa [List.lookup_cons, hne] using ih
      · simpa [List.lookup_cons, hne, hname] using ih

/-- New octets for a file leave those of the others. -/
theorem lookup_replace (other : List String) :
    (d.replace names octets).files.lookup other =
      (d.files.lookup other).map fun old => if other = names then octets else old :=
  lookup_map_replace d.files other

theorem step_replace (place : Place) (name : String) :
    (d.replace names octets).step place name = d.step place name := by
  cases place with
  | folder _ => simp only [step, lookup_replace, Option.isSome_map]; rfl
  | file _ => rfl

/-- Paths lead to the same places in both directories, and the same accesses are refused. -/
structure SameAccess (d d' : Directory) : Prop where
  fileAt_eq : ∀ path, d'.fileAt path = d.fileAt path
  refusals_eq : d'.refusals = d.refusals

namespace SameAccess

variable {d' d'' : Directory}

theorem refl (d : Directory) : SameAccess d d := ⟨fun _ => rfl, rfl⟩

theorem trans (h : SameAccess d d') (h' : SameAccess d' d'') : SameAccess d d'' :=
  ⟨fun path => (h'.fileAt_eq path).trans (h.fileAt_eq path), h'.refusals_eq.trans h.refusals_eq⟩

theorem permit_eq (h : SameAccess d d') (access : Access) (names : List String) :
    d'.permit access names = d.permit access names := by
  rw [permit, permit, h.refusals_eq]

/-- The same accesses are granted. -/
theorem grant_eq (h : SameAccess d d') (access : Access) (path : Path) :
    d'.grant access path = d.grant access path := by
  simp only [grant, h.fileAt_eq, h.permit_eq]

end SameAccess

/-- New octets for a file change no place and no refusal. -/
theorem sameAccess_replace : SameAccess d (d.replace names octets) := by
  have hstep : (d.replace names octets).step = d.step := by
    funext place name
    exact step_replace place name
  refine ⟨fun path => ?_, rfl⟩
  rw [fileAt, locate, hstep]
  rfl

/-- A file that a step reaches is there. -/
theorem isSome_lookup_of_step {place : Place} {name : String}
    (h : d.step place name = .ok (.file names)) : (d.files.lookup names).isSome := by
  cases place with
  | folder above =>
    obtain ⟨_, -, h⟩ := bind_eq_ok_iff.mp h
    split_ifs at h with hup hthere
    · cases h
    · cases h
      exact hthere
    · cases h
  | file _ => cases h

/-- A file that a path leads to is there. -/
theorem isSome_lookup_of_fileAt {path : Path} (h : d.fileAt path = .ok names) :
    (d.files.lookup names).isSome := by
  have hwalk : ∀ (walked : List String) (folder : List String),
      walked.foldlM d.step (.folder folder) = .ok (.file names) →
        (d.files.lookup names).isSome := by
    intro walked folder hreach
    rcases List.eq_nil_or_concat walked with rfl | ⟨before, last, rfl⟩
    · cases hreach
    · rw [List.concat_eq_append, List.foldlM_append] at hreach
      obtain ⟨place, -, hlast⟩ := bind_eq_ok_iff.mp hreach
      rw [List.foldlM_cons] at hlast
      obtain ⟨_, hlast, ⟨⟩⟩ := bind_eq_ok_iff.mp hlast
      exact isSome_lookup_of_step hlast
  obtain ⟨place, hplace, hfile⟩ := bind_eq_ok_iff.mp h
  cases place with
  | file _ =>
    cases hfile
    exact hwalk _ _ hplace
  | folder _ =>
    obtain ⟨_, -, hfile⟩ := bind_eq_ok_iff.mp hfile
    cases hfile

/-- An access is granted where the path leads to a file and nothing refuses it. -/
theorem grant_eq_ok_iff {access : Access} {path : Path} :
    d.grant access path = .ok names ↔
      d.fileAt path = .ok names ∧ d.permit access names = .ok () := by
  rw [grant, bind_eq_ok_iff]
  constructor
  · rintro ⟨reached, hreached, h⟩
    obtain ⟨⟨⟩, hpermit, h⟩ := bind_eq_ok_iff.mp h
    cases h
    exact ⟨hreached, hpermit⟩
  · rintro ⟨hreached, hpermit⟩
    exact ⟨names, hreached, by rw [hpermit]; rfl⟩

/-- What a path reads is what the file holds to which it leads. -/
theorem read_eq_ok_iff {path : Path} :
    d.read path = .ok octets ↔
      ∃ names, d.grant .read path = .ok names ∧ d.files.lookup names = some octets := by
  rw [read, bind_eq_ok_iff]
  refine exists_congr fun names => and_congr_right fun hnames => ?_
  obtain ⟨there, hthere⟩ := Option.isSome_iff_exists.mp
    (isSome_lookup_of_fileAt (grant_eq_ok_iff.mp hnames).1)
  rw [hthere, Option.getD_some]
  exact ⟨fun h => congrArg some (Except.ok.inj h), fun h => congrArg _ (Option.some.inj h)⟩

/-- What a path reads in two directories that differ in what its file holds. -/
theorem read_map {d' : Directory} {path : Path} {f : List UInt8 → List UInt8}
    (haccess : SameAccess d d') (hfiles : ∀ names, d.grant .read path = .ok names →
      d'.files.lookup names = (d.files.lookup names).map f) :
    d'.read path = (d.read path).map f := by
  rw [read, read, haccess.grant_eq]
  cases hnames : d.grant .read path with
  | error e => rfl
  | ok names =>
    obtain ⟨octets, hoctets⟩ := Option.isSome_iff_exists.mp
      (isSome_lookup_of_fileAt (grant_eq_ok_iff.mp hnames).1)
    simp only [bind, Except.bind, hfiles names hnames, hoctets]
    rfl

/-- A write that is granted gives the file of its path new octets; any other fails. -/
theorem write_eq (path : Path) :
    d.write path octets = (d.grant .write path).map fun names => d.replace names octets := by
  rw [write]
  cases d.grant .write path <;> rfl

/-- Whether a file may be read and written. -/
def Editable (d : Directory) (names : List String) : Prop :=
  d.permit .read names = .ok () ∧ d.permit .write names = .ok ()

instance (d : Directory) (names : List String) : Decidable (d.Editable names) :=
  inferInstanceAs (Decidable (_ ∧ _))

theorem SameAccess.editable_iff {d' : Directory} (h : SameAccess d d') (names : List String) :
    d'.Editable names ↔ d.Editable names := by
  rw [Editable, Editable, h.permit_eq, h.permit_eq]

/-- The file of a path that is read may be written exactly if the path grants it. -/
theorem editable_iff_isOk {path : Path} (h : d.grant .read path = .ok names) :
    d.Editable names ↔ (d.grant .write path).isOk := by
  obtain ⟨hnames, hread⟩ := grant_eq_ok_iff.mp h
  rw [Editable, hread, grant, hnames]
  simp only [true_and, bind, Except.bind]
  cases d.permit .write names <;> simp [Except.isOk, Except.toBool, pure, Except.pure]

end Directory

end XhrKeywords
