import XhrKeywords.Diff.Unified
import XhrKeywords.Proofs.Diff.Stretch

/-!
# Edits and hunks

The edits lead from the old lines to the new ones, whatever is matched, since every stretch that is
kept is common. The hunks show every change, in order, and no lines but those of the edits.
-/

namespace XhrKeywords.Diff

namespace Edit

/-- The old lines that an edit removes. -/
def removed : Edit → List String
  | keep _ => []
  | change old _ => old

/-- The new lines that an edit adds. -/
def added : Edit → List String
  | keep _ => []
  | change _ new => new

end Edit

/-- What is told of an edit line by line, so that a kept stretch may be cut and joined. -/
structure Linear {α : Type} (f : Edit → List α) : Prop where
  nil : f (.keep []) = []
  append : ∀ lines more, f (.keep (lines ++ more)) = f (.keep lines) ++ f (.keep more)

theorem linear_old : Linear Edit.old := ⟨rfl, fun _ _ => rfl⟩

theorem linear_new : Linear Edit.new := ⟨rfl, fun _ _ => rfl⟩

/-- Joining kept stretches changes nothing. -/
theorem Linear.flatMap_prepend {α : Type} {f : Edit → List α} (h : Linear f) (e : Edit)
    (others : List Edit) : (prepend e others).flatMap f = f e ++ others.flatMap f := by
  rw [prepend.eq_def]
  split
  · rw [List.flatMap_cons, List.flatMap_cons, h.append, List.append_assoc]
  · rw [List.flatMap_cons]

theorem Linear.flatMap_foldr_prepend {α : Type} {f : Edit → List α} (h : Linear f)
    (found : List Edit) : (found.foldr prepend []).flatMap f = found.flatMap f := by
  induction found with
  | nil => rfl
  | cons e others ih => rw [List.foldr_cons, h.flatMap_prepend, ih, List.flatMap_cons]

/-- The edits between two lists take the lines of both. -/
theorem flatMap_compare (matched : String → Bool) (depth : Nat) (as bs : List String) :
    (compare matched depth as bs).flatMap Edit.old = as ∧
      (compare matched depth as bs).flatMap Edit.new = bs := by
  have hchange : ∀ as bs : List String,
      (if as.isEmpty && bs.isEmpty then [] else [Edit.change as bs]).flatMap Edit.old = as ∧
        (if as.isEmpty && bs.isEmpty then [] else [Edit.change as bs]).flatMap Edit.new = bs := by
    intro as bs
    split
    · rename_i hempty
      rw [Bool.and_eq_true, List.isEmpty_iff, List.isEmpty_iff] at hempty
      rw [hempty.1, hempty.2]
      exact ⟨rfl, rfl⟩
    · simp [Edit.old, Edit.new]
  induction depth generalizing as bs with
  | zero => exact hchange as bs
  | succ depth ih =>
    rw [compare]
    obtain ⟨front, shared, back, front', back', has, hbs, hlongest⟩ :=
      isCommon_longest matched as bs
    rw [hlongest]
    split
    · exact hchange as bs
    · have hbehind (front back : List String) :
          (front ++ (shared ++ back)).drop (front.length + shared.length) = back := by
        rw [← List.append_assoc, ← List.length_append, List.drop_left]
      rw [has, hbs]
      simp only [List.take_left, List.drop_left, hbehind, List.flatMap_append, List.flatMap_cons,
        (ih _ _).1, (ih _ _).2, Edit.old, Edit.new, and_self]

/-- The edits from old lines to new ones take the lines of both. -/
theorem flatMap_edits (as bs : List String) :
    (edits as bs).flatMap Edit.old = as ∧ (edits as bs).flatMap Edit.new = bs := by
  rw [edits, linear_old.flatMap_foldr_prepend, linear_new.flatMap_foldr_prepend]
  exact flatMap_compare _ _ _ _

/-- Where nothing is changed, the old lines are the new ones. -/
theorem exists_change_of_ne {as bs : List String} (h : as ≠ bs) :
    ¬(edits as bs).all Edit.isKeep = true := by
  intro hall
  have hsame : ∀ found : List Edit, found.all Edit.isKeep = true →
      found.flatMap Edit.old = found.flatMap Edit.new := by
    intro found hall
    induction found with
    | nil => rfl
    | cons e others ih =>
      rw [List.all_cons, Bool.and_eq_true] at hall
      rw [List.flatMap_cons, List.flatMap_cons, ih hall.2]
      cases e with
      | keep lines => rfl
      | change old new => cases hall.1
  obtain ⟨has, hbs⟩ := flatMap_edits as bs
  exact h (has.symm.trans ((hsame _ hall).trans hbs))

/-- The edits that hunks show. -/
def shownEdits (found : List Hunk) : List Edit := found.flatMap Hunk.edits

theorem shownEdits_cons (k : Hunk) (others : List Hunk) :
    shownEdits (k :: others) = k.edits ++ shownEdits others :=
  List.flatMap_cons

theorem shownEdits_close (k : Hunk) :
    shownEdits k.close = if k.edits.all Edit.isKeep then [] else k.edits := by
  rw [Hunk.close]
  split
  · rfl
  · rw [shownEdits_cons]
    exact List.append_nil _

@[simp] theorem Hunk.edits_push (k : Hunk) (e : Edit) : (k.push e).edits = k.edits ++ [e] := rfl

section Changes

variable {α : Type} {f : Edit → List α} (hkeep : ∀ lines, f (.keep lines) = [])

include hkeep

theorem flatMap_of_all {found : List Edit} (h : found.all Edit.isKeep = true) :
    found.flatMap f = [] := by
  rw [List.flatMap_eq_nil_iff]
  intro e he
  have hall := List.all_eq_true.mp h e he
  cases e with
  | keep lines => exact hkeep lines
  | change old new => cases hall

theorem flatMap_close (k : Hunk) : (shownEdits k.close).flatMap f = k.edits.flatMap f := by
  rw [shownEdits_close]
  split
  · rename_i hall
    rw [flatMap_of_all hkeep hall]
    rfl
  · rfl

theorem flatMap_ofContext (oldAt newAt : Nat) (lines : List String) :
    (Hunk.ofContext oldAt newAt lines).edits.flatMap f = [] := by
  simp [Hunk.ofContext, hkeep]

/-- No change is left out behind an open hunk. -/
theorem flatMap_hunksFrom (oldAt newAt : Nat) (k : Hunk) (found : List Edit) :
    (shownEdits (hunksFrom oldAt newAt k found)).flatMap f =
      k.edits.flatMap f ++ found.flatMap f := by
  fun_induction hunksFrom oldAt newAt k found with
  | case1 oldAt newAt k => rw [flatMap_close hkeep, List.flatMap_nil, List.append_nil]
  | case2 oldAt newAt k lines => simp [flatMap_close hkeep, hkeep]
  | case3 oldAt newAt k lines others _ hlong ih =>
    rw [shownEdits_cons, List.flatMap_append, ih, flatMap_ofContext hkeep]
    simp [hkeep]
  | case4 oldAt newAt k lines others _ hshort ih =>
    rw [ih]
    simp [hkeep]
  | case5 oldAt newAt k old new others ih =>
    rw [ih]
    simp

/-- No change is left out. -/
theorem flatMap_hunks (found : List Edit) :
    (shownEdits (hunks found)).flatMap f = found.flatMap f := by
  fun_cases hunks found with
  | case1 lines => simp [flatMap_close hkeep, flatMap_ofContext hkeep, hkeep]
  | case2 lines others =>
    rw [flatMap_hunksFrom hkeep, flatMap_ofContext hkeep]
    simp [hkeep]
  | case3 => exact flatMap_hunksFrom hkeep _ _ _ _

end Changes

/-- An edit of lines with a property. -/
def Edit.All (P : String → Prop) (e : Edit) : Prop :=
  (∀ line ∈ e.old, P line) ∧ ∀ line ∈ e.new, P line

section All

variable {P : String → Prop}

theorem all_close {k : Hunk} (h : ∀ e ∈ k.edits, e.All P) : ∀ e ∈ shownEdits k.close, e.All P := by
  rw [shownEdits_close]
  split
  · intro e he
    cases he
  · exact h

theorem all_take {lines : List String} (h : (Edit.keep lines).All P) (n : Nat) :
    (Edit.keep (lines.take n)).All P :=
  ⟨fun line hline => h.1 line (List.mem_of_mem_take hline),
    fun line hline => h.2 line (List.mem_of_mem_take hline)⟩

theorem all_ofContext {lines : List String} (h : (Edit.keep lines).All P) (oldAt newAt : Nat) :
    ∀ e ∈ (Hunk.ofContext oldAt newAt lines).edits, e.All P := by
  intro e he
  rw [Hunk.ofContext, List.mem_singleton] at he
  rw [he]
  exact ⟨fun line hline => h.1 line (List.mem_of_mem_drop hline),
    fun line hline => h.2 line (List.mem_of_mem_drop hline)⟩

theorem all_push {k : Hunk} {last : Edit} (h : ∀ e ∈ k.edits, e.All P) (hlast : last.All P) :
    ∀ e ∈ (k.push last).edits, e.All P := by
  rw [Hunk.edits_push]
  exact List.forall_mem_append.mpr ⟨h, List.forall_mem_singleton.mpr hlast⟩

/-- The hunks show no lines but those of an open hunk and of the edits behind it. -/
theorem all_hunksFrom {oldAt newAt : Nat} {k : Hunk} {found : List Edit}
    (hopen : ∀ e ∈ k.edits, e.All P) (h : ∀ e ∈ found, e.All P) :
    ∀ e ∈ shownEdits (hunksFrom oldAt newAt k found), e.All P := by
  fun_induction hunksFrom oldAt newAt k found with
  | case1 oldAt newAt k => exact all_close hopen
  | case2 oldAt newAt k lines =>
    rw [List.forall_mem_singleton] at h
    exact all_close (all_push hopen (all_take h _))
  | case3 oldAt newAt k lines others _ hlong ih =>
    rw [List.forall_mem_cons] at h
    rw [shownEdits_cons, List.forall_mem_append]
    exact ⟨all_push hopen (all_take h.1 _), ih (all_ofContext h.1 _ _) h.2⟩
  | case4 oldAt newAt k lines others _ hshort ih =>
    rw [List.forall_mem_cons] at h
    exact ih (all_push hopen h.1) h.2
  | case5 oldAt newAt k old new others ih =>
    rw [List.forall_mem_cons] at h
    exact ih (all_push hopen h.1) h.2

/-- The hunks show no lines but those of the edits. -/
theorem all_hunks {found : List Edit} (h : ∀ e ∈ found, e.All P) :
    ∀ e ∈ shownEdits (hunks found), e.All P := by
  fun_cases hunks found with
  | case1 lines =>
    rw [List.forall_mem_singleton] at h
    exact all_close (all_ofContext h _ _)
  | case2 lines others =>
    rw [List.forall_mem_cons] at h
    exact all_hunksFrom (all_ofContext h.1 _ _) h.2
  | case3 => exact all_hunksFrom (fun e he => nomatch he) h

/-- The edits have no lines but those of both lists. -/
theorem all_edits {as bs : List String} (has : ∀ line ∈ as, P line) (hbs : ∀ line ∈ bs, P line) :
    ∀ e ∈ edits as bs, e.All P := by
  obtain ⟨hold, hnew⟩ := flatMap_edits as bs
  intro e he
  refine ⟨fun line hline => has line ?_, fun line hline => hbs line ?_⟩
  · rw [← hold]
    exact List.mem_flatMap.mpr ⟨e, he, hline⟩
  · rw [← hnew]
    exact List.mem_flatMap.mpr ⟨e, he, hline⟩

end All

/-- Different lists of lines have hunks. -/
theorem hunks_edits_ne_nil {as bs : List String} (h : as ≠ bs) : hunks (edits as bs) ≠ [] := by
  intro hnone
  let changes (e : Edit) : List Edit := if e.isKeep then [] else [e]
  have hshown : (edits as bs).flatMap changes = [] := by
    rw [← flatMap_hunks (fun _ => rfl), hnone]
    rfl
  refine exists_change_of_ne h (List.all_eq_true.mpr fun e he => ?_)
  have hkept : changes e = [] := List.flatMap_eq_nil_iff.mp hshown e he
  cases he : e.isKeep with
  | true => rfl
  | false => simp [changes, he] at hkept

end XhrKeywords.Diff
