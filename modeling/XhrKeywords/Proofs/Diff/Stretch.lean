import XhrKeywords.Diff.Stretch

/-!
# Common stretches are common

Of every two places the search knows how many lines in front of both are the same. So whatever
stretch it settles on has the same lines in both lists, and so has its extension.
-/

namespace XhrKeywords.Diff

variable {as bs : List String}

/-- Two lists end with the same lines, of the given number. -/
def ShareEnd (as bs : List String) (length : Nat) : Prop :=
  ∃ front shared front', as = front ++ shared ∧ bs = front' ++ shared ∧ shared.length = length

/-- A stretch whose lines are the same in both lists. -/
def Stretch.IsCommon (as bs : List String) (s : Stretch) : Prop :=
  ∃ front shared back front' back', as = front ++ (shared ++ back) ∧
    bs = front' ++ (shared ++ back') ∧ s = ⟨front.length, front'.length, shared.length⟩

theorem isCommon_nil : Stretch.IsCommon as bs ⟨0, 0, 0⟩ :=
  ⟨[], [], as, [], bs, rfl, rfl, rfl⟩

theorem shareEnd_zero : ShareEnd as bs 0 :=
  ⟨as, [], bs, by simp, by simp, rfl⟩

/-- One more line that is the same. -/
theorem ShareEnd.concat {length : Nat} (h : ShareEnd as bs length) (line : String) :
    ShareEnd (as ++ [line]) (bs ++ [line]) (length + 1) := by
  obtain ⟨front, shared, front', rfl, rfl, rfl⟩ := h
  exact ⟨front, shared ++ [line], front', by simp, by simp, by simp⟩

/-- The lines that both lists end with in front of two places are a common stretch. -/
theorem ShareEnd.isCommon {length : Nat} {as' bs' : List String} (h : ShareEnd as bs length) :
    Stretch.IsCommon (as ++ as') (bs ++ bs')
      ⟨as.length - length, bs.length - length, length⟩ := by
  obtain ⟨front, shared, front', rfl, rfl, rfl⟩ := h
  exact ⟨front, shared, as', front', bs', by simp, by simp, by simp⟩

/-- Numbers of lines that the one list ends with, and so does the other one up to each of its lines
behind some in front. -/
def SharesEnds (as front : List String) : List String → List Nat → Prop
  | b :: rest, length :: others =>
    ShareEnd as (front ++ [b]) length ∧ SharesEnds as (front ++ [b]) rest others
  | _, lengths => lengths = []

theorem sharesEnds_nil (as front rest : List String) : SharesEnds as front rest [] := by
  cases rest <;> rfl

theorem sharesEnds_zeros (as front rest : List String) :
    SharesEnds as front rest (rest.map fun _ => 0) := by
  induction rest generalizing front with
  | nil => rfl
  | cons b rest ih => exact ⟨shareEnd_zero, ih _⟩

/-- The ends of one more line follow from those of the lines in front of it. -/
theorem sharesEnds_endingAt {matched : String → Bool} {line : String} {before : Nat}
    {front rest : List String} {lengths : List Nat} (hbefore : ShareEnd as front before)
    (h : SharesEnds as front rest lengths) :
    SharesEnds (as ++ [line]) front rest (endingAt matched line rest (before :: lengths)) := by
  induction rest generalizing front before lengths with
  | nil => rfl
  | cons b rest ih =>
    rw [endingAt]
    have hfirst : ShareEnd (as ++ [line]) (front ++ [b])
        (if (matched b && decide (b = line)) = true then before + 1 else 0) := by
      split
      · rename_i hmatch
        rw [Bool.and_eq_true, decide_eq_true_eq] at hmatch
        rw [hmatch.2]
        exact hbefore.concat line
      · exact shareEnd_zero
    cases lengths with
    | nil =>
      have hnone : endingAt matched line rest [] = [] := by cases rest <;> rfl
      rw [hnone]
      exact ⟨hfirst, sharesEnds_nil _ _ _⟩
    | cons length others => exact ⟨hfirst, ih h.1 h.2⟩

/-- Of common stretches and such that end at the same lines, the longest is common. -/
theorem isCommon_improve {as' front rest : List String} {old : Nat} {best : Stretch}
    {lengths : List Nat} (hold : as.length = old + 1)
    (hbest : Stretch.IsCommon (as ++ as') (front ++ rest) best)
    (h : SharesEnds as front rest lengths) :
    Stretch.IsCommon (as ++ as') (front ++ rest) (improve old best front.length lengths) := by
  induction lengths generalizing front rest best with
  | nil => exact hbest
  | cons length others ih =>
    cases rest with
    | nil => cases h
    | cons b rest =>
      have hbetter : Stretch.IsCommon (as ++ as') (front ++ b :: rest)
          (if best.length < length then ⟨old + 1 - length, front.length + 1 - length, length⟩
            else best) := by
        split
        · have hcommon : Stretch.IsCommon (as ++ as') (front ++ [b] ++ rest)
              ⟨as.length - length, (front ++ [b]).length - length, length⟩ := h.1.isCommon
          rwa [hold, List.length_append, List.length_singleton, List.append_assoc,
            List.singleton_append] at hcommon
        · exact hbest
      rw [← List.singleton_append, ← List.append_assoc] at hbetter ⊢
      have hmore := ih hbetter h.2
      rwa [List.length_append, List.length_singleton] at hmore

/-- The search settles on a common stretch. -/
theorem isCommon_searchFrom {matched : String → Bool} {front rest : List String} {best : Stretch}
    {lengths : List Nat} (hbest : Stretch.IsCommon (front ++ rest) bs best)
    (h : SharesEnds front [] bs lengths) :
    Stretch.IsCommon (front ++ rest) bs
      (searchFrom matched bs front.length best lengths rest) := by
  induction rest generalizing front best lengths with
  | nil => exact hbest
  | cons a rest ih =>
    have hends : SharesEnds (front ++ [a]) [] bs (endingAt matched a bs (0 :: lengths)) :=
      sharesEnds_endingAt shareEnd_zero h
    rw [← List.singleton_append, ← List.append_assoc] at hbest ⊢
    have hlength : (front ++ [a]).length = front.length + 1 := by simp
    have hbetter : Stretch.IsCommon (front ++ [a] ++ rest) ([] ++ bs)
        (improve front.length best 0 (endingAt matched a bs (0 :: lengths))) :=
      isCommon_improve hlength hbest hends
    have hmore := ih hbetter hends
    rwa [hlength] at hmore

/-- Two lists start with as many common lines as are counted. -/
theorem exists_of_commonLength (as bs : List String) :
    ∃ shared back back', as = shared ++ back ∧ bs = shared ++ back' ∧
      shared.length = commonLength as bs := by
  fun_induction commonLength as bs with
  | case1 as a bs ih =>
    obtain ⟨shared, back, back', has, hbs, hlength⟩ := ih
    exact ⟨a :: shared, back, back', by rw [has]; rfl, by rw [hbs]; rfl, by simp [hlength]⟩
  | case2 a as b bs => exact ⟨[], _, _, rfl, rfl, rfl⟩
  | case3 as bs => exact ⟨[], as, bs, rfl, rfl, rfl⟩

/-- A common stretch is common as far as it is extended. -/
theorem Stretch.IsCommon.extend {s : Stretch} (h : s.IsCommon as bs) :
    (extend as bs s).IsCommon as bs := by
  obtain ⟨front, shared, back, front', back', rfl, rfl, rfl⟩ := h
  obtain ⟨ahead, rest, rest', hback, hback', hahead⟩ := exists_of_commonLength back back'
  obtain ⟨behind, before, before', hfront, hfront', hbehind⟩ :=
    exists_of_commonLength front.reverse front'.reverse
  rw [List.reverse_eq_iff, List.reverse_append] at hfront hfront'
  refine ⟨before.reverse, behind.reverse ++ (shared ++ ahead), rest, before'.reverse, rest', ?_, ?_,
    ?_⟩
  · rw [hfront, hback]
    simp
  · rw [hfront', hback']
    simp
  · have hlength := congrArg List.length hfront
    have hlength' := congrArg List.length hfront'
    rw [List.length_append, List.length_reverse, List.length_reverse] at hlength hlength'
    have hdrop (front back : List String) :
        (front ++ (shared ++ back)).drop (front.length + shared.length) = back := by
      rw [← List.append_assoc, ← List.length_append, List.drop_left]
    simp only [Diff.extend, List.take_left, hdrop, ← hahead, ← hbehind, Stretch.mk.injEq,
      List.length_append, List.length_reverse]
    omega

/-- The longest stretch is common. -/
theorem isCommon_longest (matched : String → Bool) (as bs : List String) :
    (longest matched as bs).IsCommon as bs :=
  have hsearch : Stretch.IsCommon ([] ++ as) bs
      (searchFrom matched bs 0 ⟨0, 0, 0⟩ (bs.map fun _ => 0) as) :=
    isCommon_searchFrom isCommon_nil (sharesEnds_zeros _ _ _)
  hsearch.extend

end XhrKeywords.Diff
