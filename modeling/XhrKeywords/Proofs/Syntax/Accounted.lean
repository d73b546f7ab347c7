import XhrKeywords.Proofs.Syntax.Kept

/-!
# The leaves of kept tokens

What a forest keeps between two offsets can be counted: the leaves that start with a literal or a
name start one no later than the next, and the texts of those that start with the same one follow
from the remarks about it.
-/

namespace XhrKeywords

namespace Syntax

open Token (InOrder)

/-- What leaves and remarks say of the literals and names between two offsets: they start there and
with nothing else, the leaves come in order, and the leaves of each token have the texts that follow
from the remarks about it. -/
structure Accounted (tokens : List Token) (lo hi : Nat) (leaves : List Leaf)
    (remarked : Remark → Nat → Bool) : Prop where
  le : lo ≤ hi
  within : ∀ t ∈ tokens, t.kind.isAtom → ∀ l ∈ leaves, l.isAt t.start → lo ≤ t.start ∧ t.start < hi
  remarks : ∀ t ∈ tokens, t.kind.isAtom → ∀ r, remarked r t.start → lo ≤ t.start ∧ t.start < hi
  ordered : (leaves.filter (·.isAtomOf tokens)).Pairwise Leaf.StartsNoLater
  texts : ∀ before t behind, tokens = before ++ t :: behind → t.kind.isAtom →
    lo ≤ t.start → t.start < hi →
      Leaf.textsAt leaves t.start = leafTexts (remarked · t.start) t behind

namespace Accounted

variable {tokens : List Token} {lo mid hi : Nat} {t : Token} {leaves others : List Leaf}
  {remarked remarked' : Remark → Nat → Bool}

/-- Without remarks a token has one leaf with its text. -/
theorem leafTexts_eq {r : Remark → Bool} (h : ∀ remark, r remark = false) (t : Token)
    (behind : List Token) : leafTexts r t behind = [t.text] := by
  simp [leafTexts, h]

/-- Other remarks say the same when the texts do not depend on the difference. -/
theorem of_leafTexts (h : Accounted tokens lo hi leaves remarked)
    (hremarks : ∀ t ∈ tokens, t.kind.isAtom → ∀ r, remarked' r t.start →
      lo ≤ t.start ∧ t.start < hi)
    (htexts : ∀ before t behind, tokens = before ++ t :: behind →
      leafTexts (remarked' · t.start) t behind = leafTexts (remarked · t.start) t behind) :
    Accounted tokens lo hi leaves remarked' := by
  refine ⟨h.le, h.within, hremarks, h.ordered, ?_⟩
  intro before t behind hsplit hatom hlo hhi
  rw [h.texts before t behind hsplit hatom hlo hhi, htexts before t behind hsplit]

/-- That a token is the first one of a pair makes a difference only for a label without a value. -/
theorem pair (h : Accounted tokens lo hi leaves remarked) {offset : Nat} (hlo : lo ≤ offset)
    (hhi : offset < hi) (hvalued : Valued tokens offset) :
    Accounted tokens lo hi leaves
      fun r start => decide (r = .key) && offset == start || remarked r start := by
  refine h.of_leafTexts ?_ ?_
  · intro t ht hatom r hr
    rcases Bool.or_eq_true_iff.mp hr with hr | hr
    · have := beq_iff_eq.mp (Bool.and_eq_true_iff.mp hr).2
      omega
    · exact h.remarks t ht hatom r hr
  · intro before t behind hsplit
    by_cases hlabel : t.kind = .label ∧ t.start = offset
    · simp [leafTexts, hvalued before t behind hsplit hlabel.1 hlabel.2]
    · have hkey : t.kind = .label → (offset == t.start) = false := by
        intro hkind
        rw [beq_eq_false_iff_ne]
        exact fun heq => hlabel ⟨hkind, heq.symm⟩
      by_cases hkind : t.kind = .label <;> simp [leafTexts, hkind, hkey]

/-- Only the remarks about literals and names matter. -/
theorem congr (h : Accounted tokens lo hi leaves remarked)
    (heq : ∀ t ∈ tokens, t.kind.isAtom → ∀ r, remarked' r t.start = remarked r t.start) :
    Accounted tokens lo hi leaves remarked' := by
  refine ⟨h.le, h.within, ?_, h.ordered, ?_⟩
  · intro t ht hatom r hr
    exact h.remarks t ht hatom r (heq t ht hatom r ▸ hr)
  · intro before t behind hsplit hatom hlo hhi
    have ht : t ∈ tokens := by simp [hsplit]
    rw [h.texts before t behind hsplit hatom hlo hhi]
    congr 1
    funext r
    rw [heq t ht hatom r]

/-- Where nothing starts there is nothing to account for. -/
theorem gap (h : Gap tokens lo hi) : Accounted tokens lo hi [] fun _ _ => false := by
  refine ⟨h.le, by simp, by simp, by simp, ?_⟩
  intro before t behind hsplit hatom hlo hhi
  have := h.free t (by simp [hsplit]) hatom
  omega

/-- A leaf that starts with no literal and no name makes no difference. -/
theorem mark {content : Leaf} (hunkept : IsUnkept tokens content)
    (h : Accounted tokens lo hi leaves remarked) :
    Accounted tokens lo hi (content :: leaves) remarked := by
  refine ⟨h.le, ?_, h.remarks, ?_, ?_⟩
  · intro t ht hatom l hl hstart
    rcases List.mem_cons.mp hl with rfl | hl
    · rw [hunkept t ht hatom] at hstart
      cases hstart
    · exact h.within t ht hatom l hl hstart
  · have hcontent : ¬ content.isAtomOf tokens = true := by
      rw [Leaf.isAtomOf_iff]
      rintro ⟨t, ht, hatom, hstart⟩
      rw [hunkept t ht hatom] at hstart
      cases hstart
    rw [List.filter_cons_of_neg hcontent]
    exact h.ordered
  · intro before t behind hsplit hatom hlo hhi
    have hcontent := hunkept t (by simp [hsplit]) hatom
    rw [← h.texts before t behind hsplit hatom hlo hhi, Leaf.textsAt, Leaf.textsAt,
      List.filter_cons_of_neg (by rw [hcontent]; exact Bool.false_ne_true)]

/-- Around one literal or name its leaves and the remarks about it are accounted for. -/
theorem sole (hin : InOrder tokens) (h : Sole tokens t lo hi)
    (hleaves : ∀ l ∈ leaves, l.isAt t.start)
    (hremarks : ∀ r offset, remarked r offset → offset = t.start)
    (htexts : ∀ before behind, tokens = before ++ t :: behind →
      leaves.map (·.text) = leafTexts (remarked · t.start) t behind) :
    Accounted tokens lo hi leaves remarked := by
  obtain ⟨hlo, hhi⟩ := h.le
  refine ⟨by omega, ?_, ?_, ?_, ?_⟩
  · intro u _ _ l hl hstart
    have hsame := hleaves l hl
    rw [Leaf.isAt_iff] at hstart hsame
    rw [hsame, Option.some.injEq] at hstart
    omega
  · intro u _ _ r hr
    have := hremarks r u.start hr
    omega
  · refine List.Pairwise.filter _ (List.pairwise_of_forall_mem_list fun l hl m hm => ?_)
    intro a ha b hb
    have hl := Leaf.isAt_iff.mp (hleaves l hl)
    have hm := Leaf.isAt_iff.mp (hleaves m hm)
    rw [hl] at ha
    rw [hm] at hb
    cases ha
    cases hb
    exact Nat.le_refl _
  · intro before u behind hsplit hatom hlo hhi
    have hu : u ∈ tokens := by simp [hsplit]
    have hfront := h.front.free u hu hatom
    have hbehind := h.behind.free u hu hatom
    -- No atom but the given one starts in front of its end.
    have heq : u = t := hin.eq_of_start hu h.mem (Token.Kind.ne_eof_of_isAtom hatom)
      (by omega)
    subst heq
    rw [← htexts before behind hsplit, Leaf.textsAt, List.filter_eq_self.mpr hleaves]

/-- What lies behind an offset is accounted for together with what lies in front of it. -/
theorem append (h : Accounted tokens lo mid leaves remarked)
    (hothers : Accounted tokens mid hi others remarked') :
    Accounted tokens lo hi (leaves ++ others)
      fun r offset => remarked r offset || remarked' r offset := by
  have hlo := h.le
  have hhi := hothers.le
  refine ⟨by omega, ?_, ?_, ?_, ?_⟩
  · intro t ht hatom l hl hstart
    rcases List.mem_append.mp hl with hl | hl
    · have := h.within t ht hatom l hl hstart
      omega
    · have := hothers.within t ht hatom l hl hstart
      omega
  · intro t ht hatom r hr
    rcases Bool.or_eq_true_iff.mp hr with hr | hr
    · have := h.remarks t ht hatom r hr
      omega
    · have := hothers.remarks t ht hatom r hr
      omega
  · rw [List.filter_append]
    refine List.pairwise_append.mpr ⟨h.ordered, hothers.ordered, ?_⟩
    intro l hl m hm a ha b hb
    obtain ⟨hl, hatom⟩ := List.mem_filter.mp hl
    obtain ⟨hm, hatom'⟩ := List.mem_filter.mp hm
    obtain ⟨t, ht, hatom, hstart⟩ := Leaf.isAtomOf_iff.mp hatom
    obtain ⟨u, hu, hatom', hstart'⟩ := Leaf.isAtomOf_iff.mp hatom'
    have hfront := (h.within t ht hatom l hl hstart).2
    have hback := (hothers.within u hu hatom' m hm hstart').1
    rw [Leaf.isAt_iff.mp hstart] at ha
    rw [Leaf.isAt_iff.mp hstart'] at hb
    cases ha
    cases hb
    omega
  · intro before t behind hsplit hatom hlo hhi
    have ht : t ∈ tokens := by simp [hsplit]
    rw [Leaf.textsAt_append]
    -- An atom starts in front of the border or behind it, and the other nodes know nothing of it.
    by_cases hmid : t.start < mid
    · have hnone : ∀ l ∈ others, l.isAt t.start = false := by
        intro l hl
        by_contra hstart
        have := (hothers.within t ht hatom l hl (by simpa using hstart)).1
        omega
      have hremarks : ∀ r, remarked' r t.start = false := by
        intro r
        by_contra hr
        have := (hothers.remarks t ht hatom r (by simpa using hr)).1
        omega
      rw [h.texts before t behind hsplit hatom hlo hmid, Leaf.textsAt_eq_nil hnone]
      simp [hremarks]
    · have hnone : ∀ l ∈ leaves, l.isAt t.start = false := by
        intro l hl
        by_contra hstart
        have := (h.within t ht hatom l hl (by simpa using hstart)).2
        omega
      have hremarks : ∀ r, remarked r t.start = false := by
        intro r
        by_contra hr
        have := (h.remarks t ht hatom r (by simpa using hr)).2
        omega
      rw [hothers.texts before t behind hsplit hatom (by omega) hhi, Leaf.textsAt_eq_nil hnone]
      simp [hremarks]

end Accounted

variable {tokens : List Token} {lo hi : Nat} {t : Token} {nodes : List Node}

/-- A tree that rewords nothing makes no remarks. -/
theorem remarks_eq_false {kind : Kind} {span : Option Span} {children : List Node}
    (hkind : kind.rewords = false) (r : Remark) (offset : Nat) :
    (Node.tree kind span children).remarks r offset = false := by
  unfold Node.remarks
  split
  all_goals
    first
    | rfl
    | rename_i heq
      cases heq
      cases hkind

/-- What a method is defined on is accounted for. -/
theorem Owner.accounted (hin : InOrder tokens) {owner : Node} (h : Owner tokens lo hi owner) :
    (∀ r offset, owner.isRemarked r offset = false) ∧
      Accounted tokens lo hi owner.leaves fun r offset =>
        decide (r = .owner) && owner.isSelfAt offset := by
  cases h with
  | none gap => exact ⟨by simp, by simpa [Node.isSelfAt] using Accounted.gap gap⟩
  | self sole htext hspan =>
    refine ⟨by simp [Node.remarks], .sole hin sole (by simp) ?_ ?_⟩
    · intro r offset hr
      simp [Node.isSelfAt] at hr
      omega
    · intro before behind hsplit
      simp [leafTexts, htext, Node.isSelfAt, hspan]
  | lvar sole hstart htext | const sole hstart htext =>
    refine ⟨by simp [Node.remarks], .sole hin sole (by simpa using hstart) ?_ ?_⟩
    · simp [Node.isSelfAt]
    · intro before behind hsplit
      simp [leafTexts, htext, Node.isSelfAt]

/-- The name of a method that is defined is accounted for. -/
theorem MethodName.accounted (hin : InOrder tokens) {content : Leaf}
    (h : MethodName tokens lo hi content) :
    Accounted tokens lo hi [content] fun r offset => decide (r = .name) && content.isAt offset := by
  cases h with
  | operator gap hunkept =>
    refine ((Accounted.gap gap).mark hunkept).congr fun t ht hatom r => ?_
    simp [hunkept t ht hatom]
  | @name before behind t sole hsplit hstart htext =>
    refine .sole hin sole (by simpa using hstart) ?_ ?_
    · intro r offset hr
      have hoffset := Leaf.isAt_iff.mp (Bool.and_eq_true_iff.mp hr).2
      rw [Leaf.isAt_iff.mp hstart, Option.some.injEq] at hoffset
      exact hoffset.symm
    · intro before' behind' hsplit'
      have hkind := Token.Kind.ne_eof_of_isAtom sole.atom
      obtain ⟨-, rfl⟩ := hin.split_unique hsplit hsplit' hkind rfl
      cases hsetter : opensSetter behind <;> simp [leafTexts, htext, hstart, hsetter]

/-- What a forest keeps is accounted for. -/
theorem Kept.accounted (hin : InOrder tokens) (h : Kept tokens lo hi nodes) :
    Accounted tokens lo hi (Node.leavesAll nodes) (Node.isRemarkedIn nodes) := by
  -- The nodes are accounted for from the front; only three cases put the text of a token in other
  -- words.
  induction h with
  | nil gap => simpa using Accounted.gap gap
  | absent _ ih => simpa using ih
  | mark hunkept _ ih => simpa using ih.mark hunkept
  | @atom lo mid hi t content others sole hstart htext _ ih =>
    have hleaf : Accounted tokens lo mid [content] fun _ _ => false := by
      refine .sole hin sole (by simpa using hstart) (by simp) ?_
      simp [htext, Accounted.leafTexts_eq]
    simpa using hleaf.append ih
  | tree hkind _ _ ihchildren ih =>
    simpa [remarks_eq_false hkind] using ihchildren.append ih
  | @pair lo mid hi span children others hlo hhi hvalued _ _ ihchildren ih =>
    rw [show Node.leavesAll (.tree .pair (some span) children :: others) =
      Node.leavesAll children ++ Node.leavesAll others by simp]
    refine ((ihchildren.pair hlo hhi hvalued).append ih).congr fun t ht hatom r => ?_
    cases r <;> simp [Node.remarks]
  | @repeated lo mid hi before t behind span keySpan key name value others sole hsplit hlabel homits
      hspan hkey hname hvalue _ ih =>
    have hpair : Accounted tokens lo mid [key, name]
        fun r offset => decide (r = .key) && span.start == offset := by
      refine .sole hin sole (by simpa using ⟨hkey.1, hname.1⟩) ?_ ?_
      · intro r offset hr
        exact (beq_iff_eq.mp (Bool.and_eq_true_iff.mp hr).2).symm.trans hspan
      · intro before' behind' hsplit'
        have hkind := Token.Kind.ne_eof_of_isAtom sole.atom
        obtain ⟨-, rfl⟩ := hin.split_unique hsplit hsplit' hkind rfl
        simp [leafTexts, hlabel, homits, hkey, hname, hspan]
    have hvalue : value.leaves = [name] ∧ ∀ r offset, value.isRemarked r offset = false := by
      cases hvalue <;> simp [Node.remarks]
    rw [show Node.leavesAll (.tree .pair (some span) [.tree .sym keySpan [.leaf key], value] ::
      others) = [key, name] ++ Node.leavesAll others by simp [hvalue]]
    refine (hpair.append ih).congr fun u hu hatom r => ?_
    cases r <;> simp [Node.remarks, hvalue]
  | @number lo mid hi t kind span content others sole hkind hnumber hstart htext _ ih =>
    have hnumber : Accounted tokens lo mid [content] fun r offset =>
        decide (r = .signed) && (content.isAt offset && decide (span.start < offset)) := by
      refine .sole hin sole (by simpa using hstart) ?_ ?_
      · intro r offset hr
        simp only [Bool.and_eq_true] at hr
        have hoffset := Leaf.isAt_iff.mp hr.2.1
        rw [Leaf.isAt_iff.mp hstart, Option.some.injEq] at hoffset
        exact hoffset.symm
      · intro before behind hsplit
        by_cases hsign : span.start < t.start <;>
          simp [leafTexts, htext, hstart, hsign, hnumber]
    rw [show Node.leavesAll (.tree kind (some span) [.leaf content] :: others) =
      [content] ++ Node.leavesAll others by simp]
    refine (hnumber.append ih).congr fun u hu hatom r => ?_
    rcases hkind with rfl | rfl <;> cases r <;> simp [Node.remarks]
  | @method lo low high mid hi span owner name children others howner hname _ _ ihchildren ih =>
    obtain ⟨hunremarked, howner⟩ := howner.accounted hin
    rw [show Node.leavesAll (.tree .defStmt span (owner :: .leaf name :: children) :: others) =
      owner.leaves ++ ([name] ++ Node.leavesAll children) ++ Node.leavesAll others by simp]
    refine ((howner.append ((hname.accounted hin).append ihchildren)).append ih).congr
      fun u hu hatom r => ?_
    cases r <;> simp [Node.remarks, hunremarked]

end Syntax

end XhrKeywords
