import XhrKeywords.Proofs.Migration.Parens

/-!
# Line ends of a converted source

A source whose line ends are pairs of a carriage return and a line feed keeps them outside its
legacy calls. The printed calls have line feeds of their own where they go over several lines, so
the line ends are of one kind exactly if every printed call has them already.
-/

namespace XhrKeywords

open Syntax

/-- Every line feed stands behind a carriage return and every carriage return in front of a line
feed. -/
inductive IsCrlf : List Char → Prop
  | nil : IsCrlf []
  | pair {rest : List Char} (h : IsCrlf rest) : IsCrlf ('\r' :: '\n' :: rest)
  | other {c : Char} {rest : List Char} (hreturn : c ≠ '\r') (hfeed : c ≠ '\n') (h : IsCrlf rest) :
      IsCrlf (c :: rest)

namespace IsCrlf

variable {front behind : List Char}

theorem append (hfront : IsCrlf front) (hbehind : IsCrlf behind) : IsCrlf (front ++ behind) := by
  induction hfront with
  | nil => exact hbehind
  | pair _ ih => exact .pair ih
  | other hreturn hfeed _ ih => exact .other hreturn hfeed ih

/-- A text is cut anywhere but in front of a line feed. -/
theorem of_append (h : IsCrlf (front ++ behind)) (hcut : behind.head? ≠ some '\n') :
    IsCrlf front ∧ IsCrlf behind := by
  generalize htext : front ++ behind = text at h
  induction h generalizing front with
  | nil =>
    obtain ⟨rfl, rfl⟩ := List.append_eq_nil_iff.mp htext
    exact ⟨.nil, .nil⟩
  | @pair rest h ih =>
    rcases front with _ | ⟨c, _ | ⟨d, front⟩⟩
    · exact ⟨.nil, by rw [List.nil_append] at htext; exact htext ▸ .pair h⟩
    · simp only [List.cons_append, List.nil_append, List.cons.injEq] at htext
      rw [htext.2] at hcut
      exact absurd rfl hcut
    · simp only [List.cons_append, List.cons.injEq] at htext
      obtain ⟨rfl, rfl, htext⟩ := htext
      exact ⟨.pair (ih htext).1, (ih htext).2⟩
  | @other c rest hreturn hfeed h ih =>
    rcases front with _ | ⟨d, front⟩
    · exact ⟨.nil, by rw [List.nil_append] at htext; exact htext ▸ .other hreturn hfeed h⟩
    · simp only [List.cons_append, List.cons.injEq] at htext
      obtain ⟨rfl, htext⟩ := htext
      exact ⟨.other hreturn hfeed (ih htext).1, (ih htext).2⟩

theorem append_iff (hcut : behind.head? ≠ some '\n') :
    IsCrlf (front ++ behind) ↔ IsCrlf front ∧ IsCrlf behind :=
  ⟨fun h => h.of_append hcut, fun h => h.1.append h.2⟩

/-- A text with these line ends starts with no line feed. -/
theorem head?_ne {text : List Char} (h : IsCrlf text) : text.head? ≠ some '\n' := by
  cases h with
  | nil => exact nofun
  | pair _ => exact fun heq => absurd (Option.some.inj heq) (by decide)
  | other _ hfeed _ => exact fun heq => hfeed (Option.some.inj heq)

end IsCrlf

/-- A text with a carriage return in front of every line feed. -/
def crlf (text : String) : String :=
  .ofList (text.toList.flatMap fun c => if c = '\n' then ['\r', c] else [c])

theorem toList_crlf (text : String) :
    (crlf text).toList = text.toList.flatMap fun c => if c = '\n' then ['\r', c] else [c] :=
  String.toList_ofList

/-- These texts are the ones that come from line feeds alone. -/
theorem isCrlf_iff_exists {text : String} :
    IsCrlf text.toList ↔ ∃ plain : String, '\r' ∉ plain.toList ∧ text = crlf plain := by
  constructor
  · intro h
    obtain ⟨plain, hplain, htext⟩ : ∃ plain : List Char, '\r' ∉ plain ∧
        text.toList = plain.flatMap fun c => if c = '\n' then ['\r', c] else [c] := by
      generalize text.toList = chars at h
      induction h with
      | nil => exact ⟨[], List.not_mem_nil, rfl⟩
      | pair _ ih =>
        obtain ⟨plain, hplain, rfl⟩ := ih
        exact ⟨'\n' :: plain, by simpa using hplain, rfl⟩
      | @other c _ hreturn hfeed _ ih =>
        obtain ⟨plain, hplain, rfl⟩ := ih
        exact ⟨c :: plain, by simp [hplain, hreturn.symm], by simp [hfeed]⟩
    refine ⟨.ofList plain, by rwa [String.toList_ofList], String.toList_inj.mp ?_⟩
    rw [toList_crlf, String.toList_ofList, htext]
  · rintro ⟨plain, hplain, rfl⟩
    rw [toList_crlf]
    -- Each line feed of the plain text is written as a pair, and no other character is.
    generalize plain.toList = chars at hplain
    induction chars with
    | nil => exact .nil
    | cons c others ih =>
      obtain ⟨hc, hothers⟩ := not_or.mp (List.mem_cons.not.mp hplain)
      rw [List.flatMap_cons]
      split
      · rename_i hfeed
        subst hfeed
        exact .pair (ih hothers)
      · rename_i hfeed
        exact .other (Ne.symm hc) hfeed (ih hothers)

/-- Where no stretch starts or ends in front of a line feed and no new text starts with one, the
line ends behind the patches depend on those of the new texts. -/
theorem Patch.Rewrites.isCrlf_iff {reached : Nat} {patches : List Patch} {old new : List Char}
    (h : Patch.Rewrites reached patches old new) (hold : IsCrlf old)
    (hcuts : ∀ p ∈ patches, old[p.start - reached]? ≠ some '\n' ∧
      old[p.stop - reached]? ≠ some '\n')
    (htexts : ∀ p ∈ patches, ∃ c ∈ p.text.toList.head?, c ≠ '\n') :
    new.head? ≠ some '\n' ∧ (IsCrlf new ↔ ∀ p ∈ patches, IsCrlf p.text.toList) := by
  -- The patches are followed from the front. Neither a cut nor a text splits a line break in two,
  -- so the line ends of the parts are those of the whole.
  induction h with
  | kept reached rest => exact ⟨hold.head?_ne, by simpa using hold⟩
  | @replaced reached p others gap old rest behind start_eq stop_eq hothers ih =>
    obtain ⟨⟨hstart, hstop⟩, hcuts⟩ := List.forall_mem_cons.mp hcuts
    obtain ⟨⟨first, hfirst, hne⟩, htexts⟩ := List.forall_mem_cons.mp htexts
    have hstart : (old ++ rest).head? ≠ some '\n' := by
      rwa [start_eq, Nat.add_sub_cancel_left, List.append_assoc,
        List.getElem?_append_right (Nat.le_refl _), Nat.sub_self, ← List.head?_eq_getElem?]
        at hstart
    have hlength : p.stop = reached + (gap ++ old).length := by
      rw [List.length_append, stop_eq, start_eq, Nat.add_assoc]
    have hstop : rest.head? ≠ some '\n' := by
      rwa [hlength, Nat.add_sub_cancel_left, List.getElem?_append_right (Nat.le_refl _),
        Nat.sub_self, ← List.head?_eq_getElem?] at hstop
    rw [List.append_assoc] at hold
    obtain ⟨hgap, hold⟩ := hold.of_append hstart
    have hrest := (hold.of_append hstop).2
    have hshift : ∀ place, p.stop ≤ place →
        (gap ++ old ++ rest)[place - reached]? = rest[place - p.stop]? := by
      intro place hplace
      rw [List.getElem?_append_right (by omega)]
      congr 1
      omega
    have hbehind := hothers.ordered.1
    obtain ⟨hhead, hiff⟩ := ih hrest (fun q hq => by
      rw [← hshift q.start (hbehind q hq),
        ← hshift q.stop (Nat.le_trans (hbehind q hq) q.start_le_stop)]
      exact hcuts q hq) htexts
    have htext : p.text.toList.head? ≠ some '\n' := by
      rw [hfirst]
      exact fun heq => hne (Option.some.inj heq)
    refine ⟨?_, ?_⟩
    · rw [List.append_assoc, List.head?_append, List.head?_append, hfirst]
      have hfront := hgap.head?_ne
      cases hgapHead : gap.head? with
      | none => exact fun heq => hne (Option.some.inj heq)
      | some c => rwa [hgapHead] at hfront
    · rw [IsCrlf.append_iff hhead, IsCrlf.append_iff htext, hiff, List.forall_mem_cons]
      exact and_congr_left fun _ => and_iff_right hgap

namespace Migration

/-- The text that replaces a call starts with the name of its verb, so with no line feed. -/
theorem exists_head?_of_replaces {source : List Char} {site : Option Node × Node} {p : Patch}
    (h : Replaces source site p) : ∃ c ∈ p.text.toList.head?, c ≠ '\n' := by
  obtain ⟨-, listed, hlisted, hprint⟩ := h
  obtain ⟨verb, -, texts, hverb, -, -, htext⟩ := isRequest_of_print hlisted hprint
  have hname : Unicode.isIdentifier verb = true := by
    rw [verb?] at hverb
    split at hverb
    · exact (Bool.and_eq_true_iff.mp (Option.filter_eq_some_iff.mp hverb).2).1
    · cases hverb
  rw [Unicode.isIdentifier] at hname
  split at hname
  · cases hname
  · rename_i first others hchars
    refine ⟨first, ?_, ?_⟩
    · rw [htext]
      split <;> simp [hchars]
    · rintro rfl
      exact absurd (Bool.and_eq_true_iff.mp hname).1 (by decide +kernel)

end Migration

open Migration in
/-- A source with these line ends, in which no legacy call starts or ends in front of a line feed,
keeps them exactly if every printed call has them. -/
theorem isCrlf_of_migrate_iff {source out : String} (h : migrate source = .ok out)
    (hsource : IsCrlf source.toList) :
    ∃ tree patches, parse source = .ok tree ∧
      List.Forall₂ (Replaces source.toList) (sites tree) patches ∧
      ((∀ p ∈ patches, source.toList[p.start]? ≠ some '\n' ∧
          source.toList[p.stop]? ≠ some '\n') →
        (IsCrlf out.toList ↔ ∀ p ∈ patches, IsCrlf p.text.toList)) := by
  obtain ⟨tree, patches, hparse, hreplaces, happly⟩ := replaces_of_migrate h
  refine ⟨tree, patches, hparse, hreplaces, fun hcuts => ?_⟩
  have hsorted := Patch.sort_perm patches
  obtain ⟨-, -, hrewrites⟩ := Patch.rewrites_of_apply happly
  have htexts : ∀ p ∈ patches, ∃ c ∈ p.text.toList.head?, c ≠ '\n' :=
    ((List.forall₂_and_left _ _).mp
      (hreplaces.flip.imp fun p site hsite => ⟨exists_head?_of_replaces hsite, hsite⟩)).1
  rw [(hrewrites.isCrlf_iff hsource (fun p hp => hcuts p (hsorted.mem_iff.mp hp))
    fun p hp => htexts p (hsorted.mem_iff.mp hp)).2]
  exact forall_congr' fun p => imp_congr_left hsorted.mem_iff

/-- The printed call has line feeds of its own, whatever the line ends of the source are. So behind
a lambda of several lines the line ends are mixed. -/
theorem not_migrate_crlf :
    ¬ ∀ source out : String, '\r' ∉ source.toList → migrate source = .ok out →
      migrate (crlf source) = .ok (crlf out) := by
  intro h
  have hcrlf := h "xhr :get, a, -> do\n1\nend\n" "get a, params: -> do\n  1\nend, xhr: true\n"
    (by decide +kernel) (by decide +kernel)
  have hmixed : migrate (crlf "xhr :get, a, -> do\n1\nend\n") =
      .ok "get a, params: -> do\n  1\nend, xhr: true\r\n" := by
    decide +kernel
  rw [hmixed] at hcrlf
  exact absurd hcrlf (by decide +kernel)

end XhrKeywords
