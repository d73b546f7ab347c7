import XhrKeywords.Proofs.Grammar.Running
import XhrKeywords.Proofs.Token.Readable

/-!
# Entries of a list

The elements of an array, the arguments of a call and the pairs of a hash are written one after the
other with commas between them. What is known of each entry, namely how it prints, that
its words are legible and how they are read back, is known of the whole list.
-/

namespace XhrKeywords

open Token (Kind)
open Word

/-- The words of an expression: its first one, which may be spaced or not, and the others. -/
structure Wording where
  kind : Kind
  text : String
  tail : List Word

/-- A mark as a word. -/
def mark (kind : Kind) (c : Char) (spaced : Bool) : Word := ⟨kind, .ofList [c], spaced⟩

/-- The comma between two entries. -/
def comma : Word := mark .comma ',' false

namespace Wording

/-- All words, the first one spaced or not. -/
def words (w : Wording) (spaced : Bool) : List Word := ⟨w.kind, w.text, spaced⟩ :: w.tail

/-- The number of words. -/
def length (w : Wording) : Nat := w.tail.length + 1

@[simp] theorem length_words (w : Wording) (spaced : Bool) :
    (w.words spaced).length = w.length := rfl

/-- Several expressions with commas between them. -/
def listed (first : Wording) (others : List Wording) : Wording :=
  { first with tail := first.tail ++ others.flatMap fun w => comma :: w.words true }

theorem listed_nil (first : Wording) : listed first [] = first := by
  rw [listed, List.flatMap_nil, List.append_nil]

theorem words_listed_cons (first second : Wording) (others : List Wording) (spaced : Bool) :
    (listed first (second :: others)).words spaced =
      first.words spaced ++ comma :: (listed second others).words true := by
  simp [listed, words]

/-- Words that are spaced differ in the space alone. -/
theorem written_words_true (w : Wording) :
    writtenAll (w.words true) = ' ' :: writtenAll (w.words false) := by
  simp only [words, writtenAll_cons, written, if_true, Bool.false_eq_true, if_false,
    List.cons_append]
  rfl

/-- A space in front of the first word makes no word illegible. -/
theorem legible_words {behind : List Char} {w : Wording} (h : Legible behind (w.words false))
    (spaced : Bool) : Legible behind (w.words spaced) :=
  ⟨⟨h.1.solid, h.1.reads⟩, h.2⟩

end Wording

namespace Grammar

open Syntax hiding Kind

/-- Tokens that start an entry: an operand or a label. -/
def startsEntry (kind : Kind) : Bool := startsOperand kind || kind == .label

/-- A value, or a pair without braces, with its words. -/
structure Entry where
  isPair : Bool
  node : Node
  wording : Wording

/-- A node prints as certain words, wherever it comes from. -/
def PrintsAs (n : Node) (w : Wording) : Prop :=
  ∀ m : Node, m.erase = n.erase →
    ∃ text, Printer.print 0 m = .ok text ∧ text.toList = writtenAll (w.words false)

/-- The words of a node are legible in front of everything that may follow it. -/
def IsLegible (w : Wording) : Prop :=
  ∀ behind, Stops behind → Legible behind (w.words false)

namespace Entry

/-- An entry that prints and whose words are legible. -/
structure Printed (e : Entry) : Prop where
  starts : startsEntry e.wording.kind = true
  prints : PrintsAs e.node e.wording
  legible : IsLegible e.wording

/-- The words of several entries. -/
def together (first : Entry) (others : List Entry) : Wording :=
  .listed first.wording (others.map wording)

@[simp] theorem together_nil (first : Entry) : first.together [] = first.wording :=
  Wording.listed_nil _

theorem words_together_cons (first second : Entry) (others : List Entry) (spaced : Bool) :
    (first.together (second :: others)).words spaced =
      first.wording.words spaced ++ comma :: (second.together others).words true :=
  Wording.words_listed_cons ..

end Entry

/-- The words of several entries are legible. -/
theorem legible_listed {first : Entry} {others : List Entry}
    (h : ∀ e ∈ first :: others, e.Printed) : IsLegible (first.together others) := by
  induction others generalizing first with
  | nil =>
    rw [Entry.together_nil]
    exact (h first List.mem_cons_self).legible
  | cons second others ih =>
    intro behind hbehind
    have hfirst := (h first List.mem_cons_self).legible
    have hothers := ih (fun e he => h e (List.mem_cons_of_mem _ he)) behind hbehind
    rw [Entry.words_together_cons]
    refine Legible.append (hfirst _ ?_) ⟨readable_mark .comma ',' (by decide), nofun, ?_⟩
    · exact stops_cons (by decide)
    · exact Wording.legible_words hothers true

theorem printAll_cons {n : Node} {others : List Node} {text : String} {texts : List String}
    (h : Printer.print 0 n = .ok text) (hothers : Printer.printAll 0 others = .ok texts) :
    Printer.printAll 0 (n :: others) = .ok (text :: texts) := by
  simp [Printer.printAll, h, hothers, bind, Except.bind, pure, Except.pure]

/-- Texts with commas between them: the first one and the others. -/
theorem toList_joined_cons {text : String} {texts : List String} (h : texts ≠ []) :
    (Printer.joined ", " (text :: texts)).toList =
      text.toList ++ ',' :: ' ' :: (Printer.joined ", " texts).toList := by
  rw [Printer.joined, String.intercalate_cons_of_ne_nil h]
  simp [Printer.joined]

/-- Several entries print one after the other with commas between them. -/
theorem prints_listed {first : Entry} {others : List Entry}
    (h : ∀ e ∈ first :: others, e.Printed) {nodes : List Node}
    (hnodes : nodes.map Node.erase = (first :: others).map (·.node.erase)) :
    ∃ texts, Printer.printAll 0 nodes = .ok texts ∧ texts ≠ [] ∧
      (Printer.joined ", " texts).toList = writtenAll ((first.together others).words false) := by
  induction others generalizing first nodes with
  | nil =>
    obtain ⟨n, rest, rfl, hn, hrest⟩ := List.map_eq_cons_iff.mp hnodes
    obtain ⟨text, hprint, htext⟩ := (h first List.mem_cons_self).prints n hn
    rw [List.map_eq_nil_iff.mp hrest]
    refine ⟨[text], printAll_cons hprint rfl, List.cons_ne_nil _ _, ?_⟩
    rw [Printer.joined, String.intercalate_singleton, htext, Entry.together_nil]
  | cons second others ih =>
    obtain ⟨n, rest, rfl, hn, hrest⟩ := List.map_eq_cons_iff.mp hnodes
    obtain ⟨text, hprint, htext⟩ := (h first List.mem_cons_self).prints n hn
    obtain ⟨texts, hothers, hne, htexts⟩ :=
      ih (fun e he => h e (List.mem_cons_of_mem _ he)) hrest
    refine ⟨text :: texts, printAll_cons hprint hothers, List.cons_ne_nil _ _, ?_⟩
    rw [toList_joined_cons hne, htext, htexts, Entry.words_together_cons,
      writtenAll_append, writtenAll_cons, Wording.written_words_true]
    rfl

/-- The last of several elements lies among those behind any of them. -/
theorem getLastD_append_cons {α : Type} (xs : List α) (y : α) (ys : List α) (a : α) :
    (xs ++ y :: ys).getLastD a = ys.getLastD y := by
  simp [List.getLast?_cons]

variable {σ : Type}

theorem getLastD_cons_concat {α : Type} (x : α) (xs : List α) (y a : α) :
    (x :: (xs ++ [y])).getLastD a = y :=
  getLastD_append_cons (x :: xs) y [] a

/-- A round takes up an entry and goes on behind the comma, or ends behind the last entry. The
entries it reads are those up to some number of words. -/
structure RoundReads (round : σ → Parser (Round σ σ)) (push : σ → Entry → Node → σ)
    (closes : Kind → Bool) (e : Entry) : Prop where
  again : ∀ {x : σ} {s : State} (last : Token) {separator next : Token} {tokens : List Token}
    (rest : List Token) {spaced : Bool}, s.scope = [] →
    tokens.map Token.word = e.wording.words spaced → separator.kind = .comma →
    startsEntry next.kind = true → ∃ m, m.erase = e.node.erase ∧
      round x (s.at last (tokens ++ separator :: next :: rest)) =
        .ok (.again (push x e m), s.at separator (next :: rest))
  done : ∀ {x : σ} {s : State} (last : Token) {closer : Token} {tokens : List Token}
    (rest : List Token) {spaced : Bool}, s.scope = [] →
    tokens.map Token.word = e.wording.words spaced → closes closer.kind = true →
    ∃ m, m.erase = e.node.erase ∧
      round x (s.at last (tokens ++ closer :: rest)) =
        .ok (.done (push x e m), s.at (tokens.getLastD last) (closer :: rest))

/-- What is taken up of several entries that have been read as the given nodes. -/
def pushAll (push : σ → Entry → Node → σ) (x : σ) : List Entry → List Node → σ
  | e :: entries, m :: nodes => pushAll push (push x e m) entries nodes
  | _, _ => x

/-- Rounds read a whole list of entries. -/
theorem rounds_listed {round : σ → Parser (Round σ σ)} {push : σ → Entry → Node → σ}
    {closes : Kind → Bool} {first : Entry} {others : List Entry}
    (h : ∀ e ∈ first :: others, RoundReads round push closes e)
    (hstarts : ∀ e ∈ first :: others, startsEntry e.wording.kind = true)
    {limit : Nat} (hlimit : others.length < limit) {s : State} (hscope : s.scope = [])
    (x : σ) (last : Token) {closer : Token} {tokens : List Token} (rest : List Token)
    {spaced : Bool} (htokens : tokens.map Token.word = (first.together others).words spaced)
    (hcloser : closes closer.kind = true) :
    ∃ nodes : List Node, nodes.map Node.erase = (first :: others).map (·.node.erase) ∧
      rounds limit round x (s.at last (tokens ++ closer :: rest)) =
        .ok (pushAll push x (first :: others) nodes,
          s.at (tokens.getLastD last) (closer :: rest)) := by
  obtain ⟨fewer, rfl⟩ : ∃ fewer, limit = fewer + 1 := ⟨limit - 1, by omega⟩
  -- All entries but the last one are followed by a comma and an entry, so the induction is on the
  -- others.
  induction others generalizing first fewer x last tokens spaced with
  | nil =>
    rw [Entry.together_nil] at htokens
    obtain ⟨m, hm, hround⟩ := (h first List.mem_cons_self).done (x := x) last rest hscope htokens
      hcloser
    refine ⟨[m], by rw [List.map_singleton, List.map_singleton, hm], ?_⟩
    rw [rounds, bind_of_eq hround]
    rfl
  | cons second others ih =>
    rw [Entry.words_together_cons] at htokens
    obtain ⟨head, behind, rfl, hhead, hbehind⟩ := List.map_eq_append_iff.mp htokens
    obtain ⟨separator, tail, rfl, hseparator, htail⟩ := List.map_eq_cons_iff.mp hbehind
    obtain ⟨next, tail', rfl, hnext, -⟩ := List.map_eq_cons_iff.mp htail
    have hmem : second ∈ first :: second :: others := by simp
    have hkind : startsEntry next.kind = true := by
      rw [show next.kind = second.wording.kind from congrArg Word.kind hnext]
      exact hstarts second hmem
    obtain ⟨m, hm, hround⟩ := (h first List.mem_cons_self).again (x := x) last
      (tail' ++ closer :: rest) hscope hhead (congrArg Word.kind hseparator) hkind
    obtain ⟨limit, rfl⟩ : ∃ limit, fewer = limit + 1 := by
      rw [List.length_cons] at hlimit
      exact ⟨fewer - 1, by omega⟩
    obtain ⟨nodes, hnodes, hrounds⟩ := ih (fun e he => h e (List.mem_cons_of_mem _ he))
      (fun e he => hstarts e (List.mem_cons_of_mem _ he)) (push x first m) separator htail limit
      (by simpa using hlimit)
    refine ⟨m :: nodes, by rw [List.map_cons, List.map_cons, hm, hnodes], ?_⟩
    rw [getLastD_append_cons, List.append_assoc, List.cons_append, List.cons_append, rounds,
      bind_of_eq hround]
    exact hrounds

end Grammar

end XhrKeywords
