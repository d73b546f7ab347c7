import XhrKeywords.Proofs.Grammar.Called
import XhrKeywords.Proofs.Migration.Converted
import XhrKeywords.Proofs.Token.Adjacent

/-!
# Parentheses of calls

The conversion looks into the source to find out whether a call has parentheses: it has if an
opening one stands where the name of the call ends. The parser found that out from the tokens, and
both agree on every call whose name has a place. So a call in keyword style inside an expression has
parentheses exactly if the call that it replaces was read with them.
-/

namespace XhrKeywords

open Syntax

namespace Migration

open Grammar

variable {source : List Char} {call : Node}

/-- Where the name of a call ends, if that is known. -/
def nameStop? (call : Node) : Option Nat :=
  match call.children with
  | _ :: .leaf name :: _ => name.place.stop
  | _ => none

/-- Only that place is looked at. -/
theorem hasParens_eq (source : List Char) (call : Node) :
    hasParens source call =
      (nameStop? call).any fun stop => (source.drop stop).head? == some '(' := by
  rw [hasParens, nameStop?]
  rcases call.children with _ | ⟨receiver, _ | ⟨_ | name | _, others⟩⟩ <;> rfl

theorem hasParens_iff {stop : Nat} (h : nameStop? call = some stop) :
    hasParens source call = true ↔ peek (source.drop stop) 0 = '(' := by
  rw [hasParens_eq, h, Option.any_some, beq_iff_eq]
  cases source.drop stop with
  | nil => simp
  | cons c rest => simp

theorem isCall_of_isLegacyCall (h : isLegacyCall call) : call.isCall := by
  rw [Node.isCall, beq_iff_eq.mp (isKind_of_isLegacyCall h)]
  rfl

section Reading

variable {text : String} {tokens : List Token} {s t : State} {name : Leaf} {stop : Nat}

/-- A call that is built behind a name ends its name there. -/
theorem nameStop?_built (hs : s.Behind tokens name) (t : State) (kind : Kind) (receiver : Node)
    (found : List Node) (start : Mark) :
    nameStop? (built t kind (receiver :: .leaf name :: found) start) = some s.previous.stop :=
  congrArg Place.stop hs.place

/-- Behind a name there is a parenthesis in the source if it is the next token and touches the
name. -/
theorem hasParens_built_iff (hlex : Token.tokenize text = .ok tokens) (hs : s.Behind tokens name)
    (t : State) (kind : Kind) (receiver : Node) (found : List Node) (start : Mark) :
    hasParens text.toList (built t kind (receiver :: .leaf name :: found) start) = true ↔
      s.opens = true := by
  obtain ⟨before, hsplit⟩ := hs.split
  have hne : s.previous.kind ≠ .newline := by
    intro hnewline
    have hnames := hs.names
    rw [hnewline] at hnames
    cases hnames
  rw [hasParens_iff (nameStop?_built hs t kind receiver found start),
    Token.peek_stop_iff hlex hsplit hne]
  simp [State.opens]

/-- A call that was read in parentheses has one behind its name. -/
theorem hasParens_of_readInParens (hlex : Token.tokenize text = .ok tokens)
    (h : ReadInParens tokens call) : hasParens text.toList call = true := by
  cases h with
  | intro kind receiver start hs hopens =>
    exact (hasParens_built_iff hlex hs _ kind receiver _ start).mpr hopens

/-- A call that was read without parentheses has none behind its name. -/
theorem hasParens_of_readBare (hlex : Token.tokenize text = .ok tokens)
    (h : ReadBare tokens call) : hasParens text.toList call = false := by
  rw [← Bool.not_eq_true]
  cases h with
  | command kind receiver start hs hopens =>
    rw [hasParens_built_iff hlex hs, hopens]
    exact Bool.false_ne_true
  | alone kind receiver start hs hopens =>
    rw [hasParens_built_iff hlex hs, hopens]
    exact Bool.false_ne_true
  | @label l hmem hkind =>
    -- The name ends in front of the colon of the label.
    have hcolon := Token.colon_of_label hlex hmem hkind
    have hname : nameStop? (labelCall l) = some (l.stop - 1) := rfl
    rw [hasParens_iff hname, hcolon]
    decide

/-- Of a call whose name has a place, the source shows how it was read. -/
theorem hasParens_iff_readInParens (hlex : Token.tokenize text = .ok tokens)
    (h : CallRead tokens call) (hname : nameStop? call = some stop) :
    hasParens text.toList call = true ↔ ReadInParens tokens call := by
  refine ⟨fun hparens => ?_, hasParens_of_readInParens hlex⟩
  cases h with
  | inParens hread => exact hread
  | bare hread =>
    rw [hasParens_of_readBare hlex hread] at hparens
    cases hparens
  | implied hread =>
    obtain ⟨kind, span, receiver, found, rfl⟩ := hread
    cases hname

/-- Only a name that is not in the source has no place, and it is not that of the legacy method. -/
theorem exists_nameStop? (h : CallRead tokens call) (hlegacy : isLegacyCall call) :
    ∃ stop, nameStop? call = some stop := by
  cases h with
  | inParens hread =>
    cases hread with
    | intro kind receiver start hs => exact ⟨_, nameStop?_built hs _ kind receiver _ start⟩
  | bare hread =>
    cases hread with
    | command kind receiver start hs => exact ⟨_, nameStop?_built hs _ kind receiver _ start⟩
    | alone kind receiver start hs => exact ⟨_, nameStop?_built hs _ kind receiver _ start⟩
    | label => exact ⟨_, rfl⟩
  | implied hread =>
    obtain ⟨kind, span, receiver, found, rfl⟩ := hread
    obtain ⟨-, name, hname, htext⟩ := isLegacyCall_iff.mp hlegacy
    cases hname
    exact absurd htext (by decide)

end Reading

/-- The text is a call of the verb with the arguments of the replacement of a legacy call, either
in parentheses or behind a space. -/
def IsRequest (call : Node) (inParens : Bool) (text : String) : Prop :=
  ∃ verb listed texts, verb? call = some verb ∧ arguments call = .ok listed ∧
    Printer.printArguments 0 ((replacement call listed).children.drop 2) = .ok texts ∧
    text = if inParens then verb ++ "(" ++ Printer.joined ", " texts ++ ")"
      else verb ++ " " ++ Printer.joined ", " texts

/-- A request has its arguments in parentheses or not. -/
theorem IsRequest.iff_eq {inParens other : Bool} {text : String}
    (h : IsRequest call inParens text) : IsRequest call other text ↔ other = inParens := by
  refine ⟨fun hother => ?_, fun heq => heq ▸ h⟩
  obtain ⟨verb, listed, texts, hverb, -, -, htext⟩ := h
  obtain ⟨verb', listed', texts', hverb', -, -, htext'⟩ := hother
  obtain rfl : verb = verb' := Option.some.inj (hverb.symm.trans hverb')
  -- Behind the verb, the texts differ in the first character.
  have hchars := congrArg String.toList (htext.symm.trans htext')
  cases inParens <;> cases other
  case false.false | true.true => rfl
  all_goals simp at hchars

/-- A call without a receiver prints its name and its arguments. -/
theorem print_call_eq_ok {span : Option Span} {name : Leaf} {nodes : List Node} {command : Bool}
    {text : String} (hne : nodes ≠ [])
    (h : (Node.tree .call span (.absent :: .leaf name :: nodes)).print command = .ok text) :
    ∃ texts, Printer.printArguments 0 nodes = .ok texts ∧
      text = if command then name.text ++ " " ++ Printer.joined ", " texts
        else name.text ++ "(" ++ Printer.joined ", " texts ++ ")" := by
  have hcall : Printer.printCall "." (!command) 0 (.absent :: .leaf name :: nodes) = .ok text := by
    cases command with
    | true => exact h
    | false =>
      change Printer.print 0 _ = _ at h
      rwa [Printer.print] at h
  have hassigned : Printer.assignedName? .absent name.text nodes = none := rfl
  have hobject : Printer.print 0 .absent = .ok "" := by rw [Printer.print]
  rw [Printer.printCall, hobject] at hcall
  simp only [bind, Except.bind, hassigned, Node.isAbsent, if_true, List.isEmpty_iff, hne, if_false,
    pure, Except.pure] at hcall
  cases htexts : Printer.printArguments 0 nodes with
  | error e => simp [htexts] at hcall
  | ok texts =>
    refine ⟨texts, rfl, ?_⟩
    rw [htexts] at hcall
    cases command <;> exact (Except.ok.inj hcall).symm

/-- What a call is replaced by is a request, with parentheses unless it is in command style. -/
theorem isRequest_of_print {listed : List Node} {command : Bool} {text : String}
    (hlisted : arguments call = .ok listed)
    (hprint : (replacement call listed).print command = .ok text) :
    IsRequest call (!command) text := by
  obtain ⟨receiver, name, verb, path, others, verbName, hchildren, hsymbol, hverb, -⟩ :=
    exists_parts_of_objection?_eq_none (exists_arguments_eq_ok_iff.mp ⟨listed, hlisted⟩)
  have hreplacement : replacement call listed =
      replacementFor verbName path listed (passedBlock? call) := by
    rw [replacement, verbAndPath?, hchildren]
    dsimp only
    rw [hsymbol]
    rfl
  rw [hreplacement] at hprint
  obtain ⟨texts, htexts, htext⟩ := print_call_eq_ok (List.cons_ne_nil _ _) hprint
  refine ⟨verbName, listed, texts, hverb, hlisted, by rw [hreplacement]; exact htexts, ?_⟩
  rw [htext]
  cases command <;> rfl

/-- What replaces a call inside an expression has parentheses if the source has one behind the name
of the call. -/
theorem isRequest_of_replaces {site : Option Node × Node} {p : Patch}
    (h : Replaces source site p) (hinside : Node.holdsStatements site.1 = false) :
    IsRequest site.2 (hasParens source site.2) p.text := by
  obtain ⟨-, listed, hlisted, hprint⟩ := h
  rw [hinside, Bool.false_or] at hprint
  have hrequest := isRequest_of_print hlisted hprint
  rwa [Bool.not_not] at hrequest

/-- The same for a legacy call of a tree that is no statement. -/
theorem isRequest_of_convert {tree : Node} {found : Occurrence} {conversion : Conversion}
    (hfound : found ∈ occurrences tree) (hinside : found.isStatement = false)
    (h : convert source found = .ok conversion) :
    IsRequest found.call (hasParens source found.call) conversion.patch.text := by
  rw [occurrences_eq, List.mem_map] at hfound
  obtain ⟨site, -, rfl⟩ := hfound
  exact isRequest_of_replaces (replaces_of_convert h) hinside

end Migration

open Migration Grammar

/-- A call whose name has a place was read with a list of arguments in parentheses exactly if the
source has an opening parenthesis where the name ends. So what replaces a legacy call that is no
statement has parentheses exactly if the call was read with them. -/
theorem hasParens_iff_of_parse {source : String} {tree : Node} (h : parse source = .ok tree) :
    ∃ tokens, Token.tokenize source = .ok tokens ∧
      (∀ c ∈ tree.subtrees, c.isCall → (nameStop? c).isSome →
        (hasParens source.toList c = true ↔ ReadInParens tokens c)) ∧
      ∀ found ∈ occurrences tree, found.isStatement = false →
        ∀ conversion, convert source.toList found = .ok conversion →
          (IsRequest found.call true conversion.patch.text ↔ ReadInParens tokens found.call) ∧
          (IsRequest found.call false conversion.patch.text ↔
            ¬ ReadInParens tokens found.call) := by
  obtain ⟨tokens, hlex, -⟩ := bind_eq_ok_iff.mp h
  rw [mapError_eq_ok_iff] at hlex
  have hreads := callsRead_of_parse hlex h
  refine ⟨tokens, hlex, fun c hc hcall hname => ?_,
    fun found hfound hinside conversion hconvert => ?_⟩
  · obtain ⟨stop, hstop⟩ := Option.isSome_iff_exists.mp hname
    exact hasParens_iff_readInParens hlex (hreads c hc hcall) hstop
  · obtain ⟨hmem, hlegacy⟩ := List.mem_filter.mp (call_mem_of_mem_occurrences hfound)
    have hread := hreads found.call hmem (isCall_of_isLegacyCall hlegacy)
    obtain ⟨stop, hstop⟩ := exists_nameStop? hread hlegacy
    have hrequest := isRequest_of_convert hfound hinside hconvert
    rw [hrequest.iff_eq, hrequest.iff_eq, ← hasParens_iff_readInParens hlex hread hstop,
      Bool.not_eq_true]
    exact ⟨eq_comm, eq_comm⟩

/-- One of two arguments has parentheses. -/
theorem hasParens_iff_of_parse_arguments :
    ∃ tree tokens, parse "f xhr(:get, a), xhr :get, b" = .ok tree ∧
      Token.tokenize "f xhr(:get, a), xhr :get, b" = .ok tokens ∧
      ∀ inParens : Bool, ∃ found ∈ occurrences tree,
        (ReadInParens tokens found.call ↔ inParens = true) ∧
        ∃ conversion, convert "f xhr(:get, a), xhr :get, b".toList found = .ok conversion ∧
          IsRequest found.call inParens conversion.patch.text := by
  have hread : (parse "f xhr(:get, a), xhr :get, b").toOption.any (fun tree =>
      [true, false].all fun inParens => (occurrences tree).any fun found =>
        (found.isStatement == false) && (nameStop? found.call).isSome &&
        (hasParens "f xhr(:get, a), xhr :get, b".toList found.call == inParens) &&
        (convert "f xhr(:get, a), xhr :get, b".toList found).toOption.isSome) = true := by
    decide +kernel
  obtain ⟨tree, htree, hcalls⟩ := (Option.any_eq_true _ _).mp hread
  have hparse := eq_ok_of_toOption htree
  obtain ⟨tokens, hlex, hparens, hrequest⟩ := hasParens_iff_of_parse hparse
  refine ⟨tree, tokens, hparse, hlex, fun inParens => ?_⟩
  have hsome := List.all_eq_true.mp hcalls inParens (by cases inParens <;> decide)
  simp only [List.any_eq_true, Bool.and_eq_true, beq_iff_eq] at hsome
  obtain ⟨found, hfound, ⟨⟨hinside, hname⟩, hlook⟩, hconvert⟩ := hsome
  obtain ⟨conversion, hconvert⟩ := Option.isSome_iff_exists.mp hconvert
  obtain ⟨hmem, hlegacy⟩ := List.mem_filter.mp (call_mem_of_mem_occurrences hfound)
  have hiff := (hparens found.call hmem (isCall_of_isLegacyCall hlegacy) hname).symm
  rw [hlook] at hiff
  obtain ⟨hwith, hwithout⟩ :=
    hrequest found hfound hinside conversion (eq_ok_of_toOption hconvert)
  refine ⟨found, hfound, hiff, conversion, eq_ok_of_toOption hconvert, ?_⟩
  cases inParens with
  | true => exact hwith.mpr (hiff.mpr rfl)
  | false => exact hwithout.mpr fun hread => Bool.false_ne_true (hiff.mp hread)

end XhrKeywords
