import XhrKeywords.Proofs.Grammar.Progress.Parse
import XhrKeywords.Proofs.Token.Position

/-!
# Where errors are noticed

A production fails at the next token or at one that it has taken. So an error of a source that can
be split into tokens is noticed at one of its tokens, and what the report calls line and column is
the position at which that token starts.
-/

namespace XhrKeywords

open Token (tokenize)

/-- Where the tokens of a source are known, an error is one of the grammar at one of them. -/
theorem error_at_token {source : String} {tokens : List Token} {e : ReadError}
    (h : tokenize source = .ok tokens) (herror : parse source = .error e) :
    ∃ cause, ∃ t ∈ tokens, e = .grammar ⟨cause, t⟩ := by
  rw [parse, h] at herror
  obtain ⟨found, hparse, rfl⟩ := mapError_eq_error_iff.mp herror
  exact ⟨found.cause, found.token, (Grammar.genuineAt_of_parseTokens h hparse).2, rfl⟩

/-- Lines and columns of tokens agree with their offsets, and the report of an error gives the
position at which one of the tokens starts. -/
theorem positions_agree {source : String} {tokens : List Token}
    (h : tokenize source = .ok tokens) :
    (∀ t ∈ tokens, t.Located source.toList) ∧
      ∀ e, parse source = .error e → ∃ cause, ∃ t ∈ tokens, e = .grammar ⟨cause, t⟩ ∧
        let place := Position.behind (source.toList.take t.start)
        e.message = cause.message ++ s!" at line {place.line}, col {place.column}" := by
  have hlocated := Token.located_of_tokenize h
  refine ⟨hlocated, ?_⟩
  intro e herror
  obtain ⟨cause, t, ht, rfl⟩ := error_at_token h herror
  refine ⟨cause, t, ht, rfl, ?_⟩
  rw [← (hlocated t ht).start]
  rfl

/-- A string of two lines, and behind a carriage return and a heredoc a bracket that closes
nothing. -/
theorem positions_agree_unopened :
    ∃ tokens, tokenize "a \x22b\nc\x22, <<X\r\n  d\nX\n  )" = .ok tokens ∧
      (∀ t ∈ tokens, t.Located "a \x22b\nc\x22, <<X\r\n  d\nX\n  )".toList) ∧
      ∃ e, parse "a \x22b\nc\x22, <<X\r\n  d\nX\n  )" = .error e ∧
        e.message = "Unexpected RPAR at line 5, col 3" := by
  have htokens : (tokenize "a \x22b\nc\x22, <<X\r\n  d\nX\n  )").toOption.isSome = true := by
    decide +kernel
  obtain ⟨tokens, htokens⟩ := Option.isSome_iff_exists.mp htokens
  have htokenize := eq_ok_of_toOption htokens
  have hreport : (match parse "a \x22b\nc\x22, <<X\r\n  d\nX\n  )" with
      | .ok _ => none
      | .error e => some e.message) = some "Unexpected RPAR at line 5, col 3" := by
    decide +kernel
  refine ⟨tokens, htokenize, (positions_agree htokenize).1, ?_⟩
  cases hparse : parse "a \x22b\nc\x22, <<X\r\n  d\nX\n  )" with
  | ok tree =>
    rw [hparse] at hreport
    cases hreport
  | error e =>
    rw [hparse] at hreport
    exact ⟨e, rfl, Option.some.inj hreport⟩

end XhrKeywords
