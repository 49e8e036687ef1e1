import ShellWord.Arith.Paren

/-!
# Substitutions in arithmetic text

Before an arithmetic text is evaluated, every `$((expression))` and `$(command)` in it is replaced by
its result.  `Span.pieces` takes the text apart into plain characters and spans; a reading as
arithmetic is tried before a reading as a command.  An opening that is never closed ends the
decomposition, and everything from there on is plain.

## Main definitions

* `Span`: a substitution, with its body
* `Span.Piece`: a plain character or a span
* `Span.pieces`: the decomposition of a text
* `Span.replace`: replace the spans from left to right
-/

namespace ShellWord

/-- A substitution in arithmetic text. -/
inductive Span where
  /-- `$((body))` -/
  | arithmetic (body : Text)
  /-- `$(body)` -/
  | command (body : Text)
  deriving DecidableEq, Repr

namespace Span

/-- The text of a span, as it was written. -/
def source : Span → Text
  | .arithmetic body => '$' :: '(' :: '(' :: (body ++ [')', ')'])
  | .command body => '$' :: '(' :: (body ++ [')'])

/-- A piece of arithmetic text. -/
inductive Piece where
  | char (c : Char)
  | span (s : Span)
  deriving DecidableEq, Repr

/-- The text of a piece. -/
def Piece.source : Piece → Text
  | .char c => [c]
  | .span s => s.source

/-- The span that a text begins with, given what follows the dollar sign, and what follows the
span. -/
def open? (afterDollar : Text) : Option (Span × Text) :=
  match Paren.closePair? afterDollar with
  | some (body, rest) => some (.arithmetic body, rest)
  | none =>
    match Paren.close? afterDollar with
    | some (body, rest) => some (.command body, rest)
    | none => none

/-- What follows a span is shorter than what follows its dollar sign. -/
theorem length_open?_lt {t rest : Text} {span : Span} (h : open? t = some (span, rest)) :
    rest.length < t.length := by
  unfold open? at h
  split at h
  · next found =>
    simp only [Option.some.injEq, Prod.mk.injEq] at h
    exact h.2 ▸ Paren.length_closePair?_lt found
  · split at h
    · next found =>
      simp only [Option.some.injEq, Prod.mk.injEq] at h
      exact h.2 ▸ Paren.length_close?_lt found
    · simp at h

/-- Take a text apart into plain characters and spans. -/
def pieces : Text → List Piece
  | [] => []
  | c :: t =>
    if c == '$' && t.head? == some '(' then
      match found : open? t with
      | some (span, rest) =>
        have := length_open?_lt found
        .span span :: pieces rest
      | none => .char c :: t.map .char
    else
      .char c :: pieces t
termination_by t => t.length
decreasing_by
  · exact Nat.lt_succ_of_lt this
  · exact Nat.lt_succ_self _

/-- Put the pieces together again, with `onSpan` called on the spans from left to right. -/
def assemble {m : Type → Type} [Monad m] (onSpan : Span → m Text) : List Piece → m Text
  | [] => pure []
  | .char c :: pieces => do
    let rest ← assemble onSpan pieces
    return c :: rest
  | .span s :: pieces => do
    let result ← onSpan s
    let rest ← assemble onSpan pieces
    return result ++ rest

/-- Replace the spans of a text from left to right by what `onSpan` makes of them. -/
def replace {m : Type → Type} [Monad m] (onSpan : Span → m Text) (t : Text) : m Text :=
  assemble onSpan (pieces t)

end Span

end ShellWord
