import BodyContract.Automaton.Subsets
import BodyContract.Pattern.Parser
import BodyContract.Sampling.Source
/-!
Texts of a pattern, made by a random walk over its automaton.

A walk chooses among the transitions of a state and, where a text may end, the option to stop. It
ends there, or when as many characters are written as the limit allows: a text that is shorter than
the limit is accepted, and one of full length is the beginning of an accepted text.

The walk is written over any way of drawing (`Draws`), so that it can be run with a source of random
words and be reasoned about with every draw possible.
-/

namespace BodyContract

/-- How a walk draws: a number from zero to a bound, the bound included, and a character of an
interval. -/
structure Draws (m : Type → Type) where
  upTo : Nat → m Nat
  member : Interval → m Char

namespace Draws

/-- Draws from a source of random words, which is the state. -/
def fromSource : Draws (StateM RandomSource) where
  upTo bound := fun source => source.drawBetween 0 bound
  member interval := fun source => source.drawChar interval

end Draws

namespace Automaton

/-- The walk from a state on, for at most `limit` characters. At an accepting state the option zero
means to stop, and the transitions follow it. -/
def walk {m : Type → Type} [Monad m] (draws : Draws m) (automaton : Automaton) :
    (limit : Nat) → (current : Nat) → m (List Char)
  | 0, _ => pure []
  | limit + 1, current =>
      match automaton.states[current]? with
      | none => pure []
      | some state =>
          if state.transitions.isEmpty then
            pure []
          else do
            let stop := if state.isAccepting then 1 else 0
            let option ← draws.upTo (state.transitions.length - 1 + stop)
            if option < stop then
              pure []
            else
              match state.transitions[option - stop]? with
              | none => pure []
              | some step => do
                  let c ← draws.member step.label
                  let rest ← walk draws automaton limit step.dest
                  pure (c :: rest)

end Automaton

/-- A maker of texts: an automaton, a source of random words and the largest number of characters of
a text. -/
structure Sampler where
  automaton : Automaton
  source : RandomSource
  limit : Nat

namespace Sampler

/-- The largest number of characters of a text where nothing else is asked for. -/
def defaultLimit : Nat := 200

/-- A maker of texts of an expression, in which shorthands are written out first. -/
def ofExpression (expression : String) (source : RandomSource) : Except PatternError Sampler := do
  let pattern ← Pattern.parse (Pattern.expandShorthands expression)
  let automaton ← Automaton.ofPattern pattern
  .ok ⟨automaton, source, defaultLimit⟩

/-- The same maker with another limit. -/
def withLimit (sampler : Sampler) (limit : Nat) : Sampler := { sampler with limit }

/-- The same maker with another source. -/
def withSource (sampler : Sampler) (source : RandomSource) : Sampler := { sampler with source }

/-- Makes one text. -/
def sample (sampler : Sampler) : String × Sampler :=
  let (text, source) :=
    sampler.automaton.walk .fromSource sampler.limit Automaton.initial sampler.source
  (String.ofList text, sampler.withSource source)

/-- Makes several texts, one after another. -/
def sampleMany (sampler : Sampler) : (count : Nat) → List String × Sampler
  | 0 => ([], sampler)
  | count + 1 =>
      let (text, sampler) := sampler.sample
      let (others, sampler) := sampleMany sampler count
      (text :: others, sampler)

end Sampler

end BodyContract
