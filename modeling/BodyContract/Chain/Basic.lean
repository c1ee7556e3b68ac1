import BodyContract.Recording.Recorder
/-!
Chains of assertion calls that together check a body.

Chains are told apart by the text of their calls: a chain that reads like one that is there already
is not added. A body satisfies chains if every one of them can be replayed on it.
-/

namespace BodyContract

/-- Chains of calls in the order in which they were added, no two with the same text. -/
structure Chains where
  toList : List Recorder
  distinct : (toList.map Recorder.method).Nodup

namespace Chains

/-- No chains. -/
def empty : Chains := ⟨[], List.nodup_nil⟩

instance : Inhabited Chains := ⟨empty⟩

/-- The texts of the chains. -/
def methods (chains : Chains) : List String := chains.toList.map Recorder.method

/-- Adds a chain, unless one with its text is there. -/
def add (chains : Chains) (chain : Recorder) : Chains :=
  if repeated : chain.method ∈ chains.toList.map Recorder.method then
    chains
  else
    ⟨chains.toList ++ [chain], by
      rw [List.map_append, List.nodup_append]
      refine ⟨chains.distinct, by simp, ?_⟩
      intro text isOld other isNew same
      rw [List.map_singleton, List.mem_singleton] at isNew
      exact repeated (isNew ▸ same ▸ isOld)⟩

/-- The chains of a list, of those with the same text the first. -/
def ofList (chains : List Recorder) : Chains := chains.foldl add empty

/-- Replays chains on a body, up to the first that does not hold. -/
def verifyAll (body : Json) : List Recorder → Except AssertionError Unit
  | [] => .ok ()
  | chain :: rest => do
      let _ ← chain.replay (.ofDocument body)
      verifyAll body rest

/-- Checks a body by all chains. The error is that of the first chain that does not hold. -/
def verify (chains : Chains) (body : Json) : Except AssertionError Unit :=
  verifyAll body chains.toList

end Chains

end BodyContract
