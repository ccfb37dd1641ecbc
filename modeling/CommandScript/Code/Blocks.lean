import CommandScript.Code.Program
import CommandScript.Text.LowerCase

/-! Function blocks: from an invocation of `function` to the `endfunction` that matches it. An `endfunction` that
matches none is left to be refused when it is evaluated. -/

namespace CommandScript.Code

open Text Syntax

namespace Program

def opensFunction (p : Program) : Bool := lowerCase p.name = "function"

def closesFunction (p : Program) : Bool := lowerCase p.name = "endfunction"

/-- The fault of a block that begins with this program and never ends. Without a place it is not even reported. -/
def unclosedFunction (p : Program) : Fault :=
  match p.location with
  | some place => ⟨.unclosedFunction p.name, place⟩
  | none => ⟨.unplacedFunction, ⟨0, 0, none⟩⟩

end Program

/-- The programs up to the end of a block that stands `depth` blocks deep inside another, and those behind it. -/
def splitBlock (depth : Nat) : List Program → Option (List Program × List Program)
  | [] => none
  | p :: ps =>
    let into := fun depth => (splitBlock depth ps).map fun (body, rest) => (p :: body, rest)
    if p.opensFunction then into (depth + 1)
    else if p.closesFunction then
      match depth with
      | 0 => some ([], ps)
      | depth + 1 => into depth
    else into depth

theorem length_of_splitBlock {depth : Nat} {ps body rest : List Program}
    (h : splitBlock depth ps = some (body, rest)) : rest.length < ps.length := by
  induction ps generalizing depth body rest with
  | nil => simp [splitBlock] at h
  | cons p ps ih =>
    have key : ∀ d, (splitBlock d ps).map (fun (body, rest) => (p :: body, rest)) = some (body, rest) →
        rest.length < (p :: ps).length := by
      intro d hd
      obtain ⟨⟨b, r⟩, hs, heq⟩ := Option.map_eq_some_iff.1 hd
      simp only [Prod.mk.injEq] at heq
      have := ih hs
      rw [← heq.2, List.length_cons]; omega
    simp only [splitBlock] at h
    split at h
    · exact key _ h
    · split at h
      · split at h
        · simp only [Option.some.injEq, Prod.mk.injEq] at h
          simp [← h.2]
        · exact key _ h
      · exact key _ h

/-- Finds the first block that never ends. -/
def checkBlocks (ps : List Program) : Except Fault Unit :=
  match ps with
  | [] => .ok ()
  | p :: ps =>
    if p.opensFunction then
      match _h : splitBlock 0 ps with
      | some (_, rest) => checkBlocks rest
      | none => .error p.unclosedFunction
    else checkBlocks ps
termination_by ps.length
decreasing_by
  · have := length_of_splitBlock _h
    simp; omega
  · simp

end CommandScript.Code
