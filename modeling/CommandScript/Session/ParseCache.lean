import CommandScript.Code.Blocks
import CommandScript.Failure

/-! Scripts that were read before. What a script is read as depends on its text and name only, so the most recent
ones are kept, up to a number that is fixed for the session. -/

namespace CommandScript.Session

open Text Syntax Code

/-- A script by its name and what it was handed over as. -/
structure ScriptKey where
  file : Option String
  source : Source
  deriving DecidableEq

/-- The programs of a script. Each reading has a stamp of its own, so that a script kept from before can be told from
one read again. -/
structure Script where
  stamp : Nat
  programs : List Program

/-- Scripts by their keys, the one used last at the end, and the stamp of the next reading. -/
structure ParseCache where
  entries : List (ScriptKey × Script) := []
  nextStamp : Nat := 0

/-- Reads a script: its bytes, its invocations and its function blocks must all be in order. -/
def readScript (key : ScriptKey) : Except Failure (List Program) :=
  match key.source.normalize? with
  | none => .error { cause := .undecodable }
  | some text =>
    match programsOfText text key.file with
    | .error fault => .error { cause := .fault fault }
    | .ok programs =>
      match checkBlocks programs with
      | .error fault => .error { cause := .fault fault }
      | .ok () => .ok programs

namespace ParseCache

def find? (c : ParseCache) (key : ScriptKey) : Option Script :=
  (c.entries.find? fun (k, _) => k = key).map Prod.snd

/-- The entries with this one as the most recent, at most `capacity` of them. -/
def use (entries : List (ScriptKey × Script)) (capacity : Nat) (key : ScriptKey) (script : Script) :
    List (ScriptKey × Script) :=
  let entries := entries.filter (fun (k, _) => k ≠ key) ++ [(key, script)]
  entries.drop (entries.length - capacity)

/-- The script of a key, read if it is not kept. A script that cannot be read leaves the cache as it is. -/
def read (c : ParseCache) (capacity : Nat) (key : ScriptKey) : Except Failure Script × ParseCache :=
  match c.find? key with
  | some script => (.ok script, { c with entries := use c.entries capacity key script })
  | none =>
    match readScript key with
    | .error failure => (.error failure, c)
    | .ok programs =>
      let script : Script := ⟨c.nextStamp, programs⟩
      (.ok script, ⟨use c.entries capacity key script, c.nextStamp + 1⟩)

end ParseCache

end CommandScript.Session
