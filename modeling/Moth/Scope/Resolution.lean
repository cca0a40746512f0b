import Moth.Tree.Basic
/-!
# Resolutions

A resolution says how many scopes outward the variable of a reference lives.  A
reference is known by its token, and a token by its unit and offset.  References to
globals are not in it.
-/

namespace Moth

inductive ReferenceSort where
  | read | assign | this | super
deriving DecidableEq, Repr

/-- A reference and the number of scopes between it and its variable. -/
structure Link where
  sort : ReferenceSort
  token : Token
  hops : Nat
deriving DecidableEq

structure Resolution where
  links : List Link

namespace Resolution

def empty : Resolution := ⟨[]⟩

def hops? (resolution : Resolution) (token : Token) : Option Nat :=
  (resolution.links.find? fun link =>
    link.token.offset = token.offset && link.token.unit = token.unit).map (·.hops)

def merge (older newer : Resolution) : Resolution := ⟨newer.links ++ older.links⟩

end Resolution

end Moth
