import Mathlib.Logic.Function.Basic
import Mathlib.Tactic

/-!
# The block pool of the compressor

The blocks of a parse are kept in a pool, linked to the blocks they follow and counted by
the pointers to them.  A block whose count reaches zero is put on a list of ghosts, from
which `zx0_allocate` takes before it turns to new memory; its own pointer is given up only
when it is taken.  New memory is handed out in order of its addresses.
-/

namespace LnxCad.Zx0

/-- The address of a block. -/
abbrev Addr := ℕ

/-- What a block says about the parse that ends with it: its cost in bits, the position of
its last byte, and the offset of a match, which is zero for literals. -/
structure Block where
  bits : ℤ
  index : ℤ
  offset : ℕ
deriving DecidableEq

/-- `BLOCK`. -/
structure Cell where
  chain : Option Addr
  ghostChain : Option Addr
  block : Block
  references : ℤ

/-- The pool; the addresses from `unused` on have not been handed out. -/
structure Pool where
  cells : Addr → Cell
  ghostRoot : Option Addr
  unused : Addr

/-- The pool when the program starts. -/
def Pool.init : Pool := ⟨fun _ => ⟨none, none, ⟨0, 0, 0⟩, 0⟩, none, 0⟩

/-- A change of one block. -/
def Pool.modify (p : Pool) (a : Addr) (f : Cell → Cell) : Pool :=
  { p with cells := Function.update p.cells a (f (p.cells a)) }

/-- One more pointer to a block. -/
def Pool.retain (p : Pool) (a : Addr) : Pool :=
  p.modify a (fun c => { c with references := c.references + 1 })

/-- One pointer to a block less; the block becomes a ghost with the last one. -/
def Pool.release (p : Pool) (a : Addr) : Pool :=
  let p := p.modify a (fun c => { c with references := c.references - 1 })
  if (p.cells a).references = 0 then
    let p' := p.modify a (fun c => { c with ghostChain := p.ghostRoot })
    { p' with ghostRoot := some a }
  else p

/-- The first part of `zx0_allocate`: the address of the block, a ghost if there is one. -/
def Pool.take (p : Pool) : Pool × Addr :=
  match p.ghostRoot with
  | some ptr =>
      let p := { p with ghostRoot := (p.cells ptr).ghostChain }
      match (p.cells ptr).chain with
      | some c => (p.release c, ptr)
      | none => (p, ptr)
  | none => ({ p with unused := p.unused + 1 }, p.unused)

/-- `zx0_allocate`. -/
def zx0Allocate (p : Pool) (b : Block) (chain : Option Addr) : Pool × Addr :=
  let (p, ptr) := p.take
  let p :=
    match chain with
    | some c => p.retain c
    | none => p
  (p.modify ptr (fun c => { c with block := b, chain := chain, references := 0 }), ptr)

/-- `zx0_assign`, on a pointer with the value `old`, which then has the value `chain`. -/
def zx0Assign (p : Pool) (old : Option Addr) (chain : Addr) : Pool :=
  if old = some chain then p
  else
    let p := p.retain chain
    match old with
    | some o => p.release o
    | none => p

end LnxCad.Zx0
