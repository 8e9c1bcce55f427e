import DebugExpr.Code.Lower
import DebugExpr.Proofs.Blocks
import DebugExpr.Proofs.Placement

/-! Method bodies of blocks. A method is assembled just when its block is lawful, there is room for
it, and it leaves on the stack what the method returns. The method then holds the instructions of
the block with a return behind them. -/
namespace DebugExpr.Code
open Metadata Encode

/-- The values that a return takes. -/
def returned (hasValue : Bool) : Nat :=
  if hasValue then 1 else 0

/-- The effects of the instructions of a method. -/
def Block.methodEffects (b : Block) (hasValue : Bool) : List Effect :=
  b.effects ++ [⟨returned hasValue, 0⟩]

/-- The instructions of a method behind as many locals. -/
def Block.methodItems (b : Block) (slots : Nat) : List Item :=
  b.items 0 slots ++ [.plain .ret .none]

/-- A method is what its block says. -/
structure MethodBody.IsOf (m : MethodBody) (locals : List ClosedType) (b : Block) (hasValue : Bool)
    (offset : Nat → Nat) : Prop where
  placed : Placed m.instructions (b.methodItems locals.length) (b.marks 0) offset
  maxStack : m.maxStack = peak 0 (b.methodEffects hasValue)
  locals : m.locals = locals ++ b.temporaries

variable {locals : List ClosedType} {b : Block} {hasValue : Bool} {returnType : Option ClosedType}

theorem ofLocals_open (locals : List ClosedType) : (Encoder.ofLocals locals).Open :=
  ⟨rfl, by simp [Encoder.ofLocals]⟩

theorem assemble_eq (locals : List ClosedType) (b : Block) (hasValue : Bool)
    (returnType : Option ClosedType) :
    assemble locals b hasValue returnType =
      match result (b.encode >>= fun _ => ret hasValue) (.ofLocals locals) with
      | (.ok (), e) => e.finish returnType
      | (.error fault, _) => .error fault :=
  rfl

/-- The block leaves what the method returns, and there is room for it. -/
def Assembles (locals : List ClosedType) (b : Block) (hasValue : Bool) : Prop :=
  b.Lawful ∧ HasRoom 0 locals.length b.effects b.temporaries ∧ b.effect.net = returned hasValue

/-- An encoding that ran to its return can be laid out. -/
theorem encoding_laidOut {e : Encoder}
    (runs : Runs (b.encode >>= fun _ => ret hasValue) (.ofLocals locals) () e)
    (returnType : Option ClosedType) :
    Assembles locals b hasValue ∧ ∃ m offset, e.finish returnType = .ok m ∧
      m.IsOf locals b hasValue offset ∧ m.returnType = returnType := by
  obtain ⟨_, middle, encodes, returns⟩ := runs_bind.mp runs
  obtain ⟨lawful, continues⟩ := Block.encode_sound (ofLocals_open locals) encodes
  obtain ⟨level, rfl⟩ := (ret_runs continues.reachable).mp returns
  have net : b.effects.prod.net = returned hasValue := by
    simpa [level, Encoder.ofLocals, returned, eq_comm] using continues.depth
  have labels : middle.labels.toList = (b.marks 0).map some := by
    simpa [Encoder.ofLocals] using continues.labels
  have items : middle.items.toList = b.items 0 locals.length := by
    simpa [Encoder.ofLocals] using continues.items
  obtain ⟨m, offset, finishes, placed, maxStack, types, returnType, -⟩ :=
    finish_placed (e := { middle.after (.plain .ret .none) ⟨returned hasValue, 0⟩ with
      unreachable := true }) labels returnType
  refine ⟨⟨lawful, continues.room, net⟩, m, offset, finishes, ⟨?_, ?_, ?_⟩, returnType⟩
  · simpa [Encoder.after, items, Block.methodItems] using placed
  · rw [maxStack, Block.methodEffects, peak_append]
    simp [Encoder.after, continues.maxDepth, continues.depth, net, Encoder.ofLocals, peak]
  · simpa [Encoder.after, Encoder.ofLocals, continues.locals] using types

theorem assemble_sound {m : MethodBody} (h : assemble locals b hasValue returnType = .ok m) :
    Assembles locals b hasValue ∧
      ∃ offset, m.IsOf locals b hasValue offset ∧ m.returnType = returnType := by
  rw [assemble_eq] at h
  split at h
  · rename_i e runs
    obtain ⟨assembles, m', offset, finishes, isOf⟩ := encoding_laidOut runs returnType
    obtain rfl : m' = m := by simpa [finishes] using h
    exact ⟨assembles, offset, isOf⟩
  · cases h

theorem assemble_complete (assembles : Assembles locals b hasValue) :
    ∃ m, assemble locals b hasValue returnType = .ok m := by
  obtain ⟨lawful, room, level⟩ := assembles
  obtain ⟨_, middle, encodes⟩ := Block.encode_complete (ofLocals_open locals) lawful
    (by simpa [Encoder.ofLocals] using room)
  have continues := (Block.encode_sound (ofLocals_open locals) encodes).2
  have depth : middle.depth = returned hasValue := by
    rw [continues.depth, ← level]
    simp [Encoder.ofLocals, Block.effect]
  have runs : Runs (b.encode >>= fun _ => ret hasValue) (.ofLocals locals) () _ :=
    runs_bind.mpr ⟨_, middle, encodes, (ret_runs continues.reachable).mpr ⟨depth, rfl⟩⟩
  obtain ⟨-, m, offset, finishes, -⟩ := encoding_laidOut runs returnType
  refine ⟨m, ?_⟩
  rw [assemble_eq, runs]
  exact finishes

end DebugExpr.Code
