import DebugExpr.Pseudo.Kind
import DebugExpr.QualifiedName.Basic

/-! Inspection contexts: the names that the debugger supplies for one evaluation, with the runtime
type of each. Pseudo-variables stand under their context keys, variables declared in the debugger
under their own names. -/
namespace DebugExpr.Pseudo
open Metadata

/-- How the debugger describes the runtime type of a name. -/
inductive Entry where
  /-- A definition without generic parameters in a loaded module. -/
  | handle (home : ModuleId) (token : Token)
  | reference (name : QualifiedName)
  /-- A type name that is read when it is needed. -/
  | qualifiedName (text : String)

structure Context where
  entries : List (String × Entry) := []
  keys_nodup : (entries.map Prod.fst).Nodup := by simp
  /-- Every return value, object id and address is answered with the root class. -/
  debuggerDefault : Bool := false

namespace Context

/-- Adds an entry in place of any other of the same key. -/
def insert (context : Context) (name : String) (entry : Entry) : Context where
  entries := context.entries.filter (·.1 != name) ++ [(name, entry)]
  keys_nodup := by
    rw [List.map_append, List.nodup_append]
    refine ⟨(List.filter_sublist.map _).nodup context.keys_nodup, by simp, ?_⟩
    intro key member other same
    simp only [List.map_cons, List.map_nil, List.mem_singleton] at same
    subst same
    obtain ⟨⟨k, e⟩, kept, rfl⟩ := List.mem_map.mp member
    simpa using (List.mem_filter.mp kept).2
  debuggerDefault := context.debuggerDefault

def get? (context : Context) (key : String) : Option Entry :=
  (context.entries.find? (·.1 == key)).map (·.2)

/-- The entry registered for a pseudo-variable. -/
def lookup? (context : Context) (kind : Kind) : Option Entry :=
  kind.entryKey?.bind context.get?

/-- The kind is recognized without an entry. -/
def knowsByDefault (context : Context) (kind : Kind) : Bool :=
  context.debuggerDefault && match kind with
    | .returnValue _ | .objectId _ | .address _ => true
    | _ => false

/-- The entry of a variable declared in the debugger. The name of a pseudo-variable is none. -/
def declared? (context : Context) (name : String) : Option Entry :=
  match name.toList.head? with
  | some '$' | some '@' => none
  | _ => context.get? name

end Context

end DebugExpr.Pseudo
