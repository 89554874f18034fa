import Uwu.Scope.Resolve
import Uwu.Sorting

/-! The names of a whole program: the global table, the scopes of classes, and every mistake. -/

namespace Uwu

namespace Class

def entries (c : Class) : List Entry :=
  c.params.map Param.entry ++ c.properties.map (·.entry .property) ++
    c.methods.map fun f => ⟨f.name, f.returnType, .method⟩

/-- In a class, parameters, properties and methods are visible everywhere. -/
def scope (c : Class) : Scope :=
  Scope.declareAll .empty c.entries

def resolve (c : Class) (globals : Scope) : List Diagnostic :=
  Scope.duplicates .empty c.entries ++
    c.scope.unresolved globals (c.properties.flatMap Declaration.valueReferences) ++
    c.methods.flatMap fun f => f.resolve globals c.scope

end Class

namespace Program

/-- The names of globals, functions and classes, in source order. The entry function has none. -/
def entries (p : Program) : List Entry :=
  sortBy (fun a b => a.name.span.start ≤ b.name.span.start)
    (p.globals.map (·.entry .globalVariable) ++
      p.functions.map (fun f => ⟨f.name, f.returnType, .function⟩) ++
      p.classes.map fun c => ⟨c.name, c.type, .classType⟩)

/-- The global table: of two entries with one name the first in the source counts. -/
def scope (p : Program) : Scope :=
  Scope.declareAll .empty p.entries

/-- The mistakes in the names of a program. -/
def checkNames (p : Program) : List Diagnostic :=
  Scope.duplicates .empty p.entries ++
    p.scope.unresolved none (p.globals.flatMap Declaration.valueReferences) ++
    p.functionsAndEntry.flatMap (fun f => f.resolve none p.scope) ++
    p.classes.flatMap fun c => c.resolve p.scope

end Program

end Uwu
