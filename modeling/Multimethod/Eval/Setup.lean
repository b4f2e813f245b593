import Multimethod.Eval.Machine
import Multimethod.Library.Root

/-!
# Making interpreters

A fresh interpreter has an engine over a registry, no bindings and an open output.
-/

namespace Multimethod

namespace Interpreter

def ofRegistry (registry : Registry) (config : EngineConfig) : Interpreter :=
  { engine := .new { registry } config }

/-- An interpreter with the library as its root scope, and with files to load. -/
def withLibrary (config : EngineConfig) (files : Files) : Interpreter :=
  { ofRegistry (Registry.withLibrary {} config.rootScopeName) config with files }

/-- Changes the registry; what the engine has recorded of types stays as it is. -/
def changeRegistry (f : Registry → Registry) (i : Interpreter) : Interpreter :=
  let provider := i.engine.provider
  { i with engine := { i.engine with provider := { provider with registry := f provider.registry } } }

/-- Settles which of the next listings of members fail. -/
def setOutages (outages : List Bool) (i : Interpreter) : Interpreter :=
  { i with engine := { i.engine with provider := { i.engine.provider with outages } } }

/-- Lets the next listings of members fail. -/
def failListings (count : Nat) (i : Interpreter) : Interpreter :=
  i.setOutages (List.replicate count true)

end Interpreter

end Multimethod
