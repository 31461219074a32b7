/-
Choosing types from a list.
-/
import Coupling.Filter

namespace Coupling.Query

def interfaces (ds : List TypeDef) : List TypeDef := ds.filter (·.isInterface)

def classes (ds : List TypeDef) : List TypeDef := ds.filter (·.isClass)

/-- Types whose full name matches. -/
def filtered (pattern : String) (ds : List TypeDef) : Except Error (List TypeDef) := do
  let r ← Regex.compile pattern
  return ds.filter fun d => r.isMatch d.fullName

/-- Each type and those nested in it. -/
def includingNested (ds : List TypeDef) : List TypeDef := ds.flatMap (·.withNested)

/-- Types that declare one of the interfaces by its own key. -/
def withInterface (wanted : List TypeDef) (ds : List TypeDef) : List TypeDef :=
  ds.filter fun d => d.interfaces.any fun i => wanted.any fun w => i.key == w.key

/-- Types with an attribute whose full name matches. -/
def withAttribute (pattern : String) (ds : List TypeDef) : Except Error (List TypeDef) := do
  let r ← Regex.compile pattern
  return ds.filter fun d => d.attributes.any fun a => r.isMatch a.fullName

end Coupling.Query
