import Adl.Model.Resolve

/-!
# Doc — the documentation of declarations and members
-/

namespace Adl

/-- The name under which a documentation text is kept. -/
def docKey : ScopedName := ⟨Resolve.Scope.annotationModule, Source.Parser.docName⟩

/-- The documentation text among annotations: the first one that is a string. -/
def docText? (annotations : Annotations) : Option String :=
  annotations.findSome? fun
    | (key, .string text) => if key = docKey then some text else none
    | _ => none

end Adl
