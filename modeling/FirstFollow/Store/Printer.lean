import FirstFollow.Store.Basic

/-!
# Printed stores

A store is printed one production a line, under the number of its nonterminal. With names, each
line of a named nonterminal ends with a note of its name.
-/

namespace FirstFollow

namespace Store

/-- The note at the end of a line. -/
def trailer (name : Option String) : String :=
  match name with
  | none => ""
  | some name => "  # " ++ name

/-- The lines of a printed store. -/
def lines (store : Store) (names : Bool) : List String :=
  store.alternatives.map fun alternative =>
    let name := if names then store.nameOf? alternative.1 else none
    toString alternative.1 ++ " = " ++ renderProduction alternative.2 ++ trailer name

/-- A printed store, with or without the names. -/
def render (store : Store) (names : Bool) : String :=
  "\n".intercalate (store.lines names)

end Store

end FirstFollow
