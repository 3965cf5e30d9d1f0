import Mathlib.Data.Option.Defs

/-!
# Statements about a literal

What is said of every element of a list is decided along the list. Mathlib has instances that
search the whole type of the elements instead, every `Char` or every byte; the instances here come
before them where they are open.
-/

namespace W132d.Literal

variable {α : Type*} {p : α → Prop} [DecidablePred p]

scoped instance (priority := high) decidableForallMem (l : List α) : Decidable (∀ a ∈ l, p a) :=
  List.decidableBAll p l

scoped instance (priority := high) decidableExistsMem (l : List α) : Decidable (∃ a ∈ l, p a) :=
  List.decidableBEx p l

scoped instance (priority := high) decidableForallMemOption (o : Option α) :
    Decidable (∀ a ∈ o, p a) :=
  Option.decidableForallMem o

scoped instance (priority := high) decidableExistsMemOption (o : Option α) :
    Decidable (∃ a ∈ o, p a) :=
  Option.decidableExistsMem o

end W132d.Literal
