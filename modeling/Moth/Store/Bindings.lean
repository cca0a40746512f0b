/-!
# Bindings

Names and what they stand for, in the order in which the names came.  A name occurs
once: binding it again replaces its value.
-/

namespace Moth

abbrev Bindings (α : Type) := List (String × α)

namespace Bindings

variable {α : Type}

def find? (bindings : Bindings α) (name : String) : Option α :=
  match bindings with
  | [] => none
  | (bound, value) :: rest => if bound = name then some value else find? rest name

/-- Binds a name, in the place of its earlier binding if there is one. -/
def set (bindings : Bindings α) (name : String) (value : α) : Bindings α :=
  match bindings with
  | [] => [(name, value)]
  | (bound, old) :: rest =>
    if bound = name then (name, value) :: rest else (bound, old) :: set rest name value

def names (bindings : Bindings α) : List String := bindings.map (·.1)

def binds (bindings : Bindings α) (name : String) : Bool := (bindings.find? name).isSome

def sorted (bindings : Bindings α) : Bindings α :=
  bindings.mergeSort fun a b => a.1 ≤ b.1

@[simp] theorem find?_nil (name : String) : find? ([] : Bindings α) name = none := rfl

@[simp] theorem find?_set_self (bindings : Bindings α) (name : String) (value : α) :
    (bindings.set name value).find? name = some value := by
  induction bindings with
  | nil => simp [set, find?]
  | cons binding rest ih =>
    obtain ⟨bound, old⟩ := binding
    by_cases h : bound = name <;> simp [set, find?, h, ih]

theorem find?_set_of_ne (bindings : Bindings α) {name other : String} (value : α)
    (h : name ≠ other) : (bindings.set name value).find? other = bindings.find? other := by
  induction bindings with
  | nil => simp [set, find?, h]
  | cons binding rest ih =>
    obtain ⟨bound, old⟩ := binding
    by_cases hb : bound = name
    · subst hb
      simp [set, find?, h]
    · by_cases ho : bound = other
      · subst ho
        simp [set, find?, hb]
      · simp [set, find?, hb, ho, ih]

end Bindings

end Moth
