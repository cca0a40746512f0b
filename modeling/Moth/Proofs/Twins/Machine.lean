import Moth.Proofs.Execution.Tables
import Moth.Proofs.Twins.Tree
/-!
# Twin machines

Two machines are twins if they differ only in what their functions were written like: every
scope, function, class and instance of the one has its counterpart in the other, under the same
number.  Values then stand for counterparts if they are equal.
-/

namespace Moth

/-- What two runs may differ in: the resolutions and what has been written before.  References
that are paired have the same hops, and the names that the renamings say. -/
structure Twinning extends Matching where
  links : Resolution
  others : Resolution
  before : String
  before' : String
  hops : ∀ {ρs token name token' name'}, pairs ρs token name token' name' →
    others.hops? token' = links.hops? token
  names : ∀ {ρs token name token' name'}, pairs ρs token name token' name' →
    name' = Renaming.through ρs (links.hops? token) name

/-- Functions in the same scope.  The scopes between it and their bodies are those in `inner`. -/
structure Closure.Twin (T : Twinning) (inner : List Renaming) (names : Nat → Renaming)
    (scopes : Forest Value) (closure other : Closure) : Prop where
  scope : other.scope = closure.scope
  isInitializer : other.isInitializer = closure.isInitializer
  declaration : ∃ ρs, Chained names scopes closure.scope ρs ∧
    functionTwin T.toMatching (inner ++ ρs) closure.declaration other.declaration

/-- The tables correspond.  Methods are in a scope for `this` when they are bound. -/
structure Machine.Twin (T : Twinning) (names : Nat → Renaming) (machine other : Machine) : Prop
    extends machine.Tables (Closure.Twin T [] names machine.scopes)
      (Closure.Twin T [.same] names machine.scopes) other where
  scopes : Forest.Renamed names machine.scopes other.scopes
  current : other.current = machine.current
  links : machine.resolution = T.links
  others : other.resolution = T.others
  output : ∃ text, machine.output = T.before ++ text ∧ other.output = T.before' ++ text

variable {T : Twinning}

section

variable {names names' : Nat → Renaming} {scopes scopes' : Forest Value}

theorem Closure.Twin.mono {inner : List Renaming} (hwidens : Widens names scopes names' scopes')
    {closure other : Closure} (h : Closure.Twin T inner names scopes closure other) :
    Closure.Twin T inner names' scopes' closure other := by
  obtain ⟨ρs, hchained, htwin⟩ := h.declaration
  exact ⟨h.scope, h.isInitializer, ρs, hchained.mono hwidens, htwin⟩

theorem Closure.Twin.name {inner : List Renaming} {closure other : Closure}
    (h : Closure.Twin T inner names scopes closure other) :
    other.declaration.name.lexeme = closure.declaration.name.lexeme := by
  obtain ⟨ρs, -, htwin⟩ := h.declaration
  exact htwin.name

end

namespace Machine.Twin

variable {names : Nat → Renaming} {machine other : Machine}

/-- The scopes go on, and all else stays. -/
theorem withScopes (h : Machine.Twin T names machine other) {names' : Nat → Renaming}
    {scopes scopes' : Forest Value} (hscopes : Forest.Renamed names' scopes scopes')
    (hwidens : Widens names machine.scopes names' scopes) :
    Machine.Twin T names' { machine with scopes } { other with scopes := scopes' } :=
  { h with
    scopes := hscopes
    functions := h.functions.imp fun _ _ hclosure => hclosure.mono hwidens
    classes := h.classes.imp fun _ _ hentry => hentry.imp fun _ _ hmethod => hmethod.mono hwidens
    sources := h.sources }

theorem define (h : Machine.Twin T names machine other) (scope : Nat) (name : String)
    (value : Value) :
    Machine.Twin T names (machine.define scope name value)
      (other.define scope (names scope name) value) :=
  h.withScopes (h.scopes.define scope name value) (.define names machine.scopes scope name value)

theorem newScope (h : Machine.Twin T names machine other) (ρ : Renaming) (scope : Nat) :
    Machine.Twin T (extendNames names machine.scopes ρ) (machine.newScope scope).2
      (other.newScope scope).2 :=
  h.withScopes (h.scopes.child ρ scope) (Forest.Renamed.widens_child names machine.scopes ρ scope)

theorem newFunction (h : Machine.Twin T names machine other) {closure closure' : Closure}
    (hclosure : Closure.Twin T [] names machine.scopes closure closure') :
    Machine.Twin T names (machine.newFunction closure).2 (other.newFunction closure').2 :=
  { h with toTables := h.toTables.newFunction hclosure }

theorem newClass (h : Machine.Twin T names machine other) {entry entry' : ClassEntry}
    (hentry : entry.Like (Closure.Twin T [.same] names machine.scopes) entry') :
    Machine.Twin T names (machine.newClass entry).2 (other.newClass entry').2 :=
  { h with toTables := h.toTables.newClass hentry }

theorem newInstance (h : Machine.Twin T names machine other) (classId : Nat) :
    Machine.Twin T names (machine.newInstance classId).2 (other.newInstance classId).2 :=
  { h with toTables := h.toTables.newInstance classId }

theorem setField (h : Machine.Twin T names machine other) (id : Nat) (name : String)
    (value : Value) :
    Machine.Twin T names (machine.setField id name value) (other.setField id name value) :=
  { h with toTables := h.toTables.setField id name value }

/-- The same text is written, and the same is left to read. -/
theorem exchange (h : Machine.Twin T names machine other) (text : String)
    (rest : Machine.Sources) :
    Machine.Twin T names (machine.exchange text rest) (other.exchange text rest) := by
  obtain ⟨written, hwritten, hwritten'⟩ := h.output
  exact { h with
    sources := rfl
    output := ⟨written ++ text, by rw [Machine.exchange, hwritten, String.append_assoc],
      by rw [Machine.exchange, hwritten', String.append_assoc]⟩ }

theorem write (h : Machine.Twin T names machine other) (text : String) :
    Machine.Twin T names (machine.write text) (other.write text) := by
  show Machine.Twin T names (machine.exchange text machine.sources)
    (other.exchange text other.sources)
  rw [h.sources]
  exact h.exchange text machine.sources

theorem enter (h : Machine.Twin T names machine other) (scope : Nat) :
    Machine.Twin T names { machine with current := scope } { other with current := scope } :=
  { h with current := rfl }

theorem size_instances (h : Machine.Twin T names machine other) :
    other.instances.size = machine.instances.size := by rw [h.instances]

/-- A value is shown alike. -/
theorem display (h : Machine.Twin T names machine other) (value : Value) :
    other.display value = machine.display value :=
  h.display_eq (fun hclosure => hclosure.name) value

end Machine.Twin

end Moth
