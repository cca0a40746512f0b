import Moth.Proofs.Twins.Machine
/-!
# Twins the other way round

If one machine is a twin of another, the other is a twin of the one, with every renaming taken
back.  What is proved of the second run from the first then holds of the first from the second.
-/

namespace Moth

def Twinning.flip (T : Twinning) : Twinning where
  toMatching := T.toMatching.flip
  links := T.others
  others := T.links
  before := T.before'
  before' := T.before
  hops h := (T.hops h).symm
  names {ρs token name token' name'} h := by
    have hname := T.names h
    rw [T.hops h, hname, Renaming.through_map_symm]
    exact ((Renaming.through ρs _).symm.symm_apply_apply name').symm

variable {T : Twinning} {names : Nat → Renaming} {scopes others : Forest Value}

theorem Bindings.rename_symm {α : Type} (ρ : Renaming) (bindings : Bindings α) :
    (bindings.rename ρ).rename ρ.symm = bindings := by
  simp [Bindings.rename, Function.comp_def]

theorem Forest.Renamed.symm (h : Forest.Renamed names scopes others) :
    Forest.Renamed (fun scope => (names scope).symm) others scopes where
  next := h.next.symm
  enclosing scope := (h.enclosing scope).symm
  bindings scope := by rw [h.bindings, Bindings.rename_symm]
  rooted := h.next.symm ▸ h.rooted
  root := (h.enclosing _).trans h.root
  globals := by rw [h.globals, Renaming.symm_same]

theorem Chained.symm {scope : Nat} {ρs : List Renaming} (hchained : Chained names scopes scope ρs)
    (h : Forest.Renamed names scopes others) :
    Chained (fun scope => (names scope).symm) others scope (ρs.map .symm) := by
  induction hchained with
  | globals => exact .globals
  | inner houter hname _ ih =>
    exact .inner ((h.enclosing _).trans houter) (congrArg Renaming.symm hname) ih

theorem Closure.Twin.symm {inner : List Renaming} {closure other : Closure}
    (hclosure : Closure.Twin T inner names scopes closure other)
    (h : Forest.Renamed names scopes others) :
    Closure.Twin T.flip (inner.map .symm) (fun scope => (names scope).symm) others other
      closure := by
  obtain ⟨ρs, hchained, htwin⟩ := hclosure.declaration
  refine ⟨hclosure.scope.symm, hclosure.isInitializer.symm, ρs.map .symm, ?_, ?_⟩
  · rw [hclosure.scope]
    exact hchained.symm h
  · rw [← List.map_append]
    exact functionTwin_symm (inner ++ ρs) _ htwin

theorem Machine.Twin.symm {machine other : Machine} (h : Machine.Twin T names machine other) :
    Machine.Twin T.flip (fun scope => (names scope).symm) other machine where
  scopes := h.scopes.symm
  functions := List.Forall₂.flip (h.functions.imp fun _ _ hclosure => hclosure.symm h.scopes)
  classes := List.Forall₂.flip (h.classes.imp fun _ _ hentry =>
    hentry.flip.imp fun _ _ hmethod => hmethod.symm h.scopes)
  instances := h.instances.symm
  current := h.current.symm
  links := h.others
  others := h.links
  sources := h.sources.symm
  output := by
    obtain ⟨text, hleft, hright⟩ := h.output
    exact ⟨text, hright, hleft⟩

end Moth
