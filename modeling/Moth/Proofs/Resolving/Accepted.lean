import Moth.Proofs.Parsing.Exactness
import Moth.Proofs.Resolving.Parsed
/-!
# The references of accepted programs

In a program without complaints every reference has the hops under which the resolution keeps
it, and they lead to a scope that declares the name.
-/

namespace Moth

/-! ## The frames of a class -/

theorem Enclosed.plain_head {inClass : ClassContext} {frame : Frame} {outer : List Frame}
    (h : Enclosed inClass (frame :: outer)) (hclass : inClass ≠ .outside) : frame.Plain := by
  cases h with
  | outside => exact absurd rfl hclass
  | plain hframe | subclass hframe | inner hframe => exact hframe

theorem Frame.Plain.not_binds {frame : Frame} (h : frame.Plain) :
    frame.names.binds "this" = false ∧ frame.names.binds "super" = false := by
  constructor
  · exact Bool.eq_false_iff.2 fun hbinds => (h _ hbinds).1 rfl
  · exact Bool.eq_false_iff.2 fun hbinds => (h _ hbinds).2 rfl

theorem Enclosed.findIdx?_this {inClass : ClassContext} {frames : List Frame}
    (h : Enclosed inClass frames) (hclass : inClass ≠ .outside) :
    ∃ hops, frames.findIdx? (·.names.binds "this") = some hops := by
  induction h with
  | outside => exact absurd rfl hclass
  | plain hframe | subclass hframe =>
    exact ⟨1, by simp [List.findIdx?_cons, hframe.not_binds.1, Frame.binds_single]⟩
  | inner hframe hsite houter ih =>
    obtain ⟨hops, hfind⟩ := ih hclass
    exact ⟨hops + 1, by simp [List.findIdx?_cons, hframe.not_binds.1, hfind]⟩

/-- In a subclass `super` is found right behind `this`, two frames out of a method. -/
theorem Enclosed.findIdx?_super {inClass : ClassContext} {frames : List Frame}
    (h : Enclosed inClass frames) (hclass : inClass = .subclass) :
    ∃ inner body method name methods outer,
      frames = inner ++ body :: .this name methods :: .super name methods :: outer ∧
      body.site = .function method ∧ method ∈ methods ∧
      (∀ frame ∈ inner, ∀ other decls, frame.site ≠ .this other decls) ∧
      frames.findIdx? (·.names.binds "super") = some (inner.length + 2) := by
  induction h with
  | outside => cases hclass
  | plain hframe => cases hclass
  | @subclass frame method name methods outer hframe hsite hmethod =>
    refine ⟨[], frame, method, name, methods, outer, rfl, hsite, hmethod, by simp, ?_⟩
    simp [List.findIdx?_cons, hframe.not_binds.2, Frame.binds_single]
  | @inner frame inClass frames hframe hsite houter ih =>
    obtain ⟨inner, body, method, name, methods, outer, rfl, hbody, hmethod, hinner, hfind⟩ :=
      ih hclass
    refine ⟨frame :: inner, body, method, name, methods, outer, rfl, hbody, hmethod,
      List.forall_mem_cons.2 ⟨hsite, hinner⟩, ?_⟩
    rw [List.findIdx?_cons, hframe.not_binds.2, hfind]
    rfl

/-! ## One reference -/

/-- The reference leads to a scope whose site declares its name; a name that is read has its
declaration behind it, and `this` and `super` have the scopes of their class.  Between `super`
and these scopes stands a method of the class, and no other class. -/
structure Reference.Settled (reference : Reference) : Prop where
  found : ∀ hops, reference.hops? = some hops → ∃ frame,
    reference.place.frames[hops]? = some frame ∧ reference.name ∈ frame.site.declares ∧
      (reference.sort ≠ .assign → frame.names.find? reference.name = some true)
  this : reference.sort = .this → ∃ hops, reference.hops? = some hops
  super : reference.sort = .super → ∃ inner body method name methods outer,
    reference.place.frames =
        inner ++ body :: .this name methods :: .super name methods :: outer ∧
      body.site = .function method ∧ method ∈ methods ∧
      (∀ frame ∈ inner, ∀ other decls, frame.site ≠ .this other decls) ∧
      reference.hops? = some (inner.length + 2)

theorem Reference.find?_of_hops? {reference : Reference} {hops : Nat}
    (h : reference.hops? = some hops) : reference.place.find? reference.name = some hops := by
  unfold Reference.hops? at h
  split at h
  · cases h
  · exact h

/-- What a reference other than an assignment finds is finished. -/
theorem Reference.finished {sort : ReferenceSort} {token : Token} {name : String} {place : Place}
    (hformed : Reference.Formed ⟨sort, token, name, place⟩) (hplace : place.Sound)
    (hfault : Reference.fault? ⟨sort, token, name, place⟩ = none)
    (hclass : sort = .this ∨ sort = .super → place.context.inClass ≠ .outside)
    (hsort : sort ≠ .assign) {hops : Nat} (hlt : hops < place.frames.length)
    (hbinds : place.frames[hops].names.binds name) :
    place.frames[hops].names.find? name ≠ some false := by
  obtain ⟨context, frames⟩ := place
  cases frames with
  | nil => simp at hlt
  | cons frame outer =>
    cases hops with
    | succ hops => exact hplace.finished _ (List.getElem_mem _) name
    | zero =>
      cases sort with
      | read =>
        intro (hfalse : frame.names.find? name = some false)
        simp [Reference.fault?, Place.innermost?, hfalse] at hfault
      | assign => exact absurd rfl hsort
      | this =>
        have hplain := hplace.enclosed.plain_head (hclass (.inl rfl))
        exact absurd hformed.1 (hplain _ hbinds).1
      | super =>
        have hplain := hplace.enclosed.plain_head (hclass (.inr rfl))
        exact absurd hformed (hplain _ hbinds).2

theorem Reference.settled {reference : Reference} (hformed : reference.Formed)
    (hplace : reference.place.Sound) (hfault : reference.fault? = none) : reference.Settled := by
  obtain ⟨sort, token, name, place⟩ := reference
  -- without a fault, `this` stands in a class and `super` in a subclass
  have hthis : sort = .this → place.context.inClass ≠ .outside := by
    rintro rfl h
    simp [Reference.fault?, h] at hfault
  have hsuper : sort = .super → place.context.inClass = .subclass := by
    rintro rfl
    cases h : place.context.inClass <;> simp [Reference.fault?, h] at hfault ⊢
  have hclass : sort = .this ∨ sort = .super → place.context.inClass ≠ .outside := by
    rintro (h | h)
    · exact hthis h
    · simp [hsuper h]
  refine ⟨?_, ?_, ?_⟩
  · intro hops hhops
    obtain ⟨hlt, hbinds, -⟩ := List.findIdx?_eq_some_iff_getElem.1 (find?_of_hops? hhops)
    refine ⟨place.frames[hops], List.getElem?_eq_getElem hlt,
      hplace.declared _ (List.getElem_mem hlt) name hbinds, fun hsort => ?_⟩
    have hne := finished hformed hplace hfault hclass hsort hlt hbinds
    obtain ⟨flag, hflag⟩ := Option.isSome_iff_exists.1 hbinds
    cases flag with
    | true => exact hflag
    | false => exact absurd hflag hne
  · rintro rfl
    obtain ⟨rfl, -⟩ : name = "this" ∧ token.lexeme = "this" := hformed
    obtain ⟨hops, hfind⟩ := hplace.enclosed.findIdx?_this (hthis rfl)
    refine ⟨hops, ?_⟩
    cases h : place.context.inClass with
    | outside => exact absurd h (hthis rfl)
    | plain | subclass => simpa [Reference.hops?, Place.find?, h] using hfind
  · rintro rfl
    obtain rfl : name = "super" := hformed
    exact hplace.enclosed.findIdx?_super (hsuper rfl)

/-! ## All references of a program -/

theorem Link.spot_eq_iff {link : Link} {token : Token} :
    (link.token.offset = token.offset && link.token.unit = token.unit) = true ↔
      link.token.spot = token.spot := by
  simp [Token.spot, and_comm]

theorem Resolution.hops?_eq_none {links : List Link} {token : Token}
    (h : ∀ link ∈ links, link.token.spot ≠ token.spot) :
    Resolution.hops? ⟨links⟩ token = none := by
  rw [Resolution.hops?, Option.map_eq_none_iff, List.find?_eq_none]
  exact fun link hlink hspot => h link hlink (Link.spot_eq_iff.1 hspot)

theorem Resolution.hops?_cons_of_ne {link : Link} {links : List Link} {token : Token}
    (h : link.token.spot ≠ token.spot) :
    Resolution.hops? ⟨link :: links⟩ token = Resolution.hops? ⟨links⟩ token := by
  unfold Resolution.hops?
  rw [List.find?_cons_of_neg]
  intro hspot
  exact h (Link.spot_eq_iff.1 hspot)

theorem Resolution.hops?_merge (older newer : Resolution) (token : Token) :
    (older.merge newer).hops? token = (newer.hops? token).or (older.hops? token) := by
  simp [Resolution.hops?, Resolution.merge, List.find?_append, Option.map_or]

/-- No link of another unit is found. -/
theorem Resolution.hops?_eq_none_of_unit {resolution : Resolution} {token : Token}
    (h : ∀ link ∈ resolution.links, link.token.unit ≠ token.unit) :
    resolution.hops? token = none :=
  hops?_eq_none fun link hlink hspot => h link hlink (Prod.mk.inj hspot).1

theorem Reference.token_of_link? {reference : Reference} {link : Link}
    (h : reference.link? = some link) : link.token = reference.token := by
  obtain ⟨hops, -, rfl⟩ := Option.map_eq_some_iff.1 h
  rfl

/-- References at spots of their own keep their hops. -/
theorem Resolution.hops?_links {references : List Reference}
    (hspots : (references.map (·.token.spot)).Nodup) {reference : Reference}
    (h : reference ∈ references) :
    Resolution.hops? ⟨references.filterMap Reference.link?⟩ reference.token =
      reference.hops? := by
  induction references with
  | nil => cases h
  | cons first rest ih =>
    rw [List.map_cons, List.nodup_cons] at hspots
    obtain ⟨hfirst, hrest⟩ := hspots
    have hother : ∀ other ∈ rest, other.token.spot ≠ first.token.spot :=
      fun other hother heq => hfirst (heq ▸ List.mem_map_of_mem hother)
    rcases List.mem_cons.1 h with rfl | hmem
    · cases hhops : reference.hops? with
      | some hops => simp [Reference.link?, hhops, Resolution.hops?]
      | none =>
        rw [List.filterMap_cons_none (by simp [Reference.link?, hhops])]
        refine Resolution.hops?_eq_none fun link hlink => ?_
        obtain ⟨other, hmem, hlink⟩ := List.mem_filterMap.1 hlink
        rw [Reference.token_of_link? hlink]
        exact hother other hmem
    · cases hlink : first.link? with
      | none =>
        rw [List.filterMap_cons_none hlink]
        exact ih hrest hmem
      | some link =>
        have hne : link.token.spot ≠ reference.token.spot := by
          rw [Reference.token_of_link? hlink]
          exact (hother reference hmem).symm
        rw [List.filterMap_cons_some hlink, Resolution.hops?_cons_of_ne hne, ih hrest hmem]

theorem Event.fault?_of_complaint? {event : Event} {reference : Reference}
    (h : event.complaint? = none) (href : event.reference? = some reference) :
    reference.fault? = none := by
  cases event with
  | reference found =>
    cases href
    exact Option.map_eq_none_iff.1 h
  | declaration name place => cases href
  | returns keyword withValue context => cases href
  | inherits name superclass =>
    cases href
    rw [Event.complaint?] at h
    split at h
    · cases h
    · exact Option.map_eq_none_iff.1 h

/-- An event of an accepted program: its names are plain, and if it is a reference it is
settled and has its hops in the resolution. -/
structure Event.Settled (resolution : Resolution) (event : Event) : Prop where
  formed : event.Formed
  settled : ∀ reference, event.reference? = some reference → reference.Settled
  hops : ∀ reference, event.reference? = some reference →
    resolution.hops? reference.token = reference.hops?

theorem Mentions.nodup {tokens : List Token} {events : List Event} (h : Mentions tokens events)
    (hspots : (tokens.map Token.spot).Nodup) : (eventSpots events).Nodup := by
  obtain ⟨us, hperm, hsublist⟩ := h.tokens
  rw [eventSpots_eq_map]
  exact (hperm.map Token.spot).nodup_iff.1 (hspots.sublist (hsublist.map Token.spot))

theorem Event.token_of_reference? {event : Event} {reference : Reference}
    (h : event.reference? = some reference) : event.token = reference.token := by
  cases event <;> cases h <;> rfl

theorem Event.token_of_link? {event : Event} {link : Link} (h : event.link? = some link) :
    link.token = event.token := by
  obtain ⟨reference, href, hlink⟩ := Option.bind_eq_some_iff.1 h
  rw [Reference.token_of_link? hlink, Event.token_of_reference? href]

theorem referenceSpots_sublist (events : List Event) :
    ((events.filterMap Event.reference?).map (·.token.spot)).Sublist (eventSpots events) :=
  picked_sublist (fun _ _ href => congrArg Token.spot (Event.token_of_reference? href).symm) events

/-- Events at spots of their own give their references their hops. -/
theorem Resolution.hops?_eventLinks {events : List Event} (hspots : (eventSpots events).Nodup)
    {event : Event} (hevent : event ∈ events) {reference : Reference}
    (href : event.reference? = some reference) :
    Resolution.hops? ⟨events.filterMap Event.link?⟩ reference.token = reference.hops? := by
  have hlinks : events.filterMap Event.link? =
      (events.filterMap Event.reference?).filterMap Reference.link? := by
    rw [List.filterMap_filterMap]
    rfl
  rw [hlinks]
  exact hops?_links (hspots.sublist (referenceSpots_sublist events))
    (List.mem_filterMap.2 ⟨event, hevent, href⟩)

/-- Every reference keeps its hops, whether or not the resolver complains. -/
theorem resolveProgram_hops? {program : List Stmt} {tokens : List Token}
    (hbranched : BranchedAll program)
    (hmentions : Mentions tokens (programEvents program))
    (hspots : (tokens.map Token.spot).Nodup) {event : Event}
    (hevent : event ∈ programEvents program) {reference : Reference}
    (href : event.reference? = some reference) :
    (resolveProgram program).resolution.hops? reference.token = reference.hops? := by
  rw [resolveProgram_eq hbranched]
  exact Resolution.hops?_eventLinks (hmentions.nodup hspots) hevent href

theorem settled_of_quiet {program : List Stmt} {tokens : List Token}
    (hbranched : BranchedAll program)
    (hmentions : Mentions tokens (programEvents program))
    (hspots : (tokens.map Token.spot).Nodup)
    (hquiet : (resolveProgram program).complaints = #[]) :
    ∀ event ∈ programEvents program, event.Settled (resolveProgram program).resolution := by
  have hcomplaint : ∀ event ∈ programEvents program, event.complaint? = none := by
    rw [resolveProgram_eq hbranched] at hquiet
    simpa [List.filterMap_eq_nil_iff] using hquiet
  have hplaced := programEvents_placed hbranched hmentions.formed
  intro event hevent
  refine ⟨hmentions.formed event hevent, ?_, ?_⟩
  · intro reference href
    have hformed : reference.Formed := by
      have hevent := hmentions.formed event hevent
      cases event <;> cases href
      · exact hevent
      · exact hevent.2
    exact Reference.settled hformed (hplaced event hevent reference href)
      (Event.fault?_of_complaint? (hcomplaint event hevent) href)
  · exact fun reference href => resolveProgram_hops? hbranched hmentions hspots hevent href

/-! ## Whole units -/

/-- What is known of a unit that was accepted: its events are settled, all its references are at
tokens of the unit, and no two of its links are at one token. -/
structure Accepted (unit : Nat) (program : List Stmt) (resolution : Resolution) : Prop where
  settled : ∀ event ∈ programEvents program, event.Settled resolution
  references : ∀ event ∈ programEvents program, ∀ reference,
    event.reference? = some reference → reference.token.unit = unit
  links : ∀ link ∈ resolution.links, link.token.unit = unit
  distinct : (resolution.links.map (·.token.spot)).Nodup

theorem Mentions.unit_eq {unit : Nat} {text : List Char} {events : List Event}
    (h : Mentions (scan unit text).tokens.toList events) {event : Event} (hevent : event ∈ events)
    {reference : Reference} (href : event.reference? = some reference) :
    reference.token.unit = unit := by
  rw [← Event.token_of_reference? href]
  exact unit_of_scan (h.token_mem hevent)

theorem Mentions.links_unit {unit : Nat} {text : List Char} {program : List Stmt}
    (h : Mentions (scan unit text).tokens.toList (programEvents program))
    (hbranched : BranchedAll program) :
    ∀ link ∈ (resolveProgram program).resolution.links, link.token.unit = unit := by
  rw [resolveProgram_eq hbranched]
  intro link hmem
  obtain ⟨event, hevent, hlink⟩ := List.mem_filterMap.1 hmem
  rw [Event.token_of_link? hlink]
  exact unit_of_scan (h.token_mem hevent)

theorem accepted_of_mentions {unit : Nat} {text : List Char} {program : List Stmt}
    {resolution : Resolution} (hbranched : BranchedAll program)
    (hmentions : Mentions (scan unit text).tokens.toList (programEvents program))
    (hresolve : resolveProgram program = ⟨resolution, #[]⟩) :
    Accepted unit program resolution := by
  have hsettled := settled_of_quiet hbranched hmentions (nodup_spots unit text) (by rw [hresolve])
  have hlinks := hmentions.links_unit hbranched
  have hdistinct : ((resolveProgram program).resolution.links.map (·.token.spot)).Nodup := by
    rw [resolveProgram_eq hbranched]
    exact (hmentions.nodup (nodup_spots unit text)).sublist
      (picked_sublist (fun _ _ hlink => congrArg Token.spot (Event.token_of_link? hlink)) _)
  rw [hresolve] at hsettled hlinks hdistinct
  exact ⟨hsettled, fun event hevent reference href => hmentions.unit_eq hevent href, hlinks,
    hdistinct⟩

theorem mentions_of_parseProgram {unit levels : Nat} {text : List Char} {stop : Token}
    {program : List Stmt}
    (hparse : parseProgram (scan unit text).tokens.toList stop levels = ⟨program, #[]⟩) :
    BranchedAll program ∧ Mentions (scan unit text).tokens.toList (programEvents program) := by
  obtain ⟨hbranched, hmentions⟩ := (Syntax.derives_of_parsed hparse).told fun token htoken =>
    spells_of_scan (Array.mem_toList_iff.1 htoken)
  exact ⟨hbranched, hmentions .top⟩

theorem mentions_of_parseExpression {unit levels : Nat} {text : List Char} {stop : Token}
    {expr : Expr}
    (hparse : parseExpression (scan unit text).tokens.toList stop levels = ⟨some expr, #[]⟩) :
    Mentions (scan unit text).tokens.toList (programEvents [.expression expr]) := by
  have htold := (Syntax.derives_of_parseExpression hparse).told fun token htoken =>
    spells_of_scan (Array.mem_toList_iff.1 htoken)
  have hevents : programEvents [.expression expr] = expr.events .top := List.append_nil _
  exact hevents ▸ htold .top

end Moth
