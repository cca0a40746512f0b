import Moth.Proofs.Parsing.Levels
/-!
# What a quiet rule has read

A rule may complain and go on, so what it gives says nothing by itself.  `Meets fits rule P`
says that complaints are never taken back, that a rule which fails has complained, and that
a rule which gives a tree without a new complaint took tokens that `P` relates to it.  The
last is said only of cursors with fewer than `fits` tokens ahead: the bounds on the lists
of the grammar are long enough for those.
-/

namespace Moth.Syntax

open Rule

variable {α β : Type}

def Ends (fits : Nat) (P : List Token → α → List Token → Prop) (cursor : Cursor) :
    Reply α → Prop
  | .ok tree after => cursor.complaints.size ≤ after.complaints.size ∧
      (after.complaints.size = cursor.complaints.size → cursor.rest.length < fits →
        ∃ ts, cursor.rest = ts ++ after.rest ∧ P ts tree after.rest)
  | .failed after => cursor.complaints.size < after.complaints.size
  | .tooDeep _ => True

def Meets (fits : Nat) (rule : Rule α) (P : List Token → α → List Token → Prop) : Prop :=
  ∀ cursor, Ends fits P cursor (rule cursor)

namespace Meets

variable {fits : Nat} {rule : Rule α} {kind : Kind} {fault : ParseFault}
  {P : List Token → α → List Token → Prop} {R : List Token → β → List Token → Prop}

theorem mono {less : Nat} {Q : List Token → α → List Token → Prop} (h : Meets fits rule P)
    (hless : less ≤ fits) (hPQ : ∀ ts tree rest, P ts tree rest → Q ts tree rest) :
    Meets less rule Q := by
  intro cursor
  have hends := h cursor
  revert hends
  cases rule cursor with
  | ok tree after =>
    rintro ⟨hsize, hquiet⟩
    refine ⟨hsize, fun hsame hfits => ?_⟩
    obtain ⟨ts, hts, hP⟩ := hquiet hsame (Nat.lt_of_lt_of_le hfits hless)
    exact ⟨ts, hts, hPQ _ _ _ hP⟩
  | failed after => exact id
  | tooDeep after => exact id

theorem imp {Q : List Token → α → List Token → Prop} (h : Meets fits rule P)
    (hPQ : ∀ ts tree rest, P ts tree rest → Q ts tree rest) : Meets fits rule Q :=
  h.mono (Nat.le_refl _) hPQ

theorem fewer {less : Nat} (h : Meets fits rule P) (hless : less ≤ fits) :
    Meets less rule P :=
  h.mono hless fun _ _ _ hP => hP

theorem deep : Meets fits tooDeep P := fun _ => trivial

theorem fails : Meets fits (fail fault) P := by
  intro cursor
  simp [fail, Cursor.complainAt, Ends]

theorem done {tree : α} (h : ∀ rest, P [] tree rest) : Meets fits (pure tree) P :=
  fun _ => ⟨Nat.le_refl _, fun _ _ => ⟨[], rfl, h _⟩⟩

theorem bind {next : α → Rule β} (h : Meets fits rule P)
    (hnext : ∀ tree, Meets fits (next tree)
      fun us b rest => ∀ ts, P ts tree (us ++ rest) → R (ts ++ us) b rest) :
    Meets fits (rule >>= next) R := by
  intro cursor
  have hfirst := h cursor
  rw [bind_apply]
  revert hfirst
  cases rule cursor with
  | failed after => exact id
  | tooDeep after => exact id
  | ok tree between =>
    rintro ⟨hsize, hquiet⟩
    have hsecond := hnext tree between
    simp only
    revert hsecond
    cases next tree between with
    | failed after => exact Nat.lt_of_le_of_lt hsize
    | tooDeep after => exact id
    | ok value after =>
      rintro ⟨hsize', hquiet'⟩
      refine ⟨Nat.le_trans hsize hsize', fun hsame hfits => ?_⟩
      -- no complaint over both means no complaint in either
      obtain ⟨ts, hts, hP⟩ := hquiet (by omega) hfits
      have hlength := congrArg List.length hts
      rw [List.length_append] at hlength
      obtain ⟨us, hus, hR⟩ := hquiet' (by omega) (by omega)
      rw [hus] at hts hP
      exact ⟨ts ++ us, by rw [hts, List.append_assoc], hR ts hP⟩

theorem last {f : α → β} (h : Meets fits rule P)
    (hR : ∀ ts tree rest, P ts tree rest → R ts (f tree) rest) :
    Meets fits (rule >>= fun tree => pure (f tree)) R :=
  bind h fun tree => done fun rest ts hP => by
    rw [List.append_nil]
    exact hR ts tree rest hP

theorem map {f : α → β} (h : Meets fits rule P)
    (hR : ∀ ts tree rest, P ts tree rest → R ts (f tree) rest) : Meets fits (f <$> rule) R := by
  rw [map_eq_bind]
  exact last h hR

/-! ## Single tokens -/

/-- A first rule that takes up `ts` and says nothing leaves the rest to the next one. -/
theorem ends_bind {next : α → Rule β} {cursor : Cursor} {value : α} {less : Nat}
    (ts : List Token) {rest : List Token} (hts : cursor.rest = ts ++ rest)
    (hrule : rule cursor = .ok value { cursor with rest }) (hless : fits ≤ less + ts.length)
    (hnext : Meets less (next value) fun us b after =>
      rest = us ++ after → R (ts ++ us) b after) :
    Ends fits R cursor ((rule >>= next) cursor) := by
  have hsecond := hnext { cursor with rest }
  rw [bind_ok hrule]
  revert hsecond
  cases next value { cursor with rest } with
  | failed after => exact id
  | tooDeep after => exact id
  | ok tree after =>
    rintro ⟨hsize, hquiet⟩
    refine ⟨hsize, fun hsame hfits => ?_⟩
    rw [hts, List.length_append] at hfits
    obtain ⟨us, hus, hR⟩ := hquiet hsame (by simp only; omega)
    exact ⟨ts ++ us, by rw [hts, List.append_assoc, ← hus], hR hus⟩

/-- Where a token is taken there is one token less to fit. -/
theorem takePaid {less : Nat} {next : Option Token → Rule β} (hless : fits ≤ less + 1)
    (hsome : ∀ token, token.kind = kind →
      Meets less (next (some token)) fun us b rest => R (token :: us) b rest)
    (hnone : Meets fits (next none) fun us b rest =>
      ahead (us ++ rest) ≠ some kind → R us b rest) :
    Meets fits (take? kind >>= next) R := by
  rintro ⟨rest, stop, complaints⟩
  by_cases h : ahead rest = some kind
  · cases rest with
    | nil => simp at h
    | cons token rest =>
      have hkind : token.kind = kind := by simpa using h
      exact ends_bind [token] rfl (take?_same hkind rest stop complaints) hless
        ((hsome token hkind).imp fun us b rest hR _ => hR)
  · exact ends_bind [] rfl (take?_other h stop complaints) (Nat.le_refl _)
      (hnone.imp fun us b rest hR hrest => hR (hrest ▸ h))

theorem take {next : Option Token → Rule β}
    (hsome : ∀ token, token.kind = kind →
      Meets fits (next (some token)) fun us b rest => R (token :: us) b rest)
    (hnone : Meets fits (next none) fun us b rest =>
      ahead (us ++ rest) ≠ some kind → R us b rest) :
    Meets fits (take? kind >>= next) R :=
  takePaid (Nat.le_succ _) hsome hnone

theorem pick {pick : Kind → Option α} {next : Option (α × Token) → Rule β}
    (hsome : ∀ choice token, pick token.kind = some choice →
      Meets fits (next (some (choice, token))) fun us b rest => R (token :: us) b rest)
    (hnone : Meets fits (next none) R) : Meets fits (takePicked pick >>= next) R := by
  rintro ⟨rest, stop, complaints⟩
  cases rest with
  | nil =>
    exact ends_bind [] rfl (takePicked_none (by simp) stop complaints) (Nat.le_refl _)
      (hnone.imp fun us b rest hR _ => hR)
  | cons token rest =>
    cases hpick : pick token.kind with
    | none =>
      exact ends_bind [] rfl (takePicked_none (by simp [hpick]) stop complaints)
        (Nat.le_refl _) (hnone.imp fun us b rest hR _ => hR)
    | some choice =>
      exact ends_bind [token] rfl (takePicked_some hpick rest stop complaints)
        (Nat.le_succ _) ((hsome choice token hpick).imp fun us b rest hR _ => hR)

theorem expectPaid {less : Nat} {next : Token → Rule β} (hless : fits ≤ less + 1)
    (h : ∀ token, token.kind = kind →
      Meets less (next token) fun us b rest => R (token :: us) b rest) :
    Meets fits (Rule.expect kind fault >>= next) R := by
  rintro ⟨rest, stop, complaints⟩
  have noted (other : List Token) (hother : Rule.expect kind fault ⟨other, stop, complaints⟩ =
      fail fault ⟨other, stop, complaints⟩) :
      Ends fits R ⟨other, stop, complaints⟩
        ((Rule.expect kind fault >>= next) ⟨other, stop, complaints⟩) := by
    rw [bind_apply, hother]
    simp [fail, Cursor.complainAt, Ends]
  cases rest with
  | nil => exact noted [] rfl
  | cons token rest =>
    by_cases hkind : token.kind = kind
    · exact ends_bind [token] rfl (expect_same hkind fault rest stop complaints) hless
        ((h token hkind).imp fun us b rest hR _ => hR)
    · exact noted (token :: rest) (by simp [Rule.expect, hkind])

theorem expect {next : Token → Rule β}
    (h : ∀ token, token.kind = kind →
      Meets fits (next token) fun us b rest => R (token :: us) b rest) :
    Meets fits (Rule.expect kind fault >>= next) R :=
  expectPaid (Nat.le_succ _) h

theorem token : Meets fits (Rule.expect kind fault) fun ts token _ =>
    ts = [token] ∧ token.kind = kind := by
  have h : Meets fits (Rule.expect kind fault >>= fun token => pure token)
      fun ts token _ => ts = [token] ∧ token.kind = kind :=
    expect fun token hkind => done fun _ => ⟨rfl, hkind⟩
  intro cursor
  have hends := h cursor
  rw [bind_apply] at hends
  cases hexpect : Rule.expect kind fault cursor <;> simpa [hexpect] using hends

theorem sees {next : Bool → Rule β}
    (h : ∀ seen, Meets fits (next seen) fun us b rest =>
      (seen = true ↔ ahead (us ++ rest) = some kind) → R us b rest) :
    Meets fits (Rule.sees kind >>= next) R := by
  rintro ⟨rest, stop, complaints⟩
  refine ends_bind [] rfl (sees_apply kind rest stop complaints) (Nat.le_refl _) ?_
  exact (h _).imp fun us b after hR hrest => hR (by rw [hrest, decide_eq_true_iff])

theorem atEnd {next : Bool → Rule β}
    (h : ∀ ended, Meets fits (next ended) fun us b rest =>
      (ended = true ↔ us ++ rest = []) → R us b rest) :
    Meets fits (Rule.atEnd >>= next) R := by
  rintro ⟨rest, stop, complaints⟩
  refine ends_bind [] rfl (rfl : Rule.atEnd ⟨rest, stop, complaints⟩ = _) (Nat.le_refl _) ?_
  exact (h _).imp fun us b after hR hrest => hR (by rw [hrest, List.isEmpty_iff])

/-! ## Complaints and choices -/

theorem complain {token : Token} {next : Unit → Rule β}
    (h : Meets fits (next ()) fun _ _ _ => True) :
    Meets fits (complainAt token fault >>= next) R := by
  intro cursor
  have hnext := h (cursor.complainAt token fault)
  have hsize : (cursor.complainAt token fault).complaints.size = cursor.complaints.size + 1 := by
    simp [Cursor.complainAt]
  rw [bind_apply, complainAt]
  revert hnext
  simp only
  cases next () (cursor.complainAt token fault) with
  | failed after =>
    intro hlt
    exact Nat.lt_trans (by omega) hlt
  | tooDeep after => exact id
  | ok tree after =>
    rintro ⟨hle, -⟩
    exact ⟨by omega, fun hsame => by omega⟩

theorem complainIf {reason : Bool} {next : Unit → Rule β}
    (h : Meets fits (next ()) fun us b rest => reason = false → R us b rest) :
    Meets fits (Rule.complainIf reason fault >>= next) R := by
  cases reason with
  | false => exact h.imp fun us b rest hR => hR rfl
  | true =>
    intro cursor
    exact complain (h.imp fun _ _ _ _ => trivial) cursor

theorem behind (h : Meets fits rule P) :
    Meets fits (Rule.behind kind rule) fun ts found rest =>
      (∃ token us tree, token.kind = kind ∧ ts = token :: us ∧ found = some tree ∧
        P us tree rest) ∨ (ts = [] ∧ found = none ∧ ahead rest ≠ some kind) := by
  apply take
  · intro token hkind
    exact map h fun us tree rest hP => .inl ⟨token, us, tree, hkind, rfl, rfl, hP⟩
  · exact done fun rest hnext => .inr ⟨rfl, rfl, hnext⟩

theorem orAbsent {absent : α} (h : Meets fits rule P) :
    Meets fits (Rule.orAbsent kind absent rule) fun ts found rest =>
      (ts = [] ∧ found = absent) ∨ P ts found rest := by
  apply sees
  intro seen
  cases seen with
  | true => exact done fun rest _ => .inl ⟨rfl, rfl⟩
  | false => exact h.imp fun ts found rest hP _ => .inr hP

theorem recover {rule : Rule Stmt} {P : List Token → Stmt → List Token → Prop}
    (h : Meets fits rule P) : Meets fits (Grammar.recover rule) fun ts found rest =>
      ∃ stmt, found = some stmt ∧ P ts stmt rest := by
  intro cursor
  have hends := h cursor
  rw [Grammar.recover]
  revert hends
  cases rule cursor with
  | ok stmt after =>
    rintro ⟨hsize, hquiet⟩
    refine ⟨hsize, fun hsame hfits => ?_⟩
    obtain ⟨ts, hts, hP⟩ := hquiet hsame hfits
    exact ⟨ts, hts, stmt, rfl, hP⟩
  | failed after =>
    intro hsize
    exact ⟨Nat.le_of_lt hsize, fun hsame => absurd hsame (Nat.ne_of_gt hsize)⟩
  | tooDeep after => exact id

end Meets

end Moth.Syntax
