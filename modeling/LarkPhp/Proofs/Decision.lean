import LarkPhp.Proofs.Language
import LarkPhp.Proofs.Rules

/-!
Runs that decide relations.

A run decides a relation of definitions: it succeeds if and only if the relation allows it, and then
what is defined before and after is related (`Decides`).  Runs one after the other decide the
relations one after the other, so a construct is compared with its rule once, for both directions.
-/

namespace LarkPhp

/-- The defined names, as a set. -/
def Globals.definitions (g : Globals) : Language.Definitions := {e | e ∈ g.defined}

theorem Globals.definitions_define (g : Globals) (home name : String) :
    (g.define home name).definitions = insert (home, name) g.definitions := by
  ext e
  show e ∈ Distinct.add g.defined (home, name) ↔ e = (home, name) ∨ e ∈ g.defined
  rw [Distinct.mem_add, or_comm]

namespace Analysis

open LarkPhp.Language

/-! ### Runs that decide relations -/

/-- A state without macros, in which at least `k` symbols were drawn. -/
structure Steady (core : String) (k : Nat) (s : State) : Prop where
  expanders : s.globals.expanders = []
  core : s.globals.core = core
  drawn : k ≤ s.drawn

/-- A run succeeds if and only if the relation allows it, from what is defined before to what is
defined after. -/
structure Decides {α : Type} (core : String) (k : Nat) (x : Analyze α)
    (R : Definitions → Definitions → Prop) : Prop where
  sound {s a s'} : Steady core k s → x s = .ok a s' →
    Steady core k s' ∧ R s.globals.definitions s'.globals.definitions
  complete {s D'} : Steady core k s → R s.globals.definitions D' →
    ∃ a s', x s = .ok a s' ∧ s'.globals.definitions = D'

/-- A run always succeeds with such a value, and changes nothing but the number of drawn symbols,
nodes and warnings. -/
def Silent {α : Type} (k : Nat) (x : Analyze α) (V : α → Prop) : Prop :=
  ∀ s, k ≤ s.drawn → ∃ a s', x s = .ok a s' ∧ s'.globals = s.globals ∧ s.drawn ≤ s'.drawn ∧ V a

section Combinators
variable {α β : Type} {core : String} {k : Nat} {x : Analyze α} {f : α → Analyze β}
  {R R' : Definitions → Definitions → Prop} {V : α → Prop} {W : β → Prop} {s s' : State}

theorem Steady.of_globals (h : Steady core k s) (hglobals : s'.globals = s.globals)
    (hdrawn : s.drawn ≤ s'.drawn) : Steady core k s' := by
  refine ⟨?_, ?_, Nat.le_trans h.drawn hdrawn⟩
  · rw [hglobals, h.expanders]
  · rw [hglobals, h.core]

theorem Decides.congr (h : Decides core k x R) (hR : ∀ D D', R' D D' ↔ R D D') :
    Decides core k x R' := by
  refine ⟨fun hs hx => ?_, fun hs hD => h.complete hs ((hR _ _).1 hD)⟩
  obtain ⟨hs', hD⟩ := h.sound hs hx
  exact ⟨hs', (hR _ _).2 hD⟩

theorem Decides.of_eq {y : Analyze α} (h : Decides core k x R)
    (hy : ∀ s, Steady core k s → y s = x s) : Decides core k y R := by
  constructor
  · intro s a s' hs hrun
    rw [hy s hs] at hrun
    exact h.sound hs hrun
  · intro s D' hs hR
    rw [hy s hs]
    exact h.complete hs hR

theorem Decides.bind (hx : Decides core k x R) (hf : ∀ a, Decides core k (f a) R') :
    Decides core k (x >>= f) fun D D' => ∃ D₁, R D D₁ ∧ R' D₁ D' := by
  constructor
  · intro s b s' hs h
    obtain ⟨a, s₁, ha, hb⟩ := bind_eq_ok.1 h
    obtain ⟨hs₁, hR⟩ := hx.sound hs ha
    obtain ⟨hs', hR'⟩ := (hf a).sound hs₁ hb
    exact ⟨hs', _, hR, hR'⟩
  · rintro s D' hs ⟨D₁, hR, hR'⟩
    obtain ⟨a, s₁, ha, rfl⟩ := hx.complete hs hR
    obtain ⟨b, s', hb, hD'⟩ := (hf a).complete (hx.sound hs ha).1 hR'
    exact ⟨b, s', bind_eq_ok.2 ⟨a, s₁, ha, hb⟩, hD'⟩

theorem Silent.decides (hx : Silent k x V) (hf : ∀ a, V a → Decides core k (f a) R) :
    Decides core k (x >>= f) R := by
  constructor
  · intro s b s' hs h
    obtain ⟨a, s₁, ha, hglobals, hdrawn, hV⟩ := hx s hs.drawn
    rw [bind_run_ok ha] at h
    obtain ⟨hs', hR⟩ := (hf a hV).sound (hs.of_globals hglobals hdrawn) h
    rw [hglobals] at hR
    exact ⟨hs', hR⟩
  · intro s D' hs hR
    obtain ⟨a, s₁, ha, hglobals, hdrawn, hV⟩ := hx s hs.drawn
    rw [← hglobals] at hR
    obtain ⟨b, s', hb, hD'⟩ := (hf a hV).complete (hs.of_globals hglobals hdrawn) hR
    exact ⟨b, s', bind_eq_ok.2 ⟨a, s₁, ha, hb⟩, hD'⟩

theorem Silent.bind (hx : Silent k x V) (hf : ∀ a, V a → Silent k (f a) W) :
    Silent k (x >>= f) W := by
  intro s hs
  obtain ⟨a, s₁, ha, hglobals, hdrawn, hV⟩ := hx s hs
  obtain ⟨b, s₂, hb, hglobals', hdrawn', hW⟩ := hf a hV s₁ (Nat.le_trans hs hdrawn)
  exact ⟨b, s₂, bind_eq_ok.2 ⟨a, s₁, ha, hb⟩, hglobals'.trans hglobals,
    Nat.le_trans hdrawn hdrawn', hW⟩

theorem silent_pure {a : α} (h : V a) : Silent k (pure a) V :=
  fun s _ => ⟨a, s, rfl, rfl, Nat.le_refl _, h⟩

theorem silent_fresh : Silent k fresh fun x => k < x.generation :=
  fun s hs => ⟨_, _, fresh_run s, rfl, Nat.le_succ _, Nat.lt_succ_of_le hs⟩

theorem silent_warnIfScalar (g : Form) (position : Nat) (p : Option Span) :
    Silent k (warnIfScalar g position p) fun _ => True :=
  fun s _ => ⟨(), _, warnIfScalar_run s g position p, by simp, by simp, trivial⟩

theorem decides_push (make : Node.Info → Node) (scope : Scope) (p : Option Span) :
    Decides core k (push make scope p) fun D D' => D' = D := by
  constructor
  · intro s a s' hs h
    cases h
    exact ⟨hs.of_globals rfl (Nat.le_refl _), rfl⟩
  · rintro s _ hs rfl
    exact ⟨_, _, rfl, rfl⟩

theorem decides_pure (a : α) : Decides core k (pure a : Analyze α) fun D D' => D' = D := by
  constructor
  · intro s b s' hs h
    cases h
    exact ⟨hs, rfl⟩
  · rintro s _ hs rfl
    exact ⟨_, _, rfl, rfl⟩

theorem decides_fail (fault : Fault) (p : Option Span) (h : ∀ D D', ¬ R D D') :
    Decides core k (fail fault p : Analyze α) R := by
  constructor
  · intro s a s' _ hs
    cases hs
  · intro s D' _ hR
    exact absurd hR (h _ _)

/-- A node over what was analyzed before. -/
theorem Decides.push {make : α → Node.Info → Node} (hx : Decides core k x R) (scope : Scope)
    (p : Option Span) : Decides core k (x >>= fun a => push (make a) scope p) R := by
  refine (hx.bind fun a => decides_push (make a) scope p).congr fun D D' => ?_
  simp

theorem Decides.located (h : Decides core k x R) (p : Option Span) :
    Decides core k (located p x) R := by
  constructor
  · intro s a s' hs hx
    exact h.sound hs (Rules.located_ok hx)
  · intro s D' hs hR
    obtain ⟨a, s', hx, hD'⟩ := h.complete hs hR
    refine ⟨a, s', ?_, hD'⟩
    unfold Analysis.located
    rw [hx]

theorem Decides.transaction (h : Decides core k x R) : Decides core k (transaction x) R := by
  constructor
  · intro s a s' hs hx
    exact h.sound hs (Rules.withdrawing_ok hx)
  · intro s D' hs hR
    obtain ⟨a, s', hx, hD'⟩ := h.complete hs hR
    refine ⟨a, s', ?_, hD'⟩
    unfold Analysis.transaction withdrawing
    rw [hx]

theorem decides_announce (home name : String) (p : Option Span) :
    Decides core k (announce home name p) fun D D' => D' = insert (home, name) D := by
  constructor
  · intro s a s' hs h
    rw [announce_run] at h
    cases h
    refine ⟨⟨?_, ?_, ?_⟩, ?_⟩
    · rw [State.globals_announcing, Globals.expanders_define, hs.expanders]
    · rw [State.globals_announcing, Globals.core_define, hs.core]
    · rw [State.drawn_announcing]
      exact hs.drawn
    · rw [State.globals_announcing, Globals.definitions_define]
  · rintro s _ hs rfl
    refine ⟨(), _, announce_run s home name p, ?_⟩
    rw [State.globals_announcing, Globals.definitions_define]

end Combinators

/-! ### Sequences -/

section Sequences
variable {home core : String} {k : Nat} {visit : Visit} {scope : Scope} {L : Set Symbol}
  {J : Language.Judgement} {fs : List Form}

theorem decides_all (h : ∀ f ∈ fs, Decides core k (visit f scope) (J f L)) :
    Decides core k (all visit fs scope) (Sequence J fs L) := by
  induction fs with
  | nil => exact (decides_pure _).congr fun D D' => sequence_nil
  | cons f fs ih =>
    obtain ⟨hf, hfs⟩ := List.forall_mem_cons.1 h
    refine (hf.bind fun n => (ih hfs).bind fun ns => decides_pure (n :: ns)).congr fun D D' => ?_
    simp

theorem decides_statements (h : ∀ f ∈ fs, Decides core k (visit f scope) (J f L)) (p : Option Span)
    (position : Nat) :
    Decides core k (statements visit p fs position scope) (Sequence J fs L) := by
  induction fs generalizing position with
  | nil => exact (decides_pure _).congr fun D D' => sequence_nil
  | cons f fs ih =>
    obtain ⟨hf, hfs⟩ := List.forall_mem_cons.1 h
    refine (silent_warnIfScalar f position p).decides fun _ _ => ?_
    refine (hf.bind fun n => (ih hfs (position + 1)).bind fun ns =>
      decides_pure (n :: ns)).congr fun D D' => ?_
    simp

theorem decides_block (h : ∀ f ∈ fs, ∀ c, Decides core k (visit f (scope.withContext c)) (J f L))
    (p : Option Span) : Decides core k (block visit fs scope p) (Sequence J fs L) := by
  unfold block
  cases hlast : fs.getLast? with
  | none =>
    cases List.getLast?_eq_none_iff.1 hlast
    refine ((decides_push _ scope p).push scope p).congr fun D D' => sequence_nil
  | some f =>
    obtain ⟨front, rfl⟩ := List.getLast?_eq_some_iff.1 hlast
    rw [List.dropLast_concat]
    obtain ⟨hfront, hf⟩ := List.forall_mem_append.1 h
    have hf := hf f (List.mem_singleton.2 rfl)
    have htail : ∀ b : Bool, Decides core k (visit f
        (if b then scope else scope.withContext scope.context.tail)) (J f L) := by
      intro b
      cases b with
      | true => exact hf scope.context
      | false => exact hf scope.context.tail
    refine ((decides_statements (fun g hg => hfront g hg .statement) p 1).bind fun ns =>
      (htail ns.isEmpty).push scope p).congr fun D D' => ?_
    simp [sequence_append]

end Sequences

end Analysis

end LarkPhp
