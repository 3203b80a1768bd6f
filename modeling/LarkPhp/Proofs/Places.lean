import LarkPhp.Expanders
import LarkPhp.Session
import LarkPhp.Proofs.Transaction

/-!
Places decide nothing but places.

A form remembers where it was written, and hands its place on to nodes, errors and warnings.  No
step of analysis asks for a place, and the code of a node does not show one.  So units that are the
same without their places are refused with the same fault, or accepted with the same code and the
same warnings, each perhaps at another place and therefore queued more or less often
(`compile_placeless`).
-/

namespace LarkPhp

/-! ### Forms without places -/

namespace Form

mutual
/-- The form without places, at every level. -/
def unplaced : Form → Form
  | .symbol x _ => .symbol x none
  | .tuple d xs _ => .tuple d (unplacedAll xs) none
  | .table es _ => .table (unplacedEntries es) none
  | .set xs _ => .set (unplacedAll xs) none
  | .array xs _ => .array (unplacedAll xs) none
  | scalar => scalar

/-- The forms without places. -/
def unplacedAll : List Form → List Form
  | [] => []
  | f :: fs => f.unplaced :: unplacedAll fs

/-- The keys and values without places. -/
def unplacedEntries : List (Form × Form) → List (Form × Form)
  | [] => []
  | (k, f) :: es => (k.unplaced, f.unplaced) :: unplacedEntries es
end

theorem unplacedAll_eq (fs : List Form) : unplacedAll fs = fs.map unplaced := by
  induction fs with
  | nil => rfl
  | cons f fs ih => rw [unplacedAll, ih, List.map_cons]

theorem flatten_unplacedEntries (es : List (Form × Form)) :
    Analysis.flatten (unplacedEntries es) = (Analysis.flatten es).map unplaced := by
  induction es with
  | nil => rfl
  | cons e es ih =>
    obtain ⟨k, f⟩ := e
    exact congrArg (fun fs => k.unplaced :: f.unplaced :: fs) ih

theorem unplaced_moveTo (f : Form) (p : Option Span) : (f.moveTo p).unplaced = f.unplaced := by
  cases f <;> rfl

theorem parts_unplaced (f : Form) : f.unplaced.parts = f.parts.map unplaced := by
  cases f with
  | tuple d xs p => exact unplacedAll_eq xs
  | set xs p => exact unplacedAll_eq xs
  | array xs p => exact unplacedAll_eq xs
  | table es p => exact flatten_unplacedEntries es
  | _ => rfl

end Form

/-- Everything is compared but places. -/
def View.placeless : View := { View.exact true true with places := false }

namespace View

theorem placeless_place (p q : Option Span) : placeless.Place p q := fun h => nomatch h

/-- Related forms are the same without their places. -/
theorem unplaced_of_forms {f g : Form} (h : placeless.Forms f g) : f.unplaced = g.unplaced := by
  induction f using Form.ind generalizing g with
  | _ f ih =>
    have hparts : f.unplaced.parts = g.unplaced.parts := by
      have hall := (List.forall₂_and_left _ _).2 ⟨ih, h.parts⟩
      rw [Form.parts_unplaced, Form.parts_unplaced, ← List.forall₂_eq_eq_eq,
        List.forall₂_map_left_iff, List.forall₂_map_right_iff]
      exact hall.imp fun x y hxy => hxy.1 hxy.2
    cases h with
    | scalar => rfl
    | symbol => rfl
    | tuple => exact congrArg (Form.tuple _ · none) hparts
    | set => exact congrArg (Form.set · none) hparts
    | array => exact congrArg (Form.array · none) hparts
    | table => exact congrArg (Form.table · none) (Form.flatten_injective hparts)

theorem forms_of_unplaced {f g : Form} (h : f.unplaced = g.unplaced) : placeless.Forms f g := by
  induction f using Form.ind generalizing g with
  | _ f ih =>
    have hparts : List.Forall₂ placeless.Forms f.parts g.parts := by
      have hsame := congrArg Form.parts h
      rw [Form.parts_unplaced, Form.parts_unplaced, ← List.forall₂_eq_eq_eq,
        List.forall₂_map_left_iff, List.forall₂_map_right_iff] at hsame
      exact ((List.forall₂_and_left _ _).2 ⟨ih, hsame⟩).imp fun x y hxy => hxy.1 hxy.2
    have hp := placeless_place
    cases f with
    | symbol x p =>
      cases g <;> cases h
      exact .symbol (hp _ _)
    | tuple d xs p =>
      cases g with
      | tuple d' ys q =>
        obtain ⟨rfl, -, -⟩ := Form.tuple.inj h
        exact .tuple hparts (hp _ _)
      | _ => cases h
    | table es p =>
      cases g with
      | table es' q => exact .table hparts (hp _ _)
      | _ => cases h
    | set xs p =>
      cases g with
      | set ys q => exact .set hparts (hp _ _)
      | _ => cases h
    | array xs p =>
      cases g with
      | array ys q => exact .array hparts (hp _ _)
      | _ => cases h
    | _ =>
      cases g <;> cases h
      exact .scalar rfl

end View

/-! ### Code shows no places -/

namespace Php

theorem entryValues_eq (config : Config) (es : List (Form × Form)) :
    entryValues config es = (Analysis.flatten es).map (value config) := by
  induction es with
  | nil => rfl
  | cons e es ih =>
    obtain ⟨k, f⟩ := e
    exact congrArg (fun ts => value config k :: value config f :: ts) ih

section Related
variable {v : View} (hid : ∀ x, v.rename x = x) (config : Config)
include hid

theorem value_eq_of_forms {f g : Form} (h : v.Forms f g) : value config f = value config g := by
  induction f using Form.ind generalizing g with
  | _ f ih =>
    have hparts : f.parts.map (value config) = g.parts.map (value config) := by
      have hall := (List.forall₂_and_left _ _).2 ⟨ih, h.parts⟩
      rw [← List.forall₂_eq_eq_eq, List.forall₂_map_left_iff, List.forall₂_map_right_iff]
      exact hall.imp fun x y hxy => hxy.1 hxy.2
    cases h with
    | scalar => rfl
    | symbol => rw [hid, value, value]
    | @tuple d xs ys p q =>
      have hvalues : values config xs = values config ys := by
        rw [values_eq, values_eq]
        exact hparts
      cases d <;> rw [value, value, hvalues]
    | set | array =>
      rw [value, value, values_eq, values_eq]
      exact congrArg _ hparts
    | table =>
      rw [value, value, entryValues_eq, entryValues_eq]
      exact congrArg _ hparts

theorem scope_eq_of_infos (hcontexts : v.contexts = true) {i j : Node.Info} (h : v.Infos i j) :
    i.scope = j.scope := by
  have hrename : v.rename = id := funext hid
  obtain ⟨serial, ⟨locals, shadows, context, home⟩, location⟩ := i
  obtain ⟨serial', ⟨locals', shadows', context', home'⟩, location'⟩ := j
  obtain ⟨hlocals, hshadows, hcontext, hhome⟩ := h.scope
  obtain rfl : locals' = locals := by simpa [hrename] using hlocals
  obtain rfl : shadows' = shadows := by simpa [hrename] using hshadows
  obtain rfl : context = context' := hcontext hcontexts
  obtain rfl : home = home' := hhome
  rfl

omit hid in
theorem assignable_eq_of_nodes {n m : Node} (h : v.Nodes n m) : assignable n = assignable m := by
  induction n using Node.ind generalizing m with
  | _ n ih =>
    cases h with
    | arrayGet ha hb hij =>
      rw [assignable, assignable]
      exact ih _ List.mem_cons_self ha
    | _ => rfl

theorem application_eq_of_nodes {n m : Node} (h : v.Nodes n m) (text : String)
    (args : List String) : application n text args = application m text args := by
  cases h with
  | hostVar =>
    rw [hid]
    rfl
  | _ => rfl

theorem target_eq_of_nodes {n m : Node} (h : v.Nodes n m) (text : String) :
    target n text = target m text := by
  cases h with
  | className =>
    rw [hid]
    rfl
  | _ => rfl

omit hid in
theorem subscript_eq_of_nodes {n m : Node} (h : v.Nodes n m) (text index : String) :
    subscript n text index = subscript m text index := by
  unfold subscript
  rw [assignable_eq_of_nodes h]

omit hid in
/-- Bindings with the same variables whose values are written alike. -/
theorem assignments_congr {bs cs : List (Binding Node)} {depth : Nat}
    (hvars : cs.map Binding.var = bs.map Binding.var)
    (hinits : codes config (bs.map Binding.init) depth = codes config (cs.map Binding.init) depth) :
    assignments config bs depth = assignments config cs depth := by
  induction bs generalizing cs with
  | nil =>
    cases cs with
    | nil => rfl
    | cons c cs => cases hvars
  | cons b bs ih =>
    cases cs with
    | nil => cases hvars
    | cons c cs =>
      obtain ⟨hvar, hvars⟩ := List.cons.inj hvars
      obtain ⟨hinit, hinits⟩ := List.cons.inj hinits
      rw [assignments, assignments, ih hvars hinits, hvar, hinit]

/-- **Related nodes are written as the same text,** if no symbol gets another name and contexts are
compared. -/
theorem code_eq_of_nodes (hcontexts : v.contexts = true) {n m : Node} (h : v.Nodes n m)
    (depth : Nat) : code config n depth = code config m depth := by
  induction n using Node.ind generalizing m depth with
  | _ n ih =>
    have hrename : v.rename = id := funext hid
    have hscope : ∀ {i j : Node.Info}, v.Infos i j → i.scope = j.scope :=
      fun hij => scope_eq_of_infos hid hcontexts hij
    have hnode : ∀ {c d : Node}, c ∈ n.children → v.Nodes c d → ∀ depth,
        code config c depth = code config d depth := fun hc hcd depth => ih _ hc hcd depth
    have hall : ∀ {ns ms : List Node}, ns ⊆ n.children → List.Forall₂ v.Nodes ns ms → ∀ depth,
        codes config ns depth = codes config ms depth := by
      intro ns ms hsub hns depth
      induction hns with
      | nil => rfl
      | cons hn _ ihns =>
        rw [List.cons_subset] at hsub
        rw [codes, codes, ih _ hsub.1 hn, ihns hsub.2]
    cases h with
    | literal hf hij => simp only [code, hscope hij, value_eq_of_forms hid config hf]
    | localVar hij | globalVar hij | hostVar hij | className hij | property hij =>
      simp only [code, hid, hscope hij]
    | call hf hxs hij =>
      have hcallee := hnode (by simp [Node.children]) hf
      have hargs := hall (by simp [Node.children]) hxs
      simp only [code, hscope hij, hcallee, hargs, application_eq_of_nodes hid hf]
    | new hf hxs hij =>
      have hcls := hnode (by simp [Node.children]) hf
      have hargs := hall (by simp [Node.children]) hxs
      simp only [code, hscope hij, hcls, hargs, target_eq_of_nodes hid hf]
    | @block xs ys n m i j hxs hf hij =>
      have hlast := hnode (by simp [Node.children]) hf
      have hstmts := hall (by simp [Node.children]) hxs
      have hempty : xs.isEmpty = ys.isEmpty := by cases hxs <;> rfl
      simp only [code, hscope hij, hlast, hstmts, hempty]
    | branch ha hb hc hij =>
      have ha := hnode (by simp [Node.children]) ha
      have hb := hnode (by simp [Node.children]) hb
      have hc := hnode (by simp [Node.children]) hc
      simp only [code, hscope hij, ha, hb, hc]
    | arraySet ha hb hc hij =>
      have htext := hnode (by simp [Node.children]) ha
      have hb := hnode (by simp [Node.children]) hb
      have hc := hnode (by simp [Node.children]) hc
      simp only [code, hscope hij, htext, hb, hc, subscript_eq_of_nodes ha]
    | @bindings bs cs n m i j hnames hvars hinits hbody hij =>
      have hbody := hnode (by simp [Node.children]) hbody
      have hinits := hall (by simp [Node.children]) hinits
      simp only [hid] at hvars
      have hassign := fun depth => assignments_congr config hvars (hinits depth)
      simp only [code, hscope hij, hbody, hassign]
    | function ha hij =>
      have ha := hnode (by simp [Node.children]) ha
      simp only [code, hrename, List.map_id, hscope hij, ha]
    | definition ha hij =>
      have ha := hnode (by simp [Node.children]) ha
      simp only [code, hid, hscope hij, ha]
    | throw ha hij =>
      have ha := hnode (by simp [Node.children]) ha
      simp only [code, hscope hij, ha]
    | loop ha hb hij =>
      have ha := hnode (by simp [Node.children]) ha
      have hb := hnode (by simp [Node.children]) hb
      simp only [code, hrename, Option.map_id, id_eq, hscope hij, ha, hb]
    | member ha hb hij =>
      have htext := hnode (by simp [Node.children]) ha
      have hb := hnode (by simp [Node.children]) hb
      simp only [code, hscope hij, htext, hb, target_eq_of_nodes hid ha]
    | arrayGet ha hb hij =>
      have htext := hnode (by simp [Node.children]) ha
      have hb := hnode (by simp [Node.children]) hb
      simp only [code, hscope hij, htext, hb, subscript_eq_of_nodes ha]
    | table hxs hij | array hxs hij | set hxs hij | tuple hxs hij =>
      have hitems := hall (by simp [Node.children]) hxs
      simp only [code, hscope hij, hitems]
    | methodCall hxs hij =>
      have hargs := hall (by simp [Node.children]) hxs
      simp only [code, hid, hargs]

theorem program_eq_of_nodes (hcontexts : v.contexts = true) (hcomments : config.locationComments = false)
    {ns ms : List Node} (h : List.Forall₂ v.Nodes ns ms) : program config ns = program config ms := by
  have hroots : ns.map (root config) = ms.map (root config) := by
    rw [← List.forall₂_eq_eq_eq, List.forall₂_map_left_iff, List.forall₂_map_right_iff]
    refine h.imp fun n m hnm => ?_
    unfold root
    rw [hcomments]
    exact code_eq_of_nodes hid config hcontexts hnm 0
  unfold program
  rw [hroots]

end Related

end Php

/-! ### Analysis asks for no places -/

/-- What an expansion says without places: the form, or the message and the causes of the failure,
and the number of drawn symbols. -/
def Expansion.unplaced (x : Expansion) : Except (String × List String) Form × Nat :=
  match x.result with
  | .ok f => (.ok f.unplaced, x.drawn)
  | .error e => (.error (e.message, e.causes), x.drawn)

/-- Whether an expander makes the same of calls that are the same, but for places. -/
def Expander.Placeless (expander : Expander) : Prop :=
  ∀ (call call' : Call) (drawn : Nat), call.toForm.unplaced = call'.toForm.unplaced →
    (expander call drawn).unplaced = (expander call' drawn).unplaced

theorem Expander.unplaced_argument {call call' : Call}
    (h : call.toForm.unplaced = call'.toForm.unplaced) (n : Nat) :
    (argument call n).unplaced = (argument call' n).unplaced := by
  have helements : call.elements.map Form.unplaced = call'.elements.map Form.unplaced := by
    obtain ⟨-, hxs, -⟩ := Form.tuple.inj h
    rwa [Form.unplacedAll_eq, Form.unplacedAll_eq] at hxs
  have hat : ∀ call : Call, (argument call n).unplaced =
      ((call.elements.map Form.unplaced)[n]?).getD .nil := by
    intro call
    rw [List.getElem?_map, show Form.nil = Form.nil.unplaced from rfl, Option.getD_map]
    rfl
  rw [hat, hat, helements]

theorem Expander.placeless_twice : twice.Placeless := by
  intro call call' drawn h
  have harg := unplaced_argument h 1
  simp only [twice, yield, Expansion.unplaced, Form.parens, Form.unplaced, Form.unplacedAll, harg]

/-- What a diagnostic says, wherever that is. -/
def Diagnostic.content (d : Diagnostic) : Code × String := (d.code, d.message)

theorem Diagnostic.Queue.mem_contents_add {q : Queue} {d : Diagnostic} {x : Code × String} :
    x ∈ (q.add d).entries.map content ↔ x ∈ q.entries.map content ∨ x = d.content := by
  simp only [entries_add, List.mem_map, Distinct.mem_add]
  constructor
  · rintro ⟨d', hd | rfl, rfl⟩
    · exact .inl ⟨d', hd, rfl⟩
    · exact .inr rfl
  · rintro (⟨d', hd, rfl⟩ | rfl)
    · exact ⟨d', .inl hd, rfl⟩
    · exact ⟨d, .inr rfl, rfl⟩

namespace Analysis

/-- States that differ in the places of warnings only, and in how often one is queued. -/
structure Unplaced (s t : State) : Prop where
  globals : s.globals = t.globals
  drawn : s.drawn = t.drawn
  nodes : s.nodes = t.nodes
  added : s.added = t.added
  warnings : ∀ x, x ∈ s.warnings.entries.map Diagnostic.content ↔
    x ∈ t.warnings.entries.map Diagnostic.content
  expanders : ∀ e ∈ s.globals.expanders, e.2.Placeless

namespace Unplaced

variable {s t s' t' : State}

theorem warn (h : Unplaced s t) (code : Code) (message : String) (p q : Option Span) :
    Unplaced (s.warned (.warning code message p)) (t.warned (.warning code message q)) := by
  refine ⟨h.globals, h.drawn, h.nodes, h.added, fun x => ?_, h.expanders⟩
  unfold State.warned
  rw [Diagnostic.Queue.mem_contents_add, Diagnostic.Queue.mem_contents_add, h.warnings]
  rfl

theorem define (h : Unplaced s t) (home name : String) :
    Unplaced (s.defining home name) (t.defining home name) := by
  refine ⟨?_, h.drawn, h.nodes, ?_, h.warnings, h.expanders⟩
  · rw [State.globals_defining, State.globals_defining, h.globals]
  · unfold State.defining
    rw [h.globals, h.added]

theorem withdraw (h : Unplaced s t) (h' : Unplaced s' t') :
    Unplaced (s'.withdraw s.added.length) (t'.withdraw t.added.length) := by
  refine ⟨?_, h'.drawn, h'.nodes, ?_, h'.warnings, ?_⟩
  · unfold State.withdraw
    rw [h'.globals, h'.added, h.added]
  · unfold State.withdraw
    rw [h'.added, h.added]
  · unfold State.withdraw
    rw [Globals.expanders_undefineAll]
    exact h'.expanders

/-- Calls that are the same without places are expanded alike. -/
theorem expand (h : Unplaced s t) {expander : Expander} (hplaceless : expander.Placeless)
    (name : Symbol) {call call' : Call} (hcall : View.placeless.Forms call.toForm call'.toForm) :
    Outcomes .placeless Unplaced (fun f g => True ∧ View.placeless.Forms f g)
      (Analysis.expand name expander call s) (Analysis.expand name expander call' t) := by
  have hsame := hplaceless call call' s.drawn (View.unplaced_of_forms hcall)
  unfold Analysis.expand
  rw [← h.drawn]
  generalize expander call s.drawn = x, expander call' s.drawn = y at hsame
  obtain ⟨result, drawn⟩ := x
  obtain ⟨result', drawn'⟩ := y
  obtain rfl : drawn = drawn' := by
    cases result <;> cases result' <;> exact congrArg Prod.snd hsame
  have hdraw : Unplaced (s.drawnTo (s.drawn + drawn)) (t.drawnTo (s.drawn + drawn)) :=
    ⟨h.globals, rfl, h.nodes, h.added, h.warnings, h.expanders⟩
  -- the result is moved to the call or not, which shows in its place only
  have hmoved : ∀ (f : Form) (p : Option Span),
      (if f.span.isNone then f.moveTo p else f).unplaced = f.unplaced := by
    intro f p
    split
    · exact f.unplaced_moveTo p
    · rfl
  cases result with
  | ok f =>
    cases result' with
    | ok g =>
      refine .ok ⟨trivial, View.forms_of_unplaced ?_⟩ hdraw
      rw [hmoved, hmoved]
      exact Except.ok.inj (congrArg Prod.fst hsame)
    | error e => cases hsame
  | error e =>
    cases result' with
    | ok g => cases hsame
    | error e' =>
      obtain ⟨hmessage, hcauses⟩ := Prod.ext_iff.1 (Except.error.inj (congrArg Prod.fst hsame))
      refine .failed ⟨?_, ?_, (fun h => nomatch h), (fun h => nomatch h)⟩ hdraw
      · exact (View.errors_fault _ (View.placeless_place call.span call'.span)).fault
      · exact congrArg₂ List.cons hmessage hcauses

end Unplaced

/-- **Analysis does not depend on places.** -/
theorem correspondence_placeless : Correspondence .placeless Unplaced fun _ _ => True where
  resolve h _ _ _ := by rw [h.globals]
  isDefined name h _ := by rw [h.globals]
  level h k := by
    rw [h.drawn]
    rfl
  nodes h _ := h.nodes
  draw {s t} n h := by
    refine ⟨h.globals, ?_, h.nodes, h.added, h.warnings, h.expanders⟩
    exact congrArg (· + n) h.drawn
  number h := by
    refine ⟨h.globals, h.drawn, ?_, h.added, h.warnings, h.expanders⟩
    exact congrArg (· + 1) h.nodes
  warn code message h _ := h.warn code message _ _
  define name h _ := h.define _ name
  withdraw h h' := h.withdraw h'
  expand h _ hcall hresolve := by
    obtain ⟨key, hmem⟩ := Globals.exists_of_resolve hresolve
    exact h.expand (h.expanders _ hmem) _ hcall
  part _ _ := trivial
  visible _ _ := rfl
  definedName _ _ _ := rfl
  wider _ _ := trivial
  holder _ _ _ := trivial
  index _ _ := trivial
  access _ _ _ := trivial

end Analysis

/-! ### Compilation -/

namespace Session

/-- Outcomes that differ in places only: the same code, with warnings that say the same, or errors
of the same kind with the same message and the same causes. -/
inductive SameButPlaces : Outcome → Outcome → Prop
  | ok {out out' : Output} :
    out.code = out'.code →
    (∀ code message, (∃ d ∈ out.warnings, d.code = code ∧ d.message = message) ↔
      ∃ d ∈ out'.warnings, d.code = code ∧ d.message = message) →
    SameButPlaces (.ok out) (.ok out')
  | failed {e e' : CompileError} :
    e.kind = e'.kind → e.message = e'.message → e.causes = e'.causes →
    SameButPlaces (.error (.failed e)) (.error (.failed e'))
  | exhausted : SameButPlaces (.error .exhausted) (.error .exhausted)

/-- **Places never influence the code.**  Two units that are the same without places are compiled
alike, if places are not written into the code and macros make nothing of them: both fail with the
same kind, message and causes, or both succeed with the same code and with warnings that say the
same; and the workspace afterwards is the same. -/
theorem compile_placeless (options : Options) (fs gs : List Form) (w : Workspace)
    (hcomments : options.emit.locationComments = false)
    (hmacros : ∀ e ∈ w.globals.expanders, e.2.Placeless)
    (hforms : fs.map Form.unplaced = gs.map Form.unplaced) :
    SameButPlaces (compile options fs w).1 (compile options gs w).1 ∧
      (compile options fs w).2 = (compile options gs w).2 := by
  have hrelated : List.Forall₂ View.placeless.Forms fs gs := by
    rw [← List.forall₂_eq_eq_eq, List.forall₂_map_left_iff, List.forall₂_map_right_iff] at hforms
    exact hforms.imp fun f g hfg => View.forms_of_unplaced hfg
  have hscope : View.placeless.Scopes (rootScope options) (rootScope options) :=
    ⟨rfl, rfl, fun _ => rfl, rfl⟩
  have hstart : Analysis.Unplaced (.start w.globals w.drawn) (.start w.globals w.drawn) :=
    ⟨rfl, rfl, rfl, rfl, fun _ => Iff.rfl, hmacros⟩
  have hxy := Analysis.correspondence_placeless.unit hscope (fun _ _ => trivial) hrelated hstart
    rfl rfl
  unfold compile compileIn
  generalize Analysis.unit fs (rootScope options) (.start w.globals w.drawn) = r,
    Analysis.unit gs (rootScope options) (.start w.globals w.drawn) = q at hxy
  have hworkspace : ∀ {s t : Analysis.State}, Analysis.Unplaced s t →
      (⟨s.globals, s.drawn⟩ : Workspace) = ⟨t.globals, t.drawn⟩ := by
    intro s t h
    rw [h.globals, h.drawn]
  cases hxy with
  | @ok ns ms s t hns h =>
    refine ⟨.ok ?_ fun code message => ?_, hworkspace h⟩
    · exact Php.program_eq_of_nodes (fun _ => rfl) _ rfl hcomments hns
    · simpa only [List.mem_map, Diagnostic.content, Prod.mk.injEq, Diagnostic.Queue.flush] using
        h.warnings (code, message)
  | @failed e e' s t he h =>
    refine ⟨.failed ?_ ?_ he.causes, hworkspace h⟩
    · exact congrArg Fault.kind he.fault
    · exact congrArg Fault.message he.fault
  | exhausted h => exact ⟨.exhausted, hworkspace h⟩

/-- Two calls of a macro, each at its place. -/
def echoes (p q : Option Span) : List Form :=
  [.tuple .paren [.name "twice", .int 1] p, .tuple .paren [.name "twice", .int 1] q]

/-- A workspace with one macro. -/
def echoing : Workspace := .new ((default : Globals).addExpander "user" "twice" Expander.twice)

/-- A line of a file. -/
def lineSpan (line : UInt32) : Option Span := some (.point ⟨"a.lark", line, 1⟩)

/-- The warning about the discarded value is queued twice if the calls stand at two places. -/
theorem compile_placeless_echoes :
    Options.standard.emit.locationComments = false ∧
      (∀ e ∈ echoing.globals.expanders, e.2.Placeless) ∧
      (echoes (lineSpan 1) (lineSpan 1)).map Form.unplaced =
        (echoes (lineSpan 1) (lineSpan 2)).map Form.unplaced ∧
      ((compile .standard (echoes (lineSpan 1) (lineSpan 1)) echoing).1.map
        fun out => out.warnings.length).toOption = some 1 ∧
      ((compile .standard (echoes (lineSpan 1) (lineSpan 2)) echoing).1.map
        fun out => out.warnings.length).toOption = some 2 ∧
      SameButPlaces (compile .standard (echoes (lineSpan 1) (lineSpan 1)) echoing).1
        (compile .standard (echoes (lineSpan 1) (lineSpan 2)) echoing).1 := by
  have hmacros : ∀ e ∈ echoing.globals.expanders, e.2.Placeless :=
    List.forall_mem_singleton.2 Expander.placeless_twice
  have hforms : (echoes (lineSpan 1) (lineSpan 1)).map Form.unplaced =
      (echoes (lineSpan 1) (lineSpan 2)).map Form.unplaced := rfl
  refine ⟨rfl, hmacros, hforms, by decide +kernel, by decide +kernel, ?_⟩
  exact (compile_placeless .standard _ _ echoing rfl hmacros hforms).1

end Session

end LarkPhp
