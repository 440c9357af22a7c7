import Bracemark.Proofs.Passes
import Mathlib.Data.Fintype.Pigeonhole
import Mathlib.Logic.Relation

/-!
# Macros that use macros

A document of macros is a list of definitions with a text behind it, where the bodies and the text
are plain text and uses of the macros. Which macros there are is known from the start, so a body may
use its own macro and those that are defined behind it.

The first pass takes the definitions out and puts the body of its macro in the place of every use of
the text, and so does every later pass with the uses that the bodies have brought along
(`MacroDocument.pass_leads`). Passes end if no macro that is reached from the text uses itself, be
it through others: then every use is replaced after as many passes as there are macros at most, as a
longer way through the bodies comes to some macro twice (`MacroDocument.loops_of_path`). If one does,
there is always a use left, and the run ends at its bound (`preprocess_macros`).
-/

namespace Bracemark

/-! ## Tables -/

namespace Macros

theorem body?_define_self (m : Macros) (name body : Text) :
    Macros.body? (m.define name body) name = some body := by
  unfold define body?
  rw [List.lookup_cons_self]

/-- A definition leaves the other macros alone. -/
theorem body?_define_of_ne {name other : Text} (h : other ≠ name) (m : Macros) (body : Text) :
    Macros.body? (m.define name body) other = m.body? other := by
  have hne {k : Text} (hk : other ≠ k) : (other == k) = false := beq_eq_false_iff_ne.2 hk
  unfold define body?
  simp only [List.lookup_cons, hne h]
  induction m with
  | nil => rfl
  | cons entry m ih =>
    obtain ⟨k, b⟩ := entry
    by_cases hk : k = name
    · subst hk
      rw [List.filter_cons_of_neg (by simp), List.lookup_cons, hne h]
      exact ih
    · rw [List.filter_cons_of_pos (by simpa using hk), List.lookup_cons, List.lookup_cons, ih]

end Macros

/-! ## Parts of a run that define macros -/

namespace Run

variable {α β : Type}

/-- From every state with the table `m` in which no substitution waits, `x` gives `v` and leaves the
table `m'`. Apart from that it at most notes progress and warns. -/
def Leads (x : Run α) (m : Macros) (v : α) (m' : Macros) : Prop :=
  ∀ s, s.macros = m → s.pending = [] →
    ∃ t, x s = .ok v t ∧ t.macros = m' ∧ t.pending = [] ∧ t.passes = s.passes

theorem Yields.leads {x : Run α} {v : α} (h : x.Yields v) (m : Macros) : x.Leads m v m := by
  intro s hm hs
  obtain ⟨t, hx, hst⟩ := h s hs
  exact ⟨t, hx, hst.macros.trans hm, hst.pending.trans hs, hst.passes⟩

theorem Leads.bind {x : Run α} {f : α → Run β} {v : α} {w : β} {m m' m'' : Macros}
    (hx : x.Leads m v m') (hf : (f v).Leads m' w m'') : (x >>= f).Leads m w m'' := by
  intro s hm hs
  obtain ⟨t, hxt, htm, htp, htn⟩ := hx s hm hs
  obtain ⟨u, hfu, hum, hup, hun⟩ := hf t htm htp
  exact ⟨u, (bind_of_ok hxt).trans hfu, hum, hup, hun.trans htn⟩

end Run

/-- The stage of macros turns the part `u` of any buffer into `v`, and the table `m` into `m'`. -/
def Transforms (ctx : Context) (m : Macros) (u v : Text) (m' : Macros) : Prop :=
  ∃ ws, Cuts (Stretch.step .macros) u ws ∧
    ∀ buffer start, (Stretch.resolve ctx buffer start ws).Leads m v m'

namespace Transforms

variable {ctx : Context} {m m' m'' : Macros} {u v u' v' : Text}

theorem of_rewrites (h : Rewrites ctx .macros u v) (m : Macros) : Transforms ctx m u v m := by
  obtain ⟨ws, hcut, hres⟩ := h
  exact ⟨ws, hcut, fun buffer start => (hres buffer start).leads m⟩

theorem append (h : Transforms ctx m u v m') (h' : Transforms ctx m' u' v' m'') :
    Transforms ctx m (u ++ u') (v ++ v') m'' := by
  obtain ⟨ws, hcut, hres⟩ := h
  obtain ⟨ws', hcut', hres'⟩ := h'
  refine ⟨ws ++ ws', hcut.append hcut', fun buffer start => ?_⟩
  rw [Stretch.resolve_append]
  exact (hres buffer start).bind ((hres' buffer _).bind ((Run.Yields.pure _).leads m''))

/-- A definition or a use is replaced by its text. -/
theorem site {d : Directive} {us : List Text} (hfamily : d.family = .macros)
    (harity : us.length = d.arity) (hnested : ∀ u ∈ us, u.Nested)
    (h : ∀ start stop line, (Resolve.site ctx ⟨d, start, stop, line, us⟩).Leads m v m') :
    Transforms ctx m (d.written us) v m' := by
  have hwaits : d.waits = false := by
    cases d
    case format => cases hfamily
    all_goals rfl
  have hcut := Stretch.cuts_site harity hnested (by rw [hwaits]; rfl)
  rw [hfamily] at hcut
  refine ⟨[.site d us (d.written us)], hcut, fun buffer start => ?_⟩
  rw [Stretch.resolve, Stretch.resolve]
  refine (h start _ (buffer.lineAt start)).bind ?_
  simp only [pure_bind, List.append_nil]
  exact (Run.Yields.pure v).leads m'

theorem define {name body : Text} (hname : name.Nested) (hbody : body.Nested) (m : Macros) :
    Transforms ctx m (Directive.defineMacro.written [name, body]) [] (m.define name.trim body) := by
  refine site rfl rfl (by simp [hname, hbody]) fun start stop line => ?_
  intro s hm hs
  refine ⟨{ s with
    macros := s.macros.define name.trim body
    progress := s.progress.push (.definedMacro name.trim) }, rfl, ?_, hs, rfl⟩
  rw [← hm]

theorem use {name body : Text} (hname : name.Nested) (h : m.body? name.trim = some body) :
    Transforms ctx m (Directive.useMacro.written [name]) body m := by
  refine site rfl rfl (by simp [hname]) fun start stop line => ?_
  intro s hm hs
  subst hm
  refine ⟨s, ?_, rfl, hs, rfl⟩
  unfold Resolve.site
  refine (bind_of_ok rfl).trans ?_
  simp only [Site.first, List.headD_cons, h]
  rfl

theorem stage_leads (h : Transforms ctx m u v m') (hplain : '\\' ∉ v) (hnested : v.Nested) :
    (Preprocess.stage ctx u .macros).Leads m v m' := by
  obtain ⟨ws, hcut, hres⟩ := h
  have hfamily : (Resolve.family ctx .macros u).Leads m v m' := by
    intro s
    rw [Resolve.family_eq, Stretch.ofText, hcut.segment_eq]
    revert s
    refine (hres u 0).bind ?_
    split
    · exact ((Run.Yields.note _).bind (.pure v)).leads m'
    · exact (Run.Yields.pure v).leads m'
  have hsettle := Preprocess.settle_yields ctx hplain hnested
  have hmacros : Family.macros ≠ .replacements := by decide
  rw [Preprocess.stage_eq, Preprocess.bareStage_of_ne hmacros]
  exact hfamily.bind ((hsettle.bind ((Run.Yields.note _).bind (.pure v))).leads m')

end Transforms

/-! ## Documents of macros -/

/-- A piece of a text with macros: plain text, or the use of one of `n` macros. -/
inductive Fragment (n : Nat) where
  | plain (t : Text) (inert : t.Inert)
  | use (i : Fin n)

/-- Definitions of `n` macros with a text behind them. -/
structure MacroDocument (n : Nat) where
  names : Fin n → Text
  inert : ∀ i, (names i).Inert
  distinct : ∀ i j, (names i).trim = (names j).trim → i = j
  bodies : Fin n → List (Fragment n)
  text : List (Fragment n)

namespace MacroDocument

variable {n : Nat} (d : MacroDocument n)

def writePiece : Fragment n → Text
  | .plain t _ => t
  | .use i => Directive.useMacro.written [d.names i]

def write (es : List (Fragment n)) : Text := es.flatMap d.writePiece

def writeDefinition (i : Fin n) : Text :=
  Directive.defineMacro.written [d.names i, d.write (d.bodies i)]

/-- A document of macros as it is written. -/
def source : Text := (List.finRange n).flatMap d.writeDefinition ++ d.write d.text

/-- The body of a macro uses a macro. -/
def Uses (i j : Fin n) : Prop := .use j ∈ d.bodies i

/-- A macro that uses itself, perhaps through others, is reached from a text. -/
def Loops (es : List (Fragment n)) : Prop :=
  ∃ i j, .use i ∈ es ∧ Relation.ReflTransGen d.Uses i j ∧ Relation.TransGen d.Uses j j

/-- What a text expands to: every use is replaced by what the body of its macro expands to. -/
inductive Expands : List (Fragment n) → Text → Prop where
  | nil : Expands [] []
  | plain {t : Text} (inert : t.Inert) {es : List (Fragment n)} {v : Text} (rest : Expands es v) :
      Expands (.plain t inert :: es) (t ++ v)
  | use {i : Fin n} {es : List (Fragment n)} {u v : Text} (body : Expands (d.bodies i) u)
      (rest : Expands es v) : Expands (.use i :: es) (u ++ v)

/-- What a pass makes of a text: every use is replaced by the body of its macro, once. -/
def step (es : List (Fragment n)) : List (Fragment n) :=
  es.flatMap fun
    | .plain t inert => [.plain t inert]
    | .use i => d.bodies i

/-- A table with a macro of the document in it. -/
def define (m : Macros) (i : Fin n) : Macros := m.define (d.names i).trim (d.write (d.bodies i))

/-- The table of the macros once all of them are defined. -/
def table : Macros := (List.finRange n).foldl d.define []

variable {d} {es : List (Fragment n)} {i j : Fin n} {v w : Text}

/-! ## Expansion -/

/-- A text expands to one text at most. -/
theorem Expands.unique (h : d.Expands es v) (h' : d.Expands es w) : v = w := by
  induction h generalizing w with
  | nil =>
    cases h'
    rfl
  | plain inert _ ih =>
    cases h' with
    | plain _ rest => rw [ih rest]
  | use _ _ ihbody ih =>
    cases h' with
    | use body rest => rw [ihbody body, ih rest]

/-- What is left of an expansion in front is an expansion. -/
theorem Expands.split {fs : List (Fragment n)} (h : d.Expands (es ++ fs) v) :
    ∃ u w, v = u ++ w ∧ d.Expands es u ∧ d.Expands fs w := by
  induction es generalizing v with
  | nil => exact ⟨[], v, rfl, .nil, h⟩
  | cons e es ih =>
    cases h with
    | @plain t inert _ v rest =>
      obtain ⟨u, w, rfl, hes, hfs⟩ := ih rest
      exact ⟨t ++ u, w, (List.append_assoc t u w).symm, .plain inert hes, hfs⟩
    | @use i _ b v body rest =>
      obtain ⟨u, w, rfl, hes, hfs⟩ := ih rest
      exact ⟨b ++ u, w, (List.append_assoc b u w).symm, .use body hes, hfs⟩

/-- A text expands to what it expands to once its uses are replaced. -/
theorem expands_of_step (h : d.Expands (d.step es) v) : d.Expands es v := by
  induction es generalizing v with
  | nil => exact h
  | cons e es ih =>
    unfold MacroDocument.step at h
    rw [List.flatMap_cons] at h
    obtain ⟨u, w, rfl, hhead, hrest⟩ := h.split
    have hrest := ih hrest
    cases e with
    | plain t inert =>
      cases hhead with
      | plain _ hnil =>
        cases hnil
        rw [List.append_nil]
        exact .plain inert hrest
    | use i => exact .use hhead hrest

/-- A text without uses expands to itself. -/
theorem expands_write (h : ∀ i, .use i ∉ es) : d.Expands es (d.write es) := by
  induction es with
  | nil => exact .nil
  | cons e es ih =>
    have hrest := ih fun i hi => h i (List.mem_cons_of_mem _ hi)
    cases e with
    | plain t inert => exact .plain inert hrest
    | use i => exact absurd List.mem_cons_self (h i)

/-! ## Reaching macros -/

theorem use_mem_step : .use j ∈ d.step es ↔ ∃ i, .use i ∈ es ∧ d.Uses i j := by
  unfold MacroDocument.step Uses
  rw [List.mem_flatMap]
  constructor
  · rintro ⟨e, he, hj⟩
    cases e with
    | plain t inert => cases List.mem_singleton.1 hj
    | use i => exact ⟨i, he, hj⟩
  · rintro ⟨i, hi, hj⟩
    exact ⟨.use i, hi, hj⟩

/-- A text that reaches a loop has a use, and still reaches it when its uses are replaced. -/
theorem Loops.step (h : d.Loops es) : d.Loops (d.step es) := by
  obtain ⟨i, j, hi, hij, hjj⟩ := h
  rcases Relation.ReflTransGen.cases_head hij with rfl | ⟨k, hik, hkj⟩
  · obtain ⟨k, hik, hki⟩ := Relation.TransGen.head'_iff.1 hjj
    exact ⟨k, i, use_mem_step.2 ⟨i, hi, hik⟩, hki, hjj⟩
  · exact ⟨k, j, use_mem_step.2 ⟨i, hi, hik⟩, hkj, hjj⟩

/-- A use that is left after some passes ends a way of as many steps from a use of the text. -/
theorem exists_path {k : Nat} (h : .use j ∈ d.step^[k] es) :
    ∃ p : Nat → Fin n, .use (p 0) ∈ es ∧ ∀ m < k, d.Uses (p m) (p (m + 1)) := by
  induction k generalizing es with
  | zero => exact ⟨fun _ => j, h, nofun⟩
  | succ k ih =>
    rw [Function.iterate_succ_apply] at h
    obtain ⟨p, hfirst, hsteps⟩ := ih h
    obtain ⟨i, hi, huses⟩ := use_mem_step.1 hfirst
    refine ⟨fun m => if m = 0 then i else p (m - 1), hi, ?_⟩
    intro m hm
    cases m with
    | zero => exact huses
    | succ m => exact hsteps m (by omega)

theorem reaches_of_path {p : Nat → Fin n} {k : Nat} (hsteps : ∀ m < k, d.Uses (p m) (p (m + 1)))
    {a b : Nat} (hab : a ≤ b) (hb : b ≤ k) : Relation.ReflTransGen d.Uses (p a) (p b) := by
  induction b with
  | zero =>
    obtain rfl : a = 0 := by omega
    exact .refl
  | succ b ih =>
    by_cases ha : a = b + 1
    · subst ha
      exact .refl
    · exact (ih (by omega) (by omega)).tail (hsteps b (by omega))

/-- A way of as many steps as there are macros comes to one of them twice. -/
theorem loops_of_path {p : Nat → Fin n} (hfirst : .use (p 0) ∈ es)
    (hsteps : ∀ m < n, d.Uses (p m) (p (m + 1))) : d.Loops es := by
  obtain ⟨a, b, hne, heq⟩ := Fintype.exists_ne_map_eq_of_card_lt
    (fun m : Fin (n + 1) => p m) (by simp)
  wlog hab : a < b generalizing a b
  · exact this b a hne.symm heq.symm (lt_of_le_of_ne (not_lt.1 hab) hne.symm)
  have hab : a.val < b.val := hab
  have hb := b.isLt
  have hreach := reaches_of_path hsteps (Nat.zero_le a.val) (by omega)
  have hback := reaches_of_path hsteps (a := a.val + 1) (b := b.val) (by omega) (by omega)
  refine ⟨p 0, p a, hfirst, hreach, Relation.TransGen.head' (hsteps a (by omega)) ?_⟩
  have heq : p a = p b := heq
  rwa [← heq] at hback

/-- Without a loop no use is left after as many passes as there are macros. -/
theorem use_notMem_of_not_loops (h : ¬d.Loops es) (j : Fin n) : .use j ∉ d.step^[n] es := by
  intro hj
  obtain ⟨p, hfirst, hsteps⟩ := exists_path hj
  exact h (loops_of_path hfirst hsteps)

/-! ## Texts as they are written -/

theorem nested_write (d : MacroDocument n) (es : List (Fragment n)) : (d.write es).Nested := by
  unfold write
  induction es with
  | nil => rfl
  | cons e es ih =>
    rw [List.flatMap_cons]
    refine Text.Nested.append ?_ ih
    cases e with
    | plain t inert => exact inert.nested
    | use i => exact Directive.nested_written _ (by simp [(d.inert i).nested])

theorem notMem_write (d : MacroDocument n) (es : List (Fragment n)) : '\\' ∉ d.write es := by
  intro hm
  obtain ⟨e, -, he⟩ := List.mem_flatMap.1 hm
  cases e with
  | plain t inert => exact inert.notMem rfl he
  | use i =>
    have hname := (d.inert i).notMem (c := '\\') rfl
    exact Directive.notMem_written _ (by simp [hname]) he

theorem hasDirective_write : (d.write es).hasDirective = true ↔ ∃ i, .use i ∈ es := by
  constructor
  · intro h
    by_contra hnone
    have hplain : '.' ∉ d.write es := by
      intro hm
      obtain ⟨e, he, hstop⟩ := List.mem_flatMap.1 hm
      cases e with
      | plain t inert => exact inert.notMem rfl hstop
      | use i => exact hnone ⟨i, he⟩
    rw [Text.hasDirective_of_notMem hplain] at h
    cases h
  · rintro ⟨i, hi⟩
    obtain ⟨before, behind, rfl⟩ := List.append_of_mem hi
    unfold write
    rw [List.flatMap_append, List.flatMap_cons, Text.hasDirective_iff]
    refine ⟨_, List.suffix_append .., ?_⟩
    rw [writePiece, Directive.directive?_written rfl]
    rfl

/-! ## Passes -/

variable {ctx : Context} {m : Macros} {s : RunState}

/-- Definitions put a macro into the table, wherever in them it is defined. -/
theorem body?_definitions (d : MacroDocument n) {is : List (Fin n)} {m : Macros}
    (h : i ∈ is ∨ m.body? (d.names i).trim = some (d.write (d.bodies i))) :
    Macros.body? (is.foldl d.define m) (d.names i).trim = some (d.write (d.bodies i)) := by
  induction is generalizing m with
  | nil => exact h.resolve_left List.not_mem_nil
  | cons j is ih =>
    refine ih ?_
    unfold define
    by_cases hij : i = j
    · subst hij
      exact .inr (Macros.body?_define_self ..)
    · have hne : (d.names i).trim ≠ (d.names j).trim := fun h => hij (d.distinct i j h)
      rw [Macros.body?_define_of_ne hne]
      exact h.imp_left fun hi => (List.mem_cons.1 hi).resolve_left hij

theorem body?_table (d : MacroDocument n) (i : Fin n) :
    d.table.body? (d.names i).trim = some (d.write (d.bodies i)) :=
  d.body?_definitions (.inl (List.mem_finRange i))

/-- The definitions are taken out of a document, and their macros put into the table. -/
theorem transforms_definitions (ctx : Context) (d : MacroDocument n) (is : List (Fin n))
    (m : Macros) : Transforms ctx m (is.flatMap d.writeDefinition) [] (is.foldl d.define m) := by
  induction is generalizing m with
  | nil => exact .of_rewrites (.kept List.not_mem_nil) m
  | cons i is ih =>
    rw [List.flatMap_cons]
    exact (Transforms.define (d.inert i).nested (d.nested_write _) m).append (ih _)

/-- Every use of a text is replaced by the body of its macro. -/
theorem transforms_write (ctx : Context) (d : MacroDocument n) (es : List (Fragment n)) :
    Transforms ctx d.table (d.write es) (d.write (d.step es)) d.table := by
  unfold write MacroDocument.step
  induction es with
  | nil => exact .of_rewrites (.kept List.not_mem_nil) _
  | cons e es ih =>
    rw [List.flatMap_cons, List.flatMap_cons, List.flatMap_append]
    refine Transforms.append ?_ ih
    cases e with
    | plain t inert =>
      have hkept : Rewrites ctx .macros t t := .kept (inert.notMem rfl)
      simpa [writePiece] using Transforms.of_rewrites hkept d.table
    | use i => exact .use (d.inert i).nested (d.body?_table i)

/-- The other stages leave a text with uses as it is. -/
theorem stage_yields (ctx : Context) (d : MacroDocument n) (es : List (Fragment n)) {f : Family}
    (hf : f ≠ .macros) : (Preprocess.stage ctx (d.write es) f).Yields (d.write es) := by
  have hrewrites : Rewrites ctx f (d.write es) (d.write es) := by
    unfold write
    induction es with
    | nil => exact .kept List.not_mem_nil
    | cons e es ih =>
      rw [List.flatMap_cons]
      refine Rewrites.append ?_ ih
      cases e with
      | plain t inert => exact .kept (inert.notMem rfl)
      | use i =>
        have hname := d.inert i
        refine Rewrites.waiting (d := .useMacro) [(d.names i, d.names i)] rfl ?_
          (.inl fun h => hf h.symm) ?_
        · simp [hname.nested]
        · simp [Rewrites.kept (hname.notMem (c := '.') rfl)]
  exact Preprocess.stage_yields hrewrites (d.notMem_write es) (d.nested_write es)

/-- A pass does what its stage of macros does. -/
theorem pass_leads {u : Text} {m' : Macros} (h : Transforms ctx m u (d.write es) m') :
    (Preprocess.pass ctx u).Leads m (d.write es) m' := by
  have hmacros := h.stage_leads (d.notMem_write es) (d.nested_write es)
  have hincludes := stage_yields ctx d es (f := .includes) (by decide)
  have htables := stage_yields ctx d es (f := .tables) (by decide)
  have hlinks := stage_yields ctx d es (f := .links) (by decide)
  have hformats := stage_yields ctx d es (f := .formats) (by decide)
  have hcodePoints := stage_yields ctx d es (f := .codePoints) (by decide)
  have hreplacements := stage_yields ctx d es (f := .replacements) (by decide)
  refine hmacros.bind (Run.Yields.leads ?_ m')
  exact hincludes.bind <| htables.bind <| hlinks.bind <| hformats.bind <| hcodePoints.bind <|
    hreplacements.bind (.pure (d.write es))

/-! ## Runs of passes -/

/-- A pass within the bound, from a buffer with a directive on. -/
theorem converge_of_leads {u w : Text} {m' : Macros} (hdirective : u.hasDirective = true)
    (hpass : (Preprocess.pass ctx u).Leads m w m') (hm : s.macros = m) (hs : s.pending = [])
    (hlimit : s.passes < ctx.settings.maxPasses) (fuel : Nat) :
    ∃ s', Preprocess.converge ctx (fuel + 1) u s = Preprocess.converge ctx fuel w s' ∧
      s'.macros = m' ∧ s'.pending = [] ∧ s'.passes = s.passes + 1 := by
  obtain ⟨s', hw, hmacros, hpending, hpasses⟩ := hpass s.nextPass hm hs
  refine ⟨s', ?_, hmacros, hpending, hpasses⟩
  rw [Preprocess.converge_of_hasDirective hdirective,
    bind_of_ok (Preprocess.beginPass_eq ctx (.inr hlimit)), bind_of_ok hw]

/-- If no use is left after some passes, then these many passes end with the expansion. -/
theorem converge_of_use_notMem {k fuel : Nat} (h : ∀ i, .use i ∉ d.step^[k] es)
    (hm : s.macros = d.table) (hs : s.pending = []) (hfuel : k ≤ fuel)
    (hlimit : s.passes + k ≤ ctx.settings.maxPasses) :
    ∃ v s', Preprocess.converge ctx fuel (d.write es) s = .ok v s' ∧ d.Expands es v ∧
      s'.passes ≤ s.passes + k := by
  induction k generalizing fuel es s with
  | zero =>
    have hdirective : (d.write es).hasDirective = false := by
      rw [Bool.eq_false_iff]
      intro hdirective
      obtain ⟨i, hi⟩ := hasDirective_write.1 hdirective
      exact h i hi
    refine ⟨d.write es, s, ?_, expands_write h, Nat.le_refl _⟩
    rw [Preprocess.converge_of_resolved hdirective]
    rfl
  | succ k ih =>
    by_cases hdirective : (d.write es).hasDirective = true
    · obtain ⟨fuel, rfl⟩ := Nat.exists_eq_add_of_le' (show 1 ≤ fuel by omega)
      obtain ⟨s₁, hconverge, hm₁, hs₁, hpasses⟩ := converge_of_leads hdirective
        (pass_leads (transforms_write ctx d es)) hm hs (by omega) fuel
      have hfuel : k ≤ fuel := by omega
      obtain ⟨v, s', hv, hexpands, hle⟩ := ih h hm₁ hs₁ hfuel (by omega)
      exact ⟨v, s', hconverge.trans hv, expands_of_step hexpands, by omega⟩
    · have hnone : ∀ i, .use i ∉ es := fun i hi => hdirective (hasDirective_write.2 ⟨i, hi⟩)
      refine ⟨d.write es, s, ?_, expands_write hnone, Nat.le_add_right ..⟩
      rw [Preprocess.converge_of_resolved (Bool.eq_false_iff.2 hdirective)]
      rfl

/-- From a text that reaches a loop a run goes on until it comes to its bound. -/
theorem converge_of_loops {fuel : Nat} (h : d.Loops es) (hm : s.macros = d.table)
    (hs : s.pending = []) (hbound : 0 < ctx.settings.maxPasses)
    (hlimit : s.passes ≤ ctx.settings.maxPasses)
    (hfuel : ctx.settings.maxPasses < s.passes + fuel) :
    ∃ s', Preprocess.converge ctx fuel (d.write es) s =
      .error (.diagnostic ⟨.directive, ctx.path, none,
        .notConverged ctx.settings.maxPasses⟩) s' := by
  induction fuel generalizing es s with
  | zero => omega
  | succ fuel ih =>
    have hdirective : (d.write es).hasDirective = true := by
      obtain ⟨i, -, hi, -⟩ := h
      exact hasDirective_write.2 ⟨i, hi⟩
    by_cases hlast : ctx.settings.maxPasses ≤ s.passes
    · rw [Preprocess.converge_of_hasDirective hdirective]
      exact ⟨_, bind_of_error (Preprocess.beginPass_eq_error ctx hbound hlast)⟩
    · obtain ⟨s₁, hconverge, hm₁, hs₁, hpasses⟩ := converge_of_leads hdirective
        (pass_leads (transforms_write ctx d es)) hm hs (by omega) fuel
      obtain ⟨s', hs'⟩ := ih h.step hm₁ hs₁ (by omega) (by omega)
      exact ⟨s', hconverge.trans hs'⟩

/-! ## Whole runs -/

theorem nested_source (d : MacroDocument n) : d.source.Nested := by
  unfold source
  refine Text.Nested.append ?_ (d.nested_write d.text)
  induction List.finRange n with
  | nil => rfl
  | cons i is ih =>
    rw [List.flatMap_cons]
    refine Text.Nested.append (Directive.nested_written _ ?_) ih
    simp [(d.inert i).nested, d.nested_write]

theorem notMem_source (d : MacroDocument n) : '\\' ∉ d.source := by
  unfold source
  refine List.not_mem_append ?_ (d.notMem_write d.text)
  intro hm
  obtain ⟨i, -, hi⟩ := List.mem_flatMap.1 hm
  have hname := (d.inert i).notMem (c := '\\') rfl
  exact Directive.notMem_written _ (by simp [hname, d.notMem_write]) hi

/-- A document with a macro begins with a definition. -/
theorem hasDirective_source (d : MacroDocument n) (hn : 0 < n) : d.source.hasDirective = true := by
  obtain ⟨n, rfl⟩ := Nat.exists_eq_add_of_le' hn
  rw [Text.hasDirective_iff]
  refine ⟨d.source, List.suffix_rfl, ?_⟩
  unfold source
  rw [List.finRange_succ, List.flatMap_cons, List.append_assoc, writeDefinition,
    Directive.directive?_written rfl]
  rfl

/-- The first pass takes the definitions out of a document, and goes on with its text as every
pass does. -/
theorem preprocess_eq (ctx : Context) (d : MacroDocument n) (hn : 0 < n)
    (hbound : 0 < ctx.settings.maxPasses) :
    ∃ s, s.macros = d.table ∧ s.pending = [] ∧ s.passes = 1 ∧
      preprocess ctx d.source = (do
        let v ← Preprocess.converge ctx ctx.settings.maxPasses (d.write (d.step d.text))
        Run.note (.passesDone (← get).passes)
        return v : Run Text) s := by
  obtain ⟨s₁, hsettle, hs₁⟩ :=
    Preprocess.settle_yields ctx d.notMem_source d.nested_source {} rfl
  have hmacros : s₁.macros = [] := hs₁.macros
  have hpasses : s₁.passes = 0 := hs₁.passes
  have hfirst : Transforms ctx [] d.source (d.write (d.step d.text)) d.table :=
    (transforms_definitions ctx d (List.finRange n) []).append (transforms_write ctx d d.text)
  obtain ⟨s₂, hconverge, hm, hs, hcount⟩ := converge_of_leads (d.hasDirective_source hn)
    (pass_leads hfirst) hmacros hs₁.pending (by omega) ctx.settings.maxPasses
  have hfuel : Preprocess.fuel ctx = ctx.settings.maxPasses + 1 := by
    unfold Preprocess.fuel
    rw [if_neg (Nat.ne_of_gt hbound)]
  refine ⟨s₂, hm, hs, by omega, ?_⟩
  unfold preprocess
  rw [EStateM.run, Preprocess.source_eq, bind_of_ok hsettle, hfuel]
  cases hresult : Preprocess.converge ctx ctx.settings.maxPasses (d.write (d.step d.text)) s₂ with
  | ok v s₃ => rw [bind_of_ok (hconverge.trans hresult), bind_of_ok hresult]
  | error e s₃ => rw [bind_of_error (hconverge.trans hresult), bind_of_error hresult]

end MacroDocument

/-- Preprocessing a document of macros succeeds just if its text reaches no loop, and then it gives
the expansion of the text after no more passes than there are macros. Otherwise it ends at the bound
on passes. -/
theorem preprocess_macros (ctx : Context) {n : Nat} (d : MacroDocument n) (hn : 0 < n)
    (hbound : n ≤ ctx.settings.maxPasses) :
    ((∃ v s, preprocess ctx d.source = .ok v s) ↔ ¬d.Loops d.text) ∧
    (∀ v s, preprocess ctx d.source = .ok v s →
      (∀ w, d.Expands d.text w ↔ w = v) ∧ s.passes ≤ n) ∧
    (d.Loops d.text → ∃ s, preprocess ctx d.source =
      .error (.diagnostic ⟨.directive, ctx.path, none,
        .notConverged ctx.settings.maxPasses⟩) s) := by
  obtain ⟨s₁, hm, hs, hpasses, hrun⟩ := d.preprocess_eq ctx hn (by omega)
  have hloops (h : d.Loops d.text) : ∃ s, preprocess ctx d.source =
      .error (.diagnostic ⟨.directive, ctx.path, none,
        .notConverged ctx.settings.maxPasses⟩) s := by
    have hfuel : ctx.settings.maxPasses < s₁.passes + ctx.settings.maxPasses := by omega
    obtain ⟨s, hconverge⟩ :=
      MacroDocument.converge_of_loops h.step hm hs (by omega) (by omega) hfuel
    exact ⟨s, hrun.trans (bind_of_error hconverge)⟩
  have hends (h : ¬d.Loops d.text) : ∃ v s, preprocess ctx d.source = .ok v s ∧
      d.Expands d.text v ∧ s.passes ≤ n := by
    have hnone := MacroDocument.use_notMem_of_not_loops h
    obtain ⟨k, rfl⟩ := Nat.exists_eq_add_of_le' hn
    have hnone : ∀ i, .use i ∉ d.step^[k] (d.step d.text) := hnone
    have hfuel : k ≤ ctx.settings.maxPasses := by omega
    have hlimit : s₁.passes + k ≤ ctx.settings.maxPasses := by omega
    obtain ⟨v, s, hconverge, hexpands, hle⟩ :=
      MacroDocument.converge_of_use_notMem hnone hm hs hfuel hlimit
    refine ⟨v, _, hrun.trans (bind_of_ok hconverge), MacroDocument.expands_of_step hexpands, ?_⟩
    simp only
    omega
  refine ⟨⟨?_, ?_⟩, ?_, hloops⟩
  · rintro ⟨v, s, hv⟩ h
    obtain ⟨s', hfailed⟩ := hloops h
    rw [hfailed] at hv
    cases hv
  · intro h
    obtain ⟨v, s, hv, -⟩ := hends h
    exact ⟨v, s, hv⟩
  · intro v s hv
    by_cases h : d.Loops d.text
    · obtain ⟨s', hfailed⟩ := hloops h
      rw [hfailed] at hv
      cases hv
    · obtain ⟨v', s', hv', hexpands, hle⟩ := hends h
      rw [hv'] at hv
      cases hv
      refine ⟨fun w => ⟨fun hw => hw.unique hexpands, ?_⟩, hle⟩
      rintro rfl
      exact hexpands

/-- A macro `a` that uses the macro `b`, which is defined behind it. -/
def MacroDocument.forward : MacroDocument 2 where
  names i := if i = 0 then ['a'] else ['b']
  inert := by decide
  distinct := by decide
  bodies i := if i = 0 then [.plain ['x'] (by decide), .use 1] else [.plain ['y'] (by decide)]
  text := [.use 0, .plain ['-'] (by decide), .use 1]

/-- A macro that uses itself. -/
def MacroDocument.selfish : MacroDocument 1 where
  names _ := ['a']
  inert := by decide
  distinct := by decide
  bodies _ := [.use 0]
  text := [.use 0]

theorem preprocess_macros_forward :
    (MacroDocument.forward.source =
        ".define_macro\x7ba\x7d\x7bx.macro\x7bb\x7d\x7d.define_macro\x7bb\x7d\x7by\x7d".toList ++
          ".macro\x7ba\x7d-.macro\x7bb\x7d".toList ∧
      ¬MacroDocument.forward.Loops MacroDocument.forward.text ∧
      MacroDocument.forward.Expands MacroDocument.forward.text "xy-y".toList ∧
      ∃ s, preprocess { settings := { maxPasses := 2 } } MacroDocument.forward.source =
        .ok "xy-y".toList s ∧ s.passes ≤ 2) ∧
    ∃ s, preprocess { settings := { maxPasses := 2 } } MacroDocument.selfish.source =
      .error (.diagnostic ⟨.directive, "<input>".toList, none, .notConverged 2⟩) s := by
  have hforward := preprocess_macros { settings := { maxPasses := 2 } } MacroDocument.forward
    (by decide) (by decide)
  have hselfish := preprocess_macros { settings := { maxPasses := 2 } } MacroDocument.selfish
    (by decide) (by decide)
  obtain ⟨s, hs⟩ := Run.exists_of_value?
    (r := preprocess { settings := { maxPasses := 2 } } MacroDocument.forward.source)
    (a := "xy-y".toList) (by decide +kernel)
  obtain ⟨hexpands, hpasses⟩ := hforward.2.1 _ s hs
  have hloops : MacroDocument.selfish.Loops MacroDocument.selfish.text := by
    have huses : MacroDocument.selfish.Uses 0 0 := List.mem_singleton_self _
    exact ⟨0, 0, List.mem_singleton_self _, .refl, .single huses⟩
  exact ⟨⟨by decide +kernel, hforward.1.1 ⟨_, s, hs⟩, (hexpands _).2 rfl, s, hs, hpasses⟩,
    hselfish.2.2 hloops⟩

end Bracemark
