import Bracemark.Proofs.Inclusion
import Bracemark.Proofs.Macros

/-!
# Macros in order

The stage of macros walks through the stretches of its buffer with the table in hand: a definition
is entered, a use is replaced by the body that stands in the table (`Macros.expand`). What a stretch
gives depends on the table it is met with and on nothing behind it, so two texts that go their own
ways at the cut are expanded one after the other (`Macros.expand_append`), and the table holds for
each name the definition that was met last (`Macros.body?_of_expand`).

Both together say what a use sees (`macros_in_sequence`).
-/

namespace Bracemark

/-- The text that a part of a run gives and the table of macros that it leaves, if it succeeds. -/
def Run.outcome : EStateM.Result Failure RunState Text → Option (Text × Macros)
  | .ok u s => some (u, s.macros)
  | .error _ _ => none

namespace Stretch

/-- The body that a stretch gives to the macro of a name, if it is a definition of it. -/
def body? (name : Text) : Stretch → Option Text
  | .site .defineMacro us _ => if (us.headD []).trim = name then some (us.tail.headD []) else none
  | _ => none

/-- The body of the last definition of a macro among stretches. -/
def latest (name : Text) (ws : List Stretch) : Option Text :=
  (ws.filterMap (body? name)).getLast?

theorem latest_cons (name : Text) (w : Stretch) (ws : List Stretch) :
    latest name (w :: ws) = (latest name ws).or (body? name w) := by
  unfold latest
  cases hw : body? name w with
  | none => rw [List.filterMap_cons_none hw, Option.or_none]
  | some body =>
    rw [List.filterMap_cons_some hw, List.getLast?_cons]
    cases (ws.filterMap (body? name)).getLast? <;> rfl

end Stretch

namespace Macros

/-! ## Walking through stretches -/

/-- The text that a stretch gives with a table, and the table behind it. Only definitions and uses
are resolved. -/
def step? (m : Macros) : Stretch → Option (Text × Macros)
  | .kept c => some ([c], m)
  | .site .defineMacro us _ => some ([], m.define (us.headD []).trim (us.tail.headD []))
  | .site .useMacro us _ => (m.body? (us.headD []).trim).map fun body => (body, m)
  | .site _ _ _ => none
  | .fault _ => none

/-- The text that stretches give with a table, and the table behind them. -/
def expand (m : Macros) : List Stretch → Option (Text × Macros)
  | [] => some ([], m)
  | w :: ws => do
    let (u, m₁) ← m.step? w
    let (v, m₂) ← expand m₁ ws
    return (u ++ v, m₂)

variable {m m' : Macros} {w : Stretch} {ws vs : List Stretch} {u v x : Text}

theorem expand_cons_eq_some : m.expand (w :: ws) = some (x, m') ↔
    ∃ u m₁ v, m.step? w = some (u, m₁) ∧ expand m₁ ws = some (v, m') ∧ x = u ++ v := by
  rw [expand]
  constructor
  · intro h
    obtain ⟨⟨u, m₁⟩, hstep, h⟩ := Option.bind_eq_some_iff.1 h
    obtain ⟨⟨v, m₂⟩, hrest, h⟩ := Option.bind_eq_some_iff.1 h
    cases h
    exact ⟨u, m₁, v, hstep, hrest, rfl⟩
  · rintro ⟨u, m₁, v, hstep, hrest, rfl⟩
    exact Option.bind_eq_some_iff.2 ⟨(u, m₁), hstep,
      Option.bind_eq_some_iff.2 ⟨(v, m'), hrest, rfl⟩⟩

/-- Stretches behind others are expanded with the table that those leave. -/
theorem expand_append (m : Macros) (ws vs : List Stretch) :
    m.expand (ws ++ vs) = (m.expand ws).bind fun (u, m₁) =>
      (expand m₁ vs).map fun (v, m₂) => (u ++ v, m₂) := by
  induction ws generalizing m with
  | nil => cases hvs : m.expand vs <;> simp [expand, hvs]
  | cons w ws ih =>
    rw [List.cons_append, expand, expand]
    cases m.step? w with
    | none => rfl
    | some first =>
      obtain ⟨a, m₁⟩ := first
      simp only [Option.bind_eq_bind, Option.bind_some, ih]
      cases expand m₁ ws with
      | none => rfl
      | some middle =>
        obtain ⟨u, m₂⟩ := middle
        cases hvs : expand m₂ vs <;> simp [hvs]

theorem exists_of_expand_append (h : m.expand (ws ++ vs) = some (x, m')) :
    ∃ u m₁ v, m.expand ws = some (u, m₁) ∧ expand m₁ vs = some (v, m') ∧ x = u ++ v := by
  rw [expand_append] at h
  obtain ⟨⟨u, m₁⟩, hws, h⟩ := Option.bind_eq_some_iff.1 h
  obtain ⟨⟨v, m₂⟩, hvs, h⟩ := Option.map_eq_some_iff.1 h
  cases h
  exact ⟨u, m₁, v, hws, hvs, rfl⟩

/-- Where stretches are expanded, every directive has found its blocks. -/
theorem fault_notMem_of_expand (h : m.expand ws = some (u, m')) (f : BlockFault) :
    .fault f ∉ ws := by
  intro hmem
  obtain ⟨before, behind, rfl⟩ := List.append_of_mem hmem
  obtain ⟨_, m₁, _, -, hrest, -⟩ := exists_of_expand_append h
  obtain ⟨_, _, _, hstep, -⟩ := expand_cons_eq_some.1 hrest
  cases hstep

/-- A definition is found in the table behind it, and every other stretch leaves the table as it
is. -/
theorem body?_of_step? (h : m.step? w = some (u, m')) (name : Text) :
    m'.body? name = (w.body? name).or (m.body? name) := by
  cases w with
  | kept c =>
    cases h
    rfl
  | fault f => cases h
  | site d us w =>
    cases d
    case defineMacro =>
      cases h
      by_cases hname : (us.headD []).trim = name
      · rw [Stretch.body?, if_pos hname, ← hname, body?_define_self]
        rfl
      · rw [Stretch.body?, if_neg hname, body?_define_of_ne (Ne.symm hname)]
        rfl
    case useMacro =>
      obtain ⟨body, -, h⟩ := Option.map_eq_some_iff.1 h
      cases h
      rfl
    all_goals cases h

/-- Behind stretches the table holds the last definition of each name among them. -/
theorem body?_of_expand (h : m.expand ws = some (u, m')) (name : Text) :
    m'.body? name = (Stretch.latest name ws).or (m.body? name) := by
  induction ws generalizing m u with
  | nil =>
    cases h
    rfl
  | cons w ws ih =>
    obtain ⟨a, m₁, b, hstep, hrest, -⟩ := expand_cons_eq_some.1 h
    rw [ih hrest, body?_of_step? hstep, Stretch.latest_cons, Option.or_assoc]

/-- A use is replaced by the definition that was met last in front of it, or by the one that the
table held from the start. -/
theorem use_of_expand {before behind : List Stretch} {name written : Text}
    (h : m.expand (before ++ .site .useMacro [name] written :: behind) = some (x, m')) :
    ∃ u m₁ body v, m.expand before = some (u, m₁) ∧
      (Stretch.latest name.trim before).or (m.body? name.trim) = some body ∧
      expand m₁ behind = some (v, m') ∧ x = u ++ body ++ v := by
  obtain ⟨u, m₁, y, hbefore, hrest, rfl⟩ := exists_of_expand_append h
  obtain ⟨body, m₂, v, hstep, hbehind, rfl⟩ := expand_cons_eq_some.1 hrest
  obtain ⟨body', hbody, heq⟩ := Option.map_eq_some_iff.1 hstep
  cases heq
  refine ⟨u, m₁, body, v, hbefore, ?_, hbehind, (List.append_assoc u body v).symm⟩
  rw [← body?_of_expand hbefore]
  exact hbody

end Macros

/-! ## The stage of macros -/

section Stage

variable (ctx : Context)

/-- A definition or a use is resolved as the walk does it. -/
theorem Resolve.outcome_site {d : Directive} (hd : d.family = .macros) (start stop line : Nat)
    (us : List Text) (written : Text) (s : RunState) :
    Run.outcome (Resolve.site ctx ⟨d, start, stop, line, us⟩ s) =
      s.macros.step? (.site d us written) := by
  cases d
  case defineMacro => rfl
  case useMacro =>
    unfold Resolve.site Macros.step?
    refine (congrArg Run.outcome (bind_of_ok rfl)).trans ?_
    cases hbody : s.macros.body? (us.headD []).trim with
    | none =>
      simp only [Site.first, hbody]
      rfl
    | some body =>
      simp only [Site.first, hbody]
      rfl
  all_goals cases hd

theorem Stretch.outcome_resolve (buffer : Text) (start : Nat) {ws : List Stretch}
    (h : ∀ d us w, .site d us w ∈ ws → d.family = .macros) (s : RunState) :
    Run.outcome (resolve ctx buffer start ws s) = s.macros.expand ws := by
  induction ws generalizing start s with
  | nil => rfl
  | cons w ws ih =>
    have hws : ∀ d us w, .site d us w ∈ ws → d.family = .macros := fun d us w hw =>
      h d us w (List.mem_cons_of_mem _ hw)
    cases w with
    | fault f => rfl
    | kept c =>
      rw [resolve, Macros.expand, Macros.step?]
      simp only [Option.bind_eq_bind, Option.bind_some]
      rw [← ih (start + 1) hws]
      cases hr : resolve ctx buffer (start + 1) ws s with
      | ok v t =>
        rw [bind_of_ok hr]
        rfl
      | error e t =>
        rw [bind_of_error hr]
        rfl
    | site d us w =>
      have hsite := Resolve.outcome_site ctx (h d us w List.mem_cons_self) start
        (start + w.length) (buffer.lineAt start) us w s
      rw [resolve, Macros.expand, ← hsite]
      cases hs : Resolve.site ctx
          ⟨d, start, start + w.length, buffer.lineAt start, us⟩ s with
      | error e t =>
        rw [bind_of_error hs]
        rfl
      | ok u t =>
        rw [bind_of_ok hs, Run.outcome]
        simp only [Option.bind_eq_bind, Option.bind_some]
        rw [← ih (start + w.length) hws]
        cases hr : resolve ctx buffer (start + w.length) ws t with
        | ok v t' =>
          rw [bind_of_ok hr]
          rfl
        | error e t' =>
          rw [bind_of_error hr]
          rfl

/-- The stage of macros expands the stretches of its buffer with the table of the run. -/
theorem Preprocess.outcome_macros (t : Text) (s : RunState) :
    Run.outcome (bareStage ctx .macros t s) = s.macros.expand (Stretch.ofText .macros t) := by
  rw [← Stretch.outcome_resolve ctx t 0 (fun d us w hw => (Stretch.shaped_of_mem hw).1) s,
    bareStage_of_ne (by decide), Resolve.family_eq]
  cases hr : Stretch.resolve ctx t 0 (Stretch.ofText .macros t) s with
  | error e t' => rw [bind_of_error hr]
  | ok v t' =>
    rw [bind_of_ok hr]
    split <;> rfl

end Stage

/-- The macros of a text are expanded before those of a text behind it that goes on with no word,
and see nothing of it: the whole gives what the second text gives, from any run with the table that
the first one leaves, with the text of the first one in front. That table holds the last definition
of each name, and so does each use see the last definition in front of it. -/
theorem macros_in_sequence {ctx : Context} {s : RunState} {u u' : Text} {m : Macros}
    (h : Run.outcome (Preprocess.bareStage ctx .macros u s) = some (u', m)) :
    (∀ (v : Text) (r : RunState), v.Apart → r.macros = m →
      Run.outcome (Preprocess.bareStage ctx .macros (u ++ v) s) =
        (Run.outcome (Preprocess.bareStage ctx .macros v r)).map fun (v', m') =>
          (u' ++ v', m')) ∧
    (∀ name, m.body? name =
      (Stretch.latest name (Stretch.ofText .macros u)).or (s.macros.body? name)) ∧
    ∀ before name written behind,
      Stretch.ofText .macros u = before ++ .site .useMacro [name] written :: behind →
      ∃ a m₁ body b, s.macros.expand before = some (a, m₁) ∧
        (Stretch.latest name.trim before).or (s.macros.body? name.trim) = some body ∧
        Macros.expand m₁ behind = some (b, m) ∧ u' = a ++ body ++ b := by
  rw [Preprocess.outcome_macros] at h
  refine ⟨fun v r hv hr => ?_, Macros.body?_of_expand h, fun before name written behind hu => ?_⟩
  · rw [Preprocess.outcome_macros, Preprocess.outcome_macros, hr,
      Stretch.ofText_append hv (Macros.fault_notMem_of_expand h), Macros.expand_append, h]
    rfl
  · rw [hu] at h
    exact Macros.use_of_expand h

/-- A macro is used between two definitions of it, behind an open brace; the text ends in a keyword
that lacks its blocks, and the next one begins with the first of them. -/
theorem macros_in_sequence_redefined :
    Run.outcome (Preprocess.bareStage {} .macros ("\x7b.define_macro\x7ba\x7d\x7b1\x7d".toList ++
        ".macro\x7ba\x7d.define_macro\x7ba\x7d\x7b2\x7d.link".toList) {}) =
      some ("\x7b1.link".toList, [(['a'], ['2'])]) ∧
    Run.outcome (Preprocess.bareStage {} .macros ("\x7b.define_macro\x7ba\x7d\x7b1\x7d".toList ++
        ".macro\x7ba\x7d.define_macro\x7ba\x7d\x7b2\x7d.link".toList ++
        "\x7b.macro\x7ba\x7d".toList) {}) =
      some ("\x7b1.link\x7b2".toList, [(['a'], ['2'])]) ∧
    ∃ a b, "\x7b1.link".toList = a ++ ['1'] ++ b := by
  have hfirst : Run.outcome (Preprocess.bareStage {} .macros
      ("\x7b.define_macro\x7ba\x7d\x7b1\x7d".toList ++
        ".macro\x7ba\x7d.define_macro\x7ba\x7d\x7b2\x7d.link".toList) {}) =
      some ("\x7b1.link".toList, [(['a'], ['2'])]) := by decide +kernel
  obtain ⟨hwhole, -, huse⟩ := macros_in_sequence hfirst
  refine ⟨hfirst, ?_, ?_⟩
  · rw [hwhole "\x7b.macro\x7ba\x7d".toList { macros := [(['a'], ['2'])] }
      (by rintro c ⟨⟩; rfl) rfl]
    decide +kernel
  · obtain ⟨a, _, body, b, -, hbody, -, htext⟩ := huse
      [.kept '\x7b', .site .defineMacro [['a'], ['1']] ".define_macro\x7ba\x7d\x7b1\x7d".toList]
      ['a'] ".macro\x7ba\x7d".toList
      (.site .defineMacro [['a'], ['2']] ".define_macro\x7ba\x7d\x7b2\x7d".toList ::
        ".link".toList.map .kept) rfl
    cases hbody
    exact ⟨a, b, htext⟩

end Bracemark
