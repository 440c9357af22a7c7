import Bracemark.Preprocess.Resolve
import Bracemark.Proofs.Runs
import Bracemark.Proofs.Stretches

/-!
# Resolving stretch by stretch

A family is resolved by editing the buffer from its end to its start, at offsets. It comes
to the same to go through the stretches of the buffer from the first to the last and to put
the text of each site in its place (`Resolve.family_eq`): the edits of a scan are in order
and do not overlap.

`Rewrites ctx family u v` says that the stage of a family turns the part `u` of any buffer
into `v`, whatever stands around it, and at most notes progress and warns.
-/

namespace Bracemark

/-! ## Edits in order -/

namespace Edit

theorem place_of_lt {e : Edit} {edits : List Edit} (h : ∀ x ∈ edits, e.start < x.start) :
    place e edits = edits ++ [e] := by
  induction edits with
  | nil => rfl
  | cons x edits ih =>
    have hx := h x List.mem_cons_self
    rw [place, if_neg (Nat.not_le.2 hx), ih fun y hy => h y (List.mem_cons_of_mem x hy)]
    rfl

theorem latestFirst_of_pairwise {edits : List Edit}
    (h : edits.Pairwise fun d e => d.start < e.start) : latestFirst edits = edits.reverse := by
  induction edits with
  | nil => rfl
  | cons e edits ih =>
    obtain ⟨he, hrest⟩ := List.pairwise_cons.1 h
    rw [latestFirst, ih hrest, List.reverse_cons]
    exact place_of_lt fun x hx => he x (List.mem_reverse.1 hx)

end Edit

/-- Edits in order are applied from the last to the first. -/
theorem Text.splice_of_pairwise {edits : List Edit}
    (h : edits.Pairwise fun d e => d.start < e.start) (t : Text) :
    t.splice edits = edits.foldr (fun e t => e.apply t) t := by
  rw [splice, Edit.latestFirst_of_pairwise h, List.foldl_reverse]

/-! ## Resolving stretches -/

namespace Stretch

/-- The text that takes the place of stretches that begin at an offset of a buffer. -/
def resolve (ctx : Context) (buffer : Text) : (start : Nat) → List Stretch → Run Text
  | _, [] => return []
  | start, .kept c :: rest => do
    let others ← resolve ctx buffer (start + 1) rest
    return c :: others
  | start, .site d arguments w :: rest => do
    let text ← Resolve.site ctx
      ⟨d, start, start + w.length, buffer.lineAt start, arguments⟩
    let others ← resolve ctx buffer (start + w.length) rest
    return text ++ others
  | start, .fault f :: _ =>
    Run.refuse (.ofBlockFault .directive ctx.path buffer ⟨f.problem, start + f.offset⟩)

/-- The number of sites among stretches. -/
def siteCount : List Stretch → Nat
  | [] => 0
  | .site .. :: rest => siteCount rest + 1
  | _ :: rest => siteCount rest

variable (ctx : Context) (buffer : Text)

/-- Resolving the sites of a buffer in order, and the stretches one by one: the first gives
the edits that the second has made, or both fail in the same way. -/
theorem resolve_spec {ws : List Stretch} (pre : Text) (s : RunState)
    (hroom : ∀ d arguments, .site d arguments [] ∉ ws)
    (hbuffer : (∀ f, .fault f ∉ ws) → buffer = pre ++ ws.flatMap written) :
    (∃ edits text t, Resolve.sites ctx buffer (located buffer pre.length ws) s = .ok edits t ∧
      resolve ctx buffer pre.length ws s = .ok text t ∧ edits.length = siteCount ws ∧
      (∀ e ∈ edits, pre.length ≤ e.start) ∧ edits.Pairwise (fun d e => d.start < e.start) ∧
      edits.foldr (fun e t => e.apply t) buffer = pre ++ text) ∨
    (∃ e t, Resolve.sites ctx buffer (located buffer pre.length ws) s = .error e t ∧
      resolve ctx buffer pre.length ws s = .error e t) := by
  -- `pre` is what stands in front of the stretches; edits behind it leave it alone
  induction ws generalizing pre s with
  | nil => exact .inl ⟨[], [], s, rfl, rfl, rfl, nofun, .nil, hbuffer nofun⟩
  | cons w ws ih =>
    have hroom' : ∀ d arguments, .site d arguments [] ∉ ws := fun d arguments h =>
      hroom d arguments (List.mem_cons_of_mem w h)
    cases w with
    | fault f => exact .inr ⟨_, _, rfl, rfl⟩
    | kept c =>
      have hpre : pre.length + 1 = (pre ++ [c]).length := by
        rw [List.length_append, List.length_singleton]
      rw [located, resolve, hpre]
      rcases ih (pre ++ [c]) s hroom' (by simpa [written] using hbuffer) with
        ⟨edits, text, t, hsites, htext, hcount, hfirst, hpairwise, hfold⟩ |
        ⟨e, t, hsites, htext⟩
      · refine .inl ⟨edits, c :: text, t, hsites, bind_of_ok htext, hcount, fun e he => ?_,
          hpairwise, by simpa using hfold⟩
        have := hfirst e he
        omega
      · exact .inr ⟨e, t, hsites, bind_of_error htext⟩
    | site d arguments w =>
      have hw : 0 < w.length := by
        refine List.length_pos_iff.2 ?_
        rintro rfl
        exact hroom d arguments List.mem_cons_self
      have hpre : pre.length + w.length = (pre ++ w).length := List.length_append.symm
      rw [located, resolve, Resolve.sites]
      cases hsite : Resolve.site ctx
          ⟨d, pre.length, pre.length + w.length, buffer.lineAt pre.length, arguments⟩ s with
      | error e t => exact .inr ⟨e, t, bind_of_error hsite, bind_of_error hsite⟩
      | ok v t =>
        rw [bind_of_ok hsite, bind_of_ok hsite, hpre]
        rcases ih (pre ++ w) t hroom' (by simpa [written] using hbuffer) with
          ⟨edits, text, u, hsites, htext, hcount, hfirst, hpairwise, hfold⟩ |
          ⟨e, u, hsites, htext⟩
        · refine .inl ⟨_, _, u, bind_of_ok hsites, bind_of_ok htext, ?_, ?_, ?_, ?_⟩
          · rw [List.length_cons, hcount]
            rfl
          · refine List.forall_mem_cons.2 ⟨Nat.le_refl _, fun e he => ?_⟩
            have := hfirst e he
            omega
          · refine List.pairwise_cons.2 ⟨fun e he => ?_, hpairwise⟩
            have := hfirst e he
            simp only
            omega
          · -- the edits behind this site are done, and the site itself is still in its place
            rw [List.foldr_cons, hfold, Edit.apply]
            simp only [List.append_assoc, List.take_left]
            rw [← List.append_assoc pre w, List.drop_left]
        · exact .inr ⟨e, u, bind_of_error hsites, bind_of_error htext⟩

end Stretch

/-- The stage of a family goes through the stretches of its buffer. -/
theorem Resolve.family_eq (ctx : Context) (f : Family) (buffer : Text) (s : RunState) :
    Resolve.family ctx f buffer s = (do
      let text ← Stretch.resolve ctx buffer 0 (Stretch.ofText f buffer)
      if Stretch.siteCount (Stretch.ofText f buffer) ≠ 0 then
        Run.note (.resolved (Stretch.siteCount (Stretch.ofText f buffer)) f)
      return text : Run Text) s := by
  unfold Resolve.family
  rw [Site.scan_eq_located]
  rcases Stretch.resolve_spec ctx buffer [] s
      (Stretch.site_nil_notMem buffer) (fun h => (Stretch.flatMap_written h).symm) with
    ⟨edits, text, t, hsites, htext, hcount, -, hpairwise, hfold⟩ | ⟨e, t, hsites, htext⟩
  · refine (bind_of_ok hsites).trans ((bind_of_ok htext).trans ?_).symm
    rw [Text.splice_of_pairwise hpairwise, hfold, ← hcount]
    cases edits <;> rfl
  · exact (bind_of_error hsites).trans (bind_of_error htext).symm

/-- What the stretches of a buffer give is what its family gives. -/
theorem Resolve.family_of_resolve {ctx : Context} {f : Family} {t u : Text} {s s' : RunState}
    (h : Stretch.resolve ctx t 0 (Stretch.ofText f t) s = .ok u s') :
    ∃ s₁, Resolve.family ctx f t s = .ok u s₁ ∧ s'.Alike s₁ := by
  rw [Resolve.family_eq, bind_of_ok h]
  split
  · exact ⟨_, rfl, rfl, rfl, rfl⟩
  · exact ⟨s', rfl, .refl s'⟩

theorem Resolve.resolve_of_family {ctx : Context} {f : Family} {t u : Text} {s s' : RunState}
    (h : Resolve.family ctx f t s = .ok u s') :
    ∃ s₁, Stretch.resolve ctx t 0 (Stretch.ofText f t) s = .ok u s₁ ∧ s₁.Alike s' := by
  rw [Resolve.family_eq] at h
  obtain ⟨v, s₁, hresolve, h⟩ := bind_eq_ok.1 h
  split at h
  · cases h
    exact ⟨s₁, hresolve, rfl, rfl, rfl⟩
  · cases h
    exact ⟨s', hresolve, .refl s'⟩

/-! ## Directives as they are written -/

namespace Text

/-- Texts in braces, one behind the other. -/
def blocks (us : List Text) : Text := us.flatMap fun u => '\x7b' :: u ++ ['\x7d']

theorem blocks_cons (u : Text) (us : List Text) :
    blocks (u :: us) = '\x7b' :: (u ++ '\x7d' :: blocks us) := by
  rw [blocks, List.flatMap_cons, ← blocks]
  simp only [List.append_assoc, List.cons_append, List.nil_append]

theorem readBlock_block (lexer : Lexer) (keyword : Text) (offset : Nat) {u : Text} (h : u.Nested)
    (post : Text) : readBlock lexer keyword offset ('\x7b' :: (u ++ '\x7d' :: post)) =
      .ok (u, post) := by
  have hblank : isBlank '\x7b' = false := rfl
  unfold readBlock
  rw [List.dropWhile_cons_of_neg (by rw [hblank]; exact Bool.false_ne_true)]
  simp only [if_true, closing_of_nested h]

/-- Nested texts in braces are read as they are written. -/
theorem readBlocks_blocks (lexer : Lexer) (keyword : Text) (offset : Nat) {us : List Text}
    (h : ∀ u ∈ us, u.Nested) (post : Text) :
    readBlocks lexer keyword us.length offset (blocks us ++ post) = .ok (us, post) := by
  induction us generalizing offset with
  | nil => rfl
  | cons u us ih =>
    obtain ⟨hu, hus⟩ := List.forall_mem_cons.1 h
    rw [blocks_cons, List.cons_append, List.append_assoc, List.cons_append, List.length_cons,
      readBlocks, readBlock_block _ _ _ hu]
    simp only [ih _ hus]

end Text

/-- A directive with its blocks. -/
def Directive.written (d : Directive) (us : List Text) : Text :=
  '.' :: (d.name.toList ++ Text.blocks us)

theorem Directive.written_cons (d : Directive) (u : Text) (us : List Text) :
    d.written (u :: us) =
      '.' :: d.name.toList ++ '\x7b' :: (u ++ '\x7d' :: Text.blocks us) := by
  rw [written, Text.blocks_cons, List.cons_append]

/-- A keyword is read in front of a brace. -/
theorem Directive.directive?_keyword (d : Directive) (post : Text) :
    Text.directive? ('.' :: (d.name.toList ++ '\x7b' :: post)) = some d := by
  rw [Text.directive?_stop, takeWhile_append_cons rfl, takeWhile_name, ofName?_name]

theorem Directive.directive?_written {d : Directive} {us : List Text} (h : us.length = d.arity)
    (post : Text) : Text.directive? (d.written us ++ post) = some d := by
  cases us with
  | nil => cases d <;> cases h
  | cons u us =>
    rw [written_cons, List.append_assoc, List.cons_append, List.cons_append]
    exact d.directive?_keyword _

theorem Text.nested_blocks {us : List Text} (h : ∀ u ∈ us, u.Nested) : (blocks us).Nested := by
  induction us with
  | nil => rfl
  | cons u us ih =>
    obtain ⟨hu, hus⟩ := List.forall_mem_cons.1 h
    exact hu.block.append (ih hus)

theorem Directive.nested_keyword (d : Directive) : Text.Nested ('.' :: d.name.toList) := by
  refine .of_noBrace fun c hc => ?_
  cases hb : isBrace c with
  | false => rfl
  | true =>
    have hstop : c ≠ '.' := by
      rintro rfl
      cases hb
    exact absurd hc (d.notMem_keyword (Lexer.isWord_of_isBrace hb) hstop)

/-- The braces of a directive match if those in its blocks do. -/
theorem Directive.nested_written (d : Directive) {us : List Text} (h : ∀ u ∈ us, u.Nested) :
    (d.written us).Nested :=
  d.nested_keyword.append (Text.nested_blocks h)

/-- A directive holds no backslash that is not in one of its blocks. -/
theorem Directive.notMem_written (d : Directive) {us : List Text} (h : ∀ u ∈ us, '\\' ∉ u) :
    '\\' ∉ d.written us := by
  intro hm
  rcases List.mem_append (s := '.' :: d.name.toList).1 hm with hm | hm
  · exact d.notMem_keyword rfl (by decide) hm
  obtain ⟨u, hu, hx⟩ := List.mem_flatMap.1 hm
  rcases List.mem_append.1 hx with hx | hx
  · rcases List.mem_cons.1 hx with hx | hx
    · cases hx
    · exact h u hu hx
  · cases List.mem_singleton.1 hx

/-- A directive whose turn has come is a site, whatever follows. -/
theorem Stretch.cuts_site {d : Directive} {us : List Text} (harity : us.length = d.arity)
    (hnested : ∀ u ∈ us, u.Nested) (hready : (d.waits && us.any Text.hasDirective) = false) :
    Cuts (step d.family) (d.written us) [.site d us (d.written us)] := by
  refine Cuts.of_step (u := d.name.toList ++ Text.blocks us) fun post => ?_
  unfold step
  rw [show '.' :: (d.name.toList ++ Text.blocks us ++ post) = d.written us ++ post from rfl,
    Directive.directive?_written harity]
  simp only [if_true]
  rw [List.append_assoc, ← String.length_toList, List.drop_left, ← harity,
    Text.readBlocks_blocks _ _ _ hnested]
  simp only
  rw [hready, ← List.append_assoc]
  simp only [Bool.false_eq_true, if_false]
  rw [List.length_append, Nat.add_sub_cancel, List.take_left]
  rfl

/-! ## Rewriting part by part -/

/-- Stretches that stand one behind the other are resolved one after the other. -/
theorem Stretch.resolve_append (ctx : Context) (buffer : Text) (start : Nat)
    (ws vs : List Stretch) :
    resolve ctx buffer start (ws ++ vs) = (do
      let text ← resolve ctx buffer start ws
      let others ← resolve ctx buffer (start + (ws.flatMap written).length) vs
      return text ++ others) := by
  induction ws generalizing start with
  | nil =>
    simp only [resolve, List.nil_append, List.flatMap_nil, List.length_nil, Nat.add_zero,
      pure_bind, bind_pure]
  | cons w ws ih =>
    rw [List.cons_append, List.flatMap_cons, List.length_append]
    cases w with
    | fault f => rfl
    | kept c =>
      simp only [resolve, ih, written, List.length_singleton, Nat.add_assoc, bind_assoc, pure_bind,
        List.cons_append]
    | site d arguments w =>
      simp only [resolve, ih, written, Nat.add_assoc, bind_assoc, pure_bind, List.append_assoc]

theorem Stretch.resolve_append_eq_ok {ctx : Context} {buffer : Text} {start : Nat}
    {ws vs : List Stretch} {s s' : RunState} {z : Text} :
    resolve ctx buffer start (ws ++ vs) s = .ok z s' ↔
      ∃ x y s₁, resolve ctx buffer start ws s = .ok x s₁ ∧
        resolve ctx buffer (start + (ws.flatMap written).length) vs s₁ = .ok y s' ∧ z = x ++ y := by
  rw [resolve_append, bind_eq_ok]
  constructor
  · rintro ⟨x, s₁, hx, h⟩
    obtain ⟨y, s₂, hy, h⟩ := bind_eq_ok.1 h
    cases h
    exact ⟨x, y, s₁, hx, hy, rfl⟩
  · rintro ⟨x, y, s₁, hx, hy, rfl⟩
    exact ⟨x, s₁, hx, bind_of_ok hy⟩

/-- Characters that are kept give themselves. -/
theorem Stretch.resolve_map_kept (ctx : Context) (buffer : Text) (start : Nat) (u : Text) :
    resolve ctx buffer start (u.map .kept) = pure u := by
  induction u generalizing start with
  | nil => rfl
  | cons c u ih => rw [List.map_cons, resolve, ih, pure_bind]

/-- The stage of a family turns the part `u` of any buffer into `v`, and at most notes
progress and warns. -/
def Rewrites (ctx : Context) (f : Family) (u v : Text) : Prop :=
  ∃ ws, Cuts (Stretch.step f) u ws ∧
    ∀ buffer start, (Stretch.resolve ctx buffer start ws).Yields v

namespace Rewrites

variable {ctx : Context} {f : Family} {u v u' v' : Text}

theorem append (h : Rewrites ctx f u v) (h' : Rewrites ctx f u' v') :
    Rewrites ctx f (u ++ u') (v ++ v') := by
  obtain ⟨ws, hcut, hres⟩ := h
  obtain ⟨ws', hcut', hres'⟩ := h'
  refine ⟨ws ++ ws', hcut.append hcut', fun buffer start => ?_⟩
  rw [Stretch.resolve_append]
  exact (hres buffer start).bind ((hres' buffer _).bind (.pure _))

/-- A character is kept if no site begins at it, whatever else becomes of the part. -/
theorem cons {c : Char} (hc : ∀ post, Stretch.step f c (u ++ post) = (.kept c, 0))
    (h : Rewrites ctx f u v) : Rewrites ctx f (c :: u) (c :: v) := by
  obtain ⟨ws, hcut, hres⟩ := h
  refine ⟨.kept c :: ws, fun post => ?_, fun buffer start => (hres buffer _).bind (.pure _)⟩
  rw [List.cons_append, segment_zero_cons, hc, List.drop_zero, hcut]
  rfl

theorem kept (h : '.' ∉ u) : Rewrites ctx f u u := by
  induction u with
  | nil => exact ⟨[], .nil, fun _ _ => .pure _⟩
  | cons c u ih =>
    have hc : c ≠ '.' := fun e => h (e ▸ List.mem_cons_self)
    exact cons (fun post => Stretch.step_of_none (Text.directive?_of_ne hc _))
      (ih fun hm => h (List.mem_cons_of_mem c hm))

theorem blocks {ps : List (Text × Text)} (h : ∀ p ∈ ps, Rewrites ctx f p.1 p.2) :
    Rewrites ctx f (Text.blocks (ps.map (·.1))) (Text.blocks (ps.map (·.2))) := by
  induction ps with
  | nil => exact kept List.not_mem_nil
  | cons p ps ih =>
    obtain ⟨hp, hps⟩ := List.forall_mem_cons.1 h
    have hopen : Rewrites ctx f ['\x7b'] ['\x7b'] := kept (by decide)
    have hclose : Rewrites ctx f ['\x7d'] ['\x7d'] := kept (by decide)
    exact ((hopen.append hp).append hclose).append (ih hps)

/-- A directive whose turn has not come stays, and its blocks are rewritten. -/
theorem waiting {d : Directive} (ps : List (Text × Text)) (harity : ps.length = d.arity)
    (hnested : ∀ p ∈ ps, p.1.Nested)
    (hwaits : d.family ≠ f ∨ (d.waits && (ps.map (·.1)).any Text.hasDirective) = true)
    (h : ∀ p ∈ ps, Rewrites ctx f p.1 p.2) :
    Rewrites ctx f (d.written (ps.map (·.1))) (d.written (ps.map (·.2))) := by
  have hlength : (ps.map (·.1)).length = d.arity := by rw [List.length_map, harity]
  refine cons (fun post => ?_) ((kept (d.notMem_name rfl)).append (blocks h))
  unfold Stretch.step
  rw [show '.' :: (d.name.toList ++ Text.blocks (ps.map (·.1)) ++ post) =
    d.written (ps.map (·.1)) ++ post from rfl, Directive.directive?_written hlength]
  simp only
  split
  · rename_i hfamily
    rw [List.append_assoc, ← String.length_toList, List.drop_left, ← hlength,
      Text.readBlocks_blocks _ _ _ (List.forall_mem_map.2 hnested)]
    simp only
    rw [if_pos (hwaits.resolve_left fun hne => hne hfamily)]
  · rfl

/-- A directive whose turn has come is replaced by its text. -/
theorem site {d : Directive} {us : List Text} (harity : us.length = d.arity)
    (hnested : ∀ u ∈ us, u.Nested) (hready : (d.waits && us.any Text.hasDirective) = false)
    (h : ∀ start stop line, (Resolve.site ctx ⟨d, start, stop, line, us⟩).Yields v) :
    Rewrites ctx d.family (d.written us) v := by
  refine ⟨[.site d us (d.written us)], Stretch.cuts_site harity hnested hready,
    fun buffer start => ?_⟩
  rw [Stretch.resolve, Stretch.resolve]
  refine (h start _ (buffer.lineAt start)).bind ?_
  simp only [pure_bind, List.append_nil]
  exact .pure v

/-- What a stage does to all of a buffer. -/
theorem family_yields (h : Rewrites ctx f u v) : (Resolve.family ctx f u).Yields v := by
  obtain ⟨ws, hcut, hres⟩ := h
  intro s hs
  rw [Resolve.family_eq]
  revert s
  rw [Stretch.ofText, hcut.segment_eq]
  refine (hres u 0).bind ?_
  split
  · exact (Run.Yields.note _).bind (.pure v)
  · exact .pure v

end Rewrites

end Bracemark
