import Bracemark.Proofs.FileTexts
import Bracemark.Proofs.Paths

/-!
# Pinned paths

The text of an included file is put in with the relative paths in it pinned to the directory of
the file. `Include.Pins` says what that makes of a text, character by character: only what a
keyword names a file with changes, and only if it is a relative path that no directive is still
to build. What is found in such a block is not looked at again, so a keyword inside of it is
left as it is (`anchor_overlooks`).

The scan finds a block where one is written (`Include.blocksFrom_written`), and nothing anywhere
else (`Include.blocksFrom_char`). From the one side it follows that anchoring gives what `Pins`
says (`Include.pins_of_blocksFrom`), from the other that all names in a text with pinned paths
are absolute or still to be built, and so that nothing in it is pinned again
(`Include.settled_of_pins`).
-/

namespace Bracemark

/-! ## Blocks behind a keyword -/

/-- The keyword of a directive, with blanks behind it, and the opening brace of its block. -/
def Directive.opening (d : Directive) (gap : Text) : Text :=
  '.' :: (d.name.toList ++ gap ++ ['\x7b'])

theorem Directive.opening_append (d : Directive) (gap post : Text) :
    d.opening gap ++ post = '.' :: (d.name.toList ++ (gap ++ '\x7b' :: post)) := by
  simp only [opening, List.cons_append, List.append_assoc, List.nil_append]

namespace Include

/-- A block in which a directive names a file, behind blanks. -/
structure Names (d : Directive) (gap i : Text) : Prop where
  namesFile : d.namesFile = true
  blank : ∀ c ∈ gap, isBlank c = true
  nested : i.Nested

namespace Names

variable {d : Directive} {gap i : Text}

/-- The word behind the full stop ends with the name of the directive. -/
theorem takeWhile_eq (h : Names d gap i) (post : Text) :
    (d.name.toList ++ (gap ++ '\x7b' :: post)).takeWhile isWord = d.name.toList := by
  cases gap with
  | nil => rw [List.nil_append, takeWhile_append_cons rfl, d.takeWhile_name]
  | cons c gap =>
    have hc := isWord_of_isBlank (h.blank c List.mem_cons_self)
    rw [List.cons_append, takeWhile_append_cons hc, d.takeWhile_name]

theorem directive?_eq (h : Names d gap i) (post : Text) :
    Text.directive? (d.opening gap ++ post) = some d := by
  rw [d.opening_append, Text.directive?_stop, h.takeWhile_eq, Directive.ofName?_name]

theorem readBlock_eq (h : Names d gap i) (keyword : Text) (offset : Nat) (t : Text) :
    Text.readBlock Lexer.directive keyword offset (gap ++ '\x7b' :: (i ++ '\x7d' :: t)) =
      .ok (i, t) :=
  Text.readBlock_gap h.blank h.nested ..

end Names

/-! ## What the scan finds -/

variable {buffer : Text}

/-- The next full stop is behind the lexeme. -/
theorem dropWhile_drop (c : Char) (rest : Text) :
    (rest.drop (Lexer.directive c rest).2).dropWhile (· ≠ '.') = rest.dropWhile (· ≠ '.') := by
  have hlexeme : ∀ x ∈ rest.take (Lexer.directive c rest).2, decide (x ≠ '.') = true := by
    intro x hx
    exact decide_eq_true (Lexer.ne_stop_of_mem_take hx)
  have happend : (rest.take (Lexer.directive c rest).2 ++
      rest.drop (Lexer.directive c rest).2).dropWhile (· ≠ '.') = _ :=
    List.dropWhile_append_of_pos hlexeme
  rw [List.take_append_drop] at happend
  exact happend.symm

/-- The scan goes on at the next full stop. -/
theorem blocksFrom_dropWhile {t : Text} (ht : t <:+ buffer) :
    blocksFrom buffer t = blocksFrom buffer (t.dropWhile (· ≠ '.')) := by
  induction t using segment_induction Lexer.directive with
  | nil => rfl
  | cons c rest ih =>
    by_cases hc : c = '.'
    · rw [List.dropWhile_cons_of_neg (by simp [hc])]
    · have hnames : Text.namesFile (c :: rest) = false := by
        rw [Text.namesFile, Text.directive?_of_ne hc]
      have hsuffix := (List.drop_suffix (Lexer.directive c rest).2 rest).trans
        ((List.suffix_cons c rest).trans ht)
      rw [blocksFrom_pass ht rfl hnames, ih hsuffix, dropWhile_drop,
        List.dropWhile_cons_of_pos (by simp [hc])]

/-- A character is passed over if no keyword that names a file begins with it. -/
theorem blocksFrom_char {c : Char} {rest : Text} (ht : c :: rest <:+ buffer)
    (h : Text.namesFile (c :: rest) = false) :
    blocksFrom buffer (c :: rest) = blocksFrom buffer rest := by
  have hrest := (List.suffix_cons c rest).trans ht
  have hdrop := (List.drop_suffix (Lexer.directive c rest).2 rest).trans hrest
  rw [blocksFrom_pass ht rfl h, blocksFrom_dropWhile hdrop, blocksFrom_dropWhile hrest,
    dropWhile_drop]

/-- Behind its keyword, the scan looks for the block of a directive. -/
theorem drop_keyword {d : Directive} {rest : Text} (h : Text.directive? ('.' :: rest) = some d) :
    ∃ s, rest = d.name.toList ++ s ∧ rest.drop (Lexer.directive '.' rest).2 = s := by
  obtain ⟨-, hword, hlexeme⟩ := Text.eq_of_directive? h
  have hsplit := List.takeWhile_append_dropWhile (p := isWord) (l := rest)
  rw [hword] at hsplit
  refine ⟨_, hsplit.symm, ?_⟩
  rw [hlexeme, ← hsplit, ← String.length_toList, List.drop_left, hsplit]

/-- A block is found where it is written. -/
theorem blocksFrom_written {d : Directive} {gap i : Text} (h : Names d gap i)
    (before t : Text) :
    blocksFrom (before ++ (d.opening gap ++ (i ++ '\x7d' :: t)))
        (d.opening gap ++ (i ++ '\x7d' :: t)) =
      .ok ⟨(before ++ d.opening gap).length, (before ++ d.opening gap).length + i.length⟩ ::
        blocksFrom (before ++ (d.opening gap ++ (i ++ '\x7d' :: t))) t := by
  have hdirective := h.directive?_eq (i ++ '\x7d' :: t)
  have hsuffix := List.suffix_append before (d.opening gap ++ (i ++ '\x7d' :: t))
  have hnames : Text.namesFile (d.opening gap ++ (i ++ '\x7d' :: t)) = true := by
    rw [Text.namesFile, hdirective]
    exact h.namesFile
  generalize hbuffer : before ++ (d.opening gap ++ (i ++ '\x7d' :: t)) = buffer at hsuffix
  rw [d.opening_append] at hdirective hsuffix hnames ⊢
  obtain ⟨s, hs, hdrop⟩ := drop_keyword hdirective
  cases List.append_cancel_left hs
  rcases blocksFrom_read hsuffix hdrop hnames with
    ⟨keyword, offset, f, f', hread, -⟩ | ⟨keyword, offset, i', a, start, hread, hstart, hblocks⟩
  · rw [h.readBlock_eq] at hread
    cases hread
  · rw [h.readBlock_eq] at hread
    cases hread
    have hgap : (gap ++ '\x7b' :: (i ++ '\x7d' :: t)).takeWhile isBlank = gap := by
      rw [List.takeWhile_append_of_pos h.blank]
      simp [show isBlank '\x7b' = false from rfl]
    have hplace : start = (before ++ d.opening gap).length := by
      rw [hstart, hgap, ← hbuffer]
      simp only [Directive.opening, List.length_append, List.length_cons, List.length_nil]
      omega
    rw [hblocks, hplace]

/-- Where a keyword names a file, a block is written behind it or the scan finds a fault. -/
theorem fault_or_names {c : Char} {rest : Text} (ht : c :: rest <:+ buffer)
    (h : Text.namesFile (c :: rest) = true) :
    (∃ f, .error f ∈ blocksFrom buffer (c :: rest)) ∨
    ∃ d gap i t, Names d gap i ∧ c :: rest = d.opening gap ++ (i ++ '\x7d' :: t) := by
  have hdirective : ∃ d, Text.directive? (c :: rest) = some d ∧ d.namesFile = true := by
    unfold Text.namesFile at h
    split at h
    · exact ⟨_, by assumption, h⟩
    · cases h
  obtain ⟨d, hd, hnames⟩ := hdirective
  obtain ⟨rfl, -, -⟩ := Text.eq_of_directive? hd
  obtain ⟨s, rfl, hdrop⟩ := drop_keyword hd
  rcases blocksFrom_read ht hdrop h with
    ⟨-, -, -, f, -, -, hblocks⟩ | ⟨keyword, offset, i, a, -, hread, -⟩
  · exact .inl ⟨f, by rw [hblocks]; exact List.mem_singleton_self _⟩
  · obtain ⟨hsplit, hi⟩ := Text.eq_of_readBlock hread
    rw [List.append_assoc, List.cons_append] at hsplit
    refine .inr ⟨d, s.takeWhile isBlank, i, a, ⟨hnames, fun c => eq_true_of_mem_takeWhile, hi⟩, ?_⟩
    rw [d.opening_append, ← hsplit]

/-! ## Pinning -/

/-- The path that is written in a block. -/
def named (i : Text) : Path := Path.ofText (Text.trim (Scheme.document.deprotect i))

/-- What becomes of what a block names, in a file whose directory is `base`. A path that
directives are still to build and an absolute one stay; any other is pinned, and what is put in
its place has no character with a meaning. -/
inductive Pinned (base : Path) (i : Text) : Text → Prop where
  | kept (h : i.hasDirective = true ∨ (named i).isAbsolute = true) : Pinned base i i
  | relative {w : Text} (resolved : i.hasDirective = false)
      (relative : (named i).isAbsolute = false)
      (restores : Scheme.document.deprotect w = (base.join (named i)).toText)
      (inert : w.Inert) : Pinned base i w

/-- A text with the paths in it pinned to a directory. It differs only in the blocks behind
keywords that name a file. -/
inductive Pins (base : Path) : Text → Text → Prop where
  | nil : Pins base [] []
  | char {c : Char} {t u : Text} (h : Text.namesFile (c :: t) = false) (rest : Pins base t u) :
      Pins base (c :: t) (c :: u)
  | block {d : Directive} {gap i w t u : Text} (names : Names d gap i) (h : Pinned base i w)
      (rest : Pins base t u) :
      Pins base (d.opening gap ++ (i ++ '\x7d' :: t)) (d.opening gap ++ (w ++ '\x7d' :: u))

/-- The block of a written name is pinned by what it names. -/
theorem pinned?_written (ctx : Context) (file : Path) (before opening i t : Text) :
    pinned? ctx file (before ++ (opening ++ (i ++ t)))
        ⟨(before ++ opening).length, (before ++ opening).length + i.length⟩ =
      if i.hasDirective || (named i).isAbsolute then none
      else some ⟨(before ++ opening).length, (before ++ opening).length + i.length,
        Scheme.document.shield (pinned ctx.files file (named i))⟩ := by
  have hinterior : Block.interior
      ⟨(before ++ opening).length, (before ++ opening).length + i.length⟩
      (before ++ (opening ++ (i ++ t))) = i := by
    rw [← List.append_assoc, ← List.append_assoc]
    exact Text.slice_append (before ++ opening) i t
  unfold pinned?
  simp only [hinterior]
  rfl

/-- The edit of a block, if there is one, pins what the block names. -/
theorem inside_block (ctx : Context) (file : Path) {before opening i t u : Text}
    {edits : List Edit} (hi : i.Nested)
    (h : Edit.Inside (before ++ opening ++ i ++ ['\x7d']) t edits u) :
    ∃ w, Pinned (ctx.files.absolute file.parent) i w ∧
      Edit.Inside before (opening ++ (i ++ '\x7d' :: t))
        ((pinned? ctx file (before ++ (opening ++ (i ++ '\x7d' :: t)))
          ⟨(before ++ opening).length, (before ++ opening).length + i.length⟩).toList ++ edits)
        (opening ++ (w ++ '\x7d' :: u)) := by
  rw [pinned?_written]
  by_cases hkept : i.hasDirective = true ∨ (named i).isAbsolute = true
  · rw [if_pos (by simpa using hkept)]
    exact ⟨i, .kept hkept, h.block⟩
  · have hinert := Scheme.inert_shield (pinned ctx.files file (named i))
    rw [if_neg (by simpa using hkept)]
    rw [not_or, Bool.not_eq_true, Bool.not_eq_true] at hkept
    refine ⟨_, .relative hkept.1 hkept.2 (Scheme.Restores.shield _).deprotect_eq hinert, ?_⟩
    exact .pass (.edit hi hinert h)

/-- Anchoring a text without a fault pins the paths in it, by edits between braces. -/
theorem pins_of_blocksFrom (ctx : Context) (file : Path) (before t : Text)
    (h : ∀ f, .error f ∉ blocksFrom (before ++ t) t) :
    ∃ u, Pins (ctx.files.absolute file.parent) t u ∧
      Edit.Inside before t ((blocksFrom (before ++ t) t).filterMap fun
        | .ok b => pinned? ctx file (before ++ t) b
        | .error _ => none) u := by
  -- a block is left behind in one step, so the induction is on every suffix
  induction t using suffix_induction generalizing before with
  | nil => exact ⟨[], .nil, .done before []⟩
  | cons c rest ih =>
    have hsuffix := List.suffix_append before (c :: rest)
    by_cases hnames : Text.namesFile (c :: rest) = true
    · rcases fault_or_names hsuffix hnames with ⟨f, hf⟩ | ⟨d, gap, i, t, hd, htext⟩
      · exact absurd hf (h f)
      have ht : t <:+ rest := by
        refine suffix_of_append_eq_cons (u := d.opening gap ++ (i ++ ['\x7d'])) (x := c) ?_ ?_
        · exact List.append_ne_nil_of_left_ne_nil (List.cons_ne_nil _ _) _
        · rw [htext]
          simp
      have hbuffer : before ++ (d.opening gap ++ (i ++ '\x7d' :: t)) =
          before ++ d.opening gap ++ i ++ ['\x7d'] ++ t := by simp
      rw [htext] at h ⊢
      rw [blocksFrom_written hd before t] at h ⊢
      have hrest := fun f hf => h f (List.mem_cons_of_mem _ hf)
      rw [hbuffer] at hrest
      obtain ⟨u, hu, hinside⟩ := ih t ht (before ++ d.opening gap ++ i ++ ['\x7d']) hrest
      rw [← hbuffer] at hinside
      obtain ⟨w, hw, hblock⟩ := inside_block ctx file hd.nested hinside
      refine ⟨_, .block hd hw hu, ?_⟩
      rw [List.filterMap_cons]
      cases hedit : pinned? ctx file (before ++ (d.opening gap ++ (i ++ '\x7d' :: t)))
          ⟨(before ++ d.opening gap).length, (before ++ d.opening gap).length + i.length⟩ with
      | none =>
        simp only [hedit] at hblock ⊢
        exact hblock
      | some e =>
        simp only [hedit] at hblock ⊢
        exact hblock
    · rw [Bool.not_eq_true] at hnames
      have hbuffer : before ++ c :: rest = before ++ [c] ++ rest := by simp
      rw [blocksFrom_char hsuffix hnames, hbuffer] at h ⊢
      obtain ⟨u, hu, hinside⟩ := ih rest List.suffix_rfl (before ++ [c]) h
      exact ⟨c :: u, .char hnames hu, .pass (w := [c]) hinside⟩

theorem notMem_of_pins {ctx : Context} {file : Path} {t : Text}
    {bs : List (Except BlockFault Block)} {edits : List Edit} {s s' : RunState}
    (h : pins ctx file t bs s = .ok edits s') (f : BlockFault) : .error f ∉ bs := by
  induction bs generalizing edits s s' with
  | nil => exact List.not_mem_nil
  | cons b bs ih =>
    cases b with
    | error f => cases h
    | ok b =>
      obtain ⟨edit, s₁, -, h⟩ := bind_eq_ok.1 h
      obtain ⟨others, s₂, hothers, -⟩ := bind_eq_ok.1 h
      intro hf
      exact ih hothers ((List.mem_cons.1 hf).resolve_left nofun)

theorem notMem_of_anchor {ctx : Context} {file : Path} {contents u : Text} {s s' : RunState}
    (h : anchor ctx file contents s = .ok u s') (f : BlockFault) :
    .error f ∉ fileBlocks (Scheme.document.protect contents) := by
  obtain ⟨t, s₁, ht, h⟩ := bind_eq_ok.1 h
  obtain ⟨edits, s₂, hpins, -⟩ := bind_eq_ok.1 h
  rcases Run.protect_cases .document file.toText contents s with
    ⟨f, -, hprotect⟩ | ⟨-, s₁, hprotect, -⟩
  · rw [hprotect] at ht
    cases ht
  · rw [hprotect] at ht
    cases ht
    exact notMem_of_pins hpins f

/-- What is anchored has pinned paths, and no backslash. -/
theorem pins_of_anchor {ctx : Context} {file : Path} {contents u : Text} {s s' : RunState}
    (h : anchor ctx file contents s = .ok u s') :
    Pins (ctx.files.absolute file.parent) (Scheme.document.protect contents) u ∧ '\\' ∉ u := by
  have hblocks := notMem_of_anchor h
  rw [fileBlocks_eq] at hblocks
  obtain ⟨v, hv, hinside⟩ :=
    pins_of_blocksFrom ctx file [] (Scheme.document.protect contents) hblocks
  have hanchored : anchored ctx file (Scheme.document.protect contents) = v := by
    unfold anchored
    rw [fileBlocks_eq]
    exact hinside.splice_eq
  rcases anchor_cases ctx file contents s with ⟨hfault, s₁, hok, -⟩ | ⟨e, s₁, herror, -⟩
  · rw [hok, hanchored] at h
    cases h
    exact ⟨hv, hinside.notMem (Scheme.notMem_protect hfault)⟩
  · rw [herror] at h
    cases h

/-! ## Pinning again -/

section Again

variable {base : Path} {t u : Text}

/-- Only what stands between braces has changed, so the words in front are the same. -/
theorem Pins.takeWhile_eq (h : Pins base t u) : t.takeWhile isWord = u.takeWhile isWord := by
  induction h with
  | nil => rfl
  | char _ _ ih => rw [List.takeWhile_cons, List.takeWhile_cons, ih]
  | block => rfl

theorem Pins.namesFile_eq (h : Pins base t u) (c : Char) :
    Text.namesFile (c :: t) = Text.namesFile (c :: u) := by
  unfold Text.namesFile Text.directive?
  simp only [h.takeWhile_eq]

/-- Trimming takes nothing from a text in front of a character that is not blank. -/
theorem trim_cons {c : Char} (hc : isBlank c = false) (t : Text) :
    ∃ rest, Text.trim (c :: t) = c :: rest := by
  have hdrop : ∃ rest, (t.reverse ++ [c]).dropWhile isBlank = rest ++ [c] := by
    rw [List.dropWhile_append]
    split
    · exact ⟨[], List.dropWhile_cons_of_neg (by simp [hc])⟩
    · exact ⟨_, rfl⟩
  obtain ⟨rest, hrest⟩ := hdrop
  refine ⟨rest.reverse, ?_⟩
  rw [Text.trim, Text.trimWhile, List.dropWhile_cons_of_neg (by simp [hc]), List.reverse_cons,
    hrest]
  simp

/-- What is pinned is not pinned again. -/
theorem Pinned.settled {i w : Text} (h : Pinned base i w) (hbase : base.Normal)
    (habsolute : base.isAbsolute = true) :
    (w.hasDirective || (named w).isAbsolute) = true := by
  cases h with
  | kept h => simpa using h
  | relative _ _ hrestores _ =>
    have hnormal := hbase.join (Path.normal_ofText (Text.trim (Scheme.document.deprotect i)))
    obtain ⟨rest, hrest⟩ := hnormal.exists_toText_eq (Path.isAbsolute_join habsolute _)
    obtain ⟨rest', htrim⟩ := trim_cons (c := '/') rfl rest
    have hnamed : (named w).isAbsolute = true := by
      unfold named
      rw [hrestores, named, hrest, htrim]
      exact Path.isAbsolute_ofText rest'
    rw [hnamed, Bool.or_true]

theorem Pinned.nested {i w : Text} (h : Pinned base i w) (hi : i.Nested) : w.Nested := by
  cases h with
  | kept => exact hi
  | relative _ _ _ hinert => exact hinert.nested

/-- In a text with pinned paths every block can be read, and nothing is left to pin. -/
theorem settled_of_pins (h : Pins base t u) (hbase : base.Normal)
    (habsolute : base.isAbsolute = true) (ctx : Context) (file : Path) (before : Text) :
    ∀ r ∈ blocksFrom (before ++ u) u,
      ∃ b, r = .ok b ∧ pinned? ctx file (before ++ u) b = none := by
  induction h generalizing before with
  | nil => exact nofun
  | @char c t u h rest ih =>
    have hbuffer : before ++ c :: u = before ++ [c] ++ u := by simp
    rw [rest.namesFile_eq] at h
    rw [blocksFrom_char (List.suffix_append before (c :: u)) h, hbuffer]
    exact ih (before ++ [c])
  | @block d gap i w t u hd h rest ih =>
    have hw : Names d gap w := ⟨hd.namesFile, hd.blank, h.nested hd.nested⟩
    have hbuffer : before ++ (d.opening gap ++ (w ++ '\x7d' :: u)) =
        before ++ d.opening gap ++ w ++ ['\x7d'] ++ u := by simp
    have hblock := pinned?_written ctx file before (d.opening gap) w ('\x7d' :: u)
    rw [if_pos (h.settled hbase habsolute)] at hblock
    rw [blocksFrom_written hw before u]
    refine List.forall_mem_cons.2 ⟨⟨_, rfl, hblock⟩, ?_⟩
    rw [hbuffer]
    exact ih _

/-- Anchoring leaves a text with pinned paths as it is. -/
theorem anchor_of_pins (h : Pins base t u) (hbase : base.Normal)
    (habsolute : base.isAbsolute = true) (hu : '\\' ∉ u) (ctx : Context) (file : Path)
    (s : RunState) : ∃ s', anchor ctx file u s = .ok u s' ∧ s.Alike s' := by
  have hsettled := settled_of_pins h hbase habsolute ctx file []
  rw [List.nil_append, ← fileBlocks_eq] at hsettled
  have hprotect := Scheme.protect_of_notMem (s := .document) hu
  rcases anchor_cases ctx file u s with ⟨-, s', hanchor, hs'⟩ | ⟨e, s', -, hunanchored⟩
  · have hanchored : anchored ctx file u = u := by
      unfold anchored
      rw [List.filterMap_eq_nil_iff.2]
      · rfl
      · intro r hr
        obtain ⟨b, rfl, hnone⟩ := hsettled r hr
        exact hnone
    rw [hprotect, hanchored] at hanchor
    exact ⟨s', hanchor, hs'⟩
  · cases hunanchored with
    | escape hfault =>
      rw [Scheme.fault?_of_notMem hu] at hfault
      cases hfault
    | block _ hf =>
      rw [hprotect] at hf
      obtain ⟨b, hb, -⟩ := hsettled _ hf
      cases hb

end Again

/-! ## Where pinned paths lead -/

/-- A pinned path leads from everywhere to where it leads from its own file. -/
theorem locate_of_pinned {ctx ctx' : Context} {p i w : Text} (hplaced : ctx.files.Placed)
    (h : Pinned (ctx.files.absolute (Path.ofText p).parent) i w) (hi : i.hasDirective = false)
    (htrim : Text.trim (Scheme.document.deprotect w) = Scheme.document.deprotect w) :
    ctx.files.locate (resolve ctx' (Text.trim (Scheme.document.deprotect w))) =
      ctx.files.locate
        (resolve { ctx with path := p } (Text.trim (Scheme.document.deprotect i))) := by
  cases h with
  | kept h =>
    have hpath := h.resolve_left (by rw [hi]; exact Bool.false_ne_true)
    unfold named at hpath
    unfold resolve
    rw [Path.join_of_isAbsolute hpath, Path.join_of_isAbsolute hpath]
  | relative _ _ hrestores _ =>
    have hdirectory := (Path.normal_ofText p).parent
    have hnormal := (hplaced.normal_absolute hdirectory).join
      (Path.normal_ofText (Text.trim (Scheme.document.deprotect i)))
    have hpath := Path.ofText_toText hnormal
    rw [htrim, hrestores]
    unfold resolve
    rw [named, hpath, Path.join_of_isAbsolute
      (Path.isAbsolute_join (FileTree.isAbsolute_absolute _ _) _)]
    rw [FileTree.absolute, Path.join_assoc]
    exact hplaced.locate_absolute _

end Include

/-- The paths in an included file are pinned to the directory of the file, where a keyword that
names a file is not itself in the block of one. Each leads from everywhere to where it leads from
the file itself, if blanks do not stand at the ends of what is written for it. What has been
anchored stays as it is when it is anchored again, in whatever file. -/
theorem anchor_pins (ctx : Context) (p contents : Text) {u : Text} {s s' : RunState}
    (hplaced : ctx.files.Placed)
    (h : Include.anchor ctx (Path.ofText p) contents s = .ok u s') :
    Include.Pins (ctx.files.absolute (Path.ofText p).parent)
      (Scheme.document.protect contents) u ∧
    (∀ i w, Include.Pinned (ctx.files.absolute (Path.ofText p).parent) i w →
      i.hasDirective = false →
      Text.trim (Scheme.document.deprotect w) = Scheme.document.deprotect w →
      ∀ ctx', ctx.files.locate (Include.resolve ctx' (Text.trim (Scheme.document.deprotect w))) =
        ctx.files.locate (Include.resolve { ctx with path := p }
          (Text.trim (Scheme.document.deprotect i)))) ∧
    ∀ ctx' file s₁, ∃ s₂, Include.anchor ctx' file u s₁ = .ok u s₂ ∧ s₁.Alike s₂ := by
  obtain ⟨hpins, hu⟩ := Include.pins_of_anchor h
  have hbase := hplaced.normal_absolute (Path.normal_ofText p).parent
  refine ⟨hpins, ?_, ?_⟩
  · intro i w hw hi htrim ctx'
    exact Include.locate_of_pinned hplaced hw hi htrim
  · intro ctx' file s₁
    exact Include.anchor_of_pins hpins hbase (FileTree.isAbsolute_absolute _ _) hu ctx' file s₁

theorem anchor_pins_sibling :
    Include.Pins ⟨['/'], ["work".toList, "sub".toList]⟩
      (Scheme.document.protect ".include\x7bn\x7d".toList)
      ".include\x7b/work/sub/n\x7d".toList ∧
    FileTree.locate { working := ["work".toList] }
        (Include.resolve {} (Text.trim (Scheme.document.deprotect "/work/sub/n".toList))) =
      FileTree.locate { working := ["work".toList] }
        (Include.resolve { files := { working := ["work".toList] }, path := "sub/f".toList }
          (Text.trim (Scheme.document.deprotect ['n']))) ∧
    ∃ s, Include.anchor {} (Path.ofText "g".toList) ".include\x7b/work/sub/n\x7d".toList {} =
      .ok ".include\x7b/work/sub/n\x7d".toList s := by
  have hplaced : FileTree.Placed { working := ["work".toList] } := by
    intro name hname
    cases List.mem_singleton.1 hname
    exact ⟨⟨by decide, by decide, by decide⟩, by decide, by decide⟩
  obtain ⟨s, hanchor⟩ := Run.exists_of_value?
    (r := Include.anchor { files := { working := ["work".toList] } } (Path.ofText "sub/f".toList)
      ".include\x7bn\x7d".toList {})
    (a := ".include\x7b/work/sub/n\x7d".toList) (by decide +kernel)
  obtain ⟨hpins, hlocate, hagain⟩ := anchor_pins _ _ _ hplaced hanchor
  refine ⟨hpins, ?_, ?_⟩
  · refine hlocate ['n'] _ (.relative ?_ ?_ ?_ ?_) ?_ ?_ {} <;> decide +kernel
  · obtain ⟨s₂, hok, -⟩ := hagain {} (Path.ofText "g".toList) {}
    exact ⟨s₂, hok⟩

/-- A name in the block of another keyword is overlooked, although no directive is to build it.
It is not pinned, and leads elsewhere once the text is put in. -/
theorem anchor_overlooks :
    (∃ s before after, Include.anchor { files := { working := ["work".toList] } }
        (Path.ofText "sub/f".toList)
        ".include\x7b.define_macro\x7bz\x7d\x7b.include\x7bn\x7d\x7d/work/e\x7d".toList {} =
          .ok (before ++ ".include\x7bn\x7d".toList ++ after) s ∧
      Text.hasDirective ['n'] = false ∧ (Include.named ['n']).isAbsolute = false) ∧
    ∃ s, preprocess { files := {
        files := [
          (["work".toList, "sub".toList, "f".toList],
            (".include\x7b.define_macro\x7bz\x7d\x7b.include\x7bn\x7d\x7d/work/e\x7d.macro\x7bz\x7d"
              |>.toList.flatMap Encoding.Utf8.encodeChar)),
          (["work".toList, "e".toList], []),
          (["work".toList, "sub".toList, "n".toList],
            "near".toList.flatMap Encoding.Utf8.encodeChar),
          (["work".toList, "n".toList], "far".toList.flatMap Encoding.Utf8.encodeChar)]
        working := ["work".toList] } } ".include\x7bsub/f\x7d".toList = .ok "far".toList s := by
  obtain ⟨s, hanchor⟩ := Run.exists_of_value?
    (r := Include.anchor { files := { working := ["work".toList] } } (Path.ofText "sub/f".toList)
      ".include\x7b.define_macro\x7bz\x7d\x7b.include\x7bn\x7d\x7d/work/e\x7d".toList {})
    (a := ".include\x7b.define_macro\x7bz\x7d\x7b".toList ++ ".include\x7bn\x7d".toList ++
      "\x7d/work/e\x7d".toList) (by decide +kernel)
  exact ⟨⟨s, _, _, hanchor, by decide +kernel, by decide +kernel⟩,
    Run.exists_of_value? (by decide +kernel)⟩

end Bracemark
