import Bracemark.Proofs.Codes
import Bracemark.Proofs.Outcomes
import Bracemark.Proofs.Sites

/-!
# Texts from files

A text is tidy if it holds no backslash and its braces match in order. What takes the place of
a directive that names a file is tidy if the file gives what it should: an included file a tidy
text once it is protected (`Include.tidy_anchored`), a table a text without braces and
backslashes (`Table.tidy_convert`).

The paths of an included file are pinned by edits, each of which replaces what stands between two
braces (`Edit.Inside`). So the levels of the text do not change, wherever the edits are.
-/

namespace Bracemark

/-- A text without backslashes whose braces match in order. -/
structure Text.Tidy (t : Text) : Prop where
  noEscape : '\\' ∉ t
  nested : t.Nested

namespace Text.Tidy

theorem append {t u : Text} (ht : t.Tidy) (hu : u.Tidy) : (t ++ u).Tidy :=
  ⟨List.not_mem_append ht.noEscape hu.noEscape, ht.nested.append hu.nested⟩

theorem of_inert {t : Text} (h : t.Inert) : t.Tidy := ⟨h.notMem rfl, h.nested⟩

theorem block {t : Text} (h : t.Tidy) : Text.Tidy ('\x7b' :: t ++ ['\x7d']) := by
  refine ⟨?_, h.nested.block⟩
  have := h.noEscape
  simp [this]

theorem flatMap {α : Type} {l : List α} {f : α → Text} (h : ∀ x ∈ l, (f x).Tidy) :
    Text.Tidy (l.flatMap f) := by
  induction l with
  | nil => exact ⟨List.not_mem_nil, rfl⟩
  | cons x l ih =>
    obtain ⟨hx, hl⟩ := List.forall_mem_cons.1 h
    exact hx.append (ih hl)

end Text.Tidy

/-! ## Edits between braces -/

/-- What edits make of a text that stands behind `before`, if each of them replaces a nested text
in front of a closing brace by an inert one. -/
inductive Edit.Inside : (before t : Text) → List Edit → (u : Text) → Prop where
  | done (before t : Text) : Inside before t [] t
  | pass {before w t u : Text} {edits : List Edit} (h : Inside (before ++ w) t edits u) :
      Inside before (w ++ t) edits (w ++ u)
  | edit {before i r t u : Text} {edits : List Edit} (nested : i.Nested) (inert : r.Inert)
      (h : Inside (before ++ i ++ ['\x7d']) t edits u) :
      Inside before (i ++ '\x7d' :: t) (⟨before.length, before.length + i.length, r⟩ :: edits)
        (r ++ '\x7d' :: u)

namespace Edit.Inside

variable {before t u : Text} {edits : List Edit}

/-- A block that is left alone is passed over. -/
theorem block {opening i : Text} (h : Inside (before ++ opening ++ i ++ ['\x7d']) t edits u) :
    Inside before (opening ++ (i ++ '\x7d' :: t)) edits (opening ++ (i ++ '\x7d' :: u)) := by
  have hpass := pass (w := opening ++ i ++ ['\x7d']) (by simpa only [List.append_assoc] using h)
  simpa using hpass

theorem length_le (h : Inside before t edits u) : ∀ e ∈ edits, before.length ≤ e.start := by
  induction h with
  | done => exact nofun
  | pass _ ih =>
    intro e he
    have := ih e he
    rw [List.length_append] at this
    omega
  | edit _ _ _ ih =>
    refine List.forall_mem_cons.2 ⟨Nat.le_refl _, fun e he => ?_⟩
    have := ih e he
    simp only [List.length_append] at this
    omega

theorem pairwise (h : Inside before t edits u) :
    edits.Pairwise fun d e => d.start < e.start := by
  induction h with
  | done => exact .nil
  | pass _ ih => exact ih
  | edit _ _ h ih =>
    refine List.pairwise_cons.2 ⟨fun e he => ?_, ih⟩
    have := h.length_le e he
    simp only [List.length_append, List.length_singleton] at this ⊢
    omega

theorem foldr_eq (h : Inside before t edits u) :
    edits.foldr (fun e t => e.apply t) (before ++ t) = before ++ u := by
  induction h with
  | done => rfl
  | pass _ ih => simpa only [List.append_assoc] using ih
  | @edit before i r t u edits _ _ _ ih =>
    have hsplit : before ++ (i ++ '\x7d' :: t) = before ++ i ++ ['\x7d'] ++ t := by simp
    have hbehind : before ++ i ++ ['\x7d'] ++ u = before ++ (i ++ '\x7d' :: u) := by simp
    rw [List.foldr_cons, hsplit, ih, hbehind, apply]
    simp only [List.take_left]
    rw [← List.append_assoc before i, ← List.length_append, List.drop_left, List.append_assoc]

theorem splice_eq (h : Inside [] t edits u) : t.splice edits = u := by
  rw [Text.splice_of_pairwise h.pairwise]
  exact h.foldr_eq

/-- Such edits do not change the levels of a text. -/
theorem level_eq (h : Inside before t edits u) (depth : Nat) : u.level depth = t.level depth := by
  induction h generalizing depth with
  | done => rfl
  | @pass before w t u edits _ ih =>
    rw [Text.level_append, Text.level_append]
    exact congrArg _ (funext ih)
  | @edit before i r t u edits hi hr _ ih =>
    rw [Text.level_append, Text.level_append, hi.level, hr.nested.level, Option.bind_some,
      Option.bind_some]
    cases depth with
    | zero => rfl
    | succ inner => exact ih inner

theorem notMem (h : Inside before t edits u) (ht : '\\' ∉ t) : '\\' ∉ u := by
  induction h with
  | done => exact ht
  | pass _ ih =>
    rw [List.mem_append, not_or] at ht
    obtain ⟨hw, ht⟩ := ht
    exact List.not_mem_append hw (ih ht)
  | edit _ hr _ ih =>
    rw [List.mem_append, List.mem_cons, not_or, not_or] at ht
    rw [List.mem_append, List.mem_cons, not_or, not_or]
    exact ⟨hr.notMem rfl, ht.2.1, ih ht.2.2⟩

theorem tidy_splice (h : Inside [] t edits u) (ht : t.Tidy) : (t.splice edits).Tidy := by
  rw [h.splice_eq]
  refine ⟨h.notMem ht.noEscape, ?_⟩
  unfold Text.Nested
  rw [h.level_eq]
  exact ht.nested

end Edit.Inside

/-! ## Included files -/

/-- Whether a directive names a file. -/
def Directive.namesFile (d : Directive) : Bool := d = .includeFile || d = .importTable

/-- Whether a text begins with the keyword of a directive that names a file. -/
def Text.namesFile (t : Text) : Bool :=
  match t.directive? with
  | some d => d.namesFile
  | none => false

namespace Include

/-- The token at the start of a text names a file if the text does. -/
theorem namesFile_token (c : Char) (rest : Text) (start : Nat) (text : Text) :
    namesFile ⟨(Lexer.directive c rest).1, start, text⟩ = Text.namesFile (c :: rest) := by
  unfold Text.namesFile
  rw [← Token.directive?_eq c rest start text]
  generalize (Lexer.directive c rest).1 = kind
  cases kind with
  | directive d => cases d <;> rfl
  | _ => rfl

/-- The blocks in which what is left of a buffer names files. -/
def blocksFrom (buffer t : Text) : List (Except BlockFault Block) :=
  (segment step 0 (Stretch.remaining buffer t)).flatten

theorem fileBlocks_eq (t : Text) : fileBlocks t = blocksFrom t t := by
  unfold fileBlocks blocksFrom Stretch.remaining
  rw [Nat.sub_self]
  rfl

section Lexeme

variable {buffer : Text} {c : Char} {rest s : Text} (ht : c :: rest <:+ buffer)
  (hs : rest.drop (Lexer.directive c rest).2 = s)

include ht hs

/-- The scan looks at the first token, and at the tokens of what is behind it. -/
theorem blocksFrom_eq : ∃ token : Token, namesFile token = Text.namesFile (c :: rest) ∧
    token.start + token.text.length = buffer.length - s.length ∧
    blocksFrom buffer (c :: rest) = (step token (Stretch.remaining buffer s)).1 ++
      (segment step 0 ((Stretch.remaining buffer s).drop
        (step token (Stretch.remaining buffer s)).2)).flatten := by
  have hle := Lexer.structural_directive.length_le c rest
  have hlength : s.length = rest.length - (Lexer.directive c rest).2 := by
    rw [← hs, List.length_drop]
  have hbuffer := ht.length_le
  rw [List.length_cons] at hbuffer
  have hplace : buffer.length - (c :: rest).length + 1 +
      (rest.take (Lexer.directive c rest).2).length = buffer.length - s.length := by
    rw [List.length_take, List.length_cons]
    omega
  have hhead : Stretch.remaining buffer (c :: rest) = _ := Lexer.tokensFrom_cons ..
  rw [hplace, hs, ← Stretch.remaining] at hhead
  refine ⟨⟨(Lexer.directive c rest).1, buffer.length - (c :: rest).length,
    c :: rest.take (Lexer.directive c rest).2⟩, namesFile_token .., ?_, ?_⟩
  · rw [← hplace]
    simp only [List.length_cons]
    omega
  · unfold blocksFrom
    rw [hhead, segment_zero_cons, List.flatten_cons]

/-- A lexeme that names no file is passed over. -/
theorem blocksFrom_pass (h : Text.namesFile (c :: rest) = false) :
    blocksFrom buffer (c :: rest) = blocksFrom buffer s := by
  obtain ⟨token, hnames, -, hblocks⟩ := blocksFrom_eq ht hs
  rw [hblocks, step, if_neg (by rw [hnames, h]; exact Bool.false_ne_true)]
  rfl

/-- Behind a keyword that names a file, a block is read or it cannot be read. -/
theorem blocksFrom_read (h : Text.namesFile (c :: rest) = true) :
    (∃ keyword offset f f', Text.readBlock Lexer.directive keyword offset s = .error f ∧
      f'.problem = f.problem ∧ blocksFrom buffer (c :: rest) = [.error f']) ∨
    (∃ keyword offset i a start, Text.readBlock Lexer.directive keyword offset s = .ok (i, a) ∧
      start = buffer.length - s.length + (s.takeWhile isBlank).length + 1 ∧
      blocksFrom buffer (c :: rest) = .ok ⟨start, start + i.length⟩ :: blocksFrom buffer a) := by
  obtain ⟨token, hnames, hoffset, hblocks⟩ := blocksFrom_eq ht hs
  rw [h] at hnames
  rw [hblocks]
  cases hread : Text.readBlock Lexer.directive token.text token.text.length s with
  | error f =>
    obtain ⟨left, hleft⟩ := Lexer.structural_directive.readBlock_tokensFrom_error hread
    rw [hoffset, ← Stretch.remaining] at hleft
    refine .inl ⟨_, _, f, ⟨f.problem, token.start + f.offset⟩, hread, rfl, ?_⟩
    simp only [step, hnames, if_true, hleft, List.drop_length]
    rfl
  | ok split =>
    obtain ⟨i, a⟩ := split
    obtain ⟨hsplit, -⟩ := Text.eq_of_readBlock hread
    obtain ⟨inner, hd, hclosing⟩ := Text.closing_of_readBlock hread
    have hblock := Lexer.structural_directive.readBlock_of_brace token
      (buffer.length - s.length) hd
    rw [hclosing] at hblock
    have hafter : buffer.length - s.length + (s.takeWhile isBlank).length + 1 + i.length + 1 =
        buffer.length - a.length := by
      have hlength := congrArg List.length hsplit
      simp only [List.length_append, List.length_cons] at hlength
      have hsuffix : s <:+ buffer := by
        rw [← hs]
        exact ((List.drop_suffix _ _).trans (List.suffix_cons c rest)).trans ht
      have hle := hsuffix.length_le
      omega
    simp only [hafter] at hblock
    rw [← Stretch.remaining, ← Stretch.remaining] at hblock
    have hsuffix : Stretch.remaining buffer a <:+ Stretch.remaining buffer s := by
      have hone : token.readBlocks 1 (Stretch.remaining buffer s) = .ok [_] _ :=
        (bind_of_ok hblock).trans rfl
      exact Token.readBlocks_suffix hone
    refine .inr ⟨_, _, i, a, _, hread, rfl, ?_⟩
    simp only [step, hnames, if_true, hblock]
    rw [← List.suffix_iff_eq_drop.1 hsuffix]
    rfl

end Lexeme

/-- At the start of a lexeme the scan finds nothing, a block that cannot be read, or one that
can. -/
theorem blocksFrom_cons {buffer : Text} {c : Char} {rest : Text} (ht : c :: rest <:+ buffer)
    {s : Text} (hs : rest.drop (Lexer.directive c rest).2 = s) :
    blocksFrom buffer (c :: rest) = blocksFrom buffer s ∨
    (∃ keyword offset f f', Text.readBlock Lexer.directive keyword offset s = .error f ∧
      f'.problem = f.problem ∧ blocksFrom buffer (c :: rest) = [.error f']) ∨
    (∃ gap i a start, s = gap ++ '\x7b' :: (i ++ '\x7d' :: a) ∧ Text.Nested i ∧
      start = buffer.length - s.length + gap.length + 1 ∧
      blocksFrom buffer (c :: rest) = .ok ⟨start, start + i.length⟩ :: blocksFrom buffer a) := by
  by_cases h : Text.namesFile (c :: rest) = true
  · refine .inr ?_
    rcases blocksFrom_read ht hs h with hfault | ⟨keyword, offset, i, a, start, hread, hstart, hok⟩
    · exact .inl hfault
    · obtain ⟨hsplit, hi⟩ := Text.eq_of_readBlock hread
      rw [List.append_assoc, List.cons_append] at hsplit
      exact .inr ⟨s.takeWhile isBlank, i, a, start, hsplit, hi, hstart, hok⟩
  · rw [Bool.not_eq_true] at h
    exact .inl (blocksFrom_pass ht hs h)

/-- No block is left open in a text that closes all that is open. -/
theorem problem_of_blocksFrom {buffer t : Text} (ht : t <:+ buffer) (hcloses : t.Closes)
    {f : BlockFault} (h : .error f ∈ blocksFrom buffer t) :
    ∀ word, f.problem ≠ .unterminated word := by
  induction t using suffix_induction with
  | nil => cases h
  | cons c rest ih =>
    generalize hs : rest.drop (Lexer.directive c rest).2 = s
    have hbehind : s <:+ rest := by
      rw [← hs]
      exact List.drop_suffix _ rest
    have hsuffix := hbehind.trans (List.suffix_cons c rest)
    rcases blocksFrom_cons ht hs with hpass | ⟨keyword, offset, g, g', hread, hproblem, hfault⟩ |
      ⟨gap, i, a, start, hsplit, -, -, hblock⟩
    · rw [hpass] at h
      exact ih s hbehind (hsuffix.trans ht) (hcloses.suffix hsuffix) h
    · rw [hfault] at h
      cases List.mem_singleton.1 h
      rw [hproblem]
      exact Text.problem_of_readBlock (hcloses.suffix hsuffix) hread
    · have ha : a <:+ s := by
        rw [hsplit]
        exact ⟨gap ++ '\x7b' :: (i ++ ['\x7d']), by simp⟩
      rw [hblock] at h
      rcases List.mem_cons.1 h with h | h
      · cases h
      · exact ih a (ha.trans hbehind) (ha.trans (hsuffix.trans ht))
          (hcloses.suffix (ha.trans hsuffix)) h

/-- Edits of blocks in which files are named are edits between braces. -/
theorem inside_of_blocksFrom {pinning : Block → Option Edit}
    (hpin : ∀ b e, pinning b = some e → ∃ r, Text.Inert r ∧ e = ⟨b.start, b.stop, r⟩)
    (before t : Text) : ∃ u, Edit.Inside before t ((blocksFrom (before ++ t) t).filterMap fun
      | .ok b => pinning b
      | .error _ => none) u := by
  induction t using suffix_induction generalizing before with
  | nil => exact ⟨[], .done before []⟩
  | cons c rest ih =>
    generalize hs : rest.drop (Lexer.directive c rest).2 = s
    have hcut : c :: rest = c :: rest.take (Lexer.directive c rest).2 ++ s := by
      rw [← hs, List.cons_append, List.take_append_drop]
    have hbehind : s <:+ rest := by
      rw [← hs]
      exact List.drop_suffix _ rest
    generalize c :: rest.take (Lexer.directive c rest).2 = w at hcut
    rcases blocksFrom_cons (List.suffix_append before (c :: rest)) hs with
      hpass | ⟨-, -, -, f, -, -, hfault⟩ | ⟨gap, i, a, start, rfl, hi, hstart, hblock⟩
    · -- nothing is found in this lexeme
      obtain ⟨u, hu⟩ := ih s hbehind (before ++ w)
      rw [hpass, hcut, ← List.append_assoc]
      exact ⟨w ++ u, .pass hu⟩
    · rw [hfault]
      exact ⟨_, .done before _⟩
    · have ha : a <:+ rest :=
        List.IsSuffix.trans ⟨gap ++ '\x7b' :: (i ++ ['\x7d']), by simp⟩ hbehind
      have htext : c :: rest = w ++ gap ++ ['\x7b'] ++ (i ++ '\x7d' :: a) := by
        rw [hcut]
        simp
      have hplace : start = (before ++ (w ++ gap ++ ['\x7b'])).length := by
        rw [hstart, hcut]
        simp only [List.length_append, List.length_cons, List.length_nil]
        omega
      generalize w ++ gap ++ ['\x7b'] = opening at htext hplace
      have hbuffer : before ++ c :: rest = before ++ opening ++ i ++ ['\x7d'] ++ a := by
        rw [htext]
        simp
      obtain ⟨u, hu⟩ := ih a ha (before ++ opening ++ i ++ ['\x7d'])
      rw [hblock, List.filterMap_cons, hbuffer, htext]
      cases hedit : pinning ⟨start, start + i.length⟩ with
      | none =>
        simp only [hedit]
        exact ⟨_, hu.block⟩
      | some e =>
        obtain ⟨r, hinert, rfl⟩ := hpin _ e hedit
        simp only [hedit]
        rw [hplace]
        exact ⟨_, .pass (.edit hi hinert hu)⟩

theorem tidy_anchored (ctx : Context) (file : Path) {t : Text} (ht : t.Tidy) :
    (anchored ctx file t).Tidy := by
  have hpin (b : Block) (e : Edit) (he : pinned? ctx file t b = some e) :
      ∃ r, Text.Inert r ∧ e = ⟨b.start, b.stop, r⟩ := by
    unfold pinned? at he
    simp only at he
    split at he
    · cases he
    · cases he
      exact ⟨_, Scheme.inert_shield _, rfl⟩
  obtain ⟨u, hu⟩ := inside_of_blocksFrom hpin [] t
  unfold anchored
  rw [fileBlocks_eq]
  exact hu.tidy_splice ht

theorem problem_of_fileBlocks {t : Text} (ht : t.Nested) {f : BlockFault}
    (h : .error f ∈ fileBlocks t) : ∀ word, f.problem ≠ .unterminated word := by
  rw [fileBlocks_eq] at h
  exact problem_of_blocksFrom List.suffix_rfl ht.closes h

end Include

/-! ## Tables -/

/-- A text without braces and backslashes. -/
def Text.Flat (t : Text) : Prop := ∀ c ∈ t, isBrace c = false ∧ c ≠ '\\'

theorem Text.Flat.tidy {t : Text} (h : t.Flat) : t.Tidy :=
  ⟨fun hm => (h _ hm).2 rfl, .of_noBrace fun c hc => (h c hc).1⟩

namespace Table

/-- The characters that have been read. -/
def Reading.read (r : Reading) : Text := r.rows.flatten.flatten ++ r.row.flatten ++ r.item

theorem Reading.mem_of_mem_endRow {r : Reading} {item : Text} (h : item ∈ r.endRow) :
    item ∈ r.row ∨ item = r.item := by
  unfold endRow at h
  split at h
  · simpa using h
  · exact .inl h

theorem Reading.mem_step {r : Reading} {lexeme : TokenKind × Text} {c : Char}
    (h : c ∈ (r.step lexeme).read) : c ∈ r.read ∨ c ∈ lexeme.2 := by
  unfold step read at h
  unfold read
  split at h
  · refine .inl ?_
    simpa using h
  · simp only [List.flatten_append, List.flatten_cons, List.flatten_nil, List.append_nil,
      List.mem_append] at h ⊢
    rcases h with h | h
    · exact .inl (.inl (.inl h))
    · obtain ⟨item, hitem, hc⟩ := List.mem_flatten.1 h
      rcases mem_of_mem_endRow hitem with hitem | rfl
      · exact .inl (.inl (.inr (List.mem_flatten.2 ⟨item, hitem, hc⟩)))
      · exact .inl (.inr hc)
  · simpa only [List.mem_append, or_assoc] using h

theorem Reading.mem_foldl {r : Reading} {lexemes : List (TokenKind × Text)} {c : Char}
    (h : c ∈ (lexemes.foldl Reading.step r).read) :
    c ∈ r.read ∨ c ∈ lexemes.flatMap (·.2) := by
  induction lexemes generalizing r with
  | nil => exact .inl h
  | cons lexeme lexemes ih =>
    rw [List.flatMap_cons, List.mem_append]
    rcases ih h with h | h
    · rcases Reading.mem_step h with h | h
      · exact .inl h
      · exact .inr (.inl h)
    · exact .inr (.inr h)

/-- The items of a table hold characters of its text only. -/
theorem subset_of_mem_rows {t item : Text} {row : List Text} (hrow : row ∈ rows t)
    (hitem : item ∈ row) : item ⊆ t := by
  intro c hc
  have hfinish (r : Reading) (hrow : row ∈ r.finish) : c ∈ r.read := by
    have hrow : row ∈ r.rows ∨ row = r.endRow := by
      unfold Reading.finish at hrow
      split at hrow
      · exact .inl hrow
      · simpa using hrow
    simp only [Reading.read, List.mem_append, List.mem_flatten]
    rcases hrow with hrow | rfl
    · exact .inl (.inl ⟨item, ⟨row, hrow, hitem⟩, hc⟩)
    · rcases Reading.mem_of_mem_endRow hitem with hitem | rfl
      · exact .inl (.inr ⟨item, hitem, hc⟩)
      · exact .inr hc
  rcases Reading.mem_foldl (hfinish _ hrow) with h | h
  · cases h
  · rwa [Lexer.flatMap_lexemes] at h

theorem tidy_block (word : Kind) {interior : Text} (h : interior.Tidy) :
    (block word interior).Tidy := by
  have hword : Text.Inert word.word.toList := by cases word <;> decide
  have := (Text.Tidy.of_inert hword).append h.block
  simpa only [block, List.append_assoc, List.cons_append] using this

theorem tidy_markup {rows : List (List Text)} (h : ∀ row ∈ rows, ∀ item ∈ row, item.Tidy) :
    (markup rows).Tidy :=
  tidy_block _ <| .flatMap fun row hrow => tidy_block _ <| .flatMap fun item hitem =>
    tidy_block _ (h row hrow item hitem)

end Table

namespace Chunk

/-- The chunks of a text spell the text. -/
theorem flatMap_written (t : Text) : (ofText t).flatMap written = t := by
  refine flatMap_segment (fun c rest => ?_) t
  unfold step
  split
  · split <;> rfl
  · rfl

/-- No code in a text holds a brace. -/
theorem noBrace_of_mem {t : Text} {g : Tag} (h : .code g ∈ ofText t) :
    ∀ x ∈ g.code, isBrace x = false := by
  intro x hx
  cases hbrace : isBrace x with
  | false => rfl
  | true =>
    rw [Tag.code_eq, List.mem_cons] at hx
    have hinner : Tag.isInner x = true := by
      rcases hx with rfl | hx
      · cases hbrace
      · exact (mem_ofText_iff.1 h).1.isInner_of_mem hx
    rcases eq_of_isBrace hbrace with rfl | rfl
    all_goals cases hinner

end Chunk

/-- What a code of a table stands for is neither a brace nor a backslash. -/
theorem Scheme.flat_character? (g : Tag) : Text.Flat (table.character? g).toList := by
  have hall : (table.tags.map (·.1)).all (fun c => !isBrace c && c ≠ '\\') = true := by decide
  intro c hc
  suffices hmem : c ∈ table.tags.map (·.1) by simpa using List.all_eq_true.1 hall c hmem
  rw [Option.mem_toList, character?, Option.map_eq_some_iff] at hc
  obtain ⟨entry, hentry, rfl⟩ := hc
  exact List.mem_map_of_mem (List.mem_of_find?_eq_some hentry)

/-- Chunks open and close as many blocks when the codes of a table are replaced. -/
theorem Scheme.level_deprotectChunk {ks : List Chunk}
    (h : ∀ g, .code g ∈ ks → ∀ x ∈ g.code, isBrace x = false) (depth : Nat) :
    Text.level depth (ks.flatMap table.deprotectChunk) =
      Text.level depth (ks.flatMap Chunk.written) := by
  induction ks generalizing depth with
  | nil => rfl
  | cons k ks ih =>
    have hrest := funext (ih fun g hg => h g (List.mem_cons_of_mem _ hg))
    rw [List.flatMap_cons, List.flatMap_cons, Text.level_append, Text.level_append, hrest]
    cases k with
    | plain c => rfl
    | code g =>
      rw [deprotectChunk, Chunk.written, (flat_character? g).tidy.nested.level,
        Text.level_of_noBrace (h g List.mem_cons_self)]

/-- Restoring the separators of a table leaves its braces alone. -/
theorem Scheme.tidy_deprotect {t : Text} (h : t.Tidy) : (table.deprotect t).Tidy := by
  have hwritten := Chunk.flatMap_written t
  refine ⟨fun hm => ?_, ?_⟩
  · obtain ⟨k, hk, hx⟩ := List.mem_flatMap.1 hm
    cases k with
    | plain c =>
      refine h.noEscape ?_
      rw [← hwritten]
      exact List.mem_flatMap.2 ⟨_, hk, hx⟩
    | code g => exact (flat_character? g _ hx).2 rfl
  · unfold Text.Nested deprotect
    rw [level_deprotectChunk fun g => Chunk.noBrace_of_mem, hwritten]
    exact h.nested

/-- Collapsing puts in no character but the space. -/
theorem Text.mem_of_mem_collapse {t : Text} {x : Char} (hx : x ≠ ' ') (h : x ∈ t.collapse) :
    x ∈ t := by
  induction t using collapse_induction with
  | nil => cases h
  | blank c rest hc ih =>
    rw [collapse_blank hc] at h
    have hrest := ih ((List.mem_cons.1 h).resolve_left hx)
    exact List.mem_cons_of_mem c ((List.dropWhile_suffix isBlank).subset hrest)
  | other c rest hc ih =>
    rw [collapse_cons hc] at h
    rcases List.mem_cons.1 h with rfl | h
    · exact List.mem_cons_self
    · exact List.mem_cons_of_mem c (ih h)

/-- Collapsing blanks leaves the braces of a text alone. -/
theorem Text.level_collapse (t : Text) (depth : Nat) : t.collapse.level depth = t.level depth := by
  induction t using collapse_induction generalizing depth with
  | nil => rfl
  | blank c rest hc ih =>
    have hgap : ∀ x ∈ c :: rest.takeWhile isBlank, isBrace x = false :=
      Spaced.noBrace_of_blank
        (List.forall_mem_cons.2 ⟨hc, fun x => eq_true_of_mem_takeWhile⟩)
    have hsplit : c :: rest = c :: rest.takeWhile isBlank ++ rest.dropWhile isBlank := by
      rw [List.cons_append, List.takeWhile_append_dropWhile]
    rw [collapse_blank hc, hsplit, level_append, level_of_noBrace hgap, Option.bind_some, ← ih]
    exact level_cons_of_isBrace_false rfl depth _
  | other c rest hc ih =>
    rw [collapse_cons hc, ← List.singleton_append, ← List.singleton_append (l := rest),
      level_append, level_append]
    exact congrArg _ (funext ih)

theorem Text.tidy_collapse {t : Text} (h : t.Tidy) : t.collapse.Tidy := by
  refine ⟨fun hm => h.noEscape (mem_of_mem_collapse (by decide) hm), ?_⟩
  unfold Nested
  rw [level_collapse]
  exact h.nested

/-- A table becomes tidy markup if its text has neither braces nor backslashes. -/
theorem Table.tidy_convert {t : Text} (h : t.Flat) : (convert t).Tidy := by
  unfold convert protectedMarkup
  rw [Scheme.protect_of_notMem h.tidy.noEscape]
  refine Text.tidy_collapse (Scheme.tidy_deprotect (tidy_markup ?_))
  intro row hrow item hitem
  have hflat : item.Flat := fun c hc => h c (subset_of_mem_rows hrow hitem hc)
  exact hflat.tidy

end Bracemark
