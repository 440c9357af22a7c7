import Bracemark.Proofs.Passes

/-!
# Inline expressions

Plain text, links, formats and code points, one behind the other and one inside the other.
`Inline.spelling` is how a document writes an expression, and `Inline.value` evaluates it from
the inside out. Preprocessing goes another way: it resolves a link before what is inside of
it, a format behind it, and a code point last of all, one family and one pass after the
other.

A stage turns an expression into another one of the same value (`Inline.value_stage`), and it
does to the spelling what it does to the expression (`Inline.rewrites`). Every pass lowers the
depth (`Inline.depth_pass_le`), and an expression of depth 0 is spelled as its value. So
preprocessing ends with the value (`preprocess_spelling`).
-/

namespace Bracemark

/-! ## Formats -/

namespace Style

/-- The characters that name a style. -/
def specifiers : Text := ['b', 'i', '_', '^', 's', 'x']

/-- A text in the style that a character names. -/
def put (t : Text) (c : Char) : Text :=
  match ofSpecifier? c with
  | some (.element name) => wrap name t
  | some .phonetic => Scheme.document.shield (Sampa.transcribe (Scheme.document.deprotect t))
  | none => t

/-- A text in the styles that a format names, each at its first naming. -/
def formatted (spec t : Text) : Text := spec.eraseDups.foldl put t

theorem apply_yields {c : Char} {style : Style} (h : ofSpecifier? c = some style) (t : Text) :
    (style.apply t).Yields (put t c) := by
  unfold put
  rw [h]
  cases style with
  | element name => exact .pure _
  | phonetic => exact (Run.Yields.deprotect _ t).bind (.pure _)

theorem exists_ofSpecifier? {c : Char} (h : c ∈ specifiers) :
    ∃ style, ofSpecifier? c = some style := by
  have hall : (specifiers.all fun c => (ofSpecifier? c).isSome) = true := by decide
  exact Option.isSome_iff_exists.1 (List.all_eq_true.1 hall c h)

/-- Leaving out what equals a character comes to the same as having seen it. -/
theorem filter_seen_cons (seen rest : Text) (c : Char) :
    (rest.filter fun d => !seen.contains d).filter (fun d => !d == c) =
      rest.filter fun d => !(c :: seen).contains d := by
  rw [List.filter_filter]
  refine List.filter_congr fun d _ => ?_
  rw [List.contains_cons, Bool.not_or]

/-- Outside strict mode a format gives the text in its styles, those seen before aside. -/
theorem applyAll_yields {ctx : Context} (hstrict : ctx.settings.strict = false) (line : Nat)
    {spec : Text} (hspec : ∀ c ∈ spec, c ∈ specifiers) (seen t : Text) :
    (applyAll ctx line seen spec t).Yields
      ((spec.filter fun c => !seen.contains c).eraseDups.foldl put t) := by
  induction spec generalizing seen t with
  | nil => exact .pure t
  | cons c rest ih =>
    obtain ⟨hc, hrest⟩ := List.forall_mem_cons.1 hspec
    rw [applyAll]
    cases hseen : seen.contains c with
    | true =>
      have hwarn : (repeated ctx line c).Yields () := by
        unfold repeated
        rw [hstrict]
        exact Run.Yields.warn ctx line _
      rw [List.filter_cons_of_neg (by rw [hseen]; exact Bool.false_ne_true)]
      exact hwarn.bind (ih hrest seen t)
    | false =>
      obtain ⟨style, hstyle⟩ := exists_ofSpecifier? hc
      rw [List.filter_cons_of_pos (by rw [hseen]; rfl), List.eraseDups_cons, List.foldl_cons,
        filter_seen_cons]
      simp only [Bool.false_eq_true, if_false, hstyle]
      exact (apply_yields hstyle t).bind (ih hrest (c :: seen) (put t c))

theorem formatted_yields {ctx : Context} (hstrict : ctx.settings.strict = false) (line : Nat)
    {spec : Text} (hspec : ∀ c ∈ spec, c ∈ specifiers) (t : Text) :
    (applyAll ctx line [] spec t).Yields (formatted spec t) := by
  have hall : (spec.filter fun c => !List.contains [] c) = spec :=
    List.filter_eq_self.2 fun _ _ => rfl
  have := applyAll_yields hstrict line hspec [] t
  rwa [hall] at this

/-- A style puts a text between inert ones, or makes it inert. -/
theorem put_cases (t : Text) (c : Char) :
    (put t c).Inert ∨ ∃ a b : Text, a.Inert ∧ b.Inert ∧ put t c = a ++ t ++ b := by
  have wrapped {name : String} (ho : Text.Inert ("<" ++ name ++ ">").toList)
      (hc : Text.Inert ("</" ++ name ++ ">").toList) :
      ∃ a b : Text, a.Inert ∧ b.Inert ∧ wrap name t = a ++ t ++ b := ⟨_, _, ho, hc, rfl⟩
  unfold put ofSpecifier?
  split
  · rename_i name h
    refine .inr ?_
    split at h <;> cases h
    all_goals exact wrapped (by decide) (by decide)
  · exact .inl (Scheme.inert_shield _)
  · exact .inr ⟨[], [], nofun, nofun, (List.append_nil t).symm⟩

/-- What every style keeps, a format keeps. -/
theorem formatted_induction {P : Text → Prop} (hput : ∀ t c, P t → P (put t c)) (spec : Text)
    {t : Text} (h : P t) : P (formatted spec t) := by
  unfold formatted
  generalize spec.eraseDups = names
  induction names generalizing t with
  | nil => exact h
  | cons c names ih => exact ih (hput t c h)

theorem inert_formatted (spec : Text) {t : Text} (h : t.Inert) : (formatted spec t).Inert := by
  refine formatted_induction (fun t c h => ?_) spec h
  rcases put_cases t c with hput | ⟨a, b, ha, hb, hput⟩
  · exact hput
  · rw [hput]
    exact (ha.append h).append hb

end Style

/-! ## Links -/

/-- A link stands in three inert texts. -/
theorem Resolve.linkText_eq : ∃ a b c : Text, a.Inert ∧ b.Inert ∧ c.Inert ∧
    ∀ text url, linkText text url = a ++ url ++ b ++ text ++ c :=
  ⟨"<a href=\"".toList, "\">".toList, "</a>".toList, by decide, by decide, by decide,
    fun _ _ => rfl⟩

/-! ## Code points -/

namespace Pattern

theorem toNat_of_isHex {c : Char} (h : Pattern.isHex c = true) :
    0x30 ≤ c.toNat ∧ c.toNat ≤ 0x66 := by
  simp only [Pattern.isHex, Char.isDigit, Bool.or_eq_true, Bool.and_eq_true, decide_eq_true_eq,
    Char.le_def, UInt32.le_iff_toNat_le] at h
  unfold Char.toNat
  simp only [show '0'.val.toNat = 0x30 from rfl, show '9'.val.toNat = 0x39 from rfl,
    show 'a'.val.toNat = 0x61 from rfl, show 'f'.val.toNat = 0x66 from rfl,
    show 'A'.val.toNat = 0x41 from rfl, show 'F'.val.toNat = 0x46 from rfl] at h
  omega

theorem isBlank_of_isHex {c : Char} (h : Pattern.isHex c = true) : isBlank c = false := by
  have := toNat_of_isHex h
  exact isBlank_of_ascii (by omega) (by omega)

theorem isReserved_of_isHex {c : Char} (h : Pattern.isHex c = true) : isReserved c = false := by
  cases hc : isReserved c with
  | false => rfl
  | true => rcases eq_of_isReserved hc with rfl | rfl | rfl | rfl <;> cases h

end Pattern

/-- Nothing is trimmed off a text without blanks. -/
theorem Text.trim_of_notBlank {t : Text} (h : ∀ c ∈ t, isBlank c = false) : t.trim = t := by
  have hdrop {u : Text} (hu : ∀ c ∈ u, isBlank c = false) : u.dropWhile isBlank = u := by
    cases u with
    | nil => rfl
    | cons c u => exact List.dropWhile_cons_of_neg (Bool.eq_false_iff.1 (hu c List.mem_cons_self))
  rw [trim, trimWhile, hdrop h, hdrop fun c hc => h c (List.mem_reverse.1 hc), List.reverse_reverse]

/-- One to six hexadecimal digits that spell a code point and no surrogate. -/
structure Numeral where
  digits : Text
  notEmpty : 0 < digits.length
  short : digits.length ≤ 6
  hex : ∀ c ∈ digits, Pattern.isHex c = true
  valid : (Pattern.digitsValue 16 digits).isValidChar

namespace Numeral

/-- The character that a numeral names. -/
def character (n : Numeral) : Char := Char.ofNat (Pattern.digitsValue 16 n.digits)

theorem inert_digits (n : Numeral) : n.digits.Inert :=
  fun c hc => Pattern.isReserved_of_isHex (n.hex c hc)

theorem trim_digits (n : Numeral) : n.digits.trim = n.digits :=
  Text.trim_of_notBlank fun c hc => Pattern.isBlank_of_isHex (n.hex c hc)

/-- A numeral is accepted, and read as the character that it names. -/
theorem codePoint?_digits (n : Numeral) : Resolve.codePoint? n.digits = some n.character := by
  have hlength : ¬(n.digits.length = 0 || 6 < n.digits.length ||
      !n.digits.all Pattern.isHex) = true := by
    have := n.notEmpty
    have := n.short
    rw [List.all_eq_true.2 n.hex]
    simp only [Bool.not_true, Bool.or_false, Bool.or_eq_true, decide_eq_true_eq]
    omega
  have hvalid : ¬(0x10FFFF < Pattern.digitsValue 16 n.digits ||
      (0xD800 ≤ Pattern.digitsValue 16 n.digits &&
        Pattern.digitsValue 16 n.digits ≤ 0xDFFF)) = true := by
    have := n.valid
    unfold Nat.isValidChar at this
    simp only [Bool.or_eq_true, Bool.and_eq_true, decide_eq_true_eq]
    omega
  unfold Resolve.codePoint?
  simp only
  rw [if_neg hlength, if_neg hvalid]
  rfl

end Numeral

/-! ## Expressions -/

/-- Plain text, links, formats and code points, one behind the other and one inside the
other. -/
inductive Inline where
  | plain (t : Text) (inert : t.Inert)
  | seq (first second : Inline)
  | link (text url : Inline)
  | format (spec : Text) (known : ∀ c ∈ spec, c ∈ Style.specifiers) (body : Inline)
  | codePoint (n : Numeral)

namespace Inline

/-- An expression as a document writes it. -/
def spelling : Inline → Text
  | plain t _ => t
  | seq e e' => e.spelling ++ e'.spelling
  | link text url => Directive.link.written [text.spelling, url.spelling]
  | format spec _ body => Directive.format.written [spec, body.spelling]
  | codePoint n => Directive.codePoint.written [n.digits]

/-- The text that an expression stands for. -/
def value : Inline → Text
  | plain t _ => t
  | seq e e' => e.value ++ e'.value
  | link text url => Resolve.linkText text.value url.value
  | format spec _ body => Style.formatted spec body.value
  | codePoint n => Scheme.document.shield [n.character]

/-- How deep the directives of an expression are nested. -/
def depth : Inline → Nat
  | plain _ _ => 0
  | seq e e' => max e.depth e'.depth
  | link text url => max text.depth url.depth + 1
  | format _ _ body => body.depth + 1
  | codePoint _ => 1

theorem inert_specifiers {spec : Text} (h : ∀ c ∈ spec, c ∈ Style.specifiers) : spec.Inert := by
  have all : Style.specifiers.Inert := by decide
  exact fun c hc => all c (h c hc)

theorem inert_linkText {text url : Text} (htext : text.Inert) (hurl : url.Inert) :
    (Resolve.linkText text url).Inert := by
  obtain ⟨a, b, c, ha, hb, hc, hlink⟩ := Resolve.linkText_eq
  rw [hlink]
  exact (((ha.append hurl).append hb).append htext).append hc

theorem inert_value (e : Inline) : e.value.Inert := by
  induction e with
  | plain t inert => exact inert
  | seq e e' ih ih' => exact ih.append ih'
  | link text url ih ih' => exact inert_linkText ih ih'
  | format spec known body ih => exact Style.inert_formatted spec ih
  | codePoint n => exact Scheme.inert_shield _

/-! ## Spellings -/

/-- An expression without directives is spelled as its value. -/
theorem spelling_of_depth_zero {e : Inline} (h : e.depth = 0) : e.spelling = e.value := by
  induction e with
  | plain t inert => rfl
  | seq e e' ih ih' =>
    obtain ⟨hl, hr⟩ := Nat.max_eq_zero_iff.1 h
    rw [spelling, value, ih hl, ih' hr]
  | link text url => cases h
  | format spec known body => cases h
  | codePoint n => cases h

/-- Any other expression is spelled with a keyword in front of a brace. -/
theorem exists_keyword {e : Inline} (h : 0 < e.depth) :
    ∃ u d v, e.spelling = u ++ '.' :: (Directive.name d).toList ++ '\x7b' :: v := by
  induction e with
  | plain t inert => cases h
  | seq e e' ih ih' =>
    by_cases he : 0 < e.depth
    · obtain ⟨u, d, v, hv⟩ := ih he
      refine ⟨u, d, v ++ e'.spelling, ?_⟩
      rw [spelling, hv, List.append_assoc _ _ e'.spelling]
      rfl
    · have he' : 0 < e'.depth := by
        rw [depth] at h
        omega
      obtain ⟨u, d, v, hv⟩ := ih' he'
      refine ⟨e.spelling ++ u, d, v, ?_⟩
      rw [spelling, hv]
      simp only [List.append_assoc]
  | link text url => exact ⟨[], .link, _, Directive.written_cons ..⟩
  | format spec known body => exact ⟨[], .format, _, Directive.written_cons ..⟩
  | codePoint n => exact ⟨[], .codePoint, _, Directive.written_cons ..⟩

theorem hasDirective_spelling (e : Inline) : e.spelling.hasDirective = decide (0 < e.depth) := by
  by_cases h : 0 < e.depth
  · obtain ⟨u, d, v, hv⟩ := exists_keyword h
    rw [decide_eq_true h, hv, List.append_assoc, Text.hasDirective_iff]
    refine ⟨_, List.suffix_append .., ?_⟩
    rw [List.cons_append, d.directive?_keyword]
    rfl
  · rw [decide_eq_false h, spelling_of_depth_zero (Nat.eq_zero_of_not_pos h)]
    exact Text.hasDirective_of_notMem (e.inert_value.notMem rfl)

theorem nested_spelling (e : Inline) : e.spelling.Nested := by
  induction e with
  | plain t inert => exact inert.nested
  | seq e e' ih ih' => exact ih.append ih'
  | link text url ih ih' => exact Directive.nested_written _ (by simp [ih, ih'])
  | format spec known body ih =>
    exact Directive.nested_written _ (by simp [ih, (inert_specifiers known).nested])
  | codePoint n => exact Directive.nested_written _ (by simp [n.inert_digits.nested])

theorem notMem_spelling (e : Inline) : '\\' ∉ e.spelling := by
  induction e with
  | plain t inert => exact inert.notMem rfl
  | seq e e' ih ih' => exact List.not_mem_append ih ih'
  | link text url ih ih' => exact Directive.notMem_written _ (by simp [ih, ih'])
  | format spec known body ih =>
    exact Directive.notMem_written _ (by simp [ih, (inert_specifiers known).notMem (c := '\\') rfl])
  | codePoint n =>
    exact Directive.notMem_written _ (by simp [n.inert_digits.notMem (c := '\\') rfl])

/-! ## Stages -/

/-- The parts of the element of a link, one behind the other. -/
def linked (text url : Inline) : Inline :=
  seq (plain "<a href=\"".toList (by decide)) <| seq url <|
    seq (plain "\">".toList (by decide)) <| seq text (plain "</a>".toList (by decide))

theorem spelling_linked (text url : Inline) :
    (linked text url).spelling = Resolve.linkText text.spelling url.spelling := by
  unfold linked Resolve.linkText
  simp only [spelling, List.append_assoc]

theorem value_linked (text url : Inline) :
    (linked text url).value = Resolve.linkText text.value url.value := by
  unfold linked Resolve.linkText
  simp only [value, List.append_assoc]

theorem depth_linked (text url : Inline) :
    (linked text url).depth = max text.depth url.depth := by
  simp only [linked, depth]
  omega

/-- What the stage of a family does to an expression. A link falls apart into the parts of
its element, a format waits until no directive is left in its body. -/
def stage (f : Family) : Inline → Inline
  | plain t inert => plain t inert
  | seq e e' => seq (e.stage f) (e'.stage f)
  | link text url =>
    if f = .links then linked text url else link (text.stage f) (url.stage f)
  | format spec known body =>
    if f = .formats ∧ body.depth = 0 then
      plain (Style.formatted spec body.value) (Style.inert_formatted spec body.inert_value)
    else format spec known (body.stage f)
  | codePoint n =>
    if f = .codePoints then plain (Scheme.document.shield [n.character]) (Scheme.inert_shield _)
    else codePoint n

/-- A stage keeps the value of an expression. -/
theorem value_stage (f : Family) (e : Inline) : (e.stage f).value = e.value := by
  induction e with
  | plain t inert => rfl
  | seq e e' ih ih' => rw [stage, value, value, ih, ih']
  | link text url ih ih' =>
    rw [stage]
    split
    · rw [value_linked, value]
    · rw [value, value, ih, ih']
  | format spec known body ih =>
    rw [stage]
    split
    · rfl
    · rw [value, value, ih]
  | codePoint n =>
    rw [stage]
    split <;> rfl

theorem depth_stage_le (f : Family) (e : Inline) : (e.stage f).depth ≤ e.depth := by
  induction e with
  | plain t inert => exact Nat.le_refl 0
  | seq e e' ih ih' =>
    simp only [stage, depth]
    omega
  | link text url ih ih' =>
    rw [stage]
    split
    · rw [depth_linked, depth]
      exact Nat.le_succ _
    · simp only [depth]
      omega
  | format spec known body ih =>
    rw [stage]
    split
    · exact Nat.zero_le _
    · simp only [depth]
      omega
  | codePoint n =>
    rw [stage]
    split
    · exact Nat.zero_le _
    · exact Nat.le_refl _

/-- The other families have nothing to resolve in an expression. -/
theorem stage_of_ne {f : Family} (hl : f ≠ .links) (hf : f ≠ .formats) (hc : f ≠ .codePoints)
    (e : Inline) : e.stage f = e := by
  induction e with
  | plain t inert => rfl
  | seq e e' ih ih' => rw [stage, ih, ih']
  | link text url ih ih' => rw [stage, if_neg hl, ih, ih']
  | format spec known body ih => rw [stage, if_neg fun h => hf h.1, ih]
  | codePoint n => rw [stage, if_neg hc]

variable {ctx : Context}

/-- A stage does to the spelling of an expression what it does to the expression. -/
theorem rewrites (hstrict : ctx.settings.strict = false) (f : Family) (e : Inline) :
    Rewrites ctx f e.spelling (e.stage f).spelling := by
  induction e with
  | plain t inert => exact .kept (inert.notMem rfl)
  | seq e e' ih ih' => exact ih.append ih'
  | link text url ih ih' =>
    rw [stage]
    split
    · rename_i hf
      subst hf
      rw [spelling_linked]
      refine Rewrites.site (d := .link) rfl ?_ rfl fun start stop line => .pure _
      simp [text.nested_spelling, url.nested_spelling]
    · rename_i hf
      refine Rewrites.waiting (d := .link) [(text.spelling, (text.stage f).spelling),
        (url.spelling, (url.stage f).spelling)] rfl ?_ (.inl fun h => hf h.symm) ?_
      · simp [text.nested_spelling, url.nested_spelling]
      · simp [ih, ih']
  | format spec known body ih =>
    have hspec := inert_specifiers known
    rw [stage]
    split
    · rename_i hf
      obtain ⟨rfl, hdepth⟩ := hf
      have hready : [spec, body.spelling].any Text.hasDirective = false := by
        simp [body.hasDirective_spelling, hdepth, Text.hasDirective_of_notMem (hspec.notMem rfl)]
      refine Rewrites.site (d := .format) rfl ?_ (by rw [hready]; rfl) fun start stop line => ?_
      · simp [hspec.nested, body.nested_spelling]
      · have := Style.formatted_yields hstrict line known body.spelling
        rw [spelling, ← spelling_of_depth_zero hdepth]
        exact this
    · rename_i hf
      refine Rewrites.waiting (d := .format) [(spec, spec),
        (body.spelling, (body.stage f).spelling)] rfl ?_ ?_ ?_
      · simp [hspec.nested, body.nested_spelling]
      · -- in its own stage it is still there because a directive is left in its body
        refine Decidable.or_iff_not_imp_left.2 fun h => ?_
        have hdepth : body.depth ≠ 0 := fun hd => hf ⟨(Decidable.not_not.1 h).symm, hd⟩
        simp [Directive.waits, body.hasDirective_spelling, Nat.pos_of_ne_zero hdepth]
      · simp [ih, Rewrites.kept (hspec.notMem rfl)]
  | codePoint n =>
    rw [stage]
    split
    · rename_i hf
      subst hf
      refine Rewrites.site (d := .codePoint) rfl ?_ rfl fun start stop line => ?_
      · simp [n.inert_digits.nested]
      · simp only [Resolve.site, Site.first, List.headD_cons, n.trim_digits, n.codePoint?_digits]
        exact .pure _
    · rename_i hf
      refine Rewrites.waiting (d := .codePoint) [(n.digits, n.digits)] rfl ?_
        (.inl fun h => hf h.symm) ?_
      · simp [n.inert_digits.nested]
      · simp [Rewrites.kept (n.inert_digits.notMem rfl)]

/-! ## Passes -/

/-- What a pass does to an expression. -/
def pass (e : Inline) : Inline := ((e.stage .links).stage .formats).stage .codePoints

theorem value_pass (e : Inline) : e.pass.value = e.value := by
  rw [pass, value_stage, value_stage, value_stage]

/-- A pass resolves all directives of the greatest depth. -/
theorem depth_pass_le (e : Inline) : e.pass.depth ≤ e.depth - 1 := by
  induction e with
  | plain t inert => exact Nat.le_refl 0
  | seq e e' ih ih' =>
    have hpass : (seq e e').pass = seq e.pass e'.pass := rfl
    rw [hpass, depth, depth]
    omega
  | link text url =>
    -- the link is gone behind its stage, and no later stage deepens what was inside of it
    have hpass : (link text url).pass = ((linked text url).stage .formats).stage .codePoints := rfl
    have := depth_stage_le .codePoints ((linked text url).stage .formats)
    have := depth_stage_le .formats (linked text url)
    rw [depth_linked] at this
    rw [hpass, depth]
    omega
  | format spec known body ih =>
    have hpass : (format spec known body).pass =
      ((format spec known (body.stage .links)).stage .formats).stage .codePoints := rfl
    rw [hpass, stage]
    -- either the links have left nothing in the body, or the pass lowers the body itself
    split
    · exact Nat.zero_le _
    · rename_i hf
      have hdepth : (body.stage .links).depth ≠ 0 := fun h => hf ⟨rfl, h⟩
      have := depth_stage_le .links body
      show body.pass.depth + 1 ≤ body.depth
      omega
  | codePoint n => exact Nat.le_refl 0

theorem stage_yields (hstrict : ctx.settings.strict = false) (f : Family) (e : Inline) :
    (Preprocess.stage ctx e.spelling f).Yields (e.stage f).spelling :=
  Preprocess.stage_yields (e.rewrites hstrict f) (notMem_spelling _) (nested_spelling _)

theorem pass_yields (hstrict : ctx.settings.strict = false) (e : Inline) :
    (Preprocess.pass ctx e.spelling).Yields e.pass.spelling := by
  have idle {f : Family} (hl : f ≠ .links) (hf : f ≠ .formats) (hc : f ≠ .codePoints)
      (e : Inline) : (Preprocess.stage ctx e.spelling f).Yields e.spelling := by
    have := stage_yields hstrict f e
    rwa [stage_of_ne hl hf hc] at this
  have hmacros := idle (f := .macros) nofun nofun nofun e
  have hincludes := idle (f := .includes) nofun nofun nofun e
  have htables := idle (f := .tables) nofun nofun nofun e
  have hreplacements := idle (f := .replacements) nofun nofun nofun e.pass
  exact hmacros.bind <| hincludes.bind <| htables.bind <| (stage_yields hstrict .links e).bind <|
    (stage_yields hstrict .formats _).bind <| (stage_yields hstrict .codePoints _).bind <|
    hreplacements.bind (.pure _)

/-- Passes end with the value of an expression, after no more of them than it is deep. -/
theorem converge_spelling (hstrict : ctx.settings.strict = false) {fuel : Nat} {e : Inline}
    {s : RunState} (hs : s.pending = []) (hfuel : e.depth ≤ fuel)
    (hpasses : ctx.settings.maxPasses = 0 ∨ s.passes + e.depth ≤ ctx.settings.maxPasses) :
    ∃ t, Preprocess.converge ctx fuel e.spelling s = .ok e.value t ∧
      t.passes ≤ s.passes + e.depth := by
  induction fuel generalizing e s with
  | zero =>
    have hdepth := Nat.le_zero.1 hfuel
    refine ⟨s, ?_, Nat.le_add_right ..⟩
    rw [Preprocess.converge_of_resolved (by simp [hasDirective_spelling, hdepth]),
      spelling_of_depth_zero hdepth]
    rfl
  | succ fuel ih =>
    by_cases hdepth : e.depth = 0
    · refine ⟨s, ?_, Nat.le_add_right ..⟩
      rw [Preprocess.converge_of_resolved (by simp [hasDirective_spelling, hdepth]),
        spelling_of_depth_zero hdepth]
      rfl
    · have hlower := e.depth_pass_le
      obtain ⟨s₁, hpass, hs₁⟩ := pass_yields hstrict e s.nextPass hs
      have hcount : s₁.passes = s.passes + 1 := hs₁.passes
      obtain ⟨t, hconverge, ht⟩ := ih (e := e.pass) (hs₁.pending.trans hs) (by omega) (by omega)
      have hdirective : e.spelling.hasDirective = true := by
        simp [hasDirective_spelling, Nat.pos_of_ne_zero hdepth]
      refine ⟨t, (Preprocess.converge_eq_ok_iff hdirective).2 ⟨by omega, _, s₁, hpass, ?_⟩, by omega⟩
      rw [hconverge, value_pass]

end Inline

/-- Preprocessing the spelling of an expression gives its value, after no more passes than the
expression is deep. -/
theorem preprocess_spelling (ctx : Context) (e : Inline) (hstrict : ctx.settings.strict = false)
    (hpasses : ctx.settings.maxPasses = 0 ∨ e.depth ≤ ctx.settings.maxPasses)
    (hpatience : ctx.settings.maxPasses = 0 → e.depth ≤ ctx.patience) :
    ∃ s, preprocess ctx e.spelling = .ok e.value s ∧ s.passes ≤ e.depth := by
  have hprotect := Scheme.protect_of_notMem (s := .document) e.notMem_spelling
  obtain ⟨s₁, hs₁, hsource⟩ := Preprocess.source_of_converge ctx (s := {}) rfl
    (Scheme.fault?_of_notMem e.notMem_spelling)
    (by rw [hprotect]; exact e.nested_spelling.braces_eq)
  have hfuel : e.depth ≤ Preprocess.fuel ctx := by
    unfold Preprocess.fuel
    split
    · exact hpatience ‹_›
    · omega
  have hcount : s₁.passes = 0 := hs₁.passes
  obtain ⟨s₂, hconverge, hs₂⟩ := Inline.converge_spelling hstrict (e := e) (s := s₁)
    hs₁.pending hfuel (by omega)
  rw [hprotect] at hsource
  obtain ⟨s₃, hs₃, hresult⟩ := hsource _ _ hconverge
  refine ⟨s₃, hresult, ?_⟩
  rw [hs₃.passes]
  omega

/-- A link whose text is a format with a code point in it. -/
def Inline.nestedThrice : Inline :=
  .link
    (.format ['b', 'b', 'i'] (by simp [Style.specifiers]) (.seq (.plain ['a'] (by decide))
      (.codePoint ⟨['7', 'B'], by decide, by decide, List.all_eq_true.1 (by decide), by decide⟩)))
    (.plain ['u'] (by decide))

theorem preprocess_spelling_nestedThrice :
    ∃ s, preprocess { settings := { maxPasses := 3 } }
        ".link\x7b.format\x7bbbi\x7d\x7ba.unicode\x7b7B\x7d\x7d\x7d\x7bu\x7d".toList =
      .ok "<a href=\"u\"><i><b>a@#\x27:[;:LB]</b></i></a>".toList s ∧ s.passes ≤ 3 := by
  have hspelling : Inline.nestedThrice.spelling =
      ".link\x7b.format\x7bbbi\x7d\x7ba.unicode\x7b7B\x7d\x7d\x7d\x7bu\x7d".toList := by
    decide +kernel
  have hvalue : Inline.nestedThrice.value =
      "<a href=\"u\"><i><b>a@#\x27:[;:LB]</b></i></a>".toList := by decide +kernel
  rw [← hspelling, ← hvalue]
  exact preprocess_spelling _ Inline.nestedThrice rfl (.inr (by decide)) nofun

end Bracemark
